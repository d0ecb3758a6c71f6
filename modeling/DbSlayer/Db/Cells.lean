import DbSlayer.Db.Statements
import DbSlayer.Json.RoundTrip

/-! # What the cells of a result say

Each row of a result set is an array of cells, built by a switch on the type of the
column that is not the one that names the types. Integers pass through `atol` or
`strtoll`, strings through a copy that stops at a zero byte.
-/

namespace DbSlayer.Db

open Foundation Json

variable {δ : Type} [CDouble δ]

/-! ## The shape of a result -/

/-- A type that the switch over the cells has a case for. -/
def FieldType.named : FieldType → Bool
  | other _ => false
  | _ => true

/-- A row of the output: one cell for each column, made of that column of the row. -/
def RowOf (fields : List Field) (row : List (Option Bytes)) (json : JsonValue δ) : Prop :=
  ∃ cells, json = .array cells ∧ cells.length = fields.length ∧
    ∀ (j : Nat) field cell value, fields[j]? = some field → row[j]? = some cell →
      cells[j]? = some value → rowCell field cell = [value]

/-- The names, the types and each row have as many entries as there are columns, and the
rows are those of the result, in their order. -/
def Rectangular (result : ResultSet) (json : JsonValue δ) : Prop :=
  ∃ entries header types rows, json = .object entries ∧
    objectGet entries (bytes "HEADER") = some (.array header) ∧
    header.length = result.fields.length ∧
    objectGet entries (bytes "TYPES") = some (.array types) ∧
    types.length = result.fields.length ∧
    objectGet entries (bytes "ROWS") = some (.array rows) ∧
    List.Forall₂ (RowOf result.fields) result.rows rows

/-- A cell gives one value, or none for a type the switch does not name, as the switch has no
default. -/
theorem rowCell_length (field : Field) (cell : Option Bytes) :
    (rowCell field cell : List (JsonValue δ)).length = if field.type.named then 1 else 0 := by
  unfold rowCell
  split <;> simp_all [FieldType.named]
  all_goals split <;> rfl

/-- The cells of a row. -/
def rowCells (fields : List Field) (row : List (Option Bytes)) : List (JsonValue δ) :=
  (fields.zip row).flatMap fun pair => rowCell pair.1 pair.2

theorem rowCells_cons (field : Field) (fields : List Field) (cell : Option Bytes)
    (row : List (Option Bytes)) :
    (rowCells (field :: fields) (cell :: row) : List (JsonValue δ)) =
      rowCell field cell ++ rowCells fields row := rfl

/-- A row has a cell for each column whose type has a case. -/
theorem rowCells_length {fields : List Field} {row : List (Option Bytes)}
    (hrow : row.length = fields.length) :
    (rowCells fields row : List (JsonValue δ)).length =
      fields.countP fun field => field.type.named := by
  induction fields generalizing row with
  | nil => simp [rowCells]
  | cons field fields ih =>
      cases row with
      | nil => simp at hrow
      | cons cell row =>
          rw [rowCells_cons, List.length_append, rowCell_length, ih (by simpa using hrow),
            List.countP_cons]
          omega

/-- With a case for every type the cells are those of the columns, each in the place of its
own column. -/
theorem rowCells_getElem {fields : List Field} (hnamed : ∀ field ∈ fields, field.type.named = true)
    {row : List (Option Bytes)} {j : Nat} {field : Field} {cell : Option Bytes}
    {value : JsonValue δ} (hfield : fields[j]? = some field) (hcell : row[j]? = some cell)
    (hvalue : (rowCells fields row)[j]? = some value) : rowCell field cell = [value] := by
  induction fields generalizing row j with
  | nil => simp at hfield
  | cons first fields ih =>
      cases row with
      | nil => simp at hcell
      | cons head row =>
          have hone : (rowCell first head : List (JsonValue δ)).length = 1 := by
            rw [rowCell_length, if_pos (hnamed first List.mem_cons_self)]
          obtain ⟨only, honly⟩ := List.length_eq_one_iff.mp hone
          rw [rowCells_cons, honly, List.singleton_append] at hvalue
          cases j with
          | zero =>
              simp only [List.getElem?_cons_zero, Option.some.injEq] at hfield hcell hvalue
              rw [← hfield, ← hcell, ← hvalue]
              exact honly
          | succ j =>
              simp only [List.getElem?_cons_succ] at hfield hcell hvalue
              exact ih (fun other hother => hnamed other (List.mem_cons_of_mem first hother))
                hfield hcell hvalue

/-- A row has a value for every column exactly when the switch of `dbresult2json` names the
types of all its columns. -/
theorem rowOf_iff {fields : List Field} {row : List (Option Bytes)}
    (hrow : row.length = fields.length) :
    RowOf fields row (rowValue fields row : JsonValue δ) ↔
      ∀ field ∈ fields, field.type.named = true := by
  have hlength := @rowCells_length δ _ fields row hrow
  constructor
  · rintro ⟨cells, hcells, hcount, -⟩
    obtain rfl : rowCells fields row = cells := JsonValue.array.inj hcells
    rw [hlength] at hcount
    simpa using List.countP_eq_length.mp hcount
  · intro hnamed
    refine ⟨rowCells fields row, rfl, ?_, ?_⟩
    · rw [hlength, List.countP_eq_length]
      exact hnamed
    · intro j field cell value hfield hcell hvalue
      exact rowCells_getElem hnamed hfield hcell hvalue

/-- The named types are those that have a case of their own. -/
theorem named_iff (type : FieldType) : type.named = true ↔ ∀ code, type ≠ .other code := by
  cases type <;> simp [FieldType.named]

/-- A result is rectangular when each of its rows is. -/
theorem rectangular_iff_rows (result : ResultSet) :
    Rectangular result (dbresult2json result : JsonValue δ) ↔
      List.Forall₂ (RowOf (δ := δ) result.fields) result.rows
        (result.rows.map (rowValue result.fields)) := by
  constructor
  · rintro ⟨entries, header, types, rows, hjson, -, -, -, -, hrows, hall⟩
    obtain rfl := JsonValue.object.inj hjson
    rw [objectGet_objectOf] at hrows
    obtain rfl : result.rows.map (rowValue result.fields) = rows :=
      JsonValue.array.inj (Option.some.inj hrows)
    exact hall
  · intro hall
    refine ⟨_, result.fields.map fun field => jsonStringCreate field.name,
      result.fields.map columnType, _, rfl, ?_, by simp, ?_, by simp, ?_, hall⟩
    · rw [objectGet_objectOf]
      rfl
    · rw [objectGet_objectOf]
      rfl
    · rw [objectGet_objectOf]
      rfl

/-- A result is rectangular if and only if it has no row, or no column of a type that the
switch over the cells does not name. -/
theorem dbresult2json_rectangular_iff (result : ResultSet)
    (hrows : ∀ row ∈ result.rows, row.length = result.fields.length) :
    Rectangular result (dbresult2json result : JsonValue δ) ↔
      (result.rows = [] ∨ ∀ field ∈ result.fields, ∀ code, field.type ≠ .other code) := by
  have hrow : ∀ row ∈ result.rows, (RowOf result.fields row
      (rowValue result.fields row : JsonValue δ) ↔
        ∀ field ∈ result.fields, ∀ code, field.type ≠ .other code) := by
    intro row hmem
    rw [rowOf_iff (hrows row hmem)]
    simp only [named_iff]
  rw [rectangular_iff_rows, List.forall₂_map_right_iff, List.forall₂_same]
  constructor
  · intro hall
    cases hfirst : result.rows with
    | nil => exact .inl rfl
    | cons row rest =>
        have hmem : row ∈ result.rows := by simp [hfirst]
        exact .inr ((hrow row hmem).mp (hall row hmem))
  · rintro (hnone | hnamed) row hmem
    · simp [hnone] at hmem
    · exact (hrow row hmem).mpr hnamed

/-- An integer column and a column of type `MYSQL_TYPE_JSON`, whose code is 245. -/
def jsonColumns : ResultSet where
  fields := [⟨bytes "doc", .other 245, 45⟩, ⟨bytes "id", .long, 63⟩]
  rows := [[some (bytes "[1]"), some (bytes "7")]]

theorem dbresult2json_rectangular_blob :
    Rectangular ⟨[⟨bytes "doc", .blob, 45⟩, ⟨bytes "id", .long, 63⟩], jsonColumns.rows⟩
      (dbresult2json ⟨[⟨bytes "doc", .blob, 45⟩, ⟨bytes "id", .long, 63⟩], jsonColumns.rows⟩ :
        JsonValue Bytes) := by
  refine (dbresult2json_rectangular_iff _ ?_).mpr (.inr ?_)
  · simp [jsonColumns]
  · simp

/-- The cell of the second column stands under the header of the first, whose type the switch
does not name. -/
theorem dbresult2json_drops_cell :
    ¬ Rectangular jsonColumns (dbresult2json jsonColumns : JsonValue Bytes) ∧
      (rowValue jsonColumns.fields [some (bytes "[1]"), some (bytes "7")] : JsonValue Bytes) =
        .array [.long 7] := by
  constructor
  · rw [rectangular_iff_rows]
    intro hall
    have hrow := (List.forall₂_cons.mp hall).1
    have hnamed := (rowOf_iff rfl).mp hrow ⟨bytes "doc", .other 245, 45⟩ List.mem_cons_self
    exact absurd hnamed (by decide)
  · rfl

/-! ## Integer cells -/

/-- The integer types of columns. -/
inductive IntegerType where
  | tiny | short | int24 | long | longlong
  deriving DecidableEq, Repr

namespace IntegerType

def fieldType : IntegerType → FieldType
  | tiny => .tiny
  | short => .short
  | int24 => .int24
  | long => .long
  | longlong => .longlong

/-- How many bits a value has. -/
def bits : IntegerType → Nat
  | tiny => 8
  | short => 16
  | int24 => 24
  | long => 32
  | longlong => 64

/-- The values that a column can store. -/
def Stores (type : IntegerType) (unsigned : Bool) (value : Int) : Prop :=
  if unsigned then 0 ≤ value ∧ value < 2 ^ type.bits
  else -2 ^ (type.bits - 1) ≤ value ∧ value < 2 ^ (type.bits - 1)

theorem Stores.ge {type : IntegerType} {unsigned : Bool} {value : Int}
    (hstores : type.Stores unsigned value) : -2 ^ 63 ≤ value := by
  unfold Stores at hstores
  cases type <;> cases unsigned <;> simp [bits] at hstores <;> omega

end IntegerType

/-- A text of a value in decimal: digits, behind a minus for a negative value. -/
def DecimalText (value : Int) (text : Bytes) : Prop :=
  ∃ sign digits, text = sign ++ digits ∧ digits ≠ [] ∧ Digits digits ∧
    (sign = [] ∨ sign = [ch '-']) ∧ value = integerValue text

/-- What a text prints is the decimal form of the value. -/
def Denotes (text : Bytes) (value : Int) : Prop :=
  NumberText text ∧ isInteger text = true ∧ integerValue text = value

/-- `strtol` on a decimal text gives its value, held at the ends of `long` where the value does
not fit. -/
theorem strtol_decimalText {value : Int} {text : Bytes} (htext : DecimalText value text) :
    (strtol text).1 = Int64.ofIntClamp value := by
  obtain ⟨sign, digits, rfl, hne, hdigits, hsign, hvalue⟩ := htext
  have hstart : NumberStart sign digits := by
    rcases hsign with rfl | rfl
    · obtain ⟨c, rest, rfl⟩ := List.exists_cons_of_ne_nil hne
      exact .inl ⟨rfl, c, rest, rfl, hdigits c List.mem_cons_self⟩
    · exact .inr rfl
  have hrun : digits.takeWhile isdigit = digits := List.takeWhile_eq_self_iff.mpr hdigits
  rw [hstart.strtol_eq, hrun, if_neg hne, hvalue]

/-- The clamp keeps exactly the values of a `long`, which is where `strtoll` does not
saturate. -/
theorem toInt_ofIntClamp_iff {value : Int} (hlow : -2 ^ 63 ≤ value) :
    (Int64.ofIntClamp value).toInt = value ↔ value < 2 ^ 63 := by
  constructor
  · intro hkept
    rw [← hkept]
    exact Int64.toInt_lt _
  · intro hhigh
    exact Int64.toInt_ofIntClamp hlow (Int.le_sub_one_of_lt hhigh)

/-- The unsigned number is reinterpreted. -/
theorem toInt_toInt64_iff (number : UInt64) :
    number.toInt64.toInt = number.toNat ↔ number.toNat < 2 ^ 63 := by
  constructor
  · intro hkept
    have hlt := Int64.toInt_lt number.toInt64
    omega
  · intro hlt
    have hnumber : number.toInt64 = Int64.ofNat number.toNat := by
      rw [← UInt64.toInt64_ofNat', UInt64.ofNat_toNat]
    rw [hnumber, Int64.toInt_ofNat_of_lt hlt]

theorem denotes_printLong_iff (number : Int64) (value : Int) :
    Denotes (printLong number) value ↔ number.toInt = value := by
  obtain ⟨htext, hinteger, hvalue⟩ := numberText_printLong number
  simp [Denotes, htext, hinteger, hvalue]

/-- An integer cell prints the number that was read. -/
theorem rowCell_integer (type : IntegerType) (name : Bytes) (charsetnr : Nat) (text : Bytes) :
    ∃ cell : JsonValue δ, rowCell ⟨name, type.fieldType, charsetnr⟩ (some text) = [cell] ∧
      jsonSerialize cell = printLong (strtol text).1 := by
  cases type with
  | longlong => exact ⟨.longlong (strtol text).1, rfl, by rw [jsonSerialize, jsonSerializeInternal]⟩
  | tiny | short | int24 | long =>
      exact ⟨.long (strtol text).1, rfl, by rw [jsonSerialize, jsonSerializeInternal]⟩

/-- An integer of a cell, and the number of an inserted row, come out as they are if and
only if they fit a signed 64-bit integer. -/
theorem integers_exact_iff :
    (∀ (type : IntegerType) (unsigned : Bool) (name : Bytes) (charsetnr : Nat) (value : Int)
      (text : Bytes), type.Stores unsigned value → DecimalText value text →
      ((∃ cell : JsonValue δ, rowCell ⟨name, type.fieldType, charsetnr⟩ (some text) = [cell] ∧
          Denotes (jsonSerialize cell) value) ↔ value < 2 ^ 63)) ∧
    (∀ (db : Option Token) (w : World) (count insertId : UInt64),
      (w.connection db).current = .affected count insertId →
      ((∃ entries number, result (dbaffected2json db) w = (.object entries : JsonValue δ) ∧
          objectGet entries (bytes "INSERT_ID") = some number ∧
          Denotes (jsonSerialize number) insertId.toNat) ↔ insertId.toNat < 2 ^ 63)) := by
  constructor
  · intro type unsigned name charsetnr value text hstores htext
    obtain ⟨cell, hcell, hprint⟩ := @rowCell_integer δ _ type name charsetnr text
    -- `strtol` clamps what it reads, and only at the upper end for a stored value
    rw [← toInt_ofIntClamp_iff hstores.ge, ← strtol_decimalText htext, ← denotes_printLong_iff,
      ← hprint]
    constructor
    · rintro ⟨other, hother, hdenotes⟩
      obtain rfl : cell = other := List.singleton_inj.mp (hcell.symm.trans hother)
      exact hdenotes
    · intro hdenotes
      exact ⟨cell, hcell, hdenotes⟩
  · intro db w count insertId hcurrent
    have hget : objectGet (objectOf [
        (bytes "SUCCESS", .boolean 1),
        (bytes "AFFECTED_ROWS", .long count.toInt64),
        (bytes "INSERT_ID", (.long insertId.toInt64 : JsonValue δ))]) (bytes "INSERT_ID") =
          some (.long insertId.toInt64) := by
      rw [objectGet_objectOf]
      rfl
    have hprint : jsonSerialize (.long insertId.toInt64 : JsonValue δ) =
        printLong insertId.toInt64 := by rw [jsonSerialize, jsonSerializeInternal]
    -- the conversion to `long` wraps around instead
    rw [dbaffected2json_result hcurrent, ← toInt_toInt64_iff, ← denotes_printLong_iff, ← hprint]
    constructor
    · rintro ⟨entries, number, hobject, hnumber, hdenotes⟩
      obtain rfl := JsonValue.object.inj hobject
      obtain rfl := Option.some.inj (hget.symm.trans hnumber)
      exact hdenotes
    · intro hdenotes
      exact ⟨_, _, rfl, hget, hdenotes⟩

theorem integers_exact_minus_seven :
    ∃ cell : JsonValue Bytes, rowCell ⟨bytes "delta", .tiny, 63⟩ (some (bytes "-7")) = [cell] ∧
      Denotes (jsonSerialize cell) (-7) := by
  have htext : DecimalText (-7) (bytes "-7") :=
    ⟨[ch '-'], bytes "7", rfl, by decide, by simp [Digits, bytes]; decide, .inr rfl, by decide⟩
  have hstores : IntegerType.tiny.Stores false (-7) := by
    simp [IntegerType.Stores, IntegerType.bits]
  exact (integers_exact_iff.1 .tiny false (bytes "delta") 63 (-7) (bytes "-7") hstores
    htext).mpr (by decide)

/-- The first handle, behind a statement that inserted a row with this number. -/
def insertedRow (insertId : UInt64) : World :=
  ⟨[], fun _ => ⟨.none, .affected 1 insertId, .done⟩⟩

/-- The greatest value of an unsigned `BIGINT` comes out as the greatest signed one, and the
number of an inserted row as a negative one. -/
theorem integers_saturate :
    (∃ cell : JsonValue Bytes, IntegerType.longlong.Stores true 18446744073709551615 ∧
      DecimalText 18446744073709551615 (bytes "18446744073709551615") ∧
      rowCell ⟨bytes "id", .longlong, 63⟩ (some (bytes "18446744073709551615")) = [cell] ∧
      ¬ Denotes (jsonSerialize cell) 18446744073709551615 ∧
      Denotes (jsonSerialize cell) 9223372036854775807) ∧
    (∃ entries number, result (dbaffected2json (some 0)) (insertedRow 9223372036854775808) =
        (.object entries : JsonValue Bytes) ∧
      objectGet entries (bytes "INSERT_ID") = some number ∧
      ¬ Denotes (jsonSerialize number) 9223372036854775808 ∧
      Denotes (jsonSerialize number) (-9223372036854775808)) := by
  constructor
  · have htext : DecimalText 18446744073709551615 (bytes "18446744073709551615") :=
      ⟨[], bytes "18446744073709551615", rfl, by decide, by simp [Digits, bytes]; decide, .inl rfl,
        by decide⟩
    have hread : (strtol (bytes "18446744073709551615")).1.toInt = 9223372036854775807 := by
      rw [strtol_decimalText htext]
      decide
    obtain ⟨cell, hcell, hprint⟩ :=
      @rowCell_integer Bytes _ .longlong (bytes "id") 63 (bytes "18446744073709551615")
    refine ⟨cell, by simp [IntegerType.Stores, IntegerType.bits], htext, hcell, ?_, ?_⟩
    · rw [hprint, denotes_printLong_iff, hread]
      decide
    · rw [hprint, denotes_printLong_iff, hread]
  · have hprint : jsonSerialize (.long (9223372036854775808 : UInt64).toInt64 : JsonValue Bytes) =
        printLong (9223372036854775808 : UInt64).toInt64 := by
      rw [jsonSerialize, jsonSerializeInternal]
    refine ⟨_, .long (9223372036854775808 : UInt64).toInt64, rfl, ?_, ?_, ?_⟩
    · rw [objectGet_objectOf]
      rfl
    · rw [hprint, denotes_printLong_iff]
      decide
    · rw [hprint, denotes_printLong_iff]
      decide

/-! ## String cells -/

/-- The types of columns whose cells are strings of any bytes. -/
inductive StringType where
  | bit | string | varString | varchar
  deriving DecidableEq, Repr

def StringType.fieldType : StringType → FieldType
  | bit => .bit
  | string => .string
  | varString => .varString
  | varchar => .varchar

/-- The four string types keep a text through `json_string_create`. -/
theorem rowCell_string (type : StringType) (name : Bytes) (charsetnr : Nat) (text : Bytes) :
    (rowCell ⟨name, type.fieldType, charsetnr⟩ (some text) : List (JsonValue δ)) =
      [jsonStringCreate text] := by
  cases type <;> rfl

/-- A printed string reads back as the C string that it starts with, since `apr_pstrdup` stops
at the first zero byte. -/
theorem decodeText_jsonStringCreate (text : Bytes) :
    decodeText (jsonSerialize (jsonStringCreate text : JsonValue δ)) =
      some (.string (cstr text) : JsonValue δ) := by
  have htree : Tree jsonMaxDepth (jsonStringCreate text : JsonValue δ) :=
    .string (nulFree_cstr text)
  obtain ⟨ast, hast, hdenote⟩ := (written_jsonSerialize htree).derives
  have htext : TextOf jsonMaxDepth ast (jsonSerialize (jsonStringCreate text : JsonValue δ)) :=
    ⟨[], _, [], blank_nil, blank_nil, hast, by simp⟩
  rw [decodeText_complete htext, hdenote, jsonStringCreate, DbSlayer.Json.normalize]

/-- A text survives as a C string exactly when it has no zero byte. -/
theorem cstr_eq_self_iff (text : Bytes) : cstr text = text ↔ NulFree text := by
  constructor
  · intro hsame
    rw [← hsame]
    exact nulFree_cstr text
  · intro hfree
    exact cstr_of_nulFree hfree

/-- What is printed for two strings is the same if and only if they agree up to their first
zero byte. -/
theorem jsonSerialize_jsonStringCreate_inj (text other : Bytes) :
    jsonSerialize (jsonStringCreate text : JsonValue δ) =
      jsonSerialize (jsonStringCreate other : JsonValue δ) ↔ cstr text = cstr other := by
  constructor
  · intro hprinted
    have hdecoded := @decodeText_jsonStringCreate δ _ text
    rw [hprinted, decodeText_jsonStringCreate] at hdecoded
    exact (JsonValue.string.inj (Option.some.inj hdecoded)).symm
  · intro hsame
    rw [jsonStringCreate, hsame, ← jsonStringCreate]

/-- The cell of a string column reads back as its bytes if and only if none is zero, and two
such cells are printed alike if and only if they agree up to their first zero byte. -/
theorem strings_exact_iff (type : StringType) (name : Bytes) (charsetnr : Nat) (text : Bytes) :
    ∃ cell : JsonValue δ, rowCell ⟨name, type.fieldType, charsetnr⟩ (some text) = [cell] ∧
      (decodeText (jsonSerialize cell) = some (.string text : JsonValue δ) ↔ NulFree text) ∧
      ∀ (type' : StringType) (name' : Bytes) (charsetnr' : Nat) (other : Bytes)
        (cell' : JsonValue δ),
        rowCell ⟨name', type'.fieldType, charsetnr'⟩ (some other) = [cell'] →
        (jsonSerialize cell = jsonSerialize cell' ↔ cstr text = cstr other) := by
  refine ⟨jsonStringCreate text, rowCell_string type name charsetnr text, ?_, ?_⟩
  · rw [decodeText_jsonStringCreate, ← cstr_eq_self_iff]
    simp
  · intro type' name' charsetnr' other cell' hcell'
    rw [rowCell_string] at hcell'
    obtain rfl := List.singleton_inj.mp hcell'
    exact jsonSerialize_jsonStringCreate_inj text other

/-- A bit field of one zero byte is printed like one without any byte. -/
theorem strings_lose_zero_byte :
    ∃ cell : JsonValue Bytes, rowCell ⟨bytes "flags", .bit, 63⟩ (some [0]) = [cell] ∧
      rowCell ⟨bytes "flags", .bit, 63⟩ (some []) = [cell] ∧
      decodeText (jsonSerialize cell) ≠ some (.string [0] : JsonValue Bytes) := by
  refine ⟨jsonStringCreate [0], rfl, rfl, ?_⟩
  rw [decodeText_jsonStringCreate]
  simp [cstr]

end DbSlayer.Db
