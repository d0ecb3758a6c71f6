import DbSlayer.Db.Cells
import DbSlayer.Db.Verdict
import DbSlayer.Json.RoundTrip

/-! # What a client reads of the results

The answers of MySQL in their own terms: tables of integers, texts and nulls, and numbers of
changed rows. A client that decodes the `RESULT` of a page gets these answers back, one for
each statement that succeeded and in their order, wherever the types of MySQL and JSON meet:
integers of 64 bits and texts without a zero byte.
-/

namespace DbSlayer.Db

open Foundation Json

/-! ## Answers -/

/-- What a cell says. -/
inductive Datum where
  | null
  | integer (value : Int)
  | text (value : Bytes)
deriving DecidableEq, Repr

structure Table where
  header : List Bytes
  types : List Bytes
  rows : List (List Datum)
deriving DecidableEq, Repr

/-- What a statement that succeeded says. -/
inductive Answer where
  | table (table : Table)
  | change (affectedRows insertId : Int)
deriving DecidableEq, Repr

/-- The columns whose cells are sent as they are. -/
inductive ColumnKind where
  | integer
  | text
deriving DecidableEq, Repr

def Field.kind (field : Field) : Option ColumnKind :=
  match field.type with
  | .tiny | .short | .long | .int24 | .longlong => some .integer
  | .bit | .timestamp | .date | .time | .datetime | .year | .string | .varString | .newdate
  | .varchar => some .text
  | .blob | .tinyBlob | .mediumBlob | .longBlob =>
      if field.charsetnr = 63 then none else some .text
  | _ => none

/-- What a cell of a column means. -/
def ColumnKind.datum (kind : ColumnKind) : Option Bytes → Datum
  | none => .null
  | some cell =>
      match kind with
      | .integer => .integer (integerValue cell)
      | .text => .text cell

/-- The cell can be carried by JSON and a `long`. -/
def ColumnKind.Carries (kind : ColumnKind) (cell : Bytes) : Prop :=
  match kind with
  | .integer => ∃ value, DecimalText value cell ∧ -2 ^ 63 ≤ value ∧ value < 2 ^ 63
  | .text => NulFree cell

/-- The name that the type of a column is sent under. -/
def Field.typeName (field : Field) : Bytes :=
  bytes (if isBlob field.type ∧ field.charsetnr = 63 then "MYSQL_TYPE_TEXT"
    else plainTypeName field.type)

def ResultSet.table (set : ResultSet) : Table where
  header := set.fields.map Field.name
  types := set.fields.map Field.typeName
  rows := set.rows.map fun row =>
    (set.fields.zip row).map fun pair => (pair.1.kind.getD .text).datum pair.2

/-- A result set that JSON can carry. -/
structure ResultSet.Carried (set : ResultSet) : Prop where
  names : ∀ field ∈ set.fields, NulFree field.name
  kinds : ∀ field ∈ set.fields, field.kind.isSome
  cells : ∀ row ∈ set.rows, ∀ pair ∈ set.fields.zip row, ∀ kind text,
    pair.1.kind = some kind → pair.2 = some text → kind.Carries text

def Statement.answer : Statement → Option Answer
  | rows set => some (.table set.table)
  | affected count insertId => some (.change count.toNat insertId.toNat)
  | failed _ => none

def Statement.Carried : Statement → Prop
  | rows set => set.Carried
  | affected count insertId => count.toNat < 2 ^ 63 ∧ insertId.toNat < 2 ^ 63
  | failed _ => True

/-- The answers up to the first statement that fails. -/
def answers (current : Statement) : Batch → List Answer
  | .done | .failed _ => current.answer.toList
  | .more next rest =>
      match current.answer with
      | none => []
      | some answer => answer :: answers next rest

/-- Everything that the batch answers can be carried. -/
def Carried (current : Statement) : Batch → Prop
  | .done | .failed _ => current.Carried
  | .more next rest => current.Carried ∧ Carried next rest

/-! ## Reading them -/

section Reading

variable {δ : Type}

def readArray {α : Type} (read : JsonValue δ → Option α) : JsonValue δ → Option (List α)
  | .array elements => elements.mapM read
  | _ => none

/-- A member of an object, read. -/
def readMember {α : Type} (entries : Entries δ) (key : String) (read : JsonValue δ → Option α) :
    Option α :=
  (objectGet entries (bytes key)).bind read

end Reading

/-- A list is read item by item. -/
theorem mapM_of_forall₂ {α β : Type} {f : α → Option β} {items : List α} {values : List β}
    (hitems : List.Forall₂ (fun item value => f item = some value) items values) :
    items.mapM f = some values := by
  induction hitems with
  | nil => rfl
  | cons hfirst _ ih => simp [List.mapM_cons, hfirst, ih]

/-! ## A table is read back -/

section Tables

variable {δ : Type} [CDouble δ]

/-- A value that can be written, and what it is read as. -/
structure WrittenAs {α : Type} (read : JsonValue δ → Option α) (depth : Nat) (json : JsonValue δ)
    (value : α) : Prop where
  tree : Tree depth json
  read : read (Json.normalize json) = some value

omit [CDouble δ] in
/-- Elements that can be read make an array that can be read. -/
theorem WrittenAs.array {α : Type} {read : JsonValue δ → Option α} {depth : Nat}
    {elements : List (JsonValue δ)} {values : List α}
    (helements : List.Forall₂ (WrittenAs read depth) elements values) :
    WrittenAs (readArray read) (depth + 1) (.array elements) values := by
  obtain ⟨htrees, hread⟩ := (List.forall₂_and_left _ _).mp
    (helements.imp fun _ _ hwritten => ⟨hwritten.tree, hwritten.read⟩)
  refine ⟨.array htrees, ?_⟩
  rw [Json.normalize, normalizeElements_eq_map, readArray]
  exact mapM_of_forall₂ (List.forall₂_map_left_iff.mpr hread)

omit [CDouble δ] in
/-- A member that can be read is read through its key, also after decoding. -/
theorem WrittenAs.member {α : Type} {read : JsonValue δ → Option α} {depth : Nat}
    {json : JsonValue δ} {value : α} (hwritten : WrittenAs read depth json value)
    {entries : Entries δ} {key : String} (hget : objectGet entries (bytes key) = some json) :
    readMember (normalizeMembers entries) key read = some value := by
  rw [readMember, normalizeMembers_eq_map, objectGet, Assoc.get_map, ← objectGet, hget]
  exact hwritten.read

omit [CDouble δ] in
/-- An array that is built item by item can be read item by item, if each of its items can. -/
theorem WrittenAs.map {α ι : Type} {read : JsonValue δ → Option α} {depth : Nat} {items : List ι}
    {create : ι → JsonValue δ} {value : ι → α}
    (hitems : ∀ item ∈ items, WrittenAs read depth (create item) (value item)) :
    WrittenAs (readArray read) (depth + 1) (.array (items.map create)) (items.map value) := by
  apply WrittenAs.array
  rw [List.forall₂_map_left_iff, List.forall₂_map_right_iff, List.forall₂_same]
  exact hitems

/-- What MySQL answered, before the error if there is one. -/
def Verdict.answers : Verdict → List Answer
  | unasked | failed _ => []
  | answered first rest => Db.answers first rest

/-- The answers and the error are such that JSON can carry them. -/
structure Verdict.Carried (verdict : Verdict) : Prop where
  batch : ∀ first rest, verdict = answered first rest → Db.Carried first rest
  error : ∀ error, verdict.error = some error → NulFree error.text

end Tables

end DbSlayer.Db
