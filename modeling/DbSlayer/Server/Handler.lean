import DbSlayer.Http.Urldecode
import DbSlayer.Json.Correctness

/-! # The statement of a request

What `dbjson_handler` takes the query of a `/db` request for. The query is decoded
into a buffer, and the length of the buffer is counted up to its first zero byte.
-/

namespace DbSlayer.Server

open DbSlayer.Http DbSlayer.Json Foundation

variable {δ : Type} [CDouble δ]

/-- The statement of a `/db` request. -/
def dbStatement (query : Option Bytes) : Option (JsonValue δ) :=
  let cquery := urldecode query
  decodeJson cquery (Int32.ofNat (strlen cquery))

/-- A text of the decoder's grammar. -/
def AcceptedText (text : Bytes) : Prop := ∃ ast, TextOf jsonMaxDepth ast text

/-! ## What is sent -/

/-- The query is a text of the value, in any percent-encoding. -/
def Sends (query : Bytes) (stmt : JsonValue δ) : Prop :=
  ∃ text ast, NulFree text ∧ TextOf jsonMaxDepth ast text ∧ ast.denote = stmt ∧
    PercentEncoded text query

/-- What a client sends is the statement of its request: decoding the query gives the text, and
the text denotes the object. -/
theorem dbStatement_sends {query : Bytes} {stmt : JsonValue δ} (hsends : Sends query stmt)
    (hsize : query.length < 2 ^ 31) : dbStatement (some query) = some stmt := by
  obtain ⟨text, ast, hfree, htext, rfl, hencoded⟩ := hsends
  have hlength : strlen text < 2 ^ 31 := by
    rw [strlen_of_nulFree hfree]
    exact Nat.lt_of_le_of_lt hencoded.length_le hsize
  rw [dbStatement, urldecode_of_percentEncoded hfree hencoded]
  exact decodeJson_complete hfree (Int32.toInt_ofNat_of_lt hlength) htext

theorem Sends.nulFree {query : Bytes} {stmt : JsonValue δ} (hsends : Sends query stmt) :
    NulFree query := by
  obtain ⟨text, ast, hfree, -, -, hencoded⟩ := hsends
  exact hencoded.nulFree hfree

/-- Bytes other than a quotation mark and a backslash stand for themselves in a string. -/
theorem stringBody_plain {text : Bytes} (htext : ∀ c ∈ text, c ≠ ch '"' ∧ c ≠ ch '\\') :
    StringBody text text := by
  induction text with
  | nil => exact .nil
  | cons c rest ih =>
      obtain ⟨⟨hquote, hslash⟩, hrest⟩ := List.forall_mem_cons.mp htext
      exact .plain hquote hslash (ih hrest)

/-- An object with one member, which is a string, may be written without any blanks. -/
theorem textOf_member {name value : Bytes} (hname : StringBody name name)
    (hvalue : StringBody value value) :
    TextOf jsonMaxDepth (.object [(name, .string value)])
      (ch '{' :: (ch '"' :: (name ++ ch '"' :: ch ':' :: ch '"' :: (value ++ [ch '"'])) ++
        [ch '}'])) := by
  have hnil : Blank [] := nofun
  have hmember : Member (Derives 63) (name, .string value) (ch '"' :: (name ++ ch '"' ::
      ([] ++ ch ':' :: ([] ++ (ch '"' :: (value ++ [ch '"'])))))) :=
    .mk hname hnil hnil (.inl (.string hvalue))
  refine ⟨[], _, [], hnil, hnil, .inr (.object (.one hnil hmember hnil)), ?_⟩
  simp

/-! ## What is judged -/

/-- The decoder sees the bytes in front of the first zero byte. -/
theorem decodeJson_cstr {s : Bytes} {size : Int32} (hsize : size.toInt = strlen s) :
    decodeJson (δ := δ) s size = decodeJson (cstr s) size := by
  have hcount : size.toInt.toNat = strlen s := by rw [hsize, Int.toNat_natCast]
  have hwhole : (cstr s).take (strlen s) = cstr s := by
    rw [← strlen_cstr, take_strlen, cstr_of_nulFree (nulFree_cstr s)]
  rw [decodeJson, decodeJson, hcount, take_strlen, hwhole]

/-- A query is accepted exactly when its decoded text is, up to the first zero byte. -/
theorem dbStatement_isSome_iff {query : Option Bytes}
    (hsize : (urldecode query).length < 2 ^ 31) :
    (∃ stmt : JsonValue δ, dbStatement query = some stmt) ↔
      AcceptedText (cstr (urldecode query)) := by
  have hshort : strlen (urldecode query) < 2 ^ 31 :=
    Nat.lt_of_le_of_lt (List.takeWhile_prefix _).length_le hsize
  have hcount : (Int32.ofNat (strlen (urldecode query))).toInt = strlen (urldecode query) :=
    Int32.toInt_ofNat_of_lt hshort
  have hcount' : (Int32.ofNat (strlen (urldecode query))).toInt =
      strlen (cstr (urldecode query)) := by rw [strlen_cstr, hcount]
  rw [dbStatement, decodeJson_cstr hcount]
  constructor
  · rintro ⟨stmt, hstmt⟩
    obtain ⟨ast, htext, -⟩ := decodeJson_sound (nulFree_cstr _) hcount' hstmt
    exact ⟨ast, htext⟩
  · rintro ⟨ast, htext⟩
    exact ⟨_, decodeJson_complete (nulFree_cstr _) hcount' htext⟩

/-- Nothing but blanks may stand behind a text: both texts would be scanned alike, and
one of them would leave the zero byte. -/
theorem not_acceptedText_zero {text : Bytes} (htext : AcceptedText text) (rest : Bytes) :
    ¬ AcceptedText (text ++ 0 :: rest) := by
  obtain ⟨ast, left, inner, right, hleft, hright, hast, rfl⟩ := htext
  rintro ⟨ast', left', inner', right', hleft', hright', hast', hsplit⟩
  have hscan := decodeJsonValue_complete (δ := Bytes) (Nat.lt_succ_self jsonMaxDepth)
    (Nat.le_refl (jsonMaxDepth + 0))
  have hfirst := hscan left inner ast (right ++ 0 :: rest) hleft hast
    (blank_stops hright (stops_cons.mpr (by decide)))
  have hsecond := hscan left' inner' ast' right' hleft' hast' (by
    rw [← List.append_nil right']
    exact blank_stops hright' stops_nil)
  have hsame : left ++ (inner ++ (right ++ 0 :: rest)) = left' ++ (inner' ++ right') := by
    rw [← hsplit]
    simp only [List.append_assoc]
  rw [hsame, hsecond] at hfirst
  have hbehind : right' = right ++ 0 :: rest := by
    have hrest := congrArg Prod.snd (Option.some.inj hfirst)
    exact congrArg JsonString.offset hrest
  have hblank : isspace 0 = true := hright' 0 (by simp [hbehind])
  exact absurd hblank (by decide)

/-- The query is judged as a whole unless it decodes to a text with a zero byte and
something behind it. -/
theorem dbStatement_whole_iff (query : Option Bytes) (decoded : Bytes)
    (hdecoded : PercentDecoded (cstr (query.getD [])) decoded)
    (hsize : (query.getD []).length < 2 ^ 31) :
    (∀ stmt : JsonValue δ, dbStatement query = some stmt → AcceptedText decoded) ↔
      (NulFree decoded ∨ ¬ AcceptedText (cstr decoded)) := by
  obtain rfl := urldecode_eq hdecoded
  have hshort : (urldecode query).length < 2 ^ 31 := by
    have hroom := length_le_of_percentDecoded hdecoded
    have hcut : (cstr (query.getD [])).length ≤ (query.getD []).length :=
      (List.takeWhile_prefix _).length_le
    omega
  have hsome := dbStatement_isSome_iff (δ := δ) hshort
  constructor
  · intro hwhole
    by_contra hneither
    obtain ⟨hzero, haccepted⟩ := not_or.mp hneither
    obtain ⟨stmt, hstmt⟩ := hsome.mpr (not_not.mp haccepted)
    obtain ⟨rest, hrest⟩ := exists_cstr_append_zero hzero
    have hall := hwhole stmt hstmt
    rw [hrest] at hall
    exact not_acceptedText_zero (not_not.mp haccepted) rest hall
  · rintro (hfree | hrejected) stmt hstmt
    · rw [← cstr_of_nulFree hfree]
      exact hsome.mp ⟨stmt, hstmt⟩
    · exact absurd (hsome.mp ⟨stmt, hstmt⟩) hrejected

theorem dbStatement_whole_array :
    (dbStatement (δ := Bytes) (some (bytes "%5b+]"))).isSome = true ∧
      AcceptedText (bytes "[ ]") := by
  have hsome : (dbStatement (δ := Bytes) (some (bytes "%5b+]"))).isSome = true := by
    decide +kernel
  obtain ⟨stmt, hstmt⟩ := Option.isSome_iff_exists.mp hsome
  have hwhole := (dbStatement_whole_iff (δ := Bytes) (some (bytes "%5b+]")) (bytes "[ ]")
    (percentDecoded_urldecode (some (bytes "%5b+]"))) (by decide)).mpr (.inl (by decide))
  exact ⟨hsome, hwhole stmt hstmt⟩

/-- A query with a zero byte and more behind the statement. -/
def cutQuery : Bytes := bytes "\x7b\"SQL\":\"SELECT+1\"\x7d%00garbage"

/-- Behind a decoded zero byte anything may follow: the statement in front of it is run. -/
theorem dbStatement_drops_suffix :
    PercentDecoded cutQuery (bytes "\x7b\"SQL\":\"SELECT 1\"\x7d" ++ 0 :: bytes "garbage") ∧
      (∃ stmt : JsonValue Bytes, dbStatement (some cutQuery) = some stmt) ∧
      ¬ AcceptedText (bytes "\x7b\"SQL\":\"SELECT 1\"\x7d" ++ 0 :: bytes "garbage") := by
  have htext : urldecode (some cutQuery) =
      bytes "\x7b\"SQL\":\"SELECT 1\"\x7d" ++ 0 :: bytes "garbage" := by decide +kernel
  have hcstr : cstr (urldecode (some cutQuery)) = bytes "\x7b\"SQL\":\"SELECT 1\"\x7d" := by
    decide +kernel
  have hstmt : (dbStatement (δ := Bytes) (some cutQuery)).isSome = true := by decide +kernel
  have hsome := Option.isSome_iff_exists.mp hstmt
  have haccepted := (dbStatement_isSome_iff (by decide +kernel)).mp hsome
  rw [hcstr] at haccepted
  have hdecoded : PercentDecoded (cstr cutQuery) (urldecode (some cutQuery)) :=
    percentDecoded_urldecode (some cutQuery)
  rw [htext, cstr_of_nulFree (by decide +kernel)] at hdecoded
  exact ⟨hdecoded, hsome, not_acceptedText_zero haccepted _⟩

end DbSlayer.Server
