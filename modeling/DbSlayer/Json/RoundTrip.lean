import DbSlayer.Json.Correctness
import DbSlayer.Json.Serialize

/-! # Decoding what was serialized

The text of a tree derives from the grammar, with a syntax tree that denotes
the tree again. Only the tag of a `long long` and the byte of a true boolean
are not kept. An object with several entries of one name is put together once
more, from its entries in the order they are written.
-/

namespace DbSlayer.Json

open Foundation

variable {δ : Type}

/-- Trees without doubles, with C strings, with distinct names in every object,
and with containers nested at most so deep. An object is what its puts built,
and its count of nodes is an `unsigned int`. -/
inductive Tree : Nat → JsonValue δ → Prop
  | null {depth : Nat} : Tree depth .null
  | boolean {depth : Nat} {value : UInt8} : Tree depth (.boolean value)
  | long {depth : Nat} {number : Int64} : Tree depth (.long number)
  | longlong {depth : Nat} {number : Int64} : Tree depth (.longlong number)
  | string {depth : Nat} {value : Bytes} : NulFree value → Tree depth (.string value)
  | array {depth : Nat} {elements : List (JsonValue δ)} :
      (∀ element ∈ elements, Tree depth element) → Tree (depth + 1) (.array elements)
  | object {depth : Nat} {members : List (Bytes × JsonValue δ)} :
      (members.map Prod.fst).Nodup → (∀ member ∈ members, NulFree member.1) →
      (∀ member ∈ members, Tree depth member.2) → members.length < 2 ^ 32 →
      Tree (depth + 1) (.object (objectOf members))

mutual

/-- The tree that comes back: a `long long` as a `long`, a true boolean as one. -/
def normalize : JsonValue δ → JsonValue δ
  | .longlong number => .long number
  | .boolean value => .boolean (if value ≠ 0 then 1 else 0)
  | .array elements => .array (normalizeElements elements)
  | .object entries => .object (normalizeMembers entries)
  | .string value => .string value
  | .long number => .long number
  | .double number => .double number
  | .null => .null

def normalizeElements : List (JsonValue δ) → List (JsonValue δ)
  | [] => []
  | element :: rest => normalize element :: normalizeElements rest

def normalizeMembers : List (Bytes × JsonValue δ) → List (Bytes × JsonValue δ)
  | [] => []
  | (key, value) :: rest => (key, normalize value) :: normalizeMembers rest

end

theorem normalizeElements_eq_map (elements : List (JsonValue δ)) :
    normalizeElements elements = elements.map normalize := by
  induction elements with
  | nil => rfl
  | cons element rest ih => rw [normalizeElements, ih, List.map_cons]

theorem normalizeMembers_eq_map (entries : Entries δ) :
    normalizeMembers entries = entries.map (Prod.map id normalize) := by
  induction entries with
  | nil => rfl
  | cons entry rest ih =>
      rw [normalizeMembers, ih]
      rfl

/-! ## Repeated names -/

/-- Trees whose objects may have several entries of one name. -/
inductive Writable : Nat → JsonValue δ → Prop
  | null {depth : Nat} : Writable depth .null
  | boolean {depth : Nat} {value : UInt8} : Writable depth (.boolean value)
  | long {depth : Nat} {number : Int64} : Writable depth (.long number)
  | longlong {depth : Nat} {number : Int64} : Writable depth (.longlong number)
  | string {depth : Nat} {value : Bytes} : NulFree value → Writable depth (.string value)
  | array {depth : Nat} {elements : List (JsonValue δ)} :
      (∀ element ∈ elements, Writable depth element) → Writable (depth + 1) (.array elements)
  | object {depth : Nat} {entries : Entries δ} :
      (∀ entry ∈ entries, NulFree entry.1) → (∀ entry ∈ entries, Writable depth entry.2) →
      entries.length < 2 ^ 32 → Writable (depth + 1) (.object entries)

mutual

/-- The tree that comes back. The entries of an object are put in the order they are
written, so those of one name change their order. -/
def echo : JsonValue δ → JsonValue δ
  | .longlong number => .long number
  | .boolean value => .boolean (if value ≠ 0 then 1 else 0)
  | .array elements => .array (echoElements elements)
  | .object entries => .object (objectOf (echoMembers entries))
  | .string value => .string value
  | .long number => .long number
  | .double number => .double number
  | .null => .null

def echoElements : List (JsonValue δ) → List (JsonValue δ)
  | [] => []
  | element :: rest => echo element :: echoElements rest

def echoMembers : List (Bytes × JsonValue δ) → List (Bytes × JsonValue δ)
  | [] => []
  | (key, value) :: rest => (key, echo value) :: echoMembers rest

end

theorem echoElements_eq_map (elements : List (JsonValue δ)) :
    echoElements elements = elements.map echo := by
  induction elements with
  | nil => rfl
  | cons element rest ih => rw [echoElements, ih, List.map_cons]

theorem echoMembers_eq_map (entries : Entries δ) :
    echoMembers entries = entries.map (Prod.map id echo) := by
  induction entries with
  | nil => rfl
  | cons entry rest ih =>
      rw [echoMembers, ih]
      rfl

theorem Tree.writable {depth : Nat} {value : JsonValue δ} (htree : Tree depth value) :
    Writable depth value := by
  induction htree with
  | null => exact .null
  | boolean => exact .boolean
  | long => exact .long
  | longlong => exact .longlong
  | string hfree => exact .string hfree
  | array _ ih => exact .array ih
  | @object depth members _ hkeys _ hcount ih =>
      have hperm := objectOf_perm members
      apply Writable.object
      · intro entry hentry
        exact hkeys entry (hperm.mem_iff.mp hentry)
      · intro entry hentry
        exact ih entry (hperm.mem_iff.mp hentry)
      · rwa [hperm.length_eq]

/-- With distinct names the entries come back in their order. -/
theorem Tree.echo_eq {depth : Nat} {value : JsonValue δ} (htree : Tree depth value) :
    echo value = normalize value := by
  induction htree with
  | array _ ih =>
      rw [echo, normalize, echoElements_eq_map, normalizeElements_eq_map, List.map_congr_left ih]
  | @object depth members hdistinct hkeys _ _ ih =>
      have hsame : echoMembers (objectOf members) = normalizeMembers (objectOf members) := by
        rw [echoMembers_eq_map, normalizeMembers_eq_map]
        apply List.map_congr_left
        intro entry hentry
        exact Prod.ext rfl (ih entry ((objectOf_perm members).mem_iff.mp hentry))
      have hstrict : (normalizeMembers (objectOf members)).Pairwise
          fun left right => strcmp left.1 right.1 < 0 := by
        rw [normalizeMembers_eq_map, List.pairwise_map]
        exact objectOf_strict hdistinct hkeys
      rw [echo, normalize, hsame, objectOf_eq_self hstrict]
  | _ => rw [echo, normalize]

/-! ## Strings and numbers -/

/-- What the writer may print for a byte: a short escape, a `\u` escape of the
byte itself, or the byte. -/
def EscapeOf (c : Byte) : Prop :=
  (∃ e ∈ bytes "nrtbf\\/\"", jsonEscape c = [ch '\\', e] ∧ escapeByte e = some c) ∨
    (jsonEscape c = [ch '\\', ch 'u', ch '0', ch '0', hexLower (c.toNat / 16),
        hexLower (c.toNat % 16)] ∧ isxdigit (hexLower (c.toNat / 16)) = true ∧
      isxdigit (hexLower (c.toNat % 16)) = true ∧ codeBytes (hexCode (ch '0') (ch '0')
        (hexLower (c.toNat / 16)) (hexLower (c.toNat % 16))) = [c]) ∨
    (jsonEscape c = [c] ∧ c ≠ ch '"' ∧ c ≠ ch '\\')

instance (c : Byte) : Decidable (EscapeOf c) := inferInstanceAs (Decidable (_ ∨ _))

theorem escapeOf {c : Byte} (hc : c ≠ 0) : EscapeOf c :=
  forall_byte (p := fun c => c ≠ 0 → EscapeOf c) (by decide +kernel) c hc

theorem stringBody_jsonEscape {c : Byte} {body content : Bytes} (hc : c ≠ 0)
    (hbody : StringBody body content) : StringBody (jsonEscape c ++ body) (c :: content) := by
  rcases escapeOf hc with ⟨e, -, hescape, hbyte⟩ | ⟨hescape, hhigh, hlow, hcode⟩ |
    ⟨hescape, hquote, hslash⟩
  · rw [hescape]
    exact .escape hbyte hbody
  · have hzero : isxdigit (ch '0') = true := by decide
    have hunicode := StringBody.unicode hzero hzero hhigh hlow hbody
    rw [hcode] at hunicode
    rw [hescape]
    exact hunicode
  · rw [hescape]
    exact .plain hquote hslash hbody

theorem stringBody_flatMap {value : Bytes} (hfree : NulFree value) :
    StringBody (value.flatMap jsonEscape) value := by
  induction value with
  | nil => exact .nil
  | cons c rest ih =>
      obtain ⟨hc, hrest⟩ := nulFree_cons.mp hfree
      rw [List.flatMap_cons]
      exact stringBody_jsonEscape hc (ih hrest)

/-- A printed integer is a number of the grammar with its own value. -/
theorem numberText_printLong (number : Int64) :
    NumberText (printLong number) ∧ isInteger (printLong number) = true ∧
      integerValue (printLong number) = number.toInt := by
  have hdigits : Digits (printNat number.toInt.natAbs) := fun c hc => isdigit_of_mem_printNat hc
  have hne := printNat_ne_nil number.toInt.natAbs
  obtain ⟨d, rest, hcons⟩ := List.exists_cons_of_ne_nil hne
  have hd : isdigit d = true := hdigits d (by simp [hcons])
  have hmantissa : Mantissa (printNat number.toInt.natAbs) := .whole hne hdigits
  rw [printLong]
  split
  next hneg =>
    have htext : ch '-' :: printNat number.toInt.natAbs =
        [ch '-'] ++ (printNat number.toInt.natAbs ++ []) := by simp
    refine ⟨⟨⟨ch '-', rfl, .inl rfl⟩, _, _, _, .inr rfl, hmantissa, .absent, htext⟩, ?_, ?_⟩
    · exact isInteger_append (.inr rfl) hdigits
    · simp only [integerValue, List.head?_cons, if_true, List.drop_succ_cons, List.drop_zero,
        decimalValue_printNat]
      omega
  next hneg =>
    have htext : printNat number.toInt.natAbs =
        [] ++ (printNat number.toInt.natAbs ++ []) := by simp
    refine ⟨⟨⟨d, by simp [hcons], .inr hd⟩, _, _, _, .inl rfl, hmantissa, .absent, htext⟩, ?_, ?_⟩
    · exact isInteger_append (.inl rfl) hdigits
    · have hhead : (printNat number.toInt.natAbs).head? ≠ some (ch '-') := by
        simp [hcons, isdigit_ne hd isdigit_minus]
      rw [integerValue, if_neg hhead, decimalValue_printNat]
      omega

variable [CDouble δ]

theorem denote_printLong (number : Int64) :
    (Ast.number (printLong number)).denote (δ := δ) = .long number := by
  obtain ⟨-, hint, hvalue⟩ := numberText_printLong number
  rw [Ast.denote, numberValue, if_pos hint, hvalue]
  congr
  exact Int64.ofIntClamp_toInt number

/-! ## Trees -/

/-- A text that reads back as a tree. -/
structure ReadsBack (depth : Nat) (back : JsonValue δ) (text : Bytes) : Prop where
  free : NulFree text
  derives : ∃ ast, Derives depth ast text ∧ ast.denote = back

/-- A text that reads back as the tree it was written for. -/
structure Written (depth : Nat) (value : JsonValue δ) (text : Bytes) : Prop where
  free : NulFree text
  derives : ∃ ast, Derives depth ast text ∧ ast.denote = normalize value

/-- No zero byte is written, whatever the string contains. -/
theorem nulFree_jsonStringSerialize (value : Bytes) : NulFree (jsonStringSerialize value) := by
  have hescape : ∀ c : Byte, c ≠ 0 → NulFree (jsonEscape c) :=
    forall_byte (p := fun c => c ≠ 0 → NulFree (jsonEscape c)) (by decide +kernel)
  have hbody : NulFree ((cstr value).flatMap jsonEscape) := by
    intro hzero
    obtain ⟨c, hc, hmem⟩ := List.mem_flatMap.mp hzero
    exact hescape c (fun heq => nulFree_cstr value (heq ▸ hc)) hmem
  have hquote : ch '"' ≠ 0 := by decide
  simp [jsonStringSerialize, hquote, hbody]

theorem nulFree_printLong (number : Int64) : NulFree (printLong number) := by
  have hdigits : NulFree (printNat number.toInt.natAbs) := by
    intro hzero
    exact absurd (isdigit_of_mem_printNat hzero) (by decide)
  have hminus : ch '-' ≠ 0 := by decide
  rw [printLong]
  split <;> simp [hdigits, hminus]

theorem readsBack_long (depth : Nat) (number : Int64) :
    ReadsBack depth (.long number : JsonValue δ) (printLong number) where
  free := nulFree_printLong number
  derives := ⟨.number (printLong number), derives_scalar (.number (numberText_printLong number).1),
    denote_printLong number⟩

theorem derives_jsonStringSerialize {value : Bytes} (hfree : NulFree value) :
    Scalar (.string value) (jsonStringSerialize value) := by
  rw [jsonStringSerialize, cstr_of_nulFree hfree]
  exact .string (stringBody_flatMap hfree)

/-- Blanks in front of the first item may be added. -/
theorem Separated.blank_append {α : Type} {item : α → Bytes → Prop} {xs : List α}
    {blank inner : Bytes} (hblank : Blank blank) (hinner : Separated item xs inner) :
    Separated item xs (blank ++ inner) := by
  obtain ⟨x, rest, left, text, tail, rfl, rfl, hleft, hitem, htail⟩ := hinner.exists_tail
  rw [← List.append_assoc]
  refine .of_tail ?_ hitem htail
  intro c hc
  exact (List.mem_append.mp hc).elim (hblank c) (hleft c)

theorem blank_nil : Blank [] := by simp [Blank]

theorem blank_space : Blank [ch ' '] := by
  intro c hc
  obtain rfl := List.mem_singleton.mp hc
  decide

/-- The elements behind the first one, up to the closing bracket. -/
theorem readsBack_elements {depth : Nat} {elements : List (JsonValue δ)}
    (helements : ∀ element ∈ elements,
      ReadsBack depth (echo element) (jsonSerializeInternal element)) :
    NulFree (jsonElementsSerialize elements) ∧ ∃ asts tail,
      jsonElementsSerialize elements = tail ++ [ch ']'] ∧ Tail (Derives depth) asts tail ∧
        denoteElements asts = echoElements elements := by
  induction elements with
  | nil =>
      rw [jsonElementsSerialize]
      exact ⟨by decide, [], [], rfl, .done blank_nil, rfl⟩
  | cons element rest ih =>
      obtain ⟨hfree, ast, hast, hdenote⟩ := helements element List.mem_cons_self
      obtain ⟨hfree', asts, tail, htext, htail, hdenotes⟩ :=
        ih fun other hother => helements other (List.mem_cons_of_mem element hother)
      have hcomma : NulFree (bytes " , ") := by decide
      refine ⟨by simp [jsonElementsSerialize, hcomma, hfree, hfree'], ast :: asts,
        [ch ' '] ++ ch ',' :: ([ch ' '] ++ (jsonSerializeInternal element ++ tail)), ?_,
        .more blank_space (.of_tail blank_space hast htail), ?_⟩
      · rw [jsonElementsSerialize, htext]
        simp [bytes]
      · rw [denoteElements, echoElements, hdenote, hdenotes]

/-- The members of an object that has some, up to the closing brace. -/
theorem readsBack_members {depth : Nat} {key : Bytes} {value : JsonValue δ} {rest : Entries δ}
    (hkeys : ∀ entry ∈ (key, value) :: rest, NulFree entry.1)
    (hentries : ∀ entry ∈ (key, value) :: rest,
      ReadsBack depth (echo entry.2) (jsonSerializeInternal entry.2)) :
    NulFree (jsonMembersSerialize ((key, value) :: rest)) ∧ ∃ members inner,
      jsonMembersSerialize ((key, value) :: rest) = inner ++ [ch '}'] ∧
        Separated (Member (Derives depth)) members inner ∧
        denoteMembers members = echoMembers ((key, value) :: rest) := by
  induction rest generalizing key value with
  | nil =>
      have hkey := hkeys (key, value) List.mem_cons_self
      obtain ⟨hfree, ast, hast, hdenote⟩ := hentries (key, value) List.mem_cons_self
      have hmember : Member (Derives depth) (key, ast) _ :=
        .mk (stringBody_flatMap hkey) blank_space blank_space hast
      have hcolon : NulFree (bytes " : ") := by decide
      have hclose : NulFree (bytes "\x7d") := by decide
      refine ⟨?_, [(key, ast)], _, ?_, .one blank_nil hmember blank_nil, ?_⟩
      · simp [jsonMembersSerialize, nulFree_jsonStringSerialize, hcolon, hclose, hfree]
      · simp [jsonMembersSerialize, jsonStringSerialize, cstr_of_nulFree hkey, bytes]
      · simp [denoteMembers, echoMembers, hdenote, cstr_of_nulFree hkey]
  | cons entry rest ih =>
      have hkey := hkeys (key, value) List.mem_cons_self
      obtain ⟨hfree, ast, hast, hdenote⟩ := hentries (key, value) List.mem_cons_self
      obtain ⟨hfree', members, inner, htext, hinner, hdenotes⟩ :=
        ih (fun other hother => hkeys other (List.mem_cons_of_mem _ hother))
          (fun other hother => hentries other (List.mem_cons_of_mem _ hother))
      have hmember : Member (Derives depth) (key, ast) _ :=
        .mk (stringBody_flatMap hkey) blank_space blank_space hast
      have hcolon : NulFree (bytes " : ") := by decide
      have hcomma : NulFree (bytes " , ") := by decide
      rw [jsonMembersSerialize]
      refine ⟨?_, (key, ast) :: members, _, ?_,
        .cons blank_nil hmember blank_space (hinner.blank_append blank_space), ?_⟩
      · simp [nulFree_jsonStringSerialize, hcolon, hcomma, hfree, hfree']
      · rw [htext]
        simp [jsonStringSerialize, cstr_of_nulFree hkey, bytes]
      · rw [denoteMembers, echoMembers, hdenote, hdenotes, cstr_of_nulFree hkey]

/-- What is written reads back as the echo of the value, by induction on the value. Reading
puts the members again, so equal keys come out in reverse. -/
theorem readsBack_jsonSerialize {depth : Nat} {value : JsonValue δ}
    (hvalue : Writable depth value) : ReadsBack depth (echo value) (jsonSerialize value) := by
  rw [jsonSerialize]
  induction hvalue with
  | null =>
      rw [jsonSerializeInternal]
      exact ⟨by decide, .null, derives_scalar .null, rfl⟩
  | @boolean depth value =>
      rw [jsonSerializeInternal]
      by_cases hvalue : value ≠ 0
      · rw [if_pos hvalue]
        refine ⟨by decide, .boolean true, derives_scalar .isTrue, ?_⟩
        simp [Ast.denote, echo, hvalue]
      · rw [if_neg hvalue]
        refine ⟨by decide, .boolean false, derives_scalar .isFalse, ?_⟩
        simp [Ast.denote, echo, hvalue]
  | @long depth number =>
      rw [jsonSerializeInternal]
      exact readsBack_long depth number
  | @longlong depth number =>
      rw [jsonSerializeInternal]
      exact readsBack_long depth number
  | @string depth value hfree =>
      rw [jsonSerializeInternal]
      refine ⟨nulFree_jsonStringSerialize value, .string value,
        derives_scalar (derives_jsonStringSerialize hfree), ?_⟩
      rw [Ast.denote, cstr_of_nulFree hfree, echo]
  | @array depth elements _ ih =>
      cases elements with
      | nil =>
          rw [jsonSerializeInternal]
          exact ⟨by decide, .array [], .inr (.emptyArray blank_nil), rfl⟩
      | cons element rest =>
          obtain ⟨hfree, ast, hast, hdenote⟩ := ih element List.mem_cons_self
          obtain ⟨hfree', asts, tail, htext, htail, hdenotes⟩ :=
            readsBack_elements fun other hother => ih other (List.mem_cons_of_mem element hother)
          have hopen : NulFree (bytes "[") := by decide
          rw [jsonSerializeInternal]
          refine ⟨by simp [hopen, hfree, hfree'], .array (ast :: asts), .inr ?_, ?_⟩
          · have harray : Container (Derives depth) (.array (ast :: asts)) _ :=
              .array (.of_tail blank_nil hast htail)
            rw [htext]
            simpa [bytes] using harray
          · rw [Ast.denote, denoteElements, hdenote, hdenotes, echo, echoElements]
  | @object depth entries hkeys _ hcount ih =>
      cases entries with
      | nil =>
          have hcount' : nodeCountZero ([] : Entries δ) = true := rfl
          rw [jsonSerializeInternal, if_pos hcount']
          exact ⟨by decide, .object [], .inr (.emptyObject blank_nil), rfl⟩
      | cons entry rest =>
          obtain ⟨hfree, asts, inner, htext, hinner, hdenotes⟩ := readsBack_members hkeys ih
          -- the count wraps around at 2 ^ 32
          have hcount' : nodeCountZero (entry :: rest) = false := by
            simp only [nodeCountZero, decide_eq_false_iff_not]
            rw [Nat.mod_eq_of_lt hcount]
            simp
          have hopen : NulFree (bytes "\x7b") := by decide
          rw [jsonSerializeInternal, hcount', if_neg (by simp)]
          refine ⟨by simp [hopen, hfree], .object asts, .inr ?_, ?_⟩
          · have hobject : Container (Derives depth) (.object asts) _ := .object hinner
            rw [htext]
            simpa [bytes] using hobject
          · rw [Ast.denote, hdenotes, echo]

/-- A tree is written as a text that denotes it up to the order of its keys. -/
theorem written_jsonSerialize {depth : Nat} {value : JsonValue δ} (htree : Tree depth value) :
    Written depth value (jsonSerialize value) := by
  obtain ⟨hfree, ast, hast, hdenote⟩ := readsBack_jsonSerialize htree.writable
  exact ⟨hfree, ast, hast, hdenote.trans htree.echo_eq⟩

/-- Blanks may follow. -/
theorem ReadsBack.decodeText_append {back : JsonValue δ} {text blank : Bytes}
    (hreads : ReadsBack jsonMaxDepth back text) (hblank : Blank blank) :
    decodeText (text ++ blank) = some back := by
  obtain ⟨-, ast, hast, hdenote⟩ := hreads
  rw [← hdenote]
  exact decodeText_complete ⟨[], text, blank, blank_nil, hblank, hast, rfl⟩

theorem ReadsBack.decodeText {back : JsonValue δ} {text : Bytes}
    (hreads : ReadsBack jsonMaxDepth back text) : decodeText text = some back := by
  simpa using hreads.decodeText_append blank_nil

/-- Whatever is written is accepted. -/
theorem decodeText_echo {value : JsonValue δ} (hvalue : Writable jsonMaxDepth value) :
    decodeText (jsonSerialize value) = some (echo value) :=
  (readsBack_jsonSerialize hvalue).decodeText

/-- The decoder gives the echo of any writable value. -/
theorem decodeJson_echo {value : JsonValue δ} (hvalue : Writable jsonMaxDepth value)
    {size : Int32} (hsize : size.toInt = strlen (jsonSerialize value)) :
    decodeJson (jsonSerialize value) size = some (echo value) := by
  rw [decodeJson_eq_decodeText (readsBack_jsonSerialize hvalue).free hsize]
  exact decodeText_echo hvalue

/-! ## Flat records -/

/-- Members of distinct names that hold C strings and numbers. -/
structure FlatRecord (members : List (Bytes × JsonValue δ)) : Prop where
  distinct : (members.map Prod.fst).Nodup
  names : ∀ member ∈ members, NulFree member.1
  values : ∀ member ∈ members,
    (∃ text, NulFree text ∧ member.2 = .string text) ∨ ∃ number, member.2 = .long number
  few : members.length < 2 ^ 32

omit [CDouble δ] in
/-- A flat record is a tree at every depth but zero. -/
theorem FlatRecord.tree {members : List (Bytes × JsonValue δ)} (hflat : FlatRecord members)
    (depth : Nat) : Tree (depth + 1) (.object (objectOf members)) := by
  refine .object hflat.distinct hflat.names ?_ hflat.few
  intro member hmember
  rcases hflat.values member hmember with ⟨text, hfree, heq⟩ | ⟨number, heq⟩
  · rw [heq]
    exact .string hfree
  · rw [heq]
    exact .long

/-- A flat record comes back as it is. -/
theorem FlatRecord.readsBack {members : List (Bytes × JsonValue δ)} (hflat : FlatRecord members)
    (depth : Nat) : ReadsBack (depth + 1) (.object (objectOf members))
      (jsonSerialize (.object (objectOf members))) := by
  have hsame : normalizeMembers (objectOf members) = objectOf members := by
    rw [normalizeMembers_eq_map]
    refine (List.map_congr_left ?_).trans (List.map_id _)
    rintro ⟨name, value⟩ hentry
    have hmember := (objectOf_perm members).mem_iff.mp hentry
    rcases hflat.values _ hmember with ⟨text, -, heq⟩ | ⟨number, heq⟩
    · obtain rfl : value = .string text := heq
      rfl
    · obtain rfl : value = .long number := heq
      rfl
  have hecho : echo (.object (objectOf members)) = .object (objectOf members) := by
    rw [(hflat.tree depth).echo_eq, normalize, hsame]
  have hreads := readsBack_jsonSerialize (hflat.tree depth).writable
  rwa [hecho] at hreads

section Joined

variable {ι : Type} {value : ι → JsonValue δ} {text : ι → Bytes} {depth : Nat}

/-- Items with commas between them are the inside of a container. -/
theorem separated_intercalate {items : List ι} (hne : items ≠ [])
    (hitems : ∀ item ∈ items, ReadsBack depth (value item) (text item)) :
    NulFree ([ch ','].intercalate (items.map text)) ∧ ∃ asts,
      Separated (Derives depth) asts ([ch ','].intercalate (items.map text)) ∧
        denoteElements asts = items.map value := by
  induction items with
  | nil => exact absurd rfl hne
  | cons item rest ih =>
      obtain ⟨hfree, ast, hast, hdenote⟩ := hitems item List.mem_cons_self
      by_cases hrest : rest = []
      · subst hrest
        have hone := Separated.one blank_nil hast blank_nil
        refine ⟨by simpa using hfree, [ast], by simpa using hone, ?_⟩
        rw [denoteElements, hdenote]
        rfl
      · obtain ⟨hfree', asts, hasts, hdenotes⟩ :=
          ih hrest fun other hother => hitems other (List.mem_cons_of_mem item hother)
        have hcons := Separated.cons blank_nil hast blank_nil hasts
        have hcomma : ch ',' ≠ 0 := by decide
        rw [List.map_cons, List.intercalate_cons_of_ne_nil (by simpa using hrest)]
        refine ⟨by simp [hfree, hfree', hcomma], ast :: asts, by simpa using hcons, ?_⟩
        rw [denoteElements, hdenote, hdenotes, List.map_cons]

/-- Texts that read back, with commas between them and brackets around them, read back as
an array. -/
theorem readsBack_intercalate (items : List ι)
    (hitems : ∀ item ∈ items, ReadsBack depth (value item) (text item)) :
    ReadsBack (depth + 1) (.array (items.map value))
      (bytes "[" ++ ([ch ','].intercalate (items.map text) ++ bytes "]")) := by
  have hopen : NulFree (bytes "[") := by decide
  have hclose : NulFree (bytes "]") := by decide
  by_cases hne : items = []
  · subst hne
    exact ⟨by simp [hopen, hclose], .array [], .inr (.emptyArray blank_nil), rfl⟩
  · obtain ⟨hfree, asts, hasts, hdenotes⟩ := separated_intercalate hne hitems
    refine ⟨by simp [hopen, hclose, hfree], .array asts, .inr (.array hasts), ?_⟩
    rw [Ast.denote, hdenotes]

end Joined

/-- Decoding a serialized tree gives the tree back. -/
theorem decodeJson_jsonSerialize (value : JsonValue δ) (htree : Tree jsonMaxDepth value)
    (size : Int32) (hsize : size.toInt = strlen (jsonSerialize value)) :
    decodeJson (jsonSerialize value) size = some (normalize value) := by
  rw [← htree.echo_eq]
  exact decodeJson_echo htree.writable hsize

theorem decodeJson_jsonSerialize_object :
    decodeJson (jsonSerialize (.object (objectOf [(bytes "k", .longlong (-5))]) :
        JsonValue Bytes)) 10 = some (.object [(bytes "k", .long (-5))] : JsonValue Bytes) := by
  have htree : Tree jsonMaxDepth
      (.object (objectOf [(bytes "k", .longlong (-5))]) : JsonValue Bytes) := by
    refine .object (by simp) ?_ ?_ (by simp)
    · simp only [List.mem_singleton, forall_eq]
      decide
    · simp only [List.mem_singleton, forall_eq]
      exact .longlong
  exact decodeJson_jsonSerialize _ htree 10 (by decide)

end DbSlayer.Json
