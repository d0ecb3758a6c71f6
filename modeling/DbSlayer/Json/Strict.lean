import DbSlayer.Json.Literals
import DbSlayer.Json.RoundTrip

/-! # Strict JSON

The grammar of RFC 8259 on bytes. Strings, containers and integers are always
written in it, so a text that is written for a decoded value leaves the grammar only
at a double that is not finite. That such a text is not derived some other way
is seen outside its strings: no byte of the grammar there is an `i`.
-/

namespace DbSlayer.Json

open Foundation

/-! ## The grammar -/

/-- The blanks of the grammar. -/
def Ws (s : Bytes) : Prop := ∀ c ∈ s, c = 0x20 ∨ c = 0x09 ∨ c = 0x0A ∨ c = 0x0D

/-- What may stand between quotes: no raw byte below 0x20, and only the escapes that are defined. -/
inductive StrictChars : Bytes → Prop
  | nil : StrictChars []
  | unescaped {c : Byte} {rest : Bytes} : 0x20 ≤ c → c ≠ ch '"' → c ≠ ch '\\' →
      StrictChars rest → StrictChars (c :: rest)
  | escape {c : Byte} {rest : Bytes} : c ∈ bytes "\"\\/bfnrt" → StrictChars rest →
      StrictChars (ch '\\' :: c :: rest)
  | unicode {h₁ h₂ h₃ h₄ : Byte} {rest : Bytes} :
      isxdigit h₁ → isxdigit h₂ → isxdigit h₃ → isxdigit h₄ → StrictChars rest →
      StrictChars (ch '\\' :: ch 'u' :: h₁ :: h₂ :: h₃ :: h₄ :: rest)

def StrictString (text : Bytes) : Prop :=
  ∃ body, StrictChars body ∧ text = ch '"' :: (body ++ [ch '"'])

/-- A zero, or digits that do not start with one. -/
inductive StrictWhole : Bytes → Prop
  | zero : StrictWhole [ch '0']
  | digits {d : Byte} {rest : Bytes} : isdigit d = true → d ≠ ch '0' → Digits rest →
      StrictWhole (d :: rest)

inductive StrictFraction : Bytes → Prop
  | absent : StrictFraction []
  | present {digits : Bytes} : digits ≠ [] → Digits digits → StrictFraction (ch '.' :: digits)

def StrictNumber (text : Bytes) : Prop :=
  ∃ minus whole fraction exponent, (minus = [] ∨ minus = [ch '-']) ∧ StrictWhole whole ∧
    StrictFraction fraction ∧ Exponent exponent ∧
    text = minus ++ (whole ++ (fraction ++ exponent))

inductive Nonterminal where
  | value
  | elements
  | member
  | members

/-- What a nonterminal derives. Elements and members have commas between them. -/
inductive Strict : Nonterminal → Bytes → Prop
  | null : Strict .value (bytes "null")
  | isTrue : Strict .value (bytes "true")
  | isFalse : Strict .value (bytes "false")
  | string {text : Bytes} : StrictString text → Strict .value text
  | number {text : Bytes} : StrictNumber text → Strict .value text
  | emptyArray {ws : Bytes} : Ws ws → Strict .value (ch '[' :: (ws ++ [ch ']']))
  | array {inner : Bytes} : Strict .elements inner → Strict .value (ch '[' :: (inner ++ [ch ']']))
  | emptyObject {ws : Bytes} : Ws ws → Strict .value (ch '{' :: (ws ++ [ch '}']))
  | object {inner : Bytes} : Strict .members inner → Strict .value (ch '{' :: (inner ++ [ch '}']))
  | lastElement {left text right : Bytes} : Ws left → Strict .value text → Ws right →
      Strict .elements (left ++ (text ++ right))
  | element {left text right more : Bytes} : Ws left → Strict .value text → Ws right →
      Strict .elements more → Strict .elements (left ++ (text ++ (right ++ ch ',' :: more)))
  | pair {name left right text : Bytes} : StrictString name → Ws left → Ws right →
      Strict .value text → Strict .member (name ++ (left ++ ch ':' :: (right ++ text)))
  | lastMember {left text right : Bytes} : Ws left → Strict .member text → Ws right →
      Strict .members (left ++ (text ++ right))
  | member {left text right more : Bytes} : Ws left → Strict .member text → Ws right →
      Strict .members more → Strict .members (left ++ (text ++ (right ++ ch ',' :: more)))

/-- A text: a value with blanks around it. -/
def StrictText (text : Bytes) : Prop :=
  ∃ left inner right, Ws left ∧ Ws right ∧ Strict .value inner ∧ text = left ++ (inner ++ right)

theorem ws_nil : Ws [] := by simp [Ws]

theorem ws_space : Ws [ch ' '] := by
  intro c hc
  obtain rfl := List.mem_singleton.mp hc
  exact .inl rfl

/-! ## What is written -/

/-- What the writer may print for a byte, in the strict grammar. -/
def StrictEscape (c : Byte) : Prop :=
  (∃ e ∈ bytes "\"\\/bfnrt", jsonEscape c = [ch '\\', e]) ∨
    (jsonEscape c = [ch '\\', ch 'u', ch '0', ch '0', hexLower (c.toNat / 16),
        hexLower (c.toNat % 16)] ∧ isxdigit (hexLower (c.toNat / 16)) = true ∧
      isxdigit (hexLower (c.toNat % 16)) = true) ∨
    (jsonEscape c = [c] ∧ 0x20 ≤ c ∧ c ≠ ch '"' ∧ c ≠ ch '\\')

instance (c : Byte) : Decidable (StrictEscape c) := inferInstanceAs (Decidable (_ ∨ _))

theorem strictEscape (c : Byte) : StrictEscape c :=
  forall_byte (p := StrictEscape) (by decide +kernel) c

theorem strictChars_flatMap (value : Bytes) : StrictChars (value.flatMap jsonEscape) := by
  induction value with
  | nil => exact .nil
  | cons c rest ih =>
      rw [List.flatMap_cons]
      rcases strictEscape c with ⟨e, he, hescape⟩ | ⟨hescape, hhigh, hlow⟩ |
        ⟨hescape, hraw, hquote, hslash⟩
      · rw [hescape]
        exact .escape he ih
      · have hzero : isxdigit (ch '0') = true := by decide
        rw [hescape]
        exact .unicode hzero hzero hhigh hlow ih
      · rw [hescape]
        exact .unescaped hraw hquote hslash ih

theorem strictString_jsonStringSerialize (value : Bytes) :
    StrictString (jsonStringSerialize value) :=
  ⟨_, strictChars_flatMap (cstr value), rfl⟩

theorem strictWhole_printNat (n : Nat) : StrictWhole (printNat n) := by
  rcases Nat.eq_zero_or_pos n with rfl | hn
  · exact .zero
  · obtain ⟨d, rest, hprint, hd⟩ := printNat_pos hn
    have hdigits : ∀ c ∈ d :: rest, isdigit c = true := by
      intro c hc
      rw [← hprint] at hc
      exact isdigit_of_mem_printNat hc
    rw [hprint]
    exact .digits (hdigits d List.mem_cons_self) hd
      fun c hc => hdigits c (List.mem_cons_of_mem d hc)

theorem strictNumber_printLong (number : Int64) : StrictNumber (printLong number) := by
  have hwhole := strictWhole_printNat number.toInt.natAbs
  rw [printLong]
  split
  · exact ⟨[ch '-'], _, [], [], .inr rfl, hwhole, .absent, .absent, by simp⟩
  · exact ⟨[], _, [], [], .inl rfl, hwhole, .absent, .absent, by simp⟩

variable {δ : Type} [CDouble δ]

/-- An element and those behind it, up to the closing bracket. -/
theorem strict_elements {left text : Bytes} {elements : List (JsonValue δ)} (hleft : Ws left)
    (htext : Strict .value text)
    (helements : ∀ element ∈ elements, Strict .value (jsonSerializeInternal element)) :
    ∃ inner, left ++ (text ++ jsonElementsSerialize elements) = inner ++ [ch ']'] ∧
      Strict .elements inner := by
  induction elements generalizing left text with
  | nil =>
      rw [jsonElementsSerialize]
      exact ⟨_, by simp [bytes], .lastElement hleft htext ws_nil⟩
  | cons element rest ih =>
      obtain ⟨inner, hinner, hstrict⟩ := ih ws_space (helements element List.mem_cons_self)
        fun other hother => helements other (List.mem_cons_of_mem element hother)
      refine ⟨_, ?_, .element hleft htext ws_space hstrict⟩
      rw [jsonElementsSerialize]
      simp only [List.append_assoc, List.cons_append, ← hinner]
      rfl

/-- The members of an object that has some, up to the closing brace. -/
theorem strict_members {left : Bytes} {entry : Bytes × JsonValue δ} {rest : Entries δ}
    (hleft : Ws left)
    (hentries : ∀ other ∈ entry :: rest, Strict .value (jsonSerializeInternal other.2)) :
    ∃ inner, left ++ jsonMembersSerialize (entry :: rest) = inner ++ [ch '}'] ∧
      Strict .members inner := by
  have hpair := Strict.pair (strictString_jsonStringSerialize entry.1) ws_space ws_space
    (hentries entry List.mem_cons_self)
  induction rest generalizing left entry with
  | nil =>
      refine ⟨_, ?_, .lastMember hleft hpair ws_nil⟩
      simp [jsonMembersSerialize, bytes]
  | cons other rest ih =>
      have hrest := fun entry hentry => hentries entry (List.mem_cons_of_mem _ hentry)
      obtain ⟨inner, hinner, hstrict⟩ := ih ws_space hrest
        (.pair (strictString_jsonStringSerialize other.1) ws_space ws_space
          (hrest other List.mem_cons_self))
      refine ⟨_, ?_, .member hleft hpair ws_space hstrict⟩
      rw [jsonMembersSerialize]
      simp only [List.append_assoc, List.cons_append, ← hinner]
      rfl

/-- Every value is written in the strict grammar when its doubles are. -/
theorem strict_jsonSerialize (value : JsonValue δ)
    (hdoubles : ∀ number, .double number ∈ value.subvalues →
      StrictNumber (CDouble.printG16 number)) : Strict .value (jsonSerialize value) := by
  rw [jsonSerialize]
  induction value using JsonValue.induct with
  | object entries ih =>
      rw [jsonSerializeInternal]
      split
      next => exact .emptyObject ws_nil
      next hcount =>
        cases entries with
        | nil => exact absurd rfl hcount
        | cons entry rest =>
            obtain ⟨inner, hinner, hstrict⟩ := strict_members ws_nil fun other hother =>
              ih other hother fun number hnumber =>
                hdoubles number (mem_subvalues_object.mpr (.inr ⟨other, hother, hnumber⟩))
            rw [List.nil_append] at hinner
            rw [hinner]
            exact .object hstrict
  | array elements ih =>
      cases elements with
      | nil =>
          rw [jsonSerializeInternal]
          exact .emptyArray ws_nil
      | cons element rest =>
          have heach : ∀ other ∈ element :: rest, Strict .value (jsonSerializeInternal other) :=
            fun other hother => ih other hother fun number hnumber =>
              hdoubles number (mem_subvalues_array.mpr (.inr ⟨other, hother, hnumber⟩))
          obtain ⟨inner, hinner, hstrict⟩ := strict_elements ws_nil
            (heach element List.mem_cons_self)
            fun other hother => heach other (List.mem_cons_of_mem element hother)
          rw [List.nil_append] at hinner
          rw [jsonSerializeInternal, List.append_assoc, hinner]
          exact .array hstrict
  | string value =>
      rw [jsonSerializeInternal]
      exact .string (strictString_jsonStringSerialize value)
  | long number =>
      rw [jsonSerializeInternal]
      exact .number (strictNumber_printLong number)
  | longlong number =>
      rw [jsonSerializeInternal]
      exact .number (strictNumber_printLong number)
  | double number =>
      rw [jsonSerializeInternal]
      exact .number (hdoubles number List.mem_cons_self)
  | boolean value =>
      rw [jsonSerializeInternal]
      split
      · exact .isTrue
      · exact .isFalse
  | null =>
      rw [jsonSerializeInternal]
      exact .null

/-! ## Outside the strings -/

/-- Where a scan stands: outside a string, inside one, or behind a backslash in it. -/
inductive Quoting where
  | outside
  | inside
  | escaped
  deriving DecidableEq

def Quoting.next : Quoting → Byte → Quoting
  | .outside, c => if c = ch '"' then .inside else .outside
  | .inside, c => if c = ch '"' then .outside else if c = ch '\\' then .escaped else .inside
  | .escaped, _ => .inside

/-- The bytes outside the strings, from some state of the scan on. -/
def bareFrom : Quoting → Bytes → Bytes
  | _, [] => []
  | state, c :: rest =>
      (if state = .outside ∧ c ≠ ch '"' then [c] else []) ++ bareFrom (state.next c) rest

def bare (s : Bytes) : Bytes := bareFrom .outside s

/-- No string is open at the end. -/
def Closed (s : Bytes) : Prop := s.foldl Quoting.next .outside = .outside

instance (s : Bytes) : Decidable (Closed s) := inferInstanceAs (Decidable (_ = _))

/-- The letters outside of strings are collected part by part. -/
theorem bareFrom_append (state : Quoting) (s t : Bytes) :
    bareFrom state (s ++ t) = bareFrom state s ++ bareFrom (s.foldl Quoting.next state) t := by
  induction s generalizing state with
  | nil => rfl
  | cons c rest ih => rw [List.cons_append, bareFrom, ih, bareFrom, List.foldl_cons,
      List.append_assoc]

/-- Behind a text that closes its strings the collection starts anew. -/
theorem bare_append {s t : Bytes} (hs : Closed s) : bare (s ++ t) = bare s ++ bare t := by
  rw [bare, bareFrom_append, hs]
  rfl

theorem Closed.append {s t : Bytes} (hs : Closed s) (ht : Closed t) : Closed (s ++ t) := by
  rw [Closed, List.foldl_append, hs]
  exact ht

/-- A text without quotes is all outside. -/
theorem closed_of_not_mem {s : Bytes} (hs : ch '"' ∉ s) : Closed s ∧ bare s = s := by
  induction s with
  | nil => exact ⟨rfl, rfl⟩
  | cons c rest ih =>
      rw [List.mem_cons, not_or] at hs
      obtain ⟨hclosed, hbare⟩ := ih hs.2
      have hc : c ≠ ch '"' := Ne.symm hs.1
      have hnext : Quoting.next .outside c = .outside := if_neg hc
      refine ⟨?_, ?_⟩
      · rw [Closed, List.foldl_cons, hnext]
        exact hclosed
      · rw [bare, bareFrom, hnext, if_pos ⟨rfl, hc⟩, ← bare, hbare, List.singleton_append]

theorem StrictChars.scan {body : Bytes} (hbody : StrictChars body) :
    body.foldl Quoting.next .inside = .inside ∧ bareFrom .inside body = [] := by
  have hslash : Quoting.next .inside (ch '\\') = .escaped := by decide
  have hescaped : ∀ c, Quoting.next .escaped c = .inside := fun _ => rfl
  induction hbody with
  | nil => exact ⟨rfl, rfl⟩
  | @unescaped c rest _ hquote hc _ ih =>
      have hnext : Quoting.next .inside c = .inside := by
        rw [Quoting.next, if_neg hquote, if_neg hc]
      rw [List.foldl_cons, bareFrom, hnext]
      simpa using ih
  | escape _ _ ih =>
      rw [List.foldl_cons, List.foldl_cons, bareFrom, bareFrom, hslash, hescaped]
      simpa using ih
  | @unicode h₁ h₂ h₃ h₄ rest hx₁ hx₂ hx₃ hx₄ _ ih =>
      have hdigit : ∀ c, isxdigit c = true → Quoting.next .inside c = .inside :=
        forall_byte (by decide +kernel)
      simp only [List.foldl_cons, bareFrom, hslash, hescaped, hdigit h₁ hx₁, hdigit h₂ hx₂,
        hdigit h₃ hx₃, hdigit h₄ hx₄]
      simpa using ih

/-- A strict string is closed and has no bare letter. -/
theorem StrictString.scan {text : Bytes} (htext : StrictString text) :
    Closed text ∧ bare text = [] := by
  obtain ⟨body, hbody, rfl⟩ := htext
  obtain ⟨hstate, hbare⟩ := hbody.scan
  have hopen : Quoting.next .outside (ch '"') = .inside := by decide
  have hclose : Quoting.next .inside (ch '"') = .outside := by decide
  constructor
  · rw [Closed, List.foldl_cons, hopen, List.foldl_append, hstate, List.foldl_cons, hclose]
    rfl
  · rw [bare, bareFrom, hopen, bareFrom_append, hbare, hstate]
    rfl

theorem isNumeral_of_strictNumber {text : Bytes} (htext : StrictNumber text) :
    ∀ c ∈ text, isNumberByte c = true ∨ c = ch '-' ∨ c = ch '+' := by
  obtain ⟨minus, whole, fraction, exponent, hminus, hwhole, hfraction, hexponent, rfl⟩ := htext
  have hdigit : ∀ c, isdigit c = true → isNumberByte c = true ∨ c = ch '-' ∨ c = ch '+' := by
    intro c hc
    simp [isNumberByte, hc]
  intro c hc
  simp only [List.mem_append] at hc
  rcases hc with hc | hc | hc | hc
  · rcases hminus with rfl | rfl
    · simp at hc
    · exact .inr (.inl (List.mem_singleton.mp hc))
  · cases hwhole with
    | zero => exact hdigit c (List.mem_singleton.mp hc ▸ by decide)
    | digits hd _ hrest =>
        rcases List.mem_cons.mp hc with rfl | hc
        · exact hdigit c hd
        · exact hdigit c (hrest c hc)
  · cases hfraction with
    | absent => simp at hc
    | present _ hdigits =>
        rcases List.mem_cons.mp hc with rfl | hc
        · exact .inl (by decide)
        · exact hdigit c (hdigits c hc)
  · cases hexponent with
    | absent => simp at hc
    | @present mark sign digits hmark hsign _ hdigits =>
        rw [List.mem_cons, List.mem_append] at hc
        rcases hc with rfl | hc | hc
        · rcases hmark with rfl | rfl
          · exact .inl (by decide)
          · exact .inl (by decide)
        · rcases hsign with rfl | rfl | rfl
          · simp at hc
          · exact .inr (.inr (List.mem_singleton.mp hc))
          · exact .inr (.inl (List.mem_singleton.mp hc))
        · exact hdigit c (hdigits c hc)

/-- A scan that ends outside and has met no `i` there. -/
def Clean (s : Bytes) : Prop := Closed s ∧ ch 'i' ∉ bare s

theorem Clean.append {s t : Bytes} (hs : Clean s) (ht : Clean t) : Clean (s ++ t) := by
  refine ⟨hs.1.append ht.1, ?_⟩
  rw [bare_append hs.1, List.mem_append, not_or]
  exact ⟨hs.2, ht.2⟩

/-- A text without a quotation mark and without an `i` is clean. -/
theorem clean_of_not_mem {s : Bytes} (hquote : ch '"' ∉ s) (hi : ch 'i' ∉ s) : Clean s := by
  obtain ⟨hclosed, hbare⟩ := closed_of_not_mem hquote
  exact ⟨hclosed, by rwa [hbare]⟩

theorem Clean.cons {c : Byte} {s : Bytes} (hs : Clean s) (hquote : ch '"' ≠ c) (hi : ch 'i' ≠ c) :
    Clean (c :: s) := by
  have hsingle : Clean [c] := clean_of_not_mem (by simpa using hquote) (by simpa using hi)
  exact hsingle.append hs

theorem clean_of_ws {s : Bytes} (hs : Ws s) : Clean s := by
  have hapart : ∀ c : Byte, c ∈ s → c ≠ ch '"' ∧ c ≠ ch 'i' := by
    intro c hc
    rcases hs c hc with rfl | rfl | rfl | rfl <;> decide
  exact clean_of_not_mem (fun hc => (hapart _ hc).1 rfl) fun hc => (hapart _ hc).2 rfl

theorem StrictString.clean {text : Bytes} (htext : StrictString text) : Clean text := by
  obtain ⟨hclosed, hbare⟩ := htext.scan
  exact ⟨hclosed, by simp [hbare]⟩

theorem StrictNumber.clean {text : Bytes} (htext : StrictNumber text) : Clean text := by
  have hbytes := isNumeral_of_strictNumber htext
  have hquote : ch '"' ∉ text := fun hc => absurd (hbytes _ hc) (by decide)
  have hi : ch 'i' ∉ text := fun hc => absurd (hbytes _ hc) (by decide)
  exact clean_of_not_mem hquote hi

/-- Every strict text is clean, by induction on its derivation: only strings could hold the
letter that an infinite number shows. -/
theorem Strict.clean {nonterminal : Nonterminal} {text : Bytes} (htext : Strict nonterminal text) :
    Clean text := by
  have hclose : Clean [ch ']'] ∧ Clean [ch '}'] :=
    ⟨clean_of_not_mem (by decide) (by decide), clean_of_not_mem (by decide) (by decide)⟩
  induction htext with
  | null => exact clean_of_not_mem (by decide) (by decide)
  | isTrue => exact clean_of_not_mem (by decide) (by decide)
  | isFalse => exact clean_of_not_mem (by decide) (by decide)
  | string hstring => exact hstring.clean
  | number hnumber => exact hnumber.clean
  | emptyArray hws => exact ((clean_of_ws hws).append hclose.1).cons (by decide) (by decide)
  | array _ ih => exact (ih.append hclose.1).cons (by decide) (by decide)
  | emptyObject hws => exact ((clean_of_ws hws).append hclose.2).cons (by decide) (by decide)
  | object _ ih => exact (ih.append hclose.2).cons (by decide) (by decide)
  | lastElement hleft _ hright ih | lastMember hleft _ hright ih =>
      exact (clean_of_ws hleft).append (ih.append (clean_of_ws hright))
  | element hleft _ hright _ ih ihmore | member hleft _ hright _ ih ihmore =>
      have hcomma := ihmore.cons (c := ch ',') (by decide) (by decide)
      exact (clean_of_ws hleft).append (ih.append ((clean_of_ws hright).append hcomma))
  | pair hname hleft hright _ ih =>
      have hcolon := ((clean_of_ws hright).append ih).cons (c := ch ':') (by decide) (by decide)
      exact hname.clean.append ((clean_of_ws hleft).append hcolon)

theorem StrictText.clean {text : Bytes} (htext : StrictText text) : Clean text := by
  obtain ⟨left, inner, right, hleft, hright, hinner, rfl⟩ := htext
  exact (clean_of_ws hleft).append (hinner.clean.append (clean_of_ws hright))

/-! ## What is written shows all its parts -/

/-- The elements of an array close their strings, and show what each of them shows. -/
theorem closed_elements {elements : List (JsonValue δ)}
    (helements : ∀ element ∈ elements, Closed (jsonSerializeInternal element)) :
    Closed (jsonElementsSerialize elements) ∧ ∀ element ∈ elements,
      bare (jsonSerializeInternal element) ⊆ bare (jsonElementsSerialize elements) := by
  induction elements with
  | nil =>
      rw [jsonElementsSerialize]
      exact ⟨by decide, by simp⟩
  | cons element rest ih =>
      have helement := helements element List.mem_cons_self
      obtain ⟨hclosed, hrest⟩ := ih fun other hother =>
        helements other (List.mem_cons_of_mem element hother)
      have hcomma : Closed (bytes " , ") := by decide
      rw [jsonElementsSerialize]
      refine ⟨(hcomma.append helement).append hclosed, ?_⟩
      rw [bare_append (hcomma.append helement), bare_append hcomma]
      intro other hother c hc
      simp only [List.mem_append]
      rcases List.mem_cons.mp hother with rfl | hother
      · exact .inl (.inr hc)
      · exact .inr (hrest other hother hc)

theorem closed_members {entries : Entries δ}
    (hentries : ∀ entry ∈ entries, Closed (jsonSerializeInternal entry.2)) :
    Closed (jsonMembersSerialize entries) ∧ ∀ entry ∈ entries,
      bare (jsonSerializeInternal entry.2) ⊆ bare (jsonMembersSerialize entries) := by
  induction entries with
  | nil =>
      rw [jsonMembersSerialize]
      exact ⟨by decide, by simp⟩
  | cons entry rest ih =>
      have hentry := hentries entry List.mem_cons_self
      obtain ⟨hclosed, hrest⟩ := ih fun other hother =>
        hentries other (List.mem_cons_of_mem entry hother)
      have hname : Closed (jsonStringSerialize entry.1 ++ bytes " : ") :=
        (strictString_jsonStringSerialize entry.1).scan.1.append (by decide)
      have hend : Closed (if rest.isEmpty then bytes "\x7d" else bytes " , ") := by
        split <;> decide
      rw [jsonMembersSerialize]
      refine ⟨((hname.append hentry).append hend).append hclosed, ?_⟩
      rw [bare_append ((hname.append hentry).append hend), bare_append (hname.append hentry),
        bare_append hname]
      intro other hother c hc
      simp only [List.mem_append]
      rcases List.mem_cons.mp hother with rfl | hother
      · exact .inl (.inl (.inr hc))
      · exact .inr (hrest other hother hc)

/-- What stands outside the strings of a part stands there in the whole. The count of an
object is zero only when it is empty. -/
theorem closed_jsonSerialize (value : JsonValue δ)
    (hcount : ∀ entries, .object entries ∈ value.subvalues → entries.length < 2 ^ 32)
    (hdoubles : ∀ number, .double number ∈ value.subvalues → Closed (CDouble.printG16 number)) :
    Closed (jsonSerializeInternal value) ∧ ∀ part ∈ value.subvalues,
      bare (jsonSerializeInternal part) ⊆ bare (jsonSerializeInternal value) := by
  have hscalar : ∀ {value : JsonValue δ}, value.subvalues = [value] →
      Closed (jsonSerializeInternal value) → Closed (jsonSerializeInternal value) ∧
        ∀ part ∈ value.subvalues,
          bare (jsonSerializeInternal part) ⊆ bare (jsonSerializeInternal value) := by
    intro value hself hclosed
    rw [hself]
    simpa using hclosed
  induction value using JsonValue.induct with
  | object entries ih =>
      have heach := fun entry (hentry : entry ∈ entries) => ih entry hentry
        (fun others hothers => hcount others (mem_subvalues_object.mpr
          (.inr ⟨entry, hentry, hothers⟩)))
        (fun number hnumber => hdoubles number (mem_subvalues_object.mpr
          (.inr ⟨entry, hentry, hnumber⟩)))
      obtain ⟨hclosed, hbare⟩ := closed_members fun entry hentry => (heach entry hentry).1
      have hlength := hcount entries (mem_subvalues_object.mpr (.inl rfl))
      have hopen : Closed (bytes "\x7b") := by decide
      cases hzero : nodeCountZero entries with
      | true =>
          have hempty : entries = [] := by
            rw [nodeCountZero, decide_eq_true_eq, Nat.mod_eq_of_lt hlength] at hzero
            exact List.length_eq_zero_iff.mp hzero
          subst entries
          exact hscalar (by simp [JsonValue.subvalues, entrySubvalues])
            (by rw [jsonSerializeInternal, if_pos hzero]; decide)
      | false =>
          have htext : jsonSerializeInternal (.object entries) =
              bytes "\x7b" ++ jsonMembersSerialize entries := by
            rw [jsonSerializeInternal, if_neg (by simp [hzero])]
          refine ⟨by rw [htext]; exact hopen.append hclosed, ?_⟩
          intro part hpart
          rcases mem_subvalues_object.mp hpart with rfl | ⟨entry, hentry, hpart⟩
          · exact List.Subset.refl _
          · rw [htext, bare_append hopen]
            intro c hc
            have hinner := hbare entry hentry ((heach entry hentry).2 part hpart hc)
            exact List.mem_append_right _ hinner
  | array elements ih =>
      have heach := fun element (helement : element ∈ elements) => ih element helement
        (fun others hothers => hcount others (mem_subvalues_array.mpr
          (.inr ⟨element, helement, hothers⟩)))
        (fun number hnumber => hdoubles number (mem_subvalues_array.mpr
          (.inr ⟨element, helement, hnumber⟩)))
      cases elements with
      | nil =>
          exact hscalar (by simp [JsonValue.subvalues, elementSubvalues])
            (by rw [jsonSerializeInternal]; decide)
      | cons element rest =>
          obtain ⟨hclosed, hbare⟩ := closed_elements fun other hother =>
            (heach other (List.mem_cons_of_mem element hother)).1
          have hopen : Closed (bytes "[") := by decide
          have hfirst := hopen.append (heach element List.mem_cons_self).1
          have htext : jsonSerializeInternal (.array (element :: rest)) =
              bytes "[" ++ jsonSerializeInternal element ++ jsonElementsSerialize rest := by
            rw [jsonSerializeInternal]
          refine ⟨by rw [htext]; exact hfirst.append hclosed, ?_⟩
          intro part hpart
          rcases mem_subvalues_array.mp hpart with rfl | ⟨other, hother, hpart⟩
          · exact List.Subset.refl _
          · rw [htext, bare_append hfirst, bare_append hopen]
            intro c hc
            have hinner := (heach other hother).2 part hpart hc
            simp only [List.mem_append]
            rcases List.mem_cons.mp hother with rfl | hother
            · exact .inl (.inr hinner)
            · exact .inr (hbare other hother hinner)
  | string value =>
      apply hscalar (by rw [JsonValue.subvalues])
      rw [jsonSerializeInternal]
      exact (strictString_jsonStringSerialize value).scan.1
  | long number =>
      apply hscalar (by rw [JsonValue.subvalues])
      rw [jsonSerializeInternal]
      exact (strictNumber_printLong number).clean.1
  | longlong number =>
      apply hscalar (by rw [JsonValue.subvalues])
      rw [jsonSerializeInternal]
      exact (strictNumber_printLong number).clean.1
  | double number =>
      apply hscalar (by rw [JsonValue.subvalues])
      rw [jsonSerializeInternal]
      exact hdoubles number List.mem_cons_self
  | boolean value =>
      apply hscalar (by rw [JsonValue.subvalues])
      rw [jsonSerializeInternal]
      split <;> decide
  | null =>
      apply hscalar (by rw [JsonValue.subvalues])
      rw [jsonSerializeInternal]
      decide

/-! ## Doubles -/

/-- The digits of a number text and its point. -/
def mantissaOf (text : Bytes) : Bytes :=
  (text.dropWhile (· = ch '-')).takeWhile fun c => isdigit c || c = ch '.'

/-- The value of the exponent of a number text. -/
def exponentOf (text : Bytes) : Int :=
  let exponent := (text.dropWhile fun c => c ≠ ch 'e' && c ≠ ch 'E').drop 1
  if exponent.head? = some (ch '-') then -(decimalValue (exponent.drop 1) : Int)
  else decimalValue (exponent.dropWhile (· = ch '+'))

/-- The first magnitude that is rounded to an infinity. -/
def doubleLimit : Nat := 2 ^ 1024 - 2 ^ 970

/-- The magnitude of a number text, its digits times ten to the exponent less the number of
places behind the point, is below the limit. -/
def InDoubleRange (text : Bytes) : Prop :=
  decimalValue ((mantissaOf text).filter isdigit) * 10 ^ (exponentOf text).toNat <
    doubleLimit * 10 ^ (((mantissaOf text).dropWhile isdigit).length - 1 + (-exponentOf text).toNat)

instance (text : Bytes) : Decidable (InDoubleRange text) := inferInstanceAs (Decidable (_ < _))

/-- How doubles are read and printed: `strtod` returns an infinity beyond the range of a double,
and `%.16g` prints a finite double as a decimal literal and an infinity as a word. -/
structure Doubles (finite : δ → Prop) : Prop where
  ofText : ∀ text, NumberText text → (finite (CDouble.ofText text) ↔ InDoubleRange text)
  printed : ∀ number, finite number → StrictNumber (CDouble.printG16 number)
  infinite : ∀ text, NumberText text → ¬ finite (CDouble.ofText text) →
    CDouble.printG16 (CDouble.ofText text : δ) = bytes "inf" ∨
      CDouble.printG16 (CDouble.ofText text : δ) = bytes "-inf"

/-- An infinite double shows an `i` outside of strings, as it is printed as `inf` or
`-inf`. -/
theorem Doubles.bare_infinite {finite : δ → Prop} (hdoubles : Doubles finite) {text : Bytes}
    (htext : NumberText text) (hinfinite : ¬ finite (CDouble.ofText text)) :
    Closed (CDouble.printG16 (CDouble.ofText text : δ)) ∧
      ch 'i' ∈ bare (CDouble.printG16 (CDouble.ofText text : δ)) := by
  rcases hdoubles.infinite text htext hinfinite with hprint | hprint
  · rw [hprint]
    decide
  · rw [hprint]
    decide

theorem mem_doubles_denote {ast : Ast} {number : δ}
    (hnumber : .double number ∈ ast.denote.subvalues) :
    ∃ text, .number text ∈ ast.subtrees ∧ isInteger text = false ∧
      number = CDouble.ofText text := by
  obtain ⟨tree, htree, hdenote⟩ := mem_subvalues_denote.mp hnumber
  cases tree with
  | number text =>
      rw [Ast.denote, numberValue] at hdenote
      split at hdenote
      next => simp at hdenote
      next hint =>
        exact ⟨text, htree, by simpa using hint, (JsonValue.double.inj hdenote).symm⟩
  | _ => simp [Ast.denote] at hdenote

theorem double_mem_denote {ast : Ast} {text : Bytes} (htext : .number text ∈ ast.subtrees)
    (hint : isInteger text = false) :
    .double (CDouble.ofText text) ∈ (ast.denote (δ := δ)).subvalues := by
  refine mem_subvalues_denote.mpr ⟨_, htext, ?_⟩
  rw [Ast.denote, numberValue, hint]
  rfl

theorem length_objects_denote {ast : Ast} {entries : Entries δ}
    (hcount : ∀ members, Ast.object members ∈ ast.subtrees → members.length < 2 ^ 32)
    (hentries : .object entries ∈ ast.denote.subvalues) : entries.length < 2 ^ 32 := by
  obtain ⟨tree, htree, hdenote⟩ := mem_subvalues_denote.mp hentries
  cases tree with
  | object members =>
      rw [Ast.denote] at hdenote
      obtain rfl := JsonValue.object.inj hdenote
      rw [(objectOf_perm _).length_eq, denoteMembers_eq_map, List.length_map]
      exact hcount members htree
  | number text =>
      rw [Ast.denote, numberValue] at hdenote
      split at hdenote <;> simp at hdenote
  | _ => simp [Ast.denote] at hdenote

/-- What is written for a decoded text is strict JSON exactly when every number of the text
that has a fraction or an exponent is in the range of a double. -/
theorem jsonSerialize_strict_iff {finite : δ → Prop} (hdoubles : Doubles finite) (s : Bytes)
    (size : Int32) (hfree : NulFree s) (hsize : size.toInt = strlen s) :
    ((∃ value : JsonValue δ, decodeJson s size = some value) ↔
        ∃ ast, TextOf jsonMaxDepth ast s) ∧
      ∀ ast, TextOf jsonMaxDepth ast s → ∃ value : JsonValue δ, decodeJson s size = some value ∧
        (StrictText (jsonSerialize value) ↔
          ∀ text, Ast.number text ∈ ast.subtrees → isInteger text = false →
            InDoubleRange text) := by
  refine ⟨(decodeJson_accepts_grammar s size hfree hsize).1, ?_⟩
  intro ast htext
  refine ⟨ast.denote, decodeJson_complete hfree hsize htext, ?_⟩
  have hnumber : ∀ text, Ast.number text ∈ ast.subtrees → NumberText text := by
    intro text hmem
    obtain ⟨_, _, _, _, _, hast, _⟩ := htext
    obtain ⟨_, _, hpart, _⟩ := hast.subtree hmem
    exact hpart.numberText
  constructor
  · intro hstrict text hmem hint
    by_contra hrange
    have hinfinite : ¬ finite (CDouble.ofText text) := by
      rwa [hdoubles.ofText text (hnumber text hmem)]
    have hcount : ∀ entries, .object entries ∈ (ast.denote (δ := δ)).subvalues →
        entries.length < 2 ^ 32 := fun entries =>
      length_objects_denote fun members hmembers => htext.members_lt hfree hsize hmembers
    have hclosed : ∀ number, .double number ∈ (ast.denote (δ := δ)).subvalues →
        Closed (CDouble.printG16 number) := by
      intro number hdouble
      obtain ⟨text, hmem, -, rfl⟩ := mem_doubles_denote hdouble
      by_cases hfinite : finite (CDouble.ofText text)
      · exact (hdoubles.printed _ hfinite).clean.1
      · exact (hdoubles.bare_infinite (hnumber text hmem) hfinite).1
    have hbare := (closed_jsonSerialize _ hcount hclosed).2 _ (double_mem_denote hmem hint)
    rw [jsonSerializeInternal] at hbare
    exact hstrict.clean.2 (hbare (hdoubles.bare_infinite (hnumber text hmem) hinfinite).2)
  · intro hrange
    refine ⟨[], jsonSerialize (ast.denote (δ := δ)), [], ws_nil, ws_nil,
      strict_jsonSerialize _ ?_, by simp⟩
    intro number hdouble
    obtain ⟨text, hmem, hint, rfl⟩ := mem_doubles_denote hdouble
    exact hdoubles.printed _ ((hdoubles.ofText text (hnumber text hmem)).mpr
      (hrange text hmem hint))

/-! ## Three doubles -/

/-- As many doubles as it takes to read and print one literal on either side of the limit. -/
inductive SampleDouble where
  | zero
  | threeHalves
  | infinity
  deriving DecidableEq

instance : CDouble SampleDouble where
  ofText text :=
    if InDoubleRange text then if text = bytes "1.5" then .threeHalves else .zero else .infinity
  printG16
    | .zero => bytes "0"
    | .threeHalves => bytes "1.5"
    | .infinity => bytes "inf"
  printG
    | .zero => bytes "0"
    | .threeHalves => bytes "1.5"
    | .infinity => bytes "inf"

theorem sampleDoubles : Doubles fun number : SampleDouble => number ≠ .infinity where
  ofText text _ := by
    by_cases hrange : InDoubleRange text
    · simp only [CDouble.ofText, hrange, if_true, iff_true]
      split <;> decide
    · simp [CDouble.ofText, hrange]
  printed number hfinite := by
    cases number with
    | zero => exact ⟨[], bytes "0", [], [], .inl rfl, .zero, .absent, .absent, rfl⟩
    | threeHalves =>
        have hdigits : Digits (bytes "5") := by
          intro c hc
          obtain rfl := List.mem_singleton.mp hc
          decide
        exact ⟨[], bytes "1", bytes ".5", [], .inl rfl, .digits (by decide) (by decide)
          (by simp [Digits]), .present (by decide) hdigits, .absent, rfl⟩
    | infinity => exact absurd rfl hfinite
  infinite text _ hinfinite := by
    left
    rw [not_not.mp hinfinite]
    rfl

theorem digits_of_all {digits : Bytes} (hdigits : digits.all isdigit = true) : Digits digits := by
  intro c hc
  exact List.all_eq_true.mp hdigits c hc

theorem textOf_number {text : Bytes} (htext : NumberText text) :
    TextOf jsonMaxDepth (.number text) text :=
  ⟨[], text, [], blank_nil, blank_nil, derives_scalar (.number htext), by simp⟩

theorem jsonSerialize_strict_fraction :
    ∃ value : JsonValue SampleDouble, decodeJson (bytes "1.5") 3 = some value ∧
      StrictText (jsonSerialize value) := by
  have hmantissa : Mantissa (bytes "1" ++ ch '.' :: bytes "5") :=
    .point (by decide) (digits_of_all rfl) (digits_of_all rfl)
  have hnumber : NumberText (bytes "1.5") :=
    ⟨⟨ch '1', rfl, .inr rfl⟩, [], _, [], .inl rfl, hmantissa, .absent, rfl⟩
  obtain ⟨value, hdecode, hstrict⟩ := (jsonSerialize_strict_iff sampleDoubles (bytes "1.5") 3
    (by decide) (by decide)).2 _ (textOf_number hnumber)
  refine ⟨value, hdecode, hstrict.mpr ?_⟩
  intro text hmem _
  obtain rfl := Ast.number.inj (List.mem_singleton.mp hmem)
  decide +kernel

/-- An exponent beyond the range of a double is written as a word. -/
theorem jsonSerialize_not_strict :
    decodeJson (bytes "1e999") 5 = some (.double .infinity : JsonValue SampleDouble) ∧
      jsonSerialize (.double .infinity : JsonValue SampleDouble) = bytes "inf" ∧
      ¬ StrictText (bytes "inf") := by
  have hnumber : NumberText (bytes "1e999") :=
    ⟨⟨ch '1', rfl, .inr rfl⟩, [], bytes "1", bytes "e999", .inl rfl,
      .whole (by decide) (digits_of_all rfl),
      .present (.inl rfl) (.inl rfl) (by decide) (digits_of_all rfl), rfl⟩
  have hinfinity : CDouble.ofText (bytes "1e999") = SampleDouble.infinity :=
    if_neg (by decide +kernel)
  have hdecode : decodeJson (bytes "1e999") 5 =
      some ((Ast.number (bytes "1e999")).denote : JsonValue SampleDouble) :=
    decodeJson_complete (by decide) (by decide) (textOf_number hnumber)
  refine ⟨?_, rfl, ?_⟩
  · rw [hdecode, Ast.denote, numberValue, hinfinity]
    rfl
  · intro hstrict
    exact hstrict.clean.2 (by decide)

end DbSlayer.Json
