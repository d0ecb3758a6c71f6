import DbSlayer.Foundation.Markup
import DbSlayer.Json.Grammar
import DbSlayer.Json.Serialize

/-! # What the XML shows

The text of `xml_serialize` is always well formed, and it has one reading. What is
read is the outline of the value, with the text of every scalar, except where
a container is written without its tags or without its entries: an empty array is
written as two brackets, and an object whose count of nodes has wrapped around
to zero is written as an empty one.
-/

namespace DbSlayer.Json

open Foundation

/-! ## The markup -/

/-- The bytes that stand for themselves: no control byte and no sign of the markup. -/
def XmlPlain (c : Byte) : Prop := 0x20 ≤ c ∧ c ≠ ch '<' ∧ c ≠ ch '>' ∧ c ≠ ch '&'

instance (c : Byte) : Decidable (XmlPlain c) := inferInstanceAs (Decidable (_ ∧ _))

/-- The byte that a reference stands for. -/
def xmlReference (name : Bytes) : Option Byte :=
  if name = bytes "amp" then some (ch '&')
  else if name = bytes "lt" then some (ch '<')
  else if name = bytes "gt" then some (ch '>')
  else if name.take 2 = bytes "#x" ∧ name.length = 4 ∧ (name.drop 2).all isxdigit then
    some (UInt8.ofNat ((name.drop 2).foldl (fun code digit => 16 * code + hexDigit digit) 0))
  else none

/-- No name of a reference has a semicolon, which ends it. -/
theorem semicolon_not_mem_xmlReference {name : Bytes} {c : Byte}
    (hname : xmlReference name = some c) : ch ';' ∉ name := by
  unfold xmlReference at hname
  split at hname
  next hamp =>
    rw [hamp]
    decide
  split at hname
  next hlt =>
    rw [hlt]
    decide
  split at hname
  next hgt =>
    rw [hgt]
    decide
  split at hname
  next hcode =>
    obtain ⟨hmark, -, hdigits⟩ := hcode
    intro hmem
    rw [← List.take_append_drop 2 name, List.mem_append, hmark] at hmem
    rcases hmem with hmem | hmem
    · revert hmem
      decide
    · exact absurd (List.all_eq_true.mp hdigits _ hmem) (by decide)
  next => simp at hname

/-- The part of XML that is written: elements without attributes. -/
def xmlMarkup : Markup Byte where
  lt := ch '<'
  gt := ch '>'
  slash := ch '/'
  amp := ch '&'
  semicolon := ch ';'
  plain := XmlPlain
  reference := xmlReference
  named name := name ≠ [] ∧ ∀ c ∈ name, ch 'a' ≤ c ∧ c ≤ ch 'z'
  lt_not_plain := by decide
  amp_not_plain := by decide
  amp_ne_lt := by decide
  semicolon_not_mem := semicolon_not_mem_xmlReference
  gt_not_mem := by
    intro name hname hmem
    exact absurd (hname.2 _ hmem) (by decide)
  named_head := by
    rintro name ⟨hne, hletters⟩
    obtain ⟨c, rest, rfl⟩ := List.exists_cons_of_ne_nil hne
    refine ⟨c, rest, rfl, ?_⟩
    rintro rfl
    exact absurd (hletters _ List.mem_cons_self) (by decide)

/-! ## Outlines -/

/-- A value with the text of every scalar. -/
inductive Outline where
  | scalar (text : Bytes)
  | array (elements : List Outline)
  | object (entries : List (Bytes × Outline))

mutual

/-- An object is an element with a key and a value for each entry, an array is one with
its items, and a scalar is its characters. -/
def Outline.nodes : Outline → List (Node Byte)
  | .scalar text => text.map .char
  | .array elements => [.element (bytes "array") (itemNodes elements)]
  | .object entries => [.element (bytes "object") (entryNodes entries)]

def itemNodes : List Outline → List (Node Byte)
  | [] => []
  | element :: rest => .element (bytes "item") element.nodes :: itemNodes rest

def entryNodes : List (Bytes × Outline) → List (Node Byte)
  | [] => []
  | (key, value) :: rest =>
      .element (bytes "key") (key.map .char) :: .element (bytes "value") value.nodes ::
        entryNodes rest

end

theorem map_char_inj {text other : Bytes}
    (hsame : text.map (Node.char (α := Byte)) = other.map .char) : text = other :=
  (List.map_injective_iff.mpr fun _ _ => Node.char.inj) hsame

theorem map_char_ne_element {text name : Bytes} {children : List (Node Byte)} :
    text.map Node.char ≠ [.element name children] := by
  cases text <;> simp

mutual

/-- Elements and characters tell the outlines apart. -/
theorem Outline.nodes_inj : ∀ {outline other : Outline}, outline.nodes = other.nodes →
    outline = other
  | .scalar text, .scalar other, hsame => by
      rw [Outline.nodes, Outline.nodes] at hsame
      rw [map_char_inj hsame]
  | .array elements, .array others, hsame => by
      simp only [Outline.nodes, List.cons.injEq, Node.element.injEq, and_true, true_and] at hsame
      rw [itemNodes_inj hsame]
  | .object entries, .object others, hsame => by
      simp only [Outline.nodes, List.cons.injEq, Node.element.injEq, and_true, true_and] at hsame
      rw [entryNodes_inj hsame]
  | .scalar text, .array others, hsame => (map_char_ne_element hsame).elim
  | .scalar text, .object others, hsame => (map_char_ne_element hsame).elim
  | .array elements, .scalar other, hsame => (map_char_ne_element hsame.symm).elim
  | .object entries, .scalar other, hsame => (map_char_ne_element hsame.symm).elim
  | .array elements, .object others, hsame => by
      simp only [Outline.nodes, List.cons.injEq, Node.element.injEq, and_true] at hsame
      exact absurd hsame.1 (by decide)
  | .object entries, .array others, hsame => by
      simp only [Outline.nodes, List.cons.injEq, Node.element.injEq, and_true] at hsame
      exact absurd hsame.1 (by decide)

theorem itemNodes_inj : ∀ {elements others : List Outline}, itemNodes elements = itemNodes others →
    elements = others
  | [], [], _ => rfl
  | [], _ :: _, hsame => by simp [itemNodes] at hsame
  | _ :: _, [], hsame => by simp [itemNodes] at hsame
  | element :: rest, other :: others, hsame => by
      simp only [itemNodes, List.cons.injEq, Node.element.injEq, true_and] at hsame
      rw [Outline.nodes_inj hsame.1, itemNodes_inj hsame.2]

theorem entryNodes_inj : ∀ {entries others : List (Bytes × Outline)},
    entryNodes entries = entryNodes others → entries = others
  | [], [], _ => rfl
  | [], (_, _) :: _, hsame => by simp [entryNodes] at hsame
  | (_, _) :: _, [], hsame => by simp [entryNodes] at hsame
  | (key, value) :: rest, (key', value') :: others, hsame => by
      simp only [entryNodes, List.cons.injEq, Node.element.injEq, true_and] at hsame
      rw [map_char_inj hsame.1, Outline.nodes_inj hsame.2.1, entryNodes_inj hsame.2.2]

end

/-! ## The outline of a value -/

/-- The bytes that XML can show: all but the control bytes other than tab, line feed and
carriage return. -/
def xmlShows (c : Byte) : Bool := c = 9 || c = 10 || c = 13 || 0x20 ≤ c

variable {δ : Type} [CDouble δ]

mutual

/-- What the XML is to show. The entries stand in the order of the table, which is that of
their keys. -/
def JsonValue.outline : JsonValue δ → Outline
  | .object entries => .object (outlineEntries entries)
  | .array elements => .array (outlineElements elements)
  | .string value => .scalar (value.filter xmlShows)
  | .long number => .scalar (printLong number)
  | .longlong number => .scalar (printLong number)
  | .double number => .scalar (CDouble.printG number)
  | .boolean value => .scalar (if value ≠ 0 then bytes "true" else bytes "false")
  | .null => .scalar (bytes "null")

def outlineElements : List (JsonValue δ) → List Outline
  | [] => []
  | element :: rest => element.outline :: outlineElements rest

def outlineEntries : List (Bytes × JsonValue δ) → List (Bytes × Outline)
  | [] => []
  | (key, value) :: rest => (key.filter xmlShows, value.outline) :: outlineEntries rest

end

mutual

/-- What the XML shows: brackets for an empty array, no entries where the count of nodes is
zero, and strings up to their first zero byte. -/
def JsonValue.shown : JsonValue δ → Outline
  | .object entries => .object (if nodeCountZero entries then [] else shownEntries entries)
  | .array [] => .scalar (bytes "[]")
  | .array (element :: rest) => .array (element.shown :: shownElements rest)
  | .string value => .scalar ((cstr value).filter xmlShows)
  | .long number => .scalar (printLong number)
  | .longlong number => .scalar (printLong number)
  | .double number => .scalar (CDouble.printG number)
  | .boolean value => .scalar (if value ≠ 0 then bytes "true" else bytes "false")
  | .null => .scalar (bytes "null")

def shownElements : List (JsonValue δ) → List Outline
  | [] => []
  | element :: rest => element.shown :: shownElements rest

def shownEntries : List (Bytes × JsonValue δ) → List (Bytes × Outline)
  | [] => []
  | (key, value) :: rest => ((cstr key).filter xmlShows, value.shown) :: shownEntries rest

end

/-! ## What is written -/

/-- What the writer may print for a byte: the byte, a reference to it, or nothing for a byte
that XML cannot show. -/
def XmlEscapeOf (c : Byte) : Prop :=
  (xmlEscape c = [c] ∧ XmlPlain c ∧ xmlShows c = true) ∨
    (∃ name ∈ [bytes "amp", bytes "lt", bytes "gt", bytes "#x09", bytes "#x0A", bytes "#x0D"],
      xmlEscape c = ch '&' :: (name ++ [ch ';']) ∧ xmlReference name = some c ∧
        xmlShows c = true) ∨
    (xmlEscape c = [] ∧ xmlShows c = false)

instance (c : Byte) : Decidable (XmlEscapeOf c) := inferInstanceAs (Decidable (_ ∨ _))

theorem xmlEscapeOf (c : Byte) : XmlEscapeOf c :=
  forall_byte (p := XmlEscapeOf) (by decide +kernel) c

/-- An escaped string is the content of its characters, as far as XML can show them: what
it cannot show is left out. -/
theorem content_flatMap_xmlEscape (value : Bytes) :
    xmlMarkup.Content ((value.filter xmlShows).map .char) (value.flatMap xmlEscape) := by
  induction value with
  | nil => exact .nil
  | cons c rest ih =>
      rw [List.flatMap_cons]
      rcases xmlEscapeOf c with ⟨hescape, hplain, hshows⟩ | ⟨name, -, hescape, hname, hshows⟩ |
        ⟨hescape, hshows⟩
      · rw [hescape, List.filter_cons_of_pos hshows]
        exact .plain hplain ih
      · rw [hescape, List.filter_cons_of_pos hshows, List.cons_append, List.append_assoc]
        exact .reference hname ih
      · rw [hescape, List.filter_cons_of_neg (by simp [hshows])]
        exact ih

theorem xmlPlain_of_isdigit {c : Byte} (hc : isdigit c = true) : XmlPlain c :=
  forall_byte (p := fun c => isdigit c = true → XmlPlain c) (by decide +kernel) c hc

theorem xmlPlain_printLong (number : Int64) : ∀ c ∈ printLong number, XmlPlain c := by
  have hdigits : ∀ c ∈ printNat number.toInt.natAbs, XmlPlain c :=
    fun c hc => xmlPlain_of_isdigit (isdigit_of_mem_printNat hc)
  intro c hc
  rw [printLong] at hc
  split at hc
  · rcases List.mem_cons.mp hc with rfl | hc
    · decide
    · exact hdigits c hc
  · exact hdigits c hc

theorem content_elements {elements : List (JsonValue δ)}
    (helements : ∀ element ∈ elements,
      xmlMarkup.Content element.shown.nodes (xmlSerializeInternal element)) :
    xmlMarkup.Content (itemNodes (shownElements elements)) (xmlElementsSerialize elements) := by
  induction elements with
  | nil =>
      rw [xmlElementsSerialize]
      exact .nil
  | cons element rest ih =>
      have hitem : xmlMarkup.named (bytes "item") := ⟨by decide, by decide +kernel⟩
      have hrest := ih fun other hother => helements other (List.mem_cons_of_mem element hother)
      have hcontent := Markup.Content.element hitem (helements element List.mem_cons_self) hrest
      rw [xmlElementsSerialize, shownElements, itemNodes, List.append_assoc, List.append_assoc]
      exact hcontent

theorem content_members {entries : Entries δ}
    (hentries : ∀ entry ∈ entries,
      xmlMarkup.Content entry.2.shown.nodes (xmlSerializeInternal entry.2)) :
    xmlMarkup.Content (entryNodes (shownEntries entries)) (xmlMembersSerialize entries) := by
  induction entries with
  | nil =>
      rw [xmlMembersSerialize]
      exact .nil
  | cons entry rest ih =>
      have hkey : xmlMarkup.named (bytes "key") := ⟨by decide, by decide +kernel⟩
      have hvalue : xmlMarkup.named (bytes "value") := ⟨by decide, by decide +kernel⟩
      have hrest := ih fun other hother => hentries other (List.mem_cons_of_mem entry hother)
      have hcontent := Markup.Content.element hkey (content_flatMap_xmlEscape (cstr entry.1))
        (Markup.Content.element hvalue (hentries entry List.mem_cons_self) hrest)
      rw [xmlMembersSerialize, shownEntries, entryNodes]
      simp only [List.append_assoc]
      exact hcontent

/-- What is written is well formed. -/
theorem content_xmlSerialize (value : JsonValue δ)
    (hdoubles : ∀ number, .double number ∈ value.subvalues →
      ∀ c ∈ CDouble.printG number, XmlPlain c) :
    xmlMarkup.Content value.shown.nodes (xmlSerialize value) := by
  have hobject : xmlMarkup.named (bytes "object") := ⟨by decide, by decide +kernel⟩
  have harray : xmlMarkup.named (bytes "array") := ⟨by decide, by decide +kernel⟩
  have hwords : ∀ word ∈ [bytes "[]", bytes "true", bytes "false", bytes "null"],
      ∀ c ∈ word, XmlPlain c := by decide +kernel
  rw [xmlSerialize]
  induction value using JsonValue.induct with
  | object entries ih =>
      rw [xmlSerializeInternal, JsonValue.shown]
      split
      next => exact Markup.Content.single hobject .nil
      next =>
        have hmembers := content_members fun entry hentry => ih entry hentry
          fun number hnumber => hdoubles number
            (mem_subvalues_object.mpr (.inr ⟨entry, hentry, hnumber⟩))
        rw [List.append_assoc]
        exact Markup.Content.single hobject hmembers
  | array elements ih =>
      cases elements with
      | nil =>
          rw [xmlSerializeInternal, JsonValue.shown]
          exact Markup.content_chars (hwords _ (by simp))
      | cons element rest =>
          have hitems := content_elements fun other hother => ih other hother
            fun number hnumber => hdoubles number
              (mem_subvalues_array.mpr (.inr ⟨other, hother, hnumber⟩))
          rw [xmlSerializeInternal, JsonValue.shown, List.append_assoc]
          exact Markup.Content.single harray hitems
  | string value =>
      rw [xmlSerializeInternal, JsonValue.shown]
      exact content_flatMap_xmlEscape (cstr value)
  | long number =>
      rw [xmlSerializeInternal, JsonValue.shown]
      exact Markup.content_chars (xmlPlain_printLong number)
  | longlong number =>
      rw [xmlSerializeInternal, JsonValue.shown]
      exact Markup.content_chars (xmlPlain_printLong number)
  | double number =>
      rw [xmlSerializeInternal, JsonValue.shown]
      exact Markup.content_chars (hdoubles number List.mem_cons_self)
  | boolean value =>
      rw [xmlSerializeInternal, JsonValue.shown]
      split
      · exact Markup.content_chars (hwords _ (by simp))
      · exact Markup.content_chars (hwords _ (by simp))
  | null =>
      rw [xmlSerializeInternal, JsonValue.shown]
      exact Markup.content_chars (hwords _ (by simp))

/-! ## What is shown and what is to be shown -/

/-- No array inside the value is empty, and no object inside it has entries that the count of
its nodes does not show. -/
def KeepsShape (value : JsonValue δ) : Prop :=
  .array [] ∉ value.subvalues ∧
    ∀ entries, .object entries ∈ value.subvalues → nodeCountZero entries = true → entries = []

omit [CDouble δ] in
/-- An object keeps its shape unless it has members that its count misses. -/
theorem keepsShape_object {entries : Entries δ} :
    KeepsShape (.object entries) ↔ (nodeCountZero entries = true → entries = []) ∧
      ∀ entry ∈ entries, KeepsShape entry.2 := by
  simp only [KeepsShape, mem_subvalues_object, reduceCtorEq, false_or, JsonValue.object.injEq]
  constructor
  · rintro ⟨harrays, hobjects⟩
    refine ⟨hobjects entries (.inl rfl), ?_⟩
    intro entry hentry
    exact ⟨fun harray => harrays ⟨entry, hentry, harray⟩,
      fun others hothers => hobjects others (.inr ⟨entry, hentry, hothers⟩)⟩
  · rintro ⟨hcount, hentries⟩
    refine ⟨?_, ?_⟩
    · rintro ⟨entry, hentry, harray⟩
      exact (hentries entry hentry).1 harray
    · rintro others (rfl | ⟨entry, hentry, hothers⟩)
      · exact hcount
      · exact (hentries entry hentry).2 others hothers

omit [CDouble δ] in
theorem keepsShape_array {elements : List (JsonValue δ)} :
    KeepsShape (.array elements) ↔ elements ≠ [] ∧ ∀ element ∈ elements, KeepsShape element := by
  simp only [KeepsShape, mem_subvalues_array, reduceCtorEq, false_or, JsonValue.array.injEq,
    not_or]
  constructor
  · rintro ⟨⟨hne, harrays⟩, hobjects⟩
    refine ⟨Ne.symm hne, ?_⟩
    intro element helement
    exact ⟨fun harray => harrays ⟨element, helement, harray⟩,
      fun others hothers => hobjects others ⟨element, helement, hothers⟩⟩
  · rintro ⟨hne, helements⟩
    refine ⟨⟨Ne.symm hne, ?_⟩, ?_⟩
    · rintro ⟨element, helement, harray⟩
      exact (helements element helement).1 harray
    · rintro others ⟨element, helement, hothers⟩
      exact (helements element helement).2 others hothers

/-- Strings and names are C strings, and `%g` prints digits, letters, signs and points. -/
structure Printable (value : JsonValue δ) : Prop where
  strings : ∀ text, .string text ∈ value.subvalues → NulFree text
  keys : ∀ entries, .object entries ∈ value.subvalues → ∀ entry ∈ entries, NulFree entry.1
  doubles : ∀ number, .double number ∈ value.subvalues → ∀ c ∈ CDouble.printG number,
    isdigit c = true ∨ ch 'a' ≤ c ∧ c ≤ ch 'z' ∨ c ∈ bytes "+-."

/-- Every part of a printable value is printable. -/
theorem Printable.part {value part : JsonValue δ} (hvalue : Printable value)
    (hpart : part.subvalues ⊆ value.subvalues) : Printable part where
  strings text htext := hvalue.strings text (hpart htext)
  keys entries hentries := hvalue.keys entries (hpart hentries)
  doubles number hnumber := hvalue.doubles number (hpart hnumber)

theorem Printable.plain {value : JsonValue δ} (hvalue : Printable value) {number : δ}
    (hnumber : .double number ∈ value.subvalues) : ∀ c ∈ CDouble.printG number, XmlPlain c := by
  have hplain : ∀ c : Byte, isdigit c = true ∨ ch 'a' ≤ c ∧ c ≤ ch 'z' ∨ c ∈ bytes "+-." →
      XmlPlain c := forall_byte (by decide +kernel)
  intro c hc
  exact hplain c (hvalue.doubles number hnumber c hc)

theorem shownElements_eq_map (elements : List (JsonValue δ)) :
    shownElements elements = elements.map JsonValue.shown := by
  induction elements with
  | nil => rfl
  | cons element rest ih => rw [shownElements, ih, List.map_cons]

theorem outlineElements_eq_map (elements : List (JsonValue δ)) :
    outlineElements elements = elements.map JsonValue.outline := by
  induction elements with
  | nil => rfl
  | cons element rest ih => rw [outlineElements, ih, List.map_cons]

theorem shownEntries_eq_map (entries : Entries δ) :
    shownEntries entries =
      entries.map fun entry => ((cstr entry.1).filter xmlShows, entry.2.shown) := by
  induction entries with
  | nil => rfl
  | cons entry rest ih => rw [shownEntries, ih, List.map_cons]

theorem outlineEntries_eq_map (entries : Entries δ) :
    outlineEntries entries =
      entries.map fun entry => (entry.1.filter xmlShows, entry.2.outline) := by
  induction entries with
  | nil => rfl
  | cons entry rest ih => rw [outlineEntries, ih, List.map_cons]

/-- The document shows the value as it is exactly when every part keeps its shape. -/
theorem shown_eq_outline_iff (value : JsonValue δ) (hvalue : Printable value) :
    value.shown = value.outline ↔ KeepsShape value := by
  have hscalar : ∀ {value : JsonValue δ}, value.subvalues = [value] →
      (∀ elements, value ≠ .array elements) → (∀ entries, value ≠ .object entries) →
      KeepsShape value := by
    intro value hself harray hobject
    rw [KeepsShape, hself]
    simp only [List.mem_singleton]
    exact ⟨fun heq => harray [] heq.symm, fun entries heq => absurd heq.symm (hobject entries)⟩
  induction value using JsonValue.induct with
  | object entries ih =>
      have heach : ∀ entry ∈ entries, (((cstr entry.1).filter xmlShows, entry.2.shown) =
          (entry.1.filter xmlShows, entry.2.outline) ↔ KeepsShape entry.2) := by
        intro entry hentry
        have hkey : NulFree entry.1 :=
          hvalue.keys entries (mem_subvalues_object.mpr (.inl rfl)) entry hentry
        have hinside : entry.2.subvalues ⊆ (JsonValue.object entries).subvalues := by
          intro part hpart
          exact mem_subvalues_object.mpr (.inr ⟨entry, hentry, hpart⟩)
        rw [cstr_of_nulFree hkey, Prod.mk.injEq, eq_self_iff_true, true_and]
        exact ih entry hentry (hvalue.part hinside)
      rw [JsonValue.shown, JsonValue.outline, Outline.object.injEq, keepsShape_object,
        ← forall₂_congr heach, outlineEntries_eq_map]
      cases hcount : nodeCountZero entries with
      | true =>
          rw [if_pos rfl, eq_comm, List.map_eq_nil_iff]
          constructor
          · rintro rfl
            simp
          · intro hshape
            exact hshape.1 rfl
      | false =>
          rw [if_neg (by simp), shownEntries_eq_map, List.map_inj_left]
          simp
  | array elements ih =>
      cases elements with
      | nil => simp [JsonValue.shown, JsonValue.outline, keepsShape_array]
      | cons element rest =>
          have heach : ∀ other ∈ element :: rest,
              (other.shown = other.outline ↔ KeepsShape other) := by
            intro other hother
            have hinside : other.subvalues ⊆ (JsonValue.array (element :: rest)).subvalues := by
              intro part hpart
              exact mem_subvalues_array.mpr (.inr ⟨other, hother, hpart⟩)
            exact ih other hother (hvalue.part hinside)
          rw [JsonValue.shown, JsonValue.outline, ← shownElements, Outline.array.injEq,
            shownElements_eq_map, outlineElements_eq_map, List.map_inj_left, keepsShape_array,
            forall₂_congr heach]
          simp
  | string text =>
      have htext := hvalue.strings text List.mem_cons_self
      rw [JsonValue.shown, JsonValue.outline, cstr_of_nulFree htext]
      exact iff_of_true rfl (hscalar (by rw [JsonValue.subvalues]) (by simp) (by simp))
  | _ =>
      rw [JsonValue.shown, JsonValue.outline]
      exact iff_of_true rfl (hscalar (by rw [JsonValue.subvalues]) (by simp) (by simp))

/-! ## Reading back -/

/-- The text is that of an outline, and of no other one. -/
theorem content_nodes_iff {value : JsonValue δ} (hvalue : Printable value) (outline : Outline) :
    xmlMarkup.Content outline.nodes (xmlSerialize value) ↔ outline = value.shown := by
  have hcontent := content_xmlSerialize value fun _ => hvalue.plain
  constructor
  · intro houtline
    exact Outline.nodes_inj (houtline.unique hcontent)
  · rintro rfl
    exact hcontent

/-- The XML of an object is a single well-formed element. Its outline is read back, and only
its outline, exactly when no array inside it is empty and no object inside it hides its entries;
two such values that are written alike have one outline. -/
theorem xmlSerialize_reads_back_iff (entries : Entries δ)
    (hvalue : Printable (.object entries)) :
    (∃ children, xmlMarkup.Content [.element (bytes "object") children]
        (xmlSerialize (.object entries))) ∧
      (xmlMarkup.Content (JsonValue.object entries).outline.nodes
        (xmlSerialize (.object entries)) ↔ KeepsShape (.object entries)) ∧
      (KeepsShape (.object entries) → ∀ outline : Outline,
        xmlMarkup.Content outline.nodes (xmlSerialize (.object entries)) →
          outline = (JsonValue.object entries).outline) ∧
      ∀ other : JsonValue δ, Printable other → KeepsShape (.object entries) → KeepsShape other →
        xmlSerialize other = xmlSerialize (.object entries) →
          other.outline = (JsonValue.object entries).outline := by
  have hshape := shown_eq_outline_iff _ hvalue
  have hunique : KeepsShape (.object entries) → ∀ outline : Outline,
      xmlMarkup.Content outline.nodes (xmlSerialize (.object entries)) →
        outline = (JsonValue.object entries).outline := by
    intro hkeeps outline houtline
    rw [(content_nodes_iff hvalue outline).mp houtline, hshape.mpr hkeeps]
  refine ⟨?_, ?_, hunique, ?_⟩
  · have hcontent := content_xmlSerialize _ fun _ => hvalue.plain
    rw [JsonValue.shown, Outline.nodes] at hcontent
    exact ⟨_, hcontent⟩
  · rw [content_nodes_iff hvalue, eq_comm]
    exact hshape
  · intro other hother hkeeps hkeeps' hsame
    apply hunique hkeeps
    rw [← hsame, content_nodes_iff hother, eq_comm]
    exact (shown_eq_outline_iff other hother).mpr hkeeps'

/-- An array of one number. -/
theorem xmlSerialize_reads_back_item :
    xmlMarkup.Content
      [.element (bytes "object") [.element (bytes "key") [.char (ch 'a')],
        .element (bytes "value") [.element (bytes "array")
          [.element (bytes "item") [.char (ch '1')]]]]]
      (bytes "<object><key>a</key><value><array><item>1</item></array></value></object>") := by
  have hprint : printLong 1 = bytes "1" := by decide
  have hparts : (JsonValue.object [(bytes "a", .array [.long 1])] : JsonValue Bytes).subvalues =
      [.object [(bytes "a", .array [.long 1])], .array [.long 1], .long 1] := by
    simp [JsonValue.subvalues, entrySubvalues, elementSubvalues]
  have hkey : NulFree (bytes "a") := by decide
  have hvalue : Printable (.object [(bytes "a", .array [.long 1])] : JsonValue Bytes) := by
    constructor <;> simp [hparts, hkey]
  have hkeeps : KeepsShape (.object [(bytes "a", .array [.long 1])] : JsonValue Bytes) := by
    simp [KeepsShape, hparts, nodeCountZero]
  have hcontent := (xmlSerialize_reads_back_iff _ hvalue).2.1.mpr hkeeps
  have htext : xmlSerialize (.object [(bytes "a", .array [.long 1])] : JsonValue Bytes) =
      bytes "<object><key>a</key><value><array><item>1</item></array></value></object>" := by
    decide +kernel
  have hnodes : (JsonValue.object [(bytes "a", .array [.long 1])] : JsonValue Bytes).outline.nodes =
      [.element (bytes "object") [.element (bytes "key") [.char (ch 'a')],
        .element (bytes "value") [.element (bytes "array")
          [.element (bytes "item") [.char (ch '1')]]]]] := by
    simp only [JsonValue.outline, outlineEntries, outlineElements, hprint, Outline.nodes]
    rfl
  rwa [htext, hnodes] at hcontent

/-- An empty array is written like the string of its brackets. -/
theorem xmlSerialize_loses_array :
    xmlSerialize (.object [(bytes "a", .array [])] : JsonValue Bytes) =
        xmlSerialize (.object [(bytes "a", .string (bytes "[]"))] : JsonValue Bytes) ∧
      (JsonValue.object [(bytes "a", .array [])] : JsonValue Bytes).outline ≠
        (JsonValue.object [(bytes "a", .string (bytes "[]"))] : JsonValue Bytes).outline ∧
      ¬ xmlMarkup.Content
        (JsonValue.object [(bytes "a", .array [])] : JsonValue Bytes).outline.nodes
        (xmlSerialize (.object [(bytes "a", .array [])] : JsonValue Bytes)) := by
  have hparts : (JsonValue.object [(bytes "a", .array [])] : JsonValue Bytes).subvalues =
      [.object [(bytes "a", .array [])], .array []] := by
    simp [JsonValue.subvalues, entrySubvalues, elementSubvalues]
  have hkey : NulFree (bytes "a") := by decide
  have hvalue : Printable (.object [(bytes "a", .array [])] : JsonValue Bytes) := by
    constructor <;> simp [hparts, hkey]
  refine ⟨by decide +kernel, ?_, ?_⟩
  · simp [JsonValue.outline, outlineEntries]
  · rw [content_nodes_iff hvalue, eq_comm, shown_eq_outline_iff _ hvalue]
    simp [KeepsShape, hparts]

end DbSlayer.Json
