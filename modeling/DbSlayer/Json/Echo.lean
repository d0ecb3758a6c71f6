import DbSlayer.Json.Literals
import DbSlayer.Json.RoundTrip

/-! # Looking into what comes back

A value is looked into along a path of indices and names. A lookup answers with
the last member of a name; once the value was written and read again, it answers
with the first one. So the two agree along every path exactly when the text reads
the same under both rules.
-/

namespace DbSlayer.Json

open Foundation

/-- One step into a value: an element of an array or a member of an object. -/
inductive PathStep where
  | index (i : Nat)
  | key (name : Bytes)

/-- What a value is by itself: its type and its scalar, or how many elements it has. -/
inductive Shape (δ : Type) where
  | object
  | array (length : Nat)
  | string (value : Bytes)
  | long (number : Int64)
  | longlong (number : Int64)
  | double (number : δ)
  | boolean (value : UInt8)
  | null

variable {δ : Type}

/-! ## Paths in a value -/

def JsonValue.shape : JsonValue δ → Shape δ
  | .object _ => .object
  | .array elements => .array elements.length
  | .string value => .string value
  | .long number => .long number
  | .longlong number => .longlong number
  | .double number => .double number
  | .boolean value => .boolean value
  | .null => .null

/-- The value at the end of a path, with `json_skip_get` for every name. -/
def JsonValue.lookup : JsonValue δ → List PathStep → Option (JsonValue δ)
  | value, [] => some value
  | .array elements, .index i :: path => elements[i]?.bind (JsonValue.lookup · path)
  | .object entries, .key name :: path => (objectGet entries name).bind (JsonValue.lookup · path)
  | _, _ :: _ => none

/-- Along every path two values have the same type, scalar and length, or both have
nothing there. -/
def Agree (left right : JsonValue δ) : Prop :=
  ∀ path, (left.lookup path).map JsonValue.shape = (right.lookup path).map JsonValue.shape

/-! ## Paths in a text -/

/-- The first member of a name. -/
def firstMember (members : List (Bytes × Ast)) (name : Bytes) : Option Ast :=
  (members.find? fun member => strcmp name (cstr member.1) = 0).map Prod.snd

/-- The last member of a name. -/
def lastMember (members : List (Bytes × Ast)) (name : Bytes) : Option Ast :=
  firstMember members.reverse name

/-- The tree at the end of a path, with one rule for the names that are repeated. -/
def Ast.lookup (pick : List (Bytes × Ast) → Bytes → Option Ast) : Ast → List PathStep → Option Ast
  | ast, [] => some ast
  | .array elements, .index i :: path => elements[i]?.bind (Ast.lookup pick · path)
  | .object members, .key name :: path => (pick members name).bind (Ast.lookup pick · path)
  | _, _ :: _ => none

/-- The type of a tree and its scalar, or how many elements it has. -/
def Ast.shape [CDouble δ] : Ast → Shape δ
  | .null => .null
  | .boolean value => .boolean (if value then 1 else 0)
  | .string content => .string (cstr content)
  | .number text =>
      if isInteger text then .long (Int64.ofIntClamp (integerValue text))
      else .double (CDouble.ofText text)
  | .array elements => .array elements.length
  | .object _ => .object

/-- Along every path the text says the same whether the first or the last member of a
repeated name counts. -/
def Ast.ReadsAlike (δ : Type) [CDouble δ] (ast : Ast) : Prop :=
  ∀ path, (ast.lookup lastMember path).map (Ast.shape (δ := δ)) =
    (ast.lookup firstMember path).map (Ast.shape (δ := δ))

variable [CDouble δ]

theorem shape_denote (ast : Ast) : (ast.denote (δ := δ)).shape = ast.shape := by
  cases ast with
  | number text =>
      rw [Ast.denote, numberValue, Ast.shape]
      split <;> rfl
  | array elements => simp [Ast.denote, JsonValue.shape, Ast.shape, denoteElements_eq_map]
  | _ => rw [Ast.denote, JsonValue.shape, Ast.shape]

/-- What comes back has the shape of what was written: a decoded value has neither a
`long long` nor a boolean other than zero and one. -/
theorem shape_echo_denote (ast : Ast) : (echo (ast.denote (δ := δ))).shape = ast.shape := by
  cases ast with
  | boolean value => cases value <;> rfl
  | number text =>
      rw [Ast.denote, numberValue, Ast.shape]
      split <;> rfl
  | array elements =>
      simp [Ast.denote, echo, JsonValue.shape, Ast.shape, denoteElements_eq_map,
        echoElements_eq_map]
  | _ => rw [Ast.denote, echo, JsonValue.shape, Ast.shape]

/-! ## Lookups -/

/-- In what a text denotes, the last of equal keys is found. -/
theorem objectGet_denote (members : List (Bytes × Ast)) (name : Bytes) :
    objectGet (objectOf (denoteMembers (δ := δ) members)) name =
      (lastMember members name).map Ast.denote := by
  rw [objectGet_denoteMembers, lastMember, firstMember, Option.map_map]
  rfl

/-- The entries of a name come back in the opposite order. -/
theorem objectGet_echo (members : List (Bytes × Ast)) (name : Bytes) :
    objectGet (objectOf (echoMembers (objectOf (denoteMembers (δ := δ) members)))) name =
      (firstMember members name).map fun ast => echo ast.denote := by
  have hmap : objectOf (echoMembers (objectOf (denoteMembers (δ := δ) members))) =
      (objectOf (objectOf (denoteMembers members))).map (Prod.map id echo) := by
    rw [echoMembers_eq_map]
    exact Assoc.ofPairs_map echo _
  have hfirst : objectGet (objectOf (objectOf (denoteMembers (δ := δ) members))) name =
      ((denoteMembers members).find? fun member => strcmp name member.1 = 0).map Prod.snd :=
    Assoc.get_ofPairs_ofPairs strcmp_order name _
  rw [hmap, objectGet, Assoc.get_map, ← objectGet, hfirst, denoteMembers_eq_map, List.find?_map,
    Option.map_map, Option.map_map, firstMember, Option.map_map]
  rfl

/-- Values that show what the trees do, with one rule for the names that are repeated. -/
structure Shows (pick : List (Bytes × Ast) → Bytes → Option Ast) (value : Ast → JsonValue δ) :
    Prop where
  shape : ∀ ast, (value ast).shape = ast.shape
  array : ∀ elements, value (.array elements) = .array (elements.map value)
  object : ∀ members, ∃ entries, value (.object members) = .object entries ∧
    ∀ name, objectGet entries name = (pick members name).map value

theorem denote_shows : Shows lastMember (Ast.denote (δ := δ)) where
  shape := shape_denote
  array elements := by rw [Ast.denote, denoteElements_eq_map]
  object members := ⟨_, rfl, objectGet_denote members⟩

theorem echo_shows : Shows firstMember fun ast => echo (ast.denote (δ := δ)) where
  shape := shape_echo_denote
  array elements := by
    rw [Ast.denote, echo, echoElements_eq_map, denoteElements_eq_map, List.map_map]
    rfl
  object members := ⟨_, rfl, objectGet_echo members⟩

omit [CDouble δ] in
/-- Nothing is inside a scalar. -/
theorem lookup_cons_of_scalar {value : JsonValue δ} (hobject : value.shape ≠ .object)
    (harray : ∀ length, value.shape ≠ .array length) (step : PathStep) (path : List PathStep) :
    value.lookup (step :: path) = none := by
  cases value with
  | object entries => exact absurd rfl hobject
  | array elements => exact absurd rfl (harray elements.length)
  | _ => cases step <;> rfl

/-- What is found along a path is decided by which member each step picks. -/
theorem Shows.lookup {pick : List (Bytes × Ast) → Bytes → Option Ast} {value : Ast → JsonValue δ}
    (hshows : Shows pick value) (ast : Ast) (path : List PathStep) :
    ((value ast).lookup path).map JsonValue.shape = (ast.lookup pick path).map Ast.shape := by
  induction path generalizing ast with
  | nil =>
      rw [JsonValue.lookup, Ast.lookup, Option.map_some, Option.map_some, hshows.shape]
  | cons step path ih =>
      have hscalar : ast.shape (δ := δ) ≠ .object → (∀ length, ast.shape (δ := δ) ≠ .array length) →
          (value ast).lookup (step :: path) = none := by
        rw [← hshows.shape]
        intro hobject harray
        exact lookup_cons_of_scalar hobject harray step path
      cases ast with
      | array elements =>
          rw [hshows.array]
          cases step with
          | key name => rfl
          | index i =>
              rw [JsonValue.lookup, Ast.lookup, List.getElem?_map, Option.bind_map,
                Option.map_bind, Option.map_bind]
              apply Option.bind_congr
              intro element _
              exact ih element
      | object members =>
          obtain ⟨entries, hvalue, hget⟩ := hshows.object members
          rw [hvalue]
          cases step with
          | index i => rfl
          | key name =>
              rw [JsonValue.lookup, Ast.lookup, hget, Option.bind_map, Option.map_bind,
                Option.map_bind]
              apply Option.bind_congr
              intro member _
              exact ih member
      | number text =>
          rw [hscalar (by rw [Ast.shape]; split <;> simp) (by rw [Ast.shape]; split <;> simp)]
          cases step <;> rfl
      | _ =>
          rw [hscalar (by simp [Ast.shape]) (by simp [Ast.shape])]
          cases step <;> rfl

/-- Value and echo agree exactly when picking the first and picking the last of equal keys give
the same all the way down. -/
theorem agree_echo_iff (ast : Ast) :
    Agree (ast.denote (δ := δ)) (echo ast.denote) ↔ ast.ReadsAlike δ := by
  apply forall_congr'
  intro path
  rw [denote_shows.lookup, echo_shows.lookup ast]

/-! ## Decoded values are written -/

/-- What the decoder made can be written and read back, if its numbers are integers. -/
theorem Derives.writable {depth : Nat} {ast : Ast} {text : Bytes} (hast : Derives depth ast text)
    (hwhole : ∀ number, Ast.number number ∈ ast.subtrees → isInteger number = true)
    (hcount : ∀ members, Ast.object members ∈ ast.subtrees → members.length < 2 ^ 32) :
    Writable depth (ast.denote (δ := δ)) := by
  have hscalar : ∀ {depth : Nat} {ast : Ast} {text : Bytes}, Scalar ast text →
      (∀ number, Ast.number number ∈ ast.subtrees → isInteger number = true) →
      Writable depth (ast.denote (δ := δ)) := by
    intro depth ast text hscalar hwhole
    cases hscalar with
    | null => exact .null
    | isTrue => exact .boolean
    | isFalse => exact .boolean
    | string _ => exact .string (nulFree_cstr _)
    | number _ =>
        rw [Ast.denote, numberValue, if_pos (hwhole _ List.mem_cons_self)]
        exact .long
  induction depth generalizing ast text with
  | zero => exact hscalar hast hwhole
  | succ depth ih =>
      rcases hast with hast | hcontainer
      · exact hscalar hast hwhole
      · cases hcontainer with
        | emptyArray _ => exact .array (by simp [denoteElements])
        | emptyObject _ =>
            have hempty : objectOf (denoteMembers (δ := δ) []) = [] := rfl
            rw [Ast.denote, hempty]
            exact .object (by simp) (by simp) (by simp)
        | @array elements inner hinner =>
            rw [Ast.denote, denoteElements_eq_map]
            apply Writable.array
            intro element helement
            obtain ⟨ast, hmem, rfl⟩ := List.mem_map.mp helement
            obtain ⟨text, hvalue, -⟩ := hinner.mem hmem
            exact ih hvalue (fun number hnumber => hwhole number (mem_subtrees_array hmem hnumber))
              (fun members hmembers => hcount members (mem_subtrees_array hmem hmembers))
        | @object members inner hinner =>
            have hperm := objectOf_perm (denoteMembers (δ := δ) members)
            rw [Ast.denote]
            apply Writable.object
            · intro entry hentry
              rw [hperm.mem_iff, denoteMembers_eq_map] at hentry
              obtain ⟨member, -, rfl⟩ := List.mem_map.mp hentry
              exact nulFree_cstr _
            · intro entry hentry
              rw [hperm.mem_iff, denoteMembers_eq_map] at hentry
              obtain ⟨member, hmem, rfl⟩ := List.mem_map.mp hentry
              obtain ⟨_, @⟨_, _, _, _, text, _, _, _, _, hvalue⟩, -⟩ := hinner.mem hmem
              exact ih hvalue
                (fun number hnumber => hwhole number (mem_subtrees_object hmem hnumber))
                (fun members hmembers => hcount members (mem_subtrees_object hmem hmembers))
            · rw [hperm.length_eq, denoteMembers_eq_map, List.length_map]
              exact hcount members (by rw [Ast.subtrees]; exact List.mem_cons_self)

theorem TextOf.writable {s : Bytes} {size : Int32} {ast : Ast} (hfree : NulFree s)
    (hsize : size.toInt = strlen s) (htext : TextOf jsonMaxDepth ast s)
    (hwhole : ∀ number, Ast.number number ∈ ast.subtrees → isInteger number = true) :
    Writable jsonMaxDepth (ast.denote (δ := δ)) := by
  have hcount : ∀ members, Ast.object members ∈ ast.subtrees → members.length < 2 ^ 32 :=
    fun _ hmembers => htext.members_lt hfree hsize hmembers
  obtain ⟨left, inner, right, -, -, hast, -⟩ := htext
  exact hast.writable hwhole hcount

/-- What a text without fractions and exponents is read as is written and read again, and the
two values agree along every path exactly when the text reads the same under both rules for
repeated names. -/
theorem decodeJson_echo_agrees_iff (s : Bytes) (size : Int32) (hfree : NulFree s)
    (hsize : size.toInt = strlen s) :
    ((∃ value : JsonValue δ, decodeJson s size = some value) ↔
        ∃ ast, TextOf jsonMaxDepth ast s) ∧
      ∀ ast, TextOf jsonMaxDepth ast s →
        (∀ number, Ast.number number ∈ ast.subtrees → isInteger number = true) →
        ∃ value other : JsonValue δ, decodeJson s size = some value ∧
          decodeText (jsonSerialize value) = some other ∧
          (∀ size' : Int32, size'.toInt = strlen (jsonSerialize value) →
            decodeJson (jsonSerialize value) size' = some other) ∧
          (Agree value other ↔ ast.ReadsAlike δ) := by
  refine ⟨(decodeJson_accepts_grammar s size hfree hsize).1, ?_⟩
  intro ast htext hwhole
  have hvalue : Writable jsonMaxDepth (ast.denote (δ := δ)) := htext.writable hfree hsize hwhole
  refine ⟨ast.denote, echo ast.denote, decodeJson_complete hfree hsize htext, ?_, ?_,
    agree_echo_iff ast⟩
  · exact decodeText_echo hvalue
  · intro size' hsize'
    exact decodeJson_echo hvalue hsize'

/-! ## Two members of one name -/

/-- The tree of a text with a repeated name. -/
def repeated (first last : Int64) : Ast :=
  .object [(bytes "a", .number (printLong first)), (bytes "a", .number (printLong last))]

theorem textOf_repeated (first last : Int64) :
    TextOf jsonMaxDepth (repeated first last) (bytes "\x7b\"a\":" ++
      (printLong first ++ (bytes ",\"a\":" ++ (printLong last ++ bytes "\x7d")))) := by
  have hname : StringBody (bytes "a") (bytes "a") := .plain (by decide) (by decide) .nil
  have hmember : ∀ number : Int64, Member (Derives 63) (bytes "a", .number (printLong number))
      (bytes "\"a\":" ++ printLong number) := fun number =>
    .mk hname blank_nil blank_nil (derives_scalar (.number (numberText_printLong number).1))
  have hmembers := Separated.cons blank_nil (hmember first) blank_nil
    (.one blank_nil (hmember last) blank_nil)
  refine ⟨[], _, [], blank_nil, blank_nil, .inr (.object hmembers), ?_⟩
  simp [bytes]

/-- Of two equal keys, the later one stands in front. -/
theorem denote_repeated (first last : Int64) :
    (repeated first last).denote =
      (.object [(bytes "a", .long last), (bytes "a", .long first)] : JsonValue δ) := by
  rw [repeated, Ast.denote, denoteMembers, denoteMembers, denoteMembers, denote_printLong,
    denote_printLong]
  rfl

theorem isInteger_repeated (first last : Int64) (number : Bytes)
    (hnumber : Ast.number number ∈ (repeated first last).subtrees) : isInteger number = true := by
  obtain rfl | rfl : number = printLong first ∨ number = printLong last := by
    simpa [repeated, Ast.subtrees, memberSubtrees] using hnumber
  · exact (numberText_printLong first).2.1
  · exact (numberText_printLong last).2.1

/-- Two members with the same number read the same in either order. -/
theorem readsAlike_repeated (number : Int64) : (repeated number number).ReadsAlike δ := by
  intro path
  cases path with
  | nil => rfl
  | cons step path =>
      cases step with
      | index i => rfl
      | key name =>
          have hsame : lastMember [(bytes "a", .number (printLong number)),
              (bytes "a", .number (printLong number))] name =
            firstMember [(bytes "a", .number (printLong number)),
              (bytes "a", .number (printLong number))] name := rfl
          rw [repeated, Ast.lookup, Ast.lookup, hsame]
          cases hfound : firstMember [(bytes "a", Ast.number (printLong number)),
              (bytes "a", .number (printLong number))] name with
          | none => rfl
          | some found =>
              have hnumber : found = .number (printLong number) := by
                rw [firstMember, Option.map_eq_some_iff] at hfound
                obtain ⟨member, hmember, rfl⟩ := hfound
                have hmem := List.mem_of_find?_eq_some hmember
                simp only [List.mem_cons, List.not_mem_nil, or_false, or_self] at hmem
                rw [hmem]
              rw [hnumber, Option.bind_some, Option.bind_some]
              cases path with
              | nil => rfl
              | cons step path => cases step <;> rfl

theorem decodeJson_echo_agrees :
    ∃ value other : JsonValue Bytes,
      decodeJson (bytes "\x7b\"a\":1,\"a\":1\x7d") 13 = some value ∧
        decodeText (jsonSerialize value) = some other ∧ Agree value other := by
  have htext : TextOf jsonMaxDepth (repeated 1 1) (bytes "\x7b\"a\":1,\"a\":1\x7d") :=
    textOf_repeated 1 1
  obtain ⟨value, other, hvalue, hother, -, hagree⟩ :=
    (decodeJson_echo_agrees_iff (δ := Bytes) (bytes "\x7b\"a\":1,\"a\":1\x7d") 13 (by decide)
      (by decide)).2 _ htext (isInteger_repeated 1 1)
  exact ⟨value, other, hvalue, hother, hagree.mpr (readsAlike_repeated 1)⟩

/-- The last of two members of one name is read, and the first of them in what is written. -/
theorem decodeJson_echo_disagrees :
    decodeJson (bytes "\x7b\"a\":1,\"a\":2\x7d") 13 =
        some (.object [(bytes "a", .long 2), (bytes "a", .long 1)] : JsonValue Bytes) ∧
      decodeJson (jsonSerialize
          (.object [(bytes "a", .long 2), (bytes "a", .long 1)] : JsonValue Bytes)) 19 =
        some (.object [(bytes "a", .long 1), (bytes "a", .long 2)] : JsonValue Bytes) ∧
      ¬ Agree (.object [(bytes "a", .long 2), (bytes "a", .long 1)] : JsonValue Bytes)
        (.object [(bytes "a", .long 1), (bytes "a", .long 2)]) := by
  have htext : TextOf jsonMaxDepth (repeated 1 2) (bytes "\x7b\"a\":1,\"a\":2\x7d") :=
    textOf_repeated 1 2
  have hfree : NulFree (bytes "\x7b\"a\":1,\"a\":2\x7d") := by decide
  have hsize : (13 : Int32).toInt = strlen (bytes "\x7b\"a\":1,\"a\":2\x7d") := by decide
  have hvalue := htext.writable (δ := Bytes) hfree hsize (isInteger_repeated 1 2)
  rw [denote_repeated] at hvalue
  refine ⟨?_, decodeJson_echo hvalue (by decide +kernel), ?_⟩
  · rw [← denote_repeated]
    exact decodeJson_complete hfree hsize htext
  · intro hagree
    have hlong : Shape.long 2 = (Shape.long 1 : Shape Bytes) :=
      Option.some.inj (hagree [.key (bytes "a")])
    exact absurd (Shape.long.inj hlong) (by decide)

end DbSlayer.Json
