import DbSlayer.CLib.Numbers

/-! # JSON values

The tagged union of `simplejson.h`. An object holds the level-0 order of its
skip list: `Skip.refines_run` shows that the order is the one of
`Assoc.put` under `strcmp`, for every choice of node heights.
-/

namespace DbSlayer.Json

open Foundation

inductive JsonValue (δ : Type) where
  | object (entries : List (Bytes × JsonValue δ))
  | array (elements : List (JsonValue δ))
  | string (value : Bytes)
  | long (number : Int64)
  | longlong (number : Int64)
  | double (number : δ)
  | boolean (value : UInt8)
  | null

variable {δ : Type}

/-- `json_string_create`: the copy ends at the first zero byte. -/
def jsonStringCreate (string : Bytes) : JsonValue δ := .string (cstr string)

/-- The entries of an object in level-0 order. -/
abbrev Entries (δ : Type) := List (Bytes × JsonValue δ)

/-- `json_skip_put` on the table of an object. -/
def objectPut (entries : Entries δ) (name : Bytes) (value : JsonValue δ) : Entries δ :=
  Assoc.put strcmp name value entries

/-- `json_skip_get` on the table of an object. -/
def objectGet (entries : Entries δ) (name : Bytes) : Option (JsonValue δ) :=
  Assoc.get strcmp name entries

/-- The table left by putting members one after the other. -/
def objectOf (members : List (Bytes × JsonValue δ)) : Entries δ :=
  members.foldl (fun entries member => objectPut entries member.1 member.2) []

/-- An object is built by `put`, member after member. -/
theorem objectOf_eq_run (members : List (Bytes × JsonValue δ)) :
    objectOf members =
      Assoc.run strcmp (members.map fun member => .put member.1 member.2) := by
  rw [objectOf, Assoc.run, List.foldl_map]
  rfl

theorem objectOf_perm (members : List (Bytes × JsonValue δ)) :
    (objectOf members).Perm members := Assoc.ofPairs_perm members

/-- A sorted table of distinct names is in strictly ascending order. -/
theorem strict_of_sorted {ν : Type} {entries : List (Bytes × ν)}
    (hsorted : Assoc.Sorted strcmp entries) (hdistinct : (entries.map Prod.fst).Nodup)
    (hfree : ∀ entry ∈ entries, NulFree entry.1) :
    entries.Pairwise fun left right => strcmp left.1 right.1 < 0 := by
  refine (hsorted.and (List.pairwise_map.mp hdistinct)).imp_of_mem ?_
  intro left right hleft hright hpair
  have hne : strcmp left.1 right.1 ≠ 0 := by
    rw [Ne, strcmp_eq_zero_iff (hfree left hleft) (hfree right hright)]
    exact hpair.2
  have hle : strcmp left.1 right.1 ≤ 0 := hpair.1
  omega

/-- The table of members with distinct names is in strictly ascending order. -/
theorem objectOf_strict {members : List (Bytes × JsonValue δ)}
    (hdistinct : (members.map Prod.fst).Nodup) (hfree : ∀ member ∈ members, NulFree member.1) :
    (objectOf members).Pairwise fun left right => strcmp left.1 right.1 < 0 := by
  have hperm := objectOf_perm members
  refine strict_of_sorted ?_ ((hperm.map Prod.fst).nodup_iff.mpr hdistinct) ?_
  · rw [objectOf_eq_run]
    exact Assoc.sorted_run strcmp_order _
  · exact fun entry hentry => hfree entry (hperm.mem_iff.mp hentry)

/-- Entries in strictly ascending order are the table they build. -/
theorem objectOf_eq_self {entries : Entries δ}
    (hstrict : entries.Pairwise fun left right => strcmp left.1 right.1 < 0) :
    objectOf entries = entries :=
  Assoc.foldl_put_eq_append strcmp_order hstrict

/-- A member of a table of distinct names is found. -/
theorem objectGet_of_mem {members : List (Bytes × JsonValue δ)}
    (hdistinct : (members.map Prod.fst).Nodup) (hfree : ∀ member ∈ members, NulFree member.1)
    {name : Bytes} {value : JsonValue δ} (hmem : (name, value) ∈ members) :
    objectGet (objectOf members) name = some value :=
  Assoc.get_of_mem strcmp_order (objectOf_strict hdistinct hfree)
    ((objectOf_perm members).mem_iff.mpr hmem)

/-- The last member of a name answers a lookup. -/
theorem objectGet_objectOf (members : List (Bytes × JsonValue δ)) (name : Bytes) :
    objectGet (objectOf members) name =
      (members.reverse.find? fun member => strcmp name member.1 = 0).map Prod.snd :=
  Assoc.get_ofPairs strcmp_order name members

/-! ## The values inside a value -/

/-- Induction over a value, with the hypothesis for each of the values it holds. -/
@[elab_as_elim]
theorem JsonValue.induct {motive : JsonValue δ → Prop}
    (object : ∀ entries, (∀ entry ∈ entries, motive entry.2) → motive (.object entries))
    (array : ∀ elements, (∀ element ∈ elements, motive element) → motive (.array elements))
    (string : ∀ value, motive (.string value)) (long : ∀ number, motive (.long number))
    (longlong : ∀ number, motive (.longlong number)) (double : ∀ number, motive (.double number))
    (boolean : ∀ value, motive (.boolean value)) (null : motive .null) :
    ∀ value, motive value
  | .object entries => object entries fun entry _hentry =>
      JsonValue.induct object array string long longlong double boolean null entry.2
  | .array elements => array elements fun element _helement =>
      JsonValue.induct object array string long longlong double boolean null element
  | .string value => string value
  | .long number => long number
  | .longlong number => longlong number
  | .double number => double number
  | .boolean value => boolean value
  | .null => null
termination_by value => sizeOf value
decreasing_by
  · obtain ⟨key, value⟩ := entry
    have hsmaller := List.sizeOf_lt_of_mem _hentry
    simp only [Prod.mk.sizeOf_spec, JsonValue.object.sizeOf_spec] at hsmaller ⊢
    omega
  · have hsmaller := List.sizeOf_lt_of_mem _helement
    simp only [JsonValue.array.sizeOf_spec]
    omega

mutual

/-- A value and all the values inside it. -/
def JsonValue.subvalues : JsonValue δ → List (JsonValue δ)
  | .object entries => .object entries :: entrySubvalues entries
  | .array elements => .array elements :: elementSubvalues elements
  | .string value => [.string value]
  | .long number => [.long number]
  | .longlong number => [.longlong number]
  | .double number => [.double number]
  | .boolean value => [.boolean value]
  | .null => [.null]

def entrySubvalues : List (Bytes × JsonValue δ) → List (JsonValue δ)
  | [] => []
  | (_, value) :: rest => value.subvalues ++ entrySubvalues rest

def elementSubvalues : List (JsonValue δ) → List (JsonValue δ)
  | [] => []
  | element :: rest => element.subvalues ++ elementSubvalues rest

end

theorem mem_entrySubvalues {value : JsonValue δ} {entries : Entries δ} :
    value ∈ entrySubvalues entries ↔ ∃ entry ∈ entries, value ∈ entry.2.subvalues := by
  induction entries with
  | nil => simp [entrySubvalues]
  | cons entry rest ih => simp [entrySubvalues, ih]

theorem mem_elementSubvalues {value : JsonValue δ} {elements : List (JsonValue δ)} :
    value ∈ elementSubvalues elements ↔ ∃ element ∈ elements, value ∈ element.subvalues := by
  induction elements with
  | nil => simp [elementSubvalues]
  | cons element rest ih => simp [elementSubvalues, ih]

/-- The parts of an object are itself and the parts of its entries. -/
theorem mem_subvalues_object {value : JsonValue δ} {entries : Entries δ} :
    value ∈ (JsonValue.object entries).subvalues ↔
      value = .object entries ∨ ∃ entry ∈ entries, value ∈ entry.2.subvalues := by
  rw [JsonValue.subvalues, List.mem_cons, mem_entrySubvalues]

theorem mem_subvalues_array {value : JsonValue δ} {elements : List (JsonValue δ)} :
    value ∈ (JsonValue.array elements).subvalues ↔
      value = .array elements ∨ ∃ element ∈ elements, value ∈ element.subvalues := by
  rw [JsonValue.subvalues, List.mem_cons, mem_elementSubvalues]

end DbSlayer.Json
