import Mathlib.Algebra.GroupWithZero.Nat
import Mathlib.Data.List.Basic
import Mathlib.Data.List.Nodup
import Mathlib.Data.List.Perm.Basic
import Mathlib.Data.Multiset.Count

/-! # Places that hold things

A row of places, each holding a list of things. Replacing one place changes what
the row holds by what the place held and holds. A table of slots is the case of
places that hold at most one thing.
-/

namespace Foundation

variable {α β : Type}

/-- What the other places hold stays when one place is replaced. -/
theorem exists_rest_flatMap_set (f : α → List β) {places : List α} {i : Nat} {place : α}
    (hplace : places[i]? = some place) :
    ∃ rest, (places.flatMap f).Perm (f place ++ rest) ∧
      ∀ other, ((places.set i other).flatMap f).Perm (f other ++ rest) := by
  induction places generalizing i with
  | nil => simp at hplace
  | cons first tail ih =>
      cases i with
      | zero =>
          obtain rfl : first = place := by simpa using hplace
          exact ⟨tail.flatMap f, by simp, by simp⟩
      | succ i =>
          obtain ⟨rest, hold, hnew⟩ := ih (i := i) (by simpa using hplace)
          -- the rest of the tail goes behind what the first place holds
          have hswap : ∀ held, (f first ++ (held ++ rest)).Perm (held ++ (f first ++ rest)) := by
            intro held
            rw [← List.append_assoc, ← List.append_assoc]
            exact List.perm_append_comm.append_right rest
          refine ⟨f first ++ rest, ?_, fun other => ?_⟩
          · exact (hold.append_left (f first)).trans (hswap _)
          · exact ((hnew other).append_left (f first)).trans (hswap _)

/-- Where nothing is held twice, two places have nothing in common. -/
theorem disjoint_of_nodup_flatMap {f : α → List β} {places : List α}
    (hnodup : (places.flatMap f).Nodup) {i j : Nat} (hne : i ≠ j) {first second : α}
    (hfirst : places[i]? = some first) (hsecond : places[j]? = some second) :
    List.Disjoint (f first) (f second) := by
  obtain ⟨hi, rfl⟩ := List.getElem?_eq_some_iff.mp hfirst
  obtain ⟨hj, rfl⟩ := List.getElem?_eq_some_iff.mp hsecond
  have hpairwise := List.pairwise_iff_getElem.mp (List.nodup_flatMap.mp hnodup).2
  rcases Nat.lt_or_gt_of_ne hne with hlt | hgt
  · exact hpairwise i j hi hj hlt
  · exact fun _ hmem hmem' => hpairwise j i hj hi hgt hmem' hmem

theorem filterMap_zip_self {f : α × α → Option β} (hsame : ∀ place, f (place, place) = none)
    (places : List α) : (places.zip places).filterMap f = [] := by
  induction places with
  | nil => rfl
  | cons first tail ih => simp [hsame, ih]

/-- Where one place is replaced, only its change is seen. -/
theorem filterMap_zip_set {f : α × α → Option β} (hsame : ∀ place, f (place, place) = none)
    {places : List α} {i : Nat} {place : α} (hplace : places[i]? = some place) (other : α) :
    (places.zip (places.set i other)).filterMap f = (f (place, other)).toList := by
  induction places generalizing i with
  | nil => simp at hplace
  | cons first tail ih =>
      cases i with
      | zero =>
          obtain rfl : first = place := by simpa using hplace
          cases hf : f (first, other) with
          | none => simp [hf, filterMap_zip_self hsame]
          | some item => simp [hf, filterMap_zip_self hsame]
      | succ i =>
          have htail := ih (i := i) (by simpa using hplace)
          simpa [hsame] using htail

section Whereabouts

variable [DecidableEq β]

/-- How often a thing is held in a row of named places. -/
def tally (places : List (α × Multiset β)) (item : β) : Nat :=
  (places.map fun place => place.2.count item).sum

/-- The first place that holds a thing. -/
def whereabouts (places : List (α × Multiset β)) (item : β) : Option α :=
  (places.find? fun place => item ∈ place.2).map Prod.fst

theorem tally_pos {places : List (α × Multiset β)} {item : β} {place : α × Multiset β}
    (hplace : place ∈ places) (hitem : item ∈ place.2) : 0 < tally places item :=
  List.sum_pos_iff_exists_pos_nat.mpr
    ⟨place.2.count item, List.mem_map.mpr ⟨place, hplace, rfl⟩, Multiset.count_pos.mpr hitem⟩

/-- What is held in one place only is found there. -/
theorem whereabouts_of_mem {places : List (α × Multiset β)} {item : β}
    (hone : tally places item ≤ 1) {place : α × Multiset β} (hplace : place ∈ places)
    (hitem : item ∈ place.2) : whereabouts places item = some place.1 := by
  induction places with
  | nil => simp at hplace
  | cons first rest ih =>
      have hpos := Multiset.count_pos.mpr hitem
      rw [tally, List.map_cons, List.sum_cons] at hone
      rcases List.mem_cons.mp hplace with rfl | hrest
      · simp [whereabouts, hitem]
      · have hsum := tally_pos hrest hitem
        rw [tally] at hsum
        have hfirst : item ∉ first.2 := Multiset.count_eq_zero.mp (by omega)
        rw [whereabouts, List.find?_cons_of_neg (by simpa using hfirst)]
        exact ih (by rw [tally]; omega) hrest

theorem whereabouts_of_tally_eq_zero {places : List (α × Multiset β)} {item : β}
    (hzero : tally places item = 0) : whereabouts places item = none := by
  rw [whereabouts, Option.map_eq_none_iff, List.find?_eq_none]
  intro place hplace hitem
  have hpos := tally_pos hplace (of_decide_eq_true hitem)
  omega

/-- Where a thing is depends only on which places hold it. -/
theorem whereabouts_congr {places places' : List (α × Multiset β)} {item : β}
    (hsame : places'.map (fun place => (place.1, decide (item ∈ place.2))) =
      places.map (fun place => (place.1, decide (item ∈ place.2)))) :
    whereabouts places' item = whereabouts places item := by
  have hfind : ∀ places : List (α × Multiset β), whereabouts places item =
      ((places.map fun place => (place.1, decide (item ∈ place.2))).find? Prod.snd).map
        Prod.fst := by
    intro places
    rw [whereabouts, List.find?_map, Option.map_map]
    rfl
  rw [hfind, hfind, hsame]

end Whereabouts

namespace Slots

/-- What a table of slots holds. -/
def held (slots : List (Option α)) : List α := slots.flatMap Option.toList

/-- The first free slot takes `item`; `none` when there is no free slot. -/
def store (slots : List (Option α)) (item : α) : Option (List (Option α)) :=
  (slots.findIdx? Option.isNone).map fun j => slots.set j (some item)

def clear (slots : List (Option α)) (i : Nat) : List (Option α) := slots.set i none

@[simp] theorem held_replicate (n : Nat) : held (List.replicate n (none : Option α)) = [] := by
  simp [held]

/-- The number of held items is the number of slots that are taken. -/
theorem length_held (slots : List (Option α)) :
    (held slots).length = slots.countP Option.isSome := by
  induction slots with
  | nil => rfl
  | cons slot rest ih =>
      rw [held] at ih
      cases slot with
      | none => simp [held, ih]
      | some item => simp [held, ih, Nat.add_comm]

/-- An item is held as often as there are slots that hold it. -/
theorem count_held [DecidableEq α] (slots : List (Option α)) (item : α) :
    (held slots).count item = slots.count (some item) := by
  induction slots with
  | nil => rfl
  | cons slot rest ih =>
      rw [held] at ih
      cases slot with
      | none => simp [held, ih]
      | some other => simp [held, ih, List.count_cons, Nat.add_comm]

/-- An item is held exactly when some slot holds it. -/
theorem mem_held_iff {slots : List (Option α)} {item : α} :
    item ∈ held slots ↔ some item ∈ slots := by
  simp [held]

/-- The things in a row of tables are those in the slots of the row. -/
theorem flatMap_held (f : β → List (Option α)) (tables : List β) :
    tables.flatMap (fun table => held (f table)) = held (tables.flatMap f) :=
  List.flatMap_assoc.symm

/-- Storing an item adds it once and loses no other one. -/
theorem store_perm {slots after : List (Option α)} {item : α}
    (hstore : store slots item = some after) : (held after).Perm (item :: held slots) := by
  obtain ⟨j, hfree, rfl⟩ := Option.map_eq_some_iff.mp hstore
  obtain ⟨hj, hnone, -⟩ := List.findIdx?_eq_some_iff_getElem.mp hfree
  have hslot : slots[j]? = some none := by
    rw [List.getElem?_eq_getElem hj, Option.isNone_iff_eq_none.mp hnone]
  obtain ⟨rest, hold, hnew⟩ := exists_rest_flatMap_set Option.toList hslot
  exact (hnew (some item)).trans (hold.symm.cons item)

theorem length_store {slots after : List (Option α)} {item : α}
    (hstore : store slots item = some after) : after.length = slots.length := by
  obtain ⟨j, -, rfl⟩ := Option.map_eq_some_iff.mp hstore
  exact List.length_set

/-- A table that is not full has a free slot. -/
theorem exists_store {slots : List (Option α)} (hroom : (held slots).length < slots.length)
    (item : α) : ∃ after, store slots item = some after := by
  cases hfree : slots.findIdx? Option.isNone with
  | some j => exact ⟨slots.set j (some item), by rw [store, hfree]; rfl⟩
  | none =>
      have hfull : (held slots).length = slots.length := by
        rw [List.findIdx?_eq_none_iff] at hfree
        clear hroom
        induction slots with
        | nil => rfl
        | cons slot rest ih =>
            have hrest := ih fun other hother => hfree other (List.mem_cons_of_mem slot hother)
            cases slot with
            | none => simpa using hfree none List.mem_cons_self
            | some held => simpa [Slots.held] using hrest
      omega

/-- Clearing a slot takes out its item and no other one. -/
theorem clear_perm {slots : List (Option α)} {i : Nat} {item : α}
    (hslot : slots[i]? = some (some item)) : (held slots).Perm (item :: held (clear slots i)) := by
  obtain ⟨rest, hold, hnew⟩ := exists_rest_flatMap_set Option.toList hslot
  exact hold.trans ((hnew none).symm.cons item)

theorem mem_held {slots : List (Option α)} {i : Nat} {item : α}
    (hslot : slots[i]? = some (some item)) : item ∈ held slots :=
  (clear_perm hslot).mem_iff.mpr List.mem_cons_self

end Slots

end Foundation
