import Mathlib.Algebra.BigOperators.Finprod
import Mathlib.Algebra.Order.BigOperators.Group.Finset
import Mathlib.Data.List.Basic

/-! # Tables of counts

A table with one counter for each key that is present: the counter of a key
appears with its first occurrence and goes with its last one.
-/

namespace Foundation

variable {κ : Type}

/-- The counters, by key. -/
def Tally (κ : Type) : Type := κ → Option Int

namespace Tally

def get (table : Tally κ) (key : κ) : Option Int := table key

def set [DecidableEq κ] (table : Tally κ) (key : κ) (count : Option Int) : Tally κ :=
  fun other => if other = key then count else table other

def empty : Tally κ := fun _ => none

/-- What the counters add up to. -/
noncomputable def total (table : Tally κ) : Int := ∑ᶠ key, (table.get key).getD 0

/-- The table counts the keys of `items`, and has no counter for another key. -/
def Counts [DecidableEq κ] (table : Tally κ) (items : List κ) : Prop :=
  ∀ key, table.get key = if key ∈ items then some (items.count key : Int) else none

@[simp] theorem get_empty (key : κ) : (empty : Tally κ).get key = none := rfl

/-- Setting a count changes this key and no other. -/
theorem get_set [DecidableEq κ] (table : Tally κ) (key other : κ) (count : Option Int) :
    (table.set key count).get other = if other = key then count else table.get other := rfl

/-- Tallies with the same counts are the same. -/
@[ext] theorem ext {first second : Tally κ} (hget : ∀ key, first.get key = second.get key) :
    first = second := funext hget

variable [DecidableEq κ] {table : Tally κ} {items : List κ}

/-- The items of one key are as many as the key has occurrences. -/
theorem length_filter_eq_count {α : Type} (f : α → κ) (list : List α) (key : κ) :
    (list.filter fun item => f item = key).length = (list.map f).count key := by
  rw [List.count, List.countP_map, List.countP_eq_length_filter]
  rfl

theorem counts_empty : (empty : Tally κ).Counts [] := by
  intro key
  simp

/-- The count of a key is how often it occurs, and a key without an entry occurs nowhere. -/
theorem Counts.getD (hcounts : table.Counts items) (key : κ) :
    (table.get key).getD 0 = items.count key := by
  rw [hcounts key]
  split
  next => rfl
  next hkey => simp [List.count_eq_zero.mpr hkey]

/-- One more occurrence of a key. -/
theorem Counts.bump (hcounts : table.Counts items) (key : κ) :
    (table.set key (some ((table.get key).getD 0 + 1))).Counts (key :: items) := by
  intro other
  rw [get_set, hcounts.getD]
  by_cases heq : other = key
  · subst heq
    simp
  · rw [if_neg heq, hcounts other, List.count_cons_of_ne (Ne.symm heq)]
    simp [heq]

/-- One occurrence less of a key that occurs. -/
theorem Counts.drop {key : κ} {count : Int} (hcounts : table.Counts (key :: items))
    (hget : table.get key = some count) :
    (table.set key (if count - 1 = 0 then none else some (count - 1))).Counts items := by
  have hcount : count = items.count key + 1 := by
    have hgetD := hcounts.getD key
    rw [hget, List.count_cons_self, Nat.cast_add_one] at hgetD
    exact hgetD
  intro other
  rw [get_set]
  by_cases heq : other = key
  · subst heq
    -- the last occurrence takes the counter with it
    by_cases hmem : other ∈ items
    · have hpos := List.count_pos_iff.mpr hmem
      have hne : count - 1 ≠ 0 := by omega
      have hless : count - 1 = items.count other := by omega
      rw [if_pos rfl, if_neg hne, if_pos hmem, hless]
    · have hzero := List.count_eq_zero.mpr hmem
      have hlast : count - 1 = 0 := by omega
      rw [if_pos rfl, if_pos hlast, if_neg hmem]
  · rw [if_neg heq, hcounts other, List.count_cons_of_ne (Ne.symm heq)]
    simp [heq]

/-- A tally does not depend on the order of what it counts. -/
theorem Counts.perm {other : List κ} (hcounts : table.Counts items) (hperm : items.Perm other) :
    table.Counts other := by
  intro key
  rw [hcounts key, hperm.count_eq]
  simp [hperm.mem_iff]

/-- The counts of all keys together give the number of items. -/
theorem Counts.total_eq_length (hcounts : table.Counts items) : table.total = items.length := by
  have hsupport : (Function.support fun key => (table.get key).getD 0) ⊆ ↑items.toFinset := by
    intro key hkey
    rw [Function.mem_support, hcounts.getD] at hkey
    have hpos : 0 < items.count key := by omega
    simpa using List.count_pos_iff.mp hpos
  calc table.total
      = ∑ key ∈ items.toFinset, (table.get key).getD 0 :=
        finsum_eq_sum_of_support_subset _ hsupport
    _ = ∑ key ∈ items.toFinset, (items.count key : Int) :=
        Finset.sum_congr rfl fun key _ => hcounts.getD key
    _ = items.length := by
        rw [← Nat.cast_sum, List.sum_toFinset_count_eq_length]

end Tally

end Foundation
