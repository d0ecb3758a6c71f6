import Mathlib.Data.List.Basic
import Mathlib.Data.List.Pairwise
import Mathlib.Data.List.Range

/-! # Rings of slots

A fixed number of slots of which one is in use. Moving on takes the slot behind
it, around the end, and overwrites what stood there: the oldest entry.
-/

namespace Foundation.Ring

variable {α : Type*}

/-- The slot behind another one. -/
def following (size offset : Nat) : Nat := if offset + 1 = size then 0 else offset + 1

/-- The other slots, from the one behind a slot around to the one in front of it. -/
def order (size offset : Nat) : List Nat :=
  List.range' (offset + 1) (size - (offset + 1)) ++ List.range offset

/-- What the slots hold, oldest first; the slot in use is last. -/
def unrolled (slots : List α) (offset : Nat) : List α :=
  slots.drop (offset + 1) ++ slots.take (offset + 1)

/-- Reading a ring from another offset changes the order of its slots, not what is in them. -/
theorem mem_unrolled {slots : List α} {offset : Nat} {x : α} :
    x ∈ unrolled slots offset ↔ x ∈ slots := by
  rw [unrolled, List.mem_append, or_comm, ← List.mem_append, List.take_append_drop]

theorem following_lt {size offset : Nat} (hoffset : offset < size) :
    following size offset < size := by
  unfold following
  split <;> omega

/-- The slot in use is not one of the others. -/
theorem not_mem_order (size offset : Nat) : offset ∉ order size offset := by
  simp only [order, List.mem_append, List.mem_range'_1, List.mem_range]
  omega

/-- Reading a block of slots by their numbers. -/
theorem map_range'_getD {slots : List α} {start count : Nat}
    (hfits : start + count ≤ slots.length) (blank : α) :
    (List.range' start count).map (fun i => slots.getD i blank) =
      (slots.drop start).take count := by
  apply List.ext_getElem
  · simp
    omega
  · intro i hi _
    have hlt : start + i < slots.length := by
      simp at hi
      omega
    simp [hlt]

/-- Reading the slots in the order of two loops, up to the end and from the start. -/
theorem map_loops {slots : List α} {start stop : Nat} (hstart : start ≤ slots.length)
    (hstop : stop ≤ slots.length) (blank : α) :
    (List.range' start (slots.length - start) ++ List.range stop).map
        (fun i => slots.getD i blank) = slots.drop start ++ slots.take stop := by
  rw [List.map_append, List.range_eq_range', map_range'_getD (by omega),
    map_range'_getD (by omega)]
  simp [List.take_of_length_le]

/-- Reading the other slots in their order gives all but the one in use. -/
theorem map_order {slots : List α} {offset : Nat} (hoffset : offset < slots.length) (blank : α) :
    (order slots.length offset).map (fun i => slots.getD i blank) =
      (unrolled slots offset).dropLast := by
  rw [order, map_loops hoffset hoffset.le, unrolled, List.take_succ_eq_append_getElem hoffset,
    ← List.append_assoc, List.dropLast_concat]

/-- Reading every slot, from the one behind the slot in use around to itself. -/
theorem map_unrolled {slots : List α} {offset : Nat} (hoffset : offset < slots.length) (blank : α) :
    (List.range' (offset + 1) (slots.length - (offset + 1)) ++ List.range (offset + 1)).map
        (fun i => slots.getD i blank) = unrolled slots offset :=
  map_loops hoffset hoffset blank

/-- Writing the slot in use replaces the last entry. -/
theorem unrolled_set {slots : List α} {offset : Nat} (hoffset : offset < slots.length) (x : α) :
    unrolled (slots.set offset x) offset = (unrolled slots offset).dropLast ++ [x] := by
  have hset : offset < (slots.set offset x).length := by
    rw [List.length_set]
    exact hoffset
  rw [unrolled, unrolled, List.drop_set_of_lt (Nat.lt_succ_self offset),
    List.take_succ_eq_append_getElem hset, List.take_set_of_le le_rfl, List.getElem_set_self,
    List.take_succ_eq_append_getElem hoffset, ← List.append_assoc, ← List.append_assoc,
    List.dropLast_concat]

/-- The slot in use holds the last entry. -/
theorem unrolled_eq_concat {slots : List α} {offset : Nat} (hoffset : offset < slots.length)
    (blank : α) :
    unrolled slots offset = (unrolled slots offset).dropLast ++ [slots.getD offset blank] := by
  have hkept : slots.set offset (slots.getD offset blank) = slots := by
    simp [hoffset]
  have hset := unrolled_set hoffset (slots.getD offset blank)
  rwa [hkept] at hset

/-- The slot behind the one in use holds the oldest entry. -/
theorem getD_following {slots : List α} {offset : Nat} (hoffset : offset < slots.length)
    (blank : α) :
    slots.getD (following slots.length offset) blank = (unrolled slots offset).headD blank := by
  by_cases hend : offset + 1 = slots.length
  · obtain ⟨first, rest, rfl⟩ := List.exists_cons_of_length_pos (by omega : 0 < slots.length)
    simp [following, unrolled, hend]
  · have hnext : offset + 1 < slots.length := by omega
    rw [following, if_neg hend, unrolled, List.drop_eq_getElem_cons hnext]
    simp [hnext]

/-- Moving on drops the oldest entry and puts the new one behind the others. -/
theorem unrolled_following {slots : List α} {offset : Nat} (hoffset : offset < slots.length)
    (x : α) :
    unrolled (slots.set (following slots.length offset) x) (following slots.length offset) =
      (unrolled slots offset).tail ++ [x] := by
  by_cases hend : offset + 1 = slots.length
  · -- Around the end: the slots are in their order already.
    obtain ⟨first, rest, rfl⟩ := List.exists_cons_of_length_pos (by omega : 0 < slots.length)
    simp only [following, unrolled, hend]
    simp
  · have hnext : offset + 1 < slots.length := by omega
    have hrest : slots.drop (offset + 1) ≠ [] := by
      rw [ne_eq, List.drop_eq_nil_iff]
      omega
    have htake : (slots.set (offset + 1) x).take (offset + 1 + 1) =
        slots.take (offset + 1) ++ [x] := by
      rw [List.take_succ_eq_append_getElem (by simpa using hnext), List.take_set_of_le le_rfl,
        List.getElem_set_self]
    simp only [following, if_neg hend, unrolled]
    rw [List.drop_set_of_lt (by omega), htake, List.tail_append_of_ne_nil hrest, List.tail_drop,
      List.append_assoc]

/-! ## The last entries of a history -/

/-- What a ring holds when entries were put into it one after the other: the last of
them, behind the blanks that they have not replaced. -/
def recent (size : Nat) (blank : α) (history : List α) : List α :=
  (List.replicate size blank ++ history).drop history.length

theorem recent_concat {size : Nat} (hsize : 0 < size) (blank : α) (history : List α) (x : α) :
    recent size blank (history ++ [x]) = (recent size blank history).tail ++ [x] := by
  have hfits : history.length + 1 ≤ (List.replicate size blank ++ history).length := by
    rw [List.length_append, List.length_replicate]
    omega
  rw [recent, recent, List.tail_drop, List.length_append, List.length_singleton,
    ← List.append_assoc, List.drop_append_of_le_length hfits]

/-- The recent entries are the end of the history, filled up in front with blanks. -/
theorem recent_eq (size : Nat) (blank : α) (history : List α) :
    recent size blank history =
      List.replicate (size - history.length) blank ++ history.drop (history.length - size) := by
  rw [recent, List.drop_append, List.drop_replicate, List.length_replicate]

/-- Reading each entry and taking the recent ones can be exchanged. -/
theorem map_recent {β : Type*} (f : α → β) (size : Nat) (blank : α) (history : List α) :
    (recent size blank history).map f = recent size (f blank) (history.map f) := by
  simp [recent]

/-- The ring without its oldest entry is a smaller ring. -/
theorem tail_recent_succ (size : Nat) (blank : α) (history : List α) :
    (recent (size + 1) blank history).tail = recent size blank history := by
  rw [recent, recent, List.tail_drop, List.replicate_succ, List.cons_append,
    List.drop_succ_cons]

@[simp] theorem recent_nil (size : Nat) (blank : α) :
    recent size blank [] = List.replicate size blank := by
  simp [recent]

/-- The oldest entry is a blank until the ring is full. -/
theorem headD_recent {size : Nat} (hsize : 0 < size) (blank : α) (history : List α) :
    (recent size blank history).headD blank =
      if history.length < size then blank else history.getD (history.length - size) blank := by
  rw [recent_eq]
  split
  next hroom =>
    obtain ⟨count, hcount⟩ : ∃ count, size - history.length = count + 1 :=
      ⟨size - history.length - 1, by omega⟩
    rw [hcount, List.replicate_succ]
    rfl
  next hfull =>
    have hlt : history.length - size < history.length := by omega
    rw [Nat.sub_eq_zero_of_le (by omega), List.drop_eq_getElem_cons hlt]
    simp [hlt]

section Holding

variable {size offset : Nat} {slots history : List α} {blank x : α}

/-- A ring that holds the last entries holds the new one as well when it moves on. -/
theorem unrolled_following_recent (hlength : slots.length = size) (hoffset : offset < size)
    (hring : unrolled slots offset = recent size blank history) (x : α) :
    unrolled (slots.set (following size offset) x) (following size offset) =
      recent size blank (history ++ [x]) := by
  subst hlength
  rw [unrolled_following hoffset, hring, recent_concat (Nat.zero_lt_of_lt hoffset)]

/-- Writing the slot in use replaces the last entry of the history. -/
theorem unrolled_set_recent (hlength : slots.length = size) (hoffset : offset < size)
    (hring : unrolled slots offset = recent size blank (history ++ [x])) (y : α) :
    unrolled (slots.set offset y) offset = recent size blank (history ++ [y]) := by
  have hpos : 0 < size := Nat.zero_lt_of_lt hoffset
  subst hlength
  rw [unrolled_set hoffset, hring, recent_concat hpos, recent_concat hpos, List.dropLast_concat]

/-- The slot in use holds the last entry of the history. -/
theorem getD_offset_recent (hlength : slots.length = size) (hoffset : offset < size)
    (hring : unrolled slots offset = recent size blank (history ++ [x])) :
    slots.getD offset blank = x := by
  subst hlength
  rw [unrolled_eq_concat hoffset blank, recent_concat (Nat.zero_lt_of_lt hoffset)] at hring
  simpa using (List.append_inj' hring rfl).2

/-- Reading the other slots gives the entries in front of the last one. -/
theorem map_order_recent (hlength : slots.length = size + 1) (hoffset : offset < size + 1)
    (hring : unrolled slots offset = recent (size + 1) blank (history ++ [x])) :
    (order (size + 1) offset).map (fun i => slots.getD i blank) = recent size blank history := by
  rw [← hlength] at hoffset
  rw [← hlength, map_order hoffset, hring, recent_concat (Nat.succ_pos size),
    List.dropLast_concat, tail_recent_succ]

end Holding

/-- The entries behind the blanks. -/
theorem filter_recent {size : Nat} {blank : α} {history : List α} {p : α → Bool}
    (hblank : p blank = false) (hentries : ∀ x ∈ history, p x = true) :
    (recent size blank history).filter p = history.drop (history.length - size) := by
  rw [recent_eq, List.filter_append, List.filter_replicate_of_neg (by simp [hblank]),
    List.nil_append, List.filter_eq_self]
  exact fun x hx => hentries x (List.mem_of_mem_drop hx)

/-! ## Once around -/

/-- Every slot once, from a slot around to the one in front of it. -/
def around (size offset : Nat) : List Nat := (List.range size).map fun i => (offset + i) % size

@[simp] theorem length_around (size offset : Nat) : (around size offset).length = size := by
  simp [around]

theorem getElem_around {size offset i : Nat} (hi : i < (around size offset).length) :
    (around size offset)[i] = (offset + i) % size := by
  simp [around]

theorem lt_of_mem_around {size offset slot : Nat} (hslot : slot ∈ around size offset) :
    slot < size := by
  obtain ⟨i, hi, rfl⟩ := List.mem_map.mp hslot
  exact Nat.mod_lt _ (Nat.zero_lt_of_lt (List.mem_range.mp hi))

/-- Two loops walk the ring: up to the end, and from the start. -/
theorem around_eq {size offset : Nat} (hoffset : offset < size) :
    around size offset = List.range' offset (size - offset) ++ List.range offset := by
  apply List.ext_getElem
  · simp
    omega
  · intro i hi _
    rw [getElem_around, List.getElem_append]
    rw [length_around] at hi
    split
    next hupper =>
      rw [List.length_range'] at hupper
      rw [List.getElem_range', Nat.one_mul, Nat.mod_eq_of_lt (by omega)]
    next hupper =>
      rw [List.length_range'] at hupper
      rw [List.getElem_range, List.length_range', Nat.mod_eq_sub_mod (by omega),
        Nat.mod_eq_of_lt (by omega)]
      omega

theorem nodup_around {size offset : Nat} (hoffset : offset < size) :
    (around size offset).Nodup := by
  rw [around_eq hoffset]
  refine List.nodup_append.mpr ⟨List.nodup_range', List.nodup_range, ?_⟩
  intro upper hupper lower hlower
  rw [List.mem_range'_1] at hupper
  rw [List.mem_range] at hlower
  omega

end Foundation.Ring
