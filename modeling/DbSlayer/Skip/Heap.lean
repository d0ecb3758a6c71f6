import DbSlayer.Skip.Model
import Mathlib.Data.List.Induction

/-! # Heap laws of the skip list

What one link write changes, what the splicing loop changes, and where the
descent stops. Nothing here knows how the levels relate to each other: that is
the view of `Skip.Refinement`.
-/

namespace DbSlayer.Skip

open Foundation

variable {κ ν : Type}

/-- Everything about a node except where its links point. -/
def shape (cell : JsonSkipNode κ ν) : Nat × Option κ × Option ν × Nat :=
  (cell.height, cell.key, cell.data, cell.nextList.length)

/-- Heaps of the same shape store the same nodes up to their links. -/
theorem getElem?_of_shape_eq {heap heap' : List (JsonSkipNode κ ν)}
    (hshape : heap'.map shape = heap.map shape) {node : Nat} {cell : JsonSkipNode κ ν}
    (hcell : heap[node]? = some cell) :
    ∃ links, heap'[node]? = some { cell with nextList := links } ∧
      links.length = cell.nextList.length := by
  have hread : (heap'.map shape)[node]? = (heap.map shape)[node]? := by rw [hshape]
  rw [List.getElem?_map, List.getElem?_map, hcell, Option.map_some, Option.map_eq_some_iff] at hread
  obtain ⟨⟨height, key, data, links⟩, hcell', heq⟩ := hread
  simp only [shape, Prod.mk.injEq] at heq
  obtain ⟨rfl, rfl, rfl, hlength⟩ := heq
  exact ⟨links, hcell', hlength⟩

/-- A link can be followed where the node has that level. -/
theorem nextAt_isSome_iff {heap : List (JsonSkipNode κ ν)} {level node : Nat} :
    (nextAt heap level node).isSome ↔
      ∃ cell, heap[node]? = some cell ∧ level < cell.nextList.length := by
  unfold nextAt
  cases hcell : heap[node]? with
  | none => simp
  | some cell => simp

/-- A new node changes no link of the older ones. -/
theorem nextAt_append {heap : List (JsonSkipNode κ ν)} {cell : JsonSkipNode κ ν}
    {level node : Nat} (hnode : node < heap.length) :
    nextAt (heap ++ [cell]) level node = nextAt heap level node := by
  simp [nextAt, List.getElem?_append_left hnode]

theorem nextAt_append_self {heap : List (JsonSkipNode κ ν)} {cell : JsonSkipNode κ ν}
    {level : Nat} : nextAt (heap ++ [cell]) level heap.length = cell.nextList[level]? := by
  simp [nextAt]

/-- A link write succeeds where a read does, changes that link and no other,
and keeps every node's shape. -/
theorem setNext_spec {heap : List (JsonSkipNode κ ν)} {level node : Nat}
    (hread : (nextAt heap level node).isSome) (link : Option Nat) :
    ∃ heap', setNext heap level node link = some heap' ∧
      heap'.map shape = heap.map shape ∧
      nextAt heap' level node = some link ∧
      ∀ level' node', (level' ≠ level ∨ node' ≠ node) →
        nextAt heap' level' node' = nextAt heap level' node' := by
  obtain ⟨cell, hcell, hlevel⟩ := nextAt_isSome_iff.mp hread
  have hnode : node < heap.length := (List.getElem?_eq_some_iff.mp hcell).1
  refine ⟨heap.set node { cell with nextList := cell.nextList.set level link },
    by simp [setNext, hcell, hlevel], ?_, ?_, ?_⟩
  · apply List.ext_getElem?
    intro index
    rw [List.getElem?_map, List.getElem?_map]
    by_cases heq : node = index
    · subst heq
      rw [List.getElem?_set_self hnode, hcell]
      simp [shape]
    · rw [List.getElem?_set_ne heq]
  · simp [nextAt, List.getElem?_set_self hnode, hlevel]
  · intro level' node' hother
    by_cases heq : node = node'
    · subst heq
      have hne : level ≠ level' := fun h => hother.elim (fun h' => h' h.symm) (fun h' => h' rfl)
      simp [nextAt, List.getElem?_set_self hnode, hcell, List.getElem?_set_ne hne]
    · simp [nextAt, List.getElem?_set_ne heq]

/-- The splicing loop puts the new node behind each level's cursor, below its
own height, and changes nothing else. -/
theorem linkLevels_spec {new : Nat} {fix : List Nat} (height : Nat)
    (heap : List (JsonSkipNode κ ν))
    (hnew : ∀ level < height, (nextAt heap level new).isSome)
    (hfix : ∀ level < height, ∃ mark, fix[level]? = some mark ∧ mark ≠ new ∧
      (nextAt heap level mark).isSome) :
    ∃ heap', linkLevels new fix height heap = some heap' ∧
      heap'.map shape = heap.map shape ∧
      (∀ level node, height ≤ level → nextAt heap' level node = nextAt heap level node) ∧
      ∀ level mark, level < height → fix[level]? = some mark →
        nextAt heap' level new = nextAt heap level mark ∧
        nextAt heap' level mark = some (some new) ∧
        ∀ node, node ≠ new → node ≠ mark → nextAt heap' level node = nextAt heap level node := by
  induction height generalizing heap with
  | zero => exact ⟨heap, rfl, rfl, fun _ _ _ => rfl, fun _ _ hlt => absurd hlt (Nat.not_lt_zero _)⟩
  | succ height ih =>
      -- the two writes of the topmost level, then the levels below on the heap they leave
      obtain ⟨mark, hmark, hne, hread⟩ := hfix height (Nat.lt_succ_self height)
      obtain ⟨link, hlink⟩ := Option.isSome_iff_exists.mp hread
      obtain ⟨heap₁, hset₁, hshape₁, hself₁, hframe₁⟩ :=
        setNext_spec (hnew height (Nat.lt_succ_self height)) link
      have hread₁ : (nextAt heap₁ height mark).isSome := by
        rw [hframe₁ height mark (.inr hne)]
        exact hread
      obtain ⟨heap₂, hset₂, hshape₂, hself₂, hframe₂⟩ := setNext_spec hread₁ (some new)
      have hlower : ∀ level node, level ≠ height →
          nextAt heap₂ level node = nextAt heap level node := by
        intro level node hlevel
        rw [hframe₂ level node (.inl hlevel), hframe₁ level node (.inl hlevel)]
      obtain ⟨heap', hrun, hshape, habove, hbelow⟩ := ih heap₂
        (fun level hlevel => by
          rw [hlower level new (Nat.ne_of_lt hlevel)]
          exact hnew level (Nat.lt_succ_of_lt hlevel))
        (fun level hlevel => by
          obtain ⟨mark', hmark', hne', hread'⟩ := hfix level (Nat.lt_succ_of_lt hlevel)
          refine ⟨mark', hmark', hne', ?_⟩
          rw [hlower level mark' (Nat.ne_of_lt hlevel)]
          exact hread')
      refine ⟨heap', ?_, hshape.trans (hshape₂.trans hshape₁), ?_, ?_⟩
      · simp [linkLevels, hmark, hlink, hset₁, hset₂, hrun]
      · intro level node hlevel
        rw [habove level node (Nat.le_of_succ_le hlevel), hlower level node (by omega)]
      · intro level mark' hlevel hmark'
        rcases Nat.lt_succ_iff_lt_or_eq.mp hlevel with hlt | rfl
        · obtain ⟨hinto, hfrom, hframe⟩ := hbelow level mark' hlt hmark'
          have hkeep := fun node => hlower level node (Nat.ne_of_lt hlt)
          refine ⟨hinto.trans (hkeep mark'), hfrom, ?_⟩
          intro node hnode hnode'
          rw [hframe node hnode hnode', hkeep node]
        · obtain rfl : mark = mark' := Option.some.inj (hmark.symm.trans hmark')
          refine ⟨?_, ?_, ?_⟩
          · rw [habove level new le_rfl, hframe₂ level new (.inr hne.symm), hself₁, hlink]
          · rw [habove level mark le_rfl, hself₂]
          · intro node hnode hnode'
            rw [habove level node le_rfl, hframe₂ level node (.inr hnode'),
              hframe₁ level node (.inr hnode)]

/-- The last element that passes the stronger test is also the end of a prefix
of the elements that pass the weaker one. -/
theorem exists_filter_split {α β : Type} (strong weak : α → Bool)
    (himp : ∀ x, strong x = true → weak x = true) (f : α → β) (z : β) (xs : List α) :
    ∃ left right, xs.filter weak = left ++ right ∧
      (left.map f).getLastD z = ((xs.filter strong).map f).getLastD z := by
  induction xs using List.reverseRecOn with
  | nil => exact ⟨[], [], rfl, rfl⟩
  | append_singleton xs x ih =>
      cases hstrong : strong x with
      | true =>
          refine ⟨(xs ++ [x]).filter weak, [], by simp, ?_⟩
          simp [hstrong, himp x hstrong]
      | false =>
          obtain ⟨left, right, hsplit, hlast⟩ := ih
          refine ⟨left, right ++ [x].filter weak, ?_, ?_⟩
          · rw [List.filter_append, hsplit, List.append_assoc]
          · rw [hlast]
            simp [hstrong]

end DbSlayer.Skip
