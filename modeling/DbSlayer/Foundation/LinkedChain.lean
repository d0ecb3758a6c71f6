import Mathlib.Data.List.Basic

/-! # Chains of links through a partial successor function

A link read can fail (a dangling or out-of-range read), can be null, or can
name the next cell. `Linked` says which cells a chain visits. The walks are
fuelled, since nothing about a raw successor function excludes a cycle; every
result below supplies the fuel from the length of the chain that is walked.
-/

namespace Foundation

variable {α : Type}

/-- Following `next` from `a` visits exactly the listed cells and then a null link. -/
def Linked (next : α → Option (Option α)) : α → List α → Prop
  | a, [] => next a = some none
  | a, b :: rest => next a = some (some b) ∧ Linked next b rest

/-- Advance along the links while the next cell satisfies `test`. -/
def advance (next : α → Option (Option α)) (test : α → Option Bool) : Nat → α → Option α
  | 0, _ => none
  | fuel + 1, a => do
      match ← next a with
      | none => some a
      | some b => if ← test b then advance next test fuel b else some a

/-- The cells visited from `a`, in order. -/
def collect (next : α → Option (Option α)) : Nat → α → Option (List α)
  | 0, _ => none
  | fuel + 1, a => do
      match ← next a with
      | none => some []
      | some b => (b :: ·) <$> collect next fuel b

namespace Linked

variable {next next' : α → Option (Option α)} {a new : α} {before after : List α}

/-- A chain depends on the links of its own cells only, so it survives any change elsewhere. -/
theorem congr {cells : List α} (hlinked : Linked next a cells)
    (hsame : ∀ b ∈ a :: cells, next' b = next b) : Linked next' a cells := by
  induction cells generalizing a with
  | nil => exact (hsame a List.mem_cons_self).trans hlinked
  | cons b rest ih =>
      refine ⟨(hsame a List.mem_cons_self).trans hlinked.1, ih hlinked.2 ?_⟩
      intro c hc
      exact hsame c (List.mem_cons_of_mem a hc)

theorem read_isSome {cells : List α} (hlinked : Linked next a cells) : (next a).isSome := by
  cases cells with
  | nil => simp [show next a = some none from hlinked]
  | cons b rest => simp [hlinked.1]

/-- Behind some of its cells a chain is a chain again. -/
theorem drop (hlinked : Linked next a (before ++ after)) :
    Linked next (before.getLastD a) after := by
  induction before generalizing a with
  | nil => exact hlinked
  | cons b rest ih =>
      rw [List.getLastD_cons]
      exact ih hlinked.2

/-- Following the links collects exactly the cells of the chain, given fuel for one step more. -/
theorem collect_eq {cells : List α} {fuel : Nat} (hlinked : Linked next a cells)
    (hfuel : cells.length < fuel) : collect next fuel a = some cells := by
  induction cells generalizing a fuel with
  | nil =>
      obtain ⟨fuel, rfl⟩ := Nat.exists_eq_succ_of_ne_zero (Nat.ne_of_gt hfuel)
      rw [collect, show next a = some none from hlinked]
      rfl
  | cons b rest ih =>
      obtain ⟨fuel, rfl⟩ := Nat.exists_eq_succ_of_ne_zero (Nat.ne_of_gt (Nat.zero_lt_of_lt hfuel))
      rw [collect, hlinked.1]
      have hrest := ih hlinked.2 (Nat.lt_of_succ_lt_succ hfuel)
      simp [hrest]

/-- A walk stops at the last cell of the longest prefix whose cells pass the test. -/
theorem advance_eq {cells : List α} {test : α → Option Bool} {passes : α → Bool} {fuel : Nat}
    (hlinked : Linked next a cells) (htest : ∀ b ∈ cells, test b = some (passes b))
    (hfuel : cells.length < fuel) :
    advance next test fuel a = some ((cells.takeWhile passes).getLastD a) := by
  induction cells generalizing a fuel with
  | nil =>
      obtain ⟨fuel, rfl⟩ := Nat.exists_eq_succ_of_ne_zero (Nat.ne_of_gt hfuel)
      rw [advance, show next a = some none from hlinked]
      rfl
  | cons b rest ih =>
      obtain ⟨fuel, rfl⟩ := Nat.exists_eq_succ_of_ne_zero (Nat.ne_of_gt (Nat.zero_lt_of_lt hfuel))
      rw [advance, hlinked.1]
      have hrest := ih hlinked.2 (fun c hc => htest c (List.mem_cons_of_mem b hc))
        (Nat.lt_of_succ_lt_succ hfuel)
      have hb := htest b List.mem_cons_self
      cases hpass : passes b with
      | true =>
          rw [List.takeWhile_cons_of_pos hpass, List.getLastD_cons, ← hrest]
          simp [hb, hpass]
      | false => simp [hb, hpass]

/-- Splicing one cell behind `before` when only the link of the cell before it changes. -/
theorem splice (hlinked : Linked next a (before ++ after))
    (hnodup : (a :: (before ++ after)).Nodup) (hnew : new ∉ a :: (before ++ after))
    (hinto : next' new = next (before.getLastD a))
    (hfrom : next' (before.getLastD a) = some (some new))
    (hframe : ∀ b, b ≠ new → b ≠ before.getLastD a → next' b = next b) :
    Linked next' a (before ++ new :: after) := by
  induction before generalizing a with
  | nil =>
      refine ⟨hfrom, ?_⟩
      simp only [List.nil_append] at hlinked hnodup hnew
      cases after with
      | nil => exact hinto.trans hlinked
      | cons c rest =>
          refine ⟨hinto.trans hlinked.1, hlinked.2.congr ?_⟩
          intro b hb
          apply hframe
          · rintro rfl
            exact hnew (List.mem_cons_of_mem a hb)
          · rintro rfl
            exact (List.nodup_cons.mp hnodup).1 hb
  | cons c rest ih =>
      rw [List.getLastD_cons] at hinto hfrom hframe
      obtain ⟨hhead, htail⟩ := hlinked
      have hrest : (c :: (rest ++ after)).Nodup := (List.nodup_cons.mp hnodup).2
      have hne : a ≠ rest.getLastD c := by
        intro heq
        apply (List.nodup_cons.mp hnodup).1
        refine heq ▸ List.mem_append_left after ?_
        rw [List.getLastD_eq_getLast?]
        cases hlast : rest.getLast? with
        | none => simp
        | some d => exact List.mem_cons_of_mem c (List.mem_of_getLast? hlast)
      have hanew : a ≠ new := fun heq => hnew (heq ▸ List.mem_cons_self)
      refine ⟨(hframe a hanew hne).trans hhead, ?_⟩
      exact ih htail hrest (fun hmem => hnew (List.mem_cons_of_mem a hmem)) hinto hfrom hframe

end Linked

end Foundation
