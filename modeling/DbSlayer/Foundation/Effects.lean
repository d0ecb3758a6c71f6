import Mathlib.Data.List.Basic

/-! # Computations that keep a trace

State-passing computations through their result and the state they leave, and
the rules for what they append to a trace that the state keeps.
-/

namespace Foundation

variable {σ α β : Type}

def result (m : StateM σ α) (s : σ) : α := (m s).1

def after (m : StateM σ α) (s : σ) : σ := (m s).2

@[simp] theorem result_pure (a : α) (s : σ) : result (pure a : StateM σ α) s = a := rfl

@[simp] theorem after_pure (a : α) (s : σ) : after (pure a : StateM σ α) s = s := rfl

/-- What two programs in sequence return is what the second one returns. -/
@[simp] theorem result_bind (m : StateM σ α) (f : α → StateM σ β) (s : σ) :
    result (m >>= f) s = result (f (result m s)) (after m s) := rfl

/-- The state behind two programs in sequence: the second one starts where the first one
ended, with what the first one returned. -/
@[simp] theorem after_bind (m : StateM σ α) (f : α → StateM σ β) (s : σ) :
    after (m >>= f) s = after (f (result m s)) (after m s) := rfl

@[simp] theorem result_map (f : α → β) (m : StateM σ α) (s : σ) :
    result (f <$> m) s = f (result m s) := rfl

@[simp] theorem after_map (f : α → β) (m : StateM σ α) (s : σ) :
    after (f <$> m) s = after m s := rfl

@[simp] theorem result_get (s : σ) : result (get : StateM σ σ) s = s := rfl

@[simp] theorem after_get (s : σ) : after (get : StateM σ σ) s = s := rfl

@[simp] theorem after_modify (f : σ → σ) (s : σ) : after (modify f : StateM σ PUnit) s = f s := rfl

@[simp] theorem result_ite (p : Prop) [Decidable p] (m n : StateM σ α) (s : σ) :
    result (if p then m else n) s = if p then result m s else result n s := by
  split <;> rfl

@[simp] theorem after_ite (p : Prop) [Decidable p] (m n : StateM σ α) (s : σ) :
    after (if p then m else n) s = if p then after m s else after n s := by
  split <;> rfl

section Trace

variable {ε : Type} (trace : σ → List ε)

/-- From every state the computation appends something that satisfies `P`. -/
def Appends (P : List ε → Prop) (m : StateM σ α) : Prop :=
  ∀ s, ∃ calls, trace (after m s) = trace s ++ calls ∧ P calls

/-- A property of traces that holds of the empty one and of concatenations. -/
structure Chains (P : List ε → Prop) : Prop where
  nil : P []
  append : ∀ {first second}, P first → P second → P (first ++ second)

variable {trace} {P : List ε → Prop}

/-- A program that only returns a value appends nothing. -/
theorem Appends.pure (hP : Chains P) (a : α) : Appends trace P (pure a : StateM σ α) := by
  intro s
  exact ⟨[], by simp, hP.nil⟩

/-- Two programs in sequence append what each of them appends, provided that `P` chains. -/
theorem Appends.bind (hP : Chains P) {m : StateM σ α} {f : α → StateM σ β}
    (hm : Appends trace P m) (hf : ∀ a, Appends trace P (f a)) : Appends trace P (m >>= f) := by
  intro s
  obtain ⟨first, hfirst, hfirst'⟩ := hm s
  obtain ⟨second, hsecond, hsecond'⟩ := hf (result m s) (after m s)
  refine ⟨first ++ second, ?_, hP.append hfirst' hsecond'⟩
  rw [after_bind, hsecond, hfirst, List.append_assoc]

theorem Appends.map {m : StateM σ α} (f : α → β) (hm : Appends trace P m) :
    Appends trace P (f <$> m) := hm

/-- A test appends within `P` when both of its branches do, whichever of them is taken. -/
theorem Appends.ite {p : Prop} [Decidable p] {m n : StateM σ α} (hm : Appends trace P m)
    (hn : Appends trace P n) : Appends trace P (if p then m else n) := by
  split
  · exact hm
  · exact hn

end Trace

end Foundation
