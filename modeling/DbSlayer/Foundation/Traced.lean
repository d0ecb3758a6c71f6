import Mathlib.Data.List.Basic

/-! # Computations on blocks of memory

A block is a list of cells. A computation that reads or writes outside of a block
ends there; any other has a result and the states it passed. `Sat` is total
correctness: no access is outside of a block, every state on the way is good, and
so is the result.
-/

namespace Foundation

variable {σ α β γ : Type}

/-- `none` from an access outside of a block on, else a result and the states passed. -/
def Traced (σ α : Type) : Type := Option (α × List σ)

namespace Traced

protected def pure (a : α) : Traced σ α := some (a, [])

protected def bind (x : Traced σ α) (f : α → Traced σ β) : Traced σ β :=
  match x with
  | none => none
  | some (a, seen) =>
      match f a with
      | none => none
      | some (b, more) => some (b, seen ++ more)

instance : Monad (Traced σ) where
  pure := Traced.pure
  bind := Traced.bind

/-- Passes a state. -/
def pass (s : σ) : Traced σ Unit := some ((), [s])

/-- An access outside of every block. -/
def fault : Traced σ α := none

def load (block : List γ) (i : Nat) : Traced σ γ :=
  match block[i]? with
  | none => fault
  | some x => pure x

def store (block : List γ) (i : Nat) (x : γ) : Traced σ (List γ) :=
  if i < block.length then pure (block.set i x) else fault

/-- Reads the first `n` cells. -/
def loadFront (block : List γ) (n : Nat) : Traced σ (List γ) :=
  if n ≤ block.length then pure (block.take n) else fault

/-- Writes over the first cells. -/
def storeFront (block content : List γ) : Traced σ (List γ) :=
  if content.length ≤ block.length then pure (content ++ block.drop content.length) else fault

/-- Total correctness. -/
def Sat (x : Traced σ α) (P : σ → Prop) (Q : α → Prop) : Prop :=
  ∃ a seen, x = some (a, seen) ∧ (∀ s ∈ seen, P s) ∧ Q a

namespace Sat

variable {P : σ → Prop} {Q : α → Prop} {R : β → Prop}

theorem pure {a : α} (ha : Q a) : (Pure.pure a : Traced σ α).Sat P Q :=
  ⟨a, [], rfl, by simp, ha⟩

/-- The rule for sequences: what the first access ensures is what the second one may assume. -/
theorem bind {x : Traced σ α} {f : α → Traced σ β} (hx : x.Sat P Q)
    (hf : ∀ a, Q a → (f a).Sat P R) : (x >>= f).Sat P R := by
  obtain ⟨a, seen, rfl, hseen, ha⟩ := hx
  obtain ⟨b, more, hresult, hmore, hb⟩ := hf a ha
  refine ⟨b, seen ++ more, ?_, List.forall_mem_append.mpr ⟨hseen, hmore⟩, hb⟩
  change Traced.bind (some (a, seen)) f = some (b, seen ++ more)
  simp only [Traced.bind, hresult]
  rfl

/-- A weaker result may be stated of the same access. -/
theorem mono {x : Traced σ α} {Q' : α → Prop} (hx : x.Sat P Q) (himp : ∀ a, Q a → Q' a) :
    x.Sat P Q' := by
  obtain ⟨a, seen, hresult, hseen, ha⟩ := hx
  exact ⟨a, seen, hresult, hseen, himp a ha⟩

/-- What holds of the result of a computation. -/
theorem result {x : Traced σ α} {a : α} {seen : List σ} (hx : x.Sat P Q)
    (hrun : x = some (a, seen)) : Q a := by
  obtain ⟨b, more, hresult, -, hb⟩ := hx
  obtain ⟨rfl, -⟩ := Prod.mk.inj (Option.some.inj (hresult.symm.trans hrun))
  exact hb

/-- A state is passed on the way to a result. -/
theorem passing {s : σ} {x : Traced σ α} (hs : P s) (hx : x.Sat P Q) :
    (Traced.pass s >>= fun _ => x).Sat P Q :=
  Sat.bind (Q := fun _ => True) ⟨(), [s], rfl, by simpa using hs, trivial⟩ fun _ _ => hx

/-- A load within the block does not fault, and gives the byte that stands there. -/
theorem load {block : List γ} {i : Nat} {x : γ} (hx : block[i]? = some x) :
    (Traced.load block i : Traced σ γ).Sat P (· = x) := by
  rw [Traced.load, hx]
  exact Sat.pure rfl

/-- A load of the front does not fault when the block is long enough. -/
theorem loadFront {block : List γ} {n : Nat} (hn : n ≤ block.length) :
    (Traced.loadFront block n : Traced σ (List γ)).Sat P (· = block.take n) := by
  rw [Traced.loadFront, if_pos hn]
  exact Sat.pure rfl

/-- A store at the front leaves the rest of the block as it was. -/
theorem storeFront {block content : List γ} (hfits : content.length ≤ block.length) :
    (Traced.storeFront block content : Traced σ (List γ)).Sat P
      (· = content ++ block.drop content.length) := by
  rw [Traced.storeFront, if_pos hfits]
  exact Sat.pure rfl

theorem store {block : List γ} {i : Nat} (hi : i < block.length) (x : γ) :
    (Traced.store block i x : Traced σ (List γ)).Sat P (· = block.set i x) := by
  rw [Traced.store, if_pos hi]
  exact Sat.pure rfl

end Sat

/-! ## Blocks that are filled from the front -/

/-- A block of `capacity` cells whose first `size` cells hold `content`. -/
structure Stored (capacity : Nat) (block : List γ) (size : Nat) (content : List γ) : Prop where
  length : block.length = capacity
  filled : content.length = size
  front : content <+: block

namespace Stored

variable {capacity size : Nat} {block content : List γ} {P : σ → Prop}

theorem empty (hlength : block.length = capacity) : Stored capacity block 0 [] :=
  ⟨hlength, rfl, List.nil_prefix⟩

theorem le (hstored : Stored capacity block size content) : size ≤ capacity := by
  rw [← hstored.filled, ← hstored.length]
  exact hstored.front.length_le

theorem take_eq (hstored : Stored capacity block size content) : block.take size = content := by
  rw [← hstored.filled]
  exact (List.prefix_iff_eq_take.mp hstored.front).symm

/-- One more byte behind the content makes the content one byte longer. -/
theorem set (hstored : Stored capacity block size content) (hlt : size < capacity) (x : γ) :
    Stored capacity (block.set size x) (size + 1) (content ++ [x]) := by
  have hlength := hstored.length
  obtain ⟨rest, rfl⟩ := hstored.front
  obtain rfl := hstored.filled
  cases rest with
  | nil =>
      rw [List.append_nil] at hlength
      omega
  | cons old rest =>
      have hset : (content ++ old :: rest).set content.length x = content ++ [x] ++ rest := by
        simp
      refine ⟨List.length_set.trans hlength, List.length_append, ?_⟩
      rw [hset]
      exact List.prefix_append _ _

/-- One more cell is filled. -/
theorem store (hstored : Stored capacity block size content) (hlt : size < capacity) (x : γ) :
    (Traced.store block size x : Traced σ (List γ)).Sat P fun after =>
      Stored capacity after (size + 1) (content ++ [x]) := by
  refine (Sat.store (hstored.length.symm ▸ hlt) x).mono ?_
  rintro after rfl
  exact hstored.set hlt x

end Stored

/-- The cells behind the content hold `pad`. -/
structure Padded (pad : γ) (capacity : Nat) (block : List γ) (size : Nat) (content : List γ) : Prop
    extends Stored capacity block size content where
  rest : ∀ x ∈ block.drop size, x = pad

namespace Padded

variable {capacity size : Nat} {block content : List γ} {pad : γ} {P : σ → Prop}

theorem replicate (pad : γ) (capacity : Nat) :
    Padded pad capacity (List.replicate capacity pad) 0 [] where
  toStored := Stored.empty List.length_replicate
  rest := fun _ hx => List.eq_of_mem_replicate (List.mem_of_mem_drop hx)

/-- A block that is not full ends its content with a pad. -/
theorem terminated (hpadded : Padded pad capacity block size content) (hlt : size < capacity) :
    block[size]? = some pad := by
  have hcell : size < block.length := hpadded.length.symm ▸ hlt
  rw [List.getElem?_eq_getElem hcell]
  apply congrArg some
  apply hpadded.rest
  rw [List.drop_eq_getElem_cons hcell]
  exact List.mem_cons_self

theorem store (hpadded : Padded pad capacity block size content) (hlt : size < capacity) (x : γ) :
    (Traced.store block size x : Traced σ (List γ)).Sat P fun after =>
      Padded pad capacity after (size + 1) (content ++ [x]) := by
  refine (Sat.store (hpadded.length.symm ▸ hlt) x).mono ?_
  rintro after rfl
  refine ⟨hpadded.toStored.set hlt x, fun y hy => ?_⟩
  rw [List.drop_set_of_lt (Nat.lt_succ_self size)] at hy
  exact hpadded.rest y (List.drop_subset_drop_left block (Nat.le_succ size) hy)

end Padded

end Traced

end Foundation
