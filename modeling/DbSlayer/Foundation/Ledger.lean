import Mathlib.Data.List.Basic
import Mathlib.Data.List.Nodup

/-! # Ledgers of resources

A trace of events, some of which open, close or need a resource. A trace is
accounted for when the open resources are the ones somebody holds and nothing
was closed twice; it is guarded when every event finds what it needs open.
-/

namespace Foundation

variable {ε τ : Type}

/-- What an event does to resources. -/
structure Ledger (ε τ : Type) where
  opens : ε → Option τ
  closes : ε → Option τ
  needs : ε → Option τ

namespace Ledger

variable (ledger : Ledger ε τ)

/-- Opened at some time and not closed. -/
def Live (trace : List ε) (r : τ) : Prop :=
  (∃ e ∈ trace, ledger.opens e = some r) ∧ ∀ e ∈ trace, ledger.closes e ≠ some r

/-- Every event behind `seen` needs nothing, or something that is open by then. -/
def Guarded : List ε → List ε → Prop
  | _, [] => True
  | seen, e :: rest => (∀ r, ledger.needs e = some r → ledger.Live seen r) ∧
      Guarded (seen ++ [e]) rest

/-- How often a trace closes a resource. -/
def closings [DecidableEq τ] (trace : List ε) (r : τ) : Nat :=
  trace.countP fun e => ledger.closes e = some r

/-- The open resources are the held ones, and nothing was closed twice. -/
structure Holds [DecidableEq τ] (trace : List ε) (held : List τ) : Prop where
  nodup : held.Nodup
  live : ∀ r, r ∈ held ↔ ledger.Live trace r
  once : ∀ r, ledger.closings trace r ≤ 1

/-- Events that neither open nor close anything. -/
def Neutral (trace : List ε) : Prop :=
  ∀ e ∈ trace, ledger.opens e = none ∧ ledger.closes e = none

/-- Neutral events that need `r` or nothing. -/
def OnlyOn (r : τ) (trace : List ε) : Prop :=
  ledger.Neutral trace ∧ ∀ e ∈ trace, ∀ s, ledger.needs e = some s → s = r

variable {ledger}

/-- A trace is guarded exactly when its first part is, and its second part is behind the first. -/
theorem guarded_append {seen first second : List ε} :
    ledger.Guarded seen (first ++ second) ↔
      ledger.Guarded seen first ∧ ledger.Guarded (seen ++ first) second := by
  induction first generalizing seen with
  | nil => simp [Guarded]
  | cons e rest ih =>
      rw [List.cons_append, Guarded, Guarded, ih, List.append_assoc, and_assoc]
      rfl

/-- Traces that open and close nothing can be joined. -/
theorem Neutral.append {first second : List ε} (hfirst : ledger.Neutral first)
    (hsecond : ledger.Neutral second) : ledger.Neutral (first ++ second) := by
  intro e he
  exact (List.mem_append.mp he).elim (hfirst e) (hsecond e)

/-- A neutral trace changes nothing about what is live. -/
theorem Neutral.live_append {seen trace : List ε} (hneutral : ledger.Neutral trace) (r : τ) :
    ledger.Live (seen ++ trace) r ↔ ledger.Live seen r := by
  constructor
  · rintro ⟨⟨e, he, hopen⟩, hclose⟩
    refine ⟨⟨e, ?_, hopen⟩, fun e he => hclose e (List.mem_append_left _ he)⟩
    rcases List.mem_append.mp he with hseen | hnew
    · exact hseen
    · simp [(hneutral e hnew).1] at hopen
  · rintro ⟨⟨e, he, hopen⟩, hclose⟩
    refine ⟨⟨e, List.mem_append_left _ he, hopen⟩, fun e he => ?_⟩
    rcases List.mem_append.mp he with hseen | hnew
    · exact hclose e hseen
    · simp [(hneutral e hnew).2]

theorem OnlyOn.append {r : τ} {first second : List ε} (hfirst : ledger.OnlyOn r first)
    (hsecond : ledger.OnlyOn r second) : ledger.OnlyOn r (first ++ second) := by
  refine ⟨hfirst.1.append hsecond.1, ?_⟩
  intro e he
  exact (List.mem_append.mp he).elim (hfirst.2 e) (hsecond.2 e)

/-- Events on one resource are guarded exactly when it is open or none needs it. -/
theorem OnlyOn.guarded_iff {r : τ} {seen trace : List ε} (honly : ledger.OnlyOn r trace) :
    ledger.Guarded seen trace ↔ ledger.Live seen r ∨ ∀ e ∈ trace, ledger.needs e = none := by
  induction trace generalizing seen with
  | nil => simp [Guarded]
  | cons e rest ih =>
      have hhead : ledger.Neutral [e] := by
        intro other hother
        obtain rfl := List.mem_singleton.mp hother
        exact honly.1 other List.mem_cons_self
      have hrest : ledger.OnlyOn r rest :=
        ⟨fun other hother => honly.1 other (List.mem_cons_of_mem e hother),
          fun other hother => honly.2 other (List.mem_cons_of_mem e hother)⟩
      rw [Guarded, ih hrest, hhead.live_append, List.forall_mem_cons]
      cases hneeds : ledger.needs e with
      | none => simp
      | some s =>
          obtain rfl := honly.2 e List.mem_cons_self s hneeds
          simpa using Or.inl

/-! ## One resource at a time -/

/-- Every open resource is one of `held`. -/
def LiveWithin (ledger : Ledger ε τ) (trace : List ε) (held : List τ) : Prop :=
  ∀ r, ledger.Live trace r → r ∈ held

/-- At every point behind `seen`, at most one resource is open. -/
def OneAtATime (ledger : Ledger ε τ) (seen trace : List ε) : Prop :=
  ∀ part, part <+: trace →
    ∀ r s, ledger.Live (seen ++ part) r → ledger.Live (seen ++ part) s → r = s

/-- A neutral trace keeps a bound on what is live. -/
theorem LiveWithin.neutral {seen trace : List ε} {held : List τ}
    (hwithin : ledger.LiveWithin seen held) (hneutral : ledger.Neutral trace) :
    ledger.LiveWithin (seen ++ trace) held :=
  fun r hlive => hwithin r ((hneutral.live_append r).mp hlive)

theorem LiveWithin.open {seen : List ε} {held : List τ} {e : ε} {r : τ}
    (hwithin : ledger.LiveWithin seen held) (hopen : ledger.opens e = some r) :
    ledger.LiveWithin (seen ++ [e]) (r :: held) := by
  rintro s ⟨⟨other, hother, hopens⟩, hcloses⟩
  rcases List.mem_append.mp hother with hseen | hlast
  · refine List.mem_cons_of_mem _ (hwithin s ⟨⟨other, hseen, hopens⟩, fun other hother => ?_⟩)
    exact hcloses other (List.mem_append_left _ hother)
  · rw [List.mem_singleton.mp hlast, hopen] at hopens
    rw [Option.some.inj hopens]
    exact List.mem_cons_self

/-- Closing the only resource that may be live leaves none. -/
theorem LiveWithin.close {seen : List ε} {e : ε} {r : τ} (hwithin : ledger.LiveWithin seen [r])
    (hclose : ledger.closes e = some r) (hopen : ledger.opens e = none) :
    ledger.LiveWithin (seen ++ [e]) [] := by
  rintro s ⟨⟨other, hother, hopens⟩, hcloses⟩
  rcases List.mem_append.mp hother with hseen | hlast
  · have hheld := hwithin s ⟨⟨other, hseen, hopens⟩, fun other hother =>
      hcloses other (List.mem_append_left _ hother)⟩
    rw [List.mem_singleton.mp hheld] at hcloses
    exact absurd hclose (hcloses e (by simp))
  · rw [List.mem_singleton.mp hlast, hopen] at hopens
    cases hopens

/-- Where at most one resource is held, two live ones are the same. -/
theorem LiveWithin.unique {trace : List ε} {held : List τ} (hwithin : ledger.LiveWithin trace held)
    (hone : held.length ≤ 1) (r s : τ) (hr : ledger.Live trace r) (hs : ledger.Live trace s) :
    r = s := by
  have hr := hwithin r hr
  have hs := hwithin s hs
  match held with
  | [] => cases hr
  | [only] => rw [List.mem_singleton.mp hr, List.mem_singleton.mp hs]

/-- The property of a trace is shown part by part, each part behind the ones before it. -/
theorem OneAtATime.append {seen first second : List ε} (hfirst : ledger.OneAtATime seen first)
    (hsecond : ledger.OneAtATime (seen ++ first) second) :
    ledger.OneAtATime seen (first ++ second) := by
  intro part hpart
  rcases List.prefix_or_prefix_of_prefix hpart (List.prefix_append first second) with
    hinside | ⟨rest, rfl⟩
  · exact hfirst part hinside
  · rw [← List.append_assoc]
    exact hsecond rest ((List.prefix_append_right_inj first).mp hpart)

theorem oneAtATime_nil {seen : List ε} {held : List τ} (hwithin : ledger.LiveWithin seen held)
    (hone : held.length ≤ 1) : ledger.OneAtATime seen [] := by
  intro part hpart
  rw [List.prefix_nil.mp hpart, List.append_nil]
  exact hwithin.unique hone

/-- An event, and then others. -/
theorem oneAtATime_cons {seen rest : List ε} {held : List τ} {e : ε}
    (hwithin : ledger.LiveWithin seen held) (hone : held.length ≤ 1)
    (hrest : ledger.OneAtATime (seen ++ [e]) rest) : ledger.OneAtATime seen (e :: rest) := by
  intro part hpart
  rcases List.prefix_cons_iff.mp hpart with rfl | ⟨rest', rfl, hrest'⟩
  · rw [List.append_nil]
    exact hwithin.unique hone
  · rw [List.append_cons]
    exact hrest rest' hrest'

/-- At most one resource is live at any moment of a neutral trace, if at most one was held
before it. -/
theorem oneAtATime_neutral {seen trace : List ε} {held : List τ}
    (hwithin : ledger.LiveWithin seen held) (hone : held.length ≤ 1)
    (hneutral : ledger.Neutral trace) : ledger.OneAtATime seen trace := by
  intro part hpart
  exact (hwithin.neutral fun e he => hneutral e (hpart.subset he)).unique hone

section Counting

variable [DecidableEq τ]

/-- The closings of a trace are counted part by part. -/
theorem closings_append (first second : List ε) (r : τ) :
    ledger.closings (first ++ second) r = ledger.closings first r + ledger.closings second r :=
  List.countP_append

/-- A resource has no closing exactly when no event of the trace closes it. -/
theorem closings_eq_zero {trace : List ε} {r : τ} :
    ledger.closings trace r = 0 ↔ ∀ e ∈ trace, ledger.closes e ≠ some r := by
  simp [closings, List.countP_eq_zero]

theorem Neutral.closings {trace : List ε} (hneutral : ledger.Neutral trace) (r : τ) :
    ledger.closings trace r = 0 := by
  rw [closings_eq_zero]
  intro e he
  simp [(hneutral e he).2]

theorem holds_nil : ledger.Holds [] [] where
  nodup := List.nodup_nil
  live := by simp [Live]
  once := by simp [Ledger.closings]

theorem Holds.neutral {seen trace : List ε} {held : List τ} (hholds : ledger.Holds seen held)
    (hneutral : ledger.Neutral trace) : ledger.Holds (seen ++ trace) held where
  nodup := hholds.nodup
  live := fun r => (hholds.live r).trans (hneutral.live_append r).symm
  once := by
    intro r
    rw [closings_append, hneutral.closings]
    exact hholds.once r

/-- Opening a resource that was never seen before. -/
theorem Holds.openFresh {seen : List ε} {held : List τ} {e : ε} {r : τ}
    (hholds : ledger.Holds seen held) (hopens : ledger.opens e = some r)
    (hcloses : ledger.closes e = none)
    (hfresh : ∀ e ∈ seen, ledger.opens e ≠ some r ∧ ledger.closes e ≠ some r) :
    ledger.Holds (seen ++ [e]) (r :: held) where
  nodup := by
    refine List.nodup_cons.mpr ⟨?_, hholds.nodup⟩
    intro hr
    obtain ⟨⟨other, hother, hopen⟩, -⟩ := (hholds.live r).mp hr
    exact (hfresh other hother).1 hopen
  live := by
    intro s
    rw [List.mem_cons, hholds.live]
    constructor
    · rintro (rfl | ⟨⟨other, hother, hopen⟩, hclose⟩)
      · exact ⟨⟨e, by simp, hopens⟩,
          List.forall_mem_append.mpr ⟨fun e he => (hfresh e he).2, by simp [hcloses]⟩⟩
      · exact ⟨⟨other, by simp [hother], hopen⟩,
          List.forall_mem_append.mpr ⟨hclose, by simp [hcloses]⟩⟩
    · rintro ⟨⟨other, hother, hopen⟩, hclose⟩
      rcases List.mem_append.mp hother with hseen | hnew
      · exact .inr ⟨⟨other, hseen, hopen⟩, fun e he => hclose e (List.mem_append_left _ he)⟩
      · obtain rfl := List.mem_singleton.mp hnew
        exact .inl (Option.some.inj (hopen.symm.trans hopens))
  once := by
    intro s
    have hlast : ledger.closings [e] s = 0 := by simp [Ledger.closings, hcloses]
    rw [closings_append, hlast]
    exact hholds.once s

/-- Closing a held resource. -/
theorem Holds.closeHeld {seen : List ε} {held : List τ} {e : ε} {r : τ}
    (hholds : ledger.Holds seen (r :: held)) (hopens : ledger.opens e = none)
    (hcloses : ledger.closes e = some r) : ledger.Holds (seen ++ [e]) held where
  nodup := hholds.nodup.of_cons
  live := by
    intro s
    have hr : r ∉ held := (List.nodup_cons.mp hholds.nodup).1
    have hlive := hholds.live s
    rw [List.mem_cons] at hlive
    constructor
    · intro hs
      obtain ⟨⟨other, hother, hopen⟩, hclose⟩ := hlive.mp (.inr hs)
      have hne : r ≠ s := fun heq => hr (heq ▸ hs)
      exact ⟨⟨other, by simp [hother], hopen⟩,
        List.forall_mem_append.mpr ⟨hclose, by simpa [hcloses] using hne⟩⟩
    · rintro ⟨⟨other, hother, hopen⟩, hclose⟩
      have hbefore : ledger.Live seen s := by
        refine ⟨⟨other, ?_, hopen⟩, fun last hlast => hclose last (List.mem_append_left _ hlast)⟩
        rcases List.mem_append.mp hother with hseen | hnew
        · exact hseen
        · obtain rfl := List.mem_singleton.mp hnew
          simp [hopens] at hopen
      rcases hlive.mpr hbefore with rfl | hs
      · exact absurd hcloses (hclose e (by simp))
      · exact hs
  once := by
    intro s
    rw [closings_append]
    by_cases hs : r = s
    · obtain rfl := hs
      have hzero : ledger.closings seen r = 0 :=
        closings_eq_zero.mpr ((hholds.live r).mp List.mem_cons_self).2
      have hlast : ledger.closings [e] r ≤ 1 := List.countP_le_length
      omega
    · have hlast : ledger.closings [e] s = 0 := by simp [Ledger.closings, hcloses, hs]
      rw [hlast]
      exact hholds.once s

/-- What was opened is held or was closed, once. -/
theorem Holds.closings_of_not_mem {trace : List ε} {held : List τ} {e : ε} {r : τ}
    (hholds : ledger.Holds trace held) (he : e ∈ trace) (hopens : ledger.opens e = some r)
    (hheld : r ∉ held) : ledger.closings trace r = 1 := by
  have honce := hholds.once r
  have hpos : ledger.closings trace r ≠ 0 := by
    intro hzero
    exact hheld ((hholds.live r).mpr ⟨⟨e, he, hopens⟩, closings_eq_zero.mp hzero⟩)
  omega

theorem Holds.closings_of_mem {trace : List ε} {held : List τ} {r : τ}
    (hholds : ledger.Holds trace held) (hheld : r ∈ held) : ledger.closings trace r = 0 :=
  closings_eq_zero.mpr ((hholds.live r).mp hheld).2

/-- The order in which the held resources are listed does not matter. -/
theorem Holds.perm {trace : List ε} {held other : List τ} (hholds : ledger.Holds trace held)
    (hperm : held.Perm other) : ledger.Holds trace other where
  nodup := hperm.nodup_iff.mp hholds.nodup
  live := fun r => hperm.mem_iff.symm.trans (hholds.live r)
  once := hholds.once

end Counting

end Ledger

end Foundation
