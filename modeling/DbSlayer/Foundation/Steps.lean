import Mathlib.Data.List.Basic

/-! # Runs of a transition system

A system takes one labelled step at a time; a step that is not enabled ends the
run. `Always` is about the states of a run and `EachStep` about its steps, each
with the state it was taken in.
-/

namespace Foundation

variable {σ ι : Type}

section Runs

variable (step : σ → ι → Option σ)

/-- `P` holds of every state of the run, the first one included. -/
def Always (P : σ → Prop) : σ → List ι → Prop
  | s, [] => P s
  | s, i :: rest => P s ∧ ∀ s', step s i = some s' → Always P s' rest

/-- `G` holds of every step that the run takes. -/
def EachStep (G : σ → ι → Prop) : σ → List ι → Prop
  | _, [] => True
  | s, i :: rest => ∀ s', step s i = some s' → G s i ∧ EachStep G s' rest

/-- Everything that `out` sees pass between the states of the run. -/
def collected {β : Type} (out : σ → σ → List β) : σ → List ι → List β
  | _, [] => []
  | s, i :: rest =>
      match step s i with
      | none => []
      | some s' => out s s' ++ collected out s' rest

/-- The steps of the run, each with the state it is taken in. -/
def taken : σ → List ι → List (σ × ι)
  | _, [] => []
  | s, i :: rest =>
      match step s i with
      | none => []
      | some s' => (s, i) :: taken s' rest

/-- The state in which the run ends. -/
def lastState : σ → List ι → σ
  | s, [] => s
  | s, i :: rest =>
      match step s i with
      | none => s
      | some s' => lastState s' rest

variable {step} {P Inv : σ → Prop} {G : σ → ι → Prop}

instance EachStep.decidable [∀ s i, Decidable (G s i)] :
    ∀ (s : σ) (run : List ι), Decidable (EachStep step G s run)
  | _, [] => isTrue trivial
  | s, i :: rest =>
      match hstep : step s i with
      | none => isTrue fun s' hnext => by simp [hstep] at hnext
      | some next =>
          have := EachStep.decidable next rest
          decidable_of_iff (G s i ∧ EachStep step G next rest)
            ⟨fun hboth s' hnext => Option.some.inj (hstep.symm.trans hnext) ▸ hboth,
              fun heach => heach next hstep⟩

theorem Always.head {s : σ} {run : List ι} (halways : Always step P s run) : P s := by
  cases run with
  | nil => exact halways
  | cons i rest => exact halways.1

/-- A run all of whose steps are enabled ends in one of its states. -/
theorem Always.last {s last : σ} {run : List ι} (halways : Always step P s run)
    (hrun : run.foldlM step s = some last) : P last := by
  induction run generalizing s with
  | nil =>
      obtain rfl := Option.some.inj hrun
      exact halways
  | cons i rest ih =>
      obtain ⟨s', hstep, hrest⟩ := Option.bind_eq_some_iff.mp hrun
      exact ih (halways.2 s' hstep) hrest

/-- The state in which a run ends is one of its states. -/
theorem Always.lastState {s : σ} {run : List ι} (halways : Always step P s run) :
    P (lastState step s run) := by
  induction run generalizing s with
  | nil => exact halways
  | cons i rest ih =>
      rw [Foundation.lastState]
      split
      next => exact halways.1
      next s' hstep => exact ih (halways.2 s' hstep)

/-- What the good steps preserve holds along every run of good steps. -/
theorem always_of_eachStep (hgood : ∀ s i s', Inv s → G s i → step s i = some s' → Inv s') {s : σ}
    (hinv : Inv s) {run : List ι} (heach : EachStep step G s run) : Always step Inv s run := by
  induction run generalizing s with
  | nil => exact hinv
  | cons i rest ih =>
      refine ⟨hinv, fun s' hstep => ?_⟩
      obtain ⟨hguard, hrest⟩ := heach s' hstep
      exact ih (hgood s i s' hinv hguard hstep) hrest

/-- A condition on the labels alone. -/
theorem eachStep_of_forall_mem {good : ι → Prop} {run : List ι}
    (hgood : ∀ i ∈ run, good i) {s : σ} : EachStep step (fun _ i => good i) s run := by
  induction run generalizing s with
  | nil => trivial
  | cons i rest ih =>
      intro s' _
      exact ⟨hgood i List.mem_cons_self, ih fun j hj => hgood j (List.mem_cons_of_mem i hj)⟩

/-- What every step preserves holds along every run. -/
theorem always_of_invariant (hkeep : ∀ s i s', Inv s → step s i = some s' → Inv s') {s : σ}
    (hinv : Inv s) (run : List ι) : Always step Inv s run := by
  induction run generalizing s with
  | nil => exact hinv
  | cons i rest ih => exact ⟨hinv, fun s' hstep => ih (hkeep s i s' hinv hstep)⟩

/-- What follows from an invariant about every step taken under it. -/
theorem eachStep_of_invariant (hkeep : ∀ s i s', Inv s → step s i = some s' → Inv s')
    (hgood : ∀ s i s', Inv s → step s i = some s' → G s i) {s : σ} (hinv : Inv s) (run : List ι) :
    EachStep step G s run := by
  induction run generalizing s with
  | nil => trivial
  | cons i rest ih =>
      intro s' hstep
      exact ⟨hgood s i s' hinv hstep, ih (hkeep s i s' hinv hstep)⟩

/-- An invariant of the state and of everything collected before it, at the end of a
run. -/
theorem exists_inv_collected {β : Type} {out : σ → σ → List β} {Hist : σ → List β → Prop}
    (hkeep : ∀ s i s' seen, Hist s seen → step s i = some s' → Hist s' (seen ++ out s s'))
    {s : σ} {seen : List β} (hhist : Hist s seen) (run : List ι) :
    ∃ last, Hist last (seen ++ collected step out s run) := by
  induction run generalizing s seen with
  | nil =>
      rw [collected, List.append_nil]
      exact ⟨s, hhist⟩
  | cons i rest ih =>
      rw [collected]
      split
      next =>
        rw [List.append_nil]
        exact ⟨s, hhist⟩
      next s' hstep =>
        rw [← List.append_assoc]
        exact ih (hkeep s i s' seen hhist hstep)

/-- An invariant that good steps preserve, of the state and of everything collected
before it. -/
theorem inv_collected_of_eachStep {β : Type} {out : σ → σ → List β} {Hist : σ → List β → Prop}
    (hkeep : ∀ s i s' seen, Hist s seen → G s i → step s i = some s' →
      Hist s' (seen ++ out s s'))
    {s : σ} {seen : List β} (hhist : Hist s seen) {run : List ι} (heach : EachStep step G s run) :
    Hist (lastState step s run) (seen ++ collected step out s run) := by
  induction run generalizing s seen with
  | nil =>
      rw [collected, lastState, List.append_nil]
      exact hhist
  | cons i rest ih =>
      rw [collected, lastState]
      split
      next =>
        rw [List.append_nil]
        exact hhist
      next s' hstep =>
        obtain ⟨hguard, hrest⟩ := heach s' hstep
        rw [← List.append_assoc]
        exact ih (hkeep s i s' seen hhist hguard hstep) hrest

/-- An invariant of the state and of everything collected before it. -/
theorem inv_collected {β : Type} {out : σ → σ → List β} {Hist : σ → List β → Prop}
    (hkeep : ∀ s i s' seen, Hist s seen → step s i = some s' → Hist s' (seen ++ out s s'))
    {s : σ} {seen : List β} (hhist : Hist s seen) (run : List ι) :
    Hist (lastState step s run) (seen ++ collected step out s run) :=
  inv_collected_of_eachStep (G := fun _ _ => True)
    (fun s i s' seen hhist _ hstep => hkeep s i s' seen hhist hstep) hhist
    (eachStep_of_forall_mem fun _ _ => trivial)

/-- What follows from the property in every state holds along the run as well. -/
theorem Always.mono {Q : σ → Prop} (himp : ∀ s, P s → Q s) {s : σ} {run : List ι}
    (halways : Always step P s run) : Always step Q s run := by
  induction run generalizing s with
  | nil => exact himp s halways
  | cons i rest ih => exact ⟨himp s halways.1, fun s' hstep => ih (halways.2 s' hstep)⟩

/-- When every other step breaks the property at once, the good steps are exactly
those of the runs that keep it. -/
theorem always_iff_eachStep (himp : ∀ s, Inv s → P s)
    (hgood : ∀ s i s', Inv s → G s i → step s i = some s' → Inv s')
    (hbad : ∀ s i s', Inv s → step s i = some s' → P s' → G s i) {s : σ} (hinv : Inv s)
    (run : List ι) : Always step P s run ↔ EachStep step G s run := by
  refine ⟨fun halways => ?_, fun heach => (always_of_eachStep hgood hinv heach).mono himp⟩
  induction run generalizing s with
  | nil => trivial
  | cons i rest ih =>
      intro s' hstep
      have hrest := halways.2 s' hstep
      have hguard := hbad s i s' hinv hstep hrest.head
      exact ⟨hguard, ih (hgood s i s' hinv hguard hstep) hrest⟩

end Runs

end Foundation
