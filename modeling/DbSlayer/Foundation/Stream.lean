import Mathlib.Data.List.Basic
import Mathlib.Data.List.Induction

/-! # Machines that read a stream

A machine reads one symbol at a time and may reject it; it stops as soon as its
state is final. An outcome keeps the part of the stream that was not read, so
it names the symbol at which the machine stopped. A machine that is fed chunk
by chunk has the outcome of the whole stream.
-/

namespace Foundation

variable {σ α : Type}

/-- How a run over a stream ends. -/
inductive Outcome (σ α : Type) where
  | rejected (unread : List α)
  | complete (state : σ) (unread : List α)
  | waiting (state : σ)
  deriving DecidableEq, Repr

/-- More of the stream, behind what was not read. -/
def Outcome.extend (more : List α) : Outcome σ α → Outcome σ α
  | rejected unread => rejected (unread ++ more)
  | complete state unread => complete state (unread ++ more)
  | waiting state => waiting state

section Machine

variable (step : σ → α → Option σ) (final : σ → Bool)

def consume : σ → List α → Outcome σ α
  | state, [] => .waiting state
  | state, c :: rest =>
      match step state c with
      | none => .rejected rest
      | some next => if final next then .complete next rest else consume next rest

/-- Feed chunks one after the other until the machine stops. -/
def consumeChunks : σ → List (List α) → Outcome σ α
  | state, [] => .waiting state
  | state, chunk :: rest =>
      match consume step final state chunk with
      | .waiting next => consumeChunks next rest
      | outcome => outcome.extend rest.flatten

variable {step final}

/-- A stream may be cut anywhere: the second part goes on in the state the first part waits in. -/
theorem consume_append (state : σ) (first second : List α) :
    consume step final state (first ++ second) =
      match consume step final state first with
      | .waiting next => consume step final next second
      | outcome => outcome.extend second := by
  induction first generalizing state with
  | nil => rfl
  | cons c rest ih =>
      rw [List.cons_append, consume, consume]
      cases step state c with
      | none => rfl
      | some next =>
          by_cases hfinal : final next = true
          · simp only [hfinal, if_true]
            rfl
          · simp only [if_neg hfinal]
            exact ih next

/-- How a stream is split into chunks does not matter. -/
theorem consumeChunks_eq (state : σ) (chunks : List (List α)) :
    consumeChunks step final state chunks = consume step final state chunks.flatten := by
  induction chunks generalizing state with
  | nil => rfl
  | cons chunk rest ih =>
      rw [consumeChunks, List.flatten_cons, consume_append]
      cases consume step final state chunk with
      | rejected unread => rfl
      | complete next unread => rfl
      | waiting next => exact ih next

/-- A relation between the state and what was read, kept by every step, holds at
the end of a run. -/
theorem reads_of_consume {Reads : σ → List α → Prop}
    (hstep : ∀ state seen c next, Reads state seen → final state = false →
      step state c = some next → Reads next (seen ++ [c]))
    {state next : σ} {seen stream unread : List α} (hreads : Reads state seen)
    (hfinal : final state = false)
    (hrun : consume step final state stream = .complete next unread) :
    ∃ text, stream = text ++ unread ∧ Reads next (seen ++ text) := by
  induction stream generalizing state seen with
  | nil => simp [consume] at hrun
  | cons c rest ih =>
      rw [consume] at hrun
      cases hnext : step state c with
      | none => simp [hnext] at hrun
      | some reached =>
          have hreached := hstep state seen c reached hreads hfinal hnext
          simp only [hnext] at hrun
          by_cases hlast : final reached = true
          · simp only [hlast, if_true, Outcome.complete.injEq] at hrun
            obtain ⟨rfl, rfl⟩ := hrun
            exact ⟨[c], rfl, hreached⟩
          · rw [if_neg hlast] at hrun
            obtain ⟨text, rfl, htext⟩ := ih hreached (by simpa using hlast) hrun
            exact ⟨c :: text, rfl, by simpa using htext⟩

/-- What every step keeps holds of the final state. -/
theorem invariant_of_consume (Inv : σ → Prop)
    (hstep : ∀ state c next, Inv state → step state c = some next → Inv next)
    {state next : σ} {stream unread : List α} (hinv : Inv state)
    (hrun : consume step final state stream = .complete next unread) : Inv next := by
  induction stream generalizing state with
  | nil => simp [consume] at hrun
  | cons c rest ih =>
      rw [consume] at hrun
      cases hnext : step state c with
      | none => simp [hnext] at hrun
      | some reached =>
          have hreached := hstep state c reached hinv hnext
          simp only [hnext] at hrun
          split at hrun
          next =>
            simp only [Outcome.complete.injEq] at hrun
            exact hrun.1 ▸ hreached
          next => exact ih hreached hrun

theorem final_of_complete {state next : σ} {stream unread : List α}
    (hrun : consume step final state stream = .complete next unread) : final next = true := by
  induction stream generalizing state with
  | nil => simp [consume] at hrun
  | cons c rest ih =>
      rw [consume] at hrun
      cases hnext : step state c with
      | none => simp [hnext] at hrun
      | some reached =>
          simp only [hnext] at hrun
          split at hrun
          next hlast =>
            simp only [Outcome.complete.injEq] at hrun
            exact hrun.1 ▸ hlast
          next => exact ih hrun

/-! ### Runs that do not stop -/

/-- Reading `text` takes the machine from one state to another without stopping. -/
def Runs (step : σ → α → Option σ) (final : σ → Bool) (state : σ) (text : List α) (next : σ) :
    Prop :=
  ∀ rest, consume step final state (text ++ rest) = consume step final next rest

theorem Runs.refl (state : σ) : Runs step final state [] state := fun _ => rfl

/-- One step that does not end in a final state is a run. -/
theorem Runs.single {state next : σ} {c : α} (hstep : step state c = some next)
    (hfinal : final next = false) : Runs step final state [c] next := by
  intro rest
  rw [List.singleton_append, consume, hstep]
  simp [hfinal]

theorem Runs.append {first second : List α} {state middle next : σ}
    (hfirst : Runs step final state first middle) (hsecond : Runs step final middle second next) :
    Runs step final state (first ++ second) next := by
  intro rest
  rw [List.append_assoc, hfirst, hsecond]

theorem Runs.cons {c : α} {text : List α} {state middle next : σ}
    (hstep : step state c = some middle) (hfinal : final middle = false)
    (hruns : Runs step final middle text next) : Runs step final state (c :: text) next :=
  (Runs.single hstep hfinal).append hruns

/-- Symbol by symbol through states that are given by what was read. -/
theorem Runs.grow {reached : List α → σ} {text : List α}
    (hstep : ∀ seen c rest, text = seen ++ c :: rest →
      step (reached seen) c = some (reached (seen ++ [c])))
    (hfinal : ∀ seen, final (reached seen) = false) :
    Runs step final (reached []) text (reached text) := by
  induction text using List.reverseRecOn with
  | nil => exact .refl _
  | append_singleton text c ih =>
      have hprefix : Runs step final (reached []) text (reached text) :=
        ih fun seen d rest heq => hstep seen d (rest ++ [c]) (by rw [heq]; simp)
      exact hprefix.append (.single (hstep text c [] rfl) (hfinal _))

/-- The last symbol of a text stops the machine. -/
theorem Runs.complete {text : List α} {state middle next : σ} {c : α}
    (hruns : Runs step final state text middle) (hstep : step middle c = some next)
    (hfinal : final next = true) (rest : List α) :
    consume step final state (text ++ c :: rest) = .complete next rest := by
  rw [hruns, consume, hstep]
  simp [hfinal]

end Machine

end Foundation
