import Mathlib.Data.List.TakeWhile

/-! # Scanning a maximal run

A hand-written scanner advances over the longest run of symbols of one class.
The run is determined by its members and by the symbol behind it.
-/

namespace Foundation

variable {α : Type*} {p : α → Bool}

/-- A text that does not start with a symbol of the class. -/
def Stops (p : α → Bool) (rest : List α) : Prop := ∀ c, rest.head? = some c → p c = false

@[simp] theorem stops_nil : Stops p [] := by
  intro c hc
  simp at hc

/-- A scan stops in front of a letter exactly when the letter fails the test. -/
@[simp] theorem stops_cons {c : α} {rest : List α} : Stops p (c :: rest) ↔ p c = false := by
  simp [Stops]

/-- Where a scan stops at once, nothing is dropped. -/
theorem Stops.dropWhile_eq {rest : List α} (hstops : Stops p rest) :
    rest.dropWhile p = rest := by
  cases rest with
  | nil => rfl
  | cons c rest => rw [List.dropWhile_cons_of_neg (by simp [stops_cons.mp hstops])]

theorem Stops.takeWhile_eq {rest : List α} (hstops : Stops p rest) :
    rest.takeWhile p = [] := by
  cases rest with
  | nil => rfl
  | cons c rest => rw [List.takeWhile_cons_of_neg (by simp [stops_cons.mp hstops])]

/-- A letter behind a text that is not empty does not change where the scan stops. -/
theorem Stops.concat {text : List α} {c : α} (hstops : Stops p text) (hne : text ≠ []) :
    Stops p (text ++ [c]) := by
  cases text with
  | nil => exact absurd rfl hne
  | cons d rest => exact stops_cons.mpr (stops_cons.mp hstops)

/-- A run of the class in front of a stop is what the scanner takes. -/
theorem takeWhile_append_stops {run rest : List α} (hrun : ∀ c ∈ run, p c = true)
    (hstops : Stops p rest) : (run ++ rest).takeWhile p = run := by
  rw [List.takeWhile_append_of_pos hrun, hstops.takeWhile_eq, List.append_nil]

/-- A scan drops exactly the run in front of the place where it stops. -/
theorem dropWhile_append_stops {run rest : List α} (hrun : ∀ c ∈ run, p c = true)
    (hstops : Stops p rest) : (run ++ rest).dropWhile p = rest := by
  rw [List.dropWhile_append_of_pos hrun, hstops.dropWhile_eq]

theorem stops_dropWhile (s : List α) : Stops p (s.dropWhile p) := by
  intro c hc
  have hhead := List.head?_dropWhile_not p s
  rw [hc] at hhead
  simpa using hhead

/-- Every text is a run of the class followed by a stop. -/
theorem exists_run (p : α → Bool) (s : List α) :
    ∃ run rest, s = run ++ rest ∧ (∀ c ∈ run, p c = true) ∧ Stops p rest :=
  ⟨s.takeWhile p, s.dropWhile p, List.takeWhile_append_dropWhile.symm,
    fun _ hc => List.mem_takeWhile_imp hc, stops_dropWhile s⟩

end Foundation
