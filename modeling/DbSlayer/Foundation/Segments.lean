import DbSlayer.Foundation.Scan

/-! # Segments behind separators

A list of segments written out with a separator in front of each of them. When the
segments are free of the separator, cutting the text in front of a separator cuts
the list of segments.
-/

namespace Foundation.Segments

variable {α : Type*} {sep : α}

/-- The segments, each behind a separator. -/
def joined (sep : α) (segments : List (List α)) : List α := segments.flatMap (sep :: ·)

theorem joined_append (first second : List (List α)) :
    joined sep (first ++ second) = joined sep first ++ joined sep second := List.flatMap_append

/-- Every segment is written behind its own separator. -/
theorem joined_cons (segment : List α) (rest : List (List α)) :
    joined sep (segment :: rest) = sep :: (segment ++ joined sep rest) := by
  simp [joined]

variable [DecidableEq α]

/-- Nothing, or a separator first. -/
def AtBoundary (sep : α) (rest : List α) : Prop := Stops (fun c => decide (c ≠ sep)) rest

/-- A joined path starts with a separator or is empty. -/
theorem atBoundary_joined (segments : List (List α)) : AtBoundary sep (joined sep segments) := by
  cases segments with
  | nil => exact stops_nil
  | cons segment rest =>
      rw [joined_cons]
      exact stops_cons.mpr (by simp)

/-- Segments in front of a text at a boundary leave it at a boundary. -/
theorem AtBoundary.joined_append {rest : List α} (hrest : AtBoundary sep rest)
    (segments : List (List α)) : AtBoundary sep (joined sep segments ++ rest) := by
  cases segments with
  | nil => exact hrest
  | cons segment segments =>
      rw [joined_cons]
      exact stops_cons.mpr (by simp)

/-- The first segment of a text reaches to its next boundary. -/
theorem segment_unique {segment other rest rest' : List α} (hsegment : sep ∉ segment)
    (hother : sep ∉ other) (hrest : AtBoundary sep rest) (hrest' : AtBoundary sep rest')
    (heq : segment ++ rest = other ++ rest') : segment = other ∧ rest = rest' := by
  have hfree : ∀ {s : List α}, sep ∉ s → ∀ c ∈ s, decide (c ≠ sep) = true := by
    intro s hs c hc
    have hne : c ≠ sep := fun heq => hs (heq ▸ hc)
    simpa using hne
  have htake := congrArg (List.takeWhile fun c => decide (c ≠ sep)) heq
  rw [takeWhile_append_stops (hfree hsegment) hrest,
    takeWhile_append_stops (hfree hother) hrest'] at htake
  subst htake
  exact ⟨rfl, List.append_cancel_left heq⟩

/-- One text is the other one up to a boundary exactly when its segments come first. -/
theorem joined_prefix_iff {first second : List (List α)} (hfirst : ∀ segment ∈ first, sep ∉ segment)
    (hsecond : ∀ segment ∈ second, sep ∉ segment) :
    (∃ rest, joined sep second = joined sep first ++ rest ∧ AtBoundary sep rest) ↔
      first <+: second := by
  refine ⟨?_, ?_⟩
  · rintro ⟨rest, heq, hrest⟩
    induction first generalizing second with
    | nil => exact List.nil_prefix
    | cons segment first ih =>
        cases second with
        | nil => simp [joined] at heq
        | cons other second =>
            rw [joined_cons, joined_cons, List.cons_append, List.append_assoc] at heq
            obtain ⟨hsegment, hsegments⟩ := List.forall_mem_cons.mp hfirst
            obtain ⟨hother, hothers⟩ := List.forall_mem_cons.mp hsecond
            obtain ⟨rfl, htail⟩ := segment_unique hother hsegment (atBoundary_joined second)
              (hrest.joined_append first) (List.cons.inj heq).2
            exact List.cons_prefix_cons.mpr ⟨rfl, ih hsegments hothers htail⟩
  · rintro ⟨more, rfl⟩
    exact ⟨joined sep more, joined_append first more, atBoundary_joined more⟩

end Foundation.Segments
