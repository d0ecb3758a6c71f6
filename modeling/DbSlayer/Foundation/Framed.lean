import Mathlib.Data.List.Basic
import Mathlib.Data.List.Infix

/-! # Messages with a head of lines and a body of known length

The head ends with an empty line and says how long the body is. What was written
reads back, and a reader can tell a message from every shorter part of it.
-/

namespace Foundation.Framed

variable {α : Type} [DecidableEq α] (cr lf : α)

/-- The text in front of the first line end, and what is behind it. -/
def readLine : List α → Option (List α × List α)
  | [] => none
  | c :: rest =>
      if c = cr ∧ rest.head? = some lf then some ([], rest.tail)
      else (readLine rest).map fun (line, left) => (c :: line, left)

/-- The lines in front of the first empty one, and what is behind it. -/
def readHead : Nat → List α → Option (List (List α) × List α)
  | 0, _ => none
  | fuel + 1, text =>
      match readLine cr lf text with
      | none => none
      | some ([], body) => some ([], body)
      | some (line, left) =>
          (readHead fuel left).map fun (lines, body) => (line :: lines, body)

def writeHead (lines : List (List α)) : List α :=
  lines.flatMap (fun line => line ++ [cr, lf]) ++ [cr, lf]

/-- The head and as much behind it as the head announces. -/
def read (lengthOf : List (List α) → Option Nat) (text : List α) :
    Option (List (List α) × List α) := do
  let (lines, body) ← readHead cr lf (text.length + 1) text
  let length ← lengthOf lines
  if length ≤ body.length then some (lines, body.take length) else none

variable {cr lf} {line text left more : List α} {lines : List (List α)} {body : List α}

/-- A written line is read back, and nothing behind it is touched. -/
theorem readLine_write (hline : cr ∉ line) (rest : List α) :
    readLine cr lf (line ++ cr :: lf :: rest) = some (line, rest) := by
  induction line with
  | nil => simp [readLine]
  | cons c line ih =>
      have hne : ¬ (c = cr ∧ (line ++ cr :: lf :: rest).head? = some lf) := by
        rintro ⟨rfl, -⟩
        exact hline List.mem_cons_self
      rw [List.cons_append, readLine, if_neg hne, ih fun hcr => hline (List.mem_cons_of_mem c hcr)]
      rfl

/-- A complete line stays the first one when more arrives. -/
theorem readLine_append (hread : readLine cr lf text = some (line, left)) :
    readLine cr lf (text ++ more) = some (line, left ++ more) := by
  induction text generalizing line with
  | nil => cases hread
  | cons c rest ih =>
      rw [readLine] at hread
      rw [List.cons_append, readLine]
      split at hread
      next hend =>
        cases hread
        cases rest with
        | nil => simp at hend
        | cons d rest => rw [if_pos (by simpa using hend)]; rfl
      next hend =>
        obtain ⟨⟨first, behind⟩, hrest, heq⟩ := Option.map_eq_some_iff.mp hread
        cases heq
        have hend' : ¬ (c = cr ∧ (rest ++ more).head? = some lf) := by
          cases rest with
          | nil => simp [readLine] at hrest
          | cons d rest => simpa using hend
        rw [if_neg hend', ih hrest]
        rfl

/-- A written head is read back line by line. The fuel is the number of lines that may be
read, and one more than were written is enough. -/
theorem readHead_write (hlines : ∀ line ∈ lines, line ≠ [] ∧ cr ∉ line) {fuel : Nat}
    (hfuel : lines.length < fuel) :
    readHead cr lf fuel (writeHead cr lf lines ++ body) = some (lines, body) := by
  induction lines generalizing fuel with
  | nil =>
      obtain ⟨fuel, rfl⟩ := Nat.exists_eq_add_of_lt hfuel
      simp [readHead, writeHead, readLine]
  | cons line lines ih =>
      obtain ⟨fuel, rfl⟩ : ∃ more, fuel = more + 1 := ⟨fuel - 1, by omega⟩
      obtain ⟨hne, hcr⟩ := hlines line List.mem_cons_self
      have hrest := ih (fun other hother => hlines other (List.mem_cons_of_mem line hother))
        (Nat.lt_of_succ_lt_succ hfuel)
      have hwrite : writeHead cr lf (line :: lines) ++ body =
          line ++ cr :: lf :: (writeHead cr lf lines ++ body) := by simp [writeHead]
      rw [readHead, hwrite, readLine_write hcr]
      obtain ⟨c, rest, rfl⟩ := List.exists_cons_of_ne_nil hne
      simp [hrest]

/-- More fuel and more text behind the body change nothing about the lines that were read. -/
theorem readHead_append {fuel fuel' : Nat} (hle : fuel ≤ fuel')
    (hread : readHead cr lf fuel text = some (lines, body)) :
    readHead cr lf fuel' (text ++ more) = some (lines, body ++ more) := by
  induction fuel generalizing text lines fuel' with
  | zero => cases hread
  | succ fuel ih =>
      obtain ⟨fuel', rfl⟩ : ∃ less, fuel' = less + 1 := ⟨fuel' - 1, by omega⟩
      rw [readHead] at hread ⊢
      split at hread
      next => cases hread
      next hline =>
        cases hread
        rw [readLine_append hline]
      next line left hne hline =>
        obtain ⟨⟨rest, behind⟩, hrest, heq⟩ := Option.map_eq_some_iff.mp hread
        cases heq
        have hmore := ih (Nat.le_of_succ_le_succ hle) hrest
        rw [readLine_append hline]
        obtain ⟨c, tail, rfl⟩ := List.exists_cons_of_ne_nil (l := line) hne
        simp [hmore]

section Message

variable {lengthOf : List (List α) → Option Nat}

omit [DecidableEq α] in
/-- A written head is longer than the number of its lines, which bounds the fuel. -/
theorem length_lt_writeHead (cr lf : α) (lines : List (List α)) :
    lines.length < (writeHead cr lf lines).length := by
  induction lines with
  | nil => simp [writeHead]
  | cons line lines ih =>
      simp only [writeHead, List.flatMap_cons, List.append_assoc, List.length_append,
        List.length_cons, List.length_nil] at ih ⊢
      omega

/-- What was written reads back. -/
theorem read_write (hlines : ∀ line ∈ lines, line ≠ [] ∧ cr ∉ line)
    (hlength : lengthOf lines = some body.length) :
    read cr lf lengthOf (writeHead cr lf lines ++ body) = some (lines, body) := by
  have hfuel : lines.length < (writeHead cr lf lines ++ body).length + 1 := by
    have hhead := length_lt_writeHead cr lf lines
    rw [List.length_append]
    omega
  rw [read, readHead_write hlines hfuel]
  simp [hlength]

/-- No shorter part of a message reads as a message. -/
theorem eq_of_read_isSome (hlines : ∀ line ∈ lines, line ≠ [] ∧ cr ∉ line)
    (hlength : lengthOf lines = some body.length) {part : List α}
    (hpart : part <+: writeHead cr lf lines ++ body)
    (hread : (read cr lf lengthOf part).isSome = true) :
    part = writeHead cr lf lines ++ body := by
  obtain ⟨more, hmore⟩ := hpart
  obtain ⟨message, hmessage⟩ := Option.isSome_iff_exists.mp hread
  obtain ⟨⟨head, rest⟩, hhead, hmessage⟩ := Option.bind_eq_some_iff.mp hmessage
  obtain ⟨length, hannounced, hmessage⟩ := Option.bind_eq_some_iff.mp hmessage
  have hfuel : lines.length < (part ++ more).length + 1 := by
    have hlines := length_lt_writeHead cr lf lines
    rw [hmore, List.length_append]
    omega
  -- the head of the part is the head of the whole
  have hwhole : readHead cr lf ((part ++ more).length + 1) (part ++ more) =
      some (head, rest ++ more) :=
    readHead_append (by rw [List.length_append]; omega) hhead
  have hwritten : readHead cr lf ((part ++ more).length + 1) (part ++ more) =
      some (lines, body) := by
    rw [hmore]
    rw [hmore] at hfuel
    exact readHead_write hlines hfuel
  obtain ⟨rfl, hbody⟩ := Prod.mk.inj (Option.some.inj (hwhole.symm.trans hwritten))
  obtain rfl := Option.some.inj (hannounced.symm.trans hlength)
  split at hmessage
  next hle =>
    have hnil : more = [] := by
      apply List.length_eq_zero_iff.mp
      rw [← hbody, List.length_append] at hle
      omega
    rw [← hmore, hnil, List.append_nil]
  next => cases hmessage

end Message

end Foundation.Framed
