import DbSlayer.CLib.Strings

/-! # Cutting a string into tokens

`apr_strtok` with one separator. It works inside a buffer: positions are offsets,
and a separator behind a token is overwritten by a zero byte.
-/

namespace DbSlayer

open Foundation

/-- What a call leaves: the buffer, the start of the token and `*last`. -/
structure Strtok where
  buffer : Bytes
  token : Nat
  last : Nat
  deriving DecidableEq, Repr

/-- `apr_strtok` from a position on, `none` where it returns a null pointer. -/
def aprStrtok (sep : Byte) (buffer : Bytes) (str : Nat) : Option Strtok :=
  let token := str + ((buffer.drop str).takeWhile (· = sep)).length
  match buffer.drop token with
  | [] => none
  | c :: rest =>
      if c = 0 then none
      else
        let last := token + 1 + (rest.takeWhile fun c => c ≠ 0 ∧ c ≠ sep).length
        if buffer.getD last 0 = 0 then some ⟨buffer, token, last⟩
        else some ⟨buffer.set last 0, token, last + 1⟩

/-- The calls `apr_strtok(NULL, sep, &last)` up to the first null pointer: the buffer
and where the tokens start. -/
def strtokAll (sep : Byte) : Nat → Bytes → Nat → Bytes × List Nat
  | 0, buffer, _ => (buffer, [])
  | fuel + 1, buffer, str =>
      match aprStrtok sep buffer str with
      | none => (buffer, [])
      | some cut =>
          let (buffer, tokens) := strtokAll sep fuel cut.buffer cut.last
          (buffer, cut.token :: tokens)

/-! ## One token -/

section Token

variable {sep : Byte} {front gap word back : Bytes}

/-- Bytes of a token. -/
def WordBytes (sep : Byte) (word : Bytes) : Prop := ∀ c ∈ word, c ≠ 0 ∧ c ≠ sep

/-- Behind a token, the separators that are skipped are the whole gap. -/
theorem drop_gap (hgap : ∀ c ∈ gap, c = sep) (hback : Stops (· = sep) back) :
    ((front ++ (gap ++ back)).drop front.length).takeWhile (· = sep) = gap := by
  rw [List.drop_left]
  exact takeWhile_append_stops (by simpa using hgap) hback

/-- Nothing but separators in front of the terminator. -/
theorem aprStrtok_gap (front : Bytes) (hsep : sep ≠ 0) (hgap : ∀ c ∈ gap, c = sep)
    (hback : Stops (· ≠ 0) back) :
    aprStrtok sep (front ++ (gap ++ back)) front.length = none := by
  have hstops : Stops (· = sep) back := by
    intro c hc
    have hzero : c = 0 := by simpa using hback c hc
    simp [hzero, hsep.symm]
  have hdrop : (front ++ (gap ++ back)).drop (front.length + gap.length) = back := by simp
  rw [aprStrtok, drop_gap hgap hstops]
  dsimp only
  rw [hdrop]
  cases back with
  | nil => rfl
  | cons c rest =>
      have hzero : c = 0 := by simpa using hback c rfl
      simp [hzero]

/-- What the call looks at: the separators, the token and the byte behind it. -/
theorem aprStrtok_eq (hgap : ∀ c ∈ gap, c = sep) (hne : word ≠ []) (hword : WordBytes sep word)
    (hback : Stops (fun c => c ≠ 0 ∧ c ≠ sep) back) :
    aprStrtok sep (front ++ (gap ++ (word ++ back))) front.length =
      if back.headD 0 = 0 then
        some ⟨front ++ (gap ++ (word ++ back)), front.length + gap.length,
          front.length + gap.length + word.length⟩
      else
        some ⟨front ++ (gap ++ (word ++ 0 :: back.tail)), front.length + gap.length,
          front.length + gap.length + word.length + 1⟩ := by
  obtain ⟨c, rest, rfl⟩ := List.exists_cons_of_ne_nil hne
  obtain ⟨hzero, hother⟩ := hword c List.mem_cons_self
  have hstops : Stops (· = sep) (c :: rest ++ back) := stops_cons.mpr (by simpa using hother)
  have hdrop : (front ++ (gap ++ (c :: rest ++ back))).drop (front.length + gap.length) =
      c :: (rest ++ back) := by simp
  have hrest : (rest ++ back).takeWhile (fun c => c ≠ 0 ∧ c ≠ sep) = rest := by
    refine takeWhile_append_stops ?_ hback
    intro d hd
    simpa using hword d (List.mem_cons_of_mem c hd)
  have hlast : front.length + gap.length + 1 + rest.length =
      front.length + gap.length + (c :: rest).length := by
    rw [List.length_cons]
    omega
  rw [aprStrtok, drop_gap hgap hstops]
  dsimp only
  rw [hdrop]
  dsimp only
  rw [if_neg hzero, hrest, hlast]
  have hbuffer : front ++ (gap ++ (c :: rest ++ back)) = (front ++ gap ++ c :: rest) ++ back := by
    simp
  have hlength : front.length + gap.length + (c :: rest).length =
      (front ++ gap ++ c :: rest).length := by
    rw [List.length_append, List.length_append]
  rw [hbuffer, hlength]
  cases back with
  | nil => simp [List.getD]
  | cons d more => simp [List.getD]

/-- A token that ends at the terminator. -/
theorem aprStrtok_word (front : Bytes) (hgap : ∀ c ∈ gap, c = sep) (hne : word ≠ [])
    (hword : WordBytes sep word) (hback : Stops (· ≠ 0) back) :
    aprStrtok sep (front ++ (gap ++ (word ++ back))) front.length =
      some ⟨front ++ (gap ++ (word ++ back)), front.length + gap.length,
        front.length + gap.length + word.length⟩ := by
  have hhead : back.headD 0 = 0 := by
    cases back with
    | nil => rfl
    | cons c rest => simpa using hback c rfl
  rw [aprStrtok_eq hgap hne hword, if_pos hhead]
  intro c hc
  have hzero : c = 0 := by simpa using hback c hc
  simp [hzero]

/-- A token that ends at a separator, which is overwritten. -/
theorem aprStrtok_cut (front : Bytes) (hsep : sep ≠ 0) (hgap : ∀ c ∈ gap, c = sep)
    (hne : word ≠ []) (hword : WordBytes sep word) (rest : Bytes) :
    aprStrtok sep (front ++ (gap ++ (word ++ sep :: rest))) front.length =
      some ⟨front ++ (gap ++ (word ++ 0 :: rest)), front.length + gap.length,
        front.length + gap.length + word.length + 1⟩ := by
  rw [aprStrtok_eq hgap hne hword (stops_cons.mpr (by simp)), List.headD_cons, if_neg hsep,
    List.tail_cons]

/-- A text without zero bytes as one call sees it. -/
inductive FirstToken (sep : Byte) : Bytes → Prop
  | gap {gap : Bytes} : (∀ c ∈ gap, c = sep) → FirstToken sep gap
  | word {gap word : Bytes} : (∀ c ∈ gap, c = sep) → word ≠ [] → WordBytes sep word →
      FirstToken sep (gap ++ word)
  | cut {gap word rest : Bytes} : (∀ c ∈ gap, c = sep) → word ≠ [] → WordBytes sep word →
      NulFree rest → FirstToken sep (gap ++ (word ++ sep :: rest))

/-- One call of `apr_strtok` on a fresh string finds its first token, or nothing but
separators, in which case it returns NULL. -/
theorem firstToken (sep : Byte) {s : Bytes} (hfree : NulFree s) : FirstToken sep s := by
  obtain ⟨gap, body, rfl, hgap, hstops⟩ := exists_run (· = sep) s
  obtain ⟨word, rest, rfl, hword, hend⟩ := exists_run (· ≠ sep) body
  obtain ⟨-, hword', hrest⟩ : NulFree gap ∧ NulFree word ∧ NulFree rest := by simpa using hfree
  have hgap' : ∀ c ∈ gap, c = sep := by simpa using hgap
  have hbytes : WordBytes sep word := by
    intro c hc
    exact ⟨fun heq => hword' (heq ▸ hc), by simpa using hword c hc⟩
  cases word with
  | nil =>
      cases rest with
      | nil => simpa using FirstToken.gap hgap'
      | cons c rest =>
          -- the byte behind the separators is both a separator and none
          have hin : c = sep := by simpa using stops_cons.mp hend
          have hout : c ≠ sep := by simpa using stops_cons.mp hstops
          exact absurd hin hout
  | cons d more =>
      cases rest with
      | nil => simpa using FirstToken.word hgap' (by simp) hbytes
      | cons c rest =>
          obtain rfl : c = sep := by simpa using stops_cons.mp hend
          exact .cut hgap' (by simp) hbytes (nulFree_cons.mp hrest).2

end Token

/-! ## All tokens -/

/-- The tokens of a text: its pieces between separators that are not empty. -/
def tokensOf (sep : Byte) (s : Bytes) : List Bytes := (s.splitOn sep).filter (· ≠ [])

/-- How tokens lie in a buffer: each ends at a zero byte or at the end. -/
inductive Layout : Nat → Bytes → List Nat → List Bytes → Prop
  | gap {base : Nat} {gap : Bytes} : Layout base gap [] []
  | last {base : Nat} {gap token : Bytes} : token ≠ [] → NulFree token →
      Layout base (gap ++ token) [base + gap.length] [token]
  | cons {base : Nat} {gap token rest : Bytes} {starts : List Nat} {tokens : List Bytes} :
      token ≠ [] → NulFree token →
      Layout (base + gap.length + token.length + 1) rest starts tokens →
      Layout base (gap ++ (token ++ 0 :: rest)) ((base + gap.length) :: starts) (token :: tokens)

theorem Layout.length_le {base : Nat} {text : Bytes} {starts : List Nat} {tokens : List Bytes}
    (hlayout : Layout base text starts tokens) : starts.length ≤ text.length := by
  induction hlayout with
  | gap => exact Nat.zero_le _
  | last hne _ =>
      have hpos := List.length_pos_iff.mpr hne
      simp only [List.length_cons, List.length_nil, List.length_append]
      omega
  | cons _ _ _ ih =>
      simp only [List.length_cons, List.length_append]
      omega

theorem tokensOf_gap {sep : Byte} {gap : Bytes} (hgap : ∀ c ∈ gap, c = sep) (rest : Bytes) :
    tokensOf sep (gap ++ rest) = tokensOf sep rest := by
  induction gap with
  | nil => rfl
  | cons c gap ih =>
      obtain rfl := hgap c List.mem_cons_self
      rw [← ih fun d hd => hgap d (List.mem_cons_of_mem c hd), tokensOf, List.cons_append,
        List.splitOn_cons_eq_if_modifyHead]
      simp [tokensOf]

theorem not_mem_of_wordBytes {sep : Byte} {word : Bytes} (hword : WordBytes sep word) :
    sep ∉ word := fun hmem => (hword sep hmem).2 rfl

theorem tokensOf_word {sep : Byte} {word : Bytes} (hne : word ≠ []) (hword : WordBytes sep word) :
    tokensOf sep word = [word] := by
  rw [tokensOf, List.splitOn_eq_singleton (not_mem_of_wordBytes hword)]
  simp [hne]

/-- The token in front of a separator is the first one, and the rest is cut alike. -/
theorem tokensOf_cut {sep : Byte} {word : Bytes} (hne : word ≠ []) (hword : WordBytes sep word)
    (rest : Bytes) : tokensOf sep (word ++ sep :: rest) = word :: tokensOf sep rest := by
  rw [tokensOf, List.splitOn_append_cons_self_of_not_mem (not_mem_of_wordBytes hword)]
  simp [tokensOf, hne]

theorem nulFree_of_wordBytes {sep : Byte} {word : Bytes} (hword : WordBytes sep word) :
    NulFree word := fun hmem => (hword 0 hmem).1 rfl

/-- The calls find the tokens of the text that is left and write only there. -/
theorem strtokAll_layout {sep : Byte} (hsep : sep ≠ 0) {fuel : Nat} (front : Bytes) {s : Bytes}
    (hfree : NulFree s) (hfuel : s.length < fuel) :
    ∃ text starts, strtokAll sep fuel (front ++ s) front.length = (front ++ text, starts) ∧
      text.length = s.length ∧ Layout front.length text starts (tokensOf sep s) := by
  induction fuel generalizing front s with
  | zero => omega
  | succ fuel ih =>
      cases firstToken sep hfree with
      | gap hgap =>
          have hnone := aprStrtok_gap front hsep hgap stops_nil
          have hempty : tokensOf sep s = [] := by
            have hall := tokensOf_gap hgap []
            rw [List.append_nil] at hall
            rw [hall]
            rfl
          rw [List.append_nil] at hnone
          rw [hempty]
          exact ⟨s, [], by rw [strtokAll, hnone], rfl, .gap⟩
      | @word gap word hgap hne hword =>
          have hcut := aprStrtok_word front hgap hne hword stops_nil
          have hdone : aprStrtok sep (front ++ (gap ++ word))
              (front.length + gap.length + word.length) = none := by
            have hnone := aprStrtok_gap (front ++ (gap ++ word)) hsep
              (List.forall_mem_nil (· = sep)) stops_nil
            rw [List.append_nil, List.append_nil] at hnone
            rw [← hnone]
            simp [Nat.add_assoc]
          simp only [List.append_nil] at hcut
          rw [tokensOf_gap hgap, tokensOf_word hne hword]
          refine ⟨gap ++ word, [front.length + gap.length], ?_, rfl,
            .last hne (nulFree_of_wordBytes hword)⟩
          rw [strtokAll, hcut]
          -- the next call starts at the terminator
          cases fuel with
          | zero => rfl
          | succ fuel =>
              dsimp only
              rw [strtokAll, hdone]
      | @cut gap word rest hgap hne hword hrest =>
          have hcut := aprStrtok_cut front hsep hgap hne hword rest
          simp only [List.length_append, List.length_cons] at hfuel
          obtain ⟨text, starts, hrun, hlength, hlayout⟩ :=
            ih (front ++ (gap ++ (word ++ [0]))) hrest (by omega)
          have hbuffer : front ++ (gap ++ (word ++ 0 :: rest)) =
              front ++ (gap ++ (word ++ [0])) ++ rest := by simp
          have hbase : (front ++ (gap ++ (word ++ [0]))).length =
              front.length + gap.length + word.length + 1 := by
            simp [Nat.add_assoc]
          rw [hbase] at hrun hlayout
          rw [tokensOf_gap hgap, tokensOf_cut hne hword]
          refine ⟨gap ++ (word ++ 0 :: text), (front.length + gap.length) :: starts, ?_, ?_,
            .cons hne (nulFree_of_wordBytes hword) hlayout⟩
          · rw [strtokAll, hcut]
            dsimp only
            rw [hbuffer, hrun]
            simp
          · simp [hlength]

end DbSlayer
