import DbSlayer.Foundation.Scan
import DbSlayer.Foundation.SortedAssoc

/-! # C strings

Byte strings and the parts of `ctype.h` and `string.h` that the sources use, in
the C locale. A pointer into a buffer is modelled by the bytes that follow it,
up to the end of the buffer; the byte at the end is the terminator, so running
off the end of a list reads zero.
-/

namespace DbSlayer

abbrev Byte := UInt8
abbrev Bytes := List UInt8

/-- The byte of an ASCII character. -/
def ch (c : Char) : Byte := c.val.toUInt8

/-- The bytes of an ASCII string constant. -/
def bytes (s : String) : Bytes := s.toList.map ch

def isspace (c : Byte) : Bool :=
  c = ch ' ' || (9 ≤ c && c ≤ 13)

def isdigit (c : Byte) : Bool := ch '0' ≤ c && c ≤ ch '9'

def isxdigit (c : Byte) : Bool :=
  isdigit c || (ch 'a' ≤ c && c ≤ ch 'f') || (ch 'A' ≤ c && c ≤ ch 'F')

def tolower (c : Byte) : Byte :=
  if ch 'A' ≤ c && c ≤ ch 'Z' then c + 32 else c

/-- A property of bytes that can be tested holds when it holds of all 256 of them. -/
theorem forall_byte {p : Byte → Prop} [DecidablePred p]
    (htable : (List.range 256).all (fun n => decide (p (UInt8.ofNat n))) = true) (c : Byte) :
    p c := by
  have hlt : c.toNat < 256 := c.toNat_lt
  have htest := List.all_eq_true.mp htable c.toNat (List.mem_range.mpr hlt)
  simpa using htest

/-- What a C reader sees of a buffer: everything before the first zero byte. -/
def cstr (s : Bytes) : Bytes := s.takeWhile (· ≠ 0)

def strlen (s : Bytes) : Nat := (cstr s).length

/-- The difference of the first bytes that differ, as unsigned characters. -/
def strcmp : Bytes → Bytes → Int
  | [], [] => 0
  | [], b :: _ => -(b.toNat : Int)
  | a :: _, [] => a.toNat
  | a :: as, b :: bs =>
      if a = b ∧ a ≠ 0 then strcmp as bs else (a.toNat : Int) - b.toNat

/-- `strncmp`: no byte behind the first `n` is compared. -/
def strncmp (s t : Bytes) (n : Nat) : Int := strcmp (s.take n) (t.take n)

/-- `strstr`: the string from the first occurrence of another one on. -/
def strstr (s t : Bytes) : Option Bytes := (cstr s).tails.find? ((cstr t).isPrefixOf ·)

/-- `strchr` for a character that is not zero: the string from its first occurrence on. -/
def strchr (s : Bytes) (c : Byte) : Option Bytes :=
  if c ∈ cstr s then some ((cstr s).dropWhile (· ≠ c)) else none

def strcasecmp (s t : Bytes) : Int := strcmp (s.map tolower) (t.map tolower)

/-- Byte strings that a C string can hold. -/
def NulFree (s : Bytes) : Prop := 0 ∉ s

instance (s : Bytes) : Decidable (NulFree s) := inferInstanceAs (Decidable (0 ∉ s))

@[simp] theorem nulFree_nil : NulFree [] := List.not_mem_nil

@[simp] theorem nulFree_cons {c : Byte} {s : Bytes} :
    NulFree (c :: s) ↔ c ≠ 0 ∧ NulFree s := by
  simp [NulFree, eq_comm]

@[simp] theorem nulFree_append {s t : Bytes} :
    NulFree (s ++ t) ↔ NulFree s ∧ NulFree t := by
  simp [NulFree]

/-- A string without a zero byte is its own C string. -/
theorem cstr_of_nulFree {s : Bytes} (hfree : NulFree s) : cstr s = s := by
  rw [cstr, List.takeWhile_eq_self_iff]
  intro c hc
  have hne : c ≠ 0 := fun heq => hfree (heq ▸ hc)
  simpa using hne

/-- The C string of a text starts with every part in front of its first zero byte. -/
theorem cstr_append {s : Bytes} (hfree : NulFree s) (t : Bytes) : cstr (s ++ t) = s ++ cstr t := by
  rw [cstr, List.takeWhile_append_of_pos]
  · rfl
  · intro c hc
    have hne : c ≠ 0 := fun heq => hfree (heq ▸ hc)
    simpa using hne

/-- What is behind a terminator does not belong to the string. -/
theorem cstr_append_zero (s t : Bytes) : cstr (s ++ 0 :: t) = cstr s := by
  induction s with
  | nil => simp [cstr]
  | cons c rest ih =>
      unfold cstr at ih ⊢
      rw [List.cons_append, List.takeWhile_cons, List.takeWhile_cons, ih]

theorem strlen_of_nulFree {s : Bytes} (hfree : NulFree s) : strlen s = s.length := by
  rw [strlen, cstr_of_nulFree hfree]

theorem nulFree_cstr (s : Bytes) : NulFree (cstr s) := by
  intro hmem
  have hne := List.mem_takeWhile_imp hmem
  simp at hne

theorem take_strlen (s : Bytes) : s.take (strlen s) = cstr s :=
  (List.prefix_iff_eq_take.mp (List.takeWhile_prefix _)).symm

/-- A text with a zero byte goes on behind what is read of it. -/
theorem exists_cstr_append_zero {s : Bytes} (hzero : ¬ NulFree s) :
    ∃ rest, s = cstr s ++ 0 :: rest := by
  have hsplit : cstr s ++ s.dropWhile (· ≠ 0) = s := List.takeWhile_append_dropWhile
  cases hrest : s.dropWhile (· ≠ 0) with
  | nil =>
      rw [hrest, List.append_nil] at hsplit
      exact absurd (hsplit ▸ nulFree_cstr s) hzero
  | cons c rest =>
      have hstops : Foundation.Stops (fun c : Byte => c ≠ 0) (c :: rest) :=
        hrest ▸ Foundation.stops_dropWhile s
      obtain rfl : c = 0 := by simpa using Foundation.stops_cons.mp hstops
      exact ⟨rest, by rw [← hrest, hsplit]⟩

/-- The first place of a byte is behind a part that does not have it. -/
theorem strchr_append {s t : Bytes} {c : Byte} (hs : NulFree s) (hc : c ≠ 0) (ht : NulFree t)
    (hfirst : c ∉ s) : strchr (s ++ c :: t) c = some (c :: t) := by
  have hfree : NulFree (s ++ c :: t) := by simp [hs, hc, ht]
  have hpass : ∀ x ∈ s, decide (x ≠ c) = true := by
    intro x hx
    have hne : x ≠ c := fun heq => hfirst (heq ▸ hx)
    simpa using hne
  rw [strchr, cstr_of_nulFree hfree, if_pos (by simp), List.dropWhile_append_of_pos hpass,
    List.dropWhile_cons_of_neg (by simp)]

theorem strlen_cstr (s : Bytes) : strlen (cstr s) = strlen s := by
  rw [strlen, cstr_of_nulFree (nulFree_cstr s), strlen]

/-- Exchanging the strings turns the sign, as for every comparison. -/
theorem strcmp_neg (s t : Bytes) : strcmp t s = -strcmp s t := by
  induction s generalizing t with
  | nil => cases t <;> simp [strcmp]
  | cons a s ih =>
      cases t with
      | nil => simp [strcmp]
      | cons b t =>
          by_cases heq : a = b ∧ a ≠ 0
          · obtain ⟨rfl, hne⟩ := heq
            simp [strcmp, hne, ih]
          · have heq' : ¬ (b = a ∧ b ≠ 0) := fun h => heq ⟨h.1.symm, h.1 ▸ h.2⟩
            simp only [strcmp, if_neg heq, if_neg heq']
            omega

/-- What `strcmp` puts in order stays in order over a third string. -/
theorem strcmp_le_trans (r s t : Bytes) (hrs : strcmp r s ≤ 0) (hst : strcmp s t ≤ 0) :
    strcmp r t ≤ 0 := by
  induction r generalizing s t with
  | nil =>
      cases t with
      | nil => simp [strcmp]
      | cons c t => simp [strcmp]
  | cons a r ih =>
      cases s with
      | nil =>
          -- `a` compares at most the terminator, so it is one.
          have ha : a.toNat = 0 := by simpa [strcmp] using hrs
          cases t with
          | nil => simp [strcmp, ha]
          | cons c t =>
              have hzero : ¬ (a = c ∧ a ≠ 0) :=
                fun h => h.2 (UInt8.toNat_inj.mp (by simpa using ha))
              simp [strcmp, hzero, ha]
      | cons b s =>
          cases t with
          | nil =>
              have hb : b.toNat = 0 := by simpa [strcmp] using hst
              have hzero : ¬ (a = b ∧ a ≠ 0) := by
                rintro ⟨rfl, hne⟩
                exact hne (UInt8.toNat_inj.mp (by simpa using hb))
              simp only [strcmp, if_neg hzero] at hrs ⊢
              omega
          | cons c t =>
              simp only [strcmp] at hrs hst ⊢
              by_cases hab : a = b ∧ a ≠ 0
              · obtain ⟨rfl, hne⟩ := hab
                by_cases hac : a = c
                · subst c
                  simp only [hne, ne_eq, not_false_eq_true, and_self, if_true] at hrs hst ⊢
                  exact ih s t hrs hst
                · simp only [hac, false_and, if_false] at hst ⊢
                  exact hst
              · rw [if_neg hab] at hrs
                by_cases hbc : b = c ∧ b ≠ 0
                · obtain ⟨rfl, _⟩ := hbc
                  rw [if_neg hab]
                  exact hrs
                · rw [if_neg hbc] at hst
                  have hac : ¬ (a = c ∧ a ≠ 0) := by
                    rintro ⟨rfl, hne⟩
                    have hba : b = a := UInt8.toNat_inj.mp (by omega)
                    exact hab ⟨hba.symm, hne⟩
                  rw [if_neg hac]
                  omega

/-- `strcmp` compares as the tables of the skip lists expect it: exchanging the strings turns
the sign, and the order is transitive. -/
theorem strcmp_order : Foundation.CmpOrder strcmp where
  swap s t := by
    rw [strcmp_neg s t]
    omega
  trans := strcmp_le_trans

/-- C strings that compare equal are the same bytes. -/
theorem strcmp_eq_zero_iff {s t : Bytes} (hs : NulFree s) (ht : NulFree t) :
    strcmp s t = 0 ↔ s = t := by
  induction s generalizing t with
  | nil =>
      cases t with
      | nil => simp [strcmp]
      | cons b t =>
          have hb := (nulFree_cons.mp ht).1
          have hb' : b.toNat ≠ 0 := fun h => hb (UInt8.toNat_inj.mp (by simpa using h))
          simp [strcmp, hb']
  | cons a s ih =>
      have ha := (nulFree_cons.mp hs).1
      have ha' : a.toNat ≠ 0 := fun h => ha (UInt8.toNat_inj.mp (by simpa using h))
      cases t with
      | nil => simp [strcmp, ha']
      | cons b t =>
          by_cases hab : a = b
          · subst b
            simp [strcmp, ha, ih (nulFree_cons.mp hs).2 (nulFree_cons.mp ht).2]
          · have hne : (a.toNat : Int) - b.toNat ≠ 0 := by
              intro hzero
              exact hab (UInt8.toNat_inj.mp (by omega))
            simp [strcmp, hab, hne]

end DbSlayer
