import Mathlib.Data.List.Basic

/-! # UTF-8

Texts of Unicode scalar values as byte strings. The bytes of a character other
than an ASCII one are all above the ASCII range, so an ASCII byte in a valid text
is a character of its own, and the text may be cut around it.
-/

namespace Foundation.Utf8

/-- The bytes of a text. -/
def utf8 (text : List Char) : List UInt8 := text.flatMap String.utf8EncodeChar

/-- Bytes that are the bytes of a text. -/
def IsUtf8 (bytes : List UInt8) : Prop := ∃ text, bytes = utf8 text

@[simp] theorem utf8_nil : utf8 [] = [] := rfl

@[simp] theorem utf8_cons (c : Char) (text : List Char) :
    utf8 (c :: text) = String.utf8EncodeChar c ++ utf8 text := List.flatMap_cons

/-- Texts are encoded one after the other. -/
@[simp] theorem utf8_append (first second : List Char) :
    utf8 (first ++ second) = utf8 first ++ utf8 second := List.flatMap_append

/-! ## One character -/

/-- The encoding of a character by the number of its bytes, with the bytes written out. -/
theorem utf8EncodeChar_eq (c : Char) :
    String.utf8EncodeChar c =
      if c.toNat ≤ 0x7F then [UInt8.ofNat c.toNat]
      else if c.toNat ≤ 0x7FF then
        [UInt8.ofNat (c.toNat / 64 % 32 + 0xC0), UInt8.ofNat (c.toNat % 64 + 0x80)]
      else if c.toNat ≤ 0xFFFF then
        [UInt8.ofNat (c.toNat / 4096 % 16 + 0xE0), UInt8.ofNat (c.toNat / 64 % 64 + 0x80),
          UInt8.ofNat (c.toNat % 64 + 0x80)]
      else
        [UInt8.ofNat (c.toNat / 262144 % 8 + 0xF0), UInt8.ofNat (c.toNat / 4096 % 64 + 0x80),
          UInt8.ofNat (c.toNat / 64 % 64 + 0x80), UInt8.ofNat (c.toNat % 64 + 0x80)] := rfl

theorem utf8EncodeChar_ascii {c : Char} (hc : c.toNat < 128) :
    String.utf8EncodeChar c = [UInt8.ofNat c.toNat] := by
  rw [utf8EncodeChar_eq, if_pos (Nat.le_of_lt_succ hc)]

/-- No byte of another character is in the ASCII range. -/
theorem le_of_mem_utf8EncodeChar {c : Char} (hc : 128 ≤ c.toNat) {b : UInt8}
    (hb : b ∈ String.utf8EncodeChar c) : 128 ≤ b.toNat := by
  have hlead : ∀ n m k : Nat, n % m + k < 256 → 128 ≤ k →
      128 ≤ (UInt8.ofNat (n % m + k)).toNat := by
    intro n m k hlt hk
    rw [UInt8.toNat_ofNat_of_lt' hlt]
    exact Nat.le_add_left_of_le hk
  rw [utf8EncodeChar_eq, if_neg (by omega)] at hb
  split_ifs at hb
  all_goals simp only [List.mem_cons, List.not_mem_nil, or_false] at hb
  · rcases hb with rfl | rfl
    · exact hlead _ _ _ (by omega) (by omega)
    · exact hlead _ _ _ (by omega) (by omega)
  · rcases hb with rfl | rfl | rfl
    · exact hlead _ _ _ (by omega) (by omega)
    · exact hlead _ _ _ (by omega) (by omega)
    · exact hlead _ _ _ (by omega) (by omega)
  · rcases hb with rfl | rfl | rfl | rfl
    · exact hlead _ _ _ (by omega) (by omega)
    · exact hlead _ _ _ (by omega) (by omega)
    · exact hlead _ _ _ (by omega) (by omega)
    · exact hlead _ _ _ (by omega) (by omega)

/-! ## Cutting a text -/

theorem isUtf8_nil : IsUtf8 [] := ⟨[], rfl⟩

theorem IsUtf8.append {first second : List UInt8} (hfirst : IsUtf8 first)
    (hsecond : IsUtf8 second) : IsUtf8 (first ++ second) := by
  obtain ⟨text, rfl⟩ := hfirst
  obtain ⟨more, rfl⟩ := hsecond
  exact ⟨text ++ more, (utf8_append text more).symm⟩

/-- An ASCII byte cuts a valid text into valid texts. -/
theorem IsUtf8.cut {front back : List UInt8} {b : UInt8} (hb : b.toNat < 128)
    (htext : IsUtf8 (front ++ b :: back)) : IsUtf8 front ∧ IsUtf8 back := by
  obtain ⟨text, htext⟩ := htext
  induction text generalizing front with
  | nil => simp at htext
  | cons c text ih =>
      rw [utf8_cons] at htext
      rcases Nat.lt_or_ge c.toNat 128 with hc | hc
      · rw [utf8EncodeChar_ascii hc, List.singleton_append] at htext
        cases front with
        | nil =>
            obtain ⟨-, rfl⟩ := List.cons.inj htext
            exact ⟨isUtf8_nil, text, rfl⟩
        | cons d front =>
            obtain ⟨rfl, hrest⟩ := List.cons.inj htext
            obtain ⟨hfront, hback⟩ := ih hrest
            refine ⟨?_, hback⟩
            have hone : IsUtf8 [UInt8.ofNat c.toNat] := ⟨[c], by simp [utf8EncodeChar_ascii hc]⟩
            exact hone.append hfront
      · -- the byte is none of the character's, so the character is in front of it
        rcases List.append_eq_append_iff.mp htext with ⟨rest, hchar, hback⟩ | ⟨rest, rfl, hrest⟩
        · have hmem : ∀ x ∈ rest, 128 ≤ x.toNat := fun x hx =>
            le_of_mem_utf8EncodeChar hc (hchar ▸ List.mem_append_right _ hx)
          cases rest with
          | nil =>
              rw [List.append_nil] at hchar
              obtain ⟨-, hback'⟩ := @ih [] hback
              exact ⟨⟨[c], by simp [hchar]⟩, hback'⟩
          | cons x rest =>
              obtain ⟨rfl, -⟩ := List.cons.inj hback
              exact absurd (hmem b List.mem_cons_self) (by omega)
        · obtain ⟨hfront, hback⟩ := ih hrest.symm
          refine ⟨?_, hback⟩
          have hone : IsUtf8 (String.utf8EncodeChar c) := ⟨[c], by simp⟩
          exact hone.append hfront

/-- What stands behind an ASCII text is valid when the whole is. -/
theorem IsUtf8.of_ascii_append {front back : List UInt8} (hfront : ∀ b ∈ front, b.toNat < 128)
    (htext : IsUtf8 (front ++ back)) : IsUtf8 back := by
  induction front with
  | nil => exact htext
  | cons b front ih =>
      obtain ⟨hb, hfront⟩ := List.forall_mem_cons.mp hfront
      exact ih hfront (@IsUtf8.cut [] (front ++ back) b hb htext).2

end Foundation.Utf8
