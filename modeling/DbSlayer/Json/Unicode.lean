import DbSlayer.Foundation.Utf8
import DbSlayer.Json.Literals

/-! # What a literal means

The meaning that RFC 8259 gives a string: a sequence of Unicode scalar values. The
decoder expands one escape at a time and copies its bytes as a C string, so an
escape of a zero or of a surrogate comes out as something else.
-/

namespace DbSlayer.Json

open Foundation Foundation.Utf8

/-! ## Meaning -/

/-- The character of a one-letter escape. -/
def shortEscape (e : Byte) : Option Char :=
  if e = ch '"' then some '"'
  else if e = ch '\\' then some '\\'
  else if e = ch '/' then some '/'
  else if e = ch 'b' then some '\x08'
  else if e = ch 'f' then some '\x0c'
  else if e = ch 'n' then some '\n'
  else if e = ch 'r' then some '\r'
  else if e = ch 't' then some '\t'
  else none

/-- Values of four digits that are halves of a pair, and no characters. -/
def IsSurrogate (code : Nat) : Prop := 0xD800 ≤ code ∧ code ≤ 0xDFFF

/-- The code point that two surrogates stand for. -/
def pairCode (high low : Nat) : Nat := 0x10000 + (high - 0xD800) * 0x400 + (low - 0xDC00)

/-- The text between the quotes of a string, and the characters it means. A control character
that is not escaped, which the decoder accepts, means itself. A zero, which no C string can
hold, and a surrogate without its partner have no meaning. -/
inductive Means : Bytes → List Char → Prop
  | nil : Means [] []
  | plain {c : Char} {body : Bytes} {text : List Char} : c ≠ '"' → c ≠ '\\' → Means body text →
      Means (String.utf8EncodeChar c ++ body) (c :: text)
  | escape {e : Byte} {c : Char} {body : Bytes} {text : List Char} : shortEscape e = some c →
      Means body text → Means (ch '\\' :: e :: body) (c :: text)
  | unicode {h₁ h₂ h₃ h₄ : Byte} {body : Bytes} {text : List Char} :
      isxdigit h₁ → isxdigit h₂ → isxdigit h₃ → isxdigit h₄ → hexCode h₁ h₂ h₃ h₄ ≠ 0 →
      ¬ IsSurrogate (hexCode h₁ h₂ h₃ h₄) → Means body text →
      Means (ch '\\' :: ch 'u' :: h₁ :: h₂ :: h₃ :: h₄ :: body)
        (Char.ofNat (hexCode h₁ h₂ h₃ h₄) :: text)
  | pair {h₁ h₂ h₃ h₄ l₁ l₂ l₃ l₄ : Byte} {body : Bytes} {text : List Char} :
      isxdigit h₁ → isxdigit h₂ → isxdigit h₃ → isxdigit h₄ →
      isxdigit l₁ → isxdigit l₂ → isxdigit l₃ → isxdigit l₄ →
      0xD800 ≤ hexCode h₁ h₂ h₃ h₄ → hexCode h₁ h₂ h₃ h₄ ≤ 0xDBFF →
      0xDC00 ≤ hexCode l₁ l₂ l₃ l₄ → hexCode l₁ l₂ l₃ l₄ ≤ 0xDFFF → Means body text →
      Means (ch '\\' :: ch 'u' :: h₁ :: h₂ :: h₃ :: h₄ ::
          ch '\\' :: ch 'u' :: l₁ :: l₂ :: l₃ :: l₄ :: body)
        (Char.ofNat (pairCode (hexCode h₁ h₂ h₃ h₄) (hexCode l₁ l₂ l₃ l₄)) :: text)

/-- The values of the `\u` escapes of a literal. -/
def unicodeEscapes : Bytes → List Nat
  | [] => []
  | c :: rest =>
      if c = ch '\\' then
        match rest with
        | [] => []
        | e :: rest =>
            if e = ch 'u' then
              match rest with
              | h₁ :: h₂ :: h₃ :: h₄ :: rest => hexCode h₁ h₂ h₃ h₄ :: unicodeEscapes rest
              | _ => []
            else unicodeEscapes rest
      else unicodeEscapes rest

/-- The escapes that the decoder turns into the characters they mean. -/
def PlainEscapes (body : Bytes) : Prop :=
  ∀ code ∈ unicodeEscapes body, code ≠ 0 ∧ ¬ IsSurrogate code

/-! ## Bytes of characters -/

theorem toNat_ofNat_of_not_surrogate {code : Nat} (hlt : code < 0x110000)
    (hscalar : ¬ IsSurrogate code) : (Char.ofNat code).toNat = code := by
  have hvalid : code.isValidChar := by
    unfold Nat.isValidChar
    unfold IsSurrogate at hscalar
    omega
  rw [Char.ofNat, dif_pos hvalid]
  rfl

/-- The encoder of the escapes agrees with UTF-8 on characters. -/
theorem slayerEscaped2utf8_eq {code : Nat} (hlt : code < 0x10000) (hscalar : ¬ IsSurrogate code) :
    slayerEscaped2utf8 code = some (String.utf8EncodeChar (Char.ofNat code)) := by
  rw [utf8EncodeChar_eq, toNat_ofNat_of_not_surrogate (by omega) hscalar, slayerEscaped2utf8,
    if_neg (by omega)]
  simp only [continuation]
  by_cases h₁ : code < 0x80
  · rw [if_pos h₁, if_pos (show code ≤ 0x7F by omega)]
  · rw [if_neg h₁, if_neg (show ¬ code ≤ 0x7F by omega)]
    by_cases h₂ : code < 0x800
    · rw [if_pos h₂, if_pos (show code ≤ 0x7FF by omega),
        show code / 64 % 32 + 0xC0 = 0xC0 + code / 2 ^ 6 by omega,
        show code % 64 + 0x80 = 0x80 + code / 2 ^ 0 % 64 by omega]
    · rw [if_neg h₂, if_pos hlt, if_neg (show ¬ code ≤ 0x7FF by omega),
        if_pos (show code ≤ 0xFFFF by omega),
        show code / 4096 % 16 + 0xE0 = 0xE0 + code / 2 ^ 12 by omega,
        show code / 64 % 64 + 0x80 = 0x80 + code / 2 ^ 6 % 64 by omega,
        show code % 64 + 0x80 = 0x80 + code / 2 ^ 0 % 64 by omega]

theorem nulFree_utf8EncodeChar {c : Char} (hc : c.toNat ≠ 0) :
    NulFree (String.utf8EncodeChar c) := by
  intro hzero
  rcases Nat.lt_or_ge c.toNat 128 with hascii | hwide
  · rw [utf8EncodeChar_ascii hascii, List.mem_singleton] at hzero
    have hvalue := congrArg UInt8.toNat hzero
    rw [UInt8.toNat_ofNat_of_lt' (show c.toNat < 256 by omega)] at hvalue
    exact hc hvalue.symm
  · exact absurd (le_of_mem_utf8EncodeChar hwide hzero) (by decide)

/-- The bytes that are written for a code are its UTF-8 encoding, unless it is a surrogate. -/
theorem codeBytes_eq {code : Nat} (hlt : code < 0x10000) (hzero : code ≠ 0)
    (hscalar : ¬ IsSurrogate code) :
    codeBytes code = String.utf8EncodeChar (Char.ofNat code) := by
  rw [codeBytes, slayerEscaped2utf8_eq hlt hscalar, Option.getD_some]
  apply cstr_of_nulFree
  apply nulFree_utf8EncodeChar
  rwa [toNat_ofNat_of_not_surrogate (by omega) hscalar]

/-- A surrogate is encoded in three bytes of which the first starts no character above the
basic plane. -/
theorem codeBytes_surrogate {code : Nat} (hcode : IsSurrogate code) :
    ∃ rest, codeBytes code = 0xED :: rest := by
  obtain ⟨hlow, hhigh⟩ := hcode
  have hlead : UInt8.ofNat (0xE0 + code / 2 ^ 12) = 0xED := by
    rw [show code / 2 ^ 12 = 13 by omega]
    rfl
  rw [codeBytes, slayerEscaped2utf8, if_neg (by omega), if_neg (by omega), if_neg (by omega),
    if_pos (by omega), hlead]
  exact ⟨_, rfl⟩

/-- Beyond the basic plane the lead byte is never the one that surrogates get. -/
theorem utf8EncodeChar_above {c : Char} (hc : 0x10000 ≤ c.toNat) :
    ∃ lead rest, String.utf8EncodeChar c = lead :: rest ∧ lead ≠ 0xED := by
  rw [utf8EncodeChar_eq, if_neg (by omega), if_neg (by omega), if_neg (by omega)]
  refine ⟨_, _, rfl, ?_⟩
  intro hlead
  have hvalue := congrArg UInt8.toNat hlead
  rw [UInt8.toNat_ofNat_of_lt' (show c.toNat / 262144 % 8 + 0xF0 < 256 by omega)] at hvalue
  have hed : (0xED : UInt8).toNat = 237 := rfl
  omega

/-- A surrogate pair stands for a character beyond the basic plane. -/
theorem toNat_pairCode {high low : Nat} (hhigh : 0xD800 ≤ high) (hhigh' : high ≤ 0xDBFF)
    (hlow : 0xDC00 ≤ low) (hlow' : low ≤ 0xDFFF) :
    0x10000 ≤ (Char.ofNat (pairCode high low)).toNat := by
  rw [toNat_ofNat_of_not_surrogate]
  · exact Nat.le_add_right_of_le (Nat.le_add_right _ _)
  · unfold pairCode
    omega
  · unfold IsSurrogate pairCode
    omega

/-- The decoder's table of short escapes is the one of the grammar. -/
theorem escapeByte_eq {e : Byte} :
    (escapeByte e).map (fun byte => [byte]) = (shortEscape e).map String.utf8EncodeChar :=
  forall_byte (p := fun e => (escapeByte e).map (fun byte => [byte]) =
    (shortEscape e).map String.utf8EncodeChar) (by decide +kernel) e

/-- Every byte of a plain character is plain. -/
theorem plain_of_mem_utf8EncodeChar {c : Char} (hquote : c ≠ '"') (hslash : c ≠ '\\') {b : Byte}
    (hb : b ∈ String.utf8EncodeChar c) : b ≠ ch '"' ∧ b ≠ ch '\\' := by
  rcases Nat.lt_or_ge c.toNat 128 with hascii | hwide
  · rw [utf8EncodeChar_ascii hascii, List.mem_singleton] at hb
    have hvalue : b.toNat = c.toNat := by
      rw [hb, UInt8.toNat_ofNat_of_lt' (show c.toNat < 256 by omega)]
    have hother : ∀ d : Char, c ≠ d → c.toNat ≠ d.toNat := by
      intro d hne heq
      exact hne (by rw [← Char.ofNat_toNat c, heq, Char.ofNat_toNat])
    refine ⟨?_, ?_⟩
    · rintro rfl
      exact hother '"' hquote hvalue.symm
    · rintro rfl
      exact hother '\\' hslash hvalue.symm
  · have hle := le_of_mem_utf8EncodeChar hwide hb
    refine ⟨?_, ?_⟩
    · rintro rfl
      exact absurd hle (by decide)
    · rintro rfl
      exact absurd hle (by decide)

/-! ## Taking a literal apart -/

theorem unicodeEscapes_plain {c : Byte} (hslash : c ≠ ch '\\') (rest : Bytes) :
    unicodeEscapes (c :: rest) = unicodeEscapes rest := by
  rw [unicodeEscapes.eq_def]
  simp [hslash]

theorem unicodeEscapes_append {front : Bytes} (hplain : ∀ b ∈ front, b ≠ ch '\\') (rest : Bytes) :
    unicodeEscapes (front ++ rest) = unicodeEscapes rest := by
  induction front with
  | nil => rfl
  | cons b front ih =>
      obtain ⟨hb, hplain⟩ := List.forall_mem_cons.mp hplain
      rw [List.cons_append, unicodeEscapes_plain hb, ih hplain]

theorem unicodeEscapes_escape {e : Byte} (he : e ≠ ch 'u') (rest : Bytes) :
    unicodeEscapes (ch '\\' :: e :: rest) = unicodeEscapes rest := by
  rw [unicodeEscapes.eq_def]
  simp [he]

theorem unicodeEscapes_unicode (h₁ h₂ h₃ h₄ : Byte) (rest : Bytes) :
    unicodeEscapes (ch '\\' :: ch 'u' :: h₁ :: h₂ :: h₃ :: h₄ :: rest) =
      hexCode h₁ h₂ h₃ h₄ :: unicodeEscapes rest := by
  rw [unicodeEscapes.eq_def]
  simp

/-- Plain bytes in front of a body are its content as they are. -/
theorem StringBody.of_append {front body content : Bytes}
    (hplain : ∀ b ∈ front, b ≠ ch '"' ∧ b ≠ ch '\\') (hbody : StringBody (front ++ body) content) :
    ∃ rest, content = front ++ rest ∧ StringBody body rest := by
  induction front generalizing content with
  | nil => exact ⟨content, rfl, hbody⟩
  | cons b front ih =>
      obtain ⟨hb, hplain⟩ := List.forall_mem_cons.mp hplain
      rw [List.cons_append] at hbody
      generalize hmore : front ++ body = more at hbody
      cases hbody with
      | plain hquote hslash hrest =>
          subst hmore
          obtain ⟨rest, rfl, hrest'⟩ := ih hplain hrest
          exact ⟨rest, rfl, hrest'⟩
      | escape => exact absurd rfl hb.2
      | unicode => exact absurd rfl hb.2

theorem StringBody.of_escape {e : Byte} {body content : Bytes} (he : e ≠ ch 'u')
    (hbody : StringBody (ch '\\' :: e :: body) content) :
    ∃ byte rest, escapeByte e = some byte ∧ content = byte :: rest ∧ StringBody body rest := by
  cases hbody with
  | plain hquote hslash => exact absurd rfl hslash
  | escape hbyte hrest => exact ⟨_, _, hbyte, rfl, hrest⟩
  | unicode => exact absurd rfl he

theorem StringBody.of_unicode {h₁ h₂ h₃ h₄ : Byte} {body content : Bytes}
    (hbody : StringBody (ch '\\' :: ch 'u' :: h₁ :: h₂ :: h₃ :: h₄ :: body) content) :
    ∃ rest, content = codeBytes (hexCode h₁ h₂ h₃ h₄) ++ rest ∧ StringBody body rest := by
  cases hbody with
  | plain hquote hslash => exact absurd rfl hslash
  | escape hbyte => exact absurd rfl (escapeByte_isEscape hbyte).2
  | unicode _ _ _ _ hrest => exact ⟨_, rfl, hrest⟩

theorem shortEscape_ne {e : Byte} {c : Char} (he : shortEscape e = some c) : e ≠ ch 'u' := by
  rintro rfl
  have hnone : shortEscape (ch 'u') = none := by decide
  rw [hnone] at he
  cases he

/-! ## The decoder against the meaning -/

theorem shortEscape_of_escapeByte {e byte : Byte} (hbyte : escapeByte e = some byte) :
    ∃ c, shortEscape e = some c ∧ String.utf8EncodeChar c = [byte] := by
  have hsame := @escapeByte_eq e
  rw [hbyte, Option.map_some] at hsame
  exact Option.map_eq_some_iff.mp hsame.symm

theorem isEscape_ascii {c : Byte} : isEscape c = true → c.toNat < 128 :=
  forall_byte (p := fun c => isEscape c = true → c.toNat < 128) (by decide +kernel) c

theorem isxdigit_ascii {c : Byte} : isxdigit c = true → c.toNat < 128 :=
  forall_byte (p := fun c => isxdigit c = true → c.toNat < 128) (by decide +kernel) c

/-- A literal that starts with a plain byte starts with a plain character. -/
theorem exists_plain_of_isUtf8 {b : Byte} {body : Bytes} (hutf8 : IsUtf8 (b :: body))
    (hquote : b ≠ ch '"') (hslash : b ≠ ch '\\') :
    ∃ c rest, c ≠ '"' ∧ c ≠ '\\' ∧ b :: body = String.utf8EncodeChar c ++ rest ∧ IsUtf8 rest := by
  obtain ⟨text, htext⟩ := hutf8
  cases text with
  | nil => cases htext
  | cons c text =>
      rw [utf8_cons] at htext
      refine ⟨c, utf8 text, ?_, ?_, htext, text, rfl⟩
      · rintro rfl
        exact hquote (List.cons.inj htext).1
      · rintro rfl
        exact hslash (List.cons.inj htext).1

/-- What the decoder copies for a literal without an escape that goes wrong. -/
theorem StringBody.means {body content : Bytes} (hbody : StringBody body content)
    (hutf8 : IsUtf8 body) (hescapes : PlainEscapes body) :
    ∃ text, Means body text ∧ content = utf8 text := by
  -- an escape or a character is several bytes, so the induction is on the length
  induction hlength : body.length using Nat.strong_induction_on generalizing body content with
  | _ length ih =>
      subst hlength
      cases hbody with
      | nil => exact ⟨[], .nil, rfl⟩
      | @escape e byte body content hbyte hrest =>
          obtain ⟨c, hshort, hencode⟩ := shortEscape_of_escapeByte hbyte
          obtain ⟨hescape, hletter⟩ := escapeByte_isEscape hbyte
          have hascii : ∀ b ∈ [ch '\\', e], b.toNat < 128 := by
            simp only [List.forall_mem_cons, List.not_mem_nil, false_imp_iff, implies_true]
            exact ⟨by decide, isEscape_ascii hescape, trivial⟩
          have hescapes' : PlainEscapes body := by
            rwa [PlainEscapes, unicodeEscapes_escape hletter] at hescapes
          have hshorter : body.length < (ch '\\' :: e :: body).length := by
            simp only [List.length_cons]
            omega
          obtain ⟨text, hmeans, rfl⟩ := ih body.length hshorter hrest
            (@IsUtf8.of_ascii_append [ch '\\', e] body hascii hutf8) hescapes' rfl
          exact ⟨c :: text, .escape hshort hmeans, by rw [utf8_cons, hencode]; rfl⟩
      | @unicode h₁ h₂ h₃ h₄ body content hx₁ hx₂ hx₃ hx₄ hrest =>
          rw [PlainEscapes, unicodeEscapes_unicode, List.forall_mem_cons] at hescapes
          obtain ⟨⟨hzero, hscalar⟩, hescapes'⟩ := hescapes
          have hascii : ∀ b ∈ [ch '\\', ch 'u', h₁, h₂, h₃, h₄], b.toNat < 128 := by
            simp only [List.forall_mem_cons, List.not_mem_nil, false_imp_iff, implies_true]
            exact ⟨by decide, by decide, isxdigit_ascii hx₁, isxdigit_ascii hx₂,
              isxdigit_ascii hx₃, isxdigit_ascii hx₄, trivial⟩
          have hshorter : body.length <
              (ch '\\' :: ch 'u' :: h₁ :: h₂ :: h₃ :: h₄ :: body).length := by
            simp only [List.length_cons]
            omega
          obtain ⟨text, hmeans, rfl⟩ := ih body.length hshorter hrest
            (@IsUtf8.of_ascii_append [ch '\\', ch 'u', h₁, h₂, h₃, h₄] body hascii hutf8)
            hescapes' rfl
          refine ⟨_, .unicode hx₁ hx₂ hx₃ hx₄ hzero hscalar hmeans, ?_⟩
          rw [utf8_cons, codeBytes_eq (hexCode_lt hx₁ hx₂ hx₃ hx₄) hzero hscalar]
      | @plain b body content hquote hslash hrest =>
          have hwhole := StringBody.plain hquote hslash hrest
          obtain ⟨c, rest, hquote', hslash', hsplit, hutf8'⟩ :=
            exists_plain_of_isUtf8 hutf8 hquote hslash
          have hplain : ∀ b ∈ String.utf8EncodeChar c, b ≠ ch '"' ∧ b ≠ ch '\\' :=
            fun _ => plain_of_mem_utf8EncodeChar hquote' hslash'
          rw [hsplit] at hwhole ih hescapes ⊢
          obtain ⟨content', hcontent, hrest'⟩ := hwhole.of_append hplain
          rw [PlainEscapes, unicodeEscapes_append fun b hb => (hplain b hb).2] at hescapes
          have hshorter : rest.length < (String.utf8EncodeChar c ++ rest).length := by
            have hpos := List.length_pos_iff.mpr (@String.utf8EncodeChar_ne_nil c)
            rw [List.length_append]
            omega
          obtain ⟨text, hmeans, rfl⟩ := ih rest.length hshorter hrest' hutf8' hescapes rfl
          exact ⟨c :: text, .plain hquote' hslash' hmeans, hcontent⟩

/-- A literal whose copy is what it means has no escape that goes wrong. -/
theorem Means.plainEscapes {body content : Bytes} {text : List Char} (hmeans : Means body text)
    (hbody : StringBody body content) (hcontent : content = utf8 text) : PlainEscapes body := by
  induction hmeans generalizing content with
  | nil => simp [PlainEscapes, unicodeEscapes]
  | @plain c body text hquote hslash _ ih =>
      have hplain : ∀ b ∈ String.utf8EncodeChar c, b ≠ ch '"' ∧ b ≠ ch '\\' :=
        fun _ => plain_of_mem_utf8EncodeChar hquote hslash
      obtain ⟨rest, rfl, hrest⟩ := hbody.of_append hplain
      rw [PlainEscapes, unicodeEscapes_append fun b hb => (hplain b hb).2]
      exact ih hrest (List.append_cancel_left hcontent)
  | @escape e c body text hshort _ ih =>
      obtain ⟨byte, rest, hbyte, rfl, hrest⟩ := hbody.of_escape (shortEscape_ne hshort)
      obtain ⟨c', hshort', hencode⟩ := shortEscape_of_escapeByte hbyte
      obtain rfl : c = c' := Option.some.inj (hshort.symm.trans hshort')
      rw [utf8_cons, hencode] at hcontent
      rw [PlainEscapes, unicodeEscapes_escape (shortEscape_ne hshort)]
      exact ih hrest (List.cons.inj hcontent).2
  | unicode hx₁ hx₂ hx₃ hx₄ hzero hscalar _ ih =>
      obtain ⟨rest, rfl, hrest⟩ := hbody.of_unicode
      rw [utf8_cons, codeBytes_eq (hexCode_lt hx₁ hx₂ hx₃ hx₄) hzero hscalar] at hcontent
      rw [PlainEscapes, unicodeEscapes_unicode, List.forall_mem_cons]
      exact ⟨⟨hzero, hscalar⟩, ih hrest (List.append_cancel_left hcontent)⟩
  | pair _ _ _ _ _ _ _ _ hhigh hhigh' hlow hlow' _ _ =>
      -- the two halves were encoded one by one
      obtain ⟨rest, rfl, -⟩ := hbody.of_unicode
      obtain ⟨halves, hhalves⟩ := codeBytes_surrogate ⟨hhigh, hhigh'.trans (by decide)⟩
      obtain ⟨lead, more, hlead, hne⟩ :=
        utf8EncodeChar_above (toNat_pairCode hhigh hhigh' hlow hlow')
      rw [utf8_cons, hhalves, hlead, List.cons_append, List.cons_append] at hcontent
      exact absurd (List.cons.inj hcontent).1.symm hne

/-! ## Whole texts -/

theorem escapeByte_ne_zero {e byte : Byte} (hbyte : escapeByte e = some byte) : byte ≠ 0 := by
  rintro rfl
  exact forall_byte (p := fun e => escapeByte e ≠ some 0) (by decide +kernel) e hbyte

/-- The content of a body without zero bytes has none, whatever codes its escapes write. -/
theorem StringBody.nulFree {body content : Bytes} (hbody : StringBody body content)
    (hfree : NulFree body) : NulFree content := by
  induction hbody with
  | nil => exact hfree
  | plain _ _ _ ih =>
      rw [nulFree_cons] at hfree ⊢
      exact ⟨hfree.1, ih hfree.2⟩
  | escape hbyte _ ih =>
      rw [nulFree_cons, nulFree_cons] at hfree
      rw [nulFree_cons]
      exact ⟨escapeByte_ne_zero hbyte, ih hfree.2.2⟩
  | unicode _ _ _ _ _ ih =>
      simp only [nulFree_cons] at hfree
      rw [nulFree_append]
      exact ⟨nulFree_cstr _, ih hfree.2.2.2.2.2.2⟩

/-- The C string that is returned for a literal is the UTF-8 form of what it means. -/
def Faithful (body : Bytes) : Prop :=
  ∃ text, Means body text ∧ cstr (literalContent body) = utf8 text

/-- A literal is decoded faithfully exactly when its escapes are plain, by induction on the
literal. -/
theorem faithful_iff {body : Bytes} (hliteral : IsLiteral body) (hfree : NulFree body)
    (hutf8 : IsUtf8 body) : Faithful body ↔ PlainEscapes body := by
  have hbody := hliteral.stringBody
  rw [Faithful, cstr_of_nulFree (hbody.nulFree hfree)]
  constructor
  · rintro ⟨text, hmeans, hcontent⟩
    exact hmeans.plainEscapes hbody hcontent
  · exact hbody.means hutf8

/-- A literal of a valid text is a valid text. -/
theorem LiteralTextOf.literal {depth : Nat} {ast : Ast} {text : Bytes}
    (htext : LiteralTextOf depth ast text) (hfree : NulFree text) (hutf8 : IsUtf8 text)
    {body : Bytes} (hbody : body ∈ ast.strings) :
    IsLiteral body ∧ NulFree body ∧ IsUtf8 body := by
  obtain ⟨hliteral, front, back, rfl⟩ := htext.mem_strings hbody
  refine ⟨hliteral, ?_, ?_⟩
  · intro hzero
    exact hfree (by simp [hzero])
  · have hquote : (ch '"').toNat < 128 := by decide
    rw [List.append_assoc, List.cons_append, List.append_assoc, List.singleton_append] at hutf8
    exact ((hutf8.cut hquote).2.cut hquote).1

variable {δ : Type} [CDouble δ]

/-- The strings and names that are returned for a text are what its literals mean exactly when
none of them has an escape of a zero or of a surrogate. -/
theorem decodeJson_faithful_iff (s : Bytes) (size : Int32) (hfree : NulFree s)
    (hsize : size.toInt = strlen s) (hutf8 : IsUtf8 s) :
    ((∃ value : JsonValue δ, decodeJson s size = some value) ↔
        ∃ literal, LiteralTextOf jsonMaxDepth literal s) ∧
      ∀ literal, LiteralTextOf jsonMaxDepth literal s →
        decodeJson s size = some ((literal.mapStrings literalContent).denote (δ := δ)) ∧
        ((∀ body ∈ literal.strings, Faithful body) ↔
          ∀ body ∈ literal.strings, PlainEscapes body) := by
  refine ⟨⟨?_, ?_⟩, ?_⟩
  · rintro ⟨value, hvalue⟩
    obtain ⟨ast, htext, -⟩ := decodeJson_sound hfree hsize hvalue
    obtain ⟨literal, hliteral, -⟩ := htext.exists_literal
    exact ⟨literal, hliteral⟩
  · rintro ⟨literal, hliteral⟩
    exact ⟨_, decodeJson_complete hfree hsize hliteral.textOf⟩
  · intro literal hliteral
    refine ⟨decodeJson_complete hfree hsize hliteral.textOf, ?_⟩
    have heach : ∀ body ∈ literal.strings, (Faithful body ↔ PlainEscapes body) := by
      intro body hbody
      obtain ⟨hbody, hfree', hutf8'⟩ := hliteral.literal hfree hutf8 hbody
      exact faithful_iff hbody hfree' hutf8'
    exact forall₂_congr heach

/-- A character of two bytes, escaped. -/
theorem decodeJson_faithful_accent :
    PlainEscapes (bytes "\\u00e9") ∧ Faithful (bytes "\\u00e9") := by
  have hliteral : IsLiteral (bytes "\\u00e9") :=
    ⟨_, .unicode rfl rfl rfl rfl .nil⟩
  have htext : LiteralTextOf jsonMaxDepth (.string (bytes "\\u00e9")) (bytes "\"\\u00e9\"") :=
    ⟨[], _, [], by simp [Blank], by simp [Blank], .inl (.string hliteral), rfl⟩
  have hescapes : PlainEscapes (bytes "\\u00e9") := by
    unfold PlainEscapes IsSurrogate
    decide
  have hfaithful := (@decodeJson_faithful_iff Bytes _ (bytes "\"\\u00e9\"") 8 (by decide)
    (by decide) ⟨['"', '\\', 'u', '0', '0', 'e', '9', '"'], by decide⟩).2 _ htext
  refine ⟨hescapes, hfaithful.2.mpr ?_ _ List.mem_cons_self⟩
  intro body hbody
  rwa [List.mem_singleton.mp hbody]

/-- A pair of surrogates comes out as two encoded surrogates, and a zero as nothing. -/
theorem decodeJson_unfaithful :
    decodeJson (bytes "\"\\ud83d\\ude00\"") 14 =
        some (.string [0xED, 0xA0, 0xBD, 0xED, 0xB8, 0x80] : JsonValue Bytes) ∧
      Means (bytes "\\ud83d\\ude00") [Char.ofNat 0x1F600] ∧
      utf8 [Char.ofNat 0x1F600] = [0xF0, 0x9F, 0x98, 0x80] ∧
      decodeJson (bytes "\"a\\u0000b\"") 10 = some (.string (bytes "ab") : JsonValue Bytes) ∧
      ¬ Faithful (bytes "\\ud83d\\ude00") ∧ ¬ Faithful (bytes "a\\u0000b") := by
  have hpair : IsLiteral (bytes "\\ud83d\\ude00") :=
    ⟨_, .unicode rfl rfl rfl rfl (.unicode rfl rfl rfl rfl .nil)⟩
  have hzero : IsLiteral (bytes "a\\u0000b") :=
    ⟨_, .plain (by decide) (by decide)
      (.unicode rfl rfl rfl rfl (.plain (by decide) (by decide) .nil))⟩
  have hdecode : ∀ (body : Bytes) (size : Int32), IsLiteral body →
      NulFree (ch '"' :: (body ++ [ch '"'])) → size.toInt = strlen (ch '"' :: (body ++ [ch '"'])) →
      decodeJson (ch '"' :: (body ++ [ch '"'])) size =
        some (.string (cstr (literalContent body)) : JsonValue Bytes) := by
    intro body size hbody hfree hsize
    have htext : LiteralTextOf jsonMaxDepth (.string body) (ch '"' :: (body ++ [ch '"'])) :=
      ⟨[], _, [], by simp [Blank], by simp [Blank], .inl (.string hbody), by simp⟩
    exact decodeJson_complete hfree hsize htext.textOf
  refine ⟨?_, ?_, by decide +kernel, ?_, ?_, ?_⟩
  · have hcopied : cstr (literalContent (bytes "\\ud83d\\ude00")) =
        [0xED, 0xA0, 0xBD, 0xED, 0xB8, 0x80] := by decide +kernel
    have hdecoded := hdecode _ 14 hpair (by decide) (by decide)
    rw [hcopied] at hdecoded
    exact hdecoded
  · exact .pair rfl rfl rfl rfl rfl rfl rfl rfl (by decide +kernel) (by decide +kernel)
      (by decide +kernel) (by decide +kernel) .nil
  · have hcopied : cstr (literalContent (bytes "a\\u0000b")) = bytes "ab" := by decide +kernel
    have hdecoded := hdecode _ 10 hzero (by decide) (by decide)
    rw [hcopied] at hdecoded
    exact hdecoded
  · intro hfaithful
    have hescapes := (faithful_iff hpair (by decide)
      ⟨"\\ud83d\\ude00".toList, by decide⟩).mp hfaithful 0xD83D (by decide +kernel)
    exact hescapes.2 ⟨by decide, by decide⟩
  · intro hfaithful
    have hescapes := (faithful_iff hzero (by decide)
      ⟨"a\\u0000b".toList, by decide⟩).mp hfaithful 0 (by decide +kernel)
    exact hescapes.1 rfl

end DbSlayer.Json
