import DbSlayer.Json.Grammar

/-! # Strings of the decoder

`decodeJsonString` makes two passes over the text. The measuring pass takes the
letter behind a backslash only, the copying pass takes the four digits of a
`\u` escape as well. They find the same closing quote, because a hexadecimal
digit is neither a quote nor a backslash.
-/

namespace DbSlayer.Json

theorem isxdigit_plain {c : Byte} :
    isxdigit c = true → c ≠ 0 ∧ c ≠ ch '"' ∧ c ≠ ch '\\' :=
  forall_byte (p := fun c => isxdigit c = true → c ≠ 0 ∧ c ≠ ch '"' ∧ c ≠ ch '\\')
    (by decide +kernel) c

/-- The three tests of `slayer_hex2int` on a digit cover the hex digits. -/
theorem hexDigit_eq {c : Byte} : isxdigit c = true →
    (ch 'a' ≤ c ∧ c ≤ ch 'f' ∧ c.toNat - 97 + 10 = hexDigit c) ∨
      (¬ (ch 'a' ≤ c ∧ c ≤ ch 'f') ∧ ch 'A' ≤ c ∧ c ≤ ch 'F' ∧ c.toNat - 65 + 10 = hexDigit c) ∨
      (¬ (ch 'a' ≤ c ∧ c ≤ ch 'f') ∧ ¬ (ch 'A' ≤ c ∧ c ≤ ch 'F') ∧ ch '0' ≤ c ∧ c ≤ ch '9' ∧
        c.toNat - 48 = hexDigit c) :=
  forall_byte (p := fun c => isxdigit c = true →
    (ch 'a' ≤ c ∧ c ≤ ch 'f' ∧ c.toNat - 97 + 10 = hexDigit c) ∨
      (¬ (ch 'a' ≤ c ∧ c ≤ ch 'f') ∧ ch 'A' ≤ c ∧ c ≤ ch 'F' ∧ c.toNat - 65 + 10 = hexDigit c) ∨
      (¬ (ch 'a' ≤ c ∧ c ≤ ch 'f') ∧ ¬ (ch 'A' ≤ c ∧ c ≤ ch 'F') ∧ ch '0' ≤ c ∧ c ≤ ch '9' ∧
        c.toNat - 48 = hexDigit c)) (by decide +kernel) c

theorem hexDigit_lt {c : Byte} : isxdigit c = true → hexDigit c < 16 :=
  forall_byte (p := fun c => isxdigit c = true → hexDigit c < 16) (by decide +kernel) c

/-- The loop adds the value of the digit at its place. -/
theorem slayerHex2intLoop_cons {c : Byte} {rest : Bytes} {result : Nat}
    (hc : isxdigit c = true) :
    slayerHex2intLoop (c :: rest) result =
      slayerHex2intLoop rest (result + 16 ^ rest.length * hexDigit c) := by
  rw [slayerHex2intLoop]
  rcases hexDigit_eq hc with ⟨hlow, hhigh, hvalue⟩ | ⟨hnot, hlow, hhigh, hvalue⟩ |
    ⟨hnot, hnot', hlow, hhigh, hvalue⟩
  · rw [if_pos ⟨hlow, hhigh⟩, hvalue]
  · rw [if_neg hnot, if_pos ⟨hlow, hhigh⟩, hvalue]
  · rw [if_neg hnot, if_neg hnot', if_pos ⟨hlow, hhigh⟩, hvalue]

theorem isxdigit_of_slayerHex2intLoop {code : Bytes} {result value : Nat}
    (hloop : slayerHex2intLoop code result = some value) : ∀ c ∈ code, isxdigit c = true := by
  induction code generalizing result with
  | nil => simp
  | cons c rest ih =>
      have hc : isxdigit c = true := by
        by_contra hnot
        simp only [isxdigit, isdigit, Bool.or_eq_true, Bool.and_eq_true, decide_eq_true_eq,
          not_or] at hnot
        rw [slayerHex2intLoop, if_neg hnot.1.2, if_neg hnot.2, if_neg hnot.1.1] at hloop
        simp at hloop
      rw [slayerHex2intLoop_cons hc] at hloop
      intro d hd
      rcases List.mem_cons.mp hd with rfl | hrest
      · exact hc
      · exact ih hloop d hrest

/-- Four hex digits have the value of the code they write. -/
theorem slayerHex2int_eq {h₁ h₂ h₃ h₄ : Byte} (hx₁ : isxdigit h₁ = true)
    (hx₂ : isxdigit h₂ = true) (hx₃ : isxdigit h₃ = true) (hx₄ : isxdigit h₄ = true) :
    slayerHex2int [h₁, h₂, h₃, h₄] = some (hexCode h₁ h₂ h₃ h₄) := by
  have hfree : NulFree [h₁, h₂, h₃, h₄] := by
    simp [(isxdigit_plain hx₁).1, (isxdigit_plain hx₂).1, (isxdigit_plain hx₃).1,
      (isxdigit_plain hx₄).1]
  rw [slayerHex2int, cstr_of_nulFree hfree, slayerHex2intLoop_cons hx₁,
    slayerHex2intLoop_cons hx₂, slayerHex2intLoop_cons hx₃, slayerHex2intLoop_cons hx₄,
    Nat.zero_add]
  rfl

theorem hexCode_lt {h₁ h₂ h₃ h₄ : Byte} (hx₁ : isxdigit h₁ = true) (hx₂ : isxdigit h₂ = true)
    (hx₃ : isxdigit h₃ = true) (hx₄ : isxdigit h₄ = true) : hexCode h₁ h₂ h₃ h₄ < 0x10000 := by
  have hlt₁ := hexDigit_lt hx₁
  have hlt₂ := hexDigit_lt hx₂
  have hlt₃ := hexDigit_lt hx₃
  have hlt₄ := hexDigit_lt hx₄
  rw [hexCode]
  omega

/-- Four hexadecimal digits always have a UTF-8 form. -/
theorem slayerEscaped2utf8_hexCode {h₁ h₂ h₃ h₄ : Byte} (hx₁ : isxdigit h₁ = true)
    (hx₂ : isxdigit h₂ = true) (hx₃ : isxdigit h₃ = true) (hx₄ : isxdigit h₄ = true) :
    ∃ encode, slayerEscaped2utf8 (hexCode h₁ h₂ h₃ h₄) = some encode ∧
      codeBytes (hexCode h₁ h₂ h₃ h₄) = cstr encode := by
  have hsmall : ¬ hexCode h₁ h₂ h₃ h₄ > 0x7FFFFFFF := by
    have hlt := hexCode_lt hx₁ hx₂ hx₃ hx₄
    omega
  have hsome : (slayerEscaped2utf8 (hexCode h₁ h₂ h₃ h₄)).isSome = true := by
    simp only [slayerEscaped2utf8, if_neg hsmall]
    split_ifs <;> rfl
  obtain ⟨encode, hencode⟩ := Option.isSome_iff_exists.mp hsome
  exact ⟨encode, hencode, by simp [codeBytes, hencode]⟩

/-- What stands for a byte is an escape and not `\u`. -/
theorem escapeByte_isEscape {c byte : Byte} (hbyte : escapeByte c = some byte) :
    isEscape c = true ∧ c ≠ ch 'u' :=
  forall_byte (p := fun c => (escapeByte c).isSome = true → isEscape c = true ∧ c ≠ ch 'u')
    (by decide +kernel) c (by simp [hbyte])

theorem slash_ne_quote : ch '\\' ≠ ch '"' := by decide

theorem measureString_plain {c : Byte} {rest : Bytes} (hquote : c ≠ ch '"')
    (hslash : c ≠ ch '\\') :
    measureString (c :: rest) = (measureString rest).map (· + 1) := by
  rw [measureString.eq_def]
  simp [hquote, hslash]

theorem measureString_escape {c : Byte} {rest : Bytes} (hescape : isEscape c = true) :
    measureString (ch '\\' :: c :: rest) = (measureString rest).map (· + 2) := by
  rw [measureString.eq_def]
  simp [slash_ne_quote, hescape]

/-- The measuring pass stops at the quotation mark that ends the string, and counts the bytes
in front of it. -/
theorem measureString_append {body content rest : Bytes} (hbody : StringBody body content) :
    measureString (body ++ ch '"' :: rest) = some body.length := by
  induction hbody with
  | nil =>
      rw [List.nil_append, measureString.eq_def]
      simp
  | plain hquote hslash _ ih =>
      rw [List.cons_append, measureString_plain hquote hslash, ih]
      rfl
  | escape hbyte _ ih =>
      rw [List.cons_append, List.cons_append,
        measureString_escape (escapeByte_isEscape hbyte).1, ih]
      rfl
  | unicode h₁ h₂ h₃ h₄ _ ih =>
      have hplain : ∀ {c : Byte} {rest : Bytes}, isxdigit c = true →
          measureString (c :: rest) = (measureString rest).map (· + 1) := fun hc =>
        measureString_plain (isxdigit_plain hc).2.1 (isxdigit_plain hc).2.2
      have hescape : isEscape (ch 'u') = true := by decide
      simp only [List.cons_append, measureString_escape hescape, hplain h₁, hplain h₂, hplain h₃,
        hplain h₄, ih]
      rfl

/-- The copying pass gives the content of the string, and what stands behind it. -/
theorem copyString_append {body content rest : Bytes} (hbody : StringBody body content) :
    copyString (body ++ ch '"' :: rest) = some (content, rest) := by
  induction hbody with
  | nil =>
      rw [List.nil_append, copyString.eq_def]
      simp
  | plain hquote hslash _ ih =>
      rw [List.cons_append, copyString.eq_def]
      simp [hquote, hslash, ih]
  | escape hbyte _ ih =>
      rw [List.cons_append, List.cons_append, copyString.eq_def]
      simp [slash_ne_quote, (escapeByte_isEscape hbyte).2, hbyte, ih]
  | @unicode c₁ c₂ c₃ c₄ body content h₁ h₂ h₃ h₄ _ ih =>
      obtain ⟨encode, hencode, hbytes⟩ := slayerEscaped2utf8_hexCode h₁ h₂ h₃ h₄
      have hlong : ¬ strlen (c₁ :: c₂ :: c₃ :: c₄ :: (body ++ ch '"' :: rest)) < 4 := by
        simp [strlen, cstr, (isxdigit_plain h₁).1, (isxdigit_plain h₂).1,
          (isxdigit_plain h₃).1, (isxdigit_plain h₄).1]
      rw [copyString.eq_def]
      simp [slash_ne_quote, hlong, slayerHex2int_eq h₁ h₂ h₃ h₄, hencode, hbytes, ih]

/-- What it copies is the content of a string of the grammar. -/
theorem copyString_sound {s out left : Bytes} (hfree : NulFree s)
    (hcopy : copyString s = some (out, left)) :
    ∃ body, s = body ++ ch '"' :: left ∧ StringBody body out := by
  fun_induction copyString s generalizing out left with
  | case1 => simp at hcopy
  | case2 rest =>
      simp only [Option.some.injEq, Prod.mk.injEq] at hcopy
      obtain ⟨rfl, rfl⟩ := hcopy
      exact ⟨[], rfl, .nil⟩
  | case3 => simp at hcopy
  | case4 => simp at hcopy
  | case5 c₁ c₂ c₃ c₄ rest hquote hlong ih =>
      simp only [Option.bind_eq_bind, Option.bind_eq_some_iff] at hcopy
      obtain ⟨code, hcode, encode, hencode, ⟨content, left'⟩, hrest, hresult⟩ := hcopy
      simp only [Option.pure_def, Option.some.injEq, Prod.mk.injEq] at hresult
      obtain ⟨rfl, rfl⟩ := hresult
      simp only [nulFree_cons] at hfree
      obtain ⟨-, -, hf₁, hf₂, hf₃, hf₄, hfree⟩ := hfree
      obtain ⟨body, rfl, hbody⟩ := ih hfree hrest
      -- without a zero byte the conversion looks at all four characters
      have hdigits := isxdigit_of_slayerHex2intLoop hcode
      rw [cstr_of_nulFree (by simp [hf₁, hf₂, hf₃, hf₄])] at hdigits
      have h₁ := hdigits c₁ (by simp)
      have h₂ := hdigits c₂ (by simp)
      have h₃ := hdigits c₃ (by simp)
      have h₄ := hdigits c₄ (by simp)
      obtain rfl : hexCode c₁ c₂ c₃ c₄ = code := by
        simpa [slayerHex2int_eq h₁ h₂ h₃ h₄] using hcode
      obtain ⟨encode', hencode', hbytes⟩ := slayerEscaped2utf8_hexCode h₁ h₂ h₃ h₄
      obtain rfl : encode = encode' := by simpa [hencode] using hencode'
      rw [← hbytes]
      exact ⟨_, rfl, .unicode h₁ h₂ h₃ h₄ hbody⟩
  | case6 => simp at hcopy
  | case7 e rest hunicode hquote ih =>
      simp only [Option.bind_eq_bind, Option.bind_eq_some_iff] at hcopy
      obtain ⟨byte, hbyte, ⟨content, left'⟩, hrest, hresult⟩ := hcopy
      simp only [Option.pure_def, Option.some.injEq, Prod.mk.injEq] at hresult
      obtain ⟨rfl, rfl⟩ := hresult
      simp only [nulFree_cons] at hfree
      obtain ⟨body, rfl, hbody⟩ := ih hfree.2.2 hrest
      exact ⟨_, rfl, .escape hbyte hbody⟩
  | case8 c rest hquote hslash ih =>
      simp only [Option.bind_eq_bind, Option.bind_eq_some_iff] at hcopy
      obtain ⟨⟨content, left'⟩, hrest, hresult⟩ := hcopy
      simp only [Option.pure_def, Option.some.injEq, Prod.mk.injEq] at hresult
      obtain ⟨rfl, rfl⟩ := hresult
      simp only [nulFree_cons] at hfree
      obtain ⟨body, rfl, hbody⟩ := ih hfree.2 hrest
      exact ⟨_, rfl, .plain hquote hslash hbody⟩

/-- A string in the text is decoded to the C string of its content. -/
theorem decodeJsonString_complete {body content rest : Bytes} {depth : Nat}
    (hbody : StringBody body content) :
    decodeJsonString ⟨ch '"' :: (body ++ ch '"' :: rest), depth⟩ =
      some (cstr content, ⟨rest, depth⟩) := by
  simp [decodeJsonString, measureString_append hbody, copyString_append hbody]

/-- What the decoder of strings accepts is a string of the grammar, and its value is the
content of it. -/
theorem decodeJsonString_sound {s value : Bytes} {depth : Nat} {after : JsonString}
    (hfree : NulFree s) (hdecode : decodeJsonString ⟨ch '"' :: s, depth⟩ = some (value, after)) :
    after.depth = depth ∧ ∃ body content, s = body ++ ch '"' :: after.offset ∧
      StringBody body content ∧ value = cstr content := by
  simp only [decodeJsonString, List.drop_succ_cons, List.drop_zero, Option.bind_eq_bind,
    Option.bind_eq_some_iff] at hdecode
  obtain ⟨_, _, ⟨content, left⟩, hcopy, hresult⟩ := hdecode
  simp only [Option.pure_def, Option.some.injEq, Prod.mk.injEq] at hresult
  obtain ⟨rfl, rfl⟩ := hresult
  obtain ⟨body, hsplit, hbody⟩ := copyString_sound hfree hcopy
  exact ⟨rfl, body, content, hsplit, hbody, rfl⟩


end DbSlayer.Json
