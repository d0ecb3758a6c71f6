import DbSlayer.Foundation.Scan
import DbSlayer.Json.Strings

/-! # Percent decoding

`urldecode` and the encoding that it reads. A zero byte of the input ends it, but
an escape may write any byte, zero among them.
-/

namespace DbSlayer.Http

open DbSlayer.Json Foundation

/-! ## The decoder -/

def hexval (c : Byte) : Int :=
  if isdigit c then (c.toNat : Int) - (ch '0').toNat
  else if isxdigit c then ((tolower c).toNat : Int) - (ch 'a').toNat + 10
  else -1

/-- The byte that two values of digits make. -/
def hexByte (hi lo : Int) : Byte := UInt8.ofNat ((hi.toNat <<< 4) ||| lo.toNat)

/-- The loop of `urldecode`. -/
def urldecodeLoop : Bytes → Bytes
  | [] => []
  | c :: rest =>
      if c = 0 then []
      else if c = ch '%' then
        match rest with
        | hi :: lo :: more =>
            if hi ≠ 0 ∧ lo ≠ 0 ∧ 0 ≤ hexval hi ∧ 0 ≤ hexval lo then
              hexByte (hexval hi) (hexval lo) :: urldecodeLoop more
            -- Not an escape: the percent sign stays.
            else c :: urldecodeLoop (hi :: lo :: more)
        | short => c :: urldecodeLoop short
      else if c = ch '+' then ch ' ' :: urldecodeLoop rest
      else c :: urldecodeLoop rest

/-- `urldecode`. The output has room for the input, and the bytes behind what was
written are zero. -/
def urldecode (input : Option Bytes) : Bytes := urldecodeLoop (input.getD [])

/-! ## The encoding -/

/-- Two digits stand at the front of a text. -/
def EscapeDigits (rest : Bytes) : Prop :=
  ∃ hi lo more, rest = hi :: lo :: more ∧ isxdigit hi = true ∧ isxdigit lo = true

/-- A text and what it stands for: a plus is a space, a percent sign with two digits
is the byte of that value, and anything else stands for itself. -/
inductive PercentDecoded : Bytes → Bytes → Prop
  | nil : PercentDecoded [] []
  | plus {rest text : Bytes} : PercentDecoded rest text →
      PercentDecoded (ch '+' :: rest) (ch ' ' :: text)
  | escape {hi lo : Byte} {rest text : Bytes} : isxdigit hi = true → isxdigit lo = true →
      PercentDecoded rest text →
      PercentDecoded (ch '%' :: hi :: lo :: rest)
        (UInt8.ofNat (16 * hexDigit hi + hexDigit lo) :: text)
  | literal {c : Byte} {rest text : Bytes} : c ≠ ch '+' → (c = ch '%' → ¬ EscapeDigits rest) →
      PercentDecoded rest text → PercentDecoded (c :: rest) (c :: text)

/-- `hexval` is negative exactly for what is no hex digit. -/
theorem hexval_nonneg_iff {c : Byte} : 0 ≤ hexval c ↔ isxdigit c = true :=
  forall_byte (p := fun c => 0 ≤ hexval c ↔ isxdigit c = true) (by decide +kernel) c

/-- For a hex digit it is the value of the digit. -/
theorem hexval_eq {c : Byte} : isxdigit c = true → hexval c = hexDigit c :=
  forall_byte (p := fun c => isxdigit c = true → hexval c = hexDigit c) (by decide +kernel) c

/-- The shifted digit leaves its low half to the other one. -/
theorem hexByte_eq {hi lo : Byte} (hhi : isxdigit hi = true) (hlo : isxdigit lo = true) :
    hexByte (hexval hi) (hexval lo) = UInt8.ofNat (16 * hexDigit hi + hexDigit lo) := by
  have hsmall : hexDigit lo < 2 ^ 4 := hexDigit_lt hlo
  rw [hexByte, hexval_eq hhi, hexval_eq hlo, Int.toNat_natCast, Int.toNat_natCast,
    ← Nat.shiftLeft_add_eq_or_of_lt hsmall, Nat.shiftLeft_eq]
  congr 1
  omega

/-! ## The decoder reads the encoding -/

theorem urldecodeLoop_zero (rest : Bytes) : urldecodeLoop (0 :: rest) = [] := by
  match rest with
  | [] | [_] | _ :: _ :: _ => rfl

theorem urldecodeLoop_plus (rest : Bytes) :
    urldecodeLoop (ch '+' :: rest) = ch ' ' :: urldecodeLoop rest := by
  match rest with
  | [] | [_] | _ :: _ :: _ => rfl

/-- Two hex digits behind a percent sign are decoded to one byte. -/
theorem urldecodeLoop_escape {hi lo : Byte} (hhi : isxdigit hi = true) (hlo : isxdigit lo = true)
    (rest : Bytes) :
    urldecodeLoop (ch '%' :: hi :: lo :: rest) =
      UInt8.ofNat (16 * hexDigit hi + hexDigit lo) :: urldecodeLoop rest := by
  have hdigits : hi ≠ 0 ∧ lo ≠ 0 ∧ 0 ≤ hexval hi ∧ 0 ≤ hexval lo :=
    ⟨(isxdigit_plain hhi).1, (isxdigit_plain hlo).1, hexval_nonneg_iff.mpr hhi,
      hexval_nonneg_iff.mpr hlo⟩
  rw [urldecodeLoop, if_neg (by decide), if_pos rfl, if_pos hdigits, hexByte_eq hhi hlo]

/-- Every other byte is passed on, a percent sign without its digits included. -/
theorem urldecodeLoop_literal {c : Byte} {rest : Bytes} (hzero : c ≠ 0) (hplus : c ≠ ch '+')
    (hescape : c = ch '%' → ¬ EscapeDigits rest) :
    urldecodeLoop (c :: rest) = c :: urldecodeLoop rest := by
  match rest with
  | [] | [_] => simp [urldecodeLoop, hzero, hplus]
  | hi :: lo :: more =>
      rw [urldecodeLoop, if_neg hzero, if_neg hplus]
      by_cases hpercent : c = ch '%'
      · rw [if_pos hpercent, if_neg]
        rintro ⟨-, -, hhi, hlo⟩
        exact hescape hpercent
          ⟨hi, lo, more, rfl, hexval_nonneg_iff.mp hhi, hexval_nonneg_iff.mp hlo⟩
      · rw [if_neg hpercent]

/-- No digit stands behind the text, so that what follows completes no escape. -/
theorem escapeDigits_of_append {query rest : Bytes} (hrest : Stops (· ≠ 0) rest)
    (hdigits : EscapeDigits (query ++ rest)) : EscapeDigits query := by
  obtain ⟨hi, lo, more, hsplit, hhi, hlo⟩ := hdigits
  have hhead : ∀ c tail, rest = c :: tail → c = 0 := by
    rintro c tail rfl
    simpa using stops_cons.mp hrest
  match query with
  | [] =>
      have hzero := hhead hi (lo :: more) hsplit
      exact absurd hzero (isxdigit_plain hhi).1
  | [_] =>
      have hzero := hhead lo more (List.cons.inj hsplit).2
      exact absurd hzero (isxdigit_plain hlo).1
  | hi' :: lo' :: tail =>
      simp only [List.cons_append, List.cons.injEq] at hsplit
      obtain ⟨rfl, rfl, -⟩ := hsplit
      exact ⟨hi', lo', tail, rfl, hhi, hlo⟩

/-- What the text in front of a zero byte stands for is what is written. -/
theorem urldecodeLoop_of_percentDecoded {query text : Bytes} (hfree : NulFree query)
    (hdecoded : PercentDecoded query text) {rest : Bytes} (hrest : Stops (· ≠ 0) rest) :
    urldecodeLoop (query ++ rest) = text := by
  induction hdecoded with
  | nil =>
      cases rest with
      | nil => rfl
      | cons c more =>
          obtain rfl : c = 0 := by simpa using stops_cons.mp hrest
          exact urldecodeLoop_zero more
  | plus _ ih => rw [List.cons_append, urldecodeLoop_plus, ih (nulFree_cons.mp hfree).2]
  | escape hhi hlo _ ih =>
      simp only [nulFree_cons] at hfree
      simp only [List.cons_append]
      rw [urldecodeLoop_escape hhi hlo, ih hfree.2.2.2]
  | @literal c query text hplus hescape _ ih =>
      rw [nulFree_cons] at hfree
      have hlonger : c = ch '%' → ¬ EscapeDigits (query ++ rest) := by
        intro hpercent hdigits
        exact hescape hpercent (escapeDigits_of_append hrest hdigits)
      rw [List.cons_append, urldecodeLoop_literal hfree.1 hplus hlonger, ih hfree.2]

theorem urldecode_eq {query : Option Bytes} {text : Bytes}
    (hdecoded : PercentDecoded (cstr (query.getD [])) text) : urldecode query = text := by
  rw [urldecode, ← List.takeWhile_append_dropWhile (p := (· ≠ 0)) (l := query.getD [])]
  exact urldecodeLoop_of_percentDecoded (nulFree_cstr _) hdecoded (stops_dropWhile _)

/-- The buffer has room for what is written. -/
theorem length_le_of_percentDecoded {query text : Bytes} (hdecoded : PercentDecoded query text) :
    text.length ≤ query.length := by
  induction hdecoded with
  | nil => exact Nat.le_refl 0
  | plus _ ih | literal _ _ _ ih => simpa using ih
  | escape _ _ _ ih =>
      simp only [List.length_cons]
      omega

/-- Every text stands for something. -/
theorem exists_percentDecoded (query : Bytes) : ∃ text, PercentDecoded query text := by
  match query with
  | [] => exact ⟨[], .nil⟩
  | c :: rest =>
      obtain ⟨text, htext⟩ := exists_percentDecoded rest
      by_cases hplus : c = ch '+'
      · subst hplus
        exact ⟨_, .plus htext⟩
      · by_cases hescape : c = ch '%' ∧ EscapeDigits rest
        · obtain ⟨rfl, hi, lo, more, rfl, hhi, hlo⟩ := hescape
          obtain ⟨text, htext⟩ := exists_percentDecoded more
          exact ⟨_, .escape hhi hlo htext⟩
        · exact ⟨_, .literal hplus (fun hpercent hdigits => hescape ⟨hpercent, hdigits⟩) htext⟩

/-- Every query is decoded to something, so the relation covers all of them. -/
theorem percentDecoded_urldecode (query : Option Bytes) :
    PercentDecoded (cstr (query.getD [])) (urldecode query) := by
  obtain ⟨text, htext⟩ := exists_percentDecoded (cstr (query.getD []))
  rw [urldecode_eq htext]
  exact htext

/-! ## Every encoding is decoded -/

/-- A text and one of its encodings. A byte is written as itself unless it has another
meaning, as two digits of either letter case, or, if it is a space, as a plus. -/
inductive PercentEncoded : Bytes → Bytes → Prop
  | nil : PercentEncoded [] []
  | literal {c : Byte} {text query : Bytes} : c ≠ ch '%' → c ≠ ch '+' →
      PercentEncoded text query → PercentEncoded (c :: text) (c :: query)
  | escape {c hi lo : Byte} {text query : Bytes} : isxdigit hi = true → isxdigit lo = true →
      c.toNat = 16 * hexDigit hi + hexDigit lo → PercentEncoded text query →
      PercentEncoded (c :: text) (ch '%' :: hi :: lo :: query)
  | plus {text query : Bytes} : PercentEncoded text query →
      PercentEncoded (ch ' ' :: text) (ch '+' :: query)

theorem PercentEncoded.decoded {text query : Bytes} (hencoded : PercentEncoded text query) :
    PercentDecoded query text := by
  induction hencoded with
  | nil => exact .nil
  | literal hpercent hplus _ ih => exact .literal hplus (fun heq => absurd heq hpercent) ih
  | @escape c hi lo text query hhi hlo hvalue _ ih =>
      have hbyte : UInt8.ofNat (16 * hexDigit hi + hexDigit lo) = c := by
        rw [← hvalue, UInt8.ofNat_toNat]
      have hescape := PercentDecoded.escape hhi hlo ih
      rwa [hbyte] at hescape
  | plus _ ih => exact .plus ih

theorem PercentEncoded.nulFree {text query : Bytes} (hencoded : PercentEncoded text query)
    (hfree : NulFree text) : NulFree query := by
  have hpercent : ch '%' ≠ 0 := by decide
  have hplus : ch '+' ≠ 0 := by decide
  induction hencoded with
  | nil => exact nulFree_nil
  | literal _ _ _ ih =>
      obtain ⟨hc, hrest⟩ := nulFree_cons.mp hfree
      exact nulFree_cons.mpr ⟨hc, ih hrest⟩
  | escape hhi hlo _ _ ih =>
      simp [hpercent, (isxdigit_plain hhi).1, (isxdigit_plain hlo).1,
        ih (nulFree_cons.mp hfree).2]
  | plus _ ih => exact nulFree_cons.mpr ⟨hplus, ih (nulFree_cons.mp hfree).2⟩

/-- A text without the two marks stands for itself. -/
theorem percentEncoded_literal {text : Bytes} (htext : ∀ c ∈ text, c ≠ ch '%' ∧ c ≠ ch '+') :
    PercentEncoded text text := by
  induction text with
  | nil => exact .nil
  | cons c rest ih =>
      obtain ⟨hpercent, hplus⟩ := htext c List.mem_cons_self
      exact .literal hpercent hplus (ih fun d hd => htext d (List.mem_cons_of_mem c hd))

/-- Encoding makes no text shorter. -/
theorem PercentEncoded.length_le {text query : Bytes} (hencoded : PercentEncoded text query) :
    text.length ≤ query.length := by
  induction hencoded with
  | nil => exact Nat.le_refl 0
  | literal _ _ _ ih => exact Nat.succ_le_succ ih
  | escape _ _ _ _ ih =>
      simp only [List.length_cons]
      omega
  | plus _ ih => exact Nat.succ_le_succ ih

/-- The loop inverts every encoding of a C string, with any choice of which bytes are escaped. -/
theorem urldecode_of_percentEncoded {text query : Bytes} (hfree : NulFree text)
    (hencoded : PercentEncoded text query) : urldecode (some query) = text := by
  refine urldecode_eq ?_
  rw [Option.getD_some, cstr_of_nulFree (hencoded.nulFree hfree)]
  exact hencoded.decoded

/-- A percent sign is no digit, so no escape reaches across it. -/
theorem escapeDigits_of_append_percent {before rest : Bytes}
    (hdigits : EscapeDigits (before ++ ch '%' :: rest)) : EscapeDigits before := by
  obtain ⟨hi, lo, more, hsplit, hhi, hlo⟩ := hdigits
  match before with
  | [] =>
      obtain rfl := (List.cons.inj hsplit).1
      exact absurd hhi (by decide)
  | [_] =>
      obtain rfl := (List.cons.inj (List.cons.inj hsplit).2).1
      exact absurd hlo (by decide)
  | hi' :: lo' :: tail =>
      simp only [List.cons_append, List.cons.injEq] at hsplit
      obtain ⟨rfl, rfl, -⟩ := hsplit
      exact ⟨hi', lo', tail, rfl, hhi, hlo⟩

/-- A percent sign that no digits follow ends what stands in front of it. -/
theorem PercentDecoded.append_percent {before rest text text' : Bytes}
    (hbefore : PercentDecoded before text) (hrest : PercentDecoded rest text')
    (hno : ¬ EscapeDigits rest) :
    PercentDecoded (before ++ ch '%' :: rest) (text ++ ch '%' :: text') := by
  induction hbefore with
  | nil => exact .literal (by decide) (fun _ => hno) hrest
  | plus _ ih => exact .plus ih
  | escape hhi hlo _ ih => exact .escape hhi hlo ih
  | literal hplus hescape _ ih =>
      refine .literal hplus ?_ ih
      intro hpercent hdigits
      exact hescape hpercent (escapeDigits_of_append_percent hdigits)

theorem not_escapeDigits_cstr {rest : Bytes} (hno : ¬ EscapeDigits rest) :
    ¬ EscapeDigits (cstr rest) := by
  rintro ⟨hi, lo, more, hsplit, hhi, hlo⟩
  obtain ⟨tail, htail⟩ : cstr rest <+: rest := List.takeWhile_prefix _
  rw [hsplit] at htail
  exact hno ⟨hi, lo, more ++ tail, htail.symm, hhi, hlo⟩

/-- The loop passes a malformed escape on and decodes both sides of it, so one bad percent sign
spoils nothing else. -/
theorem urldecode_append_percent {before rest : Bytes} (hfree : NulFree before)
    (hno : ¬ EscapeDigits rest) :
    urldecode (some (before ++ ch '%' :: rest)) =
      urldecode (some before) ++ ch '%' :: urldecode (some rest) := by
  have hbefore := percentDecoded_urldecode (some before)
  have hrest := percentDecoded_urldecode (some rest)
  rw [Option.getD_some, cstr_of_nulFree hfree] at hbefore
  refine urldecode_eq ?_
  have hpercent : cstr (ch '%' :: rest) = ch '%' :: cstr rest :=
    cstr_append (s := [ch '%']) (by decide) rest
  rw [Option.getD_some, cstr_append hfree, hpercent]
  exact hbefore.append_percent hrest (not_escapeDigits_cstr hno)

/-- Every encoding is decoded to its text; no input overruns the buffer, and what is no
escape is passed on with the rest of the input still decoded. -/
theorem urldecode_inverts_encodings :
    (∀ text query, NulFree text → PercentEncoded text query → urldecode (some query) = text) ∧
    (∀ query, (urldecode (some query)).length ≤ strlen query) ∧
    ∀ before rest, NulFree before → ¬ EscapeDigits rest →
      urldecode (some (before ++ ch '%' :: rest)) =
        urldecode (some before) ++ ch '%' :: urldecode (some rest) := by
  refine ⟨?_, ?_, ?_⟩
  · intro text query hfree hencoded
    exact urldecode_of_percentEncoded hfree hencoded
  · intro query
    exact length_le_of_percentDecoded (percentDecoded_urldecode (some query))
  · intro before rest hfree hno
    exact urldecode_append_percent hfree hno

theorem urldecode_inverts_encodings_mixed :
    urldecode (some (bytes "a+%2b%2B%4")) = bytes "a ++%4" := by
  have hencoded : PercentEncoded (bytes "a ++") (bytes "a+%2b%2B") := by
    refine .literal (by decide) (by decide) (.plus ?_)
    exact .escape rfl rfl rfl (.escape rfl rfl rfl .nil)
  have hfront := urldecode_inverts_encodings.1 (bytes "a ++") (bytes "a+%2b%2B") (by decide)
    hencoded
  have hshort : ¬ EscapeDigits (bytes "4") := by
    rintro ⟨hi, lo, more, hsplit, -⟩
    simp [bytes] at hsplit
  have hback := urldecode_inverts_encodings.2.2 (bytes "a+%2b%2B") (bytes "4") (by decide) hshort
  rw [hfront] at hback
  exact hback

end DbSlayer.Http
