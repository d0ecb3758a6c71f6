import DbSlayer.Foundation.Traced
import DbSlayer.Json.Strings

/-! # The two passes of `decode_json_string` on memory

The first pass measures the string and the second copies it into a block of that
size. The measuring pass takes a `\u` for an escape of two bytes with ordinary
bytes behind it; the copying pass takes six bytes at once. They meet again behind
the digits, and what is written never catches up with what is read.
-/

namespace DbSlayer.Json

open Foundation Traced

/-- What `decode_json` is given: the bytes in front of `end`, as many as an `int`
counts. -/
structure JsonText where
  text : Bytes
  countable : text.length < 2 ^ 31

/-- `injson->offset`, the block of the string and `optr`, counted from its start. -/
structure Copying where
  offset : Nat
  out : Bytes
  optr : Nat

/-- What `decode_json_string` comes to. All but the last one return `NULL`. -/
inductive StringResult where
  /-- The first pass finds no closing quote. -/
  | unmeasured
  /-- A `\u` without four digits that stand for a code point. -/
  | invalidUnicode
  | endInEscape
  /-- The branch that is marked as impossible. -/
  | impossible
  | noQuote
  | closed (state : Copying)

namespace Copying

/-- `*optr = c; optr++`. -/
def put (state : Copying) (c : Byte) : Traced Copying Copying := do
  let out ← store state.out state.optr c
  return { state with out, optr := state.optr + 1 }

def putAll : Copying → Bytes → Traced Copying Copying
  | state, [] => pure state
  | state, c :: rest => do
      let state ← state.put c
      state.putAll rest

/-- `injson->offset += n`. -/
def advance (state : Copying) (n : Nat) : Traced Copying Copying := do
  let state := { state with offset := state.offset + n }
  pass state
  return state

end Copying

/-- `strlen` at `i`, which reads up to a terminator. -/
def strlenAt (block : Bytes) (i : Nat) : Traced Copying Nat :=
  if 0 ∈ block.drop i then pure (strlen (block.drop i)) else fault

/-- `apr_palloc` and `memset` of as many bytes as an `int` says. -/
def callocInt (size : Int32) : Traced Copying Bytes :=
  if 0 ≤ size.toInt then pure (List.replicate size.toInt.toNat 0) else fault

namespace JsonText

/-- `injson->end`. -/
def stop (json : JsonText) : Nat := json.text.length

/-- The text with its terminator; nothing behind it may be read. -/
def block (json : JsonText) : Bytes := json.text ++ [0]

/-- The first pass from `ptr` on. -/
def measure (json : JsonText) : Nat → Nat → Traced Copying (Option Nat)
  | 0, _ => fault
  | fuel + 1, ptr =>
      if ptr < json.stop then do
        let c ← load json.block ptr
        if c = ch '"' then return some ptr
        else if c = ch '\\' then
          if ptr + 1 ≥ json.stop then return none
          else do
            let e ← load json.block (ptr + 1)
            if isEscape e then json.measure fuel (ptr + 2) else return none
        else json.measure fuel (ptr + 1)
      else return none

/-- A `\u` escape, at the `u`; `none` where the source returns `NULL`. -/
def unicodeEscape (json : JsonText) (state : Copying) : Traced Copying (Option Copying) := do
  let length ← strlenAt json.block (state.offset + 1)
  if length < 4 then return none
  else do
    let code ← loadFront (json.block.drop (state.offset + 1)) 4
    match slayerHex2int code with
    | none => return none
    | some value =>
        match slayerEscaped2utf8 value with
        | none => return none
        | some encode => do
            let state ← state.putAll (cstr encode)
            let state ← state.advance 4
            return some state

/-- A character of one byte, behind which the pass goes on. -/
def copyByte (go : Copying → Traced Copying StringResult) (state : Copying) (byte : Byte) :
    Traced Copying StringResult := do
  let state ← state.put byte
  let state ← state.advance 1
  go state

/-- An escape, at its backslash. -/
def copyEscape (json : JsonText) (go : Copying → Traced Copying StringResult) (state : Copying) :
    Traced Copying StringResult := do
  let state ← state.advance 1
  if state.offset ≥ json.stop then return .endInEscape
  else do
    let e ← load json.block state.offset
    if e = ch 'u' then do
      match ← json.unicodeEscape state with
      | none => return .invalidUnicode
      | some state => do
          let state ← state.advance 1
          go state
    else
      match escapeByte e with
      | none => return .impossible
      | some byte => copyByte go state byte

/-- The second pass. It leaves its loop at a quote or at the end. -/
def copy (json : JsonText) : Nat → Copying → Traced Copying StringResult
  | 0, _ => fault
  | fuel + 1, state =>
      if state.offset < json.stop then do
        let c ← load json.block state.offset
        if c = ch '"' then return .closed state
        else if c = ch '\\' then json.copyEscape (json.copy fuel) state
        else copyByte (json.copy fuel) state c
      else return .noQuote

/-- The measuring pass of `decode_json_string` at `offset`. -/
def measuringPass (json : JsonText) (offset : Nat) : Traced Copying (Option Nat) :=
  json.measure (json.stop + 1) (offset + 1)

/-- The copying pass of `decode_json_string` at `offset`, for a closing quote at `q`.
The block has `vsize` bytes. -/
def copyingPass (json : JsonText) (offset q : Nat) : Traced Copying StringResult := do
  let vsize := Int32.ofNat (q - (offset + 1) + 1)
  let out ← callocInt vsize
  let state : Copying := ⟨offset + 1, out, 0⟩
  pass state
  json.copy (json.stop + 1) state

/-- `decode_json_string` at `offset`. -/
def decodeJsonString (json : JsonText) (offset : Nat) : Traced Copying StringResult := do
  match ← json.measuringPass offset with
  | none => return .unmeasured
  | some q => do
      match ← json.copyingPass offset q with
      | .closed state => do
          let state ← state.advance 1
          return .closed state
      | result => return result

/-! ## The text from a position on -/

/-- The bytes from `offset` up to `end`. -/
def rest (json : JsonText) (offset : Nat) : Bytes := json.text.drop offset

variable {json : JsonText} {offset : Nat} {c : Byte} {left : Bytes}

theorem rest_succ (hrest : json.rest offset = c :: left) : json.rest (offset + 1) = left := by
  have hdrop := congrArg (List.drop 1) hrest
  rwa [rest, List.drop_drop, List.drop_one] at hdrop

theorem lt_stop (hrest : json.rest offset = c :: left) : offset < json.stop := by
  apply Nat.lt_of_not_le
  intro hle
  rw [rest, List.drop_eq_nil_of_le hle] at hrest
  cases hrest

/-- What is read next stands in the block at the offset. -/
theorem load_block (hrest : json.rest offset = c :: left) : json.block[offset]? = some c := by
  have hcell : json.text[offset]? = some c := by
    have hhead := congrArg List.head? hrest
    rwa [rest, List.head?_drop] at hhead
  rw [block, List.getElem?_append_left (json.lt_stop hrest), hcell]

/-- Where nothing is left, the offset has reached the end. -/
theorem stop_le (hrest : json.rest offset = []) : json.stop ≤ offset :=
  List.drop_eq_nil_iff.mp hrest

theorem rest_eq_nil (hle : json.stop ≤ offset) : json.rest offset = [] :=
  List.drop_eq_nil_of_le hle

/-- Behind what is left stands the zero byte of the block. -/
theorem drop_block (hle : offset ≤ json.stop) : json.block.drop offset = json.rest offset ++ [0] :=
  List.drop_append_of_le_length hle

/-! ## The measuring pass -/

/-- The measuring pass on memory is the one on lists. -/
theorem measure_sat {P : Copying → Prop} {fuel ptr : Nat} (hfuel : json.stop ≤ fuel + ptr) :
    (json.measure (fuel + 1) ptr).Sat P
      (· = (measureString (json.rest ptr)).map (ptr + ·)) := by
  induction fuel generalizing ptr with
  | zero =>
      have hle : json.stop ≤ ptr := Nat.zero_add ptr ▸ hfuel
      rw [measure, if_neg (Nat.not_lt_of_le hle), json.rest_eq_nil hle]
      exact Sat.pure rfl
  | succ fuel ih =>
      rw [measure]
      cases hrest : json.rest ptr with
      | nil =>
          rw [if_neg (Nat.not_lt_of_le (json.stop_le hrest))]
          exact Sat.pure rfl
      | cons c left =>
          rw [if_pos (json.lt_stop hrest)]
          refine (Sat.load (json.load_block hrest)).bind fun d hd => ?_
          subst hd
          have hnext := json.rest_succ hrest
          split
          next hquote =>
            subst hquote
            rw [measureString.eq_def]
            exact Sat.pure (by simp)
          next hquote =>
            split
            next hslash =>
              subst hslash
              cases left with
              | nil =>
                  rw [if_pos (json.stop_le hnext), measureString.eq_def]
                  exact Sat.pure (by simp [slash_ne_quote])
              | cons e left =>
                  rw [if_neg (Nat.not_le_of_lt (json.lt_stop hnext))]
                  refine (Sat.load (json.load_block hnext)).bind fun d hd => ?_
                  subst hd
                  split
                  next hescape =>
                    rw [measureString_escape hescape]
                    refine (ih (by omega)).mono fun r hr => ?_
                    rw [hr, json.rest_succ hnext, Option.map_map]
                    congr 1
                    funext n
                    simp only [Function.comp_apply]
                    omega
                  next hescape =>
                    rw [measureString.eq_def]
                    exact Sat.pure (by simp [slash_ne_quote, hescape])
            next hslash =>
              rw [measureString_plain hquote hslash]
              refine (ih (by omega)).mono fun r hr => ?_
              rw [hr, hnext, Option.map_map]
              congr 1
              funext n
              simp only [Function.comp_apply]
              omega

end JsonText

/-! ## The copying pass -/

/-- `offset` is not beyond the closing quote at `q`, and what was written leaves a
terminator in a block for the bytes from `start` up to `q`. -/
structure Within (start q : Nat) (state : Copying) : Prop where
  offset : state.offset ≤ q + 1
  written : state.optr ≤ q - start
  block : state.out.length = q - start + 1
  terminated : state.out[state.optr]? = some 0

/-- The block holds `content`, which is no longer than what was read. -/
structure Filled (start q : Nat) (state : Copying) (content : Bytes) : Prop where
  padded : Padded 0 (q - start + 1) state.out state.optr content
  lag : start + state.optr ≤ state.offset

variable {start q n : Nat} {state : Copying} {content : Bytes}

/-- What has been filled so far lies within the bounds. -/
theorem Filled.within (hfilled : Filled start q state content) (hle : state.offset ≤ q) :
    Within start q state := by
  have hlag := hfilled.lag
  have hroom : state.optr ≤ q - start := by omega
  exact ⟨Nat.le_succ_of_le hle, hroom, hfilled.padded.length,
    hfilled.padded.terminated (Nat.lt_succ_of_le hroom)⟩

/-- What was written is no longer than what was read once `offset` has moved. -/
theorem advance_sat (hpadded : Padded 0 (q - start + 1) state.out state.optr content)
    (hlag : start + state.optr ≤ state.offset + n) (hle : state.offset + n ≤ q) :
    (state.advance n).Sat (Within start q) fun after =>
      after.offset = state.offset + n ∧ Filled start q after content := by
  have hmoved : Filled start q { state with offset := state.offset + n } content := ⟨hpadded, hlag⟩
  exact Sat.passing (hmoved.within hle) (Sat.pure ⟨rfl, hmoved⟩)

/-- Writing one byte is in bounds where there is room for it. -/
theorem put_sat {P : Copying → Prop} {capacity : Nat} {state : Copying} {content : Bytes}
    (hpadded : Padded 0 capacity state.out state.optr content) (hlt : state.optr < capacity)
    (c : Byte) :
    (state.put c).Sat P fun after =>
      after.offset = state.offset ∧ after.optr = state.optr + 1 ∧
        Padded 0 capacity after.out after.optr (content ++ [c]) :=
  (hpadded.store hlt c).bind fun _ hout => Sat.pure ⟨rfl, rfl, hout⟩

theorem putAll_sat {P : Copying → Prop} {capacity : Nat} {state : Copying} {content s : Bytes}
    (hpadded : Padded 0 capacity state.out state.optr content)
    (hroom : state.optr + s.length ≤ capacity) :
    (state.putAll s).Sat P fun after =>
      after.offset = state.offset ∧ after.optr = state.optr + s.length ∧
        Padded 0 capacity after.out after.optr (content ++ s) := by
  induction s generalizing state content with
  | nil =>
      rw [List.append_nil]
      exact Sat.pure ⟨rfl, rfl, hpadded⟩
  | cons c rest ih =>
      rw [List.length_cons] at hroom
      refine (put_sat hpadded (by omega) c).bind fun next hnext => ?_
      obtain ⟨hoffset, hoptr, hnext⟩ := hnext
      refine (ih hnext (by omega)).mono fun after hafter => ?_
      obtain ⟨hoffset', hoptr', hafter⟩ := hafter
      rw [List.append_assoc, List.singleton_append] at hafter
      refine ⟨hoffset'.trans hoffset, ?_, hafter⟩
      rw [hoptr', hoptr, List.length_cons]
      omega

/-! ## One character of the copying pass on lists -/

theorem copyString_quote (left : Bytes) : copyString (ch '"' :: left) = some ([], left) := by
  rw [copyString.eq_def]
  simp

/-- The copy of a byte that is neither a quotation mark nor a backslash. -/
theorem copyString_plain {c : Byte} {left : Bytes} (hquote : c ≠ ch '"') (hslash : c ≠ ch '\\') :
    copyString (c :: left) = (copyString left).map fun p => ([c] ++ p.1, p.2) := by
  rw [copyString.eq_def]
  simp only [if_neg hquote, if_neg hslash]
  cases copyString left <;> rfl

theorem copyString_escape {e byte : Byte} {left : Bytes} (hbyte : escapeByte e = some byte) :
    copyString (ch '\\' :: e :: left) =
      (copyString left).map fun p => ([byte] ++ p.1, p.2) := by
  rw [copyString.eq_def]
  simp only [if_neg slash_ne_quote, if_true, if_neg (escapeByte_isEscape hbyte).2, hbyte]
  cases copyString left <;> rfl

theorem copyString_short {left : Bytes} (hshort : strlen left < 4) :
    copyString (ch '\\' :: ch 'u' :: left) = none := by
  rw [copyString.eq_def]
  simp [slash_ne_quote, hshort]

theorem copyString_unicode {h₁ h₂ h₃ h₄ : Byte} {left : Bytes}
    (hlong : ¬ strlen (h₁ :: h₂ :: h₃ :: h₄ :: left) < 4) :
    copyString (ch '\\' :: ch 'u' :: h₁ :: h₂ :: h₃ :: h₄ :: left) =
      ((slayerHex2int [h₁, h₂, h₃, h₄]).bind slayerEscaped2utf8).bind fun encode =>
        (copyString left).map fun p => (cstr encode ++ p.1, p.2) := by
  rw [copyString.eq_def]
  simp only [if_neg slash_ne_quote, if_true, if_neg hlong]
  cases slayerHex2int [h₁, h₂, h₃, h₄] with
  | none => rfl
  | some value =>
      cases hencode : slayerEscaped2utf8 value with
      | none => simp [hencode]
      | some encode =>
          simp only [hencode, Option.bind_some, Option.bind_eq_bind]
          cases copyString left <;> rfl

/-- Four bytes in front of a terminator. -/
theorem exists_four_of_strlen {s : Bytes} (hlong : ¬ strlen s < 4) :
    ∃ h₁ h₂ h₃ h₄ left, s = h₁ :: h₂ :: h₃ :: h₄ :: left ∧ NulFree [h₁, h₂, h₃, h₄] := by
  have hfree := nulFree_cstr s
  obtain ⟨back, hback⟩ : cstr s <+: s := List.takeWhile_prefix _
  rw [strlen] at hlong
  generalize cstr s = front at hfree hback hlong
  rcases front with _ | ⟨h₁, _ | ⟨h₂, _ | ⟨h₃, _ | ⟨h₄, more⟩⟩⟩⟩
  · exact absurd (by simp) hlong
  · exact absurd (by simp) hlong
  · exact absurd (by simp) hlong
  · exact absurd (by simp) hlong
  · refine ⟨h₁, h₂, h₃, h₄, more ++ back, hback.symm, ?_⟩
    simp only [nulFree_cons] at hfree ⊢
    exact ⟨hfree.1, hfree.2.1, hfree.2.2.1, hfree.2.2.2.1, nulFree_nil⟩

/-- `slayer_hex2int` has a value for four hex digits only. -/
theorem digits_of_slayerHex2int {h₁ h₂ h₃ h₄ : Byte} {value : Nat}
    (hfree : NulFree [h₁, h₂, h₃, h₄]) (hvalue : slayerHex2int [h₁, h₂, h₃, h₄] = some value) :
    (∀ c ∈ [h₁, h₂, h₃, h₄], isxdigit c = true) ∧ value < 0x10000 := by
  have hloop := hvalue
  rw [slayerHex2int, cstr_of_nulFree hfree] at hloop
  have hdigits := isxdigit_of_slayerHex2intLoop hloop
  have h₁' := hdigits h₁ (by simp)
  have h₂' := hdigits h₂ (by simp)
  have h₃' := hdigits h₃ (by simp)
  have h₄' := hdigits h₄ (by simp)
  rw [slayerHex2int_eq h₁' h₂' h₃' h₄'] at hvalue
  exact ⟨hdigits, Option.some.inj hvalue ▸ hexCode_lt h₁' h₂' h₃' h₄'⟩

/-- Four hexadecimal digits stand in front. -/
def FourDigits (left : Bytes) : Prop :=
  ∃ h₁ h₂ h₃ h₄ more, left = h₁ :: h₂ :: h₃ :: h₄ :: more ∧
    ∀ c ∈ [h₁, h₂, h₃, h₄], isxdigit c = true

/-- Four digits are not cut off by the end of the text. -/
theorem FourDigits.not_short {left : Bytes} (hdigits : FourDigits left) : ¬ strlen left < 4 := by
  obtain ⟨h₁, h₂, h₃, h₄, more, rfl, hdigits⟩ := hdigits
  simp only [List.forall_mem_cons] at hdigits
  obtain ⟨h₁, h₂, h₃, h₄, -⟩ := hdigits
  simp [strlen, cstr, (isxdigit_plain h₁).1, (isxdigit_plain h₂).1, (isxdigit_plain h₃).1,
    (isxdigit_plain h₄).1]

/-- Four digits are always a code point that can be written. -/
theorem FourDigits.encoded {h₁ h₂ h₃ h₄ : Byte} {left : Bytes}
    (hdigits : FourDigits (h₁ :: h₂ :: h₃ :: h₄ :: left)) :
    (slayerHex2int [h₁, h₂, h₃, h₄]).bind slayerEscaped2utf8 ≠ none := by
  obtain ⟨_, _, _, _, _, ⟨⟩, hdigits⟩ := hdigits
  simp only [List.forall_mem_cons] at hdigits
  obtain ⟨h₁, h₂, h₃, h₄, -⟩ := hdigits
  obtain ⟨encode, hencode, -⟩ := slayerEscaped2utf8_hexCode h₁ h₂ h₃ h₄
  rw [slayerHex2int_eq h₁ h₂ h₃ h₄, Option.bind_some, hencode]
  exact Option.some_ne_none encode

/-- A code point of four digits takes three bytes at most. -/
theorem length_escaped2utf8_le {code : Nat} {encode : Bytes} (hlt : code < 0x10000)
    (hencode : slayerEscaped2utf8 code = some encode) : (cstr encode).length ≤ 3 := by
  refine (List.takeWhile_prefix _).length_le.trans ?_
  unfold slayerEscaped2utf8 at hencode
  rw [if_neg (by omega)] at hencode
  split at hencode
  next => simp [← Option.some.inj hencode]
  next =>
    split at hencode
    next => simp [← Option.some.inj hencode]
    next =>
      simp [← Option.some.inj hencode]

/-- The digits of an escape are ordinary bytes to the measuring pass. -/
theorem measureString_digits {digits left : Bytes} (hdigits : ∀ c ∈ digits, isxdigit c = true) :
    measureString (digits ++ left) = (measureString left).map (· + digits.length) := by
  induction digits with
  | nil => simp
  | cons c rest ih =>
      have hplain := isxdigit_plain (hdigits c List.mem_cons_self)
      rw [List.cons_append, measureString_plain hplain.2.1 hplain.2.2,
        ih fun d hd => hdigits d (List.mem_cons_of_mem c hd), Option.map_map]
      rfl

/-- What is left to measure behind some bytes. -/
theorem measured_of_map {o : Option Nat} {k offset q : Nat}
    (hmeasure : o.map (· + k) = some (q - offset)) (hle : offset ≤ q) :
    offset + k ≤ q ∧ o = some (q - (offset + k)) := by
  obtain ⟨n, rfl, hn⟩ := Option.map_eq_some_iff.mp hmeasure
  refine ⟨by omega, congrArg some ?_⟩
  omega

namespace JsonText

variable {json : JsonText} {start q : Nat} {state : Copying} {content left : Bytes}

/-- A place in a string that starts at `start` where a character or an escape begins. An
escape is its backslash and the letter behind it; the digits of a `\u` are characters. -/
inductive Boundary (json : JsonText) (start : Nat) : Nat → Prop
  | start : Boundary json start start
  | plain {p : Nat} {c : Byte} {left : Bytes} : Boundary json start p →
      json.rest p = c :: left → c ≠ ch '"' → c ≠ ch '\\' → Boundary json start (p + 1)
  | escape {p : Nat} {e : Byte} {left : Bytes} : Boundary json start p →
      json.rest p = ch '\\' :: e :: left → Boundary json start (p + 2)

/-- A `\u` escape of the string at `p`, in front of `q`, without its four digits. -/
structure InvalidUnicode (json : JsonText) (start q p : Nat) : Prop where
  begins : Boundary json start p
  inside : start ≤ p ∧ p + 1 < q
  escape : ∃ left, json.rest p = ch '\\' :: ch 'u' :: left ∧ ¬ FourDigits left

theorem Boundary.le {p : Nat} (hboundary : Boundary json start p) : start ≤ p := by
  induction hboundary with
  | start => exact Nat.le_refl start
  | plain _ _ _ _ ih => omega
  | escape _ _ ih => omega

/-- The digits of an escape are characters of their own. -/
theorem Boundary.digits {p : Nat} {digits : Bytes} (hboundary : Boundary json start p)
    (hrest : json.rest p = digits ++ left) (hdigits : ∀ c ∈ digits, isxdigit c = true) :
    Boundary json start (p + digits.length) := by
  induction digits generalizing p with
  | nil => exact hboundary
  | cons c rest ih =>
      have hplain := isxdigit_plain (hdigits c List.mem_cons_self)
      have hnext := ih (hboundary.plain hrest hplain.2.1 hplain.2.2) (json.rest_succ hrest)
        fun d hd => hdigits d (List.mem_cons_of_mem c hd)
      rwa [List.length_cons, Nat.add_comm rest.length, ← Nat.add_assoc]

/-- A `\u` escape at its `u`: refused by both models because its digits are missing, or
the passes meet again behind them. -/
inductive Unicode (json : JsonText) (start q offset : Nat) (content : Bytes) :
    Option Copying → Option (Bytes × Bytes) → Prop
  | invalid (hdigits : ¬ FourDigits (json.rest (offset + 1))) :
      Unicode json start q offset content none none
  | decoded {after : Copying} {front left : Bytes} (hoffset : after.offset = offset + 4)
      (hfilled : Filled start q after (content ++ front)) (hle : offset + 5 ≤ q)
      (hrest : json.rest (offset + 5) = left)
      (hmeasure : measureString left = some (q - (offset + 5)))
      (hdigits : ∀ first, Boundary json first (offset + 1) → Boundary json first (offset + 5)) :
      Unicode json start q offset content (some after)
        ((copyString left).map fun p => (front ++ p.1, p.2))

/-- The branch of the copying pass for `\u`: it reads four bytes and writes up to three,
which the six bytes of the escape have made room for. -/
theorem unicodeEscape_sat (hrest : json.rest state.offset = ch 'u' :: left)
    (hpadded : Padded 0 (q - start + 1) state.out state.optr content)
    (hlag : start + state.optr < state.offset) (hle : state.offset + 1 ≤ q)
    (hmeasure : measureString left = some (q - (state.offset + 1))) :
    (json.unicodeEscape state).Sat (Within start q) fun r =>
      Unicode json start q state.offset content r (copyString (ch '\\' :: ch 'u' :: left)) := by
  have hnext := json.rest_succ hrest
  have hdrop : json.block.drop (state.offset + 1) = left ++ [0] := by
    rw [json.drop_block (json.lt_stop hrest), hnext]
  have hlength : strlen (left ++ [0]) = strlen left :=
    congrArg List.length (cstr_append_zero left [])
  have hterminated : (0 : Byte) ∈ left ++ [0] := List.mem_append_right left List.mem_cons_self
  rw [unicodeEscape, strlenAt, hdrop, if_pos hterminated, hlength]
  refine (Sat.pure (Q := (· = strlen left)) rfl).bind fun length hlen => ?_
  subst hlen
  split
  next hshort =>
    rw [copyString_short hshort]
    exact Sat.pure (.invalid fun hdigits => (hnext ▸ hdigits).not_short hshort)
  next hlong =>
    obtain ⟨h₁, h₂, h₃, h₄, left, rfl, hfree⟩ := exists_four_of_strlen hlong
    have hfour : 4 ≤ (h₁ :: h₂ :: h₃ :: h₄ :: left ++ [0]).length := by simp
    rw [copyString_unicode hlong]
    refine (Sat.loadFront hfour).bind fun code hcode => ?_
    obtain rfl : code = [h₁, h₂, h₃, h₄] := hcode
    have hinvalid : FourDigits (json.rest (state.offset + 1)) →
        (slayerHex2int [h₁, h₂, h₃, h₄]).bind slayerEscaped2utf8 ≠ none := by
      rw [hnext]
      exact FourDigits.encoded
    cases hvalue : slayerHex2int [h₁, h₂, h₃, h₄] with
    | none => exact Sat.pure (.invalid fun hdigits => hinvalid hdigits (by rw [hvalue]; rfl))
    | some value =>
        simp only [Option.bind_some]
        cases hencode : slayerEscaped2utf8 value with
        | none =>
            exact Sat.pure (.invalid fun hdigits => hinvalid hdigits (hvalue ▸ hencode))
        | some encode =>
            simp only [Option.bind_some]
            obtain ⟨hdigits, hlt⟩ := digits_of_slayerHex2int hfree hvalue
            have hthree := length_escaped2utf8_le hlt hencode
            -- the passes meet behind the four digits
            have hplain : measureString (h₁ :: h₂ :: h₃ :: h₄ :: left) =
                (measureString left).map (· + 4) := measureString_digits hdigits
            obtain ⟨hle', hmeasure'⟩ := measured_of_map (hplain ▸ hmeasure) hle
            have hbehind : json.rest (state.offset + 5) = left :=
              json.rest_succ (json.rest_succ (json.rest_succ (json.rest_succ hnext)))
            refine (putAll_sat hpadded (by omega)).bind fun next hput => ?_
            obtain ⟨hoffset, hoptr, hput⟩ := hput
            refine (advance_sat hput (by omega) (by omega)).bind fun after hafter => Sat.pure ?_
            refine .decoded (hafter.1.trans (by omega)) hafter.2 hle' hbehind hmeasure' ?_
            have hfront : json.rest (state.offset + 1) = [h₁, h₂, h₃, h₄] ++ left := hnext
            exact fun first hboundary => hboundary.digits hfront hdigits

/-- The copying pass refuses a `\u` escape that has not its four digits, or stops at the
quote with the content of the list model in the block. -/
inductive Copied (json : JsonText) (start q : Nat) (content : Bytes) :
    StringResult → Option (Bytes × Bytes) → Prop
  | invalid {p : Nat} (hinvalid : InvalidUnicode json start q p) :
      Copied json start q content .invalidUnicode none
  | closed {after : Copying} {more left : Bytes} (hoffset : after.offset = q)
      (hrest : json.rest (q + 1) = left) (hfilled : Filled start q after (content ++ more)) :
      Copied json start q content (.closed after) (some (more, left))

theorem Copied.of_append {front : Bytes} {r : StringResult} {o : Option (Bytes × Bytes)}
    (hcopied : Copied json start q (content ++ front) r o) :
    Copied json start q content r (o.map fun p => (front ++ p.1, p.2)) := by
  cases hcopied with
  | invalid hinvalid => exact .invalid hinvalid
  | closed hoffset hrest hfilled =>
      rw [List.append_assoc] at hfilled
      exact .closed hoffset hrest hfilled

/-- What the measuring pass accepts behind a backslash. -/
theorem exists_escape_of_measure {left : Bytes} {n : Nat}
    (hmeasure : measureString (ch '\\' :: left) = some n) :
    ∃ e rest, left = e :: rest ∧ isEscape e = true := by
  rw [measureString.eq_def] at hmeasure
  simp only [if_neg slash_ne_quote, if_true] at hmeasure
  cases left with
  | nil => cases hmeasure
  | cons e rest =>
      refine ⟨e, rest, rfl, ?_⟩
      by_contra hescape
      simp [hescape] at hmeasure

theorem exists_escapeByte {e : Byte} (hescape : isEscape e = true) (hunicode : e ≠ ch 'u') :
    ∃ byte, escapeByte e = some byte := by
  have hsome : isEscape e = true → e ≠ ch 'u' → (escapeByte e).isSome = true :=
    forall_byte (p := fun e => isEscape e = true → e ≠ ch 'u' → (escapeByte e).isSome = true)
      (by decide +kernel) e
  exact Option.isSome_iff_exists.mp (hsome hescape hunicode)

/-- From `low` on, `go` stops at the quote that the measuring pass is still to find. -/
def CopiesFrom (json : JsonText) (start q low : Nat)
    (go : Copying → Traced Copying StringResult) : Prop :=
  ∀ {state : Copying} {content : Bytes}, low ≤ state.offset →
    Boundary json start state.offset → Filled start q state content →
    state.offset ≤ q → measureString (json.rest state.offset) = some (q - state.offset) →
    (go state).Sat (Within start q) fun r =>
      Copied json start q content r (copyString (json.rest state.offset))

namespace CopiesFrom

variable {low : Nat} {go : Copying → Traced Copying StringResult}

/-- `offset` moves over the last byte of a character and the pass goes on. -/
theorem advance (hcopies : CopiesFrom json start q low go) (hlow : low ≤ state.offset + 1)
    (hboundary : Boundary json start (state.offset + 1))
    (hpadded : Padded 0 (q - start + 1) state.out state.optr content)
    (hlag : start + state.optr ≤ state.offset + 1) (hle : state.offset + 1 ≤ q)
    (hrest : json.rest (state.offset + 1) = left)
    (hmeasure : measureString left = some (q - (state.offset + 1))) :
    (state.advance 1 >>= go).Sat (Within start q) fun r =>
      Copied json start q content r (copyString left) := by
  refine (advance_sat hpadded hlag hle).bind fun after hafter => ?_
  obtain ⟨hoffset, hfilled⟩ := hafter
  rw [← hoffset] at hlow hboundary hle hrest hmeasure
  rw [← hrest] at hmeasure ⊢
  exact hcopies hlow hboundary hfilled hle hmeasure

/-- One step of the copying pass, for whatever byte is written. -/
theorem copyByte (hcopies : CopiesFrom json start q low go) (hlow : low ≤ state.offset + 1)
    (hboundary : Boundary json start (state.offset + 1))
    {byte : Byte} (hpadded : Padded 0 (q - start + 1) state.out state.optr content)
    (hlag : start + state.optr ≤ state.offset) (hle : state.offset + 1 ≤ q)
    (hrest : json.rest (state.offset + 1) = left)
    (hmeasure : measureString left = some (q - (state.offset + 1))) :
    (JsonText.copyByte go state byte).Sat (Within start q) fun r =>
      Copied json start q content r
        ((copyString left).map fun p : Bytes × Bytes => ([byte] ++ p.1, p.2)) := by
  refine (put_sat hpadded (by omega) byte).bind fun next hput => ?_
  obtain ⟨hoffset, hoptr, hput⟩ := hput
  rw [← hoffset] at hlow hboundary hlag hle hrest hmeasure
  refine (hcopies.advance hlow hboundary hput (by omega) hle hrest hmeasure).mono ?_
  exact fun r hr => hr.of_append

/-- The measuring pass is one letter behind the backslash, and so is the copying pass
unless the letter is a `u`. -/
theorem copyEscape (hcopies : CopiesFrom json start q low go) (hlow : low ≤ state.offset + 1)
    (hboundary : Boundary json start state.offset)
    (hrest : json.rest state.offset = ch '\\' :: left) (hfilled : Filled start q state content)
    (hle : state.offset ≤ q)
    (hmeasure : measureString (ch '\\' :: left) = some (q - state.offset)) :
    (json.copyEscape go state).Sat (Within start q) fun r =>
      Copied json start q content r (copyString (ch '\\' :: left)) := by
  obtain ⟨e, left, rfl, hescape⟩ := exists_escape_of_measure hmeasure
  rw [measureString_escape hescape] at hmeasure
  obtain ⟨hle', hmeasure'⟩ := measured_of_map hmeasure hle
  have hlag := hfilled.lag
  refine (advance_sat hfilled.padded (by omega) (by omega)).bind fun letter hletter => ?_
  obtain ⟨hoffset, hletter⟩ := hletter
  have hoptr : letter.optr = state.optr := hletter.padded.filled.symm.trans hfilled.padded.filled
  have hnext : json.rest letter.offset = e :: left := by rw [hoffset, json.rest_succ hrest]
  have hbehind : state.offset + 2 = letter.offset + 1 := by omega
  have hescaped : Boundary json start (letter.offset + 1) := hbehind ▸ hboundary.escape hrest
  rw [hbehind] at hle' hmeasure'
  rw [if_neg (Nat.not_le_of_lt (json.lt_stop hnext))]
  refine (Sat.load (json.load_block hnext)).bind fun d hd => ?_
  subst hd
  split
  next hunicode =>
    subst hunicode
    refine (unicodeEscape_sat hnext hletter.padded (by omega) hle' hmeasure').bind fun r hr => ?_
    generalize copyString (ch '\\' :: ch 'u' :: left) = o at hr ⊢
    cases hr with
    | invalid hdigits =>
        rw [json.rest_succ hnext] at hdigits
        exact Sat.pure (.invalid ⟨hboundary, ⟨hboundary.le, by omega⟩, left, hrest, hdigits⟩)
    | @decoded after front left hafter hfilled hle hrest hmeasure hdigits =>
        have hlag := hfilled.lag
        have hfive : after.offset + 1 = letter.offset + 5 := by omega
        have hmet : Boundary json start (after.offset + 1) := hfive ▸ hdigits start hescaped
        rw [← hfive] at hle hrest hmeasure
        refine (hcopies.advance (by omega) hmet hfilled.padded (by omega) hle hrest
          hmeasure).mono ?_
        exact fun r hr => hr.of_append
  next hunicode =>
    -- the measuring pass let only known letters through
    obtain ⟨byte, hbyte⟩ := exists_escapeByte hescape hunicode
    rw [hbyte, copyString_escape hbyte]
    exact hcopies.copyByte (by omega) hescaped hletter.padded hletter.lag hle'
      (json.rest_succ hnext) hmeasure'

end CopiesFrom

/-- From where both passes agree, the copying pass stops where the measuring one did. -/
theorem copiesFrom_copy (json : JsonText) (start q : Nat) {fuel low : Nat}
    (hfuel : json.stop ≤ fuel + low) : CopiesFrom json start q low (json.copy (fuel + 1)) := by
  induction fuel generalizing low with
  | zero =>
      intro state content hlow _ _ _ hmeasure
      rw [json.rest_eq_nil (by omega)] at hmeasure
      cases hmeasure
  | succ fuel ih =>
      intro state content hlow hboundary hfilled hle hmeasure
      have hcopies : CopiesFrom json start q (state.offset + 1) (json.copy (fuel + 1)) :=
        ih (by omega)
      cases hrest : json.rest state.offset with
      | nil =>
          rw [hrest] at hmeasure
          cases hmeasure
      | cons c left =>
          rw [hrest] at hmeasure
          rw [copy, if_pos (json.lt_stop hrest)]
          refine (Sat.load (json.load_block hrest)).bind fun d hd => ?_
          subst hd
          split
          next hquote =>
            subst hquote
            have hq : q = state.offset := by
              rw [measureString.eq_def] at hmeasure
              simp only [if_true, Option.some.injEq] at hmeasure
              omega
            rw [copyString_quote]
            refine Sat.pure (.closed hq.symm (hq ▸ json.rest_succ hrest) ?_)
            rw [List.append_nil]
            exact hfilled
          next hquote =>
            split
            next hslash =>
              subst hslash
              exact hcopies.copyEscape (Nat.le_refl _) hboundary hrest hfilled hle hmeasure
            next hslash =>
              rw [measureString_plain hquote hslash] at hmeasure
              obtain ⟨hle', hmeasure'⟩ := measured_of_map hmeasure hle
              rw [copyString_plain hquote hslash]
              exact hcopies.copyByte (Nat.le_refl _) (hboundary.plain hrest hquote hslash)
                hfilled.padded hfilled.lag hle' (json.rest_succ hrest) hmeasure'

/-! ## Both passes -/

theorem lt_of_measureString {s : Bytes} {n : Nat} (hmeasure : measureString s = some n) :
    n < s.length := by
  fun_induction measureString s generalizing n with
  | case1 => cases hmeasure
  | case2 rest =>
      cases hmeasure
      exact Nat.zero_lt_succ rest.length
  | case3 => cases hmeasure
  | case4 e rest hescape hquote ih =>
      obtain ⟨m, hm, rfl⟩ := Option.map_eq_some_iff.mp hmeasure
      have hlt := ih hm
      simp only [List.length_cons]
      omega
  | case5 => cases hmeasure
  | case6 c rest hquote hslash ih =>
      obtain ⟨m, hm, rfl⟩ := Option.map_eq_some_iff.mp hmeasure
      have hlt := ih hm
      simp only [List.length_cons]
      omega

/-- An `int` counts the bytes of every string of the text. -/
theorem callocInt_sat {P : Copying → Prop} {size : Nat} (hsize : size < 2 ^ 31) :
    (callocInt (Int32.ofNat size)).Sat P fun out => Padded 0 size out 0 [] := by
  have hint : (Int32.ofNat size).toInt = size := Int32.toInt_ofNat_of_lt hsize
  rw [callocInt, hint, if_pos (Int.natCast_nonneg size), Int.toNat_natCast]
  exact Sat.pure (Padded.replicate 0 size)

/-- The measuring pass finds the closing quotation mark, by induction on what is left. -/
theorem measuringPass_sat {P : Copying → Prop} (offset : Nat) :
    (json.measuringPass offset).Sat P
      (· = (measureString (json.rest (offset + 1))).map (offset + 1 + ·)) :=
  json.measure_sat (Nat.le_add_right _ _)

/-- The copying pass behind the measuring one. -/
theorem copyingPass_sat {offset n : Nat}
    (hmeasure : measureString (json.rest (offset + 1)) = some n) :
    (json.copyingPass offset (offset + 1 + n)).Sat (Within (offset + 1) (offset + 1 + n)) fun r =>
      Copied json (offset + 1) (offset + 1 + n) [] r (copyString (json.rest (offset + 1))) := by
  have hlt := lt_of_measureString hmeasure
  have hlength : (json.rest (offset + 1)).length ≤ json.text.length := by
    rw [rest, List.length_drop]
    exact Nat.sub_le _ _
  have hcount := json.countable
  refine (callocInt_sat (by omega)).bind fun out hout => ?_
  have hfilled : Filled (offset + 1) (offset + 1 + n) ⟨offset + 1, out, 0⟩ [] :=
    ⟨hout, Nat.le_refl _⟩
  have hle : offset + 1 ≤ offset + 1 + n := Nat.le_add_right _ _
  refine Sat.passing (hfilled.within hle) ?_
  have hcopies : CopiesFrom json (offset + 1) (offset + 1 + n) 0 (json.copy (json.stop + 1)) :=
    json.copiesFrom_copy _ _ (Nat.le_refl _)
  refine hcopies (Nat.zero_le _) .start hfilled hle ?_
  rw [hmeasure, Nat.add_sub_cancel_left]

/-- `offset` ends behind the quote, and the block holds what the list model copies. -/
inductive Decoded (json : JsonText) (start q : Nat) :
    StringResult → Option (Bytes × Bytes) → Prop
  | invalid {p : Nat} (hinvalid : InvalidUnicode json start q p) :
      Decoded json start q .invalidUnicode none
  | closed {state : Copying} {content left : Bytes} (hoffset : state.offset = q + 1)
      (hrest : json.rest (q + 1) = left)
      (hpadded : Padded 0 (q - start + 1) state.out state.optr content) :
      Decoded json start q (.closed state) (some (content, left))

/-- Both passes together, when the measuring pass has found the end: the copying pass stays
within the block that was allocated for the measured length. -/
theorem decodeJsonString_sat {offset n : Nat}
    (hmeasure : measureString (json.rest (offset + 1)) = some n) :
    (json.decodeJsonString offset).Sat (Within (offset + 1) (offset + 1 + n)) fun r =>
      Decoded json (offset + 1) (offset + 1 + n) r (copyString (json.rest (offset + 1))) := by
  refine (json.measuringPass_sat offset).bind fun measured hmeasured => ?_
  rw [hmeasure] at hmeasured
  subst hmeasured
  refine (json.copyingPass_sat hmeasure).bind fun r hr => ?_
  generalize copyString (json.rest (offset + 1)) = o at hr ⊢
  cases hr with
  | invalid hinvalid => exact Sat.pure (.invalid hinvalid)
  | @closed after content left hoffset hrest hfilled =>
      have hwithin := hfilled.within (Nat.le_of_eq hoffset)
      have hpassed : Within (offset + 1) (offset + 1 + n)
          { after with offset := after.offset + 1 } :=
        ⟨Nat.le_of_eq (congrArg (· + 1) hoffset), hwithin.written, hwithin.block,
          hwithin.terminated⟩
      refine (Sat.passing hpassed (Sat.pure (Q := (· = { after with
        offset := after.offset + 1 })) rfl)).bind fun state hstate => Sat.pure ?_
      subst hstate
      exact .closed (congrArg (· + 1) hoffset) hrest hfilled.padded

/-- Whenever the measuring pass finds a closing quote at `q`, the copying pass refuses a
`\u` escape in front of that quote which has not its four digits, or ends behind the quote.
On the way nothing behind the terminator is read, `offset` is not moved beyond the quote,
and the block keeps a terminator behind what was written. -/
theorem decodeJsonString_passes_agree (json : JsonText) (offset q : Nat)
    (hmeasured : json.measuringPass offset = pure (some q)) :
    ∃ result visited, json.decodeJsonString offset = some (result, visited) ∧
      (∀ state ∈ visited, Within (offset + 1) q state) ∧
      ((result = .invalidUnicode ∧ ∃ p, InvalidUnicode json (offset + 1) q p) ∨
        ∃ state, result = .closed state ∧ state.offset = q + 1) := by
  have hfound := (json.measuringPass_sat (P := fun _ => True) offset).result hmeasured
  obtain ⟨n, hmeasure, rfl⟩ := Option.map_eq_some_iff.mp hfound.symm
  obtain ⟨result, visited, hrun, hvisited, hdecoded⟩ := json.decodeJsonString_sat hmeasure
  refine ⟨result, visited, hrun, hvisited, ?_⟩
  generalize copyString (json.rest (offset + 1)) = o at hdecoded
  cases hdecoded with
  | invalid hinvalid => exact Or.inl ⟨rfl, _, hinvalid⟩
  | closed hoffset _ _ => exact Or.inr ⟨_, rfl, hoffset⟩

/-- A string with an escape of four digits is decoded up to its quote, and one whose digits
are cut short by the quote is refused. -/
theorem decodeJsonString_passes_agree_unicode :
    (∃ state visited, (JsonText.mk (bytes "\"\\u00e9\\n\" ") (by decide)).decodeJsonString 0 =
        some (.closed state, visited) ∧ state.offset = 10 ∧
        ∀ state ∈ visited, Within 1 9 state) ∧
      ∃ p, InvalidUnicode (JsonText.mk (bytes "\"\\u00e\" ") (by decide)) 1 6 p := by
  have hread : ∀ visited,
      (JsonText.mk (bytes "\"\\u00e9\\n\" ") (by decide)).decodeJsonString 0 ≠
        some (.invalidUnicode, visited) := by
    intro visited hrun
    cases hrun
  have hrefused : ∀ state visited,
      (JsonText.mk (bytes "\"\\u00e\" ") (by decide)).decodeJsonString 0 ≠
        some (.closed state, visited) := by
    intro state visited hrun
    cases hrun
  constructor
  · obtain ⟨result, visited, hrun, hvisited, ⟨rfl, -⟩ | ⟨state, rfl, hoffset⟩⟩ :=
      decodeJsonString_passes_agree (JsonText.mk (bytes "\"\\u00e9\\n\" ") (by decide)) 0 9 rfl
    · exact absurd hrun (hread visited)
    · exact ⟨state, visited, hrun, hoffset, hvisited⟩
  · obtain ⟨result, visited, hrun, -, ⟨-, hinvalid⟩ | ⟨state, rfl, -⟩⟩ :=
      decodeJsonString_passes_agree (JsonText.mk (bytes "\"\\u00e\" ") (by decide)) 0 6 rfl
    · exact hinvalid
    · exact absurd hrun (hrefused state visited)

/-- A block that is padded with zero bytes is read as its content. -/
theorem cstr_of_padded {capacity size : Nat} {block content : Bytes}
    (hpadded : Padded 0 capacity block size content) : cstr block = cstr content := by
  obtain ⟨back, rfl⟩ := hpadded.front
  cases back with
  | nil => rw [List.append_nil]
  | cons c back =>
      have hzero : c = 0 := by
        apply hpadded.rest
        rw [← hpadded.filled, List.drop_left]
        exact List.mem_cons_self
      rw [hzero, cstr_append_zero]

/-- The value and the position behind it, where there is one. -/
def decoded (json : JsonText) (depth : Nat) : StringResult → Option (Bytes × JsonString)
  | .closed state => some (cstr state.out, ⟨json.rest state.offset, depth⟩)
  | _ => none

/-- `decode_json_string` on memory is the one on lists. -/
theorem decodeJsonString_refines (json : JsonText) (offset depth : Nat) :
    ∃ result visited, json.decodeJsonString offset = some (result, visited) ∧
      Json.decodeJsonString ⟨json.rest offset, depth⟩ = json.decoded depth result := by
  have htext : (json.rest offset).drop 1 = json.rest (offset + 1) := List.drop_drop
  rw [Json.decodeJsonString]
  dsimp only
  rw [htext]
  cases hmeasure : measureString (json.rest (offset + 1)) with
  | none =>
      have hunmeasured : (json.decodeJsonString offset).Sat (fun _ => True) (· = .unmeasured) := by
        refine (json.measuringPass_sat offset).bind fun measured hmeasured => ?_
        rw [hmeasure] at hmeasured
        subst hmeasured
        exact Sat.pure rfl
      obtain ⟨result, visited, hrun, -, rfl⟩ := hunmeasured
      exact ⟨_, visited, hrun, rfl⟩
  | some n =>
      obtain ⟨result, visited, hrun, -, hdecoded⟩ := json.decodeJsonString_sat hmeasure
      refine ⟨result, visited, hrun, ?_⟩
      generalize copyString (json.rest (offset + 1)) = o at hdecoded ⊢
      cases hdecoded with
      | invalid => rfl
      | @closed state content left hoffset hrest hpadded =>
          rw [decoded, hoffset, hrest, cstr_of_padded hpadded]
          rfl

end JsonText

end DbSlayer.Json
