import DbSlayer.Foundation.Scan
import DbSlayer.Json.Grammar

/-! # Numbers of the decoder

`decodeJsonNumber` scans ahead to choose between `strtol` and `strtod`, and
leaves it to them to find the end of the number. Both directions against
`NumberText` are here. The only text where the choice does not fit the number
consumed is an exponent mark without digits, as in `12e`: it selects `strtod`,
which then leaves the mark behind.
-/

namespace DbSlayer.Json

open Foundation

variable {δ : Type} [CDouble δ]

/-- A byte that makes the scan choose `strtod`. -/
def isFloatMark (c : Byte) : Bool := c = ch 'e' || c = ch 'E' || c = ch '.'

/-- The start of a number, as `decodeJsonValue` selects it. -/
def NumberStart (sign text : Bytes) : Prop :=
  (sign = [] ∧ ∃ c rest, text = c :: rest ∧ isdigit c = true) ∨ sign = [ch '-']

theorem isdigit_minus : isdigit (ch '-') = false := by decide

theorem not_isspace_of_isdigit {c : Byte} : isdigit c = true → isspace c = false :=
  forall_byte (p := fun c => isdigit c = true → isspace c = false) (by decide +kernel) c

theorem isdigit_ne {c d : Byte} (hc : isdigit c = true) (hd : isdigit d = false) : c ≠ d := by
  rintro rfl
  simp [hc] at hd

/-- A text that starts like a number has an optional sign in front of it. -/
theorem exists_numberStart {s : Bytes} {c : Byte} (hhead : s.head? = some c)
    (hc : c = ch '-' ∨ isdigit c = true) :
    ∃ sign text, s = sign ++ text ∧ NumberStart sign text := by
  cases s with
  | nil => simp at hhead
  | cons d rest =>
      obtain rfl : d = c := by simpa using hhead
      rcases hc with rfl | hdigit
      · exact ⟨[ch '-'], rest, rfl, .inr rfl⟩
      · exact ⟨[], d :: rest, rfl, .inl ⟨rfl, d, rest, rfl, hdigit⟩⟩

namespace NumberStart

variable {sign text : Bytes}

theorem sign_eq (hstart : NumberStart sign text) : sign = [] ∨ sign = [ch '-'] :=
  hstart.imp And.left id

theorem takeWhile_isspace (hstart : NumberStart sign text) :
    (sign ++ text).takeWhile isspace = [] := by
  rcases hstart with ⟨rfl, c, rest, rfl, hdigit⟩ | rfl
  · simp [not_isspace_of_isdigit hdigit]
  · rfl

theorem signLength_eq (hstart : NumberStart sign text) :
    signLength (sign ++ text) = sign.length := by
  rcases hstart with ⟨rfl, c, rest, rfl, hdigit⟩ | rfl
  · simp [signLength, isdigit_ne hdigit isdigit_minus,
      isdigit_ne hdigit (show isdigit (ch '+') = false by decide)]
  · rfl

/-- The scan for a float mark steps over the sign. -/
theorem scanFloat_eq (hstart : NumberStart sign text) :
    scanFloat true (sign ++ text) = scanFloat false text := by
  rcases hstart with ⟨rfl, c, rest, rfl, hdigit⟩ | rfl
  · simp [scanFloat, hdigit]
  · simp [scanFloat]

/-- `strtol` reads the digits behind the sign and clamps their value to 64 bits. -/
theorem strtol_eq (hstart : NumberStart sign text) :
    strtol (sign ++ text) =
      if text.takeWhile isdigit = [] then (0, 0)
      else (Int64.ofIntClamp (integerValue (sign ++ text.takeWhile isdigit)),
        (sign ++ text.takeWhile isdigit).length) := by
  simp only [strtol, hstart.takeWhile_isspace, List.length_nil, List.drop_zero,
    hstart.signLength_eq, List.drop_left]
  rcases hstart with ⟨rfl, c, rest, rfl, hdigit⟩ | rfl
  · simp [integerValue, hdigit, isdigit_ne hdigit isdigit_minus]
  · simp [integerValue, Nat.add_comm]

/-- `strtod` reads the sign with the body, or nothing when there is no body. -/
theorem strtodLength_eq (hstart : NumberStart sign text) :
    strtodLength (sign ++ text) =
      if strtodBodyLength text = 0 then 0 else sign.length + strtodBodyLength text := by
  simp only [strtodLength, hstart.takeWhile_isspace, List.length_nil, List.drop_zero,
    hstart.signLength_eq, List.drop_left, Nat.zero_add]

end NumberStart

/-- Behind the digits, the scan decides by the next byte. -/
theorem scanFloat_false_append {digits rest : Bytes} (hdigits : Digits digits)
    (hstops : Stops isdigit rest) :
    scanFloat false (digits ++ rest) = (rest.head?.map isFloatMark).getD false := by
  induction digits with
  | nil =>
      cases rest with
      | nil => rfl
      | cons c rest => simp [scanFloat, stops_cons.mp hstops, isFloatMark]
  | cons c digits ih =>
      have hc : isdigit c = true := hdigits c List.mem_cons_self
      rw [List.cons_append, scanFloat, if_pos (by simp [hc])]
      exact ih fun d hd => hdigits d (List.mem_cons_of_mem c hd)

/-- What `strtol` and `strtod` make of a number whose digits are known. -/
theorem decodeJsonNumber_eq {sign digits rest : Bytes} {depth : Nat}
    (hstart : NumberStart sign (digits ++ rest)) (hdigits : Digits digits)
    (hstops : Stops isdigit rest) :
    decodeJsonNumber (δ := δ) ⟨sign ++ (digits ++ rest), depth⟩ =
      if (rest.head?.map isFloatMark).getD false = true then
        if strtodBodyLength (digits ++ rest) = 0 then none
        else some
          (.double (CDouble.ofText
            (sign ++ (digits ++ rest).take (strtodBodyLength (digits ++ rest)))),
            ⟨(digits ++ rest).drop (strtodBodyLength (digits ++ rest)), depth⟩)
      else if digits = [] then none
      else some (.long (Int64.ofIntClamp (integerValue (sign ++ digits))), ⟨rest, depth⟩) := by
  have htake : (digits ++ rest).takeWhile isdigit = digits :=
    takeWhile_append_stops hdigits hstops
  rw [decodeJsonNumber, hstart.scanFloat_eq, scanFloat_false_append hdigits hstops]
  split
  next hfloat =>
    simp only [strtod, hstart.strtodLength_eq]
    split
    next hzero => simp
    next hzero =>
      rw [if_neg (by omega), List.take_length_add_append, List.drop_length_add_append]
  next hfloat =>
    rw [hstart.strtol_eq, htake]
    by_cases hnil : digits = []
    · simp [hnil]
    · have hlength : (sign ++ digits).length ≠ 0 := by simp [hnil]
      simp only [if_neg hnil, if_neg hlength]
      rw [← List.append_assoc, List.drop_left]

/-! ## The subject sequence of `strtod` -/

/-- A byte that `strtod` may take behind a mantissa of digits. -/
def isNumberByte (c : Byte) : Bool := isdigit c || isFloatMark c

theorem stops_isdigit {rest : Bytes} (hstops : Stops isNumberByte rest) : Stops isdigit rest := by
  intro c hc
  have hbyte := hstops c hc
  simp only [isNumberByte, Bool.or_eq_false_iff] at hbyte
  exact hbyte.1

theorem stops_isFloatMark {rest : Bytes} (hstops : Stops isNumberByte rest) :
    Stops isFloatMark rest := by
  intro c hc
  have hbyte := hstops c hc
  simp only [isNumberByte, Bool.or_eq_false_iff] at hbyte
  exact hbyte.2

/-- No letter of a special word of `strtod` occurs in a decimal number. -/
theorem tolower_isNumberByte {c : Byte} :
    isNumberByte c = true → tolower c ≠ ch 'x' ∧ tolower c ≠ ch 'i' ∧ tolower c ≠ ch 'n' :=
  forall_byte (p := fun c => isNumberByte c = true →
    tolower c ≠ ch 'x' ∧ tolower c ≠ ch 'i' ∧ tolower c ≠ ch 'n') (by decide +kernel) c

theorem startsWord_cons {letter c : Byte} {word s : Bytes} :
    startsWord (letter :: word) (c :: s) = true ↔
      tolower c = letter ∧ startsWord word s = true := by
  simp [startsWord]

/-- Digits and a float mark are no hexadecimal number, no infinity and no NaN. -/
theorem strtodBodyLength_eq {digits rest : Bytes} {mark : Byte} (hdigits : Digits digits)
    (hmark : isFloatMark mark = true) :
    strtodBodyLength (digits ++ mark :: rest) =
      floatLength isdigit (ch 'e') (ch 'E') (digits ++ mark :: rest) := by
  obtain ⟨first, more, hsplit, hfirst⟩ : ∃ first more, digits ++ mark :: rest = first :: more ∧
      isNumberByte first = true := by
    cases digits with
    | nil => exact ⟨mark, rest, rfl, by simp [isNumberByte, hmark]⟩
    | cons d digits => exact ⟨d, digits ++ mark :: rest, rfl,
        by simp [isNumberByte, hdigits d List.mem_cons_self]⟩
  have hword : ∀ letter word, (letter = ch 'i' ∨ letter = ch 'n') →
      startsWord (letter :: word) (digits ++ mark :: rest) = false := by
    intro letter word hletter
    rw [Bool.eq_false_iff, hsplit]
    intro hstarts
    have hlower := (startsWord_cons.mp hstarts).1
    have hnot := tolower_isNumberByte hfirst
    rcases hletter with rfl | rfl
    · exact hnot.2.1 hlower
    · exact hnot.2.2 hlower
  have hhex : startsWord (bytes "0x") (digits ++ mark :: rest) = false := by
    rw [Bool.eq_false_iff]
    intro hstarts
    -- The second byte is a digit or the mark, or it does not exist.
    match digits, hdigits with
    | [], _ =>
        have hlower := (startsWord_cons.mp hstarts).1
        revert hlower
        exact forall_byte (p := fun c => isFloatMark c = true → tolower c ≠ ch '0')
          (by decide +kernel) mark hmark
    | [d], hdigits =>
        have hlower := (startsWord_cons.mp (startsWord_cons.mp hstarts).2).1
        exact (tolower_isNumberByte (by simp [isNumberByte, hmark])).1 hlower
    | d :: d' :: more, hdigits =>
        have hlower := (startsWord_cons.mp (startsWord_cons.mp hstarts).2).1
        have hd : isdigit d' = true := hdigits d' (by simp)
        exact (tolower_isNumberByte (by simp [isNumberByte, hd])).1 hlower
  rw [strtodBodyLength, hhex, show bytes "infinity" = ch 'i' :: bytes "nfinity" from rfl,
    show bytes "inf" = ch 'i' :: bytes "nf" from rfl,
    show bytes "nan" = ch 'n' :: bytes "an" from rfl, hword _ _ (.inl rfl), hword _ _ (.inl rfl),
    hword _ _ (.inr rfl)]
  rfl

theorem mantissaLength_point {whole fraction rest : Bytes} (hwhole : Digits whole)
    (hfraction : Digits fraction) (hstops : Stops isdigit rest) :
    mantissaLength isdigit (whole ++ ch '.' :: (fraction ++ rest)) =
      if whole.length + fraction.length = 0 then 0
      else whole.length + 1 + fraction.length := by
  have htake : (whole ++ ch '.' :: (fraction ++ rest)).takeWhile isdigit = whole :=
    takeWhile_append_stops hwhole (stops_cons.mpr (by decide))
  simp only [mantissaLength, htake, List.drop_left, takeWhile_append_stops hfraction hstops,
    if_true]

theorem mantissaLength_whole {whole rest : Bytes} (hwhole : Digits whole)
    (hstops : Stops isdigit rest) (hpoint : rest.head? ≠ some (ch '.')) :
    mantissaLength isdigit (whole ++ rest) = whole.length := by
  have htake : (whole ++ rest).takeWhile isdigit = whole :=
    takeWhile_append_stops hwhole hstops
  simp only [mantissaLength, htake, List.drop_left]
  cases rest with
  | nil => rfl
  | cons c rest => simp [show c ≠ ch '.' by simpa using hpoint]

/-- The mantissa that `strtod` takes, behind the digits the scan went over. -/
theorem exists_mantissa {digits rest : Bytes} (hdigits : Digits digits)
    (hstops : Stops isdigit rest) (hlength : mantissaLength isdigit (digits ++ rest) ≠ 0) :
    ∃ mantissa more, digits ++ rest = mantissa ++ more ∧ Mantissa mantissa ∧
      mantissaLength isdigit (digits ++ rest) = mantissa.length ∧
      (mantissa = digits ∧ rest.head? ≠ some (ch '.') ∨ ch '.' ∈ mantissa) := by
  by_cases hpoint : rest.head? = some (ch '.')
  · obtain ⟨tail, rfl⟩ : ∃ tail, rest = ch '.' :: tail := by
      cases rest with
      | nil => simp at hpoint
      | cons c tail => exact ⟨tail, by simpa using hpoint⟩
    obtain ⟨fraction, more, rfl, hfraction, hmore⟩ := exists_run isdigit tail
    rw [mantissaLength_point hdigits hfraction hmore] at hlength ⊢
    have hsome : digits.length + fraction.length ≠ 0 := by
      intro hzero
      simp [hzero] at hlength
    rw [if_neg hsome]
    refine ⟨digits ++ ch '.' :: fraction, more, by simp, ?_, ?_, .inr (by simp)⟩
    · cases digits with
      | nil => exact .leading (by rintro rfl; simp at hsome) hfraction
      | cons d digits => exact .point (by simp) hdigits hfraction
    · simp
      omega
  · rw [mantissaLength_whole hdigits hstops hpoint] at hlength ⊢
    exact ⟨digits, rest, rfl, .whole (by rintro rfl; simp at hlength) hdigits, rfl,
      .inl ⟨rfl, hpoint⟩⟩

theorem mantissaLength_append {mantissa rest : Bytes} (hmantissa : Mantissa mantissa)
    (hstops : Stops isdigit rest) (hpoint : rest.head? ≠ some (ch '.')) :
    mantissaLength isdigit (mantissa ++ rest) = mantissa.length := by
  cases hmantissa with
  | whole hne hdigits => exact mantissaLength_whole hdigits hstops hpoint
  | @point whole fraction hne hwhole hfraction =>
      have hpos : 0 < whole.length := List.length_pos_iff.mpr hne
      rw [List.append_assoc, List.cons_append, mantissaLength_point hwhole hfraction hstops,
        if_neg (by omega)]
      simp
      omega
  | @leading fraction hne hfraction =>
      have hpos : 0 < fraction.length := List.length_pos_iff.mpr hne
      have hnone : Digits [] := by simp [Digits]
      have hlength := mantissaLength_point hnone hfraction hstops
      rw [List.nil_append, List.length_nil, if_neg (by omega)] at hlength
      rw [List.cons_append, hlength]
      simp
      omega

/-- The exponent that `strtod` takes: a complete one or none. -/
theorem exists_exponent (s : Bytes) :
    ∃ exponent more, s = exponent ++ more ∧ Exponent exponent ∧
      exponentLength (ch 'e') (ch 'E') s = exponent.length := by
  cases s with
  | nil => exact ⟨[], [], rfl, .absent, rfl⟩
  | cons c rest =>
      by_cases hmark : c = ch 'e' ∨ c = ch 'E'
      · obtain ⟨digits, more, hsplit, hdigits, hmore⟩ :=
          exists_run isdigit (rest.drop (signLength rest))
        have htake : ((rest.drop (signLength rest)).takeWhile isdigit) = digits := by
          rw [hsplit, takeWhile_append_stops hdigits hmore]
        by_cases hnil : digits = []
        · refine ⟨[], c :: rest, rfl, .absent, ?_⟩
          simp [exponentLength, htake, hnil]
        · have hsign : rest.take (signLength rest) = [] ∨ rest.take (signLength rest) = [ch '+'] ∨
              rest.take (signLength rest) = [ch '-'] := by
            cases rest with
            | nil => exact .inl rfl
            | cons d rest =>
                simp only [signLength]
                split
                next hd => rcases hd with rfl | rfl <;> simp
                next hd => simp
          have hlength : (rest.take (signLength rest)).length = signLength rest := by
            cases rest with
            | nil => rfl
            | cons d rest => simp only [signLength]; split <;> simp
          refine ⟨c :: (rest.take (signLength rest) ++ digits), more, ?_,
            .present hmark hsign hnil hdigits, ?_⟩
          · rw [List.cons_append, List.append_assoc, ← hsplit, List.take_append_drop]
          · have hpos : digits.length ≠ 0 := by simp [hnil]
            simp only [exponentLength, htake, if_pos hmark, if_neg hpos, List.length_cons,
              List.length_append, hlength]
            omega
      · exact ⟨[], c :: rest, rfl, .absent, by simp [exponentLength, hmark]⟩

theorem exponentLength_append {exponent rest : Bytes} (hexponent : Exponent exponent)
    (hstops : Stops isNumberByte rest) :
    exponentLength (ch 'e') (ch 'E') (exponent ++ rest) = exponent.length := by
  cases hexponent with
  | absent =>
      cases rest with
      | nil => rfl
      | cons c rest =>
          have hmark := stops_cons.mp (stops_isFloatMark hstops)
          simp only [isFloatMark, Bool.or_eq_false_iff, decide_eq_false_iff_not] at hmark
          simp [exponentLength, hmark]
  | @present mark sign digits hmark hsign hne hdigits =>
      have hlength : signLength (sign ++ (digits ++ rest)) = sign.length := by
        rcases hsign with rfl | rfl | rfl
        · cases digits with
          | nil => exact absurd rfl hne
          | cons d digits =>
              have hd : isdigit d = true := hdigits d List.mem_cons_self
              simp [signLength, isdigit_ne hd isdigit_minus,
                isdigit_ne hd (show isdigit (ch '+') = false by decide)]
        · rfl
        · rfl
      have hpos : digits.length ≠ 0 := by simp [hne]
      simp only [exponentLength, List.cons_append, List.append_assoc, hlength, List.drop_left,
        takeWhile_append_stops hdigits (stops_isdigit hstops), if_pos hmark, if_neg hpos,
        List.length_cons, List.length_append]
      omega

theorem mantissa_ne_nil {mantissa : Bytes} (hmantissa : Mantissa mantissa) : mantissa ≠ [] := by
  cases hmantissa with
  | whole hne _ => exact hne
  | point _ _ _ => simp
  | leading _ _ => simp

/-- Neither an exponent nor what ends the number goes on with the mantissa. -/
theorem exponent_stops {exponent rest : Bytes} (hexponent : Exponent exponent)
    (hstops : Stops isNumberByte rest) :
    Stops isdigit (exponent ++ rest) ∧ (exponent ++ rest).head? ≠ some (ch '.') := by
  cases hexponent with
  | absent =>
      refine ⟨stops_isdigit hstops, ?_⟩
      intro hpoint
      have hbyte := hstops _ hpoint
      revert hbyte
      decide
  | present hmark hsign hne hdigits =>
      rcases hmark with rfl | rfl
      · exact ⟨stops_cons.mpr (by decide), by simp; decide⟩
      · exact ⟨stops_cons.mpr (by decide), by simp; decide⟩

/-- `strtod` reads exactly the text of a number: the mantissa and the exponent, up to the byte
that ends it. -/
theorem floatLength_append {mantissa exponent rest : Bytes} (hmantissa : Mantissa mantissa)
    (hexponent : Exponent exponent) (hstops : Stops isNumberByte rest) :
    floatLength isdigit (ch 'e') (ch 'E') (mantissa ++ (exponent ++ rest)) =
      (mantissa ++ exponent).length := by
  obtain ⟨hdigit, hpoint⟩ := exponent_stops hexponent hstops
  have hpos : mantissa.length ≠ 0 := by simp [mantissa_ne_nil hmantissa]
  simp only [floatLength, mantissaLength_append hmantissa hdigit hpoint, if_neg hpos,
    List.drop_left, exponentLength_append hexponent hstops, List.length_append]

/-- A number is a run of digits, or its first other byte selects `strtod`. -/
theorem digits_or_mark {mantissa exponent : Bytes} (hmantissa : Mantissa mantissa)
    (hexponent : Exponent exponent) :
    Digits (mantissa ++ exponent) ∨ ∃ digits mark tail,
      mantissa ++ exponent = digits ++ mark :: tail ∧ Digits digits ∧
        isFloatMark mark = true := by
  cases hmantissa with
  | whole hne hdigits =>
      cases hexponent with
      | absent =>
          left
          simpa using hdigits
      | @present mark sign digits hmark _ _ _ =>
          exact .inr ⟨mantissa, mark, sign ++ digits, rfl, hdigits,
            by simpa [isFloatMark] using .inl hmark⟩
  | @point whole fraction hne hwhole hfraction =>
      exact .inr ⟨whole, ch '.', fraction ++ exponent, by simp, hwhole, by decide⟩
  | @leading fraction hne hfraction =>
      exact .inr ⟨[], ch '.', fraction ++ exponent, by simp, by simp [Digits], by decide⟩

/-- A float mark anywhere makes the number a double. -/
theorem isInteger_eq_false {text : Bytes} {c : Byte} (hmem : c ∈ text)
    (hmark : isFloatMark c = true) : isInteger text = false := by
  rw [Bool.eq_false_iff]
  intro hint
  have hbyte := List.all_eq_true.mp hint c hmem
  revert hbyte hmark
  exact forall_byte (p := fun c => isFloatMark c = true →
    (isdigit c || c = ch '-') = true → False) (by decide +kernel) c

theorem isInteger_append {sign digits : Bytes} (hsign : sign = [] ∨ sign = [ch '-'])
    (hdigits : Digits digits) : isInteger (sign ++ digits) = true := by
  have hall : digits.all (fun c => isdigit c || c = ch '-') = true := by
    rw [List.all_eq_true]
    intro c hc
    simp [hdigits c hc]
  rcases hsign with rfl | rfl
  · exact hall
  · simpa [isInteger] using hall

/-- Every number of the grammar has its sign in front of it. -/
theorem numberStart_of_text {sign mantissa more : Bytes} {c : Byte}
    (hhead : (sign ++ (mantissa ++ more)).head? = some c) (hc : c = ch '-' ∨ isdigit c = true)
    (hsign : sign = [] ∨ sign = [ch '-']) (hmantissa : Mantissa mantissa) :
    NumberStart sign (mantissa ++ more) := by
  rcases hsign with rfl | rfl
  · left
    refine ⟨rfl, ?_⟩
    cases hmantissa with
    | whole hne hdigits =>
        cases mantissa with
        | nil => exact absurd rfl hne
        | cons d mantissa => exact ⟨d, mantissa ++ more, rfl, hdigits d List.mem_cons_self⟩
    | @point whole fraction hne hwhole hfraction =>
        cases whole with
        | nil => exact absurd rfl hne
        | cons d whole => exact ⟨d, _, rfl, hwhole d List.mem_cons_self⟩
    | leading hne hfraction =>
        -- A leading radix character needs the sign.
        obtain rfl : ch '.' = c := by simpa using hhead
        exact absurd hc (by decide)
  · exact .inr rfl

/-- A number in front of a delimiter is decoded as a whole. -/
theorem decodeJsonNumber_complete {text rest : Bytes} {depth : Nat} (htext : NumberText text)
    (hstops : Stops isNumberByte rest) :
    decodeJsonNumber (δ := δ) ⟨text ++ rest, depth⟩ = some (numberValue text, ⟨rest, depth⟩) := by
  obtain ⟨⟨c, hhead, hc⟩, sign, mantissa, exponent, hsign, hmantissa, hexponent, rfl⟩ := htext
  have hstart : NumberStart sign (mantissa ++ (exponent ++ rest)) := by
    refine numberStart_of_text (c := c) ?_ hc hsign hmantissa
    rw [← List.append_assoc mantissa, ← List.append_assoc sign, List.head?_append, hhead]
    rfl
  rcases digits_or_mark hmantissa hexponent with
    hdigits | ⟨digits, mark, tail, hsplit, hdigits, hmark⟩
  · have hnone : (rest.head?.map isFloatMark).getD false = false := by
      cases rest with
      | nil => rfl
      | cons c rest => simpa using stops_cons.mp (stops_isFloatMark hstops)
    have hne : mantissa ++ exponent ≠ [] := by simp [mantissa_ne_nil hmantissa]
    rw [← List.append_assoc] at hstart
    rw [List.append_assoc sign, decodeJsonNumber_eq hstart hdigits (stops_isdigit hstops),
      hnone, if_neg (by simp), if_neg hne, numberValue, if_pos (isInteger_append hsign hdigits)]
  · have htext : mantissa ++ (exponent ++ rest) = digits ++ mark :: (tail ++ rest) := by
      rw [← List.append_assoc, hsplit]
      simp
    have hmark' : isdigit mark = false :=
      forall_byte (p := fun c => isFloatMark c = true → isdigit c = false)
        (by decide +kernel) mark hmark
    have hbody : strtodBodyLength (digits ++ mark :: (tail ++ rest)) =
        (mantissa ++ exponent).length := by
      rw [strtodBodyLength_eq hdigits hmark, ← htext, floatLength_append hmantissa hexponent hstops]
    have hpos : (mantissa ++ exponent).length ≠ 0 := by simp [mantissa_ne_nil hmantissa]
    have hfloat : isInteger (sign ++ (mantissa ++ exponent)) = false :=
      isInteger_eq_false (by simp [hsplit]) hmark
    rw [htext] at hstart
    rw [List.append_assoc sign, List.append_assoc mantissa, htext,
      decodeJsonNumber_eq hstart hdigits (stops_cons.mpr hmark'), hbody, if_neg hpos, ← htext,
      ← List.append_assoc mantissa, List.take_left, List.drop_left, numberValue, hfloat]
    simp [hmark]

/-- What a number decodes to was consumed as a number, and denotes the value
unless an exponent mark was left behind. -/
theorem decodeJsonNumber_sound {s : Bytes} {depth : Nat} {c : Byte} {value : JsonValue δ}
    {after : JsonString} (hhead : s.head? = some c) (hc : c = ch '-' ∨ isdigit c = true)
    (hdecode : decodeJsonNumber ⟨s, depth⟩ = some (value, after)) :
    after.depth = depth ∧ ∃ text, s = text ++ after.offset ∧ NumberText text ∧
      (Stops isNumberByte after.offset → value = numberValue text) := by
  obtain ⟨sign, body, rfl, hstart⟩ := exists_numberStart hhead hc
  obtain ⟨digits, rest, rfl, hdigits, hstops⟩ := exists_run isdigit body
  rw [decodeJsonNumber_eq hstart hdigits hstops] at hdecode
  have hnumber : ∀ {mantissa exponent : Bytes}, Mantissa mantissa → Exponent exponent →
      (sign ++ (mantissa ++ exponent)) <+: (sign ++ (digits ++ rest)) →
      NumberText (sign ++ (mantissa ++ exponent)) := by
    intro mantissa exponent hmantissa hexponent hprefix
    obtain ⟨more, hmore⟩ := hprefix
    refine ⟨⟨c, ?_, hc⟩, sign, mantissa, exponent, hstart.sign_eq, hmantissa, hexponent, rfl⟩
    have hne : sign ++ (mantissa ++ exponent) ≠ [] := by simp [mantissa_ne_nil hmantissa]
    rw [← hhead, ← hmore, List.head?_append_of_ne_nil _ hne]
  split at hdecode
  next hfloat =>
    obtain ⟨mark, tail, rfl, hmark⟩ : ∃ mark tail, rest = mark :: tail ∧
        isFloatMark mark = true := by
      cases rest with
      | nil => simp at hfloat
      | cons mark tail => exact ⟨mark, tail, rfl, by simpa using hfloat⟩
    rw [strtodBodyLength_eq hdigits hmark] at hdecode
    split at hdecode
    next hzero => simp at hdecode
    next hzero =>
      have hmantissa : mantissaLength isdigit (digits ++ mark :: tail) ≠ 0 := by
        intro hnone
        simp [floatLength, hnone] at hzero
      obtain ⟨mantissa, more, hsplit, hm, hlength, hshape⟩ :=
        exists_mantissa hdigits hstops hmantissa
      obtain ⟨exponent, left, rfl, hx, hexponent⟩ := exists_exponent more
      have hbody : floatLength isdigit (ch 'e') (ch 'E') (digits ++ mark :: tail) =
          (mantissa ++ exponent).length := by
        rw [floatLength, if_neg hmantissa, hlength, hsplit, List.drop_left, hexponent,
          List.length_append]
      rw [hbody, hsplit, ← List.append_assoc mantissa, List.take_left, List.drop_left] at hdecode
      simp only [Option.some.injEq, Prod.mk.injEq] at hdecode
      obtain ⟨rfl, rfl⟩ := hdecode
      refine ⟨rfl, sign ++ (mantissa ++ exponent), by simp [hsplit],
        hnumber hm hx ⟨left, by simp [hsplit]⟩, ?_⟩
      -- `strtod` may stop before the mark that chose it, but then a number byte is left over
      intro hleft
      obtain ⟨d, hd, hdmark⟩ : ∃ d ∈ mantissa ++ exponent, isFloatMark d = true := by
        rcases hshape with ⟨rfl, hpoint⟩ | hpoint
        · have htail := List.append_cancel_left hsplit
          cases hx with
          | absent =>
              obtain rfl : mark :: tail = left := by simpa using htail
              have hstray := stops_cons.mp (stops_isFloatMark hleft)
              simp [hmark] at hstray
          | @present d sign' digits' hd _ _ _ =>
              exact ⟨d, by simp, by simpa [isFloatMark] using .inl hd⟩
        · exact ⟨ch '.', by simp [hpoint], by decide⟩
      rw [numberValue, isInteger_eq_false (List.mem_append_right sign hd) hdmark]
      simp
  next hfloat =>
    split at hdecode
    next hnil => simp at hdecode
    next hnil =>
      simp only [Option.some.injEq, Prod.mk.injEq] at hdecode
      obtain ⟨rfl, rfl⟩ := hdecode
      have htext := hnumber (.whole hnil hdigits) .absent ⟨rest, by simp⟩
      rw [List.append_nil] at htext
      refine ⟨rfl, sign ++ digits, by simp, htext, ?_⟩
      intro _
      rw [numberValue, if_pos (isInteger_append hstart.sign_eq hdigits)]

end DbSlayer.Json
