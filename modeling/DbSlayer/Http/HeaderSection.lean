import DbSlayer.Foundation.Scan
import DbSlayer.Http.RequestLine

/-! # The header section

What the header machine has read since the request line, and that it reads
every header section within the limit. The buffers for a name and a value hold
more than the limit, so that the limit is the only bound on them.
-/

namespace DbSlayer.Http

open Foundation

variable {uriSize : Nat} {request : Request}

/-- The parser in the middle of the header section. -/
def headParse (uriSize : Nat) (request : Request) (state : HeaderState) (name value : Bytes)
    (count : Nat) : RequestParse :=
  { lineParse uriSize .done (methodText request.method) request.uri request.method
      request.version with
    headerState := state, headers := request.lines.map HeaderLine.stored, headerName := name,
    headerValue := value, headerBytesRead := count }

/-- What was read of the line that is not finished yet. -/
inductive PartReads : HeaderState → Bytes → Bytes → Bytes → Prop
  | start : PartReads .start [] [] []
  | startLf : PartReads .startLf [] [] [13]
  | name {name : Bytes} : name ≠ [] → (∀ c ∈ name, isNameByte c = true) →
      PartReads .name name [] name
  | space {name blanks : Bytes} : name ≠ [] → (∀ c ∈ name, isNameByte c = true) →
      (∀ c ∈ blanks, isBlank c = true) →
      PartReads .spaceBeforeValue name [] (name ++ ch ':' :: blanks)
  | value {state : HeaderState} {name blanks value : Bytes} : name ≠ [] →
      (∀ c ∈ name, isNameByte c = true) → (∀ c ∈ blanks, isBlank c = true) → value ≠ [] →
      Stops isBlank value → (∀ c ∈ value, c ≠ 13 ∧ c ≠ 10) →
      state = .value ∨ state = .spaceAfterValue →
      PartReads state name value (name ++ ch ':' :: (blanks ++ value))

/-- What the header machine has read: complete lines and a part, or a line whose
carriage return was the last byte. -/
inductive HeadReads (uriSize : Nat) : RequestParse → Bytes → Prop
  | reading {request : Request} {line headers part name value : Bytes} {state : HeaderState} :
      RequestLine uriSize request.method request.uri request.version line →
      HeaderLines request.lines headers → PartReads state name value part →
      (headers ++ part).length ≤ maxHeaderBytes →
      HeadReads uriSize (headParse uriSize request state name value (headers ++ part).length)
        (line ++ (headers ++ part))
  | closing {request : Request} {line headers : Bytes} {lines : List HeaderLine}
      {last : HeaderLine} :
      RequestLine uriSize request.method request.uri request.version line →
      HeaderLines lines headers → last.Valid → request.lines = lines ++ [last] →
      (headers ++ (last.body ++ [13])).length ≤ maxHeaderBytes →
      HeadReads uriSize
        (headParse uriSize request .doneLf [] [] (headers ++ (last.body ++ [13])).length)
        (line ++ (headers ++ (last.body ++ [13])))

/-- The table of `http_header_check` lists the bytes that a name may have. -/
theorem checkHeader_eq (c : Byte) : checkHeader c = isNameByte c :=
  forall_byte (p := fun c => checkHeader c = isNameByte c) (by decide +kernel) c

theorem isNameByte_ne_zero {c : Byte} : isNameByte c = true → c ≠ 0 :=
  forall_byte (p := fun c => isNameByte c = true → c ≠ 0) (by decide +kernel) c

/-- The limit on the header bytes is tested before the switch. -/
theorem feed_headParse {state : HeaderState} {name value : Bytes} {count : Nat} (c : Byte) :
    feed (headParse uriSize request state name value count) c =
      if count + 1 > maxHeaderBytes then none
      else (headerSwitch (headParse uriSize request state name value (count + 1)) c).result := by
  rw [feed_header rfl, requestHeaderByte]
  split
  next hlimit => exact (if_pos hlimit).symm
  next hlimit => exact (if_neg hlimit).symm

/-! ## One byte -/

/-- What the byte `c` does in `state`, as `count` bytes of the section are read
with it. -/
inductive HeadStep (uriSize : Nat) (request : Request) (name value : Bytes) (count : Nat) :
    HeaderState → Byte → RequestParse → Prop
  | blankReturn : HeadStep uriSize request name value count .start 13
      (headParse uriSize request .startLf name value count)
  | blankNewline {state : HeaderState} : state = .start ∨ state = .startLf →
      HeadStep uriSize request name value count state 10
        (headParse uriSize request .done name value count)
  | name {state : HeaderState} {c : Byte} : state = .start ∨ state = .name →
      isNameByte c = true → HeadStep uriSize request name value count state c
        (headParse uriSize request .name (name ++ [c]) value count)
  | colon : HeadStep uriSize request name value count .name (ch ':')
      (headParse uriSize request .spaceBeforeValue name value count)
  | leadingBlank {c : Byte} : isBlank c = true →
      HeadStep uriSize request name value count .spaceBeforeValue c
        (headParse uriSize request .spaceBeforeValue name value count)
  | innerBlank {state : HeaderState} {c : Byte} : state = .value ∨ state = .spaceAfterValue →
      isBlank c = true → HeadStep uriSize request name value count state c
        (headParse uriSize request .spaceAfterValue name (value ++ [c]) count)
  | value {state : HeaderState} {c : Byte} :
      state = .spaceBeforeValue ∨ state = .value ∨ state = .spaceAfterValue →
      isBlank c = false → c ≠ 13 → c ≠ 10 → HeadStep uriSize request name value count state c
        (headParse uriSize request .value name (value ++ [c]) count)
  | lineReturn {state : HeaderState} :
      state = .name ∨ state = .spaceBeforeValue ∨ state = .value ∨ state = .spaceAfterValue →
      HeadStep uriSize request name value count state 13
        { headerAppend (headParse uriSize request state name value count) with
          headerState := .doneLf }
  | lineNewline {state : HeaderState} :
      state = .name ∨ state = .spaceBeforeValue ∨ state = .value ∨ state = .spaceAfterValue →
      HeadStep uriSize request name value count state 10
        { headerAppend (headParse uriSize request state name value count) with
          headerState := .start }
  | newline : HeadStep uriSize request name value count .doneLf 10
      (headParse uriSize request .start name value count)

theorem isNameByte_apart {c : Byte} : isNameByte c = true → c ≠ 13 ∧ c ≠ 10 ∧ c ≠ ch ':' :=
  forall_byte (p := fun c => isNameByte c = true → c ≠ 13 ∧ c ≠ 10 ∧ c ≠ ch ':')
    (by decide +kernel) c

section Switch

variable {state reached : HeaderState} {name value : Bytes} {count : Nat} {c : Byte}
variable {next : RequestParse}

/-- Storing a byte of the name, on what has been read of the head. -/
theorem storeName_headParse :
    storeName (headParse uriSize request state name value count) c =
      if name.length ≥ uriSize then .invalid
      else .next (headParse uriSize request .name (name ++ [c]) value count) := rfl

theorem storeValue_headParse :
    storeValue (headParse uriSize request state name value count) c reached =
      if value.length ≥ uriSize then .invalid
      else .next (headParse uriSize request reached name (value ++ [c]) count) := rfl

/-- Every byte that is stored in a name is a step of the grammar. -/
theorem HeadStep.of_storeName (hstate : state = .start ∨ state = .name)
    (hc : checkHeader c = true)
    (hstore : (storeName (headParse uriSize request state name value count) c).result =
      some next) : HeadStep uriSize request name value count state c next := by
  rw [storeName_headParse] at hstore
  split at hstore
  next => simp [ByteStep.result] at hstore
  next =>
    obtain rfl := Option.some.inj hstore
    exact .name hstate (checkHeader_eq c ▸ hc)

theorem HeadStep.of_storeValue
    (hstate : state = .spaceBeforeValue ∨ state = .value ∨ state = .spaceAfterValue)
    (hblank : isBlank c = false) (hend : ¬ (c = 13 ∨ c = 10))
    (hstore : (storeValue (headParse uriSize request state name value count) c .value).result =
      some next) : HeadStep uriSize request name value count state c next := by
  rw [storeValue_headParse] at hstore
  split at hstore
  next => simp [ByteStep.result] at hstore
  next =>
    obtain rfl := Option.some.inj hstore
    exact .value hstate hblank (fun h => hend (.inl h)) (fun h => hend (.inr h))

theorem HeadStep.of_storeBlank (hstate : state = .value ∨ state = .spaceAfterValue)
    (hblank : isBlank c = true)
    (hstore : (storeValue (headParse uriSize request state name value count) c
      .spaceAfterValue).result = some next) :
    HeadStep uriSize request name value count state c next := by
  rw [storeValue_headParse] at hstore
  split at hstore
  next => simp [ByteStep.result] at hstore
  next =>
    obtain rfl := Option.some.inj hstore
    exact .innerBlank hstate hblank

/-- The end of a line is the end of a header in the grammar. -/
theorem HeadStep.of_endHeader
    (hstate : state = .name ∨ state = .spaceBeforeValue ∨ state = .value ∨
      state = .spaceAfterValue) (hend : c = 13 ∨ c = 10)
    (hstep : (endHeader (headParse uriSize request state name value count) c).result =
      some next) : HeadStep uriSize request name value count state c next := by
  rcases hend with rfl | rfl
  · obtain rfl := Option.some.inj hstep
    exact .lineReturn hstate
  · obtain rfl := Option.some.inj hstep
    exact .lineNewline hstate

/-- The switch takes steps of the grammar only, one case for each state; what the grammar does
not allow is refused by the switch as well. -/
theorem HeadStep.of_headerSwitch (hopen : state ≠ .done)
    (hswitch : (headerSwitch (headParse uriSize request state name value count) c).result =
      some next) : HeadStep uriSize request name value count state c next := by
  cases state with
  | start =>
      by_cases hreturn : c = 13
      · obtain rfl := hreturn
        obtain rfl := Option.some.inj hswitch
        exact .blankReturn
      · by_cases hnewline : c = 10
        · obtain rfl := hnewline
          obtain rfl := Option.some.inj hswitch
          exact .blankNewline (.inl rfl)
        · by_cases hcheck : checkHeader c = true
          · refine .of_storeName (.inl rfl) hcheck ?_
            simpa [headerSwitch, headParse, hreturn, hnewline, hcheck] using hswitch
          · simp [headerSwitch, headParse, hreturn, hnewline, hcheck, ByteStep.result] at hswitch
  | startLf =>
      by_cases hnewline : c = 10
      · obtain rfl := hnewline
        obtain rfl := Option.some.inj hswitch
        exact .blankNewline (.inr rfl)
      · simp [headerSwitch, headParse, hnewline, ByteStep.result] at hswitch
  | name =>
      by_cases hcheck : checkHeader c = true
      · refine .of_storeName (.inr rfl) hcheck ?_
        simpa [headerSwitch, headParse, hcheck] using hswitch
      · by_cases hcolon : c = ch ':'
        · obtain rfl := hcolon
          obtain rfl := Option.some.inj hswitch
          exact .colon
        · by_cases hend : c = 13 ∨ c = 10
          · refine .of_endHeader (.inl rfl) hend ?_
            simpa [headerSwitch, headParse, hcheck, hcolon, hend] using hswitch
          · simp [headerSwitch, headParse, hcheck, hcolon, hend, ByteStep.result] at hswitch
  | spaceBeforeValue =>
      by_cases hblank : isBlank c = true
      · obtain rfl : headParse uriSize request .spaceBeforeValue name value count = next := by
          simpa [headerSwitch, headParse, hblank, ByteStep.result] using hswitch
        exact .leadingBlank hblank
      · by_cases hend : c = 13 ∨ c = 10
        · refine .of_endHeader (.inr (.inl rfl)) hend ?_
          simpa [headerSwitch, headParse, hblank, hend] using hswitch
        · refine .of_storeValue (.inl rfl) (by simpa using hblank) hend ?_
          simpa [headerSwitch, headParse, hblank, hend] using hswitch
  | value =>
      by_cases hblank : isBlank c = true
      · refine .of_storeBlank (.inl rfl) hblank ?_
        simpa [headerSwitch, headParse, hblank] using hswitch
      · by_cases hend : c = 13 ∨ c = 10
        · refine .of_endHeader (.inr (.inr (.inl rfl))) hend ?_
          simpa [headerSwitch, headParse, hblank, hend] using hswitch
        · refine .of_storeValue (.inr (.inl rfl)) (by simpa using hblank) hend ?_
          simpa [headerSwitch, headParse, hblank, hend] using hswitch
  | spaceAfterValue =>
      by_cases hblank : isBlank c = true
      · refine .of_storeBlank (.inr rfl) hblank ?_
        simpa [headerSwitch, headParse, hblank] using hswitch
      · by_cases hend : c = 13 ∨ c = 10
        · refine .of_endHeader (.inr (.inr (.inr rfl))) hend ?_
          simpa [headerSwitch, headParse, hblank, hend] using hswitch
        · refine .of_storeValue (.inr (.inr rfl)) (by simpa using hblank) hend ?_
          simpa [headerSwitch, headParse, hblank, hend] using hswitch
  | doneLf =>
      by_cases hnewline : c = 10
      · obtain rfl := hnewline
        obtain rfl := Option.some.inj hswitch
        exact .newline
      · simp [headerSwitch, headParse, hnewline, ByteStep.result] at hswitch
  | done => exact absurd rfl hopen

theorem HeadStep.of_feed (hopen : state ≠ .done)
    (hfeed : feed (headParse uriSize request state name value count) c = some next) :
    count + 1 ≤ maxHeaderBytes ∧ HeadStep uriSize request name value (count + 1) state c next := by
  rw [feed_headParse] at hfeed
  split at hfeed
  next => simp at hfeed
  next hlimit => exact ⟨Nat.le_of_not_lt hlimit, .of_headerSwitch hopen hfeed⟩

/-- Within the limit nothing but the switch decides. -/
theorem HeadStep.feed_eq (hstep : HeadStep uriSize request name value (count + 1) state c next)
    (hlimit : count + 1 ≤ maxHeaderBytes) (hname : name.length < uriSize)
    (hvalue : value.length < uriSize) :
    feed (headParse uriSize request state name value count) c = some next := by
  have hname' : ¬ uriSize ≤ name.length := Nat.not_le_of_lt hname
  have hvalue' : ¬ uriSize ≤ value.length := Nat.not_le_of_lt hvalue
  rw [feed_headParse, if_neg (Nat.not_lt_of_le hlimit)]
  cases hstep with
  | blankReturn => rfl
  | blankNewline hstate => rcases hstate with rfl | rfl <;> rfl
  | name hstate hc =>
      have hstore : (storeName (headParse uriSize request state name value (count + 1)) c).result =
          some (headParse uriSize request .name (name ++ [c]) value (count + 1)) := by
        rw [storeName_headParse, if_neg hname']
        rfl
      obtain ⟨hreturn, hnewline, hcolon⟩ := isNameByte_apart hc
      rw [← checkHeader_eq] at hc
      rw [← hstore]
      rcases hstate with rfl | rfl
      · simp [headerSwitch, headParse, hreturn, hnewline, hc]
      · simp [headerSwitch, headParse, hc]
  | colon => rfl
  | leadingBlank hblank => simp [headerSwitch, headParse, hblank, ByteStep.result]
  | innerBlank hstate hblank =>
      have hstore : (storeValue (headParse uriSize request state name value (count + 1)) c
          .spaceAfterValue).result =
            some (headParse uriSize request .spaceAfterValue name (value ++ [c]) (count + 1)) := by
        rw [storeValue_headParse, if_neg hvalue']
        rfl
      rw [← hstore]
      rcases hstate with rfl | rfl
      · simp [headerSwitch, headParse, hblank]
      · simp [headerSwitch, headParse, hblank]
  | value hstate hblank hreturn hnewline =>
      have hstore : (storeValue (headParse uriSize request state name value (count + 1)) c
          .value).result =
            some (headParse uriSize request .value name (value ++ [c]) (count + 1)) := by
        rw [storeValue_headParse, if_neg hvalue']
        rfl
      rw [← hstore]
      rcases hstate with rfl | rfl | rfl
      · simp [headerSwitch, headParse, hblank, hreturn, hnewline]
      · simp [headerSwitch, headParse, hblank, hreturn, hnewline]
      · simp [headerSwitch, headParse, hblank, hreturn, hnewline]
  | lineReturn hstate => rcases hstate with rfl | rfl | rfl | rfl <;> rfl
  | lineNewline hstate => rcases hstate with rfl | rfl | rfl | rfl <;> rfl
  | newline => rfl

end Switch

/-! ## Whole lines -/

/-- The states in which a line end finishes a header. -/
def EndsLine (state : HeaderState) : Prop :=
  state = .name ∨ state = .spaceBeforeValue ∨ state = .value ∨ state = .spaceAfterValue

/-- A request with one more header line. -/
def Request.withLine (request : Request) (line : HeaderLine) : Request :=
  { request with lines := request.lines ++ [line] }

/-- A header that has ended is appended with its value trimmed. -/
theorem headerAppend_headParse {state : HeaderState} {line : HeaderLine} {value : Bytes}
    {count : Nat} (hvalid : line.Valid) (hvalue : value.rdropWhile isBlank = line.trimmed) :
    headerAppend (headParse uriSize request state line.name value count) =
      headParse uriSize (request.withLine line) state [] [] count := by
  have hne : ¬ line.name.length = 0 := by simp [hvalid.name_ne_nil]
  have hfree : NulFree line.name := fun hzero =>
    isNameByte_ne_zero (hvalid.name_bytes 0 hzero) rfl
  have hstored : (⟨cstr line.name, cstr (value.rdropWhile isBlank)⟩ : Header) = line.stored := by
    rw [cstr_of_nulFree hfree, hvalue, HeaderLine.stored]
  simp only [headerAppend, headParse, hne, if_false, Request.withLine, List.map_append,
    List.map_singleton, ← hstored]

/-- What was read of a line that may end is the body of a line. -/
theorem PartReads.exists_line {state : HeaderState} {name value part : Bytes}
    (hpart : PartReads state name value part) (hends : EndsLine state) :
    ∃ line : HeaderLine, line.Valid ∧ line.name = name ∧ line.body = part ∧
      value.rdropWhile isBlank = line.trimmed := by
  have hblank : ∀ blanks : Bytes, (∀ c ∈ blanks, isBlank c = true) → ∀ c ∈ blanks,
      c ≠ 13 ∧ c ≠ 10 := by
    intro blanks hblanks c hc
    have hc := hblanks c hc
    revert hc
    exact forall_byte (p := fun c => isBlank c = true → c ≠ 13 ∧ c ≠ 10) (by decide +kernel) c
  cases hpart with
  | start => simp [EndsLine] at hends
  | startLf => simp [EndsLine] at hends
  | name hne hbytes =>
      refine ⟨⟨name, none⟩, ⟨hne, hbytes, by simp⟩, rfl, ?_, rfl⟩
      simp [HeaderLine.body]
  | @space _ blanks hne hbytes hblanks =>
      refine ⟨⟨name, some blanks⟩, ⟨hne, hbytes, ?_⟩, rfl, rfl, ?_⟩
      · simpa using hblank blanks hblanks
      · have hnil : blanks.dropWhile isBlank = [] := List.dropWhile_eq_nil_iff.mpr hblanks
        simp [HeaderLine.trimmed, hnil]
  | @value _ _ blanks _ hne hbytes hblanks hvalue hstops htext hstate =>
      refine ⟨⟨name, some (blanks ++ value)⟩, ⟨hne, hbytes, ?_⟩, rfl, rfl, ?_⟩
      · intro text htext' c hc
        obtain rfl : blanks ++ value = text := by simpa using htext'
        exact (List.mem_append.mp hc).elim (hblank blanks hblanks c) (htext c)
      · simp [HeaderLine.trimmed, dropWhile_append_stops hblanks hstops]

theorem textBytes_concat {text : Bytes} {c : Byte} (htext : ∀ d ∈ text, d ≠ 13 ∧ d ≠ 10)
    (hc : c ≠ 13 ∧ c ≠ 10) : ∀ d ∈ text ++ [c], d ≠ 13 ∧ d ≠ 10 := by
  intro d hd
  rcases List.mem_append.mp hd with hold | hnew
  · exact htext d hold
  · exact List.mem_singleton.mp hnew ▸ hc

/-- The end of the header section, or one more byte of it. -/
def SectionStep (uriSize : Nat) (next : RequestParse) (text : Bytes) : Prop :=
  HeadReads uriSize next text ∨ ∃ request count, RequestHead uriSize request text ∧
    next = headParse uriSize request .done [] [] count

/-- A byte that only adds to the line that is being read. -/
theorem HeadReads.step_reading {request : Request} {line headers part longer name value : Bytes}
    {state : HeaderState} {c : Byte} {count : Nat}
    (hline : RequestLine uriSize request.method request.uri request.version line)
    (hheaders : HeaderLines request.lines headers) (hpart : PartReads state name value longer)
    (hlonger : longer = part ++ [c]) (hcount : count = (headers ++ part).length + 1)
    (hlimit : count ≤ maxHeaderBytes) :
    SectionStep uriSize (headParse uriSize request state name value count)
      (line ++ (headers ++ part) ++ [c]) := by
  have hlength : count = (headers ++ longer).length := by
    rw [hcount, hlonger]
    simp
    omega
  have htext : line ++ (headers ++ part) ++ [c] = line ++ (headers ++ longer) := by
    rw [hlonger]
    simp
  rw [htext, hlength]
  exact .inl (.reading hline hheaders hpart (hlength ▸ hlimit))

/-- A carriage return or a newline behind a header. -/
theorem HeadReads.step_ending {request : Request} {line headers part name value : Bytes}
    {state : HeaderState} {next : RequestParse} {c : Byte}
    (hline : RequestLine uriSize request.method request.uri request.version line)
    (hheaders : HeaderLines request.lines headers) (hpart : PartReads state name value part)
    (hends : EndsLine state) (hlimit : (headers ++ part).length + 1 ≤ maxHeaderBytes)
    (hnext : c = 13 ∧ next = { headerAppend (headParse uriSize request state name value
        ((headers ++ part).length + 1)) with headerState := .doneLf } ∨
      c = 10 ∧ next = { headerAppend (headParse uriSize request state name value
        ((headers ++ part).length + 1)) with headerState := .start }) :
    SectionStep uriSize next (line ++ (headers ++ part) ++ [c]) := by
  obtain ⟨last, hvalid, rfl, rfl, hvalue⟩ := hpart.exists_line hends
  rw [headerAppend_headParse hvalid hvalue] at hnext
  have hlength : ∀ d : Byte, (headers ++ last.body).length + 1 =
      (headers ++ (last.body ++ [d])).length := by
    intro d
    simp
    omega
  have htext : line ++ (headers ++ last.body) ++ [c] = line ++ (headers ++ (last.body ++ [c])) := by
    simp
  rw [htext]
  rcases hnext with ⟨rfl, rfl⟩ | ⟨rfl, rfl⟩
  · rw [hlength 13] at hlimit ⊢
    have hreads : HeadReads uriSize (headParse uriSize (request.withLine last) .doneLf [] [] _) _ :=
      .closing hline hheaders hvalid rfl hlimit
    exact .inl hreads
  · rw [hlength 10, ← List.append_nil (headers ++ _)] at hlimit ⊢
    have hnewline : LineEnd [10] := .inr rfl
    have hreads : HeadReads uriSize (headParse uriSize (request.withLine last) .start [] [] _) _ :=
      .reading hline (hheaders.append hvalid hnewline) .start hlimit
    rw [List.append_nil] at hreads ⊢
    exact .inl hreads

/-- The newline of the empty line completes the head. -/
theorem HeadReads.step_blank {request : Request} {line headers part : Bytes} {count : Nat}
    (hline : RequestLine uriSize request.method request.uri request.version line)
    (hheaders : HeaderLines request.lines headers) (hpart : LineEnd (part ++ [10]))
    (hlimit : (headers ++ part).length + 1 ≤ maxHeaderBytes) :
    SectionStep uriSize (headParse uriSize request .done [] [] count)
      (line ++ (headers ++ part) ++ [10]) := by
  have htext : line ++ (headers ++ part) ++ [10] = line ++ (headers ++ (part ++ [10])) := by simp
  have hlength : (headers ++ (part ++ [10])).length ≤ maxHeaderBytes := by
    simp only [List.length_append, List.length_singleton] at hlimit ⊢
    omega
  rw [htext]
  exact .inr ⟨request, count, .mk hline hheaders hpart hlength, rfl⟩

/-- A step within a header keeps the reading of the part that came before it. -/
theorem HeadReads.step_part {request : Request} {line headers part name value : Bytes}
    {state : HeaderState} {next : RequestParse} {c : Byte}
    (hline : RequestLine uriSize request.method request.uri request.version line)
    (hheaders : HeaderLines request.lines headers) (hpart : PartReads state name value part)
    (hlimit : (headers ++ part).length + 1 ≤ maxHeaderBytes)
    (hstep : HeadStep uriSize request name value ((headers ++ part).length + 1) state c next) :
    SectionStep uriSize next (line ++ (headers ++ part) ++ [c]) := by
  -- a step and what was read of the line share the state, which rules out most of their pairs
  cases hstep with
  | blankReturn =>
      cases hpart with
      | start => exact HeadReads.step_reading hline hheaders .startLf rfl rfl hlimit
      | value _ _ _ _ _ _ hstate => simp at hstate
  | blankNewline hstate =>
      cases hpart with
      | start => exact HeadReads.step_blank hline hheaders (.inr rfl) hlimit
      | startLf => exact HeadReads.step_blank hline hheaders (.inl rfl) hlimit
      | name _ _ => simp at hstate
      | space _ _ _ => simp at hstate
      | value _ _ _ _ _ _ hstate' => rcases hstate' with rfl | rfl <;> simp at hstate
  | name hstate hc =>
      cases hpart with
      | start =>
          refine HeadReads.step_reading hline hheaders (.name (by simp) ?_) rfl rfl hlimit
          simpa using hc
      | startLf => simp at hstate
      | name hne hbytes =>
          refine HeadReads.step_reading hline hheaders (.name (by simp) ?_) rfl rfl hlimit
          intro d hd
          rcases List.mem_append.mp hd with hold | hnew
          · exact hbytes d hold
          · exact List.mem_singleton.mp hnew ▸ hc
      | space _ _ _ => simp at hstate
      | value _ _ _ _ _ _ hstate' => rcases hstate' with rfl | rfl <;> simp at hstate
  | colon =>
      cases hpart with
      | name hne hbytes =>
          exact HeadReads.step_reading hline hheaders (.space hne hbytes (by simp)) rfl rfl hlimit
      | value _ _ _ _ _ _ hstate => simp at hstate
  | leadingBlank hblank =>
      cases hpart with
      | @space _ blanks hne hbytes hblanks =>
          have hblanks' : ∀ d ∈ blanks ++ [c], isBlank d = true := by
            intro d hd
            rcases List.mem_append.mp hd with hold | hnew
            · exact hblanks d hold
            · exact List.mem_singleton.mp hnew ▸ hblank
          exact HeadReads.step_reading hline hheaders (.space hne hbytes hblanks') (by simp) rfl
            hlimit
      | value _ _ _ _ _ _ hstate => simp at hstate
  | innerBlank hstate hblank =>
      cases hpart with
      | start => simp at hstate
      | startLf => simp at hstate
      | name _ _ => simp at hstate
      | space _ _ _ => simp at hstate
      | @value _ _ blanks _ hne hbytes hblanks hvalue hstops htext _ =>
          -- a blank behind the value is stored with it
          have hend : c ≠ 13 ∧ c ≠ 10 :=
            forall_byte (p := fun c => isBlank c = true → c ≠ 13 ∧ c ≠ 10) (by decide +kernel) c
              hblank
          exact HeadReads.step_reading hline hheaders
            (.value hne hbytes hblanks (by simp) (hstops.concat hvalue)
              (textBytes_concat htext hend) (.inr rfl)) (by simp) rfl hlimit
  | value hstate hblank hreturn hnewline =>
      cases hpart with
      | start => simp at hstate
      | startLf => simp at hstate
      | name _ _ => simp at hstate
      | @space _ blanks hne hbytes hblanks =>
          exact HeadReads.step_reading hline hheaders
            (.value hne hbytes hblanks (by simp) (stops_cons.mpr hblank)
              (textBytes_concat (by simp) ⟨hreturn, hnewline⟩) (.inl rfl)) (by simp) rfl hlimit
      | @value _ _ blanks _ hne hbytes hblanks hvalue hstops htext _ =>
          exact HeadReads.step_reading hline hheaders
            (.value hne hbytes hblanks (by simp) (hstops.concat hvalue)
              (textBytes_concat htext ⟨hreturn, hnewline⟩) (.inl rfl)) (by simp) rfl hlimit
  | lineReturn hends =>
      exact HeadReads.step_ending hline hheaders hpart hends hlimit (.inl ⟨rfl, rfl⟩)
  | lineNewline hends =>
      exact HeadReads.step_ending hline hheaders hpart hends hlimit (.inr ⟨rfl, rfl⟩)
  | newline =>
      cases hpart with
      | value _ _ _ _ _ _ hstate => simp at hstate

/-- One byte keeps the account of what was read, or ends the head. -/
theorem HeadReads.step {parse next : RequestParse} {text : Bytes} {c : Byte}
    (hreads : HeadReads uriSize parse text) (hfeed : feed parse c = some next) :
    SectionStep uriSize next (text ++ [c]) := by
  cases hreads with
  | @reading request line headers part name value state hline hheaders hpart _ =>
      have hopen : state ≠ .done := by
        rintro rfl
        cases hpart with
        | value _ _ _ _ _ _ hstate => simp at hstate
      obtain ⟨hlimit, hstep⟩ := HeadStep.of_feed hopen hfeed
      exact HeadReads.step_part hline hheaders hpart hlimit hstep
  | @closing request line headers lines last hline hheaders hvalid hlines _ =>
      have hopen : HeaderState.doneLf ≠ .done := by simp
      obtain ⟨hlimit, hstep⟩ := HeadStep.of_feed hopen hfeed
      cases hstep with
      | newline =>
          have hcrlf : LineEnd [13, 10] := .inl rfl
          have hheaders' : HeaderLines request.lines (headers ++ (last.body ++ [13, 10])) :=
            hlines ▸ hheaders.append hvalid hcrlf
          have hlength : (headers ++ (last.body ++ [13])).length + 1 =
              (headers ++ (last.body ++ [13, 10]) ++ []).length := by
            simp
            omega
          have htext : line ++ (headers ++ (last.body ++ [13])) ++ [10] =
              line ++ (headers ++ (last.body ++ [13, 10]) ++ []) := by simp
          rw [hlength] at hlimit
          rw [hlength, htext]
          exact .inl (.reading hline hheaders' .start hlimit)
      | blankNewline hstate => simp at hstate
      | name hstate _ => simp at hstate
      | innerBlank hstate _ => simp at hstate
      | value hstate _ _ _ => simp at hstate
      | lineReturn hstate => simp at hstate
      | lineNewline hstate => simp at hstate

/-! ## Every header section is read -/

section Runs

variable {name value text eol : Bytes} {state : HeaderState} {count : Nat} {c : Byte}
variable {next : RequestParse}

/-- The limit keeps both buffers from running full. -/
theorem HeadStep.feed_of_limit (hsize : maxHeaderBytes < uriSize)
    (hstep : HeadStep uriSize request name value (count + 1) state c next)
    (hlimit : count + 1 ≤ maxHeaderBytes) (hname : name.length ≤ count)
    (hvalue : value.length ≤ count) :
    feed (headParse uriSize request state name value count) c = some next :=
  hstep.feed_eq hlimit (by omega) (by omega)

theorem runs_name (hsize : maxHeaderBytes < uriSize) (hname : name ≠ [])
    (hbytes : ∀ c ∈ name, isNameByte c = true) (hlimit : count + name.length ≤ maxHeaderBytes) :
    Runs feed isComplete (headParse uriSize request .start [] [] count) name
      (headParse uriSize request .name name [] (count + name.length)) := by
  let reached (seen : Bytes) : RequestParse :=
    headParse uriSize request (if seen = [] then .start else .name) seen [] (count + seen.length)
  have hgrow : Runs feed isComplete (reached []) name (reached name) := by
    refine Runs.grow (fun seen c rest hsplit => ?_) (fun seen => ?_)
    · have hc : isNameByte c = true := hbytes c (by simp [hsplit])
      have hstate : (if seen = [] then HeaderState.start else .name) = .start ∨
          (if seen = [] then HeaderState.start else .name) = .name := by
        split <;> simp
      have hseen : count + seen.length + 1 ≤ maxHeaderBytes := by
        simp only [hsplit, List.length_append, List.length_cons] at hlimit
        omega
      have hstep : HeadStep uriSize request seen [] (count + seen.length + 1) _ c _ :=
        .name hstate hc
      have hfeed := hstep.feed_of_limit hsize hseen (Nat.le_add_left _ _) (Nat.zero_le _)
      simpa [reached, Nat.add_assoc] using hfeed
    · by_cases hnil : seen = [] <;> simp [reached, isComplete, headParse, hnil]
  simpa [reached, hname] using hgrow

/-- The state behind the colon and a text. -/
def textState (text : Bytes) : HeaderState :=
  match (text.dropWhile isBlank).getLast? with
  | none => .spaceBeforeValue
  | some c => if isBlank c then .spaceAfterValue else .value

/-- Behind a text the machine is before the value, in it, or in space that follows it. -/
theorem textState_cases (text : Bytes) :
    textState text = .spaceBeforeValue ∧ text.dropWhile isBlank = [] ∨
      textState text = .value ∨ textState text = .spaceAfterValue := by
  unfold textState
  cases hlast : (text.dropWhile isBlank).getLast? with
  | none => exact .inl ⟨rfl, List.getLast?_eq_none_iff.mp hlast⟩
  | some c =>
      right
      by_cases hblank : isBlank c = true
      · exact .inr (if_pos hblank)
      · exact .inl (if_neg hblank)

/-- One byte of a text, whatever state the bytes in front of it lead to. -/
theorem HeadStep.of_text (name : Bytes) (count : Nat) (seen : Bytes) (hc : c ≠ 13 ∧ c ≠ 10) :
    HeadStep uriSize request name (seen.dropWhile isBlank) count (textState seen) c
      (headParse uriSize request (textState (seen ++ [c])) name
        ((seen ++ [c]).dropWhile isBlank) count) := by
  have hsplit : (seen ++ [c]).dropWhile isBlank =
      if (seen.dropWhile isBlank).isEmpty then [c].dropWhile isBlank
      else seen.dropWhile isBlank ++ [c] := List.dropWhile_append
  rcases textState_cases seen with ⟨hstate, hnil⟩ | hstate
  · rw [hnil, List.isEmpty_nil, if_pos rfl] at hsplit
    by_cases hblank : isBlank c = true
    · have hstep : HeadStep uriSize request name [] count .spaceBeforeValue c _ :=
        .leadingBlank hblank
      simpa [hstate, hnil, hsplit, textState, hblank] using hstep
    · have hstep : HeadStep uriSize request name [] count .spaceBeforeValue c _ :=
        .value (.inl rfl) (by simpa using hblank) hc.1 hc.2
      simpa [hstate, hnil, hsplit, textState, hblank] using hstep
  · have hne : seen.dropWhile isBlank ≠ [] := by
      intro hnil
      simp [textState, hnil] at hstate
    rw [List.isEmpty_eq_false_iff.mpr hne, if_neg (by simp)] at hsplit
    by_cases hblank : isBlank c = true
    · have hnext : textState (seen ++ [c]) = .spaceAfterValue := by
        simp [textState, hsplit, hblank]
      rw [hsplit, hnext]
      exact .innerBlank hstate hblank
    · have hnext : textState (seen ++ [c]) = .value := by
        simp [textState, hsplit, hblank]
      rw [hsplit, hnext]
      exact .value (.inr hstate) (by simpa using hblank) hc.1 hc.2

theorem runs_text (hsize : maxHeaderBytes < uriSize) (htext : ∀ c ∈ text, c ≠ 13 ∧ c ≠ 10)
    (hname : name.length ≤ count) (hlimit : count + text.length ≤ maxHeaderBytes) :
    Runs feed isComplete (headParse uriSize request .spaceBeforeValue name [] count) text
      (headParse uriSize request (textState text) name (text.dropWhile isBlank)
        (count + text.length)) := by
  let reached (seen : Bytes) : RequestParse :=
    headParse uriSize request (textState seen) name (seen.dropWhile isBlank) (count + seen.length)
  have hgrow : Runs feed isComplete (reached []) text (reached text) := by
    refine Runs.grow (fun seen c rest hsplit => ?_) (fun seen => ?_)
    · have hseen : count + seen.length + 1 ≤ maxHeaderBytes := by
        simp only [hsplit, List.length_append, List.length_cons] at hlimit
        omega
      have hvalue : (seen.dropWhile isBlank).length ≤ count + seen.length :=
        (List.dropWhile_sublist _).length_le.trans (Nat.le_add_left _ _)
      have hstep : HeadStep uriSize request name _ (count + seen.length + 1) (textState seen) c
          _ := .of_text name _ seen (htext c (by simp [hsplit]))
      have hfeed := hstep.feed_of_limit hsize hseen (hname.trans (Nat.le_add_right _ _)) hvalue
      simpa [reached, Nat.add_assoc] using hfeed
    · rcases textState_cases seen with ⟨hstate, -⟩ | hstate | hstate <;>
        simp [reached, isComplete, headParse, hstate]
  exact hgrow

/-- A line up to its end leaves its name and its text in the buffers. -/
theorem runs_body (hsize : maxHeaderBytes < uriSize) {line : HeaderLine} (hvalid : line.Valid)
    (hlimit : count + line.body.length ≤ maxHeaderBytes) :
    ∃ state value, EndsLine state ∧ value.length ≤ count + line.body.length ∧
      value.rdropWhile isBlank = line.trimmed ∧
      Runs feed isComplete (headParse uriSize request .start [] [] count) line.body
        (headParse uriSize request state line.name value (count + line.body.length)) := by
  obtain ⟨name, text⟩ := line
  obtain ⟨hne, hbytes, htext⟩ := hvalid
  cases text with
  | none =>
      rw [HeaderLine.body, List.append_nil] at hlimit ⊢
      exact ⟨.name, [], .inl rfl, Nat.zero_le _, rfl, runs_name hsize hne hbytes hlimit⟩
  | some text =>
      have hlength : count + (name ++ ch ':' :: text).length =
          count + name.length + 1 + text.length := by
        simp
        omega
      rw [HeaderLine.body, hlength] at hlimit ⊢
      have hcolon : HeadStep uriSize request name [] (count + name.length + 1) .name (ch ':') _ :=
        .colon
      have hfeed := hcolon.feed_of_limit hsize (by omega) (Nat.le_add_left _ _) (Nat.zero_le _)
      have hname : name.length ≤ count + name.length + 1 := by omega
      have hshort : count + name.length ≤ maxHeaderBytes := by omega
      refine ⟨textState text, text.dropWhile isBlank, ?_, ?_, rfl, ?_⟩
      · exact .inr ((textState_cases text).imp_left And.left)
      · exact (List.dropWhile_sublist _).length_le.trans (Nat.le_add_left _ _)
      · exact (runs_name hsize hne hbytes hshort).append
          (.cons hfeed rfl (runs_text hsize (htext text rfl) hname hlimit))

theorem runs_headerLine (hsize : maxHeaderBytes < uriSize) {line : HeaderLine}
    (hvalid : line.Valid) (heol : LineEnd eol)
    (hlimit : count + (line.body ++ eol).length ≤ maxHeaderBytes) :
    Runs feed isComplete (headParse uriSize request .start [] [] count) (line.body ++ eol)
      (headParse uriSize (request.withLine line) .start [] []
        (count + (line.body ++ eol).length)) := by
  have hbody : count + line.body.length + eol.length ≤ maxHeaderBytes := by
    simp only [List.length_append] at hlimit
    omega
  obtain ⟨state, value, hends, hvalue, htrimmed, hruns⟩ :=
    runs_body hsize hvalid (by omega : count + line.body.length ≤ maxHeaderBytes)
  have hname : line.name.length ≤ count + line.body.length := by
    simp only [HeaderLine.body, List.length_append]
    omega
  refine hruns.append ?_
  rcases heol with rfl | rfl
  · have hreturn : HeadStep uriSize request line.name value (count + line.body.length + 1) state
        13 _ := .lineReturn hends
    have hfeed := hreturn.feed_of_limit hsize (by simp at hbody; omega) hname hvalue
    rw [headerAppend_headParse hvalid htrimmed] at hfeed
    have hnewline : HeadStep uriSize (request.withLine line) [] []
        (count + line.body.length + 1 + 1) .doneLf 10 _ := .newline
    have hfeed' := hnewline.feed_of_limit hsize hbody (Nat.zero_le _) (Nat.zero_le _)
    have hlast : Runs feed isComplete _ [10] _ := .single hfeed' rfl
    simpa [Nat.add_assoc] using Runs.cons hfeed rfl hlast
  · have hnewline : HeadStep uriSize request line.name value (count + line.body.length + 1) state
        10 _ := .lineNewline hends
    have hfeed := hnewline.feed_of_limit hsize hbody hname hvalue
    rw [headerAppend_headParse hvalid htrimmed] at hfeed
    have hlast : Runs feed isComplete _ [10] (headParse uriSize (request.withLine line) .start [] []
        (count + line.body.length + 1)) := .single hfeed rfl
    simpa [Nat.add_assoc] using hlast

/-- Line by line through the section. -/
theorem runs_headerLines (hsize : maxHeaderBytes < uriSize) {method : HttpMethod} {uri : Bytes}
    {version : HttpVersion} {lines : List HeaderLine} (hlines : HeaderLines lines text)
    (hlimit : text.length ≤ maxHeaderBytes) :
    Runs feed isComplete (headParse uriSize ⟨method, uri, version, []⟩ .start [] [] 0) text
      (headParse uriSize ⟨method, uri, version, lines⟩ .start [] [] text.length) := by
  induction hlines with
  | nil => exact .refl _
  | @append lines line text eol _ hvalid heol ih =>
      have hlimit' : text.length + (line.body ++ eol).length ≤ maxHeaderBytes := by
        rwa [List.length_append] at hlimit
      have hbefore := ih (by omega)
      rw [List.length_append]
      exact hbefore.append (runs_headerLine hsize hvalid heol hlimit')

end Runs

end DbSlayer.Http
