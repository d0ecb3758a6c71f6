import DbSlayer.Http.Memory

/-! # Every access of the HTTP parser is in bounds

The parser on its arrays follows the parser on lists byte by byte: the front of
each block holds what the other keeps in a list, and the room behind it is what the
checks of the source leave. No access is outside of a block, whatever arrives and
however it is cut into receives.
-/

namespace DbSlayer.Http

open Foundation Traced

/-- The sizes and the pointers of a parser for URIs of `uriSize` bytes. -/
structure Bounded (uriSize : Nat) (memory : ParseMemory) : Prop where
  methodBlock : memory.methodString.length = 6
  methodSize : memory.methodSize ≤ 6
  uriDataSize : memory.uriDataSize = uriSize
  uriBlock : memory.uriData.length = uriSize + 1
  uriEnd : memory.uriEnd ≤ memory.uriDataSize
  uriTerminated : memory.uriData[memory.uriEnd]? = some 0
  nameBlock : memory.headerName.length = uriSize + 1
  nameSize : memory.headerNameSize ≤ memory.uriDataSize
  valueBlock : memory.headerValue.length = uriSize + 1
  valueSize : memory.headerValueSize ≤ memory.uriDataSize
  bufferBlock : memory.buffer.length = uriSize
  bufferSize : memory.bufferSize ≤ uriSize
  bufferMarker : ∀ p ∈ memory.bufferMarker, p ≤ memory.bufferSize

/-- Receives that fit into what is offered to them. One without bytes is the end of
the stream. -/
def Fitting : Nat → List Bytes → Prop
  | _, [] => True
  | offered, received :: rest => received.length ≤ offered ∧ Fitting received.length rest

/-! ## What the blocks hold -/

/-- The blocks hold the lists of `parse`, and leave room behind them. -/
structure Represents (uriSize : Nat) (memory : ParseMemory) (parse : RequestParse) : Prop where
  method : memory.method = parse.method
  version : memory.version = parse.version
  headers : memory.headers = parse.headers
  headerBytesRead : memory.headerBytesRead = parse.headerBytesRead
  limit : parse.uriDataSize = uriSize
  uriDataSize : memory.uriDataSize = uriSize
  methodString : Stored 6 memory.methodString memory.methodSize parse.methodString
  uriData : Padded 0 (uriSize + 1) memory.uriData memory.uriEnd parse.uriData
  uriFits : memory.uriEnd ≤ uriSize
  headerName : Stored (uriSize + 1) memory.headerName memory.headerNameSize parse.headerName
  nameFits : memory.headerNameSize ≤ uriSize
  headerValue : Stored (uriSize + 1) memory.headerValue memory.headerValueSize parse.headerValue
  valueFits : memory.headerValueSize ≤ uriSize
  bufferBlock : memory.buffer.length = uriSize
  bufferSize : memory.bufferSize ≤ uriSize
  bufferMarker : ∀ p ∈ memory.bufferMarker, p ≤ memory.bufferSize

theorem Represents.bounded {uriSize : Nat} {memory : ParseMemory} {parse : RequestParse}
    (hrep : Represents uriSize memory parse) : Bounded uriSize memory where
  methodBlock := hrep.methodString.length
  methodSize := hrep.methodString.le
  uriDataSize := hrep.uriDataSize
  uriBlock := hrep.uriData.length
  uriEnd := hrep.uriDataSize.symm ▸ hrep.uriFits
  uriTerminated := hrep.uriData.terminated (Nat.lt_succ_of_le hrep.uriFits)
  nameBlock := hrep.headerName.length
  nameSize := hrep.uriDataSize.symm ▸ hrep.nameFits
  valueBlock := hrep.headerValue.length
  valueSize := hrep.uriDataSize.symm ▸ hrep.valueFits
  bufferBlock := hrep.bufferBlock
  bufferSize := hrep.bufferSize
  bufferMarker := hrep.bufferMarker

/-- The buffer is as before. -/
structure SameBuffer (base memory : ParseMemory) : Prop where
  buffer : memory.buffer = base.buffer
  bufferSize : memory.bufferSize = base.bufferSize
  bufferMarker : memory.bufferMarker = base.bufferMarker

/-- Nothing was written before its state was reached. -/
structure LineFits (parse : RequestParse) : Prop where
  method : parse.requestState = .start → parse.methodString = []
  uri : parse.requestState ∈ [.start, .method, .wsBeforeUri] → parse.uriData = []

/-- The request line, in a local `state`. -/
structure AtLine (uriSize : Nat) (base : ParseMemory) (state : RequestState) (memory : ParseMemory)
    (parse : RequestParse) : Prop where
  represents : Represents uriSize memory parse
  same : SameBuffer base memory
  current : parse.requestState = state
  headerState : memory.headerState = parse.headerState
  fits : LineFits parse

/-- The header section, in a local `state`. -/
structure AtHeader (uriSize : Nat) (base : ParseMemory) (state : HeaderState)
    (memory : ParseMemory) (parse : RequestParse) : Prop where
  represents : Represents uriSize memory parse
  same : SameBuffer base memory
  current : parse.headerState = state
  requestState : memory.requestState = .done
  done : parse.requestState = .done

/-- The body on the arrays does what the body on lists does. -/
inductive Follows {σ : Type} (uriSize : Nat) (At : σ → ParseMemory → RequestParse → Prop) :
    Switch σ → ByteStep → Prop
  | invalid {memory : ParseMemory} {parse : RequestParse} (hrep : Represents uriSize memory parse) :
      Follows uriSize At (.invalid memory) .invalid
  | next {state : σ} {memory : ParseMemory} {parse : RequestParse} (hat : At state memory parse) :
      Follows uriSize At (.next state memory) (.next parse)
  | leave {state : σ} {memory : ParseMemory} {parse : RequestParse} (hat : At state memory parse) :
      Follows uriSize At (.leave state memory) (.leave parse)

namespace AtLine

variable {uriSize : Nat} {base memory : ParseMemory} {parse : RequestParse} {state : RequestState}
  {P : ParseMemory → Prop} {c : Byte}

/-- A byte that only moves the state, behind the URI or before it. -/
theorem goto (hat : AtLine uriSize base state memory parse) (next : RequestState)
    (hnext : next ≠ .start) (huri : next ∈ [.method, .wsBeforeUri] → parse.uriData = []) :
    AtLine uriSize base next memory { parse with requestState := next } where
  represents := { hat.represents with }
  same := hat.same
  current := rfl
  headerState := hat.headerState
  fits := ⟨fun h => absurd h hnext, fun h => huri ((List.mem_cons.mp h).resolve_left hnext)⟩

/-- Storing a byte of the method stays in its block and stores it in the parse as well. -/
theorem putMethod (hat : AtLine uriSize base state memory parse) (hlt : memory.methodSize < 6)
    (huri : parse.uriData = []) :
    (memory.putMethod c).Sat P fun after => AtLine uriSize base .method after
      { parse with methodString := parse.methodString ++ [c], requestState := .method } := by
  refine (hat.represents.methodString.store hlt c).bind fun methodString hstored => Sat.pure ?_
  exact {
    represents := { hat.represents with methodString := hstored }
    same := { hat.same with }
    current := rfl
    headerState := hat.headerState
    fits := ⟨by simp, fun _ => huri⟩ }

theorem putUri (hat : AtLine uriSize base state memory parse) (hlt : memory.uriEnd < uriSize) :
    (memory.putUri c).Sat P fun after => AtLine uriSize base .uri after
      { parse with uriData := parse.uriData ++ [c], requestState := .uri } := by
  have hroom : memory.uriEnd < uriSize + 1 := Nat.lt_succ_of_lt hlt
  refine (hat.represents.uriData.store hroom c).bind fun uriData hstored => Sat.pure ?_
  exact {
    represents := { hat.represents with
      uriData := hstored
      uriFits := hlt }
    same := { hat.same with }
    current := rfl
    headerState := hat.headerState
    fits := ⟨by simp, by simp⟩ }

theorem refuse (hat : AtLine uriSize base state memory parse) :
    (pure (.invalid memory) : Traced ParseMemory (Switch RequestState)).Sat P fun step =>
      Follows uriSize (AtLine uriSize base) step .invalid :=
  Sat.pure (.invalid hat.represents)

/-- Comparing the method reads no more than was stored. -/
theorem matchMethod (hat : AtLine uriSize base .method memory parse) {name : Bytes}
    (hname : memory.methodSize = name.length) (method : HttpMethod) :
    (memory.matchMethod name method).Sat P fun step => Follows uriSize (AtLine uriSize base) step
      (if parse.methodString = name then
        .next { parse with method, requestState := .wsBeforeUri }
      else .invalid) := by
  have hstored := hat.represents.methodString
  have hle : name.length ≤ memory.methodString.length := by
    rw [← hname, hstored.length]
    exact hstored.le
  refine (Sat.loadFront hle).bind fun front hfront => Sat.pure ?_
  rw [← hname, hstored.take_eq] at hfront
  subst hfront
  split
  next =>
    have huri : parse.uriData = [] := hat.fits.uri (by simp [hat.current])
    exact .next {
      represents := { hat.represents with method := rfl }
      same := { hat.same with }
      current := rfl
      headerState := hat.headerState
      fits := ⟨by simp, fun _ => huri⟩ }
  next => exact .invalid hat.represents

theorem setVersion (hat : AtLine uriSize base state memory parse) (version : HttpVersion) :
    AtLine uriSize base .doneCr { memory with version }
      { parse with version, requestState := .doneCr } where
  represents := { hat.represents with version := rfl }
  same := { hat.same with }
  current := rfl
  headerState := hat.headerState
  fits := ⟨by simp, by simp⟩

theorem expectByte (hat : AtLine uriSize base state memory parse) {expected : Byte}
    {next : RequestState} (hnext : next ∉ [.start, .method, .wsBeforeUri]) :
    (pure (memory.expectByte c expected next) : Traced ParseMemory (Switch RequestState)).Sat P
      fun step => Follows uriSize (AtLine uriSize base) step
        (Http.expectByte parse c expected next) := by
  simp only [List.mem_cons, List.not_mem_nil, or_false, not_or] at hnext
  apply Sat.pure
  unfold ParseMemory.expectByte Http.expectByte
  split
  next => exact .next (hat.goto next hnext.1 (by simp [hnext.2.1, hnext.2.2]))
  next => exact .invalid hat.represents

/-- One byte of the request line. The first byte of the URI is written without a check:
the block has room for it because it is empty and `uriSize` is not zero. -/
theorem requestLineByte (hat : AtLine uriSize base state memory parse) (hsize : 1 ≤ uriSize)
    (c : Byte) :
    (ParseMemory.requestLineByte state memory c).Sat P fun step =>
      Follows uriSize (AtLine uriSize base) step (Http.requestLineByte parse c) := by
  have hrep := hat.represents
  cases state with
  | start =>
      simp only [ParseMemory.requestLineByte, Http.requestLineByte, hat.current]
      have hempty : parse.methodString = [] := hat.fits.method hat.current
      have hlt : memory.methodSize < 6 := by
        rw [← hrep.methodString.filled, hempty]
        exact Nat.zero_lt_succ 5
      split
      next => exact hat.refuse
      next =>
        refine (hat.putMethod hlt (hat.fits.uri (by simp [hat.current]))).bind ?_
        exact fun after hafter => Sat.pure (.next hafter)
  | method =>
      simp only [ParseMemory.requestLineByte, Http.requestLineByte, hat.current,
        hrep.methodString.filled]
      split
      next => exact hat.refuse
      next hle =>
        split
        next =>
          split
          next hthree =>
            have hname : memory.methodSize = (bytes "GET").length := hthree
            exact hat.matchMethod hname .get
          next =>
            split
            next hfour =>
              have hname : memory.methodSize = (bytes "POST").length := hfour
              exact hat.matchMethod hname .post
            next => exact hat.refuse
        next =>
          have hlt : memory.methodSize < 6 := by omega
          refine (hat.putMethod hlt (hat.fits.uri (by simp [hat.current]))).bind ?_
          exact fun after hafter => Sat.pure (.next hafter)
  | wsBeforeUri =>
      simp only [ParseMemory.requestLineByte, Http.requestLineByte, hat.current]
      have hempty : parse.uriData = [] := hat.fits.uri (by simp [hat.current])
      have hlt : memory.uriEnd < uriSize := by
        rw [← hrep.uriData.filled, hempty]
        exact hsize
      split
      next => exact Sat.pure (.next hat)
      next =>
        split
        next => exact (hat.putUri hlt).bind fun after hafter => Sat.pure (.next hafter)
        next => exact hat.refuse
  | uri =>
      simp only [ParseMemory.requestLineByte, Http.requestLineByte, hat.current,
        ← hrep.uriData.filled, hrep.uriDataSize.trans hrep.limit.symm]
      split
      next => exact hat.refuse
      next hlt =>
        rw [hrep.uriData.filled, hrep.limit] at hlt
        split
        next => exact Sat.pure (.next (hat.goto .wsBeforeProtocol (by simp) (by simp)))
        next =>
          split
          next => exact hat.refuse
          next =>
            refine (hat.putUri (Nat.lt_of_not_le hlt)).bind ?_
            exact fun after hafter => Sat.pure (.next hafter)
  | wsBeforeProtocol =>
      simp only [ParseMemory.requestLineByte, Http.requestLineByte, hat.current]
      split
      next => exact Sat.pure (.next hat)
      next =>
        split
        next => exact Sat.pure (.next (hat.goto .protocolHt (by simp) (by simp)))
        next => exact hat.refuse
  | protocolHt =>
      simp only [ParseMemory.requestLineByte, Http.requestLineByte, hat.current]
      exact hat.expectByte (by simp)
  | protocolHtt =>
      simp only [ParseMemory.requestLineByte, Http.requestLineByte, hat.current]
      exact hat.expectByte (by simp)
  | protocolHttp =>
      simp only [ParseMemory.requestLineByte, Http.requestLineByte, hat.current]
      exact hat.expectByte (by simp)
  | protocolHttpSlash =>
      simp only [ParseMemory.requestLineByte, Http.requestLineByte, hat.current]
      exact hat.expectByte (by simp)
  | protocolHttpMajor =>
      simp only [ParseMemory.requestLineByte, Http.requestLineByte, hat.current]
      exact hat.expectByte (by simp)
  | protocolHttpMajorDot =>
      simp only [ParseMemory.requestLineByte, Http.requestLineByte, hat.current]
      exact hat.expectByte (by simp)
  | protocolHttpMajorDotMinor =>
      simp only [ParseMemory.requestLineByte, Http.requestLineByte, hat.current]
      split
      next => exact Sat.pure (.next (hat.setVersion .http10))
      next =>
        split
        next => exact Sat.pure (.next (hat.setVersion .http11))
        next => exact hat.refuse
  | doneCr =>
      simp only [ParseMemory.requestLineByte, Http.requestLineByte, hat.current]
      split
      next => exact Sat.pure (.leave (hat.goto .done (by simp) (by simp)))
      next =>
        split
        next => exact Sat.pure (.next (hat.goto .doneLf (by simp) (by simp)))
        next => exact hat.refuse
  | doneLf =>
      simp only [ParseMemory.requestLineByte, Http.requestLineByte, hat.current]
      split
      next => exact Sat.pure (.leave (hat.goto .done (by simp) (by simp)))
      next => exact hat.refuse
  | done =>
      simp only [ParseMemory.requestLineByte, Http.requestLineByte, hat.current]
      exact hat.refuse

end AtLine

/-! ## The header section -/

/-- A value without the blanks at its end. -/
theorem trim_sat {P : ParseMemory → Prop} {capacity size : Nat} {block content : Bytes}
    (hstored : Stored capacity block size content) :
    (ParseMemory.trim block size).Sat P fun left =>
      Stored capacity block left (content.rdropWhile isBlank) ∧ left ≤ size := by
  induction content using List.reverseRecOn generalizing size with
  | nil =>
      obtain rfl := hstored.filled
      exact Sat.pure ⟨hstored, Nat.le_refl 0⟩
  | append_singleton front c ih =>
      have hsize := hstored.filled
      rw [List.length_append, List.length_singleton] at hsize
      subst hsize
      have hfront : front <+: block := (List.prefix_append front [c]).trans hstored.front
      have hcell : block[front.length]? = some c := by
        obtain ⟨rest, rfl⟩ := hstored.front
        simp
      refine (Sat.load hcell).bind fun d hd => ?_
      subst hd
      rw [List.rdropWhile_concat]
      split
      next =>
        refine (ih ⟨hstored.length, rfl, hfront⟩).mono fun left hleft => ?_
        exact ⟨hleft.1, Nat.le_succ_of_le hleft.2⟩
      next => exact Sat.pure ⟨hstored, Nat.le_refl _⟩

/-- A terminated block is copied up to its terminator. -/
theorem strdup_sat {P : ParseMemory → Prop} {capacity size : Nat} {block content : Bytes}
    (hstored : Stored capacity block size (content ++ [0])) :
    (strdup block).Sat P (· = cstr content) := by
  obtain ⟨rest, rfl⟩ := hstored.front
  have hmem : (0 : Byte) ∈ content ++ [0] ++ rest := by simp
  have hcstr : cstr (content ++ [0] ++ rest) = cstr content := by
    rw [List.append_assoc]
    exact cstr_append_zero content rest
  rw [strdup, if_pos hmem]
  exact Sat.pure hcstr

namespace AtHeader

variable {uriSize : Nat} {base memory : ParseMemory} {parse : RequestParse} {state : HeaderState}
  {P : ParseMemory → Prop} {c : Byte}

theorem refuse (hat : AtHeader uriSize base state memory parse) :
    (pure (.invalid memory) : Traced ParseMemory (Switch HeaderState)).Sat P fun step =>
      Follows uriSize (AtHeader uriSize base) step .invalid :=
  Sat.pure (.invalid hat.represents)

/-- A byte that only moves the state. -/
theorem goto (hat : AtHeader uriSize base state memory parse) (next : HeaderState) :
    AtHeader uriSize base next memory { parse with headerState := next } where
  represents := { hat.represents with }
  same := hat.same
  current := rfl
  requestState := hat.requestState
  done := hat.done

/-- Storing a byte of the name checks the size of the block first, as the parse does. -/
theorem storeName (hat : AtHeader uriSize base state memory parse) :
    (memory.storeName c).Sat P fun step =>
      Follows uriSize (AtHeader uriSize base) step (Http.storeName parse c) := by
  have hrep := hat.represents
  have hfull : parse.headerName.length ≥ parse.uriDataSize ↔
      memory.headerNameSize ≥ memory.uriDataSize := by
    rw [hrep.headerName.filled, hrep.limit, hrep.uriDataSize]
  rw [ParseMemory.storeName, Http.storeName, if_congr hfull rfl rfl]
  split
  next => exact hat.refuse
  next hlt =>
    rw [hrep.uriDataSize] at hlt
    have hroom : memory.headerNameSize < uriSize + 1 := by omega
    refine (hrep.headerName.store hroom c).bind fun headerName hstored => Sat.pure ?_
    exact .next {
      represents := { hrep with
        headerName := hstored
        nameFits := Nat.lt_of_not_le hlt }
      same := { hat.same with }
      current := rfl
      requestState := hat.requestState
      done := hat.done }

theorem storeValue (hat : AtHeader uriSize base state memory parse) (next : HeaderState) :
    (memory.storeValue c next).Sat P fun step =>
      Follows uriSize (AtHeader uriSize base) step (Http.storeValue parse c next) := by
  have hrep := hat.represents
  have hfull : parse.headerValue.length ≥ parse.uriDataSize ↔
      memory.headerValueSize ≥ memory.uriDataSize := by
    rw [hrep.headerValue.filled, hrep.limit, hrep.uriDataSize]
  rw [ParseMemory.storeValue, Http.storeValue, if_congr hfull rfl rfl]
  split
  next => exact hat.refuse
  next hlt =>
    rw [hrep.uriDataSize] at hlt
    have hroom : memory.headerValueSize < uriSize + 1 := by omega
    refine (hrep.headerValue.store hroom c).bind fun headerValue hstored => Sat.pure ?_
    exact .next {
      represents := { hrep with
        headerValue := hstored
        valueFits := Nat.lt_of_not_le hlt }
      same := { hat.same with }
      current := rfl
      requestState := hat.requestState
      done := hat.done }

/-- The terminators of a header have room behind it. -/
theorem headerAppend (hat : AtHeader uriSize base state memory parse) :
    (memory.headerAppend).Sat P fun after =>
      AtHeader uriSize base state after (Http.headerAppend parse) := by
  have hrep := hat.represents
  simp only [ParseMemory.headerAppend, Http.headerAppend, hrep.headerName.filled]
  split
  next => exact Sat.pure hat
  next =>
    have hname : memory.headerNameSize < uriSize + 1 := Nat.lt_succ_of_le hrep.nameFits
    refine (hrep.headerName.store hname 0).bind fun headerName hstoredName => ?_
    refine (trim_sat hrep.headerValue).bind fun left hleft => ?_
    have hvalue : left < uriSize + 1 := Nat.lt_succ_of_le (hleft.2.trans hrep.valueFits)
    refine (hleft.1.store hvalue 0).bind fun headerValue hstoredValue => ?_
    refine (strdup_sat hstoredName).bind fun name hname => ?_
    refine (strdup_sat hstoredValue).bind fun value hvalue => Sat.pure ?_
    subst hname hvalue
    exact {
      represents := { hrep with
        headers := by rw [hrep.headers]
        headerName := Stored.empty hstoredName.length
        nameFits := Nat.zero_le _
        headerValue := Stored.empty hstoredValue.length
        valueFits := Nat.zero_le _ }
      same := { hat.same with }
      current := hat.current
      requestState := hat.requestState
      done := hat.done }

/-- The end of a header line appends the header as the parse does, with both of its strings
within their blocks. -/
theorem endHeader (hat : AtHeader uriSize base state memory parse) :
    (memory.endHeader c).Sat P fun step =>
      Follows uriSize (AtHeader uriSize base) step (Http.endHeader parse c) := by
  refine hat.headerAppend.bind fun after hafter => Sat.pure ?_
  unfold Http.endHeader
  split
  next => exact .next (hafter.goto .doneLf)
  next => exact .leave (hafter.goto .start)

/-- One byte of a header, over all states of the switch. -/
theorem headerSwitch (hat : AtHeader uriSize base state memory parse) (c : Byte) :
    (ParseMemory.headerSwitch state memory c).Sat P fun step =>
      Follows uriSize (AtHeader uriSize base) step (Http.headerSwitch parse c) := by
  cases state with
  | start =>
      simp only [ParseMemory.headerSwitch, Http.headerSwitch, hat.current]
      split
      next => exact Sat.pure (.next (hat.goto .startLf))
      next =>
        split
        next => exact Sat.pure (.leave (hat.goto .done))
        next =>
          split
          next => exact hat.storeName
          next => exact hat.refuse
  | startLf =>
      simp only [ParseMemory.headerSwitch, Http.headerSwitch, hat.current]
      split
      next => exact Sat.pure (.leave (hat.goto .done))
      next => exact hat.refuse
  | name =>
      simp only [ParseMemory.headerSwitch, Http.headerSwitch, hat.current]
      split
      next => exact hat.storeName
      next =>
        split
        next => exact Sat.pure (.next (hat.goto .spaceBeforeValue))
        next =>
          split
          next => exact hat.endHeader
          next => exact hat.refuse
  | spaceBeforeValue =>
      simp only [ParseMemory.headerSwitch, Http.headerSwitch, hat.current]
      split
      next => exact Sat.pure (.next hat)
      next =>
        split
        next => exact hat.endHeader
        next => exact hat.storeValue .value
  | value =>
      simp only [ParseMemory.headerSwitch, Http.headerSwitch, hat.current]
      split
      next => exact hat.storeValue .spaceAfterValue
      next =>
        split
        next => exact hat.endHeader
        next => exact hat.storeValue .value
  | spaceAfterValue =>
      simp only [ParseMemory.headerSwitch, Http.headerSwitch, hat.current]
      split
      next => exact hat.storeValue .spaceAfterValue
      next =>
        split
        next => exact hat.endHeader
        next => exact hat.storeValue .value
  | doneLf =>
      simp only [ParseMemory.headerSwitch, Http.headerSwitch, hat.current]
      split
      next => exact Sat.pure (.leave (hat.goto .start))
      next => exact hat.refuse
  | done =>
      simp only [ParseMemory.headerSwitch, Http.headerSwitch, hat.current]
      exact Sat.pure (.next hat)

/-- One byte of the header section. -/
theorem requestHeaderByte (hat : AtHeader uriSize base state memory parse) (c : Byte) :
    (ParseMemory.requestHeaderByte state memory c).Sat P fun step =>
      Follows uriSize (AtHeader uriSize base) step (Http.requestHeaderByte parse c) := by
  have hcounted : AtHeader uriSize base state
      { memory with headerBytesRead := memory.headerBytesRead + 1 }
      { parse with headerBytesRead := parse.headerBytesRead + 1 } := {
    represents := { hat.represents with
      headerBytesRead := congrArg (· + 1) hat.represents.headerBytesRead }
    same := { hat.same with }
    current := hat.current
    requestState := hat.requestState
    done := hat.done }
  have hover : parse.headerBytesRead + 1 > maxHeaderBytes ↔
      memory.headerBytesRead + 1 > maxHeaderBytes := by
    rw [hat.represents.headerBytesRead]
  rw [ParseMemory.requestHeaderByte, Http.requestHeaderByte, if_congr hover rfl rfl]
  dsimp only
  split
  next => exact hcounted.refuse
  next => exact hcounted.headerSwitch c

end AtHeader

/-! ## The loops -/

/-- The received bytes from `p` on. -/
def ParseMemory.unreadAt (memory : ParseMemory) (p : Nat) : Bytes :=
  (memory.buffer.take memory.bufferSize).drop p

theorem ParseMemory.unreadAt_of_le (memory : ParseMemory) {p : Nat} (hle : memory.bufferSize ≤ p) :
    memory.unreadAt p = [] := by
  apply List.drop_eq_nil_of_le
  rw [List.length_take]
  exact (Nat.min_le_left _ _).trans hle

/-- In front of the end of the buffer there is a byte to read, and reading it does not fault. -/
theorem ParseMemory.exists_unreadAt_cons (memory : ParseMemory)
    (hsize : memory.bufferSize ≤ memory.buffer.length) {p : Nat} (hlt : p < memory.bufferSize) :
    ∃ c, memory.buffer[p]? = some c ∧ memory.unreadAt p = c :: memory.unreadAt (p + 1) := by
  have hcell : p < (memory.buffer.take memory.bufferSize).length := by
    rw [List.length_take]
    omega
  refine ⟨(memory.buffer.take memory.bufferSize)[p], ?_, List.drop_eq_getElem_cons hcell⟩
  rw [List.getElem_take, List.getElem?_eq_getElem]

theorem SameBuffer.unreadAt {base memory : ParseMemory} (hsame : SameBuffer base memory) (p : Nat) :
    memory.unreadAt p = base.unreadAt p := by
  rw [ParseMemory.unreadAt, ParseMemory.unreadAt, hsame.buffer, hsame.bufferSize]

/-- The loop on the arrays ends where the loop on lists ends. -/
inductive EndsWith {σ : Type} (base : ParseMemory)
    (At : σ → ParseMemory → RequestParse → Prop) : LoopEnd σ → LoopResult → Prop
  | invalid {unread : Bytes} : EndsWith base At .invalid (.invalid unread)
  | stopped {p : Nat} {state : σ} {memory : ParseMemory} {parse : RequestParse}
      (hat : At state memory parse) (hp : p ≤ base.bufferSize) :
      EndsWith base At (.stopped p state memory) (.stopped parse (base.unreadAt p))

section Loops

variable {σ : Type} {uriSize : Nat} {base : ParseMemory}
  {At : σ → ParseMemory → RequestParse → Prop}
  {body : σ → ParseMemory → Byte → Traced ParseMemory (Switch σ)}
  {step : RequestParse → Byte → ByteStep}

/-- A loop reads only received bytes, and each of its states is in bounds. -/
theorem byteLoop_sat (hbase : base.bufferSize ≤ base.buffer.length)
    (hrep : ∀ state memory parse, At state memory parse → Represents uriSize memory parse)
    (hsame : ∀ state memory parse, At state memory parse → SameBuffer base memory)
    (hbody : ∀ state memory parse c, At state memory parse →
      (body state memory c).Sat (Bounded uriSize) fun r => Follows uriSize At r (step parse c))
    {left p : Nat} (hp : p + left = base.bufferSize) {state : σ} {memory : ParseMemory}
    {parse : RequestParse} (hat : At state memory parse) :
    (ParseMemory.byteLoop body left p state memory).Sat (Bounded uriSize) fun stop =>
      EndsWith base At stop (byteLoop step parse (base.unreadAt p)) := by
  induction left generalizing p state memory parse with
  | zero =>
      have hend : base.unreadAt p = [] := base.unreadAt_of_le (Nat.le_of_eq hp.symm)
      have hstop : EndsWith base At (.stopped p state memory) (.stopped parse (base.unreadAt p)) :=
        .stopped hat (Nat.le_of_eq hp)
      rw [hend] at hstop ⊢
      exact Sat.pure hstop
  | succ left ih =>
      have hlt : p < base.bufferSize := by omega
      obtain ⟨c, hcell, hunread⟩ := base.exists_unreadAt_cons hbase hlt
      rw [← (hsame state memory parse hat).buffer] at hcell
      refine (Sat.load hcell).bind fun d hd => ?_
      subst hd
      rw [hunread, byteLoop]
      refine (hbody state memory parse d hat).bind fun r hr => ?_
      cases hstep : step parse d with
      | invalid =>
          rw [hstep] at hr
          cases hr with
          | invalid hinvalid => exact Sat.passing hinvalid.bounded (Sat.pure .invalid)
      | next reached =>
          rw [hstep] at hr
          cases hr with
          | next hnext =>
              refine Sat.passing (hrep _ _ _ hnext).bounded ?_
              exact ih (by omega) hnext
      | leave reached =>
          rw [hstep] at hr
          cases hr with
          | leave hleave =>
              refine Sat.passing (hrep _ _ _ hleave).bounded (Sat.pure ?_)
              exact .stopped hleave hlt

end Loops

/-! ## One receive -/

/-- The received bytes that were not read yet. -/
def ParseMemory.unread (memory : ParseMemory) : Bytes :=
  match memory.bufferMarker with
  | none => []
  | some p => memory.unreadAt p

/-- The parser on its arrays stands where the parser on lists stands. -/
structure Between (uriSize : Nat) (memory : ParseMemory) (buffer : ParseBuffer) : Prop where
  represents : Represents uriSize memory buffer.parse
  requestState : memory.requestState = buffer.parse.requestState
  headerState : memory.headerState = buffer.parse.headerState
  fits : LineFits buffer.parse
  bufferSize : memory.bufferSize = buffer.bufferSize
  unread : memory.unread = buffer.unread

/-- What a loop makes of the parser, in the order of `buffer`. -/
inductive Returns (uriSize size : Nat) : Option ParseMemory → LoopResult → Prop
  | invalid {unread : Bytes} : Returns uriSize size none (.invalid unread)
  | stopped {memory : ParseMemory} {parse : RequestParse} {unread : Bytes} {p : Nat}
      (hbetween : Between uriSize memory ⟨parse, size, unread⟩)
      (hmarker : memory.bufferMarker = some p) :
      Returns uriSize size (some memory) (.stopped parse unread)

/-- What `request_parse` makes of the parser. -/
inductive Agrees (uriSize : Nat) : Option ParseMemory → ParseStatus → Prop
  | invalid {unread : Bytes} : Agrees uriSize none (.invalid unread)
  | parsed {memory : ParseMemory} {buffer : ParseBuffer}
      (hbetween : Between uriSize memory buffer) :
      Agrees uriSize (some memory) (.parsed buffer)

namespace Between

variable {uriSize : Nat} {memory : ParseMemory} {buffer : ParseBuffer}

theorem bufferSize_le_length (hbetween : Between uriSize memory buffer) :
    memory.bufferSize ≤ memory.buffer.length :=
  hbetween.represents.bufferBlock ▸ hbetween.represents.bufferSize

/-- The marker is at the end exactly when nothing is unread. -/
theorem usedUp_iff (hbetween : Between uriSize memory buffer) :
    memory.usedUp = true ↔ buffer.unread = [] := by
  rw [← hbetween.unread]
  cases hmarker : memory.bufferMarker with
  | none => simp [ParseMemory.usedUp, ParseMemory.unread, hmarker]
  | some p =>
      simp only [ParseMemory.usedUp, ParseMemory.unread, hmarker, decide_eq_true_eq]
      refine ⟨memory.unreadAt_of_le, fun hnil => Nat.le_of_not_lt fun hlt => ?_⟩
      obtain ⟨c, -, hcons⟩ := memory.exists_unreadAt_cons hbetween.bufferSize_le_length hlt
      rw [hcons] at hnil
      cases hnil

theorem unreadAt_eq (hbetween : Between uriSize memory buffer) {p : Nat}
    (hmarker : memory.bufferMarker = some p) : memory.unreadAt p = buffer.unread := by
  rw [← hbetween.unread, ParseMemory.unread, hmarker]

/-- The marker is set to where the loop stopped. -/
theorem setMarker {after : ParseMemory} {parse : RequestParse}
    (hbetween : Between uriSize memory buffer) (hrep : Represents uriSize after parse)
    (hsame : SameBuffer memory after) (hrequest : after.requestState = parse.requestState)
    (hheader : after.headerState = parse.headerState) (hfits : LineFits parse) {p : Nat}
    (hp : p ≤ memory.bufferSize) :
    Between uriSize { after with bufferMarker := some p }
      ⟨parse, buffer.bufferSize, memory.unreadAt p⟩ where
  represents := { hrep with
    bufferMarker := by
      intro q hq
      cases hq
      exact hsame.bufferSize.symm ▸ hp }
  requestState := hrequest
  headerState := hheader
  fits := hfits
  bufferSize := hsame.bufferSize.trans hbetween.bufferSize
  unread := hsame.unreadAt p

/-- A loop that starts at the marker reads what is unread. -/
theorem byteLoop {σ : Type} {At : σ → ParseMemory → RequestParse → Prop}
    {body : σ → ParseMemory → Byte → Traced ParseMemory (Switch σ)}
    {step : RequestParse → Byte → ByteStep} (hbetween : Between uriSize memory buffer) {p : Nat}
    (hmarker : memory.bufferMarker = some p)
    (hrep : ∀ state memory parse, At state memory parse → Represents uriSize memory parse)
    (hsame : ∀ state after parse, At state after parse → SameBuffer memory after)
    (hbody : ∀ state memory parse c, At state memory parse →
      (body state memory c).Sat (Bounded uriSize) fun r => Follows uriSize At r (step parse c))
    {state : σ} (hat : At state memory buffer.parse) :
    (ParseMemory.byteLoop body (memory.bufferSize - p) p state memory).Sat (Bounded uriSize)
      fun stop => EndsWith memory At stop (Http.byteLoop step buffer.parse buffer.unread) := by
  have hp : p + (memory.bufferSize - p) = memory.bufferSize :=
    Nat.add_sub_of_le (hbetween.represents.bufferMarker p hmarker)
  rw [← hbetween.unreadAt_eq hmarker]
  exact byteLoop_sat hbetween.bufferSize_le_length hrep hsame hbody hp hat

/-- The loop over the request line follows the parse and stays within the blocks. -/
theorem requestLineParse (hbetween : Between uriSize memory buffer) (huri : 1 ≤ uriSize) {p : Nat}
    (hmarker : memory.bufferMarker = some p) :
    (memory.requestLineParse).Sat (Bounded uriSize) fun r =>
      Returns uriSize buffer.bufferSize r (Http.requestLineParse buffer.parse buffer.unread) := by
  have hat : AtLine uriSize memory memory.requestState memory buffer.parse :=
    ⟨hbetween.represents, ⟨rfl, rfl, rfl⟩, hbetween.requestState.symm, hbetween.headerState,
      hbetween.fits⟩
  have hloop := hbetween.byteLoop hmarker (fun _ _ _ hat => hat.represents)
    (fun _ _ _ hat => hat.same) (fun _ _ _ c hat => hat.requestLineByte huri c) hat
  rw [ParseMemory.requestLineParse, hmarker]
  refine hloop.bind fun stop hstop => ?_
  change EndsWith memory _ stop (Http.requestLineParse buffer.parse buffer.unread) at hstop
  generalize Http.requestLineParse buffer.parse buffer.unread = result at hstop ⊢
  cases hstop with
  | invalid => exact Sat.pure .invalid
  | @stopped q state after parse hat hq =>
      have hrep' : Represents uriSize { after with requestState := state } parse :=
        { hat.represents with }
      have hsame' : SameBuffer memory { after with requestState := state } := { hat.same with }
      have hafter := hbetween.setMarker hrep' hsame' hat.current.symm hat.headerState hat.fits hq
      exact Sat.passing hafter.represents.bounded (Sat.pure (.stopped hafter rfl))

theorem requestHeaderParse (hbetween : Between uriSize memory buffer)
    (hdone : memory.requestState = .done) {p : Nat} (hmarker : memory.bufferMarker = some p) :
    (memory.requestHeaderParse).Sat (Bounded uriSize) fun r =>
      Returns uriSize buffer.bufferSize r
        (Http.requestHeaderParse buffer.parse buffer.unread) ∧
      ∀ after ∈ r, after.requestState = .done := by
  have hat : AtHeader uriSize memory memory.headerState memory buffer.parse :=
    ⟨hbetween.represents, ⟨rfl, rfl, rfl⟩, hbetween.headerState.symm, hdone,
      hbetween.requestState.symm.trans hdone⟩
  have hloop := hbetween.byteLoop hmarker (fun _ _ _ hat => hat.represents)
    (fun _ _ _ hat => hat.same) (fun _ _ _ c hat => hat.requestHeaderByte c) hat
  rw [ParseMemory.requestHeaderParse, hmarker]
  refine hloop.bind fun stop hstop => ?_
  change EndsWith memory _ stop (Http.requestHeaderParse buffer.parse buffer.unread) at hstop
  generalize Http.requestHeaderParse buffer.parse buffer.unread = result at hstop ⊢
  cases hstop with
  | invalid => exact Sat.pure ⟨.invalid, by simp⟩
  | @stopped q state after parse hat hq =>
      have hrep' : Represents uriSize { after with headerState := state } parse :=
        { hat.represents with }
      have hsame' : SameBuffer memory { after with headerState := state } := { hat.same with }
      have hfits : LineFits parse := ⟨by simp [hat.done], by simp [hat.done]⟩
      have hafter := hbetween.setMarker hrep' hsame' (hat.requestState.trans hat.done.symm)
        hat.current.symm hfits hq
      refine Sat.passing hafter.represents.bounded (Sat.pure ⟨.stopped hafter rfl, ?_⟩)
      intro after' hafter'
      cases hafter'
      exact hat.requestState

theorem headerRounds {fuel size p : Nat} {parse : RequestParse} {unread : Bytes}
    (hbetween : Between uriSize memory ⟨parse, size, unread⟩) (hdone : memory.requestState = .done)
    (hmarker : memory.bufferMarker = some p) :
    (ParseMemory.headerRounds fuel memory).Sat (Bounded uriSize) fun r =>
      Returns uriSize size r (Http.headerRounds fuel parse unread) := by
  induction fuel generalizing memory parse unread p with
  | zero => exact Sat.pure (.stopped hbetween hmarker)
  | succ fuel ih =>
      refine (hbetween.requestHeaderParse hdone hmarker).bind fun r hr => ?_
      obtain ⟨hreturns, hstill⟩ := hr
      rw [Http.headerRounds]
      dsimp only at hreturns
      generalize Http.requestHeaderParse parse unread = result at hreturns ⊢
      cases hreturns with
      | invalid => exact Sat.pure .invalid
      | @stopped after parse unread q hafter hq =>
          have hused : (!after.usedUp) = true ↔ unread ≠ [] := by
            rw [Bool.not_eq_true', ← Bool.not_eq_true]
            exact not_congr hafter.usedUp_iff
          have hagain : (!after.usedUp) = true ∧ after.headerState ≠ .done ↔
              unread ≠ [] ∧ parse.headerState ≠ .done :=
            and_congr hused (not_congr (hafter.headerState ▸ Iff.rfl))
          dsimp only
          rw [if_congr hagain rfl rfl]
          split
          next => exact ih hafter (hstill after rfl) hq
          next => exact Sat.pure (.stopped hafter hq)

/-- The counter of the header bytes starts again while the request line is incomplete. -/
theorem resetCounter (hbetween : Between uriSize memory buffer) :
    Between uriSize
      (if memory.requestState ≠ .done then { memory with headerBytesRead := 0 } else memory)
      { buffer with
        parse := if buffer.parse.requestState ≠ .done then
            { buffer.parse with headerBytesRead := 0 } else buffer.parse } := by
  have hopen : memory.requestState ≠ .done ↔ buffer.parse.requestState ≠ .done := by
    rw [hbetween.requestState]
  by_cases hline : memory.requestState ≠ .done
  · rw [if_pos hline, if_pos (hopen.mp hline)]
    exact {
      represents := { hbetween.represents with headerBytesRead := rfl }
      requestState := hbetween.requestState
      headerState := hbetween.headerState
      fits := ⟨hbetween.fits.method, hbetween.fits.uri⟩
      bufferSize := hbetween.bufferSize
      unread := hbetween.unread }
  · rw [if_neg hline, if_neg (mt hopen.mpr hline)]
    exact hbetween

/-- A receive fills the front of the buffer. -/
theorem receive (hbetween : Between uriSize memory buffer) {received : Bytes}
    (hfits : received.length ≤ uriSize) (hreceived : received ≠ []) :
    (memory.receive received).Sat (Bounded uriSize) fun r =>
      ∃ after, r = some after ∧ after.bufferMarker = some 0 ∧
        Between uriSize after
          ⟨if buffer.parse.requestState ≠ .done then { buffer.parse with headerBytesRead := 0 }
            else buffer.parse, received.length, received⟩ := by
  have hreset := hbetween.resetCounter
  unfold ParseMemory.receive
  dsimp only
  generalize (if memory.requestState ≠ .done then { memory with headerBytesRead := 0 }
    else memory) = reset at hreset ⊢
  generalize (if buffer.parse.requestState ≠ .done then
    { buffer.parse with headerBytesRead := 0 } else buffer.parse) = parse at hreset ⊢
  have hrep := hreset.represents
  have hblock : received.length ≤ reset.buffer.length := hrep.bufferBlock.symm ▸ hfits
  refine (Sat.storeFront hblock).bind fun block hfilled => ?_
  rw [if_neg hreceived]
  have hlength : block.length = uriSize := by
    rw [hfilled, List.length_append, List.length_drop, hrep.bufferBlock]
    omega
  have hafter : Between uriSize
      { reset with buffer := block, bufferSize := received.length, bufferMarker := some 0 }
      ⟨parse, received.length, received⟩ := {
    represents := { hrep with
      bufferBlock := hlength
      bufferSize := hfits
      bufferMarker := by simp }
    requestState := hreset.requestState
    headerState := hreset.headerState
    fits := hreset.fits
    bufferSize := rfl
    unread := by simp [ParseMemory.unread, ParseMemory.unreadAt, hfilled] }
  exact Sat.passing hafter.represents.bounded (Sat.pure ⟨_, rfl, rfl, hafter⟩)

/-- A receive without bytes reads and writes nothing. -/
theorem receive_nil (memory : ParseMemory) {P : ParseMemory → Prop} :
    (memory.receive []).Sat P (· = none) := by
  refine (Sat.storeFront (Nat.zero_le _)).bind fun buffer _ => ?_
  exact Sat.pure rfl

theorem length_unread (hbetween : Between uriSize memory buffer) {p : Nat}
    (hmarker : memory.bufferMarker = some p) : buffer.unread.length = memory.bufferSize - p := by
  rw [← hbetween.unreadAt_eq hmarker, ParseMemory.unreadAt, List.length_drop, List.length_take,
    Nat.min_eq_left hbetween.bufferSize_le_length]

/-- Both loops together, in the order of `http_request_parse`: the request line first, and the
headers once it is done. -/
theorem parseBuffer (hbetween : Between uriSize memory buffer) (huri : 1 ≤ uriSize) {p : Nat}
    (hmarker : memory.bufferMarker = some p) :
    (memory.parseBuffer).Sat (Bounded uriSize) fun r =>
      Agrees uriSize r (requestParseBuffer buffer) := by
  have hline : (if memory.requestState ≠ .done then memory.requestLineParse
      else pure (some memory)).Sat (Bounded uriSize) fun r =>
      Returns uriSize buffer.bufferSize r
        (if buffer.parse.requestState ≠ .done then
          Http.requestLineParse buffer.parse buffer.unread
        else .stopped buffer.parse buffer.unread) := by
    rw [hbetween.requestState]
    split
    next => exact hbetween.requestLineParse huri hmarker
    next => exact Sat.pure (.stopped hbetween hmarker)
  refine hline.bind fun r hr => ?_
  unfold requestParseBuffer
  dsimp only
  generalize (if buffer.parse.requestState ≠ .done then
    Http.requestLineParse buffer.parse buffer.unread
    else .stopped buffer.parse buffer.unread) = line at hr ⊢
  cases hr with
  | invalid => exact Sat.pure .invalid
  | @stopped after parse unread q hafter hq =>
      have hfinished : after.requestState = .done ↔ parse.requestState = .done := by
        rw [hafter.requestState]
      dsimp only
      by_cases hdone : after.requestState = .done
      · rw [if_pos hdone, if_pos (hfinished.mp hdone), hafter.length_unread hq, hq,
          Option.getD_some]
        refine (hafter.headerRounds hdone hq).mono fun r hr => ?_
        generalize Http.headerRounds (after.bufferSize - q + 1) parse unread = rounds at hr ⊢
        cases hr with
        | invalid => exact .invalid
        | stopped hlast _ => exact .parsed hlast
      · rw [if_neg hdone, if_neg (mt hfinished.mpr hdone)]
        exact Sat.pure (.parsed hafter)

/-- `request_parse` on the arrays. -/
theorem requestParse (hbetween : Between uriSize memory buffer) (huri : 1 ≤ uriSize)
    {received : Bytes} (hfits : received.length ≤ uriSize) :
    (memory.requestParse received).Sat (Bounded uriSize) fun r =>
      Agrees uriSize r (Http.requestParse buffer received) := by
  unfold ParseMemory.requestParse Http.requestParse
  by_cases hused : buffer.unread = []
  · rw [if_pos (hbetween.usedUp_iff.mpr hused), if_pos hused]
    by_cases hreceived : received = []
    · subst hreceived
      refine (receive_nil memory).bind fun r hr => ?_
      subst hr
      exact Sat.pure .invalid
    · refine (hbetween.receive hfits hreceived).bind fun r hr => ?_
      obtain ⟨after, rfl, hmarker, hafter⟩ := hr
      dsimp only
      rw [if_neg hreceived]
      exact hafter.parseBuffer huri hmarker
  · rw [if_neg (mt hbetween.usedUp_iff.mp hused), if_neg hused]
    refine (Sat.pure (Q := (· = some memory)) rfl).bind fun r hr => ?_
    subst hr
    cases hmarker : memory.bufferMarker with
    | none =>
        have hnil := hbetween.unread
        rw [ParseMemory.unread, hmarker] at hnil
        exact absurd hnil.symm hused
    | some p => exact hbetween.parseBuffer huri hmarker

/-- The memory starts as the parse does, whatever the fresh blocks contain. -/
theorem initial (uriSize : Nat) (junk : Nat → Nat → Byte) :
    Between uriSize (ParseMemory.requestParseInit uriSize junk) (parseBufferInit uriSize) where
  represents := {
    method := rfl
    version := rfl
    headers := rfl
    headerBytesRead := rfl
    limit := rfl
    uriDataSize := rfl
    methodString := Stored.empty rfl
    uriData := Padded.replicate 0 (uriSize + 1)
    uriFits := Nat.zero_le _
    headerName := Stored.empty (by simp [ParseMemory.requestParseInit])
    nameFits := Nat.zero_le _
    headerValue := Stored.empty (by simp [ParseMemory.requestParseInit])
    valueFits := Nat.zero_le _
    bufferBlock := by simp [ParseMemory.requestParseInit]
    bufferSize := Nat.le_refl _
    bufferMarker := by simp [ParseMemory.requestParseInit] }
  requestState := rfl
  headerState := rfl
  fits := ⟨fun _ => rfl, fun _ => rfl⟩
  bufferSize := rfl
  unread := rfl

end Between

/-! ## Runs of receives -/

/-- The parser on its arrays ends as the parser on lists does, with its lists in the
blocks. -/
inductive Ends (uriSize : Nat) : Option ParseMemory → Outcome RequestParse Byte → Prop
  | rejected {unread : Bytes} : Ends uriSize none (.rejected unread)
  | complete {memory : ParseMemory} {parse : RequestParse} {unread : Bytes}
      (hrep : Represents uriSize memory parse) : Ends uriSize (some memory) (.complete parse unread)
  | waiting {memory : ParseMemory} {parse : RequestParse} (hrep : Represents uriSize memory parse) :
      Ends uriSize (some memory) (.waiting parse)

/-- A whole run of receives follows the parse and stays within the bounds, by induction on the
receives. -/
theorem runReceives_sat {uriSize offered : Nat} {memory : ParseMemory} {buffer : ParseBuffer}
    {receives : List Bytes} (hbetween : Between uriSize memory buffer) (huri : 1 ≤ uriSize)
    (hoffered : offered ≤ uriSize) (hfitting : Fitting offered receives) :
    (memory.runReceives receives).Sat (Bounded uriSize) fun r =>
      Ends uriSize r (runReceives buffer receives) := by
  induction receives generalizing memory buffer offered with
  | nil =>
      exact Sat.passing hbetween.represents.bounded (Sat.pure (.waiting hbetween.represents))
  | cons received rest ih =>
      obtain ⟨hfits, hrest⟩ := hfitting
      have hreceived : received.length ≤ uriSize := hfits.trans hoffered
      refine Sat.passing hbetween.represents.bounded ?_
      refine (hbetween.requestParse huri hreceived).bind fun r hr => ?_
      rw [runReceives]
      generalize Http.requestParse buffer received = status at hr ⊢
      cases hr with
      | invalid => exact Sat.pure .rejected
      | @parsed after buffer hafter =>
          have hcomplete : after.headerState = .done ↔ buffer.parse.headerState = .done := by
            rw [hafter.headerState]
          dsimp only
          rw [if_congr hcomplete rfl rfl]
          split
          next => exact Sat.pure (.complete hafter.represents)
          next => exact ih hafter hreceived hrest

/-- The parser on its arrays ends as the parser on lists, for every stream and every
way to cut it into receives. -/
theorem runReceives_refines {uriSize : Nat} {receives : List Bytes} (huri : 1 ≤ uriSize)
    (hfitting : Fitting uriSize receives) (junk : Nat → Nat → Byte) :
    ∃ result visited,
      (ParseMemory.requestParseInit uriSize junk).runReceives receives = some (result, visited) ∧
        Ends uriSize result (runReceives (parseBufferInit uriSize) receives) := by
  obtain ⟨result, visited, hrun, -, hends⟩ :=
    runReceives_sat (Between.initial uriSize junk) huri (Nat.le_refl uriSize) hfitting
  exact ⟨result, visited, hrun, hends⟩

/-- Whatever arrives, and however it is cut into receives, no access is outside of a
block, and the sizes and pointers stay in their bounds behind every byte. -/
theorem runReceives_in_bounds (uriSize : Nat) (huri : 1 ≤ uriSize) (junk : Nat → Nat → Byte)
    (receives : List Bytes) (hfitting : Fitting uriSize receives) :
    ∃ result visited,
      (ParseMemory.requestParseInit uriSize junk).runReceives receives = some (result, visited) ∧
        ∀ memory ∈ visited, Bounded uriSize memory := by
  obtain ⟨result, visited, hrun, hvisited, -⟩ :=
    runReceives_sat (Between.initial uriSize junk) huri (Nat.le_refl uriSize) hfitting
  exact ⟨result, visited, hrun, hvisited⟩

/-- A URI that fills its block to the last byte, in two receives. -/
theorem runReceives_in_bounds_full :
    Fitting 8 [bytes "GET /abc", bytes "defgh HT"] ∧ ∃ result visited,
      (ParseMemory.requestParseInit 8 fun _ _ => 7).runReceives
          [bytes "GET /abc", bytes "defgh HT"] = some (result, visited) ∧
        ∀ memory ∈ visited, Bounded 8 memory :=
  have hfitting : Fitting 8 [bytes "GET /abc", bytes "defgh HT"] :=
    ⟨by decide, by decide, trivial⟩
  ⟨hfitting, runReceives_in_bounds 8 (by decide) (fun _ _ => 7) _ hfitting⟩

end DbSlayer.Http
