import DbSlayer.Foundation.Stream
import DbSlayer.Http.Parse

/-! # Parsing does not depend on how the bytes arrive

Both loops and the `do … while` around them come to one machine that reads a
byte at a time: `feed`. A receive runs it over the received bytes, so a
sequence of receives runs it over their concatenation.
-/

namespace DbSlayer.Http

open Foundation

/-- The fields behind a byte that was not refused. -/
def ByteStep.result : ByteStep → Option RequestParse
  | invalid => none
  | next parse => some parse
  | leave parse => some parse

/-- One byte of the stream, for whichever of the two machines is active. -/
def feed (parse : RequestParse) (c : Byte) : Option RequestParse :=
  if parse.requestState ≠ .done then (requestLineByte parse c).result
  else (requestHeaderByte parse c).result

/-- `header_state == PARSE_HEADER_DONE`. -/
def isComplete (parse : RequestParse) : Bool := parse.headerState = .done

/-! ## What one byte does to the states -/

/-- The line machine leaves the header fields alone. -/
def SameHeader (parse next : RequestParse) : Prop :=
  next.headerState = parse.headerState ∧ next.headerBytesRead = parse.headerBytesRead

/-- A byte within the request line leaves the header alone. -/
theorem requestLineByte_next {parse next : RequestParse} {c : Byte}
    (hstep : requestLineByte parse c = .next next) :
    next.requestState ≠ .done ∧ SameHeader parse next := by
  unfold requestLineByte expectByte at hstep
  split at hstep
  all_goals
    repeat' split at hstep
    all_goals first
      | (simp only [ByteStep.next.injEq] at hstep; subst hstep; simp_all [SameHeader])
      | simp at hstep

theorem requestLineByte_leave {parse next : RequestParse} {c : Byte}
    (hstep : requestLineByte parse c = .leave next) :
    next.requestState = .done ∧ SameHeader parse next := by
  unfold requestLineByte expectByte at hstep
  split at hstep
  all_goals
    repeat' split at hstep
    all_goals first
      | (simp only [ByteStep.leave.injEq] at hstep; subst hstep; simp [SameHeader])
      | simp at hstep

theorem headerAppend_requestState (parse : RequestParse) :
    (headerAppend parse).requestState = parse.requestState := by
  unfold headerAppend
  split <;> rfl

/-- A byte within a header leaves the request line alone. -/
theorem requestHeaderByte_next {parse next : RequestParse} {c : Byte}
    (hopen : parse.headerState ≠ .done) (hstep : requestHeaderByte parse c = .next next) :
    next.requestState = parse.requestState ∧ next.headerState ≠ .done := by
  unfold requestHeaderByte headerSwitch storeName storeValue endHeader at hstep
  simp only at hstep
  repeat' split at hstep
  all_goals first
    | (simp only [ByteStep.next.injEq] at hstep; subst hstep
       simp_all [headerAppend_requestState])
    | simp_all

theorem requestHeaderByte_leave {parse next : RequestParse} {c : Byte}
    (hstep : requestHeaderByte parse c = .leave next) :
    next.requestState = parse.requestState := by
  unfold requestHeaderByte headerSwitch storeName storeValue endHeader at hstep
  simp only at hstep
  repeat' split at hstep
  all_goals first
    | (simp only [ByteStep.leave.injEq] at hstep; subst hstep
       simp [headerAppend_requestState])
    | simp at hstep

/-- Before the line is done, a byte goes to the request line. -/
theorem feed_line {parse : RequestParse} (hline : parse.requestState ≠ .done) (c : Byte) :
    feed parse c = (requestLineByte parse c).result := by
  rw [feed, if_pos hline]

theorem feed_header {parse : RequestParse} (hline : parse.requestState = .done) (c : Byte) :
    feed parse c = (requestHeaderByte parse c).result := by
  rw [feed, if_neg (not_not.mpr hline)]

/-! ## The loops -/

theorem isComplete_eq_false {parse : RequestParse} (hopen : parse.headerState ≠ .done) :
    isComplete parse = false := by
  simp [isComplete, hopen]

/-- The loop over the request line takes its bytes one by one. -/
theorem consume_requestLineParse {parse : RequestParse} (hline : parse.requestState ≠ .done)
    (hopen : parse.headerState ≠ .done) (s : Bytes) :
    consume feed isComplete parse s =
      match requestLineParse parse s with
      | .invalid unread => .rejected unread
      | .stopped next unread => consume feed isComplete next unread := by
  induction s generalizing parse with
  | nil => rfl
  | cons c rest ih =>
      rw [requestLineParse, byteLoop, consume, feed_line hline]
      cases hstep : requestLineByte parse c with
      | invalid => rfl
      | next next =>
          obtain ⟨hnext, hheader, -⟩ := requestLineByte_next hstep
          rw [← hheader] at hopen
          simp only [ByteStep.result, isComplete_eq_false hopen]
          exact ih hnext hopen
      | leave next =>
          obtain ⟨-, hheader, -⟩ := requestLineByte_leave hstep
          rw [← hheader] at hopen
          simp only [ByteStep.result, isComplete_eq_false hopen]
          rfl

/-- The line loop stops behind the line or at the end of the bytes. -/
theorem requestLineParse_stopped {parse next : RequestParse} {s unread : Bytes}
    (hline : parse.requestState ≠ .done) (hloop : requestLineParse parse s = .stopped next unread) :
    SameHeader parse next ∧ (next.requestState = .done ∨ unread = []) := by
  induction s generalizing parse with
  | nil =>
      simp only [requestLineParse, byteLoop, LoopResult.stopped.injEq] at hloop
      obtain ⟨rfl, rfl⟩ := hloop
      exact ⟨⟨rfl, rfl⟩, .inr rfl⟩
  | cons c rest ih =>
      rw [requestLineParse, byteLoop] at hloop
      cases hstep : requestLineByte parse c with
      | invalid => simp [hstep] at hloop
      | next reached =>
          obtain ⟨hreached, hheader⟩ := requestLineByte_next hstep
          simp only [hstep] at hloop
          obtain ⟨hsame, hstop⟩ := ih hreached hloop
          exact ⟨⟨hsame.1.trans hheader.1, hsame.2.trans hheader.2⟩, hstop⟩
      | leave reached =>
          simp only [hstep, LoopResult.stopped.injEq] at hloop
          obtain ⟨rfl, rfl⟩ := hloop
          obtain ⟨hdone, hheader⟩ := requestLineByte_leave hstep
          exact ⟨hheader, .inl hdone⟩

theorem consume_requestHeaderParse {parse : RequestParse} (hline : parse.requestState = .done)
    (hopen : parse.headerState ≠ .done) (s : Bytes) :
    consume feed isComplete parse s =
      match requestHeaderParse parse s with
      | .invalid unread => .rejected unread
      | .stopped next unread =>
          if next.headerState = .done then .complete next unread
          else consume feed isComplete next unread := by
  induction s generalizing parse with
  | nil => simp [requestHeaderParse, byteLoop, hopen]
  | cons c rest ih =>
      rw [requestHeaderParse, byteLoop, consume, feed_header hline]
      cases hstep : requestHeaderByte parse c with
      | invalid => rfl
      | next next =>
          obtain ⟨hnext, hopen'⟩ := requestHeaderByte_next hopen hstep
          simp only [ByteStep.result, isComplete_eq_false hopen']
          exact ih (hnext.trans hline) hopen'
      | leave next => simp [ByteStep.result, isComplete]

/-- A round of the header loop keeps the line finished, and leaves fewer bytes
than it was given or none. -/
theorem requestHeaderParse_stopped {parse next : RequestParse} {s unread : Bytes}
    (hopen : parse.headerState ≠ .done)
    (hloop : requestHeaderParse parse s = .stopped next unread) :
    next.requestState = parse.requestState ∧ (unread = [] ∨ unread.length < s.length) := by
  induction s generalizing parse with
  | nil =>
      simp only [requestHeaderParse, byteLoop, LoopResult.stopped.injEq] at hloop
      obtain ⟨rfl, rfl⟩ := hloop
      exact ⟨rfl, .inl rfl⟩
  | cons c rest ih =>
      rw [requestHeaderParse, byteLoop] at hloop
      cases hstep : requestHeaderByte parse c with
      | invalid => simp [hstep] at hloop
      | next reached =>
          obtain ⟨hline, hopen'⟩ := requestHeaderByte_next hopen hstep
          simp only [hstep] at hloop
          obtain ⟨hsame, hless⟩ := ih hopen' hloop
          refine ⟨hsame.trans hline, hless.imp_right ?_⟩
          intro hlt
          simp only [List.length_cons]
          omega
      | leave reached =>
          simp only [hstep, LoopResult.stopped.injEq] at hloop
          obtain ⟨rfl, rfl⟩ := hloop
          exact ⟨requestHeaderByte_leave hstep, .inr (by simp)⟩

theorem consume_headerRounds {parse : RequestParse} (hline : parse.requestState = .done)
    (hopen : parse.headerState ≠ .done) {fuel : Nat} {s : Bytes} (hfuel : s.length < fuel) :
    headerRounds fuel parse s =
      match consume feed isComplete parse s with
      | .rejected unread => .invalid unread
      | .complete next unread => .stopped next unread
      | .waiting next => .stopped next [] := by
  induction fuel generalizing parse s with
  | zero => omega
  | succ fuel ih =>
      rw [headerRounds, consume_requestHeaderParse hline hopen]
      cases hround : requestHeaderParse parse s with
      | invalid unread => rfl
      | stopped next unread =>
          obtain ⟨hnext, hless⟩ := requestHeaderParse_stopped hopen hround
          by_cases hdone : next.headerState = .done
          · simp [hdone]
          · by_cases hnil : unread = []
            · simp [hdone, hnil, consume]
            · have hlt : unread.length < fuel := by
                have hshorter := hless.resolve_left hnil
                omega
              simp only [hdone, hnil, ne_eq, not_false_eq_true, and_self, if_true, if_false]
              exact ih (hnext.trans hline) hdone hlt

/-- What a status of `request_parse` says about the machine. -/
def ParseStatus.ofOutcome (bufferSize : Nat) : Outcome RequestParse Byte → ParseStatus
  | .rejected unread => .invalid unread
  | .complete parse unread => .parsed ⟨parse, bufferSize, unread⟩
  | .waiting parse => .parsed ⟨parse, bufferSize, []⟩

/-- The parse of a buffer is a run over its unread bytes, whether they end in the request line
or among the headers. -/
theorem requestParseBuffer_eq {buffer : ParseBuffer}
    (hopen : buffer.parse.headerState ≠ .done) :
    requestParseBuffer buffer =
      .ofOutcome buffer.bufferSize (consume feed isComplete buffer.parse buffer.unread) := by
  have hheader : ∀ (parse : RequestParse) (unread : Bytes), parse.requestState = .done →
      parse.headerState ≠ .done →
      (match headerRounds (unread.length + 1) parse unread with
        | .invalid unread => ParseStatus.invalid unread
        | .stopped parse unread => .parsed { buffer with parse, unread }) =
      .ofOutcome buffer.bufferSize (consume feed isComplete parse unread) := by
    intro parse unread hline hopen
    rw [consume_headerRounds hline hopen (Nat.lt_succ_self _)]
    cases consume feed isComplete parse unread <;> rfl
  unfold requestParseBuffer
  by_cases hline : buffer.parse.requestState = .done
  · simp only [hline, ne_eq, not_true_eq_false, if_false, if_true]
    exact hheader buffer.parse buffer.unread hline hopen
  · simp only [hline, ne_eq, not_false_eq_true, if_true]
    rw [consume_requestLineParse hline hopen]
    cases hloop : requestLineParse buffer.parse buffer.unread with
    | invalid unread => rfl
    | stopped next unread =>
        obtain ⟨hsame, hstop⟩ := requestLineParse_stopped hline hloop
        have hopen' : next.headerState ≠ .done := hsame.1 ▸ hopen
        by_cases hdone : next.requestState = .done
        · simp only [hdone, if_true]
          exact hheader next unread hdone hopen'
        · obtain rfl := hstop.resolve_left hdone
          simp [hdone, consume, ParseStatus.ofOutcome]

/-! ## Runs of receives -/

/-- No header byte was counted while the request line is incomplete, so that the
reset of the counter before a receive does nothing. -/
def Uncounted (parse : RequestParse) : Prop :=
  parse.requestState ≠ .done → parse.headerBytesRead = 0

/-- No byte of the request line is counted, so that the count is still zero when the first
header starts. -/
theorem feed_uncounted {parse next : RequestParse} {c : Byte} (hcount : Uncounted parse)
    (hopen : parse.headerState ≠ .done) (hfeed : feed parse c = some next) : Uncounted next := by
  intro hnext
  by_cases hline : parse.requestState = .done
  · rw [feed_header hline] at hfeed
    cases hstep : requestHeaderByte parse c with
    | invalid => simp [hstep, ByteStep.result] at hfeed
    | next reached =>
        obtain rfl : reached = next := by simpa [hstep, ByteStep.result] using hfeed
        exact absurd ((requestHeaderByte_next hopen hstep).1.trans hline) hnext
    | leave reached =>
        obtain rfl : reached = next := by simpa [hstep, ByteStep.result] using hfeed
        exact absurd ((requestHeaderByte_leave hstep).trans hline) hnext
  · rw [feed_line hline] at hfeed
    cases hstep : requestLineByte parse c with
    | invalid => simp [hstep, ByteStep.result] at hfeed
    | next reached =>
        obtain rfl : reached = next := by simpa [hstep, ByteStep.result] using hfeed
        exact (requestLineByte_next hstep).2.2.trans (hcount hline)
    | leave reached =>
        obtain rfl : reached = next := by simpa [hstep, ByteStep.result] using hfeed
        exact absurd (requestLineByte_leave hstep).1 hnext

theorem consume_waiting {parse next : RequestParse} {s : Bytes} (hcount : Uncounted parse)
    (hopen : parse.headerState ≠ .done)
    (hrun : consume feed isComplete parse s = .waiting next) :
    Uncounted next ∧ next.headerState ≠ .done := by
  induction s generalizing parse with
  | nil =>
      obtain rfl : parse = next := by simpa [consume] using hrun
      exact ⟨hcount, hopen⟩
  | cons c rest ih =>
      rw [consume] at hrun
      cases hfeed : feed parse c with
      | none => simp [hfeed] at hrun
      | some reached =>
          have hreached := feed_uncounted hcount hopen hfeed
          by_cases hdone : reached.headerState = .done
          · simp [hfeed, isComplete, hdone] at hrun
          · simp only [hfeed, isComplete_eq_false hdone] at hrun
            exact ih hreached hdone hrun

/-- One receive is a run over the bytes that were received. It needs the header count to be
zero within the request line, since a receive resets it there. -/
theorem requestParse_eq {parse : RequestParse} {offered : Nat} {received : Bytes}
    (hcount : Uncounted parse) (hopen : parse.headerState ≠ .done) (hreceived : received ≠ []) :
    requestParse ⟨parse, offered, []⟩ received =
      .ofOutcome received.length (consume feed isComplete parse received) := by
  have hreset : (if parse.requestState ≠ .done then { parse with headerBytesRead := 0 }
      else parse) = parse := by
    split
    next hline => rw [← hcount hline]
    next => rfl
  rw [requestParse, if_pos rfl]
  simp only [hreset, if_neg hreceived]
  exact requestParseBuffer_eq hopen

/-- `request_parse` once per receive, until it returns `-1` or the headers are
complete. -/
def runReceives : ParseBuffer → List Bytes → Outcome RequestParse Byte
  | buffer, [] => .waiting buffer.parse
  | buffer, received :: rest =>
      match requestParse buffer received with
      | .invalid unread => .rejected (unread ++ rest.flatten)
      | .parsed buffer =>
          if buffer.parse.headerState = .done then
            .complete buffer.parse (buffer.unread ++ rest.flatten)
          else runReceives buffer rest

/-- The parser before its first receive. -/
def parseBufferInit (uriSize : Nat) : ParseBuffer := ⟨requestParseInit uriSize, uriSize, []⟩

/-- Receives that are not empty and fit into what is offered to them. -/
def Deliverable : Nat → List Bytes → Prop
  | _, [] => True
  | offered, received :: rest =>
      received ≠ [] ∧ received.length ≤ offered ∧ Deliverable received.length rest

/-- All receives are one run over the chunks, by induction on the receives, so only their
concatenation matters. -/
theorem runReceives_eq_consumeChunks {parse : RequestParse} {offered : Nat}
    {receives : List Bytes} (hcount : Uncounted parse) (hopen : parse.headerState ≠ .done)
    (hdeliver : Deliverable offered receives) :
    runReceives ⟨parse, offered, []⟩ receives = consumeChunks feed isComplete parse receives := by
  induction receives generalizing parse offered with
  | nil => rfl
  | cons received rest ih =>
      obtain ⟨hreceived, -, hrest⟩ := hdeliver
      rw [runReceives, requestParse_eq hcount hopen hreceived, consumeChunks]
      cases hrun : consume feed isComplete parse received with
      | rejected unread => rfl
      | complete next unread =>
          have hfinal : next.headerState = .done := by
            have hlast := final_of_complete hrun
            simpa [isComplete] using hlast
          simp [ParseStatus.ofOutcome, hfinal, Outcome.extend]
      | waiting next =>
          obtain ⟨hcount', hopen'⟩ := consume_waiting hcount hopen hrun
          simp only [ParseStatus.ofOutcome, if_neg hopen']
          exact ih hcount' hopen' hrest

/-- Headers that are complete were read from the stream, whatever the receives were. -/
theorem consume_of_runReceives_complete {parse next : RequestParse} {offered : Nat}
    {receives : List Bytes} {unread : Bytes} (hcount : Uncounted parse)
    (hopen : parse.headerState ≠ .done)
    (hrun : runReceives ⟨parse, offered, []⟩ receives = .complete next unread) :
    consume feed isComplete parse receives.flatten = .complete next unread := by
  induction receives generalizing parse offered with
  | nil => simp [runReceives] at hrun
  | cons received rest ih =>
      by_cases hreceived : received = []
      · -- An empty receive is an error.
        subst hreceived
        simp [runReceives, requestParse] at hrun
      · rw [runReceives, requestParse_eq hcount hopen hreceived] at hrun
        rw [List.flatten_cons, consume_append]
        cases hfirst : consume feed isComplete parse received with
        | rejected unread => simp [hfirst, ParseStatus.ofOutcome] at hrun
        | complete reached unread =>
            have hfinal : reached.headerState = .done := by
              have hlast := final_of_complete hfirst
              simpa [isComplete] using hlast
            simpa [hfirst, ParseStatus.ofOutcome, hfinal, Outcome.extend] using hrun
        | waiting reached =>
            obtain ⟨hcount', hopen'⟩ := consume_waiting hcount hopen hfirst
            simp only [hfirst, ParseStatus.ofOutcome, if_neg hopen'] at hrun
            exact ih hcount' hopen' hrun

/-- Every byte is read once, in order, until the parser stops. -/
theorem runReceives_eq_consume {uriSize : Nat} {receives : List Bytes}
    (hdeliver : Deliverable uriSize receives) :
    runReceives (parseBufferInit uriSize) receives =
      consume feed isComplete (requestParseInit uriSize) receives.flatten := by
  rw [parseBufferInit, runReceives_eq_consumeChunks (fun _ => rfl) (by simp [requestParseInit])
    hdeliver, consumeChunks_eq]

/-- Two ways to deliver one stream end alike: rejected at the same byte, complete
at the same byte with the same fields, or waiting with the same fields; and each
of them reads every byte once. -/
theorem requestParse_split_independent (uriSize : Nat) (first second : List Bytes)
    (hfirst : Deliverable uriSize first) (hsecond : Deliverable uriSize second)
    (hstream : first.flatten = second.flatten) :
    runReceives (parseBufferInit uriSize) first = runReceives (parseBufferInit uriSize) second ∧
      runReceives (parseBufferInit uriSize) first =
        consume feed isComplete (requestParseInit uriSize) first.flatten := by
  refine ⟨?_, runReceives_eq_consume hfirst⟩
  rw [runReceives_eq_consume hfirst, runReceives_eq_consume hsecond, hstream]

theorem requestParse_split_independent_two :
    runReceives (parseBufferInit 1024000) [bytes "GET / HT", bytes "TP/1.0\n\n"] =
      runReceives (parseBufferInit 1024000) [bytes "GET / HTTP/1.0\n\n"] :=
  (requestParse_split_independent 1024000 [bytes "GET / HT", bytes "TP/1.0\n\n"]
    [bytes "GET / HTTP/1.0\n\n"] ⟨by decide, by decide, by decide, by decide, trivial⟩
    ⟨by decide, by decide, trivial⟩ (by decide)).1

end DbSlayer.Http
