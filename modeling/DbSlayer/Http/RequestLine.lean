import DbSlayer.Http.Delivery
import DbSlayer.Http.Grammar

/-! # The request line

What the line machine has read in each of its states, and that it reads every
request line.
-/

namespace DbSlayer.Http

open Foundation

variable {uriSize : Nat}

/-- The parser in the middle of a request line. -/
def lineParse (uriSize : Nat) (state : RequestState) (word uri : Bytes) (method : HttpMethod)
    (version : HttpVersion) : RequestParse :=
  { requestParseInit uriSize with
    requestState := state, methodString := word, uriData := uri, method, version }

theorem lineParse_start :
    lineParse uriSize .start [] [] .get .http10 = requestParseInit uriSize := rfl

/-- Everything in front of the protocol. -/
inductive Target (uriSize : Nat) (method : HttpMethod) (uri : Bytes) : Bytes → Prop
  | mk {before behind : Bytes} : Spaces before → IsUri uriSize uri → Spaces behind →
      Target uriSize method uri (methodText method ++ (before ++ (uri ++ behind)))

/-- The states that spell the protocol, with the bytes read of it. -/
inductive Spelling : RequestState → Bytes → Prop
  | none : Spelling .wsBeforeProtocol []
  | h : Spelling .protocolHt (bytes "H")
  | ht : Spelling .protocolHtt (bytes "HT")
  | htt : Spelling .protocolHttp (bytes "HTT")
  | http : Spelling .protocolHttpSlash (bytes "HTTP")
  | slash : Spelling .protocolHttpMajor (bytes "HTTP/")
  | major : Spelling .protocolHttpMajorDot (bytes "HTTP/1")
  | dot : Spelling .protocolHttpMajorDotMinor (bytes "HTTP/1.")

/-- What the line machine has read. -/
inductive LineReads (uriSize : Nat) : RequestParse → Bytes → Prop
  | start : LineReads uriSize (lineParse uriSize .start [] [] .get .http10) []
  | method {word : Bytes} : word ≠ [] →
      LineReads uriSize (lineParse uriSize .method word [] .get .http10) word
  | wsBeforeUri {method : HttpMethod} {before : Bytes} : Spaces before →
      LineReads uriSize (lineParse uriSize .wsBeforeUri (methodText method) [] method .http10)
        (methodText method ++ before)
  | uri {method : HttpMethod} {before uri : Bytes} : Spaces before → uri.head? = some (ch '/') →
      (∀ c ∈ uri, c ≠ ch ' ' ∧ c ≠ 0) →
      LineReads uriSize (lineParse uriSize .uri (methodText method) uri method .http10)
        (methodText method ++ (before ++ uri))
  | protocol {state : RequestState} {method : HttpMethod} {uri target seen : Bytes} :
      Target uriSize method uri target → Spelling state seen →
      LineReads uriSize (lineParse uriSize state (methodText method) uri method .http10)
        (target ++ seen)
  | version {method : HttpMethod} {uri target : Bytes} {version : HttpVersion} :
      Target uriSize method uri target →
      LineReads uriSize (lineParse uriSize .doneCr (methodText method) uri method version)
        (target ++ versionText version)
  | carriage {method : HttpMethod} {uri target : Bytes} {version : HttpVersion} :
      Target uriSize method uri target →
      LineReads uriSize (lineParse uriSize .doneLf (methodText method) uri method version)
        (target ++ (versionText version ++ [13]))

theorem Spaces.concat {text : Bytes} (hspaces : Spaces text) : Spaces (text ++ [ch ' ']) := by
  refine ⟨by simp, ?_⟩
  intro c hc
  rcases List.mem_append.mp hc with hold | hnew
  · exact hspaces.2 c hold
  · exact List.mem_singleton.mp hnew

theorem spaces_one : Spaces [ch ' '] := ⟨by simp, by simp⟩

/-- A request line is written with one space between its parts. -/
theorem Target.requestLine {method : HttpMethod} {uri target eol : Bytes} (version : HttpVersion)
    (htarget : Target uriSize method uri target) (heol : LineEnd eol) :
    RequestLine uriSize method uri version (target ++ (versionText version ++ eol)) := by
  cases htarget with
  | mk hbefore huri hbehind =>
      have hline : RequestLine uriSize method uri version _ := .mk hbefore huri hbehind heol
      simpa using hline

/-- The end of the request line, or one more byte of it. -/
def LineStep (uriSize : Nat) (next : RequestParse) (text : Bytes) : Prop :=
  LineReads uriSize next text ∨ ∃ method uri version, RequestLine uriSize method uri version text ∧
    next = lineParse uriSize .done (methodText method) uri method version

/-- A byte within the line goes to the switch of the request line. -/
theorem feed_lineParse {state : RequestState} {word uri : Bytes} {method : HttpMethod}
    {version : HttpVersion} (hstate : state ≠ .done) (c : Byte) :
    feed (lineParse uriSize state word uri method version) c =
      (requestLineByte (lineParse uriSize state word uri method version) c).result :=
  feed_line hstate c

/-- One more byte of the protocol, up to its last digit. -/
theorem Spelling.step {state : RequestState} {method : HttpMethod} {uri target seen : Bytes}
    {c : Byte} {next : RequestParse} (hspelling : Spelling state seen)
    (htarget : Target uriSize method uri target)
    (hfeed : feed (lineParse uriSize state (methodText method) uri method .http10) c = some next) :
    LineStep uriSize next (target ++ seen ++ [c]) := by
  have hspell : ∀ {after : RequestState} {longer : Bytes}, Spelling after longer →
      longer = seen ++ [c] → LineStep uriSize
        (lineParse uriSize after (methodText method) uri method .http10)
        (target ++ seen ++ [c]) := by
    intro after longer hlonger heq
    rw [List.append_assoc, ← heq]
    exact .inl (.protocol htarget hlonger)
  rw [feed_lineParse (by cases hspelling <;> simp)] at hfeed
  have hexpect : ∀ {expected : Byte} {after : RequestState} {longer : Bytes},
      requestLineByte (lineParse uriSize state (methodText method) uri method .http10) c =
        expectByte (lineParse uriSize state (methodText method) uri method .http10) c expected
          after →
      Spelling after longer → longer = seen ++ [expected] →
      LineStep uriSize next (target ++ seen ++ [c]) := by
    intro expected after longer hbyte hlonger heq
    rw [hbyte, expectByte] at hfeed
    by_cases hc : c = expected
    · obtain rfl := hc
      obtain rfl : lineParse uriSize after (methodText method) uri method .http10 = next := by
        simpa [ByteStep.result, lineParse] using hfeed
      exact hspell hlonger heq
    · simp [ByteStep.result, hc] at hfeed
  cases hspelling with
  | none =>
      -- a further space still belongs to the target
      by_cases hspace : c = ch ' '
      · obtain rfl := hspace
        obtain rfl : lineParse uriSize .wsBeforeProtocol (methodText method) uri method .http10 =
            next := by simpa [ByteStep.result, requestLineByte, lineParse] using hfeed
        cases htarget with
        | mk hbefore huri hbehind =>
            have hlonger : Target uriSize method uri _ := .mk hbefore huri hbehind.concat
            have hreads := LineReads.protocol hlonger .none
            left
            simpa using hreads
      · by_cases hletter : c = ch 'H'
        · obtain rfl := hletter
          obtain rfl : lineParse uriSize .protocolHt (methodText method) uri method .http10 =
              next := by simpa [ByteStep.result, requestLineByte, lineParse, hspace] using hfeed
          exact hspell .h rfl
        · simp [ByteStep.result, requestLineByte, lineParse, hspace, hletter] at hfeed
  | h => exact hexpect rfl .ht rfl
  | ht => exact hexpect rfl .htt rfl
  | htt => exact hexpect rfl .http rfl
  | http => exact hexpect rfl .slash rfl
  | slash => exact hexpect rfl .major rfl
  | major => exact hexpect rfl .dot rfl
  | dot =>
      rw [List.append_assoc]
      by_cases hzero : c = ch '0'
      · obtain rfl := hzero
        obtain rfl : lineParse uriSize .doneCr (methodText method) uri method .http10 = next := by
          simpa [ByteStep.result, requestLineByte, lineParse] using hfeed
        exact .inl (.version htarget)
      · by_cases hone : c = ch '1'
        · obtain rfl := hone
          obtain rfl : lineParse uriSize .doneCr (methodText method) uri method .http11 = next := by
            simpa [ByteStep.result, requestLineByte, lineParse, hzero] using hfeed
          exact .inl (.version htarget)
        · simp [ByteStep.result, requestLineByte, lineParse, hzero, hone] at hfeed

/-- The byte behind the version ends the line or announces its end. -/
theorem LineReads.step_end {method : HttpMethod} {uri target : Bytes} {version : HttpVersion}
    {c : Byte} {next : RequestParse} (htarget : Target uriSize method uri target)
    (hfeed : feed (lineParse uriSize .doneCr (methodText method) uri method version) c =
      some next) :
    LineStep uriSize next (target ++ versionText version ++ [c]) := by
  rw [feed_lineParse (by simp)] at hfeed
  rw [List.append_assoc]
  by_cases hnewline : c = 10
  · obtain rfl := hnewline
    obtain rfl : lineParse uriSize .done (methodText method) uri method version = next := by
      simpa [ByteStep.result, requestLineByte, lineParse] using hfeed
    exact .inr ⟨method, uri, version, htarget.requestLine version (.inr rfl), rfl⟩
  · by_cases hreturn : c = 13
    · obtain rfl := hreturn
      obtain rfl : lineParse uriSize .doneLf (methodText method) uri method version = next := by
        simpa [ByteStep.result, requestLineByte, lineParse] using hfeed
      exact .inl (.carriage htarget)
    · simp [ByteStep.result, requestLineByte, lineParse, hnewline, hreturn] at hfeed

/-- One byte keeps the account of what was read, or ends the request line. -/
theorem LineReads.step {parse next : RequestParse} {text : Bytes} {c : Byte}
    (hreads : LineReads uriSize parse text) (hfeed : feed parse c = some next) :
    LineStep uriSize next (text ++ [c]) := by
  cases hreads with
  | start =>
      rw [feed_lineParse (by simp)] at hfeed
      by_cases hc : c ≠ ch 'G' ∧ c ≠ ch 'P'
      · simp [ByteStep.result, requestLineByte, lineParse, hc] at hfeed
      · obtain rfl : lineParse uriSize .method [c] [] .get .http10 = next := by
          simpa [ByteStep.result, requestLineByte, lineParse, hc] using hfeed
        exact .inl (.method (by simp))
  | method hword =>
      rw [feed_lineParse (by simp)] at hfeed
      -- the word is compared with the methods only when a space ends it
      by_cases hlong : text.length > 5
      · simp [ByteStep.result, requestLineByte, lineParse, hlong] at hfeed
      · by_cases hspace : c = ch ' '
        · obtain rfl := hspace
          by_cases hget : text = bytes "GET"
          · obtain rfl := hget
            obtain rfl : lineParse uriSize .wsBeforeUri (methodText .get) [] .get .http10 =
                next := by
              simpa [ByteStep.result, requestLineByte, lineParse, methodText, bytes] using hfeed
            exact .inl (.wsBeforeUri spaces_one)
          · by_cases hpost : text = bytes "POST"
            · obtain rfl := hpost
              obtain rfl : lineParse uriSize .wsBeforeUri (methodText .post) [] .post .http10 =
                  next := by
                simpa [ByteStep.result, requestLineByte, lineParse, methodText, bytes] using hfeed
              exact .inl (.wsBeforeUri spaces_one)
            · simp [ByteStep.result, requestLineByte, lineParse, hlong, hget, hpost] at hfeed
        · obtain rfl : lineParse uriSize .method (text ++ [c]) [] .get .http10 = next := by
            simpa [ByteStep.result, requestLineByte, lineParse, hlong, hspace] using hfeed
          exact .inl (.method (by simp))
  | @wsBeforeUri method before hbefore =>
      rw [feed_lineParse (by simp)] at hfeed
      rw [List.append_assoc]
      by_cases hspace : c = ch ' '
      · obtain rfl := hspace
        obtain rfl : lineParse uriSize .wsBeforeUri (methodText method) [] method .http10 =
            next := by simpa [ByteStep.result, requestLineByte, lineParse] using hfeed
        exact .inl (.wsBeforeUri hbefore.concat)
      · by_cases hslash : c = ch '/'
        · obtain rfl := hslash
          obtain rfl : lineParse uriSize .uri (methodText method) [ch '/'] method .http10 =
              next := by simpa [ByteStep.result, requestLineByte, lineParse, hspace] using hfeed
          refine .inl (.uri hbefore rfl ?_)
          intro d hd
          obtain rfl := List.mem_singleton.mp hd
          decide
        · simp [ByteStep.result, requestLineByte, lineParse, hspace, hslash] at hfeed
  | @uri method before uri hbefore hhead hbytes =>
      rw [feed_lineParse (by simp)] at hfeed
      -- the bound is checked before the byte, also when that byte ends the URI
      by_cases hlong : uri.length ≥ uriSize
      · simp [ByteStep.result, requestLineByte, lineParse, requestParseInit, hlong] at hfeed
      · have hshort : uri.length < uriSize := Nat.lt_of_not_le hlong
        by_cases hspace : c = ch ' '
        · obtain rfl := hspace
          obtain rfl : lineParse uriSize .wsBeforeProtocol (methodText method) uri method
              .http10 = next := by
            simpa [ByteStep.result, requestLineByte, lineParse, requestParseInit, hlong] using hfeed
          have htarget : Target uriSize method uri _ :=
            .mk hbefore ⟨hhead, hbytes, hshort⟩ spaces_one
          have hnext := LineReads.protocol htarget .none
          left
          simpa using hnext
        · by_cases hzero : c = 0
          · obtain rfl := hzero
            simp [ByteStep.result, requestLineByte, lineParse, requestParseInit, hlong, hspace]
              at hfeed
          · obtain rfl : lineParse uriSize .uri (methodText method) (uri ++ [c]) method .http10 =
                next := by
              simpa [ByteStep.result, requestLineByte, lineParse, requestParseInit, hlong, hspace,
                hzero] using hfeed
            rw [List.append_assoc, List.append_assoc]
            refine .inl (.uri hbefore ?_ ?_)
            · rw [List.head?_append, hhead]
              rfl
            · intro d hd
              rcases List.mem_append.mp hd with hold | hnew
              · exact hbytes d hold
              · obtain rfl := List.mem_singleton.mp hnew
                exact ⟨hspace, hzero⟩
  | protocol htarget hspelling => exact hspelling.step htarget hfeed
  | version htarget => exact LineReads.step_end htarget hfeed
  | @carriage method uri target version htarget =>
      rw [feed_lineParse (by simp)] at hfeed
      by_cases hnewline : c = 10
      · obtain rfl := hnewline
        obtain rfl : lineParse uriSize .done (methodText method) uri method version = next := by
          simpa [ByteStep.result, requestLineByte, lineParse] using hfeed
        have hcrlf : LineEnd [13, 10] := .inl rfl
        refine .inr ⟨method, uri, version, ?_, rfl⟩
        simpa using htarget.requestLine version hcrlf
      · simp [ByteStep.result, requestLineByte, lineParse, hnewline] at hfeed

/-! ## Every request line is read -/

theorem runs_method (method : HttpMethod) :
    Runs feed isComplete (lineParse uriSize .start [] [] .get .http10)
      (methodText method ++ [ch ' '])
      (lineParse uriSize .wsBeforeUri (methodText method) [] method .http10) := by
  cases method with
  | get => exact .cons rfl rfl (.cons rfl rfl (.cons rfl rfl (.single rfl rfl)))
  | post => exact .cons rfl rfl (.cons rfl rfl (.cons rfl rfl (.cons rfl rfl (.single rfl rfl))))

/-- Spaces keep a state that skips them. -/
theorem runs_spaces {parse : RequestParse} (hstay : feed parse (ch ' ') = some parse)
    (hopen : isComplete parse = false) {spaces : Bytes} (hspaces : ∀ c ∈ spaces, c = ch ' ') :
    Runs feed isComplete parse spaces parse := by
  induction spaces with
  | nil => exact .refl parse
  | cons c rest ih =>
      obtain rfl := hspaces c List.mem_cons_self
      exact .cons hstay hopen (ih fun d hd => hspaces d (List.mem_cons_of_mem _ hd))

theorem runs_uri (method : HttpMethod) {uri rest : Bytes}
    (hbytes : ∀ c ∈ rest, c ≠ ch ' ' ∧ c ≠ 0) (hlength : (uri ++ rest).length < uriSize) :
    Runs feed isComplete (lineParse uriSize .uri (methodText method) uri method .http10) rest
      (lineParse uriSize .uri (methodText method) (uri ++ rest) method .http10) := by
  induction rest generalizing uri with
  | nil =>
      rw [List.append_nil]
      exact .refl _
  | cons c rest ih =>
      obtain ⟨hspace, hzero⟩ := hbytes c List.mem_cons_self
      have hshort : ¬ uri.length ≥ uriSize := by
        simp only [List.length_append] at hlength
        omega
      have hstep : feed (lineParse uriSize .uri (methodText method) uri method .http10) c =
          some (lineParse uriSize .uri (methodText method) (uri ++ [c]) method .http10) := by
        rw [feed_lineParse (by simp)]
        simp [ByteStep.result, requestLineByte, lineParse, requestParseInit, hshort, hspace, hzero]
      have hlength' : (uri ++ [c] ++ rest).length < uriSize := by simpa using hlength
      have hrest := ih (fun d hd => hbytes d (List.mem_cons_of_mem c hd)) hlength'
      rw [List.append_assoc, List.singleton_append] at hrest
      exact .cons hstep rfl hrest

theorem runs_version {method : HttpMethod} {uri : Bytes} (version : HttpVersion) :
    Runs feed isComplete (lineParse uriSize .wsBeforeProtocol (methodText method) uri method
        .http10) (versionText version)
      (lineParse uriSize .doneCr (methodText method) uri method version) := by
  cases version with
  | http10 =>
      exact .cons rfl rfl (.cons rfl rfl (.cons rfl rfl (.cons rfl rfl (.cons rfl rfl
        (.cons rfl rfl (.cons rfl rfl (.single rfl rfl)))))))
  | http11 =>
      exact .cons rfl rfl (.cons rfl rfl (.cons rfl rfl (.cons rfl rfl (.cons rfl rfl
        (.cons rfl rfl (.cons rfl rfl (.single rfl rfl)))))))

theorem runs_lineEnd {method : HttpMethod} {uri eol : Bytes} {version : HttpVersion}
    (heol : LineEnd eol) :
    Runs feed isComplete (lineParse uriSize .doneCr (methodText method) uri method version) eol
      (lineParse uriSize .done (methodText method) uri method version) := by
  rcases heol with rfl | rfl
  · exact .cons rfl rfl (.single rfl rfl)
  · exact .single rfl rfl

theorem Spaces.exists_cons {text : Bytes} (hspaces : Spaces text) :
    ∃ rest, text = ch ' ' :: rest ∧ ∀ c ∈ rest, c = ch ' ' := by
  obtain ⟨hne, hall⟩ := hspaces
  cases text with
  | nil => exact absurd rfl hne
  | cons c rest =>
      obtain rfl := hall c List.mem_cons_self
      exact ⟨rest, rfl, fun d hd => hall d (List.mem_cons_of_mem _ hd)⟩

/-- Put together, the machine reads every request line of the grammar. -/
theorem runs_requestLine {method : HttpMethod} {uri line : Bytes} {version : HttpVersion}
    (hline : RequestLine uriSize method uri version line) :
    Runs feed isComplete (requestParseInit uriSize) line
      (lineParse uriSize .done (methodText method) uri method version) := by
  cases hline with
  | @mk before behind eol hbefore huri hbehind heol =>
      obtain ⟨before, rfl, hbefore'⟩ := hbefore.exists_cons
      obtain ⟨behind, rfl, hbehind'⟩ := hbehind.exists_cons
      obtain ⟨hhead, hbytes, hlength⟩ := huri
      cases uri with
      | nil => simp at hhead
      | cons slash path =>
          obtain rfl : slash = ch '/' := by simpa using hhead
          have hslash : feed (lineParse uriSize .wsBeforeUri (methodText method) [] method .http10)
              (ch '/') =
                some (lineParse uriSize .uri (methodText method) [ch '/'] method .http10) := rfl
          have hspace : feed (lineParse uriSize .uri (methodText method) (ch '/' :: path) method
              .http10) (ch ' ') = some (lineParse uriSize .wsBeforeProtocol (methodText method)
                (ch '/' :: path) method .http10) := by
            have hshort : ¬ (ch '/' :: path).length ≥ uriSize := by omega
            rw [feed_lineParse (by simp)]
            simp only [List.length_cons] at hshort
            simp [ByteStep.result, requestLineByte, lineParse, requestParseInit, hshort]
          have hshort : ([ch '/'] ++ path).length < uriSize := hlength
          have hpath := runs_uri method (fun c hc => hbytes c (List.mem_cons_of_mem _ hc)) hshort
          have hruns := (runs_method method).append ((runs_spaces rfl rfl hbefore').append
            (Runs.cons hslash rfl (hpath.append (Runs.cons hspace rfl
              ((runs_spaces rfl rfl hbehind').append
                ((runs_version version).append (runs_lineEnd heol)))))))
          rw [lineParse_start] at hruns
          simpa using hruns

end DbSlayer.Http
