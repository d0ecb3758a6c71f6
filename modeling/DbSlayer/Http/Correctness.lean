import DbSlayer.Http.HeaderSection

/-! # The HTTP parser accepts its grammar

A run of receives completes exactly when a prefix of the stream is a request
head, and the fields then are those of the head.
-/

namespace DbSlayer.Http

open Foundation

variable {uriSize : Nat} {request : Request}

/-- What was read at any time before the end of the head, or the whole head. -/
def StreamReads (uriSize : Nat) (parse : RequestParse) (text : Bytes) : Prop :=
  LineReads uriSize parse text ∨ SectionStep uriSize parse text

/-- Within the request line the parse is not complete. -/
theorem LineReads.not_complete {parse : RequestParse} {text : Bytes}
    (hreads : LineReads uriSize parse text) : isComplete parse = false := by
  cases hreads <;> rfl

theorem HeadReads.not_complete {parse : RequestParse} {text : Bytes}
    (hreads : HeadReads uriSize parse text) : isComplete parse = false := by
  cases hreads with
  | closing => rfl
  | reading _ _ hpart _ =>
      cases hpart with
      | value _ _ _ _ _ _ hstate => rcases hstate with rfl | rfl <;> rfl
      | _ => rfl

/-- Behind the request line the header machine starts with nothing read. -/
theorem RequestLine.headReads {method : HttpMethod} {uri line : Bytes} {version : HttpVersion}
    (hline : RequestLine uriSize method uri version line) :
    HeadReads uriSize (lineParse uriSize .done (methodText method) uri method version) line := by
  have hstart : HeadReads uriSize
      (headParse uriSize ⟨method, uri, version, []⟩ .start [] [] ([] ++ [] : Bytes).length)
      (line ++ ([] ++ [])) := .reading hline .nil .start (Nat.zero_le _)
  rw [List.append_nil, List.append_nil] at hstart
  exact hstart

/-- One byte takes a reading of the stream to a reading of the stream, so the parse has always
read what the grammar says of the bytes so far. -/
theorem StreamReads.step (parse : RequestParse) (text : Bytes) (c : Byte) (next : RequestParse)
    (hreads : StreamReads uriSize parse text) (hopen : isComplete parse = false)
    (hfeed : feed parse c = some next) : StreamReads uriSize next (text ++ [c]) := by
  rcases hreads with hline | hhead | ⟨request, count, -, rfl⟩
  · rcases hline.step hfeed with hline' | ⟨method, uri, version, hdone, rfl⟩
    · exact .inl hline'
    · exact .inr (.inl hdone.headReads)
  · exact .inr (hhead.step hfeed)
  · simp [isComplete, headParse] at hopen

/-- A stream that completes the parser starts with a request head. -/
theorem requestHead_of_complete {stream unread : Bytes} {next : RequestParse}
    (hrun : consume feed isComplete (requestParseInit uriSize) stream = .complete next unread) :
    ∃ request text count, stream = text ++ unread ∧ RequestHead uriSize request text ∧
      next = headParse uriSize request .done [] [] count := by
  have hstart : StreamReads uriSize (requestParseInit uriSize) [] := .inl .start
  obtain ⟨text, hstream, hreads⟩ := reads_of_consume StreamReads.step hstart rfl hrun
  have hfinal : isComplete next = true := final_of_complete hrun
  rcases hreads with hline | hhead | ⟨request, count, hhead, hnext⟩
  · simp [hline.not_complete] at hfinal
  · simp [hhead.not_complete] at hfinal
  · exact ⟨request, text, count, hstream, hhead, hnext⟩

/-- A request head completes the parser at its last byte. -/
theorem RequestHead.consume_eq (hsize : maxHeaderBytes < uriSize) {text : Bytes}
    (hhead : RequestHead uriSize request text) (rest : Bytes) :
    ∃ count, consume feed isComplete (requestParseInit uriSize) (text ++ rest) =
      .complete (headParse uriSize request .done [] [] count) rest := by
  cases hhead with
  | @mk line headers eol hline hheaders heol hlimit =>
      have hlimit' : headers.length + eol.length ≤ maxHeaderBytes := by
        rwa [List.length_append] at hlimit
      have hruns := (runs_requestLine hline).append
        (runs_headerLines hsize hheaders (Nat.le_of_add_right_le hlimit'))
      rcases heol with rfl | rfl
      · have hreturn : HeadStep uriSize request [] [] (headers.length + 1) .start 13 _ :=
          .blankReturn
        have hfeed := hreturn.feed_of_limit hsize (Nat.le_of_succ_le hlimit') (Nat.zero_le _)
          (Nat.zero_le _)
        have hnewline : HeadStep uriSize request [] [] (headers.length + 1 + 1) .startLf 10 _ :=
          .blankNewline (.inr rfl)
        have hfeed' := hnewline.feed_of_limit hsize hlimit' (Nat.zero_le _) (Nat.zero_le _)
        have hdone := (hruns.append (.single hfeed rfl)).complete hfeed' rfl rest
        exact ⟨_, by simpa using hdone⟩
      · have hnewline : HeadStep uriSize request [] [] (headers.length + 1) .start 10 _ :=
          .blankNewline (.inl rfl)
        have hfeed := hnewline.feed_of_limit hsize hlimit' (Nat.zero_le _) (Nat.zero_le _)
        have hdone := hruns.complete hfeed rfl rest
        exact ⟨_, by simpa using hdone⟩

/-! ## The fields -/

theorem NulFree.trimmed {line : HeaderLine} (hfree : NulFree (line.text.getD [])) :
    NulFree line.trimmed := fun hzero =>
  hfree (List.dropWhile_subset _ ((List.rdropWhile_prefix _ _).subset hzero))

/-- What has been read of the head is extracted as the request says. -/
theorem extracted_headParse (count : Nat) :
    Extracted request (headParse uriSize request .done [] [] count) where
  method := rfl
  uri := rfl
  version := rfl
  headers := rfl
  values := by
    intro line _ hfree
    rw [HeaderLine.stored, cstr_of_nulFree (NulFree.trimmed hfree)]
  lookup := by
    intro name
    simp only [headerGet, headParse, List.find?_map, Option.map_map]
    rfl

/-- For the size that `main` configures: the receives complete the parser exactly
when a prefix of what they deliver is a request head, and then the parser stops
behind that head with its fields. -/
theorem requestParse_accepts_grammar (receives : List Bytes)
    (hdeliver : Deliverable (1024 * 1000) receives) :
    ((∃ parse unread, runReceives (parseBufferInit (1024 * 1000)) receives =
        .complete parse unread) ↔
      ∃ request text rest, receives.flatten = text ++ rest ∧
        RequestHead (1024 * 1000) request text) ∧
    ∀ request text rest, receives.flatten = text ++ rest →
      RequestHead (1024 * 1000) request text →
      ∃ parse, runReceives (parseBufferInit (1024 * 1000)) receives = .complete parse rest ∧
        Extracted request parse := by
  have haccept : ∀ request text rest, receives.flatten = text ++ rest →
      RequestHead (1024 * 1000) request text →
      ∃ parse, runReceives (parseBufferInit (1024 * 1000)) receives = .complete parse rest ∧
        Extracted request parse := by
    intro request text rest hstream hhead
    obtain ⟨count, hrun⟩ := hhead.consume_eq (by simp [maxHeaderBytes]) rest
    rw [← hstream, ← runReceives_eq_consume hdeliver] at hrun
    exact ⟨_, hrun, extracted_headParse count⟩
  refine ⟨⟨?_, ?_⟩, haccept⟩
  · rintro ⟨parse, unread, hrun⟩
    rw [runReceives_eq_consume hdeliver] at hrun
    obtain ⟨request, text, -, hstream, hhead, -⟩ := requestHead_of_complete hrun
    exact ⟨request, text, unread, hstream, hhead⟩
  · rintro ⟨request, text, rest, hstream, hhead⟩
    obtain ⟨parse, hrun, -⟩ := haccept request text rest hstream hhead
    exact ⟨parse, rest, hrun⟩

theorem requestParse_accepts_one_header :
    ∃ parse, runReceives (parseBufferInit (1024 * 1000))
        [bytes "GET /db HTTP/1.1\r\n", bytes "Host: a\n\n"] = .complete parse [] ∧
      Extracted ⟨.get, bytes "/db", .http11, [⟨bytes "Host", some (bytes " a")⟩]⟩ parse := by
  have hline : RequestLine (1024 * 1000) .get (bytes "/db") .http11
      (bytes "GET /db HTTP/1.1\r\n") :=
    .mk spaces_one ⟨rfl, by decide +kernel, by decide⟩ spaces_one (.inl rfl)
  have hheader : HeaderLines [⟨bytes "Host", some (bytes " a")⟩] (bytes "Host: a\n") :=
    .append .nil ⟨by decide, by decide +kernel, by decide +kernel⟩ (.inr rfl)
  exact (requestParse_accepts_grammar [bytes "GET /db HTTP/1.1\r\n", bytes "Host: a\n\n"]
    ⟨by decide, by decide, by decide, by decide, trivial⟩).2 _ _ [] rfl
      (.mk hline hheader (.inr rfl) (by decide))

end DbSlayer.Http
