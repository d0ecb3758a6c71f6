import DbSlayer.Http.Correctness
import DbSlayer.Server.Access

/-! # The token from a file

A token reaches the comparison on two ways. From the file it comes through a buffer
of 256 bytes, cut at the end of the line; from a request it comes through the header
parser, which drops the blanks behind a value.
-/

namespace DbSlayer.Server

open DbSlayer.Http Foundation

/-! ## The file -/

/-- The bytes that `fgets` reads: up to a newline, which it keeps, and at most `count`. -/
def readLine : (count : Nat) → Bytes → Bytes
  | 0, _ => []
  | _, [] => []
  | count + 1, c :: rest => if c = 10 then [c] else c :: readLine count rest

/-- `fgets` with a buffer of `size` bytes on what is left of a file; a null pointer when
nothing was read. -/
def fgets (size : Nat) (file : Bytes) : Option Bytes :=
  if readLine (size - 1) file = [] then none else some (readLine (size - 1) file)

/-- `slayer_server_read_auth_token_file`: the token, or the message that the program ends
with. A file that cannot be opened is `none`. -/
def slayerServerReadAuthTokenFile (path : Bytes) (file : Option Bytes) : Except Bytes Bytes :=
  match file.bind (fgets 256) with
  | none => .error (bytes "dbslayer: unable to read auth token file " ++ path ++ bytes "\n")
  | some buffer =>
      let token := (cstr buffer).takeWhile (· ∉ bytes "\r\n")
      if token = [] then .error (bytes "dbslayer: auth token file " ++ path ++ bytes " is empty\n")
      else .ok token

/-- A token that can be a line of a file and a part of a header. -/
structure IsToken (token : Bytes) : Prop where
  ne_nil : token ≠ []
  bytes : ∀ c ∈ token, c ≠ 13 ∧ c ≠ 10 ∧ c ≠ 0

/-- What is behind the first line of a file: nothing, or the end of the line. -/
def BehindLine (behind : Bytes) : Prop :=
  behind = [] ∨ ∃ eol more, LineEnd eol ∧ behind = eol ++ more

/-- A line that has no end is cut at the size of the buffer. -/
theorem readLine_of_no_newline {line : Bytes} (hline : ∀ c ∈ line, c ≠ 10) (count : Nat)
    (behind : Bytes) :
    readLine count (line ++ behind) =
      line.take count ++ readLine (count - line.length) behind := by
  induction line generalizing count with
  | nil => simp
  | cons c line ih =>
      obtain ⟨hc, hline⟩ := List.forall_mem_cons.mp hline
      cases count with
      | zero => simp [readLine]
      | succ count => simp [readLine, hc, ih hline]

/-- Nothing of what `fgets` reads behind the line gets into the token. -/
theorem takeWhile_readLine_behind {behind : Bytes} (hbehind : BehindLine behind) (count : Nat) :
    (cstr (readLine count behind)).takeWhile (· ∉ bytes "\r\n") = [] := by
  rcases hbehind with rfl | ⟨eol, more, rfl | rfl, rfl⟩
  · cases count <;> rfl
  · cases count <;> rfl
  · cases count <;> rfl

/-- The token that is stored is the first 255 bytes of the line. -/
theorem slayerServerReadAuthTokenFile_line {token behind : Bytes} (htoken : IsToken token)
    (hbehind : BehindLine behind) (path : Bytes) :
    slayerServerReadAuthTokenFile path (some (token ++ behind)) = .ok (token.take 255) := by
  have hread : readLine 255 (token ++ behind) =
      token.take 255 ++ readLine (255 - token.length) behind :=
    readLine_of_no_newline (fun c hc => (htoken.bytes c hc).2.1) 255 behind
  have htake : ∀ c ∈ token.take 255, c ≠ 13 ∧ c ≠ 10 ∧ c ≠ 0 :=
    fun c hc => htoken.bytes c (List.mem_of_mem_take hc)
  have hne : token.take 255 ≠ [] := by simpa using htoken.ne_nil
  have hfree : NulFree (token.take 255) := fun hzero => (htake 0 hzero).2.2 rfl
  have hfgets : fgets 256 (token ++ behind) =
      some (token.take 255 ++ readLine (255 - token.length) behind) := by
    rw [fgets, hread, if_neg (by simp [hne])]
  have hcut : (cstr (token.take 255 ++ readLine (255 - token.length) behind)).takeWhile
      (· ∉ bytes "\r\n") = token.take 255 := by
    rw [cstr_append hfree, List.takeWhile_append_of_pos, takeWhile_readLine_behind hbehind,
      List.append_nil]
    intro c hc
    obtain ⟨hreturn, hnewline, -⟩ := htake c hc
    rw [decide_eq_true_iff, show bytes "\r\n" = [13, 10] from rfl]
    simp [hreturn, hnewline]
  simp only [slayerServerReadAuthTokenFile, Option.bind_some, hfgets, hcut, if_neg hne]

/-! ## The header -/

/-- What remains of a text when the blanks behind it are dropped is a given part of it. -/
theorem rdropWhile_append_eq_left_iff {α : Type} {p : α → Bool} (front back : List α) :
    (front ++ back).rdropWhile p = front ↔
      (∀ x ∈ back, p x = true) ∧ ∀ x ∈ front.getLast?, p x = false := by
  have hlast : front.rdropWhile p = front ↔ ∀ x ∈ front.getLast?, p x = false := by
    rw [List.rdropWhile_eq_self_iff]
    cases front using List.reverseRec <;> simp
  constructor
  · intro hfront
    have hsplit := @List.rdropWhile_append_rtakeWhile _ p (front ++ back)
    rw [hfront] at hsplit
    have hback := List.append_cancel_left hsplit
    refine ⟨fun x hx => ?_, hlast.mp ?_⟩
    · rw [← hback] at hx
      exact List.mem_rtakeWhile_imp hx
    · rw [← hfront]
      exact List.rdropWhile_idempotent p _
  · rintro ⟨hback, hfront⟩
    have hdrop : (front ++ back).rdropWhile p = front.rdropWhile p := by
      rw [List.rdropWhile, List.reverse_append, List.dropWhile_append_of_pos (by simpa using hback)]
      rfl
    rw [hdrop, hlast.mpr hfront]

/-- The bytes of the token that the file gives are what is left of it in a header. -/
def Presentable (token : Bytes) : Prop :=
  (∀ c ∈ token.drop 255, isBlank c = true) ∧ ∀ c ∈ (token.take 255).getLast?, isBlank c = false

/-- One line presents the token, and no other line has its name. -/
def PresentsToken (token : Bytes) (lines : List HeaderLine) : Prop :=
  ∃ front back,
    lines = front ++ ⟨bytes "Authorization", some (bytes " Bearer " ++ token)⟩ :: back ∧
    ∀ line ∈ front ++ back, line.name.map tolower ≠ bytes "authorization"

theorem trimmed_bearer (token : Bytes) (name : Bytes) :
    (HeaderLine.mk name (some (bytes " Bearer " ++ token))).trimmed =
      (bytes "Bearer " ++ token).rdropWhile isBlank := rfl

/-- The stored header is the one the token asks for exactly when no byte of the token is lost. -/
theorem stored_bearer_iff {token : Bytes} (htoken : IsToken token) (name : Bytes) :
    (HeaderLine.mk name (some (bytes " Bearer " ++ token))).stored.value =
        bytes "Bearer " ++ token.take 255 ↔ Presentable token := by
  have hfree : NulFree token := fun hzero => (htoken.bytes 0 hzero).2.2 rfl
  have hstored : (HeaderLine.mk name (some (bytes " Bearer " ++ token))).stored.value =
      (bytes "Bearer " ++ token).rdropWhile isBlank := by
    rw [HeaderLine.stored, cstr_of_nulFree (NulFree.trimmed (by simpa using ⟨by decide, hfree⟩)),
      trimmed_bearer]
  have hsplit : bytes "Bearer " ++ token = bytes "Bearer " ++ token.take 255 ++ token.drop 255 := by
    rw [List.append_assoc, List.take_append_drop]
  have hlast : (bytes "Bearer " ++ token.take 255).getLast? = (token.take 255).getLast? := by
    rw [List.getLast?_append_of_ne_nil]
    simpa using htoken.ne_nil
  rw [hstored, hsplit, rdropWhile_append_eq_left_iff, hlast, Presentable]

/-- The first line of the name is the one that presents the token, so the bearer test reduces
to whether that line survives storing. -/
theorem PresentsToken.bearerHeader_iff {token : Bytes} {lines : List HeaderLine}
    (hpresents : PresentsToken token lines) (htoken : IsToken token) :
    BearerHeader (token.take 255) (lines.map HeaderLine.stored) ↔ Presentable token := by
  obtain ⟨front, back, rfl, hothers⟩ := hpresents
  rw [← stored_bearer_iff htoken (bytes "Authorization")]
  constructor
  · rintro ⟨front', header, back', hsplit, -, hname, hvalue⟩
    have hmem : header ∈ (front ++ ⟨bytes "Authorization", some (bytes " Bearer " ++ token)⟩ ::
        back).map HeaderLine.stored := by simp [hsplit]
    obtain ⟨line, hline, rfl⟩ := List.mem_map.mp hmem
    rcases List.mem_append.mp hline with hfront | hrest
    · exact absurd hname (hothers line (List.mem_append_left _ hfront))
    · rcases List.mem_cons.mp hrest with rfl | hback
      · exact hvalue
      · exact absurd hname (hothers line (List.mem_append_right _ hback))
  · intro hvalue
    have hname : (bytes "Authorization").map tolower = bytes "authorization" := by decide
    refine ⟨front.map HeaderLine.stored, _, back.map HeaderLine.stored, by simp, ?_, hname,
      hvalue⟩
    intro earlier hearlier
    obtain ⟨line, hline, rfl⟩ := List.mem_map.mp hearlier
    exact hothers line (List.mem_append_left _ hline)

/-! ## The answer -/

section Answer

variable {World : Type}

/-- The pages themselves answer with other codes than 401. -/
structure Pages.Open (pages : Pages World) : Prop where
  service : ∀ i request world response,
    .queued response ∈ (pages.service i request world).1 → response.code ≠ 401
  fileserver : ∀ request world response,
    .queued response ∈ (pages.fileserver request world).1 → response.code ≠ 401

def AnsweredUnauthorized (dispatched : Dispatched World) : Prop :=
  ∃ response, .queued response ∈ dispatched.effects ∧ response.code = 401

/-- Only the dispatch itself answers 401, as the pages do not. -/
theorem answeredUnauthorized_iff {pages : Pages World} (hopen : pages.Open) (config : Config)
    (request : Request) (world : World) :
    AnsweredUnauthorized (slayerHttpRequestDispatch pages config request world) ↔
      route config request = .unauthorized := by
  have hservice := fun i response => hopen.service i request world response
  have hfile := fun response => hopen.fileserver request world response
  unfold AnsweredUnauthorized slayerHttpRequestDispatch
  cases hroute : route config request with
  | service i =>
      simp only [reduceCtorEq, iff_false, not_exists, not_and]
      exact hservice i
  | file =>
      simp only [reduceCtorEq, iff_false, not_exists, not_and]
      exact hfile
  | unauthorized => simp [unauthorizedResponse]
  | _ => simp [healthResponse, metricsResponse, forbiddenResponse, textResponse]

/-- The dispatch answers 401 for every path but `/health`, exactly when the first Authorization
header is not the right one. -/
theorem route_unauthorized_iff (config : Config) (request : Request) :
    route config request = .unauthorized ↔
      (∃ path, request.path = some path ∧ strcmp path (bytes "/health") ≠ 0) ∧
        authorized config request = false := by
  cases hpath : request.path with
  | none => simp [route, hpath]
  | some path =>
      by_cases hhealth : strcmp path (bytes "/health") = 0
      · simp [route, hpath, hhealth]
      · rcases @route_of_path config request path hpath hhealth with
          ⟨hauth, hguarded⟩ | ⟨hauth, hroute⟩
        · have hother : route config request ≠ .unauthorized := by
            intro hroute
            simp [hroute, Reply.guarded] at hguarded
          simp [hauth, hother]
        · simp [hauth, hroute, hhealth]

/-- The request with the token of the file is answered 401 exactly when its path is one that
the token guards and the token does not survive the two readers. -/
theorem right_token_refused_iff (token behind : Bytes) (htoken : IsToken token)
    (hbehind : BehindLine behind) (path : Bytes) (head : Http.Request) (text rest : Bytes)
    (hhead : RequestHead (1024 * 1000) head text) (hpresents : PresentsToken token head.lines)
    (receives : List Bytes) (hdeliver : Deliverable (1024 * 1000) receives)
    (hstream : receives.flatten = text ++ rest) (pages : Pages World) (hopen : pages.Open)
    (world : World) (services : List (List Bytes)) :
    ∃ stored parse,
      slayerServerReadAuthTokenFile path (some (token ++ behind)) = .ok stored ∧
      runReceives (parseBufferInit (1024 * 1000)) receives = .complete parse rest ∧
      ∀ request : Request, request.parse = parse →
        (¬ AnsweredUnauthorized
            (slayerHttpRequestDispatch pages ⟨some stored, services⟩ request world) ↔
          request.path = none ∨ (∃ p, request.path = some p ∧ strcmp p (bytes "/health") = 0) ∨
            Presentable token) := by
  obtain ⟨parse, hrun, hextracted⟩ :=
    (requestParse_accepts_grammar receives hdeliver).2 head text rest hstream hhead
  refine ⟨token.take 255, parse, slayerServerReadAuthTokenFile_line htoken hbehind path, hrun, ?_⟩
  rintro request rfl
  have hfree : NulFree (token.take 255) :=
    fun hzero => (htoken.bytes 0 (List.mem_of_mem_take hzero)).2.2 rfl
  have hauth := @authorized_iff ⟨some (token.take 255), services⟩ request (token.take 255) rfl
    (storedStrings_of_runReceives hrun)
  rw [cstr_of_nulFree hfree, hextracted.headers, hpresents.bearerHeader_iff htoken] at hauth
  rw [answeredUnauthorized_iff hopen, route_unauthorized_iff, ← hauth]
  cases hpath : request.path with
  | none => simp
  | some p =>
      simp only [Option.some.injEq, exists_eq_left', reduceCtorEq, false_or]
      rw [not_and, Bool.not_eq_false]
      exact Decidable.imp_iff_not_or.trans (or_congr_left Decidable.not_not)

end Answer

/-- Pages without content. -/
def blankPages : Pages Unit where
  metrics _ := []
  service _ _ world := ([.queued (textResponse [])], world)
  closeShutdown := id
  statsTojson _ := []
  logEntries _ := []
  errorLogEntries _ := []
  startupArgs := []
  fileserver _ world := ([.queued (textResponse [])], world)

theorem blankPages_open : blankPages.Open where
  service _ _ _ response hmem := by
    obtain rfl : response = textResponse [] := by simpa [blankPages] using hmem
    decide
  fileserver _ _ response hmem := by
    obtain rfl : response = textResponse [] := by simpa [blankPages] using hmem
    decide

/-- A request for a page with a token in its only header. -/
def presenting (token : Bytes) (headerBytesRead : Nat) : Request where
  path := some (bytes "/db")
  parse := { requestParseInit (1024 * 1000) with
    requestState := .done
    methodString := bytes "GET"
    uriData := bytes "/db"
    headerState := .done
    headers := [⟨bytes "Authorization", bytes "Bearer " ++ token⟩]
    headerBytesRead }
  localIp := bytes "10.0.0.1"
  remoteIp := bytes "10.0.0.2"

theorem right_token_accepted :
    ¬ AnsweredUnauthorized (slayerHttpRequestDispatch blankPages ⟨some (bytes "s3cret"), []⟩
      (presenting (bytes "s3cret") 30) ()) := by
  have hline : RequestLine (1024 * 1000) .get (bytes "/db") .http10 (bytes "GET /db HTTP/1.0\n") :=
    .mk spaces_one ⟨rfl, by decide +kernel, by decide⟩ spaces_one (.inr rfl)
  have hheader : HeaderLines [⟨bytes "Authorization", some (bytes " Bearer s3cret")⟩]
      (bytes "Authorization: Bearer s3cret\n") :=
    .append .nil ⟨by decide, by decide +kernel, by decide +kernel⟩ (.inr rfl)
  obtain ⟨stored, parse, hfile, hrun, hanswer⟩ := right_token_refused_iff (bytes "s3cret")
    (bytes "\n") ⟨by decide, by decide +kernel⟩ (.inr ⟨[10], [], .inr rfl, rfl⟩) (bytes "token")
    ⟨.get, bytes "/db", .http10, [⟨bytes "Authorization", some (bytes " Bearer s3cret")⟩]⟩ _ []
    (.mk hline hheader (.inr rfl) (by decide)) ⟨[], [], rfl, by simp⟩
    [bytes "GET /db HTTP/1.0\nAuthorization: ", bytes "Bearer s3cret\n\n"]
    ⟨by decide, by decide, by decide, by decide, trivial⟩ rfl blankPages blankPages_open () []
  have hstored : slayerServerReadAuthTokenFile (bytes "token") (some (bytes "s3cret\n")) =
      .ok (bytes "s3cret") := by decide
  have hparse : runReceives (parseBufferInit (1024 * 1000))
      [bytes "GET /db HTTP/1.0\nAuthorization: ", bytes "Bearer s3cret\n\n"] =
        .complete (presenting (bytes "s3cret") 30).parse [] := by decide +kernel
  obtain rfl : stored = bytes "s3cret" := Except.ok.inj (hfile.symm.trans hstored)
  obtain ⟨rfl, -⟩ := Outcome.complete.inj (hrun.symm.trans hparse)
  exact (hanswer (presenting (bytes "s3cret") 30) rfl).mpr
    (.inr (.inr ⟨by decide +kernel, by decide +kernel⟩))

/-- A token of 256 bytes is cut by the buffer, and a blank at the end of a token by the parser. -/
theorem right_token_refused :
    (IsToken (List.replicate 256 (ch 'x')) ∧
      slayerServerReadAuthTokenFile (bytes "token") (some (List.replicate 256 (ch 'x') ++ [10])) =
        .ok (List.replicate 255 (ch 'x')) ∧
      runReceives (parseBufferInit (1024 * 1000))
        [bytes "GET /db HTTP/1.0\nAuthorization: Bearer " ++ List.replicate 256 (ch 'x') ++
          [10, 10]] =
        .complete (presenting (List.replicate 256 (ch 'x')) 280).parse [] ∧
      AnsweredUnauthorized (slayerHttpRequestDispatch blankPages
        ⟨some (List.replicate 255 (ch 'x')), []⟩
        (presenting (List.replicate 256 (ch 'x')) 280) ())) ∧
    IsToken (bytes "s3cret ") ∧
      slayerServerReadAuthTokenFile (bytes "token") (some (bytes "s3cret \n")) =
        .ok (bytes "s3cret ") ∧
      runReceives (parseBufferInit (1024 * 1000))
        [bytes "GET /db HTTP/1.0\nAuthorization: Bearer s3cret \n\n"] =
        .complete (presenting (bytes "s3cret") 31).parse [] ∧
      AnsweredUnauthorized (slayerHttpRequestDispatch blankPages ⟨some (bytes "s3cret "), []⟩
        (presenting (bytes "s3cret") 31) ()) := by
  refine ⟨⟨⟨by decide, by decide +kernel⟩, by decide +kernel, by decide +kernel,
    unauthorizedResponse, ?_, rfl⟩, ⟨by decide, by decide +kernel⟩, by decide, by decide +kernel,
    unauthorizedResponse, ?_, rfl⟩
  · decide +kernel
  · decide +kernel

end DbSlayer.Server
