import DbSlayer.Http.Delivery
import DbSlayer.Server.Dispatch

/-! # Who gets past the bearer token

The dispatcher with everything it does. What the pages hold comes from the rest of
the server, whose state, the database, the logs, the statistics and the files, is
one parameter here. A server with a token opens a page other than `/health` to the
first stored `Authorization` header alone.
-/

namespace DbSlayer.Server

open DbSlayer.Http Foundation

/-! ## The dispatcher -/

/-- What `slayer_http_handle_response` is given. -/
structure Response where
  code : Nat
  mimeType : Bytes
  message : Bytes
deriving DecidableEq, Repr

/-- What happens to the connection. -/
inductive Effect where
  | queued (response : Response)
  | closed
deriving DecidableEq, Repr

/-- What the dispatcher returns: `eof` ends the server. -/
inductive DispatchStatus where
  | success
  | eof
deriving DecidableEq, Repr

structure Dispatched (World : Type) where
  effects : List Effect
  world : World
  status : DispatchStatus
deriving DecidableEq, Repr

/-- What the pages take from the rest of the server. -/
structure Pages (World : Type) where
  metrics : World → Bytes
  /-- The handler of an entry of the service map. -/
  service : Nat → Request → World → List Effect × World
  /-- The log entry for a `/shutdown` connection that cannot be closed. -/
  closeShutdown : World → World
  statsTojson : World → Bytes
  logEntries : World → Bytes
  errorLogEntries : World → Bytes
  startupArgs : Bytes
  fileserver : Request → World → List Effect × World

/-- `SLAYER_MT_TEXT_PLAIN`. -/
def mtTextPlain : Bytes := bytes "text/plain; charset=utf-8"

def healthResponse : Response :=
  ⟨200, bytes "application/json", bytes "\x7b\"status\":\"ok\"\x7d"⟩

def unauthorizedResponse : Response := ⟨401, bytes "text/plain", bytes "Unauthorized"⟩

def forbiddenResponse : Response := ⟨403, mtTextPlain, bytes "You are not authorized!"⟩

def metricsResponse (message : Bytes) : Response :=
  ⟨200, bytes "text/plain; version=0.0.4; charset=utf-8", message⟩

/-- A page of text. -/
def textResponse (message : Bytes) : Response := ⟨200, mtTextPlain, message⟩

section Dispatch

variable {World : Type} (pages : Pages World)

/-- `slayer_http_request_dispatch`. -/
def slayerHttpRequestDispatch (config : Config) (request : Request) (world : World) :
    Dispatched World :=
  let answer (response : Response) : Dispatched World := ⟨[.queued response], world, .success⟩
  match route config request with
  | .noPath => ⟨[.closed], world, .success⟩
  | .health => answer healthResponse
  | .unauthorized => answer unauthorizedResponse
  | .metrics => answer (metricsResponse (pages.metrics world))
  | .service i =>
      let (effects, world) := pages.service i request world
      ⟨effects, world, .success⟩
  | .forbidden => answer forbiddenResponse
  | .goingDown =>
      ⟨[.queued (textResponse (bytes "going down")), .closed], pages.closeShutdown world, .eof⟩
  | .stats => answer (textResponse (pages.statsTojson world))
  | .statsLog => answer (textResponse (pages.logEntries world))
  | .statsError => answer (textResponse (pages.errorLogEntries world))
  | .statsArgs => answer (textResponse pages.startupArgs)
  | .file =>
      let (effects, world) := pages.fileserver request world
      ⟨effects, world, .success⟩

end Dispatch

/-- The replies behind the test of the token. -/
def Reply.guarded : Reply → Bool
  | noPath | health | unauthorized => false
  | _ => true

theorem guarded_fallback (request : Request) (path : Bytes) :
    (fallback request path).guarded = true := by
  unfold fallback
  repeat' split
  all_goals rfl

/-- Behind the path, the answer depends on the token and on nothing else. -/
theorem route_of_path {config : Config} {request : Request} {path : Bytes}
    (hpath : request.path = some path) (hhealth : strcmp path (bytes "/health") ≠ 0) :
    (authorized config request = true ∧ (route config request).guarded = true) ∨
      (authorized config request = false ∧ route config request = .unauthorized) := by
  unfold route
  simp only [hpath, if_neg hhealth]
  cases hauth : authorized config request with
  | false => exact .inr ⟨rfl, rfl⟩
  | true =>
      refine .inl ⟨rfl, ?_⟩
      simp only [Bool.not_true, Bool.false_eq_true, if_false]
      split
      · rfl
      · split
        · rfl
        · exact guarded_fallback request path

/-! ## The comparison of the token -/

/-- The difference is zero exactly when no byte differs, and a difference is never undone. -/
theorem tokenDifference_eq_zero_iff {provided expected : Bytes} (difference : Byte)
    (hlength : provided.length = expected.length) :
    tokenDifference difference provided expected = 0 ↔ difference = 0 ∧ provided = expected := by
  induction provided generalizing difference expected with
  | nil =>
      obtain rfl := List.length_eq_zero_iff.mp hlength.symm
      simp [tokenDifference]
  | cons a provided ih =>
      cases expected with
      | nil => simp at hlength
      | cons b expected =>
          rw [tokenDifference, ih _ (by simpa using hlength)]
          simp only [UInt8.or_eq_zero_iff, UInt8.xor_eq_zero_iff, List.cons.injEq, and_assoc]

/-- Tokens match exactly when they are the same C string. -/
theorem slayerAuthTokenMatches_iff (provided expected : Bytes) :
    slayerAuthTokenMatches provided expected = true ↔ cstr provided = cstr expected := by
  unfold slayerAuthTokenMatches
  split
  next hlength =>
    simp only [Bool.false_eq_true, false_iff]
    intro hsame
    exact hlength (by rw [strlen, strlen, hsame])
  next hlength =>
    rw [decide_eq_true_iff, tokenDifference_eq_zero_iff 0 (not_not.mp hlength)]
    simp

/-- The prefix and the token are compared one after the other, which comes to comparing the
value with both of them as one text. -/
theorem bearer_iff {value : Bytes} (hfree : NulFree value) (token : Bytes) :
    (strcmp (value.take 7) (bytes "Bearer ") = 0 &&
      slayerAuthTokenMatches (value.drop 7) token) = true ↔
      value = bytes "Bearer " ++ cstr token := by
  have hsplit : NulFree (value.take 7) ∧ NulFree (value.drop 7) := by
    rw [← nulFree_append, List.take_append_drop]
    exact hfree
  rw [Bool.and_eq_true, decide_eq_true_iff, strcmp_eq_zero_iff hsplit.1 (by decide),
    slayerAuthTokenMatches_iff, cstr_of_nulFree hsplit.2]
  constructor
  · rintro ⟨htake, hdrop⟩
    rw [← htake, ← hdrop, List.take_append_drop]
  · rintro rfl
    exact ⟨rfl, rfl⟩

/-! ## What the parser stores -/

/-- The strings of a header are copies of C strings. -/
def StoredStrings (parse : RequestParse) : Prop :=
  ∀ header ∈ parse.headers, NulFree header.name ∧ NulFree header.value

/-- Appending a header keeps the stored names and values C strings. -/
theorem headerAppend_storedStrings {parse : RequestParse} (hstored : StoredStrings parse) :
    StoredStrings (headerAppend parse) := by
  unfold headerAppend
  split
  next => exact hstored
  next =>
    intro header hmem
    rcases List.mem_append.mp hmem with hold | hnew
    · exact hstored header hold
    · obtain rfl := List.mem_singleton.mp hnew
      exact ⟨nulFree_cstr _, nulFree_cstr _⟩

theorem requestLineByte_headers {parse next : RequestParse} {c : Byte}
    (hstep : (requestLineByte parse c).result = some next) : next.headers = parse.headers := by
  unfold requestLineByte expectByte at hstep
  split at hstep
  all_goals
    repeat' split at hstep
    all_goals cases hstep
    all_goals rfl

/-- A byte of a header leaves the list of headers as it is, or ends a header, which is appended
to the list. -/
theorem requestHeaderByte_headers {parse next : RequestParse} {c : Byte}
    (hstep : (requestHeaderByte parse c).result = some next) :
    next.headers = parse.headers ∨ next.headers = (headerAppend parse).headers := by
  have hcounted : ∀ read, (headerAppend { parse with headerBytesRead := read }).headers =
      (headerAppend parse).headers := by
    intro read
    unfold headerAppend
    dsimp only
    split <;> rfl
  unfold requestHeaderByte headerSwitch storeName storeValue endHeader at hstep
  simp only at hstep
  repeat' split at hstep
  all_goals cases hstep
  all_goals first
    | exact .inl rfl
    | exact .inr (hcounted _)

theorem feed_storedStrings {parse next : RequestParse} {c : Byte} (hstored : StoredStrings parse)
    (hfeed : feed parse c = some next) : StoredStrings next := by
  unfold StoredStrings
  by_cases hline : parse.requestState = .done
  · rw [feed_header hline] at hfeed
    rcases requestHeaderByte_headers hfeed with hsame | happend
    · rw [hsame]
      exact hstored
    · rw [happend]
      exact headerAppend_storedStrings hstored
  · rw [feed_line hline] at hfeed
    rw [requestLineByte_headers hfeed]
    exact hstored

theorem storedStrings_of_runReceives {uriSize : Nat} {receives : List Bytes}
    {parse : RequestParse} {unread : Bytes}
    (hrun : runReceives (parseBufferInit uriSize) receives = .complete parse unread) :
    StoredStrings parse := by
  have hstream := consume_of_runReceives_complete (fun _ => rfl) (by simp [requestParseInit]) hrun
  exact invariant_of_consume StoredStrings (fun _ _ _ => feed_storedStrings)
    (by simp [StoredStrings, requestParseInit]) hstream

/-! ## The first header of that name -/

/-- The first header with the name has the token behind the scheme as its value. -/
def BearerHeader (token : Bytes) (headers : List Header) : Prop :=
  ∃ front header back, headers = front ++ header :: back ∧
    (∀ earlier ∈ front, earlier.name.map tolower ≠ bytes "authorization") ∧
    header.name.map tolower = bytes "authorization" ∧
    header.value = bytes "Bearer " ++ token

theorem nulFree_map_tolower {s : Bytes} (hfree : NulFree s) : NulFree (s.map tolower) := by
  intro hzero
  obtain ⟨c, hmem, hlower⟩ := List.mem_map.mp hzero
  have hbyte : ∀ c : Byte, tolower c = 0 → c = 0 := forall_byte (by decide +kernel)
  exact hfree (hbyte c hlower ▸ hmem)

/-- The lookup takes any spelling of the header's name and no other name. -/
theorem strcasecmp_authorization_iff {name : Bytes} (hfree : NulFree name) :
    strcasecmp name (bytes "Authorization") = 0 ↔ name.map tolower = bytes "authorization" := by
  have hlower : (bytes "Authorization").map tolower = bytes "authorization" := by decide
  rw [strcasecmp, hlower, strcmp_eq_zero_iff (nulFree_map_tolower hfree) (by decide)]

/-- The lookup finds the first header of the name, so that a second Authorization header is not
looked at. -/
theorem headerGet_authorization_iff {parse : RequestParse} (hstored : StoredStrings parse)
    (value : Bytes) :
    headerGet parse (bytes "Authorization") = some value ↔
      ∃ front header back, parse.headers = front ++ header :: back ∧
        (∀ earlier ∈ front, earlier.name.map tolower ≠ bytes "authorization") ∧
        header.name.map tolower = bytes "authorization" ∧ header.value = value := by
  have hname : ∀ header ∈ parse.headers, (strcasecmp header.name (bytes "Authorization") = 0 ↔
      header.name.map tolower = bytes "authorization") :=
    fun header hmem => strcasecmp_authorization_iff (hstored header hmem).1
  rw [headerGet, Option.map_eq_some_iff]
  simp only [List.find?_eq_some_iff_append]
  constructor
  · rintro ⟨header, ⟨hfound, front, back, hsplit, hfront⟩, hvalue⟩
    rw [decide_eq_true_iff] at hfound
    refine ⟨front, header, back, hsplit, ?_, ?_, hvalue⟩
    · intro earlier hmem
      rw [ne_eq, ← hname earlier (by simp [hsplit, hmem])]
      simpa using hfront earlier hmem
    · exact (hname header (by simp [hsplit])).mp hfound
  · rintro ⟨front, header, back, hsplit, hfront, hfound, hvalue⟩
    refine ⟨header, ⟨?_, front, back, hsplit, ?_⟩, hvalue⟩
    · rw [decide_eq_true_iff]
      exact (hname header (by simp [hsplit])).mpr hfound
    · intro earlier hmem
      have hother := hfront earlier hmem
      rw [ne_eq, ← hname earlier (by simp [hsplit, hmem])] at hother
      simpa using hother

/-- A request is authorized exactly when its first Authorization header is the bearer token,
however the name of the header is spelled. -/
theorem authorized_iff {config : Config} {request : Request} {token : Bytes}
    (htoken : config.authToken = some token) (hstored : StoredStrings request.parse) :
    authorized config request = true ↔ BearerHeader (cstr token) request.parse.headers := by
  unfold authorized
  simp only [htoken]
  cases hget : headerGet request.parse (bytes "Authorization") with
  | none =>
      simp only [Bool.false_eq_true, false_iff]
      rintro ⟨front, header, back, hheader⟩
      have hsome := (headerGet_authorization_iff hstored _).mpr ⟨front, header, back, hheader⟩
      simp [hget] at hsome
  | some value =>
      obtain ⟨front, header, back, hsplit, hfront, hname, rfl⟩ :=
        (headerGet_authorization_iff hstored value).mp hget
      have hvalue := bearer_iff (hstored header (by simp [hsplit])).2 token
      rw [hvalue]
      constructor
      · intro hbearer
        exact ⟨front, header, back, hsplit, hfront, hname, hbearer⟩
      · rintro ⟨front', header', back', hheader⟩
        have hsome := (headerGet_authorization_iff hstored _).mpr ⟨front', header', back', hheader⟩
        exact Option.some.inj (hget.symm.trans hsome)

/-! ## Nothing happens without the token -/

/-- What a request without the token comes to: one answer, or the end of a connection
that has no path. -/
def refusal {World : Type} (request : Request) (world : World) : Dispatched World :=
  match request.path with
  | none => ⟨[.closed], world, .success⟩
  | some _ => ⟨[.queued unauthorizedResponse], world, .success⟩

theorem bearer_guards_dispatch {World : Type} (config : Config) (token : Bytes)
    (htoken : config.authToken = some token) (uriSize : Nat) (receives : List Bytes)
    (request : Request) (unread : Bytes)
    (hrun : runReceives (parseBufferInit uriSize) receives = .complete request.parse unread)
    (hpath : ∀ path, request.path = some path → strcmp path (bytes "/health") ≠ 0) :
    ((route config request).guarded = true →
      BearerHeader (cstr token) request.parse.headers) ∧
    (¬ BearerHeader (cstr token) request.parse.headers →
      ∀ (pages : Pages World) (world : World),
        slayerHttpRequestDispatch pages config request world = refusal request world) := by
  have hauth := authorized_iff htoken (storedStrings_of_runReceives hrun)
  cases hrequest : request.path with
  | none =>
      have hroute : route config request = .noPath := by simp [route, hrequest]
      refine ⟨by simp [hroute, Reply.guarded], ?_⟩
      intro _ pages world
      simp [slayerHttpRequestDispatch, hroute, refusal, hrequest]
  | some path =>
      have hroute := @route_of_path config request path hrequest (hpath path hrequest)
      rcases hroute with ⟨hyes, -⟩ | ⟨-, hroute⟩
      · exact ⟨fun _ => hauth.mp hyes, fun hmissing => absurd (hauth.mp hyes) hmissing⟩
      · refine ⟨by simp [hroute, Reply.guarded], ?_⟩
        intro _ pages world
        simp [slayerHttpRequestDispatch, hroute, refusal, hrequest]

/-- A query as a client with a token sends it, behind a header line without a colon. -/
def signedRequest : Request where
  path := some (bytes "/db")
  parse := { requestParseInit 1024000 with
    requestState := .done
    methodString := bytes "GET"
    uriData := bytes "/db"
    headerState := .done
    headers := [⟨bytes "Authorize", []⟩, ⟨bytes "authorization", bytes "Bearer s3cret"⟩]
    headerBytesRead := 39 }
  localIp := bytes "10.0.0.1"
  remoteIp := bytes "10.0.0.2"

theorem bearer_guards_dispatch_signed :
    (route ⟨some (bytes "s3cret"), []⟩ signedRequest).guarded = true ∧
      BearerHeader (bytes "s3cret") signedRequest.parse.headers :=
  ⟨by decide, (@bearer_guards_dispatch Unit ⟨some (bytes "s3cret"), []⟩ (bytes "s3cret") rfl 1024000
    [bytes "GET /db HTTP/1.0\nAuthorize\nauth", bytes "orization:Bearer s3cr", bytes "et\n\n"]
    signedRequest [] (by decide +kernel)
    (by rintro _ ⟨⟩; decide)).1 (by decide)⟩

end DbSlayer.Server
