import DbSlayer.Db.Keys
import DbSlayer.Http.Correctness
import DbSlayer.Server.Response
import DbSlayer.Server.Worker

/-! # A query from the client and back

The layers between a client and MySQL put together: a client writes its statement as JSON,
encodes it in the target of a request and sends that in pieces; a worker parses, dispatches
and executes it; and the client reads the page out of the bytes it gets. `apr_uri_parse` is
not part of the server and stands as a parameter.
-/

namespace DbSlayer.Server

open DbSlayer.Db DbSlayer.Http DbSlayer.Json Foundation

/-! ## The exchange -/

/-- What a connection brings: the pieces that are received, the addresses of its ends, what
`rand()` returns while a form is parsed, and what the answer is written with. -/
structure Visit where
  receives : List Bytes
  localIp : Bytes
  remoteIp : Bytes
  draws : Nat → Nat
  context : ResponseContext

/-- The service map of `main`. -/
def dbslayerServices : List (List Bytes) := [[bytes "/db", bytes "/dbform"]]

/-- The size of the buffers of a request in `main`. -/
def mainUriSize : Nat := 1024 * 1000

section Exchange

variable (δ : Type) [CDouble δ] (mysql : Mysql) (timeout : Nat) (site : Site)
  (aprUriParse : Bytes → Option Bytes × Option Bytes)

/-- What a worker does with a connection whose request is complete. -/
def serveVisit (config : Config) (service : Service) (visit : Visit) :
    Option (Dispatched Service) :=
  if service.crashed then none
  else
    match runReceives (parseBufferInit mainUriSize) visit.receives with
    | .complete parse _ =>
        let uri := aprUriParse parse.uriData
        some (slayerHttpRequestDispatch (workerPages δ mysql timeout site uri.2 visit.draws) config
          ⟨uri.1, parse, visit.localIp, visit.remoteIp⟩ service)
    | _ => none

/-- A target that is a path and a query is split at its first question mark. -/
def SplitsTarget : Prop :=
  ∀ path query : Bytes, NulFree path → NulFree query →
    path.head? = some (ch '/') → path[1]? ≠ some (ch '/') →
    ch '?' ∉ path → ch '#' ∉ path → ch '#' ∉ query →
    aprUriParse (path ++ ch '?' :: query) = (some path, some query)

end Exchange

variable {δ : Type} [CDouble δ]

/-- The client asks for `/db` with a statement: as any text of it and in any percent-encoding,
with any header lines that show the token of the server, and in any pieces. -/
structure Asks (config : Config) (stmt : JsonValue δ) (visit : Visit) : Prop where
  object : ∃ entries, stmt = .object entries
  delivered : Deliverable mainUriSize visit.receives
  sent : ∃ (request : Http.Request) (query text rest : Bytes),
    Sends query stmt ∧ ch '#' ∉ query ∧
    request.uri = bytes "/db" ++ ch '?' :: query ∧ RequestHead mainUriSize request text ∧
    visit.receives.flatten = text ++ rest ∧
    ∀ token, config.authToken = some token →
      BearerHeader (cstr token) (request.lines.map HeaderLine.stored)

variable {mysql : Mysql} {timeout : Nat} {aprUriParse : Bytes → Option Bytes × Option Bytes}
  {config : Config} {stmt : JsonValue δ} {visit : Visit} {service : Service}

/-- The parser gives the worker the target and the header lines that the client sent. -/
theorem Asks.parsed (hasks : Asks config stmt visit) :
    ∃ parse rest query, runReceives (parseBufferInit mainUriSize) visit.receives =
        .complete parse rest ∧ parse.uriData = bytes "/db" ++ ch '?' :: query ∧
      Sends query stmt ∧ ch '#' ∉ query ∧ query.length < 2 ^ 31 ∧
      ∀ token, config.authToken = some token → BearerHeader (cstr token) parse.headers := by
  obtain ⟨request, query, text, rest, hquery, hhash, huri, hhead, hstream, hbearer⟩ := hasks.sent
  obtain ⟨count, hconsume⟩ := hhead.consume_eq (by decide) rest
  have hextracted := @extracted_headParse mainUriSize request count
  rw [← hstream, ← runReceives_eq_consume hasks.delivered] at hconsume
  have hlength : request.uri.length + 1 ≤ mainUriSize := by
    obtain ⟨⟨-, hvalid, -, -⟩, -, -, -⟩ := hhead
    exact hvalid.2.2
  refine ⟨_, rest, query, hconsume, hextracted.uri.trans huri, hquery, hhash, ?_, ?_⟩
  · have hsmall : mainUriSize < 2 ^ 31 := by decide
    simp only [huri, List.length_append, List.length_cons] at hlength
    omega
  · intro token htoken
    rw [hextracted.headers]
    exact hbearer token htoken

/-- A request for `/db` that shows the token, or needs none, reaches the handler of the
service. -/
theorem route_db {parse : RequestParse} (hservices : config.services = dbslayerServices)
    (hstored : StoredStrings parse)
    (hbearer : ∀ token, config.authToken = some token → BearerHeader (cstr token) parse.headers)
    (localIp remoteIp : Bytes) :
    route config ⟨some (bytes "/db"), parse, localIp, remoteIp⟩ = .service 0 := by
  have hauthorized : authorized config ⟨some (bytes "/db"), parse, localIp, remoteIp⟩ = true := by
    cases htoken : config.authToken with
    | none => simp [authorized, htoken]
    | some token => exact (authorized_iff htoken hstored).mpr (hbearer token htoken)
  have hfound : findService config (bytes "/db") = some 0 := by
    rw [findService, hservices]
    decide
  simp only [route, hauthorized, hfound]
  decide

/-! ## And back -/

/-- An object to which MySQL answers no null pointer is executed and answered with one page. -/
theorem dbjsonHandler_page (mysql : Mysql) (timeout : Nat) {request : DbRequest}
    {handle : DbHandle} {entries : Entries δ} (hhandle : service.handle = some handle)
    (hinv : HandleInv handle service.world)
    (hstatement : request.statement (δ := δ) = some (.object entries))
    (hanswers : ¬ NullAnswer mysql handle (.object entries : JsonValue δ) service.world) :
    ∃ json, outJson (result (dbexecute mysql timeout handle (.object entries)) service.world).2 =
        some json ∧
      (dbjsonHandler δ mysql timeout service request).responses =
        service.responses ++ [page (.object entries) json] ∧
      (dbjsonHandler δ mysql timeout service request).world =
        after (dbexecute mysql timeout handle (.object entries)) service.world := by
  obtain ⟨json, hjson⟩ := Option.isSome_iff_exists.mp
    ((@outJson_dbexecute_iff δ mysql timeout _ _ _ hinv _).mpr hanswers)
  have hnext : dbjsonHandler δ mysql timeout service request =
      service.execute mysql timeout request handle (.object entries) := by
    rw [dbjsonHandler, hstatement, hhandle]
  obtain ⟨-, -, hresponses, -⟩ := (service.executed mysql timeout handle
    (.object entries)).noteErrors_frame request
      (result (dbexecute mysql timeout handle (.object entries)) service.world).2
  refine ⟨json, hjson, ?_, ?_⟩
  · rw [hnext, Service.execute, Service.write, hjson]
    exact congrArg (· ++ [_]) hresponses
  · rw [hnext]
    exact (Service.execute_frame mysql timeout service request handle _).2

/-- A client that asks is served a page with the object that `dbexecute` makes. -/
theorem Asks.served (hasks : Asks config stmt visit) (mysql : Mysql) (timeout : Nat) (site : Site)
    (hsplits : SplitsTarget aprUriParse) (hservices : config.services = dbslayerServices)
    {handle : DbHandle} (hhandle : service.handle = some handle)
    (hinv : HandleInv handle service.world) (hrunning : service.crashed = false)
    (hanswers : ¬ NullAnswer mysql handle stmt service.world) :
    ∃ next json, serveVisit δ mysql timeout site aprUriParse config service visit =
        some ⟨[.queued (page stmt json)], next, .success⟩ ∧
      outJson (result (dbexecute mysql timeout handle stmt) service.world).2 = some json ∧
      next.world = after (dbexecute mysql timeout handle stmt) service.world := by
  obtain ⟨parse, rest, query, hrun, huri, hquery, hhash, hlength, hbearer⟩ := hasks.parsed
  obtain ⟨entries, rfl⟩ := hasks.object
  have hsplit : aprUriParse parse.uriData = (some (bytes "/db"), some query) := by
    rw [huri]
    exact hsplits (bytes "/db") query (by decide) hquery.nulFree (by decide) (by decide)
      (by decide) (by decide) hhash
  have hroute := route_db hservices (storedStrings_of_runReceives hrun) hbearer visit.localIp
    visit.remoteIp
  have hstatement : DbRequest.statement (δ := δ)
      ⟨bytes "/db", some query, parse, visit.draws⟩ = some (.object entries) := by
    rw [DbRequest.statement, if_neg (show ¬ strcmp (bytes "/db") (bytes "/dbform") = 0 by decide)]
    exact dbStatement_sends hquery hlength
  obtain ⟨json, hjson, hresponses, hworld⟩ :=
    dbjsonHandler_page mysql timeout hhandle hinv hstatement hanswers
  refine ⟨_, json, ?_, hjson, hworld⟩
  simp only [serveVisit, hrunning, hrun, hsplit, slayerHttpRequestDispatch, hroute, workerPages,
    Option.getD_some, hresponses, List.drop_left]
  rfl

section Answers

variable (mysql timeout aprUriParse config) (site : Site) (dbConfig : DbslayerConfig)
  (dbcounter : UInt32)

end Answers

end DbSlayer.Server
