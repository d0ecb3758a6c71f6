import DbSlayer.Db.Opening
import DbSlayer.Db.Verdict
import DbSlayer.Foundation.Steps
import DbSlayer.Server.Access
import DbSlayer.Server.Form
import DbSlayer.Server.Handler
import DbSlayer.Server.LogLines
import DbSlayer.Server.Startup

/-! # The database service

`dbjson_handler` as a step of a worker: the statement of a request, what MySQL is
asked, the page that is sent, the error log and the counter of errors. A string that is
a null pointer ends the process when the page is written.
-/

namespace DbSlayer.Server

open DbSlayer.Db DbSlayer.Http DbSlayer.Json Foundation

/-! ## The handler -/

/-- What the handler reads of a request. The draws are what `rand()` returns while a form is
parsed. -/
structure DbRequest where
  path : Bytes
  query : Option Bytes
  parse : RequestParse
  draws : Nat → Nat

/-- The thread of a worker, and what it shares with the others. -/
structure Service where
  handle : Option DbHandle
  world : World
  dbErrorsTotal : UInt32
  /-- The request lines and messages that `slayer_server_log_err_message` was called with. -/
  errorLog : List (Bytes × Bytes)
  responses : List Response
  /-- The process has read through a null pointer. -/
  crashed : Bool

namespace Service

def logErrMessage (service : Service) (request : DbRequest) (message : Bytes) : Service :=
  { service with errorLog := service.errorLog ++ [(requestText request.parse, message)] }

/-- `slayer_http_handle_response`. -/
def respond (service : Service) (response : Response) : Service :=
  { service with responses := service.responses ++ [response] }

end Service

section Handler

variable {δ : Type} [CDouble δ]

/-- The statement of a request, from a form or from JSON. -/
def DbRequest.statement (request : DbRequest) : Option (JsonValue δ) :=
  if strcmp request.path (bytes "/dbform") = 0 then
    (dbformStatement request.query request.draws).map fun parsed => .object parsed.2
  else dbStatement request.query

/-- An entry as a value; none for a null pointer. -/
def replyJson : Db.Reply δ → Option (JsonValue δ)
  | .string value => value.map .string
  | .value json => some json
  | .allResult => none

/-- The object that is written. -/
def outJson (out : Out δ) : Option (JsonValue δ) :=
  (out.mapM fun entry => (replyJson entry.2).map (Prod.mk entry.1)).map .object

/-- `errors->value.string`, which ends a list of strings if it is null. -/
def errorText : Db.Reply δ → Bytes
  | .string (some text) => text
  | _ => []

/-- The test of `FORMAT`. -/
def wantsXml (stmt : JsonValue δ) : Bool :=
  match memberString stmt "FORMAT" with
  | some format => strcmp format (bytes "xml") = 0
  | none => false

/-- The error of a reply is counted and logged. -/
def Service.noteErrors (service : Service) (request : DbRequest) (out : Out δ) : Service :=
  match outGet out "MYSQL_ERROR" with
  | none => service
  | some errors =>
      let message := bytes "ERROR: " ++ errorText errors
      { service.logErrMessage request message with
        dbErrorsTotal := service.dbErrorsTotal + 1 }

/-- The page of a reply, as JSON or as XML. -/
def page (stmt json : JsonValue δ) : Response :=
  if wantsXml stmt then ⟨200, bytes "text/xml", xmlSerialize json⟩
  else ⟨200, mtTextPlain, jsonSerialize json⟩

/-- The page is written and sent. A string that is a null pointer ends the process first. -/
def Service.write (service : Service) (stmt : JsonValue δ) (out : Out δ) : Service :=
  match outJson out with
  | some json => service.respond (page stmt json)
  | none => { service with crashed := true }

section Execute

variable (mysql : Mysql) (timeout : Nat)

/-- The worker behind `dbexecute`. -/
def Service.executed (service : Service) (handle : DbHandle) (stmt : JsonValue δ) : Service :=
  { service with
    handle := some (result (dbexecute mysql timeout handle stmt) service.world).1
    world := after (dbexecute mysql timeout handle stmt) service.world }

/-- What becomes of a statement that is an object. -/
def Service.execute (service : Service) (request : DbRequest) (handle : DbHandle)
    (stmt : JsonValue δ) : Service :=
  let out := (result (dbexecute mysql timeout handle stmt) service.world).2
  ((service.executed mysql timeout handle stmt).noteErrors request out).write stmt out

end Execute

/-- What is logged of a request that is not executed, and what its page says. -/
structure Refusal where
  message : Bytes
  output : Bytes

def unparsed : Refusal where
  message := bytes "ERROR: Couldn't parse incoming JSON"
  output := bytes "\x7b\"ERROR\" : \"we got problems -  couldn't parse your incoming json\"\x7d"

def rootNoObject : Refusal where
  message := bytes "ERROR: incoming JSON root was not an object"
  output := bytes "\x7b\"ERROR\" : \"the top level JSON value must be an object\"\x7d"

/-- What becomes of any other statement. -/
def Service.reject (service : Service) (request : DbRequest) (refusal : Refusal) : Service :=
  (service.logErrMessage request refusal.message).respond ⟨200, mtTextPlain, refusal.output⟩

variable (δ) (mysql : Mysql) (timeout : Nat)

/-- `dbjson_handler`. -/
def dbjsonHandler (service : Service) (request : DbRequest) : Service :=
  match request.statement (δ := δ) with
  | some (.object entries) =>
      match service.handle with
      | some handle => service.execute mysql timeout request handle (.object entries)
      | none => service.reject request unparsed
  | some _ => service.reject request rootNoObject
  | none => service.reject request unparsed

/-- A worker handles its requests one after the other, as long as there is a process. -/
def Service.step (service : Service) (request : DbRequest) : Option Service :=
  if service.crashed then none else some (dbjsonHandler δ mysql timeout service request)

end Handler

/-- `db_thread_init`. The workers are counted when they start. -/
def dbThreadInit (mysql : Mysql) (timeout : Nat) (config : DbslayerConfig) (dbcounter : UInt32) :
    Client DbHandle :=
  let server := if config.multiserver = none then config.server else config.multiserver
  dbHandleInit mysql timeout config.username config.password (server.getD [])
    (config.configure.getD []) dbcounter.toNat config.multiserver.isSome

/-- A worker that has not handled a request. -/
def Service.start (mysql : Mysql) (timeout : Nat) (config : DbslayerConfig) (dbcounter : UInt32) :
    Service where
  handle := some (result (dbThreadInit mysql timeout config dbcounter) .start)
  world := after (dbThreadInit mysql timeout config dbcounter) .start
  dbErrorsTotal := 0
  errorLog := []
  responses := []
  crashed := false

/-! ## One request -/

section Steps

variable {δ : Type} [CDouble δ] {mysql : Mysql} {timeout : Nat} {service next : Service}
  {request : DbRequest}

/-- The worker has a handle, which holds what is open. -/
def Service.Attached (service : Service) : Prop :=
  ∃ handle, service.handle = some handle ∧ HandleInv handle service.world

/-- A statement that MySQL is asked about. -/
def DbRequest.object (request : DbRequest) : Option (JsonValue δ) :=
  match request.statement (δ := δ) with
  | some (.object entries) => some (.object entries)
  | _ => none

/-- Why a request without such a statement is refused. -/
def DbRequest.refusal (δ : Type) [CDouble δ] (request : DbRequest) : Refusal :=
  if (request.statement (δ := δ)).isSome then rootNoObject else unparsed

omit [CDouble δ] in
/-- Counting errors leaves the handle and the world alone. -/
theorem Service.noteErrors_frame (service : Service) (request : DbRequest) (out : Out δ) :
    (service.noteErrors request out).handle = service.handle ∧
      (service.noteErrors request out).world = service.world ∧
      (service.noteErrors request out).responses = service.responses ∧
      (service.noteErrors request out).crashed = service.crashed := by
  unfold Service.noteErrors
  split <;> exact ⟨rfl, rfl, rfl, rfl⟩

/-- Writing a page touches neither MySQL nor the log. -/
theorem Service.write_frame (service : Service) (stmt : JsonValue δ) (out : Out δ) :
    (service.write stmt out).handle = service.handle ∧
      (service.write stmt out).world = service.world ∧
      (service.write stmt out).dbErrorsTotal = service.dbErrorsTotal ∧
      (service.write stmt out).errorLog = service.errorLog := by
  unfold Service.write
  split <;> exact ⟨rfl, rfl, rfl, rfl⟩

/-- What executing leaves of the handle and the world is what `dbexecute` leaves, and nothing of
it depends on the page. -/
theorem Service.execute_frame (mysql : Mysql) (timeout : Nat) (service : Service)
    (request : DbRequest) (handle : DbHandle) (stmt : JsonValue δ) :
    (service.execute mysql timeout request handle stmt).handle =
        some (result (dbexecute mysql timeout handle stmt) service.world).1 ∧
      (service.execute mysql timeout request handle stmt).world =
        after (dbexecute mysql timeout handle stmt) service.world := by
  obtain ⟨hhandle, hworld, -⟩ := (service.executed mysql timeout handle stmt).noteErrors_frame
    request (result (dbexecute mysql timeout handle stmt) service.world).2
  obtain ⟨hhandle', hworld', -⟩ := Service.write_frame
    ((service.executed mysql timeout handle stmt).noteErrors request
      (result (dbexecute mysql timeout handle stmt) service.world).2) stmt
    (result (dbexecute mysql timeout handle stmt) service.world).2
  exact ⟨hhandle'.trans hhandle, hworld'.trans hworld⟩

/-- A step is one call of the handler, in a process that is there. -/
theorem Service.step_eq_some :
    service.step δ mysql timeout request = some next ↔
      service.crashed = false ∧ dbjsonHandler δ mysql timeout service request = next := by
  simp only [Service.step, Option.ite_none_left_eq_some, Option.some.injEq, Bool.not_eq_true]

/-- An object is executed on the handle of the worker, and any other statement is rejected with
a reason. -/
theorem dbjsonHandler_cases (mysql : Mysql) (timeout : Nat) (hattached : service.Attached)
    (request : DbRequest) :
    (∃ stmt handle, request.object = some (stmt : JsonValue δ) ∧ service.handle = some handle ∧
        HandleInv handle service.world ∧
        dbjsonHandler δ mysql timeout service request =
          service.execute mysql timeout request handle stmt) ∨
      request.object (δ := δ) = none ∧ dbjsonHandler δ mysql timeout service request =
        service.reject request (request.refusal δ) := by
  obtain ⟨handle, hhandle, hinv⟩ := hattached
  unfold dbjsonHandler DbRequest.object DbRequest.refusal
  cases request.statement (δ := δ) with
  | none => exact .inr ⟨rfl, rfl⟩
  | some stmt =>
      cases stmt with
      | object entries =>
          refine .inl ⟨.object entries, handle, rfl, hhandle, hinv, ?_⟩
          rw [hhandle]
      | _ => exact .inr ⟨rfl, rfl⟩

/-- The handler leaves the handle attached, whatever the request says and whether or not the
page can be written. -/
theorem dbjsonHandler_attached (mysql : Mysql) (timeout : Nat) (hattached : service.Attached)
    (request : DbRequest) : (dbjsonHandler δ mysql timeout service request).Attached := by
  obtain ⟨stmt, handle, -, -, hinv, hexecute⟩ | ⟨-, hrejected⟩ :=
    dbjsonHandler_cases (δ := δ) mysql timeout hattached request
  · obtain ⟨hhandle, hworld⟩ := service.execute_frame mysql timeout request handle stmt
    rw [hexecute]
    exact ⟨_, hhandle, hworld ▸ (dbexecute_live hinv stmt).1⟩
  · rw [hrejected]
    exact hattached

theorem Service.start_attached (mysql : Mysql) (timeout : Nat) (config : DbslayerConfig)
    (dbcounter : UInt32) : (Service.start mysql timeout config dbcounter).Attached :=
  ⟨_, rfl, dbHandleInit_inv mysql timeout config.username config.password _ _ _ _⟩

end Steps

/-! ## The connections of a run -/

/-- What the options of the server say about its connections: a group of the configuration
file for each listed name, and the credentials of the environment for a ring. -/
def DbslayerConfig.opening (config : DbslayerConfig) (timeout : Nat) : Opening where
  timeout
  config := config.configure.getD []
  servers := (cstr ((config.multiserver.or config.server).getD [])).splitOn (ch ':')
  user := if config.multiserver.isSome then none else config.username
  pass := if config.multiserver.isSome then none else config.password

section Connections

variable {δ : Type} [CDouble δ] {mysql : Mysql} {timeout : Nat} {opening : Opening}
  {service next : Service} {request : DbRequest}

/-- The worker has a handle, and opens what the opening says. -/
structure Service.Governed (timeout : Nat) (opening : Opening) (service : Service) : Prop where
  attached : service.Attached
  governed : ∀ handle, service.handle = some handle →
    Db.Governed timeout opening handle service.world

theorem Service.start_governed (mysql : Mysql) (timeout : Nat) (config : DbslayerConfig)
    (dbcounter : UInt32) :
    (Service.start mysql timeout config dbcounter).Governed timeout (config.opening timeout) := by
  refine ⟨Service.start_attached mysql timeout config dbcounter, ?_⟩
  intro handle hhandle
  obtain rfl := Option.some.inj hhandle
  have hserver : (if config.multiserver = none then config.server else config.multiserver) =
      config.multiserver.or config.server := by
    cases config.multiserver <;> rfl
  rw [DbslayerConfig.opening, ← hserver]
  exact dbHandleInit_governed config.username config.password _ _ dbcounter.toNat _

/-- A request leaves what is opened to the opening, also one that ends the process. -/
theorem Service.step_governed (hgoverned : service.Governed timeout opening)
    (hstep : service.step δ mysql timeout request = some next) :
    next.Governed timeout opening := by
  obtain ⟨-, rfl⟩ := Service.step_eq_some.mp hstep
  refine ⟨dbjsonHandler_attached mysql timeout hgoverned.attached request,
    fun handle' hhandle' => ?_⟩
  obtain ⟨stmt, handle, -, hhandle, -, hexecute⟩ | ⟨-, hrejected⟩ :=
    dbjsonHandler_cases (δ := δ) mysql timeout hgoverned.attached request
  · obtain ⟨hnext, hworld⟩ := service.execute_frame mysql timeout request handle stmt
    rw [hexecute] at hhandle' ⊢
    obtain rfl := Option.some.inj (hnext.symm.trans hhandle')
    exact hworld ▸ dbexecute_governed (hgoverned.governed handle hhandle) stmt
  · rw [hrejected] at hhandle' ⊢
    exact hgoverned.governed handle' hhandle'

end Connections

section Connected

variable {δ : Type} [CDouble δ] (mysql : Mysql) (timeout : Nat) (config : DbslayerConfig)
  (dbcounter : UInt32)

/-- Whatever the clients send and MySQL does, a worker opens a connection only on a new handle,
with both timeouts, to a listed group of the configuration file and with the credentials of
the server. -/
theorem opens_as_configured (requests : List DbRequest) :
    Always (Service.step δ mysql timeout)
      (fun service => (config.opening timeout).Governs service.world.trace)
      (.start mysql timeout config dbcounter) requests := by
  have hstart := Service.start_governed mysql timeout config dbcounter
  refine (always_of_invariant (fun _ _ _ => Service.step_governed) hstart requests).mono ?_
  intro service hservice
  obtain ⟨handle, hhandle, -⟩ := hservice.attached
  exact (hservice.governed handle hhandle).governs

end Connected

/-- A ring of one server. -/
def ringConfig : DbslayerConfig where
  server := some (bytes "db1")
  multiserver := none
  configure := some (bytes "/etc/my.cnf")
  username := none
  password := none

/-- A request for a path with a query. -/
def dbRequest (path : String) (query : Option Bytes) : DbRequest where
  path := bytes path
  query := query
  parse := requestParseInit 1024000
  draws := fun _ => 0

end DbSlayer.Server
