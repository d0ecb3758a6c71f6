import DbSlayer.Server.Fileserver
import DbSlayer.Server.Judgement

/-! # The pages of a worker

The dispatcher with the two handlers that stand behind the test of the token:
`dbjson_handler` for the URLs of the service, and `slayer_http_fileserver` for a path that
nothing else answers. Neither of them refuses a token.
-/

namespace DbSlayer.Server

open DbSlayer.Db DbSlayer.Json Foundation

/-- What a worker answers with besides the service: the pages about the server, and the files
below the base directory. -/
structure Site where
  pages : Pages Service
  fs : FileSystem
  basedir : Option Bytes

section Worker

variable (δ : Type) [CDouble δ] (mysql : Mysql) (timeout : Nat) (site : Site)

/-- The pages for a connection, whose query is not known to the dispatcher. A handler queues
what it gives to `slayer_http_handle_response`. -/
def workerPages (query : Option Bytes) (draws : Nat → Nat) : Pages Service :=
  { site.pages with
    service := fun _ request service =>
      let next := dbjsonHandler δ mysql timeout service
        ⟨request.path.getD [], query, request.parse, draws⟩
      ((next.responses.drop service.responses.length).map .queued, next)
    fileserver := fun request service =>
      let reply := slayerHttpFileserver site.fs site.basedir request.path
      ([.queued ⟨reply.responseCode.toInt.toNat, reply.mimeType, reply.message⟩], service) }

variable {δ}

/-- Every page of the handler has the code 200, that of an error and that of a refusal
included. -/
theorem dbjsonHandler_answers (service : Service) (request : DbRequest) :
    ∃ answers, (dbjsonHandler δ mysql timeout service request).responses =
      service.responses ++ answers ∧ ∀ response ∈ answers, response.code = 200 := by
  have hreject : ∀ refusal : Refusal, ∃ answers, (service.reject request refusal).responses =
      service.responses ++ answers ∧ ∀ response ∈ answers, response.code = 200 :=
    fun refusal => ⟨[⟨200, mtTextPlain, refusal.output⟩], rfl, by simp⟩
  unfold dbjsonHandler
  split
  next entries _ =>
    split
    next handle _ =>
      obtain ⟨-, -, hresponses, -⟩ := (service.executed mysql timeout handle
        (.object entries)).noteErrors_frame request
          (result (dbexecute mysql timeout handle (.object entries)) service.world).2
      unfold Service.execute Service.write
      dsimp only
      split
      next json _ =>
        refine ⟨[page (.object entries) json], congrArg (· ++ [_]) hresponses, ?_⟩
        rw [List.forall_mem_singleton, page]
        split <;> rfl
      next => exact ⟨[], hresponses.trans (List.append_nil _).symm, by simp⟩
    next => exact hreject unparsed
  next => exact hreject rootNoObject
  next => exact hreject unparsed

/-- A file is served with the code 200, or it is not found and answered 404. -/
theorem slayerHttpFileserver_code (fs : FileSystem) (basedir query : Option Bytes) :
    (slayerHttpFileserver fs basedir query).responseCode = 200 ∨
      (slayerHttpFileserver fs basedir query).responseCode = 404 := by
  have hserve : ∀ query resolved, (serveFile fs query resolved).responseCode = 200 ∨
      (serveFile fs query resolved).responseCode = 404 := by
    intro query resolved
    unfold serveFile
    split
    next =>
      dsimp only
      split
      next => exact .inl rfl
      next => exact .inr rfl
    next => exact .inr rfl
  unfold slayerHttpFileserver
  split
  next =>
    dsimp only
    split
    next => exact .inr rfl
    next =>
      split
      next =>
        split
        next => exact hserve _ _
        next => exact .inr rfl
      next => exact .inr rfl
  next => exact .inr rfl

/-- The handlers answer with other codes than 401. -/
theorem workerPages_open (query : Option Bytes) (draws : Nat → Nat) :
    (workerPages δ mysql timeout site query draws).Open where
  service i request service response hmem := by
    obtain ⟨answers, hresponses, hcodes⟩ := dbjsonHandler_answers (δ := δ) mysql timeout service
      ⟨request.path.getD [], query, request.parse, draws⟩
    simp only [workerPages, hresponses, List.drop_left, List.mem_map, Effect.queued.injEq,
      exists_eq_right] at hmem
    rw [hcodes response hmem]
    decide
  fileserver request service response hmem := by
    have hcode := slayerHttpFileserver_code site.fs site.basedir request.path
    simp only [workerPages, List.mem_singleton, Effect.queued.injEq] at hmem
    obtain rfl := hmem
    rcases hcode with hcode | hcode <;> simp only [hcode] <;> decide

/-- A worker answers 401 where the token is missing or wrong, and nowhere else. -/
theorem worker_unauthorized_iff (query : Option Bytes) (draws : Nat → Nat) (config : Config)
    (request : Request) (service : Service) :
    AnsweredUnauthorized (slayerHttpRequestDispatch
        (workerPages δ mysql timeout site query draws) config request service) ↔
      (∃ path, request.path = some path ∧ strcmp path (bytes "/health") ≠ 0) ∧
        authorized config request = false :=
  (answeredUnauthorized_iff (workerPages_open mysql timeout site query draws) config request
    service).trans (route_unauthorized_iff config request)

end Worker

end DbSlayer.Server
