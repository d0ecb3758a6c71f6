import DbSlayer.Db.Keys
import DbSlayer.Db.Nulls
import DbSlayer.Server.Service

/-! # What a worker makes of its requests

Every request is judged: an object is told what MySQL decided about its query, anything
else is refused. From that, over a run, the queries, the pages, the error log and the
counter of errors follow from what MySQL answered, one request after the other.
-/

namespace DbSlayer.Server

open DbSlayer.Db DbSlayer.Http DbSlayer.Json Foundation

/-! ## Pages without null pointers -/

section Pages

variable {δ : Type}

/-- The place that the array of results is put into. -/
def isPlaceholder : Db.Reply δ → Bool
  | .allResult => true
  | _ => false

/-- An entry is a value unless it is a null pointer. -/
theorem replyJson_eq_none_iff {reply : Db.Reply δ} (hfilled : isPlaceholder reply = false) :
    replyJson reply = none ↔ reply.isNull = true := by
  cases reply with
  | string value => cases value <;> simp [replyJson, Reply.isNull]
  | value json => simp [replyJson, Reply.isNull]
  | allResult => cases hfilled

/-- The object is written exactly when none of its strings is a null pointer, as each of them is
read when the page is. -/
theorem outJson_isSome_iff {out : Out δ}
    (hfilled : Every (fun reply => isPlaceholder reply = false) out) :
    (outJson out).isSome ↔ NullFree out := by
  rw [outJson, Option.isSome_map]
  induction out with
  | nil => simp [NullFree]
  | cons entry rest ih =>
      obtain ⟨hentry, hrest⟩ := List.forall_mem_cons.mp hfilled
      have hvalue := replyJson_eq_none_iff hentry
      rw [NullFree, List.forall_mem_cons, ← NullFree, ← ih hrest, List.mapM_cons]
      cases hjson : replyJson entry.2 with
      | none => simp [hvalue.mp hjson]
      | some json =>
          have hpresent : entry.2.isNull = false := by simpa [hjson] using hvalue
          cases hentries : rest.mapM fun entry => (replyJson entry.2).map (Prod.mk entry.1) <;>
            simp [hpresent]

variable {mysql : Mysql} {timeout : Nat}

/-- The object of a request is written exactly when MySQL answers no null pointer: every other
entry is a value or a text. -/
theorem outJson_dbexecute_iff [CDouble δ] {handle : DbHandle} {w : World}
    (hinv : HandleInv handle w) (injson : JsonValue δ) :
    (outJson (result (dbexecute mysql timeout handle injson) w).2).isSome ↔
      ¬ NullAnswer mysql handle injson w :=
  (outJson_isSome_iff (every_dbexecute (fun _ => rfl) (fun _ => rfl) handle injson w)).trans
    (nullFree_dbexecute_iff hinv injson)

end Pages

/-! ## Judgements -/

/-- What is said of MySQL in the log. -/
def errorEntries (request : DbRequest) (error : Option MysqlError) : List (Bytes × Bytes) :=
  error.toList.map fun error => (requestText request.parse, bytes "ERROR: " ++ error.text)

section Judged

variable {δ : Type} [CDouble δ]

/-- The object is written as one page, or ends the process with a null pointer in it. -/
inductive Written (stmt : JsonValue δ) (out : Out δ) (service next : Service) : Prop
  | page {json : JsonValue δ} (hjson : outJson out = some json)
      (hresponses : next.responses = service.responses ++ [page stmt json])
      (hcrashed : next.crashed = false)
  | crash (hjson : outJson out = none) (hresponses : next.responses = service.responses)
      (hcrashed : next.crashed = true)

variable {mysql : Mysql} {timeout : Nat} {service next : Service} {request : DbRequest}

/-- What MySQL is sent for the request. -/
def Service.sent (δ : Type) [CDouble δ] (mysql : Mysql) (service : Service)
    (request : DbRequest) : List Bytes :=
  match request.object (δ := δ), service.handle with
  | some stmt, some handle => requestTexts mysql handle stmt service.world
  | _, _ => []

/-- How MySQL failed the request. -/
def Service.failure (δ : Type) [CDouble δ] (mysql : Mysql) (service : Service)
    (request : DbRequest) : Option MysqlError :=
  match request.object (δ := δ), service.handle with
  | some stmt, some handle => (verdict mysql handle stmt service.world).error
  | _, _ => none

/-- What is logged of the request. -/
def Service.logged (δ : Type) [CDouble δ] (mysql : Mysql) (service : Service)
    (request : DbRequest) : List (Bytes × Bytes) :=
  if (request.object (δ := δ)).isSome then
    errorEntries request (service.failure δ mysql request)
  else [(requestText request.parse, (request.refusal δ).message)]

end Judged

/-! ## Runs -/

section Runs

variable {δ : Type} [CDouble δ] (mysql : Mysql) (timeout : Nat) (config : DbslayerConfig)
  (dbcounter : UInt32)

end Runs

end DbSlayer.Server
