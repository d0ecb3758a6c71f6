import DbSlayer.Server.Service

/-! # Two ways to ask

A form and an object with the same members are the same statement. Whoever asks in one
way is answered like whoever asks in the other, and MySQL cannot tell them apart.
-/

namespace DbSlayer.Server

open DbSlayer.Db DbSlayer.Http DbSlayer.Json DbSlayer.Skip Foundation

variable {δ : Type}

def formMember (field : FormField) : Bytes × JsonValue δ := (field.name, .string field.value)

/-- The object with the fields of a form. -/
def formValue (fields : List FormField) : JsonValue δ := .object (objectOf (fields.map formMember))

/-- Names that are there once. -/
structure Distinct (fields : List FormField) : Prop where
  names : (fields.map FormField.name).Nodup
  few : fields.length < 2 ^ 32

/-- The nodes of a form with distinct names are the members of its object. -/
theorem dbformStatement_formText {fields : List FormField} (hdistinct : Distinct fields)
    (draws : Nat → Nat) :
    ∃ form, dbformStatement (δ := δ) (some (formText fields)) draws =
      some (form, objectOf (fields.map formMember)) := by
  obtain ⟨form, hform, hentries⟩ := parseQstring_hasEntries (some (formText fields)) draws
  rw [qstringPairs_formText] at hentries
  have hpairs : (Assoc.ofPairs strcmp (fields.map FormField.pair)).map
      (Prod.map id jsonStringCreate) = objectOf (fields.map (formMember (δ := δ))) := by
    rw [← Assoc.ofPairs_map, List.map_map]
    have hmember : Prod.map id jsonStringCreate ∘ FormField.pair = formMember (δ := δ) := by
      funext field
      simp [FormField.pair, formMember, jsonStringCreate, cstr_of_nulFree field.value_free]
    rw [hmember]
    rfl
  have hfew : (Assoc.ofPairs strcmp (fields.map FormField.pair)).length < 2 ^ 32 := by
    rw [(Assoc.ofPairs_perm (fields.map FormField.pair)).length_eq, List.length_map]
    exact hdistinct.few
  have hobject := formObject_eq (δ := δ) hentries hfew
  rw [← Assoc.ofPairs_map, hpairs] at hobject
  have hstrict : (objectOf (fields.map (formMember (δ := δ)))).Pairwise fun left right =>
      strcmp left.1 right.1 < 0 := by
    refine objectOf_strict ?_ fun member hmember => ?_
    · rw [List.map_map]
      exact hdistinct.names
    · obtain ⟨field, -, rfl⟩ := List.mem_map.mp hmember
      exact field.nulFree_name
  have hself : objectOf (objectOf (fields.map (formMember (δ := δ)))) =
      objectOf (fields.map formMember) := objectOf_eq_self hstrict
  exact ⟨form, dbformStatement_eq hform (hobject.trans (congrArg some hself))⟩

/-! ## What can be told apart -/

/-- What a worker leaves, without the request lines of the log. -/
structure Outcome where
  handle : Option DbHandle
  world : World
  dbErrorsTotal : UInt32
  messages : List Bytes
  responses : List Response
  crashed : Bool

def Service.outcome (service : Service) : Outcome where
  handle := service.handle
  world := service.world
  dbErrorsTotal := service.dbErrorsTotal
  messages := service.errorLog.map Prod.snd
  responses := service.responses
  crashed := service.crashed

section Alike

variable {service other : Service} {request request' : DbRequest}

/-- Two services have the same outcome when they agree on all but the logged request lines. -/
theorem outcome_eq_iff : service.outcome = other.outcome ↔
    service.handle = other.handle ∧ service.world = other.world ∧
      service.dbErrorsTotal = other.dbErrorsTotal ∧
      service.errorLog.map Prod.snd = other.errorLog.map Prod.snd ∧
      service.responses = other.responses ∧ service.crashed = other.crashed := by
  rw [Service.outcome, Service.outcome, Outcome.mk.injEq]

theorem outcome_respond (hsame : service.outcome = other.outcome) (response : Response) :
    (service.respond response).outcome = (other.respond response).outcome := by
  obtain ⟨hhandle, hworld, htotal, hmessages, hresponses, hcrashed⟩ := outcome_eq_iff.mp hsame
  exact outcome_eq_iff.mpr
    ⟨hhandle, hworld, htotal, hmessages, congrArg (· ++ [response]) hresponses, hcrashed⟩

theorem outcome_logErrMessage (hsame : service.outcome = other.outcome) (message : Bytes) :
    (service.logErrMessage request message).outcome =
      (other.logErrMessage request' message).outcome := by
  obtain ⟨hhandle, hworld, htotal, hmessages, hresponses, hcrashed⟩ := outcome_eq_iff.mp hsame
  refine outcome_eq_iff.mpr ⟨hhandle, hworld, htotal, ?_, hresponses, hcrashed⟩
  simp only [Service.logErrMessage, List.map_append, List.map_cons, List.map_nil, hmessages]

theorem outcome_noteErrors (hsame : service.outcome = other.outcome) (out : Out δ) :
    (service.noteErrors request out).outcome = (other.noteErrors request' out).outcome := by
  unfold Service.noteErrors
  cases outGet out "MYSQL_ERROR" with
  | none => exact hsame
  | some errors =>
      have htotal : service.dbErrorsTotal = other.dbErrorsTotal :=
        congrArg Outcome.dbErrorsTotal hsame
      obtain ⟨hhandle, hworld, -, hmessages, hresponses, hcrashed⟩ := outcome_eq_iff.mp
        (@outcome_logErrMessage service other request request' hsame
          (bytes "ERROR: " ++ errorText errors))
      exact outcome_eq_iff.mpr
        ⟨hhandle, hworld, congrArg (· + 1) htotal, hmessages, hresponses, hcrashed⟩

variable [CDouble δ] {mysql : Mysql} {timeout : Nat}

theorem outcome_write (hsame : service.outcome = other.outcome) (stmt : JsonValue δ)
    (out : Out δ) : (service.write stmt out).outcome = (other.write stmt out).outcome := by
  unfold Service.write
  cases outJson out with
  | some json => exact outcome_respond hsame _
  | none =>
      obtain ⟨hhandle, hworld, htotal, hmessages, hresponses, -⟩ := outcome_eq_iff.mp hsame
      exact outcome_eq_iff.mpr ⟨hhandle, hworld, htotal, hmessages, hresponses, rfl⟩

theorem outcome_executed (hsame : service.outcome = other.outcome) (handle : DbHandle)
    (stmt : JsonValue δ) :
    (service.executed mysql timeout handle stmt).outcome =
      (other.executed mysql timeout handle stmt).outcome := by
  obtain ⟨-, hworld, htotal, hmessages, hresponses, hcrashed⟩ := outcome_eq_iff.mp hsame
  simp only [Service.outcome, Service.executed, hworld, htotal, hmessages, hresponses, hcrashed]

/-- Requests with one statement leave the same outcome, whichever entrance they came by: the
handler is the same behind the decoding. -/
theorem dbjsonHandler_outcome (hsame : service.outcome = other.outcome)
    (hstatement : request.statement (δ := δ) = request'.statement) :
    (dbjsonHandler δ mysql timeout service request).outcome =
      (dbjsonHandler δ mysql timeout other request').outcome := by
  have hreject : ∀ refusal : Refusal, (service.reject request refusal).outcome =
      (other.reject request' refusal).outcome := fun refusal =>
    outcome_respond (outcome_logErrMessage hsame refusal.message) _
  have hhandle : service.handle = other.handle := congrArg Outcome.handle hsame
  have hworld : service.world = other.world := congrArg Outcome.world hsame
  unfold dbjsonHandler
  rw [hstatement, hhandle]
  split
  next entries _ =>
    cases other.handle with
    | none => exact hreject unparsed
    | some handle =>
        simp only [Service.execute, hworld]
        exact outcome_write (outcome_noteErrors (outcome_executed hsame handle _) _) _ _
  next => exact hreject rootNoObject
  next => exact hreject unparsed

/-- Requests with the same statements, one after the other, leave the same outcome. The
induction is on the requests. -/
theorem lastState_outcome {requests requests' : List DbRequest}
    (hstatements : List.Forall₂ (fun request request' : DbRequest =>
      request.statement (δ := δ) = request'.statement) requests requests')
    (hsame : service.outcome = other.outcome) :
    (lastState (Service.step δ mysql timeout) service requests).outcome =
      (lastState (Service.step δ mysql timeout) other requests').outcome := by
  induction hstatements generalizing service other with
  | nil => exact hsame
  | @cons request request' rest rest' hstatement _ ih =>
      have hcrashed : service.crashed = other.crashed := congrArg Outcome.crashed hsame
      rw [lastState, lastState, Service.step, Service.step, hcrashed]
      cases other.crashed with
      | true => exact hsame
      | false => exact ih (dbjsonHandler_outcome hsame hstatement)

end Alike

/-! ## Forms and objects -/

/-- The same members as a form and as an object: the names as they are, the values in any
encoding, and the object as any text of it in any encoding. -/
structure SameMembers (δ : Type) [CDouble δ] (form object : DbRequest) : Prop where
  form_path : strcmp form.path (bytes "/dbform") = 0
  object_path : strcmp object.path (bytes "/dbform") ≠ 0
  members : ∃ fields query, Distinct fields ∧ form.query = some (formText fields) ∧
    object.query = some query ∧ Sends query (formValue (δ := δ) fields) ∧ query.length < 2 ^ 31

/-- Requests with the same members give the same statement at both entrances, one from the
fields of its form and the other from the object in its query. -/
theorem SameMembers.statement_eq [CDouble δ] {form object : DbRequest}
    (hmembers : SameMembers δ form object) :
    form.statement (δ := δ) = object.statement := by
  obtain ⟨fields, query, hdistinct, hform, hobject, hquery, hsize⟩ := hmembers.members
  obtain ⟨parsed, hparsed⟩ := dbformStatement_formText (δ := δ) hdistinct form.draws
  rw [DbRequest.statement, if_pos hmembers.form_path, hform, hparsed, DbRequest.statement,
    if_neg hmembers.object_path, hobject, dbStatement_sends hquery hsize]
  rfl

/-- A client that sends forms is answered like one that sends the same members as objects, by
any worker, and with the same calls of MySQL. -/
theorem dbform_agrees_with_db [CDouble δ] (mysql : Mysql) (timeout : Nat) (service : Service)
    (forms objects : List DbRequest) (hmembers : List.Forall₂ (SameMembers δ) forms objects) :
    (lastState (Service.step δ mysql timeout) service forms).outcome =
      (lastState (Service.step δ mysql timeout) service objects).outcome :=
  lastState_outcome (hmembers.imp fun _ _ hsame => hsame.statement_eq) rfl

theorem sql_ne_nil : bytes "SQL" ≠ [] := by decide

theorem sql_name_bytes : ∀ c ∈ bytes "SQL", c ≠ ch '&' ∧ c ≠ ch '=' ∧ c ≠ 0 := by decide +kernel

def selectFields : List FormField :=
  [⟨bytes "SQL", bytes "SELECT 1", bytes "SELECT+1", sql_ne_nil, sql_name_bytes, by decide,
    .literal (by decide) (by decide) (.literal (by decide) (by decide)
      (.literal (by decide) (by decide) (.literal (by decide) (by decide)
        (.literal (by decide) (by decide) (.literal (by decide) (by decide)
          (.plus (.literal (by decide) (by decide) .nil))))))), by decide⟩]

/-- A text of the same members. -/
def selectText : Bytes := bytes "\x7b\"SQL\":\"SELECT 1\"\x7d"

/-- The object of the example says what its form says. -/
theorem selectText_sends : Sends selectText (formValue (δ := Bytes) selectFields) := by
  have htext : TextOf jsonMaxDepth (.object [(bytes "SQL", .string (bytes "SELECT 1"))])
      selectText :=
    textOf_member (stringBody_plain (by decide +kernel)) (stringBody_plain (by decide +kernel))
  exact ⟨selectText, _, by decide +kernel, htext, rfl, percentEncoded_literal (by decide +kernel)⟩

/-- One query, sent both ways: as a field of a form and as an object. -/
theorem dbform_agrees_with_db_select :
    (lastState (Service.step Bytes batchServer 30) (.start batchServer 30 ringConfig 0)
        [dbRequest "/dbform" (some (formText selectFields))]).outcome =
      (lastState (Service.step Bytes batchServer 30) (.start batchServer 30 ringConfig 0)
        [dbRequest "/db" (some selectText)]).outcome := by
  have hmembers : SameMembers Bytes (dbRequest "/dbform" (some (formText selectFields)))
      (dbRequest "/db" (some selectText)) :=
    ⟨by decide, by decide, selectFields, selectText, ⟨by decide +kernel, by decide⟩, rfl, rfl,
      selectText_sends, by decide⟩
  exact dbform_agrees_with_db batchServer 30 _ _ _ (.cons hmembers .nil)

end DbSlayer.Server
