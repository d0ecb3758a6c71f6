import DbSlayer.Db.Reply

/-! # Batches of statements

What a query that succeeded leaves: statements that succeed one after the other,
and an end that may be an error. The loop of `dbexecute` folds the statements
through two accumulators and publishes an array that it goes on filling.
-/

namespace DbSlayer.Db

open Foundation Json

variable {δ : Type}

/-! ## The accumulators -/

/-- What the accumulators hold after statements with these objects. -/
def Accumulated (results : Results δ) : List (JsonValue δ) → Prop
  | [] => results = ⟨none, none⟩
  | [object] => results = ⟨some object, none⟩
  | objects => results.sql.isSome = true ∧ results.all = some objects

/-- A statement without rows goes into the array, which is started if there was one result. -/
theorem accumulated_concat_affected {results : Results δ} {objects : List (JsonValue δ)}
    (hacc : Accumulated results objects) (object : JsonValue δ) :
    Accumulated ⟨some object, results.promote.all.map (· ++ [object])⟩ (objects ++ [object]) := by
  match objects with
  | [] => simp_all [Accumulated, Results.promote]
  | [first] => simp_all [Accumulated, Results.promote]
  | first :: second :: rest => simp_all [Accumulated, Results.promote]

/-- A statement with rows starts the array with the second result only. -/
theorem accumulated_concat_rows {results : Results δ} {objects : List (JsonValue δ)}
    (hacc : Accumulated results objects) (object : JsonValue δ) :
    Accumulated (if results.sql.isNone then { results with sql := some object }
      else { results.promote with all := results.promote.all.map (· ++ [object]) })
      (objects ++ [object]) := by
  match objects with
  | [] => simp_all [Accumulated]
  | [first] => simp_all [Accumulated, Results.promote]
  | first :: second :: rest =>
      obtain ⟨hsql, hall⟩ := hacc
      obtain ⟨lone, hlone⟩ := Option.isSome_iff_exists.mp hsql
      simp [Accumulated, Results.promote, hlone, hall]

/-- The array exists from the second statement on. Before that there is a single result, or
none. -/
theorem Accumulated.all_isSome {results : Results δ} {objects : List (JsonValue δ)}
    (hacc : Accumulated results objects) : results.all.isSome = decide (2 ≤ objects.length) := by
  match objects with
  | [] => simp_all [Accumulated]
  | [_] => simp_all [Accumulated]
  | _ :: _ :: _ => simp_all [Accumulated]

variable [CDouble δ]

/-! ## What a batch says -/

/-- The object for a statement without a result set. -/
def affectedObject (count insertId : UInt64) : JsonValue δ :=
  .object (objectOf [
    (bytes "SUCCESS", .boolean 1),
    (bytes "AFFECTED_ROWS", .long count.toInt64),
    (bytes "INSERT_ID", .long insertId.toInt64)])

/-- The object of a statement that succeeds. -/
def Statement.object : Statement → Option (JsonValue δ)
  | rows result => some (dbresult2json result)
  | affected count insertId => some (affectedObject count insertId)
  | failed _ => none

/-- The error of a statement that fails. -/
def Statement.error : Statement → Option MysqlError
  | failed error => some error
  | _ => none

/-- The objects of the statements up to the first that fails, in the order of their
execution. -/
def successes (current : Statement) : Batch → List (JsonValue δ)
  | .done | .failed _ => current.object.toList
  | .more next rest =>
      match (current.object : Option (JsonValue δ)) with
      | none => []
      | some object => object :: successes next rest

/-- The error that ends the batch. -/
def ending (current : Statement) : Batch → Option MysqlError
  | .done => current.error
  | .failed error => some (current.error.getD error)
  | .more next rest =>
      match current.error with
      | none => ending next rest
      | some error => some error

/-- Statements that fail have an error number other than that of success. -/
def Numbered (current : Statement) : Batch → Prop
  | .done | .failed _ => ∀ error, current.error = some error → error.errno ≠ 0
  | .more next rest =>
      (∀ error, current.error = some error → error.errno ≠ 0) ∧ Numbered next rest

/-- How the results are published: not at all, alone, or as an array. -/
def resultReply : List (JsonValue δ) → Option (Reply δ)
  | [] => none
  | [object] => some (.value object)
  | objects => some (.value (.array objects))

theorem object_or_error (statement : Statement) :
    (∃ object : JsonValue δ, statement.object = some object ∧ statement.error = none) ∨
      ∃ error, statement.object (δ := δ) = none ∧ statement.error = some error := by
  cases statement with
  | rows set => exact .inl ⟨_, rfl, rfl⟩
  | affected count insertId => exact .inl ⟨_, rfl, rfl⟩
  | failed error => exact .inr ⟨error, rfl, rfl⟩

/-! ### A batch whose current statement fails -/

/-- Behind a statement that failed there are no results. -/
theorem successes_of_error {current : Statement} (hobject : current.object (δ := δ) = none)
    (rest : Batch) : successes (δ := δ) current rest = [] := by
  cases rest <;> simp [successes, hobject]

omit [CDouble δ] in
theorem ending_of_error {current : Statement} {error : MysqlError}
    (herror : current.error = some error) (rest : Batch) : ending current rest = some error := by
  cases rest <;> simp [ending, herror]

theorem Numbered.current {current : Statement} {rest : Batch} (hnumbered : Numbered current rest)
    (error : MysqlError) (herror : current.error = some error) : error.errno ≠ 0 := by
  cases rest with
  | done | failed _ => exact hnumbered error herror
  | more next rest => exact hnumbered.1 error herror

/-! ## One statement -/

/-- Calls of `mysql_rollback`. -/
def Call.isRollback : Call → Bool
  | on _ .rollback => true
  | _ => false

def rollbacks (trace : List Call) : Nat := trace.countP Call.isRollback

@[simp] theorem rollbacks_append (first second : List Call) :
    rollbacks (first ++ second) = rollbacks first + rollbacks second := List.countP_append

/-- The head of the loop body. -/
def processStatement (db : Option Token) (results : Results δ) : Client (Option (Results δ)) := do
  let myresult ← mysqlStoreResult db
  dbprocessResult db myresult results

variable {db : Option Token} {results : Results δ} {objects : List (JsonValue δ)} {w : World}

/-- Storing a result sets the error to that of the statement. -/
theorem mysqlStoreResult_after :
    after (mysqlStoreResult db) w =
      ⟨w.trace ++ [.on db .storeResult], Function.update w.connection db
        { w.connection db with error := (w.connection db).current.error.getD .none }⟩ := by
  unfold mysqlStoreResult
  simp only [after_bind, result_get, after_get, record_connection]
  cases hcurrent : (w.connection db).current <;> rfl

/-- What `mysql_store_result` returns. -/
def Statement.set : Statement → Option ResultSet
  | rows result => some result
  | _ => none

theorem mysqlStoreResult_result :
    result (mysqlStoreResult db) w = (w.connection db).current.set := by
  unfold mysqlStoreResult
  simp only [result_bind, result_get, after_get, record_connection]
  cases hcurrent : (w.connection db).current <;> rfl

omit [CDouble δ] in
theorem dbaffected2json_result {count insertId : UInt64}
    (hcurrent : (w.connection db).current = .affected count insertId) :
    result (dbaffected2json db : Client (JsonValue δ)) w = affectedObject count insertId := by
  simp [dbaffected2json, mysqlAffectedRows, mysqlInsertId, hcurrent, affectedObject]

/-- Only calls were recorded between the worlds, none of them a rollback. -/
structure Recorded (w next : World) : Prop where
  connection : next.connection = w.connection
  rollbacks : rollbacks next.trace = rollbacks w.trace

/-- Nothing was rolled back and no connection was touched by doing nothing. -/
theorem Recorded.refl (w : World) : Recorded w w := ⟨rfl, rfl⟩

theorem Recorded.trans {w next last : World} (hfirst : Recorded w next)
    (hsecond : Recorded next last) : Recorded w last :=
  ⟨hsecond.connection.trans hfirst.connection, hsecond.rollbacks.trans hfirst.rollbacks⟩

theorem record_recorded {call : Call} (hcall : call.isRollback = false) (w : World) :
    Recorded w (after (record call) w) := by
  refine ⟨rfl, ?_⟩
  rw [record_trace, rollbacks_append]
  simp [rollbacks, hcall]

omit [CDouble δ] in
theorem dbaffected2json_after (w : World) :
    after (dbaffected2json db : Client (JsonValue δ)) w =
      after (record (.on db .insertId)) (after (record (.on db .affectedRows)) w) := by
  have hrows : ∀ w, after (mysqlAffectedRows db) w = after (record (.on db .affectedRows)) w := by
    intro w
    unfold mysqlAffectedRows
    simp only [after_bind, result_get, after_get]
    cases ((after (record (.on db .affectedRows)) w).connection db).current <;> rfl
  have hid : ∀ w, after (mysqlInsertId db) w = after (record (.on db .insertId)) w := by
    intro w
    unfold mysqlInsertId
    simp only [after_bind, result_get, after_get]
    cases ((after (record (.on db .insertId)) w).connection db).current <;> rfl
  rw [dbaffected2json, after_bind, after_bind, after_pure, hrows, hid]

omit [CDouble δ] in
theorem dbaffected2json_recorded (w : World) :
    Recorded w (after (dbaffected2json db : Client (JsonValue δ)) w) := by
  rw [dbaffected2json_after]
  exact (record_recorded rfl w).trans (record_recorded rfl _)

theorem mysqlErrno_recorded (w : World) : Recorded w (after (mysqlErrno db) w) :=
  record_recorded rfl w

theorem dbprocessResult_recorded (myresult : Option ResultSet) (w : World) :
    Recorded w (after (dbprocessResult db myresult results) w) := by
  cases myresult with
  | some set =>
      rw [dbprocessResult, after_ite]
      split <;> exact .refl w
  | none =>
      rw [dbprocessResult, after_bind, after_ite]
      split
      · exact mysqlErrno_recorded w
      · exact (mysqlErrno_recorded w).trans (@dbaffected2json_recorded δ db _)

/-- A statement leaves its own error on its connection, and rolls nothing back. -/
theorem processStatement_after :
    ((after (processStatement db results) w).connection db =
      { w.connection db with error := (w.connection db).current.error.getD .none }) ∧
    rollbacks (after (processStatement db results) w).trace = rollbacks w.trace := by
  have hrecorded := @dbprocessResult_recorded δ _ db results (result (mysqlStoreResult db) w)
    (after (mysqlStoreResult db) w)
  rw [processStatement, after_bind, hrecorded.connection, hrecorded.rollbacks,
    mysqlStoreResult_after]
  refine ⟨Function.update_self .., ?_⟩
  rw [rollbacks_append]
  rfl

omit [CDouble δ] in
/-- The number that is read behind a stored result is the one of the current statement, zero
when it did not fail. -/
theorem mysqlErrno_stored :
    result (mysqlErrno db) (after (mysqlStoreResult db) w) =
      ((w.connection db).current.error.getD .none).errno := by
  rw [mysqlStoreResult_after]
  simp [mysqlErrno]

/-- A statement that succeeds adds its object to what was accumulated, behind those of
the earlier ones. -/
theorem processStatement_object {object : JsonValue δ}
    (hobject : (w.connection db).current.object = some object)
    (hacc : Accumulated results objects) :
    ∃ next, result (processStatement db results) w = some next ∧
      Accumulated next (objects ++ [object]) := by
  cases hcurrent : (w.connection db).current with
  | rows set =>
      obtain rfl : dbresult2json set = object := by simpa [hcurrent, Statement.object] using hobject
      refine ⟨_, ?_, accumulated_concat_rows hacc (dbresult2json set)⟩
      rw [processStatement, result_bind, mysqlStoreResult_result, hcurrent]
      simp only [Statement.set, dbprocessResult, result_ite, result_pure]
      split <;> rfl
  | affected count insertId =>
      obtain rfl : affectedObject count insertId = object := by
        simpa [hcurrent, Statement.object] using hobject
      refine ⟨_, ?_, accumulated_concat_affected hacc (affectedObject count insertId)⟩
      -- The statement succeeded, so the number that is read is that of success.
      have hzero : result (mysqlErrno db) (after (mysqlStoreResult db) w) = 0 := by
        rw [mysqlErrno_stored, hcurrent]
        rfl
      have hstill : ((after (mysqlErrno db)
          (after (mysqlStoreResult db) w)).connection db).current = .affected count insertId := by
        rw [(mysqlErrno_recorded _).connection, mysqlStoreResult_after]
        simp [hcurrent]
      rw [processStatement, result_bind, mysqlStoreResult_result, hcurrent]
      simp only [Statement.set, dbprocessResult, result_bind, result_pure, hzero, ne_eq,
        not_true_eq_false, if_false, dbaffected2json_result hstill]
  | failed error => simp [hcurrent, Statement.object] at hobject

theorem processStatement_error {error : MysqlError}
    (herror : (w.connection db).current.error = some error) (hnumber : error.errno ≠ 0) :
    result (processStatement db results) w = none := by
  have hcurrent : (w.connection db).current = .failed error := by
    cases hcurrent : (w.connection db).current <;> simp_all [Statement.error]
  have herrno : result (mysqlErrno db) (after (mysqlStoreResult db) w) = error.errno := by
    rw [mysqlErrno_stored, herror]
    rfl
  rw [processStatement, result_bind, mysqlStoreResult_result, hcurrent]
  simp only [Statement.set, dbprocessResult, result_bind, result_pure, herrno, if_pos hnumber]

/-- At the end of a batch there is no next result. -/
theorem mysqlNextResult_done (hrest : (w.connection db).rest = .done) :
    result (mysqlNextResult db) w = -1 ∧
      rollbacks (after (mysqlNextResult db) w).trace = rollbacks w.trace := by
  have hrecorded : Recorded w (after (record (.on db .nextResult)) w) := record_recorded rfl w
  unfold mysqlNextResult
  simp only [after_bind, result_bind, result_get, after_get, record_connection, hrest, result_pure,
    after_pure]
  exact ⟨trivial, hrecorded.rollbacks⟩

/-- An error of the next statement is left on the connection. -/
theorem mysqlNextResult_failed {error : MysqlError}
    (hrest : (w.connection db).rest = .failed error) :
    result (mysqlNextResult db) w = 1 ∧
      ((after (mysqlNextResult db) w).connection db).error = error ∧
      rollbacks (after (mysqlNextResult db) w).trace = rollbacks w.trace := by
  have hrecorded : Recorded w (after (record (.on db .nextResult)) w) := record_recorded rfl w
  unfold mysqlNextResult
  simp only [after_bind, result_bind, result_get, after_get, record_connection, hrest, result_pure,
    after_pure, setConnection_connection, setConnection_trace, Function.update_self]
  exact ⟨trivial, trivial, hrecorded.rollbacks⟩

theorem mysqlNextResult_more {statement : Statement} {rest : Batch}
    (hrest : (w.connection db).rest = .more statement rest) :
    result (mysqlNextResult db) w = 0 ∧
      (after (mysqlNextResult db) w).connection db = ⟨.none, statement, rest⟩ ∧
      rollbacks (after (mysqlNextResult db) w).trace = rollbacks w.trace := by
  have hrecorded : Recorded w (after (record (.on db .nextResult)) w) := record_recorded rfl w
  unfold mysqlNextResult
  simp only [after_bind, result_bind, result_get, after_get, record_connection, hrest, result_pure,
    after_pure, setConnection_connection, setConnection_trace, Function.update_self]
  exact ⟨trivial, trivial, hrecorded.rollbacks⟩

/-! ## The whole batch -/

section Loop

variable {mysql : Mysql} {dbserverName : Bytes} {injson : JsonValue δ}

/-- The rest of the loop body, by what became of the statement. -/
def continueLoop (mysql : Mysql) (db : Option Token) (dbserverName : Bytes) (injson : JsonValue δ)
    (fuel : Nat) (out : Out δ) (results : Results δ) :
    Option (Results δ) → Client (Out δ × Results δ)
  | none => do
      let out ← dbReportError mysql out db dbserverName injson
      return (out, results)
  | some next => do
      let out := if results.all.isNone && next.all.isSome then objectAdd out "RESULT" .allResult
        else out
      let status ← mysqlNextResult db
      if status > 0 then
        let out ← dbReportError mysql out db dbserverName injson
        return (out, next)
      else if status = 0 then resultLoop mysql db dbserverName injson fuel out next
      else return (out, next)

theorem resultLoop_succ (fuel : Nat) (out : Out δ) :
    resultLoop mysql db dbserverName injson (fuel + 1) out results =
      processStatement db results >>=
        continueLoop mysql db dbserverName injson fuel out results := by
  rfl

/-- What every statement keeps and what an error report makes of it holds behind the loop. The
induction is on the fuel. -/
theorem resultLoop_invariant {Inv Done : Out δ → Results δ → Prop}
    (hstatement : ∀ out results w next, Inv out results →
      result (processStatement db results) w = some next →
      Inv (if results.all.isNone && next.all.isSome then objectAdd out "RESULT" .allResult
        else out) next)
    (hreport : ∀ out results w, Inv out results →
      Done (result (dbReportError mysql out db dbserverName injson) w) results)
    (hdone : ∀ out results, Inv out results → Done out results)
    (fuel : Nat) {out : Out δ} (results : Results δ) (hinv : Inv out results) (w : World) :
    Done (result (resultLoop mysql db dbserverName injson fuel out results) w).1
      (result (resultLoop mysql db dbserverName injson fuel out results) w).2 := by
  induction fuel generalizing out results w with
  | zero => exact hdone out results hinv
  | succ fuel ih =>
      rw [resultLoop_succ, result_bind]
      have hnext := hstatement out results w
      generalize after (processStatement db results) w = reached
      cases hprocessed : result (processStatement db results) w with
      | none => exact hreport out results reached hinv
      | some next =>
          have hinv' := hnext next hinv hprocessed
          simp only [continueLoop, result_bind]
          generalize after (mysqlNextResult db) reached = behind
          simp only [result_ite]
          split
          · exact hreport _ next behind hinv'
          · split
            · exact ih next hinv' behind
            · exact hdone _ next hinv'

/-- What the loop keeps of the object: anything that neither the published array nor an error
report disturbs. -/
theorem resultLoop_keeps {P : Out δ → Prop}
    (hpublish : ∀ out, P out → P (objectAdd out "RESULT" .allResult))
    (hreport : ∀ out w, P out → P (result (dbReportError mysql out db dbserverName injson) w))
    (fuel : Nat) {out : Out δ} (hout : P out) (results : Results δ) (w : World) :
    P (result (resultLoop mysql db dbserverName injson fuel out results) w).1 := by
  have hstatement : ∀ (out : Out δ) (results : Results δ) (w : World) (next : Results δ), P out →
      result (processStatement db results) w = some next →
      P (if results.all.isNone && next.all.isSome then objectAdd out "RESULT" .allResult
        else out) := by
    intro out results w next hout _
    split
    · exact hpublish out hout
    · exact hout
  exact @resultLoop_invariant δ _ db mysql dbserverName injson (fun out _ => P out)
    (fun out _ => P out) hstatement (fun out _ w hout => hreport out w hout)
    (fun _ _ hout => hout) fuel out results hout w

/-- The object as the loop leaves it without an error. -/
def published (objects : List (JsonValue δ)) : Out δ :=
  if 2 ≤ objects.length then objectAdd [] "RESULT" .allResult else []

/-- The object as the loop leaves it. -/
def reported (error : Option MysqlError) (out : Out δ) (dbserverName : Bytes)
    (injson : JsonValue δ) (failed : Bool) : Out δ :=
  match error with
  | none => out
  | some error => errorReport out error dbserverName injson failed

/-- How often an error report rolls back. -/
def rollbackCount (injson : JsonValue δ) (error : Option MysqlError) : Nat :=
  if error.isSome = true ∧ dbFlagSet injson "ROLLBACK_ON_ERROR" = true then 1 else 0

/-- What the loop comes to from here on. -/
structure LoopDone (dbserverName : Bytes) (injson : JsonValue δ) (w next : World)
    (objects : List (JsonValue δ)) (error : Option MysqlError) (outcome : Out δ × Results δ) :
    Prop where
  accumulated : Accumulated outcome.2 objects
  out : ∃ failed, outcome.1 = reported error (published objects) dbserverName injson failed
  rollbacks : rollbacks next.trace = rollbacks w.trace + rollbackCount injson error

omit [CDouble δ] in
theorem outHas_published (objects : List (JsonValue δ)) :
    outHas (published objects) "MYSQL_ERROR" = false := by
  unfold published
  split <;> rfl

omit [CDouble δ] in
/-- An error report adds the entries of its error to what was published, and rolls back once if
the request asks for it. -/
theorem dbReportError_published (objects : List (JsonValue δ)) (w : World) :
    (∃ failed, result (dbReportError mysql (published objects) db dbserverName injson) w =
      errorReport (published objects) (w.connection db).error dbserverName injson failed) ∧
    rollbacks (after (dbReportError mysql (published objects) db dbserverName injson) w).trace =
      rollbacks w.trace + rollbackCount injson (some (w.connection db).error) := by
  have hnew := outHas_published objects
  refine ⟨⟨_, dbReportError_result hnew db dbserverName injson w⟩, ?_⟩
  rw [dbReportError, if_neg (by simp [hnew]), rollbackCount]
  -- The text and the number of the error are read first.
  have hread : ∀ w, rollbacks (after (mysqlErrno db) (after (mysqlError db) w)).trace =
      rollbacks w.trace := by
    intro w
    exact ((record_recorded rfl w).trans (record_recorded rfl _)).rollbacks
  cases hflag : dbFlagSet injson "ROLLBACK_ON_ERROR" with
  | false =>
      simp only [after_bind, after_ite, after_pure]
      simpa using hread w
  | true =>
      have hrollback : ∀ w, rollbacks (after (mysqlRollback mysql db) w).trace =
          rollbacks w.trace + 1 := fun w => rollbacks_append w.trace [.on db .rollback]
      simp only [after_bind, after_ite, after_pure]
      simp [hrollback, hread]

omit [CDouble δ] in
/-- The second statement publishes the array. -/
theorem published_concat {next : Results δ} {object : JsonValue δ}
    (hacc : Accumulated results objects) (hnext : Accumulated next (objects ++ [object])) :
    (if results.all.isNone && next.all.isSome then objectAdd (published objects) "RESULT" .allResult
      else published objects) = published (objects ++ [object]) := by
  have hbefore := hacc.all_isSome
  have hafter := hnext.all_isSome
  rw [← Option.not_isSome, hbefore, hafter, List.length_append, List.length_singleton]
  unfold published
  match objects with
  | [] | [_] | _ :: _ :: _ => simp

/-- The loop publishes the objects of all statements up to the first that fails, reports its
error, and rolls back once if that is asked for. The induction is on the fuel, which the
statements do not use up. -/
theorem resultLoop_spec (fuel : Nat) (hfuel : (w.connection db).rest.length < fuel)
    (hnumbered : Numbered (w.connection db).current (w.connection db).rest)
    (hacc : Accumulated results objects) :
    LoopDone dbserverName injson w
      (after (resultLoop mysql db dbserverName injson fuel (published objects) results) w)
      (objects ++ successes (w.connection db).current (w.connection db).rest)
      (ending (w.connection db).current (w.connection db).rest)
      (result (resultLoop mysql db dbserverName injson fuel (published objects) results) w) := by
  induction fuel generalizing w results objects with
  | zero => omega
  | succ fuel ih =>
      rw [resultLoop_succ, after_bind, result_bind]
      obtain ⟨hconnection, hrollbacks⟩ := @processStatement_after δ _ db results w
      -- a failed statement ends the loop, any other adds one object
      rcases @object_or_error δ _ (w.connection db).current with
        ⟨object, hobject, herror⟩ | ⟨error, hobject, herror⟩
      · obtain ⟨next, hnext, hacc'⟩ := processStatement_object hobject hacc
        rw [hnext, continueLoop]
        generalize after (processStatement db results) w = processed at hconnection hrollbacks
        rw [herror, Option.getD_none] at hconnection
        simp only [published_concat hacc hacc', after_bind, result_bind]
        have hbehind : (processed.connection db).rest = (w.connection db).rest := by
          rw [hconnection]
        cases hrest : (w.connection db).rest with
        | done =>
            obtain ⟨hstatus, hcount⟩ := mysqlNextResult_done (hbehind.trans hrest)
            simp only [hstatus, successes, ending, hobject, herror, Option.toList_some]
            refine ⟨hacc', ⟨false, rfl⟩, ?_⟩
            exact hcount.trans hrollbacks
        | failed error =>
            obtain ⟨hstatus, hleft, hcount⟩ := mysqlNextResult_failed (hbehind.trans hrest)
            obtain ⟨⟨failed, hout⟩, hreport⟩ := @dbReportError_published δ db mysql dbserverName
              injson (objects ++ [object]) (after (mysqlNextResult db) processed)
            rw [hleft] at hout hreport
            simp only [hstatus, successes, ending, hobject, herror, Option.toList_some,
              Option.getD_none]
            refine ⟨hacc', ⟨failed, hout⟩, ?_⟩
            exact hreport.trans (by rw [hcount, hrollbacks])
        | more statement rest =>
            obtain ⟨hstatus, hleft, hcount⟩ := mysqlNextResult_more (hbehind.trans hrest)
            rw [hrest] at hnumbered hfuel
            have hfuel' : ((after (mysqlNextResult db) processed).connection db).rest.length <
                fuel := by
              rw [hleft]
              exact Nat.lt_of_succ_lt_succ hfuel
            have hnumbered' : Numbered
                ((after (mysqlNextResult db) processed).connection db).current
                ((after (mysqlNextResult db) processed).connection db).rest := by
              rw [hleft]
              exact hnumbered.2
            obtain ⟨hacc'', hout, hrest'⟩ := ih hfuel' hnumbered' hacc'
            rw [hleft, List.append_assoc, List.singleton_append] at hacc'' hout
            rw [hleft] at hrest'
            simp only [hstatus, successes, ending, hobject, herror]
            exact ⟨hacc'', hout, hrest'.trans (by rw [hcount, hrollbacks])⟩
      · have hnumber := hnumbered.current error herror
        rw [processStatement_error herror hnumber, continueLoop, after_bind, result_bind,
          successes_of_error hobject, ending_of_error herror, List.append_nil]
        generalize after (processStatement db results) w = processed at hconnection hrollbacks
        obtain ⟨⟨failed, hout⟩, hcount⟩ :=
          @dbReportError_published δ db mysql dbserverName injson objects processed
        rw [hconnection, herror, Option.getD_some] at hout hcount
        exact ⟨hacc, ⟨failed, hout⟩, by rw [after_pure, hcount, hrollbacks]⟩

/-! ## The reply -/

/-- The array that was published gets its final contents. -/
def resolve (all : List (JsonValue δ)) : Reply δ → Reply δ
  | .allResult => .value (.array all)
  | reply => reply

omit [CDouble δ] in
theorem map_resolve (all : List (JsonValue δ)) (out : Out δ) :
    (out.map fun entry => match entry.2 with
      | .allResult => (entry.1, .value (.array all))
      | _ => entry) = out.map (Prod.map id (resolve all)) := by
  apply List.map_congr_left
  rintro ⟨name, reply⟩ -
  cases reply <;> rfl

/-- The object in front of the resolution: the loop's, with a lone result and the server. -/
def completed (outcome : Out δ × Results δ) (dbserverName : Bytes) : Out δ :=
  let out := match outcome.2.sql, outcome.2.all with
    | some lone, none => objectAdd outcome.1 "RESULT" (.value lone)
    | _, _ => outcome.1
  withServer out dbserverName

/-- The array is put in the place that was published for it. -/
theorem publishResults_eq :
    result (publishResults mysql db dbserverName injson) w =
      (completed (result (resultLoop mysql db dbserverName injson
        ((w.connection db).rest.length + 1) [] ⟨none, none⟩) w) dbserverName).map
        (Prod.map id (resolve ((result (resultLoop mysql db dbserverName injson
          ((w.connection db).rest.length + 1) [] ⟨none, none⟩) w).2.all.getD []))) := by
  rw [← map_resolve]
  rfl

/-- Every entry behind the loop, with the array in its place. -/
theorem publishResults_result (key : String) :
    outGet (result (publishResults mysql db dbserverName injson) w) key =
      (outGet (completed (result (resultLoop mysql db dbserverName injson
        ((w.connection db).rest.length + 1) [] ⟨none, none⟩) w) dbserverName) key).map
        (resolve ((result (resultLoop mysql db dbserverName injson
          ((w.connection db).rest.length + 1) [] ⟨none, none⟩) w).2.all.getD [])) := by
  rw [publishResults_eq]
  exact Assoc.get_map _ (bytes key) _

omit [CDouble δ] in
/-- Behind the loop only the result and the server are added. -/
theorem outGet_completed {outcome : Out δ × Results δ} {key : String}
    (hresult : KeysDiffer key "RESULT") (hserver : KeysDiffer key "SERVER") :
    outGet (completed outcome dbserverName) key = outGet outcome.1 key := by
  rw [completed, outGet_withServer hserver]
  split
  · exact outGet_objectAdd_of_ne hresult _ _
  · rfl

variable {next : World} {error : Option MysqlError} {outcome : Out δ × Results δ}

omit [CDouble δ] in
/-- What the loop published is not touched by an error report. -/
theorem LoopDone.outGet_result (hdone : LoopDone dbserverName injson w next objects error outcome) :
    outGet outcome.1 "RESULT" = if 2 ≤ objects.length then some .allResult else none := by
  obtain ⟨failed, hout⟩ := hdone.out
  have hpublished : outGet (published objects) "RESULT" =
      if 2 ≤ objects.length then some .allResult else none := by
    unfold published
    split
    · exact outGet_objectAdd_self _ _ _
    · rfl
  rw [hout, ← hpublished]
  cases error with
  | none => rfl
  | some error => exact outGet_errorReport (by decide) _ _ _ _ _

omit [CDouble δ] in
/-- The error of the loop is the one that is reported: the first one of the batch, as the loop
ends with it. -/
theorem LoopDone.errorEntries (hdone : LoopDone dbserverName injson w next objects error outcome) :
    ErrorEntries error outcome.1 := by
  obtain ⟨failed, hout⟩ := hdone.out
  rw [hout]
  cases error with
  | none =>
      simp only [reported, published]
      split
      · exact errorEntries_nil.objectAdd (by decide) (by decide) (by decide) _
      · exact errorEntries_nil
  | some error => exact errorEntries_errorReport _ _ _ _ _

omit [CDouble δ] in
/-- One result is itself, several are an array, and none is none. -/
theorem LoopDone.resultReply (hdone : LoopDone dbserverName injson w next objects error outcome) :
    (outGet (completed outcome dbserverName) "RESULT").map (resolve (outcome.2.all.getD [])) =
      resultReply objects := by
  have hget := hdone.outGet_result
  have hacc := hdone.accumulated
  rw [completed, outGet_withServer (by decide)]
  match objects with
  | [] =>
      simp only [Accumulated] at hacc
      simp_all [DbSlayer.Db.resultReply]
  | [object] =>
      simp only [Accumulated] at hacc
      simp [hacc, outGet_objectAdd_self, DbSlayer.Db.resultReply, resolve]
  | first :: second :: rest =>
      obtain ⟨hsql, hall⟩ := hacc
      obtain ⟨lone, hlone⟩ := Option.isSome_iff_exists.mp hsql
      simp [hlone, hall, hget, DbSlayer.Db.resultReply, resolve]

end Loop

omit [CDouble δ] in
/-- The entries of an error are none of those that are added behind the loop. -/
theorem ErrorEntries.resolve {error : Option MysqlError} {out last : Out δ}
    (hentries : ErrorEntries error out)
    (hkept : ∀ key, KeysDiffer key "RESULT" → KeysDiffer key "SERVER" → KeysDiffer key "ERROR" →
      (∀ used ∈ metadataKeys, KeysDiffer key used) →
      ∃ all, outGet last key = (outGet out key).map (resolve all)) :
    ErrorEntries error last := by
  constructor
  · obtain ⟨all, hget⟩ := hkept "SUCCESS" (by decide) (by decide) (by decide) (by decide)
    rw [hget, hentries.success]
    cases error <;> rfl
  · obtain ⟨all, hget⟩ := hkept "MYSQL_ERROR" (by decide) (by decide) (by decide) (by decide)
    rw [hget, hentries.text]
    cases error <;> rfl
  · obtain ⟨all, hget⟩ := hkept "MYSQL_ERRNO" (by decide) (by decide) (by decide) (by decide)
    rw [hget, hentries.errno]
    cases error <;> rfl

/-- A query that succeeds leaves its batch on the connection, and the handle as it was. -/
theorem queryOrReplay_ok {mysql : Mysql} {first : Statement} {rest : Batch}
    (hquery : mysql.query (queries w.trace) = .ok first rest) (timeout : Nat) (handle : DbHandle)
    (dbserverName sql : Bytes) :
    result (queryOrReplay mysql timeout handle db dbserverName sql) w = (handle, db, true) ∧
      after (queryOrReplay mysql timeout handle db dbserverName sql) w =
        ⟨w.trace ++ [.query db sql true],
          Function.update w.connection db ⟨.none, first, rest⟩⟩ := by
  have hcall : result (mysqlQuery mysql db sql) w = false ∧ after (mysqlQuery mysql db sql) w =
      ⟨w.trace ++ [.query db sql true], Function.update w.connection db ⟨.none, first, rest⟩⟩ := by
    unfold mysqlQuery
    simp only [result_bind, after_bind, result_get, after_get, hquery]
    exact ⟨rfl, rfl⟩
  simp [queryOrReplay, hcall.1, hcall.2]

omit [CDouble δ] in
theorem rollbacks_metadataCalls (injson : JsonValue δ) :
    rollbacks (metadataCalls db injson) = 0 := by
  have hflag : ∀ (key : String) (call : Call), call.isRollback = false →
      rollbacks (if dbFlagSet injson key then [call] else []) = 0 := by
    intro key call hcall
    split <;> simp [rollbacks, hcall]
  simp only [metadataCalls, rollbacks_append]
  rw [hflag _ _ rfl, hflag _ _ rfl, hflag _ _ rfl, hflag _ _ rfl, hflag _ _ rfl]

/-- The object behind an answered query has the results and the error of its batch, and the
calls that make it roll back once if that is asked for. -/
theorem finishReply_published {mysql : Mysql} {first : Statement} {rest : Batch}
    (dbserverName : Bytes) (injson : JsonValue δ)
    (hconnection : w.connection db = ⟨.none, first, rest⟩) (hnumbered : Numbered first rest) :
    let published := after (publishResults mysql db dbserverName injson) w
    let reply := finishReply mysql db dbserverName injson
      (result (publishResults mysql db dbserverName injson) w)
    outGet (result reply published) "RESULT" = resultReply (successes first rest) ∧
      ErrorEntries (ending first rest) (result reply published) ∧
      rollbacks (after reply published).trace =
        rollbacks w.trace + rollbackCount injson (ending first rest) := by
  have hdone := @resultLoop_spec δ _ db ⟨none, none⟩ [] w mysql dbserverName injson
    ((w.connection db).rest.length + 1) (Nat.lt_succ_self _) (by rw [hconnection]; exact hnumbered)
    rfl
  rw [show published ([] : List (JsonValue δ)) = [] from rfl, List.nil_append, hconnection] at hdone
  refine ⟨?_, hdone.errorEntries.resolve ?_, ?_⟩
  · rw [outGet_finishReply (by decide) (by decide), publishResults_result, hconnection]
    exact hdone.resultReply
  · intro key hresult hserver herror hmetadata
    rw [outGet_finishReply herror hmetadata, publishResults_result, hconnection,
      outGet_completed hresult hserver]
    exact ⟨_, rfl⟩
  · rw [finishReply_trace, rollbacks_append, rollbacks_metadataCalls, Nat.add_zero,
      ← hdone.rollbacks, ← hconnection]
    rfl

/-- The results of a batch are complete and in order, its error is reported, and it is
rolled back once if that is asked for. -/
theorem dbexecute_batch (mysql : Mysql) (timeout : Nat) (handle : DbHandle) (injson : JsonValue δ)
    (w : World) (db : Option Token) (dbserverName sql : Bytes) (first : Statement) (rest : Batch)
    (hselect : selectServer handle injson = .server db dbserverName)
    (hsql : memberString injson "SQL" = some sql)
    (hquery : mysql.query (queries w.trace) = .ok first rest) (hnumbered : Numbered first rest) :
    outGet (result (dbexecute mysql timeout handle injson) w).2 "RESULT" =
        resultReply (successes first rest) ∧
      ErrorEntries (ending first rest) (result (dbexecute mysql timeout handle injson) w).2 ∧
      rollbacks (after (dbexecute mysql timeout handle injson) w).trace =
        rollbacks w.trace + rollbackCount injson (ending first rest) := by
  obtain ⟨hresult, hafter⟩ := @queryOrReplay_ok db w mysql first rest hquery timeout handle
    dbserverName sql
  simp only [dbexecute, hselect, hsql, result_bind, after_bind, hresult, hafter, if_true,
    result_pure, after_pure]
  generalize hw' : (⟨w.trace ++ [.query db sql true],
    Function.update w.connection db ⟨.none, first, rest⟩⟩ : World) = w'
  have hconnection : w'.connection db = ⟨.none, first, rest⟩ := by simp [← hw']
  have hqueried : rollbacks w'.trace = rollbacks w.trace := by
    simp [← hw', rollbacks, Call.isRollback]
  rw [← hqueried]
  exact finishReply_published dbserverName injson hconnection hnumbered

/-- A server whose batch fails behind its second statement. -/
def batchServer : Mysql where
  attempt _ := .connected
  query _ := .ok (.affected 1 7) (.more (.rows ⟨[⟨bytes "n", .long, 63⟩], [[some (bytes "1")]]⟩)
    (.failed ⟨1064, bytes "You have an error in your SQL syntax"⟩))
  rollback _ := false
  stat _ := none
  hostInfo _ := none
  serverVersion _ := 0
  clientInfo := []
  clientVersion := 0

/-- A batch that is to be rolled back. -/
def batchRequest : JsonValue Bytes :=
  .object [(bytes "ROLLBACK_ON_ERROR", .boolean 1),
    (bytes "SQL", .string (bytes "INSERT INTO t VALUES (1); SELECT 1 AS n; SELEC"))]

def batchHandle : DbHandle where
  user := none
  pass := none
  config := bytes "/etc/my.cnf"
  server := [bytes "db1"]
  serverOffset := 0
  db := some 0
  dblookup := none

theorem dbexecute_batch_failing :
    rollbacks (after (dbexecute batchServer 30 batchHandle batchRequest) World.start).trace = 1 ∧
      outGet (result (dbexecute batchServer 30 batchHandle batchRequest) World.start).2 "RESULT" =
        some (.value (.array [affectedObject 1 7,
          dbresult2json ⟨[⟨bytes "n", .long, 63⟩], [[some (bytes "1")]]⟩])) := by
  have hbatch := dbexecute_batch batchServer 30 batchHandle batchRequest World.start (some 0)
    (bytes "db1") _ _ _ rfl rfl rfl (by simp [Numbered, Statement.error])
  exact ⟨hbatch.2.2.trans (by decide), hbatch.1⟩

end DbSlayer.Db
