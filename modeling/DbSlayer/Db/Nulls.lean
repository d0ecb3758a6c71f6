import DbSlayer.Db.Attribution

/-! # Null strings in a reply

`mysql_stat` and `mysql_get_host_info` may answer a null pointer, which
`json_string_create` passes on. What the library answers depends on how many
calls were made before, so the calls of a request up to its metadata are
counted first.
-/

namespace DbSlayer.Db

open Foundation Json

variable {δ : Type} {mysql : Mysql} {timeout : Nat}

/-! ## What every entry of a reply has -/

/-- Every entry of the object has the property. -/
def Every (P : Reply δ → Prop) (out : Out δ) : Prop := ∀ entry ∈ out, P entry.2

section Every

variable {P : Reply δ → Prop} {out : Out δ}

theorem every_nil : Every P ([] : Out δ) := by simp [Every]

/-- An entry that is added has to have the property, the others have it already. -/
theorem every_objectAdd_iff (key : String) (reply : Reply δ) :
    Every P (objectAdd out key reply) ↔ Every P out ∧ P reply := by
  have hperm : (objectAdd out key reply).Perm ((bytes key, reply) :: out) :=
    List.perm_orderedInsert _ _ _
  simp only [Every, hperm.mem_iff, List.forall_mem_cons]
  exact and_comm

theorem Every.objectAdd (hout : Every P out) (key : String) {reply : Reply δ} (hreply : P reply) :
    Every P (objectAdd out key reply) :=
  (every_objectAdd_iff key reply).mpr ⟨hout, hreply⟩

/-- An answer adds an entry exactly when its flag is set. -/
theorem every_answerFlag_iff (injson : JsonValue δ) (key : String) (answer : Client (Reply δ))
    (w : World) :
    Every P (result (answerFlag injson key answer out) w) ↔
      Every P out ∧ (dbFlagSet injson key = true → P (result answer w)) := by
  rw [answerFlag, result_ite]
  split
  next hset =>
    rw [result_bind, result_pure, every_objectAdd_iff]
    simp [hset]
  next hset => simp [hset]

/-- A flag whose answer has the property anyway, whether it is set or not. -/
theorem every_answerFlag {answer : Client (Reply δ)} (hanswer : ∀ w, P (result answer w))
    (injson : JsonValue δ) (key : String) (w : World) :
    Every P (result (answerFlag injson key answer out) w) ↔ Every P out := by
  simp [every_answerFlag_iff, hanswer]

/-! A property that all texts and values have is one of every entry but the answers to STAT and
HOST_INFO, which may be null pointers. -/

variable (hstring : ∀ text, P (.string (some text))) (hvalue : ∀ json, P (.value json))

include hstring in
theorem Every.withServer (hout : Every P out) (dbserverName : Bytes) :
    Every P (withServer out dbserverName) := by
  unfold DbSlayer.Db.withServer
  split
  · exact hout
  · exact hout.objectAdd "SERVER" (hstring _)

include hstring hvalue in
theorem Every.dbReportError (hout : Every P out) (db : Option Token) (dbserverName : Bytes)
    (injson : JsonValue δ) (w : World) :
    Every P (result (dbReportError mysql out db dbserverName injson) w) := by
  cases hnew : outHas out "MYSQL_ERROR" with
  | true =>
      rw [DbSlayer.Db.dbReportError, if_pos hnew]
      exact hout
  | false =>
      rw [dbReportError_result hnew, errorReport]
      have hreport : ∀ (text : Bytes) (errno : Nat), Every P (DbSlayer.Db.withServer
          (DbSlayer.Db.objectAdd (DbSlayer.Db.objectAdd (DbSlayer.Db.objectAdd out "SUCCESS"
            (.value (.boolean 0))) "MYSQL_ERROR" (.string (some text))) "MYSQL_ERRNO"
            (.value (.long (Int64.ofNat errno)))) dbserverName) := by
        intro text errno
        refine Every.withServer hstring ?_ dbserverName
        exact ((hout.objectAdd "SUCCESS" (hvalue _)).objectAdd "MYSQL_ERROR"
          (hstring _)).objectAdd "MYSQL_ERRNO" (hvalue _)
      dsimp only
      split
      · exact ((hreport _ _).objectAdd "ROLLBACK_ON_ERROR" (hvalue _)).objectAdd
          "ROLLBACK_ON_ERROR_SUCCESS" (hvalue _)
      · exact hreport _ _

include hstring hvalue in
/-- The results and the error of a batch. The place that the loop keeps for the array needs no
property, since it is filled behind the loop. -/
theorem every_publishResults [CDouble δ] (db : Option Token) (dbserverName : Bytes)
    (injson : JsonValue δ) (w : World) :
    Every P (result (publishResults mysql db dbserverName injson) w) := by
  let kept : Reply δ → Prop := fun reply => reply = .allResult ∨ P reply
  have hstring' : ∀ text, kept (.string (some text)) := fun text => .inr (hstring text)
  have hvalue' : ∀ json, kept (.value json) := fun json => .inr (hvalue json)
  have hloop : Every kept (result (resultLoop mysql db dbserverName injson
      ((w.connection db).rest.length + 1) [] ⟨none, none⟩) w).1 :=
    resultLoop_keeps (P := Every kept) (fun _ hout => hout.objectAdd "RESULT" (.inl rfl))
      (fun _ w hout => hout.dbReportError hstring' hvalue' db dbserverName injson w) _ every_nil _ w
  have hcompleted : ∀ outcome : Out δ × Results δ, Every kept outcome.1 →
      Every kept (completed outcome dbserverName) := by
    intro outcome hout
    unfold completed
    split
    · exact (hout.objectAdd "RESULT" (hvalue' _)).withServer hstring' dbserverName
    · exact hout.withServer hstring' dbserverName
  intro entry hentry
  rw [publishResults_eq] at hentry
  obtain ⟨⟨key, reply⟩, hbefore, rfl⟩ := List.mem_map.mp hentry
  have hreply := hcompleted _ hloop (key, reply) hbefore
  cases reply with
  | allResult => exact hvalue _
  | value json => exact hvalue json
  | string text => exact hreply.resolve_left nofun

include hstring hvalue in
/-- A refused server is reported without a call, by texts. -/
theorem every_refused {handle : DbHandle} {injson : JsonValue δ}
    (hselect : selectServer handle injson = .refused out) : Every P out := by
  unfold selectServer at hselect
  split at hselect
  next =>
    obtain rfl := Selected.refused.inj hselect
    exact every_nil.objectAdd "ERROR" (hstring _)
  next =>
    split at hselect
    next =>
      obtain rfl := Selected.refused.inj hselect
      exact (every_nil.objectAdd "ERROR" (hstring _)).objectAdd "SERVER" (hvalue _)
    next => simp at hselect
  next =>
    obtain rfl := Selected.refused.inj hselect
    exact every_nil.objectAdd "ERROR" (hstring _)
  next => simp at hselect

/-! With the null pointers, the property is one of every entry. -/

variable (hstrings : ∀ value, P (.string value))

include hstrings hvalue in
theorem Every.finishReply (hout : Every P out) (db : Option Token) (dbserverName : Bytes)
    (injson : JsonValue δ) (w : World) :
    Every P (result (finishReply mysql db dbserverName injson out) w) := by
  have hmetadata : Every P (result (dbprocessMetadata mysql db injson out dbserverName) w) := by
    simp only [dbprocessMetadata, result_bind]
    rw [every_answerFlag fun _ => hvalue _, every_answerFlag fun _ => hstrings _,
      every_answerFlag fun _ => hvalue _, every_answerFlag fun _ => hvalue _,
      every_answerFlag fun _ => hvalue _, every_answerFlag fun _ => hstrings _,
      every_answerFlag fun _ => hstrings _, every_answerFlag fun _ => hstrings _]
    exact hout
  simp only [DbSlayer.Db.finishReply, result_bind, result_pure]
  split
  · exact hmetadata.objectAdd "ERROR" (hstrings _)
  · exact hmetadata

include hstrings hvalue in
/-- A property of all texts, null pointers and values is one of every entry of a reply. -/
theorem every_dbexecute [CDouble δ] (handle : DbHandle) (injson : JsonValue δ) (w : World) :
    Every P (result (dbexecute mysql timeout handle injson) w).2 := by
  have htexts : ∀ text, P (.string (some text)) := fun text => hstrings (some text)
  unfold dbexecute
  split
  next out hselect => exact every_refused htexts hvalue hselect
  next db dbserverName hselect =>
    split
    next => exact every_nil.finishReply hvalue hstrings db dbserverName injson w
    next sql _ =>
      simp only [result_bind, result_ite]
      split
      next =>
        exact (every_publishResults htexts hvalue _ _ _ _).finishReply hvalue hstrings _ _ _ _
      next => exact every_nil.dbReportError htexts hvalue _ _ _ _

end Every

/-! ## Null pointers -/

/-- A string that is a null pointer. -/
def Reply.isNull : Reply δ → Bool
  | string none => true
  | _ => false

/-- No string of the object is a null pointer. -/
def NullFree (out : Out δ) : Prop := ∀ entry ∈ out, entry.2.isNull = false

instance (out : Out δ) : Decidable (NullFree out) :=
  inferInstanceAs (Decidable (∀ entry ∈ out, entry.2.isNull = false))

theorem nullFree_iff_every (out : Out δ) :
    NullFree out ↔ Every (fun reply => reply.isNull = false) out := Iff.rfl

/-! ## The metadata -/

/-- One of the two calls of the metadata answers a null pointer, the first of the calls being
made behind `position` others. -/
def NullAt (mysql : Mysql) (injson : JsonValue δ) (position : Nat) : Prop :=
  dbFlagSet injson "STAT" = true ∧ mysql.stat position = none ∨
    dbFlagSet injson "HOST_INFO" = true ∧
      mysql.hostInfo (position + (dbFlagSet injson "STAT").toNat +
        (dbFlagSet injson "CLIENT_INFO").toNat) = none

instance (injson : JsonValue δ) (position : Nat) : Decidable (NullAt mysql injson position) :=
  inferInstanceAs (Decidable (_ ∨ _))

theorem isNull_string (value : Option Bytes) :
    (Reply.string value : Reply δ).isNull = false ↔ value ≠ none := by
  cases value <;> simp [Reply.isNull]

theorem length_answerFlag {answer : Client (Reply δ)} {call : Call}
    (hanswer : ∀ w, (after answer w).trace = w.trace ++ [call]) (injson : JsonValue δ)
    (key : String) (out : Out δ) (w : World) :
    (after (answerFlag injson key answer out) w).trace.length =
      w.trace.length + (dbFlagSet injson key).toNat := by
  rw [answerFlag_trace hanswer]
  cases dbFlagSet injson key <;> simp

/-- The two strings that MySQL may leave null are asked for at known calls, counted from the
first introspection call. -/
theorem nullFree_dbprocessMetadata_iff (db : Option Token) (injson : JsonValue δ) (out : Out δ)
    (dbserverName : Bytes) (w : World) :
    NullFree (result (dbprocessMetadata mysql db injson out dbserverName) w) ↔
      NullFree out ∧ ¬ NullAt mysql injson w.trace.length := by
  have hstat : ∀ w, result (Reply.string <$> mysqlStat mysql db : Client (Reply δ)) w =
      .string (mysql.stat w.trace.length) := fun _ => rfl
  have hhost : ∀ w, result (Reply.string <$> mysqlGetHostInfo mysql db : Client (Reply δ)) w =
      .string (mysql.hostInfo w.trace.length) := fun _ => rfl
  simp only [dbprocessMetadata, result_bind, nullFree_iff_every]
  rw [every_answerFlag (fun _ => rfl), every_answerFlag (fun _ => rfl),
    every_answerFlag (fun _ => rfl), every_answerFlag (fun _ => rfl),
    every_answerFlag (fun _ => rfl), every_answerFlag_iff, every_answerFlag (fun _ => rfl),
    every_answerFlag_iff, hstat, hhost, isNull_string, isNull_string,
    @length_answerFlag δ _ .clientInfo (fun _ => rfl),
    @length_answerFlag δ _ (.on db .stat) (fun _ => rfl), NullAt]
  tauto

/-- The text of an empty reply is no null pointer. -/
theorem nullFree_finishReply_iff (db : Option Token) (dbserverName : Bytes) (injson : JsonValue δ)
    (out : Out δ) (w : World) :
    NullFree (result (finishReply mysql db dbserverName injson out) w) ↔
      NullFree out ∧ ¬ NullAt mysql injson w.trace.length := by
  rw [← nullFree_dbprocessMetadata_iff db injson out dbserverName w]
  simp only [finishReply, result_bind, result_pure]
  split
  · rw [nullFree_iff_every, every_objectAdd_iff]
    exact and_iff_left rfl
  · rfl

/-! ## How many calls a batch takes -/

/-- How many calls are made for a statement before the next result is asked for. -/
def Statement.calls : Statement → Nat
  | rows _ => 1
  | affected _ _ => 4
  | failed error => if error.errno = 0 then 4 else 2

/-- Whether the loop stops at a statement. -/
def Statement.breaks : Statement → Bool
  | failed error => error.errno ≠ 0
  | _ => false

/-- How many calls an error report takes. -/
def reportCalls (injson : JsonValue δ) : Nat :=
  if dbFlagSet injson "ROLLBACK_ON_ERROR" then 3 else 2

/-- How many calls the loop makes. -/
def batchCalls (injson : JsonValue δ) (current : Statement) : Batch → Nat
  | .done => current.calls + if current.breaks then reportCalls injson else 1
  | .failed _ =>
      current.calls + if current.breaks then reportCalls injson else 1 + reportCalls injson
  | .more next rest =>
      current.calls + if current.breaks then reportCalls injson else 1 + batchCalls injson next rest

/-- A statement that breaks the batch is the last one that is worked off. -/
theorem batchCalls_of_breaks {current : Statement} (hbreaks : current.breaks = true)
    (injson : JsonValue δ) (rest : Batch) :
    batchCalls injson current rest = current.calls + reportCalls injson := by
  cases rest <;> simp [batchCalls, hbreaks]

/-- An error report takes two calls, and one more for a rollback. -/
theorem length_dbReportError {out : Out δ} (hnew : outHas out "MYSQL_ERROR" = false)
    (db : Option Token) (dbserverName : Bytes) (injson : JsonValue δ) (w : World) :
    (after (dbReportError mysql out db dbserverName injson) w).trace.length =
      w.trace.length + reportCalls injson := by
  rw [dbReportError, if_neg (by simp [hnew]), reportCalls]
  cases hflag : dbFlagSet injson "ROLLBACK_ON_ERROR" with
  | false => simp [mysqlError, mysqlErrno]
  | true => simp [mysqlError, mysqlErrno, mysqlRollback]

theorem mysqlNextResult_trace (db : Option Token) (w : World) :
    (after (mysqlNextResult db) w).trace = w.trace ++ [.on db .nextResult] := by
  unfold mysqlNextResult
  simp only [after_bind, result_get, after_get, record_connection]
  cases (w.connection db).rest <;> rfl

section Loop

variable [CDouble δ] {db : Option Token} {w : World} {dbserverName : Bytes} {injson : JsonValue δ}

/-- How many calls a statement takes, and whether the batch goes on behind it. -/
theorem processStatement_calls (results : Results δ) :
    (after (processStatement db results) w).trace.length =
        w.trace.length + (w.connection db).current.calls ∧
      (result (processStatement db results) w).isNone = (w.connection db).current.breaks := by
  have hstored : (after (mysqlStoreResult db) w).trace.length = w.trace.length + 1 := by
    rw [mysqlStoreResult_after]
    simp
  have haffected : ∀ w, (after (dbaffected2json db : Client (JsonValue δ)) w).trace.length =
      w.trace.length + 2 := by
    intro w
    rw [dbaffected2json_after]
    simp
  have herrno : ∀ w, (after (mysqlErrno db) w).trace.length = w.trace.length + 1 := by
    intro w
    rw [mysqlErrno_trace]
    simp
  have hnone : ∀ number, result (mysqlErrno db) (after (mysqlStoreResult db) w) = number →
      (after (dbprocessResult db none results) (after (mysqlStoreResult db) w)).trace.length =
          w.trace.length + (if number = 0 then 4 else 2) ∧
        (result (dbprocessResult db none results) (after (mysqlStoreResult db) w)).isNone =
          decide (number ≠ 0) := by
    intro number hnumber
    simp only [dbprocessResult, after_bind, result_bind, after_ite, result_ite, after_pure,
      result_pure, hnumber]
    by_cases hzero : number = 0
    · simp [hzero, haffected, herrno, hstored]
    · simp [hzero, herrno, hstored]
  rw [processStatement, after_bind, result_bind, mysqlStoreResult_result]
  cases hcurrent : (w.connection db).current with
  | rows set =>
      simp only [Statement.set, dbprocessResult, after_ite, result_ite, after_pure, result_pure,
        Statement.calls, Statement.breaks]
      split <;> simp [hstored]
  | affected count insertId => exact hnone 0 (by rw [mysqlErrno_stored, hcurrent]; rfl)
  | failed error => exact hnone error.errno (by rw [mysqlErrno_stored, hcurrent]; rfl)

/-- How many calls a batch takes. The induction is on the fuel of the loop, of which every
statement takes one. -/
theorem length_resultLoop (fuel : Nat) (hfuel : (w.connection db).rest.length < fuel) {out : Out δ}
    (hnew : outHas out "MYSQL_ERROR" = false) (results : Results δ) :
    (after (resultLoop mysql db dbserverName injson fuel out results) w).trace.length =
      w.trace.length + batchCalls injson (w.connection db).current (w.connection db).rest := by
  -- into a reply that has an error already, nothing is reported and no call is made
  induction fuel generalizing w out results with
  | zero => omega
  | succ fuel ih =>
      obtain ⟨hconnection, -⟩ := @processStatement_after δ _ db results w
      obtain ⟨hlength, hbreaks⟩ := @processStatement_calls δ _ db w results
      rw [resultLoop_succ, after_bind]
      generalize after (processStatement db results) w = processed at hconnection hlength ⊢
      cases hnext : result (processStatement db results) w with
      | none =>
          rw [hnext, Option.isNone_none] at hbreaks
          rw [continueLoop, after_bind, after_pure, length_dbReportError hnew, hlength,
            batchCalls_of_breaks hbreaks.symm, Nat.add_assoc]
      | some next =>
          rw [hnext, Option.isNone_some] at hbreaks
          have hnew' : outHas (if results.all.isNone && next.all.isSome then
              objectAdd out "RESULT" .allResult else out) "MYSQL_ERROR" = false := by
            split
            · rw [outHas_eq, outGet_objectAdd_of_ne (by decide)]
              exact hnew
            · exact hnew
          have hlast : (after (mysqlNextResult db) processed).trace.length =
              w.trace.length + (w.connection db).current.calls + 1 := by
            rw [mysqlNextResult_trace, List.length_append, hlength]
            rfl
          have hbehind : (processed.connection db).rest = (w.connection db).rest := by
            rw [hconnection]
          simp only [continueLoop, after_bind]
          generalize (if results.all.isNone && next.all.isSome then
            objectAdd out "RESULT" .allResult else out) = out' at hnew' ⊢
          cases hrest : (w.connection db).rest with
          | done =>
              obtain ⟨hstatus, -⟩ := mysqlNextResult_done (hbehind.trans hrest)
              simp only [hstatus, batchCalls, ← hbreaks]
              simp [hlast, Nat.add_assoc]
          | failed error =>
              obtain ⟨hstatus, -, -⟩ := mysqlNextResult_failed (hbehind.trans hrest)
              simp only [hstatus, batchCalls, ← hbreaks]
              simp [length_dbReportError hnew', hlast, Nat.add_assoc]
          | more statement rest =>
              obtain ⟨hstatus, hleft, -⟩ := mysqlNextResult_more (hbehind.trans hrest)
              rw [hrest] at hfuel
              have hfuel' : ((after (mysqlNextResult db) processed).connection db).rest.length <
                  fuel := by
                rw [hleft]
                exact Nat.lt_of_succ_lt_succ hfuel
              have htail := ih hfuel' hnew' next
              rw [hleft, hlast] at htail
              simp only [hstatus, batchCalls, ← hbreaks]
              simpa [Nat.add_assoc] using htail

theorem length_publishResults {first : Statement} {rest : Batch}
    (hconnection : w.connection db = ⟨.none, first, rest⟩) :
    (after (publishResults mysql db dbserverName injson) w).trace.length =
      w.trace.length + batchCalls injson first rest := by
  have hloop := @length_resultLoop δ mysql _ db w dbserverName injson
    ((w.connection db).rest.length + 1) (Nat.lt_succ_self _) [] rfl ⟨none, none⟩
  have hlast : after (publishResults mysql db dbserverName injson) w =
      after (resultLoop mysql db dbserverName injson ((w.connection db).rest.length + 1) []
        ⟨none, none⟩) w := rfl
  rw [hlast, hloop, hconnection]

end Loop

/-! ## How many calls a reattachment takes -/

/-- How many calls an attempt takes, with a handle to close or without one. -/
def attemptCalls (held : Bool) : Attempt → Nat
  | .noHandle => held.toNat + 1
  | .refused | .connected => held.toNat + 6

/-- How many calls it takes to try `count` servers, up to the first that is connected. -/
def ringCalls (mysql : Mysql) (held : Bool) (start : Nat) : (count : Nat) → Nat
  | 0 => 0
  | count + 1 => attemptCalls held (mysql.attempt start) +
      if mysql.attempt start = .connected then 0
      else ringCalls mysql (decide (mysql.attempt start ≠ .noHandle)) (start + 1) count

theorem length_renewHandle (old : Option Token) (w : World) :
    (after (renewHandle mysql old) w).trace.length = w.trace.length + old.isSome.toNat + 1 := by
  cases old <;> simp [renewHandle, mysqlClose, mysqlInit]

/-- An attempt takes a call for what it closes and one for the new handle, and the five that
prepare and connect it if it gets one. -/
theorem length_attemptAt (old : Option Token) (config server : Bytes) (user pass : Option Bytes)
    (w : World) :
    (after (attemptAt mysql timeout old config server user pass) w).trace.length =
      w.trace.length + attemptCalls old.isSome (mysql.attempt (attempts w.trace)) := by
  simp only [attemptAt, after_bind, after_ite, after_pure, renewHandle_result]
  cases hattempt : mysql.attempt (attempts w.trace) <;>
    simp [tokenAt, hattempt, attemptCalls, length_renewHandle, connectTo_trace, Nat.add_assoc]

/-- A walk takes the calls of its attempts, up to the first that connects. -/
theorem length_ringLoop (cts : List Nat) (handle : DbHandle) (w : World) :
    (after (ringLoop mysql timeout cts handle) w).trace.length =
      w.trace.length + ringCalls mysql handle.db.isSome (attempts w.trace) cts.length := by
  induction cts generalizing handle w with
  | nil => rfl
  | cons ct rest ih =>
      have hlength := @length_attemptAt mysql timeout handle.db handle.config (handle.serverAt ct)
        handle.user handle.pass w
      have hspec := @attemptAt_spec mysql timeout handle.db handle.config (handle.serverAt ct)
        handle.user handle.pass w
      simp only [ringLoop, ringAttempt_eq, after_bind, result_bind, after_pure, result_pure,
        attemptAt_result, List.length_cons, ringCalls]
      by_cases hok : mysql.attempt (attempts w.trace) = .connected
      · simp [hok, hlength]
      · have hheld : (tokenAt mysql (attempts w.trace)).isSome =
            decide (mysql.attempt (attempts w.trace) ≠ .noHandle) := by
          unfold tokenAt
          split <;> simp_all
        simp only [hok, decide_false, Bool.false_eq_true, if_false]
        rw [ih, hspec.attempts, hlength, hheld, Nat.add_assoc]

theorem length_dbHandleReattach {handle : DbHandle} {w : World} (hinv : HandleInv handle w)
    (dbserverName : Bytes) :
    (after (dbHandleReattach mysql timeout handle dbserverName) w).trace.length =
      w.trace.length + ringCalls mysql (handle.current dbserverName).isSome (attempts w.trace)
        handle.ringLength := by
  cases hmode : handle.dblookup with
  | none =>
      rw [after, dbHandleReattach_ring mysql timeout hmode, ← after, length_ringLoop,
        handle.length_ring (Nat.le_of_lt hinv.offset), DbHandle.current, hmode,
        DbHandle.ringLength, hmode]
  | some table =>
      rw [dbHandleReattach_named_eq mysql timeout hmode]
      simp only [after_bind, after_pure, length_attemptAt, DbHandle.current, hmode,
        DbHandle.ringLength, ringCalls, ite_self, Nat.add_zero]

/-! ## Requests -/

/-- A request reaches its metadata, and a call of the metadata answers a null pointer. -/
def NullAnswer (mysql : Mysql) (handle : DbHandle) (injson : JsonValue δ) (w : World) : Prop :=
  match selectServer handle injson, memberString injson "SQL" with
  | .refused _, _ => False
  | .server _ _, none => NullAt mysql injson w.trace.length
  | .server db _, some _ =>
      match mysql.query (queries w.trace) with
      | .ok first rest => NullAt mysql injson (w.trace.length + 1 + batchCalls injson first rest)
      | .error error _ => connectionLost error.errno = true ∧ ReattachSucceeds mysql handle w ∧
          match mysql.query (queries w.trace + 1) with
          | .ok first rest => NullAt mysql injson (w.trace.length + 3 +
              ringCalls mysql db.isSome (attempts w.trace) handle.ringLength +
              batchCalls injson first rest)
          | .error _ _ => False

theorem mysqlQuery_connection {db : Option Token} {w : World} {first : Statement} {rest : Batch}
    (hquery : mysql.query (queries w.trace) = .ok first rest) (sql : Bytes) :
    (after (mysqlQuery mysql db sql) w).connection db = ⟨.none, first, rest⟩ := by
  simp [mysqlQuery, hquery]

section Requests

variable [CDouble δ]

/-- Behind a query that succeeded, only the metadata can put a null pointer in the reply. -/
theorem nullFree_behind_iff {db : Option Token} {w : World} {first : Statement} {rest : Batch}
    (hconnection : w.connection db = ⟨.none, first, rest⟩) (dbserverName : Bytes)
    (injson : JsonValue δ) :
    NullFree (result (finishReply mysql db dbserverName injson
        (result (publishResults mysql db dbserverName injson) w))
        (after (publishResults mysql db dbserverName injson) w)) ↔
      ¬ NullAt mysql injson (w.trace.length + batchCalls injson first rest) := by
  rw [nullFree_finishReply_iff, length_publishResults hconnection]
  exact and_iff_right ((nullFree_iff_every _).mpr
    (every_publishResults (fun _ => rfl) (fun _ => rfl) db dbserverName injson w))

/-- A null pointer in the reply to a query comes from the introspection, whose place in the
trace is counted by how the query ends. -/
theorem nullFree_sql_iff {handle : DbHandle} {injson : JsonValue δ} {w : World}
    {db : Option Token} {dbserverName sql : Bytes} (hinv : HandleInv handle w)
    (hselect : selectServer handle injson = .server db dbserverName)
    (hsql : memberString injson "SQL" = some sql) :
    NullFree (result (dbexecute mysql timeout handle injson) w).2 ↔
      ¬ NullAnswer mysql handle injson w := by
  obtain ⟨hcurrent, -⟩ := selectServer_held hselect
  have hloss := @afterLoss_trace mysql db sql w
  have hspec := dbHandleReattach_spec mysql timeout (hinv.afterLoss mysql db sql) dbserverName
  have hsucceeds : ReattachSucceeds mysql handle (afterLoss mysql db sql w) ↔
      ReattachSucceeds mysql handle w := reattachSucceeds_afterLoss handle db sql w
  have hpath := queryOrReplay_path mysql timeout handle db dbserverName sql w
  have hreport : ∀ (handle' : DbHandle) (db' : Option Token) (w' : World),
      NullFree (result (dbReportError mysql ([] : Out δ) db' (handle'.reportName dbserverName)
        injson) w') := by
    intro handle' db' w'
    exact (nullFree_iff_every _).mpr
      (every_nil.dbReportError (fun _ => rfl) (fun _ => rfl) db' _ injson w')
  simp only [dbexecute, hselect, hsql, result_bind, result_ite, result_pure, NullAnswer]
  generalize result (queryOrReplay mysql timeout handle db dbserverName sql) w = outcome at hpath ⊢
  generalize after (queryOrReplay mysql timeout handle db dbserverName sql) w = last at hpath ⊢
  cases hpath with
  | ok hok =>
      cases hquery : mysql.query (queries w.trace) with
      | error error executed => simp [nextQuery, hquery, QueryOutcome.failed] at hok
      | ok first rest =>
          have hlength : (after (mysqlQuery mysql db sql) w).trace.length = w.trace.length + 1 := by
            simp [mysqlQuery_trace]
          simp only [if_true]
          rw [nullFree_behind_iff (mysqlQuery_connection hquery sql), hlength]
  | refused hfailed hlost =>
      cases hquery : mysql.query (queries w.trace) with
      | ok first rest => simp [nextQuery, hquery, QueryOutcome.failed] at hfailed
      | error error executed =>
          rw [nextQuery, hquery] at hlost
          simpa [show connectionLost error.errno = false from hlost] using hreport _ _ _
  | stranded hlost houtcome =>
      cases hquery : mysql.query (queries w.trace) with
      | ok first rest => simp [nextQuery, hquery, QueryOutcome.lost] at hlost
      | error error executed =>
          rw [houtcome] at hspec
          have hno : ¬ ReattachSucceeds mysql handle w := by
            simpa using hspec.attached_iff.trans hsucceeds
          simpa [hno] using hreport _ _ _
  | @replayed handle' reached hlost houtcome hreached =>
      cases hquery : mysql.query (queries w.trace) with
      | ok first rest => simp [nextQuery, hquery, QueryOutcome.lost] at hlost
      | error error executed =>
          rw [houtcome, hreached] at hspec
          have hyes : ReattachSucceeds mysql handle w := (hspec.attached_iff.trans hsucceeds).mp rfl
          have hsecond := nextQuery_reattached hloss hspec
          rw [nextQuery, hquery] at hlost
          simp only [show connectionLost error.errno = true from hlost, hyes, true_and, hsecond]
          cases hreplay : mysql.query (queries w.trace + 1) with
          | error error executed => simpa [QueryOutcome.failed] using hreport _ _ _
          | ok first rest =>
              -- the lost query, its error number and the replay, with the attempts between
              have hlength : (after (mysqlQuery mysql (handle'.current dbserverName) sql)
                  reached).trace.length = w.trace.length + 3 +
                    ringCalls mysql db.isSome (attempts w.trace) handle.ringLength := by
                rw [mysqlQuery_trace, ← hreached, List.length_append,
                  length_dbHandleReattach (hinv.afterLoss mysql db sql), attempts_afterLoss, hloss,
                  hcurrent, List.length_append]
                simp only [List.length_cons, List.length_nil]
                omega
              simp only [QueryOutcome.failed, Bool.not_false, if_true]
              rw [nullFree_behind_iff (mysqlQuery_connection (hsecond.trans hreplay) sql), hlength]

/-- No string of a reply is a null pointer exactly when the request does not reach its
metadata, or the metadata is not answered by one. -/
theorem nullFree_dbexecute_iff {handle : DbHandle} {w : World} (hinv : HandleInv handle w)
    (injson : JsonValue δ) :
    NullFree (result (dbexecute mysql timeout handle injson) w).2 ↔
      ¬ NullAnswer mysql handle injson w := by
  cases hselect : selectServer handle injson with
  | refused out =>
      have hfree : NullFree out :=
        (nullFree_iff_every _).mpr (every_refused (fun _ => rfl) (fun _ => rfl) hselect)
      simpa [dbexecute, hselect, NullAnswer] using hfree
  | server db dbserverName =>
      cases hsql : memberString injson "SQL" with
      | none =>
          simp only [dbexecute, hselect, hsql, result_bind, result_pure, NullAnswer]
          rw [nullFree_finishReply_iff]
          exact and_iff_right ((nullFree_iff_every _).mpr every_nil)
      | some sql => exact nullFree_sql_iff hinv hselect hsql

/-- The same after any start and any earlier requests. -/
theorem dbexecute_null_free_iff (mysql : Mysql) (timeout : Nat) (user pass : Option Bytes)
    (server config : Bytes) (seed : Nat) (multidb : Bool) (earlier : List (JsonValue δ))
    (injson : JsonValue δ) :
    let start := started mysql timeout user pass server config seed multidb earlier
    let handle := result start World.start
    let w := after start World.start
    NullFree (result (dbexecute mysql timeout handle injson) w).2 ↔
      ¬ NullAnswer mysql handle injson w := by
  intro start handle w
  exact nullFree_dbexecute_iff
    (started_inv mysql timeout user pass server config seed multidb earlier) injson

end Requests

/-- A server that is never reached. -/
def deadServer : Mysql where
  attempt _ := .refused
  query _ := .error ⟨2006, bytes "MySQL server has gone away"⟩ false
  rollback _ := true
  stat _ := none
  hostInfo _ := none
  serverVersion _ := 0
  clientInfo := bytes "8.0.36"
  clientVersion := 80036

/-- With no server to be reached, asking for the host of the connection puts a null pointer in
the reply. -/
theorem dbexecute_null_host_info :
    let start : Client DbHandle := started deadServer 30 none none (bytes "db1")
      (bytes "/etc/my.cnf") 0 false ([] : List (JsonValue Bytes))
    let handle := result start World.start
    let w := after start World.start
    ¬ NullFree (result (dbexecute deadServer 30 handle
      (.object [(bytes "HOST_INFO", .boolean 1)] : JsonValue Bytes)) w).2 := by
  decide +kernel

end DbSlayer.Db
