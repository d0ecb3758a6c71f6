import DbSlayer.Db.Reattach

/-! # Requests and open handles

When every call of a request is made on an open handle. The local variable of
`dbexecute` outlives the handle it names when a lost connection cannot be
replaced, and the field of a ring is null when the last attempt got no handle.
-/

namespace DbSlayer.Db

open Foundation Json

variable {δ : Type} {mysql : Mysql} {timeout : Nat}

namespace QueryOutcome

/-- Whether the server executed the query. -/
def executed : QueryOutcome → Bool
  | ok _ _ => true
  | error _ executed => executed

def failed : QueryOutcome → Bool
  | ok _ _ => false
  | error _ _ => true

/-- Whether the query failed with an error that lets it be replayed. -/
def lost : QueryOutcome → Bool
  | ok _ _ => false
  | .error report _ => connectionLost report.errno

end QueryOutcome

/-- The outcome of the next query. -/
def nextQuery (mysql : Mysql) (w : World) : QueryOutcome := mysql.query (queries w.trace)

/-- Whether a query fails is decided by its number alone. -/
theorem mysqlQuery_result (db : Option Token) (sql : Bytes) (w : World) :
    result (mysqlQuery mysql db sql) w = (nextQuery mysql w).failed := by
  simp only [mysqlQuery, result_bind, result_get, after_get, nextQuery]
  cases mysql.query (queries w.trace) <;> rfl

/-- A query is one call, which carries whether the server executed it. -/
theorem mysqlQuery_trace (db : Option Token) (sql : Bytes) (w : World) :
    (after (mysqlQuery mysql db sql) w).trace =
      w.trace ++ [.query db sql (nextQuery mysql w).executed] := by
  simp only [mysqlQuery, after_bind, result_get, after_get, nextQuery]
  cases mysql.query (queries w.trace) <;> rfl

theorem mysqlErrno_trace (db : Option Token) (w : World) :
    (after (mysqlErrno db) w).trace = w.trace ++ [.on db .errno] := rfl

/-- A failed query leaves its error on the connection, so the number that is asked for behind
it tells whether the connection was lost. -/
theorem connectionLost_errno (db : Option Token) (sql : Bytes) (w : World)
    (hfailed : (nextQuery mysql w).failed = true) :
    connectionLost (result (mysqlErrno db) (after (mysqlQuery mysql db sql) w)) =
      (nextQuery mysql w).lost := by
  simp only [mysqlErrno, mysqlQuery, result_bind, after_bind, result_get, after_get, result_pure,
    record_connection, nextQuery] at hfailed ⊢
  cases hquery : mysql.query (queries w.trace) with
  | ok first rest => simp [hquery, QueryOutcome.failed] at hfailed
  | error error executed => simp [QueryOutcome.lost]

/-! ## The query and its replay -/

/-- The world in which a failed query was met and its error read. -/
def afterLoss (mysql : Mysql) (db : Option Token) (sql : Bytes) (w : World) : World :=
  after (mysqlErrno db) (after (mysqlQuery mysql db sql) w)

/-- Behind a failed query its error number is asked for. -/
theorem afterLoss_trace (db : Option Token) (sql : Bytes) (w : World) :
    (afterLoss mysql db sql w).trace =
      w.trace ++ [.query db sql (nextQuery mysql w).executed, .on db .errno] := by
  rw [afterLoss, mysqlErrno_trace, mysqlQuery_trace, List.append_assoc]
  rfl

/-- The ways through `queryOrReplay`, with what each returns and where it ends. -/
inductive QueryPath (mysql : Mysql) (timeout : Nat) (handle : DbHandle) (db : Option Token)
    (dbserverName sql : Bytes) (w : World) : DbHandle × Option Token × Bool → World → Prop
  | ok : (nextQuery mysql w).failed = false →
      QueryPath mysql timeout handle db dbserverName sql w (handle, db, true)
        (after (mysqlQuery mysql db sql) w)
  | refused : (nextQuery mysql w).failed = true → (nextQuery mysql w).lost = false →
      QueryPath mysql timeout handle db dbserverName sql w (handle, db, false)
        (afterLoss mysql db sql w)
  | stranded {handle' : DbHandle} : (nextQuery mysql w).lost = true →
      result (dbHandleReattach mysql timeout handle dbserverName) (afterLoss mysql db sql w) =
        (handle', false) →
      QueryPath mysql timeout handle db dbserverName sql w (handle', db, false)
        (after (dbHandleReattach mysql timeout handle dbserverName) (afterLoss mysql db sql w))
  | replayed {handle' : DbHandle} {reached : World} : (nextQuery mysql w).lost = true →
      result (dbHandleReattach mysql timeout handle dbserverName) (afterLoss mysql db sql w) =
        (handle', true) →
      after (dbHandleReattach mysql timeout handle dbserverName) (afterLoss mysql db sql w) =
        reached →
      QueryPath mysql timeout handle db dbserverName sql w
        (handle', handle'.current dbserverName, !(nextQuery mysql reached).failed)
        (after (mysqlQuery mysql (handle'.current dbserverName) sql) reached)

/-- The four ways a query can go: it succeeds, it fails for good, its connection is lost and
cannot be renewed, or it is sent again. -/
theorem queryOrReplay_path (mysql : Mysql) (timeout : Nat) (handle : DbHandle) (db : Option Token)
    (dbserverName sql : Bytes) (w : World) :
    QueryPath mysql timeout handle db dbserverName sql w
      (result (queryOrReplay mysql timeout handle db dbserverName sql) w)
      (after (queryOrReplay mysql timeout handle db dbserverName sql) w) := by
  simp only [queryOrReplay, result_bind, after_bind, result_ite, after_ite, result_pure, after_pure,
    mysqlQuery_result]
  cases hfailed : (nextQuery mysql w).failed with
  | false => exact .ok hfailed
  | true =>
      rw [connectionLost_errno db sql w hfailed, ← afterLoss]
      cases hlost : (nextQuery mysql w).lost with
      | false => exact .refused hfailed hlost
      | true =>
          generalize houtcome : result (dbHandleReattach mysql timeout handle dbserverName)
            (afterLoss mysql db sql w) = outcome
          obtain ⟨handle', attached⟩ := outcome
          cases attached with
          | false => exact .stranded hlost houtcome
          | true => exact .replayed hlost houtcome rfl

/-- How `queryOrReplay` ends: at once, with an error that is reported, with a
replacement that failed, or with a replay on the replacement. -/
inductive QuerySpec (mysql : Mysql) (handle : DbHandle) (db : Option Token)
    (dbserverName sql : Bytes) (w : World) : DbHandle → Option Token → Bool → World → Prop
  | ok {w' : World} : (nextQuery mysql w).failed = false →
      w'.trace = w.trace ++ [.query db sql (nextQuery mysql w).executed] →
      QuerySpec mysql handle db dbserverName sql w handle db true w'
  | refused {w' : World} : (nextQuery mysql w).lost = false →
      w'.trace = w.trace ++ [.query db sql (nextQuery mysql w).executed, .on db .errno] →
      QuerySpec mysql handle db dbserverName sql w handle db false w'
  | stranded {w₁ w' : World} {handle' : DbHandle} : (nextQuery mysql w).lost = true →
      ¬ ReattachSucceeds mysql handle w →
      w₁.trace = w.trace ++ [.query db sql (nextQuery mysql w).executed, .on db .errno] →
      Reattached mysql handle dbserverName w₁ handle' false w' →
      QuerySpec mysql handle db dbserverName sql w handle' db false w'
  | replayed {w₁ w₂ w' : World} {handle' : DbHandle} {db' : Option Token} {ok : Bool} :
      (nextQuery mysql w).lost = true → ReattachSucceeds mysql handle w →
      w₁.trace = w.trace ++ [.query db sql (nextQuery mysql w).executed, .on db .errno] →
      Reattached mysql handle dbserverName w₁ handle' true w₂ →
      db' = handle'.current dbserverName → ok = !(nextQuery mysql w₂).failed →
      w'.trace = w₂.trace ++ [.query db' sql (nextQuery mysql w₂).executed] →
      QuerySpec mysql handle db dbserverName sql w handle' db' ok w'

/-- A query and the calls on its connection open and close nothing, so that the ledger of the
handles is as before. -/
theorem neutral_query (db : Option Token) (sql : Bytes) (executed : Bool)
    (operations : List Operation) :
    handles.Neutral (.query db sql executed :: operations.map (Call.on db)) := by
  simp [Ledger.Neutral, handles]

/-- A lost connection stays held until it is closed. -/
theorem HandleInv.afterLoss {handle : DbHandle} {w : World} (hinv : HandleInv handle w)
    (mysql : Mysql) (db : Option Token) (sql : Bytes) :
    HandleInv handle (afterLoss mysql db sql w) :=
  ⟨hinv.owned.neutral (afterLoss_trace db sql w) (neutral_query db sql _ [.errno]), hinv.offset⟩

theorem attempts_afterLoss (db : Option Token) (sql : Bytes) (w : World) :
    attempts (afterLoss mysql db sql w).trace = attempts w.trace := by
  rw [afterLoss_trace, attempts_append]
  rfl

/-- Whether a new connection can be had does not depend on the query that failed. -/
theorem reattachSucceeds_afterLoss (handle : DbHandle) (db : Option Token) (sql : Bytes)
    (w : World) :
    ReattachSucceeds mysql handle (afterLoss mysql db sql w) ↔ ReattachSucceeds mysql handle w := by
  rw [ReattachSucceeds, attempts_afterLoss]
  rfl

theorem lost_of_not_failed {outcome : QueryOutcome} (hok : outcome.failed = false) :
    outcome.lost = false := by
  cases outcome with
  | ok first rest => rfl
  | error report executed => simp [QueryOutcome.failed] at hok

/-- Each of the four ways a query can go, with the calls it makes, the handle it leaves and
what that handle holds. -/
theorem queryOrReplay_spec (mysql : Mysql) (timeout : Nat) {handle : DbHandle} {w : World}
    (hinv : HandleInv handle w) (db : Option Token) (dbserverName sql : Bytes) :
    QuerySpec mysql handle db dbserverName sql w
      (result (queryOrReplay mysql timeout handle db dbserverName sql) w).1
      (result (queryOrReplay mysql timeout handle db dbserverName sql) w).2.1
      (result (queryOrReplay mysql timeout handle db dbserverName sql) w).2.2
      (after (queryOrReplay mysql timeout handle db dbserverName sql) w) := by
  have htrace := @afterLoss_trace mysql db sql w
  have hspec := dbHandleReattach_spec mysql timeout (hinv.afterLoss mysql db sql) dbserverName
  have hattempts : ReattachSucceeds mysql handle (afterLoss mysql db sql w) ↔
      ReattachSucceeds mysql handle w := reattachSucceeds_afterLoss handle db sql w
  have hpath := queryOrReplay_path mysql timeout handle db dbserverName sql w
  generalize result (queryOrReplay mysql timeout handle db dbserverName sql) w = outcome at hpath ⊢
  generalize after (queryOrReplay mysql timeout handle db dbserverName sql) w = last at hpath ⊢
  cases hpath with
  | ok hok => exact .ok hok (mysqlQuery_trace db sql w)
  | refused _ hlost => exact .refused hlost htrace
  | stranded hlost houtcome =>
      rw [houtcome] at hspec
      have hiff := hspec.attached_iff.trans hattempts
      exact .stranded hlost (by simpa using hiff) htrace hspec
  | replayed hlost houtcome hreached =>
      rw [houtcome, hreached] at hspec
      have hiff := hspec.attached_iff.trans hattempts
      exact .replayed hlost (hiff.mp rfl) htrace hspec rfl rfl (mysqlQuery_trace _ sql _)

/-- The query that a replay sends is the second of the request. -/
theorem nextQuery_reattached {handle handle' : DbHandle} {db : Option Token}
    {dbserverName sql : Bytes} {executed attached : Bool} {w w₁ w₂ : World}
    (htrace : w₁.trace = w.trace ++ [.query db sql executed, .on db .errno])
    (hre : Reattached mysql handle dbserverName w₁ handle' attached w₂) :
    nextQuery mysql w₂ = mysql.query (queries w.trace + 1) := by
  obtain ⟨attempted, hattempted, -, hqueries⟩ := hre.quiet
  rw [nextQuery, hattempted, htrace, queries_append, queries_append, hqueries]
  rfl

/-! ## Whole requests -/

/-- When no call of a request meets a closed or a null handle. -/
def KeepsLive (mysql : Mysql) (handle : DbHandle) (injson : JsonValue δ) (w : World) : Prop :=
  match selectServer handle injson, memberString injson "SQL" with
  | .refused _, _ => True
  | .server db _, none => db.isSome = true ∨ asksServer injson = false
  | .server db _, some _ => db.isSome = true ∧
      ((nextQuery mysql w).lost = true → ReattachSucceeds mysql handle w)

/-- A selected connection is null or held. -/
theorem selectServer_held {handle : DbHandle} {injson : JsonValue δ} {db : Option Token}
    {dbserverName : Bytes} (hselect : selectServer handle injson = .server db dbserverName) :
    handle.current dbserverName = db ∧ ∀ t, db = some t → t ∈ handle.held := by
  unfold selectServer at hselect
  split at hselect
  next => simp at hselect
  next name table _ hnamed =>
    split at hselect
    next => simp at hselect
    next t hlookup =>
      simp only [Selected.server.injEq] at hselect
      obtain ⟨rfl, rfl⟩ := hselect
      refine ⟨by simp [DbHandle.current, hnamed, hlookup], fun s hs => ?_⟩
      obtain ⟨rest, hperm, -⟩ := tableTokens_replace table name
      rw [DbHandle.held, hnamed]
      exact hperm.mem_iff.mpr (by simp [hlookup, hs])
  next => simp at hselect
  next _ hsingle =>
    simp only [Selected.server.injEq] at hselect
    obtain ⟨rfl, -⟩ := hselect
    refine ⟨by rw [DbHandle.current, hsingle], fun t ht => ?_⟩
    rw [DbHandle.held, hsingle]
    simp [ht]

/-- A query and the calls behind it, on one connection that is held or null, touch a live
handle exactly when it is not null. -/
theorem guarded_query_iff {w : World} {held : List Token} (howned : Owned w held)
    {db : Option Token} (hheld : ∀ t, db = some t → t ∈ held) (sql : Bytes) (executed : Bool)
    (operations : List Operation) {tail : List Call} (htail : CallsOn db tail) :
    handles.Guarded w.trace (.query db sql executed :: operations.map (Call.on db) ++ tail) ↔
      db.isSome = true := by
  have hquery : handles.OnlyOn db (.query db sql executed :: operations.map (Call.on db)) :=
    ⟨neutral_query db sql executed operations, by simp [handles]⟩
  rw [(hquery.append htail.only).guarded_iff]
  cases db with
  | none => simpa [handles] using howned.not_live_none
  | some t => simpa using .inl ((howned.live_iff t).mpr (hheld t rfl))

variable [CDouble δ]

/-- A query and everything behind it: the calls behind the query are on the connection that it
ended on, and they start with the error if it failed. -/
theorem dbexecute_sql {handle : DbHandle} {injson : JsonValue δ} {db : Option Token}
    {dbserverName sql : Bytes} (hselect : selectServer handle injson = .server db dbserverName)
    (hsql : memberString injson "SQL" = some sql) (w : World) {handle' : DbHandle}
    {db' : Option Token} {ok : Bool} {w' : World}
    (hresult : result (queryOrReplay mysql timeout handle db dbserverName sql) w =
      (handle', db', ok))
    (hafter : after (queryOrReplay mysql timeout handle db dbserverName sql) w = w') :
    (result (dbexecute mysql timeout handle injson) w).1 = handle' ∧
      ∃ tail, (after (dbexecute mysql timeout handle injson) w).trace = w'.trace ++ tail ∧
        CallsOn db' tail ∧ (ok = false → ∃ rest, tail = .on db' .error :: rest) := by
  simp only [dbexecute, hselect, hsql, result_bind, after_bind, result_ite, after_ite, result_pure,
    after_pure, hresult, hafter]
  cases ok with
  | true =>
      obtain ⟨first, hfirst, hcalls⟩ := worksOn_publishResults dbserverName injson w'
      refine ⟨rfl, first ++ metadataCalls db' injson, ?_, ?_, by simp⟩
      · simp only [if_true]
        rw [finishReply_trace, hfirst, List.append_assoc]
      · exact (callsOn_chains db').append hcalls (callsOn_metadataCalls injson)
  | false =>
      have hnew : outHas ([] : Out δ) "MYSQL_ERROR" = false := rfl
      obtain ⟨rest, htrace, hcalls⟩ :=
        dbReportError_first hnew (handle'.reportName dbserverName) injson w'
      exact ⟨rfl, .on db' .error :: rest, htrace, hcalls, fun _ => ⟨rest, rfl⟩⟩

/-- The calls of a request. -/
def requestCalls (mysql : Mysql) (timeout : Nat) (handle : DbHandle) (injson : JsonValue δ)
    (w : World) : List Call :=
  (after (dbexecute mysql timeout handle injson) w).trace.drop w.trace.length

theorem requestCalls_eq {handle : DbHandle} {injson : JsonValue δ} {w : World} {calls : List Call}
    (htrace : (after (dbexecute mysql timeout handle injson) w).trace = w.trace ++ calls) :
    requestCalls mysql timeout handle injson w = calls := by
  rw [requestCalls, htrace, List.drop_left]

theorem requestCalls_refused {handle : DbHandle} {injson : JsonValue δ} {out : Out δ}
    (hselect : selectServer handle injson = .refused out) (w : World) :
    requestCalls mysql timeout handle injson w = [] := by
  apply requestCalls_eq
  simp [dbexecute, hselect]

/-- A request without a query only asks for metadata. -/
theorem dbexecute_metadata_trace {handle : DbHandle} {injson : JsonValue δ} {db : Option Token}
    {dbserverName : Bytes} (hselect : selectServer handle injson = .server db dbserverName)
    (hsql : memberString injson "SQL" = none) (w : World) :
    (after (dbexecute mysql timeout handle injson) w).trace =
      w.trace ++ metadataCalls db injson := by
  simp [dbexecute, hselect, hsql, finishReply_trace]

/-- A request with a query touches live handles only exactly when it starts with a connection
and, if this one is lost, gets a new one. -/
theorem dbexecute_sql_live (mysql : Mysql) (timeout : Nat) {handle : DbHandle}
    {injson : JsonValue δ} {w : World} {db : Option Token} {dbserverName sql : Bytes}
    (hinv : HandleInv handle w)
    (hselect : selectServer handle injson = .server db dbserverName)
    (hsql : memberString injson "SQL" = some sql) :
    HandleInv (result (dbexecute mysql timeout handle injson) w).1
        (after (dbexecute mysql timeout handle injson) w) ∧
      ∃ calls, (after (dbexecute mysql timeout handle injson) w).trace = w.trace ++ calls ∧
        (handles.Guarded w.trace calls ↔ db.isSome = true ∧
          ((nextQuery mysql w).lost = true → ReattachSucceeds mysql handle w)) := by
  obtain ⟨hcurrent, hheld⟩ := selectServer_held hselect
  have hspec := queryOrReplay_spec mysql timeout hinv db dbserverName sql
  generalize hresult : result (queryOrReplay mysql timeout handle db dbserverName sql) w = outcome
    at hspec
  generalize hafter : after (queryOrReplay mysql timeout handle db dbserverName sql) w = reached
    at hspec
  obtain ⟨handle', db', ok⟩ := outcome
  obtain ⟨hhandle, tail, htail, hcalls, hreport⟩ := dbexecute_sql hselect hsql w hresult hafter
  have hnil : CallsOn db [] := (callsOn_chains db).nil
  rw [hhandle]
  dsimp only at hspec
  cases hspec with
  | ok hok htrace =>
      have htail' : (after (dbexecute mysql timeout handle injson) w).trace = w.trace ++
          (.query db sql (nextQuery mysql w).executed :: [].map (Call.on db) ++ tail) := by
        rw [htail, htrace, List.append_assoc]
        rfl
      have howned := hinv.owned.neutral htrace (neutral_query db sql _ [])
      refine ⟨⟨howned.neutral htail hcalls.only.1, hinv.offset⟩, _, htail', ?_⟩
      rw [guarded_query_iff hinv.owned hheld sql _ [] hcalls]
      simp [lost_of_not_failed hok]
  | refused hlost htrace =>
      have htail' : (after (dbexecute mysql timeout handle injson) w).trace = w.trace ++
          (.query db sql (nextQuery mysql w).executed :: [.errno].map (Call.on db) ++ tail) := by
        rw [htail, htrace, List.append_assoc]
        rfl
      have howned := hinv.owned.neutral htrace (neutral_query db sql _ [.errno])
      refine ⟨⟨howned.neutral htail hcalls.only.1, hinv.offset⟩, _, htail', ?_⟩
      rw [guarded_query_iff hinv.owned hheld sql _ [.errno] hcalls]
      simp [hlost]
  | @stranded w₁ _ _ hlost hno htrace hre =>
      obtain ⟨attempted, hattempted, -, -⟩ := hre.quiet
      obtain ⟨rest, rfl⟩ := hreport rfl
      have htail' : (after (dbexecute mysql timeout handle injson) w).trace = w.trace ++
          (.query db sql (nextQuery mysql w).executed :: [.errno].map (Call.on db) ++ [] ++
            (attempted ++ .on db .error :: rest)) := by
        rw [htail, hattempted, htrace, List.append_assoc, List.append_assoc]
        rfl
      refine ⟨⟨hre.inv.owned.neutral htail hcalls.only.1, hre.inv.offset⟩, _, htail', ?_⟩
      simp only [hlost, hno, imp_false, not_true_eq_false, and_false, iff_false]
      -- the handle was closed, and the report is the first to use it again
      intro hguarded
      obtain ⟨hquery, hrest⟩ := Ledger.guarded_append.mp hguarded
      obtain ⟨t, rfl⟩ := Option.isSome_iff_exists.mp
        ((guarded_query_iff hinv.owned hheld sql _ [.errno] hnil).mp hquery)
      obtain ⟨hlive, -⟩ := (Ledger.guarded_append.mp hrest).2
      have hclosed := hre.closed t hcurrent
      rw [hattempted, htrace] at hclosed
      exact (hlive (some t) rfl).2 (.close (some t)) (by simpa using hclosed) rfl
  | @replayed w₁ w₂ _ _ _ _ hlost hyes htrace hre hdb hok htrace' =>
      obtain ⟨attempted, hattempted, hguarded, -⟩ := hre.quiet
      obtain ⟨t, ht, hcurrent'⟩ := hre.current rfl
      have hheld' : ∀ s, db' = some s → s ∈ handle'.held := by
        intro s hs
        obtain rfl : t = s := Option.some.inj (hcurrent'.symm.trans (hdb ▸ hs))
        exact ht
      have htail' : (after (dbexecute mysql timeout handle injson) w).trace = w.trace ++
          (.query db sql (nextQuery mysql w).executed :: [.errno].map (Call.on db) ++ [] ++
            (attempted ++ (.query db' sql (nextQuery mysql w₂).executed :: [].map (Call.on db') ++
              tail))) := by
        rw [htail, htrace', hattempted, htrace]
        simp
      have howned := hre.inv.owned.neutral htrace' (neutral_query db' sql _ [])
      refine ⟨⟨howned.neutral htail hcalls.only.1, hre.inv.offset⟩, _, htail', ?_⟩
      have hfirst : w.trace ++ (.query db sql (nextQuery mysql w).executed ::
          [.errno].map (Call.on db) ++ []) = w₁.trace := htrace.symm
      have hlast := (guarded_query_iff hre.inv.owned hheld' sql (nextQuery mysql w₂).executed []
        hcalls).mpr (by rw [hdb, hcurrent', Option.isSome_some])
      have hbehind := Ledger.guarded_append.mpr ⟨hguarded, hattempted ▸ hlast⟩
      rw [Ledger.guarded_append, hfirst, guarded_query_iff hinv.owned hheld sql _ [.errno] hnil]
      simp only [hbehind, hyes, implies_true]

/-- A request keeps the accounts of its handle right, and `KeepsLive` says when
all its calls are made on open handles. -/
theorem dbexecute_live {handle : DbHandle} {w : World} (hinv : HandleInv handle w)
    (injson : JsonValue δ) :
    HandleInv (result (dbexecute mysql timeout handle injson) w).1
        (after (dbexecute mysql timeout handle injson) w) ∧
      (handles.Guarded w.trace (requestCalls mysql timeout handle injson w) ↔
        KeepsLive mysql handle injson w) := by
  cases hselect : selectServer handle injson with
  | refused out =>
      rw [requestCalls_refused hselect w]
      simp only [KeepsLive, hselect, iff_true]
      exact ⟨by simpa [dbexecute, hselect] using hinv, trivial⟩
  | server db dbserverName =>
      cases hsql : memberString injson "SQL" with
      | none =>
          have htrace : (after (dbexecute mysql timeout handle injson) w).trace =
              w.trace ++ metadataCalls db injson := dbexecute_metadata_trace hselect hsql w
          have hcalls : CallsOn db (metadataCalls db injson) := callsOn_metadataCalls injson
          rw [requestCalls_eq htrace, hcalls.only.guarded_iff, metadataCalls_need_iff]
          simp only [KeepsLive, hselect, hsql]
          refine ⟨⟨?_, ?_⟩, or_congr_left ?_⟩
          · simpa [dbexecute, hselect, hsql] using hinv.owned.neutral htrace hcalls.only.1
          · simpa [dbexecute, hselect, hsql] using hinv.offset
          · obtain ⟨-, hheld⟩ := selectServer_held hselect
            cases db with
            | none => simpa using hinv.owned.not_live_none
            | some t => simpa using (hinv.owned.live_iff t).mpr (hheld t rfl)
      | some sql =>
          obtain ⟨hinv', calls, htrace, hguarded⟩ :=
            dbexecute_sql_live mysql timeout hinv hselect hsql
          rw [requestCalls_eq htrace]
          simp only [KeepsLive, hselect, hsql]
          exact ⟨hinv', hguarded⟩

/-! ## Runs -/

/-- Serve requests one after the other. -/
def serve (mysql : Mysql) (timeout : Nat) (handle : DbHandle) :
    List (JsonValue δ) → Client DbHandle
  | [] => return handle
  | injson :: rest => do
      let (handle, _) ← dbexecute mysql timeout handle injson
      serve mysql timeout handle rest

/-- A handle that is new or has served some requests. -/
def started (mysql : Mysql) (timeout : Nat) (user pass : Option Bytes) (server config : Bytes)
    (seed : Nat) (multidb : Bool) (earlier : List (JsonValue δ)) : Client DbHandle := do
  let handle ← dbHandleInit mysql timeout user pass server config seed multidb
  serve mysql timeout handle earlier

/-- The handle holds what is open after any number of requests, by induction on the requests
with the step of one. -/
theorem serve_inv {handle : DbHandle} {w : World} (hinv : HandleInv handle w)
    (requests : List (JsonValue δ)) :
    HandleInv (result (serve mysql timeout handle requests) w)
      (after (serve mysql timeout handle requests) w) := by
  induction requests generalizing handle w with
  | nil => exact hinv
  | cons injson rest ih => exact ih (dbexecute_live hinv injson).1

theorem started_inv (mysql : Mysql) (timeout : Nat) (user pass : Option Bytes)
    (server config : Bytes) (seed : Nat) (multidb : Bool) (earlier : List (JsonValue δ)) :
    HandleInv
      (result (started mysql timeout user pass server config seed multidb earlier) World.start)
      (after (started mysql timeout user pass server config seed multidb earlier) World.start) :=
  serve_inv (dbHandleInit_inv mysql timeout user pass server config seed multidb) earlier

/-- After any start and any earlier requests, every call of a request is made on
an open handle exactly when the request names no usable connection, or asks
nothing of a null handle and does not meet a lost connection that no attempt
replaces. -/
theorem dbexecute_calls_live_iff (mysql : Mysql) (timeout : Nat) (user pass : Option Bytes)
    (server config : Bytes) (seed : Nat) (multidb : Bool) (earlier : List (JsonValue δ))
    (injson : JsonValue δ) :
    let start := started mysql timeout user pass server config seed multidb earlier
    let handle := result start World.start
    let w := after start World.start
    handles.Guarded w.trace (requestCalls mysql timeout handle injson w) ↔
      KeepsLive mysql handle injson w :=
  (dbexecute_live (started_inv mysql timeout user pass server config seed multidb earlier) injson).2

/-- One server that answers the first connection and is gone from then on. -/
def outage : Mysql where
  attempt n := if n = 0 then .connected else .refused
  query _ := .error ⟨2013, bytes "Lost connection to MySQL server during query"⟩ false
  rollback _ := true
  stat _ := none
  hostInfo _ := none
  serverVersion _ := 0
  clientInfo := []
  clientVersion := 0

/-- A request that sends a query and nothing else. -/
def sqlRequest (sql : String) : JsonValue Bytes := .object [(bytes "SQL", .string (bytes sql))]

/-- When the walk behind a lost connection fails, the report of the same request reads the
error of a closed handle. -/
theorem dbexecute_outage_reports_on_closed :
    let start : Client DbHandle := started outage 30 none none (bytes "db1") (bytes "/etc/my.cnf") 0
      false ([] : List (JsonValue Bytes))
    let handle := result start World.start
    let w := after start World.start
    ¬ handles.Guarded w.trace (requestCalls outage 30 handle (sqlRequest "SELECT 1") w) := by
  intro start handle w hguarded
  have hinv : HandleInv handle w :=
    started_inv outage 30 none none (bytes "db1") (bytes "/etc/my.cnf") 0 false []
  have hkeeps := (dbexecute_live hinv (sqlRequest "SELECT 1")).2.mp hguarded
  have hselect : selectServer handle (sqlRequest "SELECT 1") = .server (some 0) (bytes "db1") := rfl
  have hsql : memberString (sqlRequest "SELECT 1") "SQL" = some (bytes "SELECT 1") := rfl
  rw [KeepsLive, hselect, hsql] at hkeeps
  -- every attempt behind the first is refused
  obtain ⟨i, -, hconnected⟩ := hkeeps.2 rfl
  have hattempts : attempts w.trace = 1 := by decide +kernel
  simp [outage, hattempts] at hconnected

end DbSlayer.Db
