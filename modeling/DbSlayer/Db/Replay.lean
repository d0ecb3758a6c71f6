import DbSlayer.Db.Liveness

/-! # How often a request is applied

A query whose connection is lost is sent again to the replacement. The error
does not say whether the server had executed it.
-/

namespace DbSlayer.Db

open Foundation Json

variable {δ : Type} [CDouble δ]

/-- A query that a server executed. -/
def Call.isExecution : Call → Bool
  | query _ _ executed => executed
  | _ => false

/-- How many queries of a trace were executed, on any server. -/
def executions (calls : List Call) : Nat := calls.countP Call.isExecution

@[simp] theorem executions_append (first second : List Call) :
    executions (first ++ second) = executions first + executions second := List.countP_append

theorem executions_le_queries (calls : List Call) : executions calls ≤ queries calls := by
  refine List.countP_mono_left fun call _ hexecution => ?_
  cases call with
  | query db sql executed => rfl
  | _ => simp [Call.isExecution] at hexecution

theorem executions_eq_zero {calls : List Call} (hqueries : queries calls = 0) :
    executions calls = 0 :=
  Nat.le_zero.mp (hqueries ▸ executions_le_queries calls)

/-- The query was executed although its connection was lost, a replacement is
found, and the replay is executed as well. -/
def ReplaysExecuted (mysql : Mysql) (handle : DbHandle) (injson : JsonValue δ) (w : World) :
    Prop :=
  match selectServer handle injson, memberString injson "SQL" with
  | .server _ _, some _ =>
      (nextQuery mysql w).lost = true ∧ (nextQuery mysql w).executed = true ∧
        ReattachSucceeds mysql handle w ∧ (mysql.query (queries w.trace + 1)).executed = true
  | _, _ => False

theorem executions_query (db : Option Token) (sql : Bytes) (executed : Bool)
    (operations : List Operation) :
    executions (.query db sql executed :: operations.map (Call.on db)) = executed.toNat := by
  have hoperations : executions (operations.map (Call.on db)) = 0 := by
    simp [executions, List.countP_map, Function.comp_def, Call.isExecution]
  rw [← List.singleton_append, executions_append, hoperations]
  cases executed <;> rfl

/-- How often a request with a query is executed, by how the query ends. -/
theorem executions_sql (mysql : Mysql) (timeout : Nat) {handle : DbHandle} {injson : JsonValue δ}
    {w : World} {db : Option Token} {dbserverName sql : Bytes} (hinv : HandleInv handle w)
    (hselect : selectServer handle injson = .server db dbserverName)
    (hsql : memberString injson "SQL" = some sql) :
    executions (requestCalls mysql timeout handle injson w) =
      (nextQuery mysql w).executed.toNat +
        if (nextQuery mysql w).lost = true ∧ ReattachSucceeds mysql handle w then
          (mysql.query (queries w.trace + 1)).executed.toNat else 0 := by
  have hspec := queryOrReplay_spec mysql timeout hinv db dbserverName sql
  generalize hresult : result (queryOrReplay mysql timeout handle db dbserverName sql) w = outcome
    at hspec
  generalize hafter : after (queryOrReplay mysql timeout handle db dbserverName sql) w = reached
    at hspec
  obtain ⟨handle', db', ok⟩ := outcome
  obtain ⟨-, tail, htail, hcalls, -⟩ := dbexecute_sql hselect hsql w hresult hafter
  have hzero := executions_eq_zero hcalls.queries
  dsimp only at hspec
  cases hspec with
  | ok hok htrace =>
      rw [htrace, List.append_assoc] at htail
      have hquery := executions_query db sql (nextQuery mysql w).executed []
      rw [requestCalls_eq htail, executions_append, hzero, lost_of_not_failed hok]
      simpa using hquery
  | refused hlost htrace =>
      rw [htrace, List.append_assoc] at htail
      have hquery := executions_query db sql (nextQuery mysql w).executed [.errno]
      rw [requestCalls_eq htail, executions_append, hzero, hlost]
      simpa using hquery
  | stranded hlost hno htrace hre =>
      obtain ⟨attempted, hattempted, -, hqueries⟩ := hre.quiet
      rw [hattempted, htrace, List.append_assoc, List.append_assoc] at htail
      have hquery := executions_query db sql (nextQuery mysql w).executed [.errno]
      rw [requestCalls_eq htail, executions_append, executions_append, hzero,
        executions_eq_zero hqueries]
      simpa [hno] using hquery
  | @replayed w₁ w₂ _ _ _ _ hlost hyes htrace hre hdb hok htrace' =>
      obtain ⟨attempted, hattempted, -, hqueries⟩ := hre.quiet
      have hsecond := nextQuery_reattached htrace hre
      rw [htrace', hattempted, htrace, List.append_assoc, List.append_assoc,
        List.append_assoc] at htail
      have hquery := executions_query db sql (nextQuery mysql w).executed [.errno]
      have hreplay := executions_query db' sql (nextQuery mysql w₂).executed []
      rw [requestCalls_eq htail, executions_append, executions_append, executions_append, hzero,
        executions_eq_zero hqueries, ← hsecond, if_pos ⟨hlost, hyes⟩]
      simp only [List.map_cons, List.map_nil] at hquery hreplay
      omega

/-- After any start and any earlier requests, what a request sends is executed at
most once exactly when no executed query is replayed and executed again. -/
theorem dbexecute_at_most_once_iff (mysql : Mysql) (timeout : Nat) (user pass : Option Bytes)
    (server config : Bytes) (seed : Nat) (multidb : Bool) (earlier : List (JsonValue δ))
    (injson : JsonValue δ) :
    let start := started mysql timeout user pass server config seed multidb earlier
    let handle := result start World.start
    let w := after start World.start
    executions (requestCalls mysql timeout handle injson w) ≤ 1 ↔
      ¬ ReplaysExecuted mysql handle injson w := by
  intro start handle w
  have hinv : HandleInv handle w :=
    started_inv mysql timeout user pass server config seed multidb earlier
  unfold ReplaysExecuted
  cases hselect : selectServer handle injson with
  | refused out =>
      rw [requestCalls_refused hselect w]
      simp [executions]
  | server db dbserverName =>
      cases hsql : memberString injson "SQL" with
      | none =>
          have htrace : (after (dbexecute mysql timeout handle injson) w).trace =
              w.trace ++ metadataCalls db injson := dbexecute_metadata_trace hselect hsql w
          have hcalls : CallsOn db (metadataCalls db injson) := callsOn_metadataCalls injson
          rw [requestCalls_eq htrace, executions_eq_zero hcalls.queries]
          simp
      | some sql =>
          rw [executions_sql mysql timeout hinv hselect hsql]
          by_cases hretry : (nextQuery mysql w).lost = true ∧ ReattachSucceeds mysql handle w
          · rw [if_pos hretry]
            cases (nextQuery mysql w).executed <;>
              cases (mysql.query (queries w.trace + 1)).executed <;> simp [hretry]
          · rw [if_neg hretry]
            have hle : (nextQuery mysql w).executed.toNat ≤ 1 := Bool.toNat_le _
            simp only [Nat.add_zero, hle, true_iff]
            rintro ⟨hlost, -, hyes, -⟩
            exact hretry ⟨hlost, hyes⟩

/-- A server that executes every query and drops the connection of the first. -/
def droppingServer : Mysql where
  attempt _ := .connected
  query n := if n = 0 then .error ⟨2013, bytes "Lost connection to MySQL server during query"⟩ true
    else .ok (.affected 1 0) .done
  rollback _ := true
  stat _ := none
  hostInfo _ := none
  serverVersion _ := 0
  clientInfo := []
  clientVersion := 0

theorem dbexecute_applies_write_twice :
    let start : Client DbHandle := started droppingServer 30 none none (bytes "db1")
      (bytes "/etc/my.cnf") 0 false ([] : List (JsonValue Bytes))
    let handle := result start World.start
    let w := after start World.start
    executions (requestCalls droppingServer 30 handle
      (sqlRequest "UPDATE account SET balance = balance - 1") w) = 2 := by
  decide +kernel

end DbSlayer.Db
