import DbSlayer.Db.Execute
import DbSlayer.Foundation.Effects

/-! # What the parts of a request call

Each part appends its calls to the trace. Everything behind a query works on
one connection: it opens, closes and queries nothing.
-/

namespace DbSlayer.Db

open Foundation Json

variable {δ : Type} {mysql : Mysql}

@[simp] theorem record_trace (call : Call) (w : World) :
    (after (record call) w).trace = w.trace ++ [call] := rfl

@[simp] theorem setConnection_trace (db : Option Token) (connection : Connection) (w : World) :
    (after (setConnection db connection) w).trace = w.trace := rfl

@[simp] theorem record_connection (call : Call) (w : World) :
    (after (record call) w).connection = w.connection := rfl

/-- What MySQL keeps for the other connections is left alone. -/
@[simp] theorem setConnection_connection (db : Option Token) (connection : Connection)
    (w : World) :
    (after (setConnection db connection) w).connection =
      Function.update w.connection db connection := rfl

@[simp] theorem queries_append (first second : List Call) :
    queries (first ++ second) = queries first + queries second := List.countP_append

@[simp] theorem attempts_append (first second : List Call) :
    attempts (first ++ second) = attempts first + attempts second := List.countP_append

/-- Calls of `mysql_options`. -/
def Call.isOptions : Call → Bool
  | on _ (.options _) => true
  | _ => false

/-- Calls of `mysql_real_connect`. -/
def Call.isConnect : Call → Bool
  | on _ (.realConnect _ _) => true
  | _ => false

/-- Calls on one connection that query nothing, set no option and connect to nothing. -/
structure CallsOn (db : Option Token) (calls : List Call) : Prop where
  only : handles.OnlyOn db calls
  queries : queries calls = 0
  options : ∀ call ∈ calls, call.isOptions = false
  connects : ∀ call ∈ calls, call.isConnect = false

/-- Calls on one connection are closed under composition. -/
theorem callsOn_chains (db : Option Token) : Chains (CallsOn db) where
  nil := ⟨⟨by simp [Ledger.Neutral], by simp⟩, rfl, by simp, by simp⟩
  append := fun hfirst hsecond =>
    ⟨hfirst.only.append hsecond.only, by simp [hfirst.queries, hsecond.queries],
      List.forall_mem_append.mpr ⟨hfirst.options, hsecond.options⟩,
      List.forall_mem_append.mpr ⟨hfirst.connects, hsecond.connects⟩⟩

/-- What is done to a handle before it is queried. -/
def Operation.prepares : Operation → Bool
  | options _ => true
  | realConnect _ _ => true
  | _ => false

/-- One call on the connection that does not prepare it. -/
theorem callsOn_on (db : Option Token) {operation : Operation}
    (hoperation : operation.prepares = false) : CallsOn db [.on db operation] := by
  refine ⟨⟨?_, ?_⟩, rfl, ?_, ?_⟩
  · simp [Ledger.Neutral, handles]
  · simp [handles]
  · cases operation with
    | options option => cases hoperation
    | _ => simp [Call.isOptions]
  · cases operation with
    | realConnect user pass => cases hoperation
    | _ => simp [Call.isConnect]

/-- The computation makes calls on `db` only. -/
abbrev WorksOn (db : Option Token) {α : Type} (m : Client α) : Prop :=
  Appends World.trace (CallsOn db) m

variable {db : Option Token}

/-- Recording such a call works on the connection. -/
theorem worksOn_record {operation : Operation}
    (hoperation : operation.prepares = false) :
    WorksOn db (record (.on db operation)) := by
  intro w
  exact ⟨[.on db operation], rfl, callsOn_on db hoperation⟩

theorem worksOn_get : WorksOn db (get : Client World) := by
  intro w
  exact ⟨[], by simp, (callsOn_chains db).nil⟩

theorem worksOn_setConnection (other : Option Token) (connection : Connection) :
    WorksOn db (setConnection other connection) := by
  intro w
  exact ⟨[], by simp, (callsOn_chains db).nil⟩

theorem worksOn_pure {α : Type} (a : α) : WorksOn db (pure a : Client α) :=
  Appends.pure (callsOn_chains db) a

/-- Two computations on one connection, one after the other, work on it. -/
theorem WorksOn.bind {α β : Type} {m : Client α} {f : α → Client β} (hm : WorksOn db m)
    (hf : ∀ a, WorksOn db (f a)) : WorksOn db (m >>= f) :=
  Appends.bind (callsOn_chains db) hm hf

/-- A computation that starts with a known call works on the connection when that call and the
rest of it do. -/
theorem WorksOn.first {α β : Type} {m : Client α} {f : α → Client β} {call : Call}
    (hm : ∀ w, (after m w).trace = w.trace ++ [call]) (hcall : CallsOn db [call])
    (hf : ∀ a, WorksOn db (f a)) (w : World) :
    ∃ rest, (after (m >>= f) w).trace = w.trace ++ call :: rest ∧ CallsOn db (call :: rest) := by
  obtain ⟨rest, htrace, hrest⟩ := hf (result m w) (after m w)
  refine ⟨rest, ?_, (callsOn_chains db).append hcall hrest⟩
  rw [after_bind, htrace, hm, List.append_assoc, List.singleton_append]

/-- A call is recorded before anything is read off the world, so what is read may depend on it
and still no other connection is touched. -/
theorem worksOn_call {α : Type} (operation : Operation)
    (hoperation : operation.prepares = false) {f : World → Client α}
    (hf : ∀ w, WorksOn db (f w)) :
    WorksOn db (do record (.on db operation); let w ← get; f w) :=
  WorksOn.bind (worksOn_record hoperation) fun _ => WorksOn.bind worksOn_get hf

theorem worksOn_mysqlErrno : WorksOn db (mysqlErrno db) :=
  worksOn_call .errno rfl fun _ => worksOn_pure _

/-- Storing a result is one call, whatever the current statement is. -/
theorem worksOn_mysqlStoreResult : WorksOn db (mysqlStoreResult db) := by
  refine worksOn_call .storeResult rfl fun w => ?_
  dsimp only
  split
  · exact WorksOn.bind (worksOn_setConnection _ _) fun _ => worksOn_pure _
  · exact WorksOn.bind (worksOn_setConnection _ _) fun _ => worksOn_pure _
  · exact WorksOn.bind (worksOn_setConnection _ _) fun _ => worksOn_pure _

/-- Going to the next result is one call, and it may move on to the next statement. -/
theorem worksOn_mysqlNextResult : WorksOn db (mysqlNextResult db) := by
  refine worksOn_call .nextResult rfl fun w => ?_
  dsimp only
  split
  · exact worksOn_pure _
  · exact WorksOn.bind (worksOn_setConnection _ _) fun _ => worksOn_pure _
  · exact WorksOn.bind (worksOn_setConnection _ _) fun _ => worksOn_pure _

/-- The numbers of a statement without rows take two calls. -/
theorem worksOn_dbaffected2json : WorksOn db (dbaffected2json db : Client (JsonValue δ)) := by
  refine WorksOn.bind (worksOn_call .affectedRows rfl fun w => ?_) fun rows =>
    WorksOn.bind (worksOn_call .insertId rfl fun w => ?_) fun insertId => worksOn_pure _
  · cases (w.connection db).current <;> exact worksOn_pure _
  · cases (w.connection db).current <;> exact worksOn_pure _

theorem worksOn_mysqlRollback : WorksOn db (mysqlRollback mysql db) :=
  WorksOn.bind worksOn_get fun _ =>
    WorksOn.bind (@worksOn_record db .rollback rfl) fun _ => worksOn_pure _

/-- The first call of an error report reads the text of the error. -/
theorem dbReportError_first {out : Out δ} (hnew : outHas out "MYSQL_ERROR" = false)
    (dbserverName : Bytes) (injson : JsonValue δ) (w : World) :
    ∃ rest, (after (dbReportError mysql out db dbserverName injson) w).trace =
      w.trace ++ .on db .error :: rest ∧ CallsOn db (.on db .error :: rest) := by
  rw [dbReportError, if_neg (by simp [hnew])]
  refine WorksOn.first (fun _ => rfl) (callsOn_on db rfl) (fun text => ?_) w
  refine WorksOn.bind worksOn_mysqlErrno fun errno => Appends.ite ?_ (worksOn_pure _)
  exact WorksOn.bind worksOn_mysqlRollback fun failed => worksOn_pure _

/-- An error report reads the error and may roll back, all on the connection it is about; a
second report calls nothing. -/
theorem worksOn_dbReportError (out : Out δ) (dbserverName : Bytes) (injson : JsonValue δ) :
    WorksOn db (dbReportError mysql out db dbserverName injson) := by
  cases hnew : outHas out "MYSQL_ERROR" with
  | true =>
      rw [dbReportError, if_pos hnew]
      exact worksOn_pure _
  | false =>
      intro w
      obtain ⟨rest, htrace, hcalls⟩ := dbReportError_first hnew dbserverName injson w
      exact ⟨_, htrace, hcalls⟩

/-- A statement is worked off on its own connection, whether or not it comes with a result
set. -/
theorem worksOn_dbprocessResult [CDouble δ] (myresult : Option ResultSet) (results : Results δ) :
    WorksOn db (dbprocessResult db myresult results) := by
  cases myresult with
  | none =>
      refine WorksOn.bind worksOn_mysqlErrno fun errno => Appends.ite (worksOn_pure _) ?_
      exact WorksOn.bind worksOn_dbaffected2json fun affected => worksOn_pure _
  | some result => exact Appends.ite (worksOn_pure _) (worksOn_pure _)

theorem worksOn_resultLoop [CDouble δ] (dbserverName : Bytes) (injson : JsonValue δ) (fuel : Nat)
    (out : Out δ) (results : Results δ) :
    WorksOn db (resultLoop mysql db dbserverName injson fuel out results) := by
  induction fuel generalizing out results with
  | zero => exact worksOn_pure _
  | succ fuel ih =>
      rw [resultLoop]
      refine WorksOn.bind worksOn_mysqlStoreResult fun myresult =>
        WorksOn.bind (worksOn_dbprocessResult myresult results) fun next => ?_
      cases next with
      | none => exact WorksOn.bind (worksOn_dbReportError _ _ _) fun _ => worksOn_pure _
      | some next =>
          refine WorksOn.bind worksOn_mysqlNextResult fun status => Appends.ite ?_ ?_
          · exact WorksOn.bind (worksOn_dbReportError _ _ _) fun _ => worksOn_pure _
          · exact Appends.ite (ih _ _) (worksOn_pure _)

/-- Publishing the results adds no call to those of the loop. -/
theorem worksOn_publishResults [CDouble δ] (dbserverName : Bytes) (injson : JsonValue δ) :
    WorksOn db (publishResults mysql db dbserverName injson) := by
  rw [publishResults]
  apply WorksOn.bind worksOn_get
  intro w
  apply WorksOn.bind (worksOn_resultLoop dbserverName injson _ _ _)
  intro found
  exact worksOn_pure _

/-! ## The metadata commands -/

/-- The calls that the introspection flags of a request ask for. -/
def metadataCalls (db : Option Token) (injson : JsonValue δ) : List Call :=
  (if dbFlagSet injson "STAT" then [.on db .stat] else []) ++
  (if dbFlagSet injson "CLIENT_INFO" then [.clientInfo] else []) ++
  (if dbFlagSet injson "HOST_INFO" then [.on db .hostInfo] else []) ++
  (if dbFlagSet injson "SERVER_VERSION" then [.on db .serverVersion] else []) ++
  (if dbFlagSet injson "CLIENT_VERSION" then [.clientVersion] else [])

/-- An answer is fetched only if its flag is set. -/
theorem answerFlag_trace {injson : JsonValue δ} {key : String} {answer : Client (Reply δ)}
    {calls : List Call} (hanswer : ∀ w, (after answer w).trace = w.trace ++ calls) (out : Out δ)
    (w : World) :
    (after (answerFlag injson key answer out) w).trace =
      w.trace ++ if dbFlagSet injson key then calls else [] := by
  rw [answerFlag, after_ite]
  split
  next => exact hanswer w
  next => simp

/-- Behind the results come the calls that the introspection flags ask for, in the order of
`dbprocess_metadata`, and no others. -/
theorem finishReply_trace (dbserverName : Bytes) (injson : JsonValue δ) (out : Out δ) (w : World) :
    (after (finishReply mysql db dbserverName injson out) w).trace =
      w.trace ++ metadataCalls db injson := by
  have hquiet : ∀ reply : Reply δ, ∀ w, (after (pure reply : Client (Reply δ)) w).trace =
      w.trace ++ [] := by simp
  have hanswer : ∀ {α : Type} (f : α → Reply δ) (m : Client α) (call : Call),
      (∀ w, (after m w).trace = w.trace ++ [call]) →
      ∀ w, (after (f <$> m) w).trace = w.trace ++ [call] := fun _ _ _ hm => hm
  simp only [finishReply, dbprocessMetadata, after_bind, after_pure]
  rw [answerFlag_trace (hquiet _), answerFlag_trace (hquiet _), answerFlag_trace (hquiet _),
    answerFlag_trace (hanswer _ _ .clientVersion fun _ => rfl),
    answerFlag_trace (hanswer _ _ (.on db .serverVersion) fun _ => rfl),
    answerFlag_trace (hanswer _ _ (.on db .hostInfo) fun _ => rfl),
    answerFlag_trace (hanswer _ _ .clientInfo fun _ => rfl),
    answerFlag_trace (hanswer _ _ (.on db .stat) fun _ => rfl)]
  simp [metadataCalls]

/-- The introspection calls are on the connection of the request, or on the library alone, and
none of them prepares or closes it. -/
theorem callsOn_metadataCalls (injson : JsonValue δ) : CallsOn db (metadataCalls db injson) := by
  have hchains := callsOn_chains db
  have hflag : ∀ (key : String) (call : Call), CallsOn db [call] →
      CallsOn db (if dbFlagSet injson key then [call] else []) := by
    intro key call hcall
    split
    · exact hcall
    · exact hchains.nil
  have hlibrary : ∀ call : Call, call = .clientInfo ∨ call = .clientVersion →
      CallsOn db [call] := by
    rintro call (rfl | rfl) <;> exact
      ⟨⟨by simp [Ledger.Neutral, handles], by simp [handles]⟩, rfl, by simp [Call.isOptions],
        by simp [Call.isConnect]⟩
  exact hchains.append (hchains.append (hchains.append (hchains.append
    (hflag _ _ (callsOn_on db rfl)) (hflag _ _ (hlibrary _ (.inl rfl))))
    (hflag _ _ (callsOn_on db rfl))) (hflag _ _ (callsOn_on db rfl)))
    (hflag _ _ (hlibrary _ (.inr rfl)))

/-- The flags whose answers need the connection. -/
def asksServer (injson : JsonValue δ) : Bool :=
  dbFlagSet injson "STAT" || dbFlagSet injson "HOST_INFO" || dbFlagSet injson "SERVER_VERSION"

/-- No introspection call needs an open connection exactly when none of three flags is set:
STAT, HOST_INFO and SERVER_VERSION ask the server, the others the library. -/
theorem metadataCalls_need_iff (injson : JsonValue δ) :
    (∀ call ∈ metadataCalls db injson, handles.needs call = none) ↔ asksServer injson = false := by
  have hflag : ∀ (key : String) (call : Call),
      (∀ other ∈ (if dbFlagSet injson key then [call] else []), handles.needs other = none) ↔
        (dbFlagSet injson key = true → handles.needs call = none) := by
    intro key call
    split <;> simp_all
  simp only [metadataCalls, List.forall_mem_append, hflag, asksServer, Bool.or_eq_false_iff]
  simp [handles, and_assoc]

end DbSlayer.Db
