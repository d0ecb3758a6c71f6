import DbSlayer.Db.Liveness
import DbSlayer.Db.Statements

/-! # The servers of connections

A handle is connected to the server whose name was set as its option group.
Whatever happens to the connections of a worker, the ones it holds belong to
the servers that it has them for.
-/

namespace DbSlayer.Db

open Foundation Json

variable {δ : Type} {mysql : Mysql} {timeout : Nat}

/-! ## The servers of handles -/

/-- The option that names the server of a handle was set. -/
def Grouped (trace : List Call) (t : Token) (server : Bytes) : Prop :=
  .on (some t) (.options (.readDefaultGroup server)) ∈ trace

/-- Only an option changes which group a handle reads. -/
theorem grouped_append {trace calls : List Call} (hcalls : ∀ call ∈ calls, call.isOptions = false)
    {t : Token} {server : Bytes} : Grouped (trace ++ calls) t server ↔ Grouped trace t server := by
  simp only [Grouped, List.mem_append, or_iff_left_iff_imp]
  intro hmem
  exact absurd (hcalls _ hmem) (by simp [Call.isOptions])

/-- Whatever is connected is connected to the server that the handle has it for. -/
structure Attributed (mysql : Mysql) (handle : DbHandle) (w : World) : Prop where
  fresh : ∀ t server, Grouped w.trace t server → t < attempts w.trace
  current : ∀ name t server, handle.current name = some t → mysql.attempt t = .connected →
    Grouped w.trace t server → strcmp (handle.reportName name) server = 0

/-- Calls that set no option leave the servers of handles alone, so attribution is framed over
queries and error reports. -/
theorem Attributed.append {handle : DbHandle} {w w' : World} {calls : List Call}
    (hattributed : Attributed mysql handle w) (htrace : w'.trace = w.trace ++ calls)
    (hcalls : ∀ call ∈ calls, call.isOptions = false) : Attributed mysql handle w' where
  fresh := by
    intro t server hgrouped
    rw [htrace, grouped_append hcalls] at hgrouped
    rw [htrace, attempts_append]
    exact Nat.lt_add_right _ (hattributed.fresh t server hgrouped)
  current := by
    intro name t server hcurrent hconnected hgrouped
    rw [htrace, grouped_append hcalls] at hgrouped
    exact hattributed.current name t server hcurrent hconnected hgrouped

/-! ## One attempt -/

/-- One attempt at a server: its token is new, and gets the name of that server. -/
structure AttemptAt (mysql : Mysql) (server : Bytes) (w w' : World) : Prop where
  attempts : attempts w'.trace = attempts w.trace + 1
  grouped : ∀ t name, Grouped w'.trace t name ↔ Grouped w.trace t name ∨
    t = Db.attempts w.trace ∧ name = server ∧ mysql.attempt t ≠ .noHandle

/-- Renewing a handle asks for one new handle and sets no option. -/
theorem renewHandle_calls (old : Option Token) (w : World) :
    ∃ calls, (after (renewHandle mysql old) w).trace = w.trace ++ calls ∧ attempts calls = 1 ∧
      ∀ call ∈ calls, call.isOptions = false := by
  refine ⟨_, renewHandle_trace old w, ?_, ?_⟩
  · cases old <;> rfl
  · cases old <;> simp [Call.isOptions]

/-- What one attempt adds to the trace: a new handle that reads the group of its server, and
nothing about older handles. -/
theorem attemptAt_spec (old : Option Token) (config server : Bytes) (user pass : Option Bytes)
    (w : World) :
    AttemptAt mysql server w
      (after (attemptAt mysql timeout old config server user pass) w) := by
  obtain ⟨calls, htrace, hattempts, hcalls⟩ := @renewHandle_calls mysql old w
  simp only [attemptAt, after_bind, after_ite, after_pure, renewHandle_result]
  generalize after (renewHandle mysql old) w = reached at htrace ⊢
  by_cases hattempt : mysql.attempt (attempts w.trace) = .noHandle
  · simp only [tokenAt, hattempt, if_true, Option.isNone_none]
    refine ⟨by rw [htrace, attempts_append, hattempts], ?_⟩
    intro t name
    rw [htrace, grouped_append hcalls]
    constructor
    · exact .inl
    · rintro (hgrouped | ⟨rfl, -, hhandle⟩)
      · exact hgrouped
      · exact absurd hattempt hhandle
  · simp only [tokenAt, hattempt, if_false, Option.isNone_some, Bool.false_eq_true]
    constructor
    · rw [connectTo_trace, htrace, attempts_append, attempts_append, hattempts]
      rfl
    · intro t name
      rw [connectTo_trace, htrace, Grouped, List.mem_append, ← Grouped, grouped_append hcalls]
      refine or_congr_right ?_
      simp only [List.mem_cons, Call.on.injEq, Option.some.injEq, Operation.options.injEq,
        ClientOption.readDefaultGroup.injEq, reduceCtorEq, and_false, List.not_mem_nil, or_false,
        false_or]
      constructor
      · rintro ⟨rfl, rfl⟩
        exact ⟨rfl, rfl, hattempt⟩
      · rintro ⟨rfl, rfl, -⟩
        exact ⟨rfl, rfl⟩

section Attempt

variable {server : Bytes} {w w' : World}

/-- The handles that read a group were all handed out before the next attempt. -/
theorem AttemptAt.fresh (hattempt : AttemptAt mysql server w w')
    (hfresh : ∀ t name, Grouped w.trace t name → t < Db.attempts w.trace) (t : Token)
    (name : Bytes) (hgrouped : Grouped w'.trace t name) : t < Db.attempts w'.trace := by
  rw [hattempt.attempts]
  rcases (hattempt.grouped t name).mp hgrouped with hold | ⟨rfl, -, -⟩
  · exact Nat.lt_succ_of_lt (hfresh t name hold)
  · exact Nat.lt_succ_self _

/-- An attempt says nothing new about a handle that was handed out before it. -/
theorem AttemptAt.older (hattempt : AttemptAt mysql server w w') (t : Token) (name : Bytes)
    (ht : t < Db.attempts w.trace) (hgrouped : Grouped w'.trace t name) :
    Grouped w.trace t name := by
  rcases (hattempt.grouped t name).mp hgrouped with hold | ⟨rfl, -, -⟩
  · exact hold
  · exact absurd ht (Nat.lt_irrefl _)

/-- The handle of an attempt reads the group of its server, and no other one. -/
theorem AttemptAt.grouped_new (hattempt : AttemptAt mysql server w w')
    (hfresh : ∀ t name, Grouped w.trace t name → t < Db.attempts w.trace)
    (hhandle : mysql.attempt (Db.attempts w.trace) ≠ .noHandle) (name : Bytes) :
    Grouped w'.trace (Db.attempts w.trace) name ↔ name = server := by
  rw [hattempt.grouped]
  constructor
  · rintro (hold | ⟨-, hname, -⟩)
    · exact absurd (hfresh _ name hold) (Nat.lt_irrefl _)
    · exact hname
  · intro hname
    exact .inr ⟨rfl, hname, hhandle⟩

end Attempt

/-! ## The ring -/

/-- The first attempt from `start` on that gets a connection. -/
def FirstConnected (mysql : Mysql) (start i : Nat) : Prop :=
  mysql.attempt (start + i) = .connected ∧ ∀ j < i, mysql.attempt (start + j) ≠ .connected

/-- What the attempts at the servers `cts` of a ring do to the names of the handles. -/
structure RingNames (mysql : Mysql) (cts : List Nat) (handle : DbHandle) (w : World)
    (handle' : DbHandle) (attached : Bool) (w' : World) : Prop where
  attributed : Attributed mysql handle' w'
  single : handle'.dblookup = none
  server : handle'.server = handle.server
  older : ∀ t name, t < attempts w.trace → Grouped w'.trace t name → Grouped w.trace t name
  attached : attached = true → ∃ i, FirstConnected mysql (attempts w.trace) i ∧
    cts[i]? = some handle'.serverOffset ∧ handle'.db = some (attempts w.trace + i) ∧
      ∀ name, Grouped w'.trace (attempts w.trace + i) name ↔
        name = handle'.serverAt handle'.serverOffset

/-- One attempt on the ring leaves the handle attributed, whether it connects or not: the
offset moves only with an attempt that connects. -/
theorem ringAttempt_names {handle : DbHandle} {w : World}
    (hattributed : Attributed mysql handle w) (hsingle : handle.dblookup = none) (ct : Nat) :
    RingNames mysql [ct] handle w (result (ringAttempt mysql timeout handle ct) w).1
        (result (ringAttempt mysql timeout handle ct) w).2
        (after (ringAttempt mysql timeout handle ct) w) ∧
      attempts (after (ringAttempt mysql timeout handle ct) w).trace = attempts w.trace + 1 ∧
      ((result (ringAttempt mysql timeout handle ct) w).2 = false →
        mysql.attempt (attempts w.trace) ≠ .connected) := by
  have hspec := @attemptAt_spec mysql timeout handle.db handle.config (handle.serverAt ct)
    handle.user handle.pass w
  rw [ringAttempt_eq]
  simp only [result_bind, after_bind, result_pure, after_pure, attemptAt_result]
  generalize after (attemptAt mysql timeout handle.db handle.config (handle.serverAt ct)
    handle.user handle.pass) w = reached at hspec ⊢
  by_cases hok : mysql.attempt (attempts w.trace) = .connected
  · have hnew := hspec.grouped_new hattributed.fresh (by simp [hok])
    simp only [hok, decide_true, if_true, tokenAt, reduceCtorEq, if_false]
    refine ⟨⟨⟨hspec.fresh hattributed.fresh, ?_⟩, hsingle, rfl, hspec.older,
      fun _ => ⟨0, ⟨hok, by simp⟩, rfl, rfl, hnew⟩⟩, hspec.attempts, by simp⟩
    intro name t server hcurrent hconnected hgrouped
    simp only [DbHandle.current, hsingle, Option.some.injEq] at hcurrent
    rw [← hcurrent, hnew] at hgrouped
    simp only [DbHandle.reportName, hsingle, hgrouped]
    exact strcmp_order.self _
  · simp only [hok, decide_false, Bool.false_eq_true, if_false]
    refine ⟨⟨⟨hspec.fresh hattributed.fresh, ?_⟩, hsingle, rfl, hspec.older, by simp⟩,
      hspec.attempts, fun _ => hok⟩
    -- the handle that is kept got no connection
    intro name t server hcurrent hconnected hgrouped
    rw [DbHandle.current, hsingle] at hcurrent
    obtain ⟨rfl, -⟩ := tokenAt_eq_some.mp hcurrent
    exact absurd hconnected hok

/-- The loop over the ring leaves the handle attributed to the server it ended on, by induction
on the slots that are left. -/
theorem ringLoop_names {handle : DbHandle} {w : World} (hattributed : Attributed mysql handle w)
    (hsingle : handle.dblookup = none) (cts : List Nat) :
    RingNames mysql cts handle w (result (ringLoop mysql timeout cts handle) w).1
      (result (ringLoop mysql timeout cts handle) w).2
      (after (ringLoop mysql timeout cts handle) w) := by
  induction cts generalizing handle w with
  | nil => exact ⟨hattributed, hsingle, rfl, fun _ _ _ hgrouped => hgrouped, by simp [ringLoop]⟩
  | cons ct rest ih =>
      obtain ⟨hfirst, hattempts, hfailed⟩ :=
        @ringAttempt_names mysql timeout handle w hattributed hsingle ct
      simp only [ringLoop, result_bind, after_bind, result_ite, after_ite, result_pure, after_pure]
      generalize result (ringAttempt mysql timeout handle ct) w = outcome at hfirst hfailed ⊢
      generalize after (ringAttempt mysql timeout handle ct) w = reached at hfirst hattempts ⊢
      obtain ⟨handle', attached⟩ := outcome
      cases attached with
      | true =>
          refine ⟨hfirst.attributed, hfirst.single, hfirst.server, hfirst.older, fun _ => ?_⟩
          obtain ⟨i, hconnected, hct, hdb, hgrouped⟩ := hfirst.attached rfl
          obtain rfl : i = 0 := by
            have hlt := (List.getElem?_eq_some_iff.mp hct).1
            simpa using hlt
          exact ⟨0, hconnected, hct, hdb, hgrouped⟩
      | false =>
          -- the failed attempt used up one number, so what the rest attached at shifts by one
          have hrest := ih hfirst.attributed hfirst.single
          simp only [Bool.false_eq_true, if_false]
          refine ⟨hrest.attributed, hrest.single, hrest.server.trans hfirst.server, ?_, ?_⟩
          · intro t name ht hgrouped
            exact hfirst.older t name ht (hrest.older t name (by omega) hgrouped)
          · intro hattached
            obtain ⟨i, ⟨hconnected, hbefore⟩, hct, hdb, hgrouped⟩ := hrest.attached hattached
            have hshift : ∀ j, attempts reached.trace + j = attempts w.trace + (j + 1) := by
              intro j
              omega
            rw [hshift] at hconnected hdb hgrouped
            refine ⟨i + 1, ⟨hconnected, ?_⟩, hct, hdb, hgrouped⟩
            intro j hj
            cases j with
            | zero => exact hfailed rfl
            | succ j =>
                rw [← hshift]
                exact hbefore j (Nat.lt_of_succ_lt_succ hj)

/-- The `i`-th server that a ring is tried at stands `i` places behind the offset, around the
end of the list if need be. -/
theorem DbHandle.getElem_ring {handle : DbHandle}
    (hoffset : handle.serverOffset < handle.server.length) {i ct : Nat}
    (hct : handle.ring[i]? = some ct) :
    i < handle.server.length ∧ ct = (handle.serverOffset + i) % handle.server.length := by
  rw [handle.ring_eq hoffset] at hct
  obtain ⟨hi, rfl⟩ := List.getElem?_eq_some_iff.mp hct
  exact ⟨by simpa using hi, Ring.getElem_around hi⟩

/-! ## Reattaching -/

/-- What reattaching a handle under a name does to the names of the handles. -/
structure ReattachNames (mysql : Mysql) (handle : DbHandle) (dbserverName : Bytes) (w : World)
    (handle' : DbHandle) (attached : Bool) (w' : World) : Prop where
  attributed : Attributed mysql handle' w'
  older : ∀ t name, t < attempts w.trace → Grouped w'.trace t name → Grouped w.trace t name
  current : attached = true → ∃ t, handle'.current dbserverName = some t ∧
    mysql.attempt t = .connected ∧
      ∀ name, Grouped w'.trace t name ↔ name = handle'.reportName dbserverName
  ring : attached = true → handle.dblookup = none → ∃ i < handle.server.length,
    FirstConnected mysql (attempts w.trace) i ∧ handle'.reportName dbserverName =
      handle.serverAt ((handle.serverOffset + i) % handle.server.length)
  kept : attached = false → handle'.reportName dbserverName = handle.reportName dbserverName

theorem reattachNames_ring {handle : DbHandle} {w : World} (hinv : HandleInv handle w)
    (hattributed : Attributed mysql handle w) (hsingle : handle.dblookup = none)
    (dbserverName : Bytes) :
    ReattachNames mysql handle dbserverName w
      (result (dbHandleReattach mysql timeout handle dbserverName) w).1
      (result (dbHandleReattach mysql timeout handle dbserverName) w).2
      (after (dbHandleReattach mysql timeout handle dbserverName) w) := by
  have howned : Owned w handle.db.toList := by
    have howned := hinv.owned
    rwa [DbHandle.held, hsingle] at howned
  have hring := @ringLoop_names mysql timeout handle w hattributed hsingle handle.ring
  have hfailed := (ringLoop_spec mysql timeout howned handle.ring).failed
  rw [result, after, dbHandleReattach_ring mysql timeout hsingle, ← result, ← after]
  generalize result (ringLoop mysql timeout handle.ring handle) w = outcome at hring hfailed ⊢
  generalize after (ringLoop mysql timeout handle.ring handle) w = reached at hring hfailed ⊢
  obtain ⟨handle', attached⟩ := outcome
  have hname : handle'.reportName dbserverName = handle'.serverAt handle'.serverOffset := by
    rw [DbHandle.reportName, hring.single]
  refine ⟨hring.attributed, hring.older, ?_, ?_, ?_⟩
  · intro hattached
    obtain ⟨i, ⟨hconnected, -⟩, -, hdb, hgrouped⟩ := hring.attached hattached
    refine ⟨attempts w.trace + i, ?_, hconnected, ?_⟩
    · rw [DbHandle.current, hring.single]
      exact hdb
    · rw [hname]
      exact hgrouped
  · intro hattached _
    obtain ⟨i, hfirst, hct, -, -⟩ := hring.attached hattached
    obtain ⟨hi, hoffset⟩ := DbHandle.getElem_ring hinv.offset hct
    refine ⟨i, hi, hfirst, ?_⟩
    rw [hname, hoffset, DbHandle.serverAt, hring.server, ← DbHandle.serverAt]
  · intro hattached
    rw [hname, (hfailed hattached).1, DbHandle.serverAt, hring.server, ← DbHandle.serverAt,
      DbHandle.reportName, hsingle]

/-- What is held was handed out by an earlier attempt. -/
theorem Owned.lt_attempts {w : World} {held : List Token} (howned : Owned w held) {t : Token}
    (ht : t ∈ held) : t < attempts w.trace := by
  obtain ⟨⟨call, hcall, hopen⟩, -⟩ := (howned.live_iff t).mpr ht
  exact howned.fresh call hcall t (.inl hopen)

theorem mem_tableTokens {table : List (Bytes × Option Token)} {name : Bytes} {t : Token}
    (hlookup : lookupGet table name = some t) : t ∈ tableTokens table := by
  obtain ⟨rest, hperm, -⟩ := tableTokens_replace table name
  exact hperm.mem_iff.mpr (by simp [hlookup])

/-- A named server is looked up, closed and opened anew under its name, and the entries of the
other names are as they were. -/
theorem reattachNames_named {handle : DbHandle} {w : World}
    {table : List (Bytes × Option Token)} (hinv : HandleInv handle w)
    (hattributed : Attributed mysql handle w) (hnamed : handle.dblookup = some table)
    (dbserverName : Bytes) :
    ReattachNames mysql handle dbserverName w
      (result (dbHandleReattach mysql timeout handle dbserverName) w).1
      (result (dbHandleReattach mysql timeout handle dbserverName) w).2
      (after (dbHandleReattach mysql timeout handle dbserverName) w) := by
  have hspec := @attemptAt_spec mysql timeout (lookupGet table dbserverName) handle.config
    dbserverName none none w
  have hheld : ∀ name t, lookupGet table name = some t → t < attempts w.trace := by
    intro name t hlookup
    refine hinv.owned.lt_attempts ?_
    rw [DbHandle.held, hnamed]
    exact mem_tableTokens hlookup
  rw [dbHandleReattach_named_eq mysql timeout hnamed]
  simp only [result_bind, after_bind, result_pure, after_pure, attemptAt_result]
  generalize after (attemptAt mysql timeout (lookupGet table dbserverName) handle.config
    dbserverName none none) w = reached at hspec ⊢
  have hcurrent : ∀ name, lookupGet (Assoc.replace strcmp dbserverName
      (tokenAt mysql (attempts w.trace)) table) name =
        if strcmp name dbserverName = 0 then tokenAt mysql (attempts w.trace)
        else lookupGet table name := by
    intro name
    rw [lookupGet, Assoc.get_replace strcmp_order]
    split <;> rfl
  refine ⟨⟨hspec.fresh hattributed.fresh, ?_⟩, hspec.older, ?_, by simp [hnamed],
    by simp [DbHandle.reportName, hnamed]⟩
  · intro name t server hlookup hconnected hgrouped
    simp only [DbHandle.current, hcurrent] at hlookup
    simp only [DbHandle.reportName]
    -- `json_skip_replace` changed the entry of one name only
    split at hlookup
    next hsame =>
      obtain ⟨rfl, hhandle⟩ := tokenAt_eq_some.mp hlookup
      rw [hspec.grouped_new hattributed.fresh hhandle] at hgrouped
      rw [hgrouped]
      exact hsame
    next =>
      have hold := hspec.older t server (hheld name t hlookup) hgrouped
      have hcurrent' : handle.current name = some t := by
        rw [DbHandle.current, hnamed]
        exact hlookup
      have hname := hattributed.current name t server hcurrent' hconnected hold
      rwa [DbHandle.reportName, hnamed] at hname
  · intro hattached
    have hconnected : mysql.attempt (attempts w.trace) = .connected := by simpa using hattached
    have hhandle : mysql.attempt (attempts w.trace) ≠ .noHandle := by simp [hconnected]
    refine ⟨attempts w.trace, ?_, hconnected, hspec.grouped_new hattributed.fresh hhandle⟩
    simp only [DbHandle.current, hcurrent, strcmp_order.self, if_true]
    exact tokenAt_eq_some.mpr ⟨rfl, hhandle⟩

/-- Reattaching keeps every held handle attributed to the server it was opened for, in both
modes. -/
theorem dbHandleReattach_names {handle : DbHandle} {w : World} (hinv : HandleInv handle w)
    (hattributed : Attributed mysql handle w) (dbserverName : Bytes) :
    ReattachNames mysql handle dbserverName w
      (result (dbHandleReattach mysql timeout handle dbserverName) w).1
      (result (dbHandleReattach mysql timeout handle dbserverName) w).2
      (after (dbHandleReattach mysql timeout handle dbserverName) w) := by
  cases hmode : handle.dblookup with
  | none => exact reattachNames_ring hinv hattributed hmode dbserverName
  | some table => exact reattachNames_named hinv hattributed hmode dbserverName

/-! ## Runs -/

theorem isOptions_query (db : Option Token) (sql : Bytes) (executed : Bool) :
    ∀ call ∈ [Call.query db sql executed, .on db .errno], call.isOptions = false := by
  simp [Call.isOptions]

theorem afterLoss_names {handle : DbHandle} {w : World} (hinv : HandleInv handle w)
    (hattributed : Attributed mysql handle w) (db : Option Token) (dbserverName sql : Bytes) :
    ReattachNames mysql handle dbserverName (afterLoss mysql db sql w)
      (result (dbHandleReattach mysql timeout handle dbserverName) (afterLoss mysql db sql w)).1
      (result (dbHandleReattach mysql timeout handle dbserverName) (afterLoss mysql db sql w)).2
      (after (dbHandleReattach mysql timeout handle dbserverName) (afterLoss mysql db sql w)) := by
  exact dbHandleReattach_names (hinv.afterLoss mysql db sql)
    (hattributed.append (afterLoss_trace db sql w) (isOptions_query db sql _)) dbserverName

/-- A query leaves the handle attributed, also when its connection was lost and it is sent
again on a new one. -/
theorem queryOrReplay_attributed {handle : DbHandle} {w : World} (hinv : HandleInv handle w)
    (hattributed : Attributed mysql handle w) (db : Option Token) (dbserverName sql : Bytes) :
    Attributed mysql (result (queryOrReplay mysql timeout handle db dbserverName sql) w).1
      (after (queryOrReplay mysql timeout handle db dbserverName sql) w) := by
  have hnames := @afterLoss_names mysql timeout handle w hinv hattributed db dbserverName sql
  have hpath := queryOrReplay_path mysql timeout handle db dbserverName sql w
  generalize result (queryOrReplay mysql timeout handle db dbserverName sql) w = outcome at hpath ⊢
  generalize after (queryOrReplay mysql timeout handle db dbserverName sql) w = last at hpath ⊢
  cases hpath with
  | ok hok =>
      exact hattributed.append (mysqlQuery_trace db sql w) (by simp [Call.isOptions])
  | refused _ _ => exact hattributed.append (afterLoss_trace db sql w) (isOptions_query db sql _)
  | stranded hlost houtcome =>
      rw [houtcome] at hnames
      exact hnames.attributed
  | replayed hlost houtcome hreached =>
      rw [houtcome, hreached] at hnames
      exact hnames.attributed.append (mysqlQuery_trace _ sql _) (by simp [Call.isOptions])

section Requests

variable [CDouble δ]

/-- A request leaves the handle attributed, whatever its query does: only reattaching sets an
option. -/
theorem dbexecute_attributed {handle : DbHandle} {w : World} (hinv : HandleInv handle w)
    (hattributed : Attributed mysql handle w) (injson : JsonValue δ) :
    Attributed mysql (result (dbexecute mysql timeout handle injson) w).1
      (after (dbexecute mysql timeout handle injson) w) := by
  cases hselect : selectServer handle injson with
  | refused out => simpa [dbexecute, hselect] using hattributed
  | server db dbserverName =>
      cases hsql : memberString injson "SQL" with
      | none =>
          have htrace : (after (dbexecute mysql timeout handle injson) w).trace =
              w.trace ++ metadataCalls db injson := dbexecute_metadata_trace hselect hsql w
          have hcalls : CallsOn db (metadataCalls db injson) := callsOn_metadataCalls injson
          simpa [dbexecute, hselect, hsql] using hattributed.append htrace hcalls.options
      | some sql =>
          have hquery := @queryOrReplay_attributed mysql timeout handle w hinv hattributed db
            dbserverName sql
          obtain ⟨hhandle, tail, htail, hcalls, -⟩ :=
            @dbexecute_sql δ mysql timeout _ handle injson db dbserverName sql hselect hsql w _ _ _
              _ rfl rfl
          rw [hhandle]
          exact hquery.append htail hcalls.options

theorem serve_attributed {handle : DbHandle} {w : World} (hinv : HandleInv handle w)
    (hattributed : Attributed mysql handle w) (requests : List (JsonValue δ)) :
    Attributed mysql (result (serve mysql timeout handle requests) w)
      (after (serve mysql timeout handle requests) w) := by
  induction requests generalizing handle w with
  | nil => exact hattributed
  | cons injson rest ih =>
      exact ih (dbexecute_live hinv injson).1 (dbexecute_attributed hinv hattributed injson)

end Requests

theorem reattachAll_attributed {handle : DbHandle} {w : World} (hinv : HandleInv handle w)
    (hattributed : Attributed mysql handle w) (names : List Bytes) :
    Attributed mysql (result (reattachAll mysql timeout handle names) w)
      (after (reattachAll mysql timeout handle names) w) := by
  induction names generalizing handle w with
  | nil => exact hattributed
  | cons name rest ih =>
      exact ih (dbHandleReattach_spec mysql timeout hinv name).inv
        (dbHandleReattach_names hinv hattributed name).attributed

theorem dbHandleInit_attributed (user pass : Option Bytes) (server config : Bytes) (seed : Nat)
    (multidb : Bool) :
    Attributed mysql
      (result (dbHandleInit mysql timeout user pass server config seed multidb) World.start)
      (after (dbHandleInit mysql timeout user pass server config seed multidb) World.start) := by
  have hinv := dbHandleBlank_inv user pass server config seed multidb
  have hblank : Attributed mysql (dbHandleBlank user pass server config seed multidb)
      World.start := by
    constructor
    · simp [Grouped, World.start]
    · simp [Grouped, World.start]
  simp only [dbHandleInit, result_ite, after_ite]
  split
  · exact reattachAll_attributed hinv hblank _
  · exact reattachAll_attributed hinv hblank _

theorem started_attributed [CDouble δ] (user pass : Option Bytes) (server config : Bytes)
    (seed : Nat) (multidb : Bool) (earlier : List (JsonValue δ)) :
    Attributed mysql
      (result (started mysql timeout user pass server config seed multidb earlier) World.start)
      (after (started mysql timeout user pass server config seed multidb earlier) World.start) :=
  serve_attributed (dbHandleInit_inv mysql timeout user pass server config seed multidb)
    (dbHandleInit_attributed user pass server config seed multidb) earlier

end DbSlayer.Db
