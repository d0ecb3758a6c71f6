import DbSlayer.Db.Reattach
import DbSlayer.Foundation.Ring

/-! # Failover

A reattachment walks the ring of servers once, from the server it was attached
to, and stops at the first one that takes a connection. Every attempt closes the
handle that the attempt before it left.
-/

namespace DbSlayer.Db

open Foundation

/-! ## The server string -/

/-- The loop over the colons is a split of the server string. -/
theorem chopServers_eq (b rest : Bytes) :
    chopServers b rest = List.splitOnPPrepend (· == ch ':') rest b.reverse := by
  induction rest generalizing b with
  | nil => simp [chopServers]
  | cons c rest ih =>
      rw [chopServers, List.splitOnPPrepend_cons_eq_if]
      split
      next hsep => simp [hsep, ih]
      next hsep => simp [hsep, ih]

/-- There is one server more than there are colons. -/
theorem chopServers_count (b rest : Bytes) :
    (chopServers b rest).length = rest.count (ch ':') + 1 := by
  induction rest generalizing b with
  | nil => simp [chopServers]
  | cons c rest ih =>
      rw [chopServers]
      split
      next hsep => simp [hsep, ih]
      next hsep => simp [hsep, ih]

/-- The servers of a handle are the parts of a string, and its offset is that of a server. -/
structure Chopped (server : Bytes) (handle : DbHandle) : Prop where
  split : handle.server = (cstr server).splitOn (ch ':')
  join : [ch ':'].intercalate handle.server = cstr server
  count : handle.server.length = (cstr server).count (ch ':') + 1
  offset : handle.serverOffset < handle.server.length

/-- A new handle has the servers of its string, and starts at its seed modulo their number. -/
theorem chopped_dbHandleBlank (user pass : Option Bytes) (server config : Bytes) (seed : Nat)
    (multidb : Bool) : Chopped server (dbHandleBlank user pass server config seed multidb) := by
  have hsplit : chopServers [] (cstr server) = (cstr server).splitOn (ch ':') :=
    chopServers_eq [] (cstr server)
  refine ⟨hsplit, ?_, chopServers_count [] (cstr server), ?_⟩
  · rw [show (dbHandleBlank user pass server config seed multidb).server = _ from hsplit]
    exact List.intercalate_splitOn _
  · exact (dbHandleBlank_inv user pass server config seed multidb).offset

/-! ## The calls of a reattachment -/

variable {mysql : Mysql} {timeout : Nat}

/-- The handle that an attempt finds: that of the reattachment, or what the attempt in front
of it left. -/
def heldBefore (mysql : Mysql) (db : Option Token) (first : Nat) : Nat → Option Token
  | 0 => db
  | i + 1 => tokenAt mysql (first + i)

/-- The calls of one attempt at a server: the old handle is closed, and the new one connected
unless there is none. -/
def tryCalls (timeout : Nat) (handle : DbHandle) (old new : Option Token) (ct : Nat) :
    List Call :=
  (if old.isSome then [.close old] else []) ++ .init new ::
    if new.isSome then [.on new (.options (.readTimeout timeout)),
      .on new (.options (.writeTimeout timeout)),
      .on new (.options (.readDefaultFile handle.config)),
      .on new (.options (.readDefaultGroup (handle.serverAt ct))),
      .on new (.realConnect handle.user handle.pass)]
    else []

/-- The calls of `tries` attempts, the `i`-th of them at the `i`-th of the servers. -/
def walkCalls (mysql : Mysql) (timeout : Nat) (handle : DbHandle) (first : Nat) (cts : List Nat)
    (tries : Nat) : List Call :=
  (List.range tries).flatMap fun i =>
    tryCalls timeout handle (heldBefore mysql handle.db first i) (tokenAt mysql (first + i))
      (cts.getD i 0)

/-- How attempts at servers end: with the first that succeeds, or behind the last. -/
inductive Tried (mysql : Mysql) (timeout : Nat) (handle : DbHandle) (first : Nat) (cts : List Nat) :
    DbHandle × Bool → List Call → Prop
  | attached (i : Nat) (hi : i < cts.length)
      (hfailed : ∀ j < i, mysql.attempt (first + j) ≠ .connected)
      (hconnected : mysql.attempt (first + i) = .connected) :
      Tried mysql timeout handle first cts
        ({ handle with db := some (first + i), serverOffset := cts.getD i 0 }, true)
        (walkCalls mysql timeout handle first cts (i + 1))
  | exhausted (hfailed : ∀ j < cts.length, mysql.attempt (first + j) ≠ .connected) :
      Tried mysql timeout handle first cts
        ({ handle with db := heldBefore mysql handle.db first cts.length }, false)
        (walkCalls mysql timeout handle first cts cts.length)

theorem ringAttempt_trace (handle : DbHandle) (ct : Nat) (w : World) :
    (after (ringAttempt mysql timeout handle ct) w).trace =
      w.trace ++ tryCalls timeout handle handle.db (tokenAt mysql (attempts w.trace)) ct := by
  rw [ringAttempt_eq]
  simp only [attemptAt, after_bind, after_ite, after_pure, renewHandle_result]
  have htrace := @renewHandle_trace mysql handle.db w
  cases htoken : tokenAt mysql (attempts w.trace) with
  | none =>
      rw [htoken] at htrace
      simpa [tryCalls] using htrace
  | some t =>
      rw [htoken] at htrace
      simp only [Option.isNone_some, Bool.false_eq_true, if_false, connectTo_trace, htrace]
      simp [tryCalls]

/-- Every attempt asks for one handle, also when it gets none. -/
theorem attempts_tryCalls (handle : DbHandle) (old new : Option Token) (ct : Nat) :
    attempts (tryCalls timeout handle old new ct) = 1 := by
  cases old <;> cases new <;> rfl

theorem walkCalls_cons (handle : DbHandle) (first ct : Nat) (rest : List Nat) (tries : Nat) :
    walkCalls mysql timeout handle first (ct :: rest) (tries + 1) =
      tryCalls timeout handle handle.db (tokenAt mysql first) ct ++
        walkCalls mysql timeout { handle with db := tokenAt mysql first } (first + 1) rest
          tries := by
  rw [walkCalls, List.range_succ_eq_map, List.flatMap_cons, List.flatMap_map]
  congr 1
  refine List.flatMap_congr fun i _ => ?_
  have hheld : heldBefore mysql handle.db first (i + 1) =
      heldBefore mysql (tokenAt mysql first) (first + 1) i := by
    cases i with
    | zero => rfl
    | succ i => rw [heldBefore, heldBefore, Nat.add_assoc, Nat.add_comm 1 i]
  rw [hheld, Nat.add_assoc, Nat.add_comm 1 i]
  rfl

/-- A walk whose first attempt fails comes to what the others come to, with the calls of the
first in front. -/
theorem Tried.cons {handle : DbHandle} {first ct : Nat} {rest : List Nat}
    {outcome : DbHandle × Bool} {calls : List Call}
    (hfailed : mysql.attempt first ≠ .connected)
    (htried : Tried mysql timeout { handle with db := tokenAt mysql first } (first + 1) rest
      outcome calls) :
    Tried mysql timeout handle first (ct :: rest) outcome
      (tryCalls timeout handle handle.db (tokenAt mysql first) ct ++ calls) := by
  have hshift : ∀ i, first + 1 + i = first + (i + 1) := fun i => by omega
  have hbefore : ∀ i, (∀ j < i, mysql.attempt (first + 1 + j) ≠ .connected) →
      ∀ j < i + 1, mysql.attempt (first + j) ≠ .connected := by
    intro i hlater j hj
    cases j with
    | zero => exact hfailed
    | succ j =>
        rw [← hshift]
        exact hlater j (by omega)
  cases htried with
  | attached i hi hlater hconnected =>
      rw [← walkCalls_cons, hshift]
      refine Tried.attached (i + 1) (Nat.succ_lt_succ hi) (hbefore i hlater) ?_
      rwa [← hshift]
  | exhausted hlater =>
      rw [← walkCalls_cons]
      have hheld : heldBefore mysql (tokenAt mysql first) (first + 1) rest.length =
          heldBefore mysql handle.db first (ct :: rest).length := by
        rw [List.length_cons]
        cases rest.length with
        | zero => rfl
        | succ n => rw [heldBefore, heldBefore, hshift]
      rw [hheld]
      exact Tried.exhausted (hbefore rest.length hlater)

/-- The loop tries the servers of its list in order, up to the first that connects. The
induction is on the list. -/
theorem tried_ringLoop (cts : List Nat) (handle : DbHandle) (w : World) :
    ∃ calls, (after (ringLoop mysql timeout cts handle) w).trace = w.trace ++ calls ∧
      Tried mysql timeout handle (attempts w.trace) cts
        (result (ringLoop mysql timeout cts handle) w) calls := by
  induction cts generalizing handle w with
  | nil =>
      refine ⟨[], (List.append_nil _).symm, ?_⟩
      exact Tried.exhausted (by simp)
  | cons ct rest ih =>
      have htrace := @ringAttempt_trace mysql timeout handle ct w
      simp only [ringLoop, result_bind, after_bind, result_ite, after_ite, result_pure, after_pure,
        ringAttempt_result]
      generalize after (ringAttempt mysql timeout handle ct) w = reached at htrace ⊢
      by_cases hok : mysql.attempt (attempts w.trace) = .connected
      · simp only [hok, if_true]
        refine ⟨_, htrace, ?_⟩
        have hfirst := @Tried.attached mysql timeout handle (attempts w.trace) (ct :: rest) 0
          (by simp) (by simp) hok
        rw [walkCalls_cons] at hfirst
        simpa [walkCalls] using hfirst
      · simp only [hok, if_false, Bool.false_eq_true]
        obtain ⟨calls, hcalls, htried⟩ :=
          ih { handle with db := tokenAt mysql (attempts w.trace) } reached
        refine ⟨_, ?_, Tried.cons hok (?_ : Tried _ _ _ _ _ _ calls)⟩
        · rw [hcalls, htrace, List.append_assoc]
        · rwa [htrace, attempts_append, attempts_tryCalls] at htried

/-- A reattachment of a handle with a ring goes around it: the servers behind the offset first,
then those in front of it. -/
theorem tried_dbHandleReattach {handle : DbHandle} (hsingle : handle.dblookup = none)
    (hoffset : handle.serverOffset < handle.server.length) (dbserverName : Bytes) (w : World) :
    ∃ calls, (after (dbHandleReattach mysql timeout handle dbserverName) w).trace =
        w.trace ++ calls ∧
      Tried mysql timeout handle (attempts w.trace)
        (Ring.around handle.server.length handle.serverOffset)
        (result (dbHandleReattach mysql timeout handle dbserverName) w) calls := by
  rw [result, after, dbHandleReattach_ring mysql timeout hsingle, ← result, ← after,
    handle.ring_eq hoffset]
  exact tried_ringLoop _ handle w

/-! ## One handle at a time -/

theorem not_live_none (trace : List Call) : ¬ handles.Live trace none := by
  rintro ⟨⟨call, -, hopen⟩, -⟩
  cases call with
  | init new => cases new <;> simp [handles] at hopen
  | _ => simp [handles] at hopen

/-- Closing the handle that is open, unless it is null, leaves nothing open, and at no moment
more than that one. -/
theorem oneAtATime_close {seen : List Call} {old : Option Token}
    (hwithin : handles.LiveWithin seen [old]) :
    handles.OneAtATime seen (if old.isSome then [.close old] else []) ∧
      handles.LiveWithin (seen ++ if old.isSome then [.close old] else []) [] := by
  cases old with
  | none =>
      refine ⟨Ledger.oneAtATime_nil hwithin le_rfl, fun r hlive => ?_⟩
      rw [Option.isSome_none, if_neg (by decide), List.append_nil] at hlive
      rw [List.mem_singleton.mp (hwithin r hlive)] at hlive
      exact absurd hlive (not_live_none seen)
  | some t =>
      have hclosed : handles.LiveWithin (seen ++ [.close (some t)]) [] := hwithin.close rfl rfl
      exact ⟨Ledger.oneAtATime_cons hwithin le_rfl (Ledger.oneAtATime_nil hclosed (by simp)),
        hclosed⟩

/-- An attempt closes the handle that it finds before it opens another. -/
theorem oneAtATime_tryCalls (handle : DbHandle) {seen : List Call} {old : Option Token}
    (hwithin : handles.LiveWithin seen [old]) (new : Option Token) (ct : Nat) :
    handles.OneAtATime seen (tryCalls timeout handle old new ct) ∧
      handles.LiveWithin (seen ++ tryCalls timeout handle old new ct) [new] := by
  obtain ⟨hclose, hclosed⟩ := oneAtATime_close hwithin
  have hopened : ∀ closed : List Call, handles.LiveWithin closed [] →
      handles.LiveWithin (closed ++ [.init new]) [new] := by
    intro closed hclosed
    cases new with
    | none =>
        intro r hlive
        exact absurd (hclosed.neutral (by simp [Ledger.Neutral, handles]) r hlive) (by simp)
    | some t => exact hclosed.open rfl
  have hneutral : handles.Neutral (if new.isSome then [
      .on new (.options (.readTimeout timeout)), .on new (.options (.writeTimeout timeout)),
      .on new (.options (.readDefaultFile handle.config)),
      .on new (.options (.readDefaultGroup (handle.serverAt ct))),
      .on new (.realConnect handle.user handle.pass)] else []) := by
    split <;> simp [Ledger.Neutral, handles]
  unfold tryCalls
  generalize (if old.isSome then [Call.close old] else []) = closing at hclose hclosed ⊢
  have hopen := hopened (seen ++ closing) hclosed
  refine ⟨hclose.append (Ledger.oneAtATime_cons hclosed (by simp)
    (Ledger.oneAtATime_neutral hopen le_rfl hneutral)), ?_⟩
  rw [List.append_cons, ← List.append_assoc, ← List.append_assoc]
  exact hopen.neutral hneutral

/-- The handles that are open behind a walk: at most the one that it leaves. -/
theorem oneAtATime_walkCalls {handle : DbHandle} {seen : List Call}
    (hwithin : handles.LiveWithin seen [handle.db]) (first : Nat) (cts : List Nat) (tries : Nat) :
    handles.OneAtATime seen (walkCalls mysql timeout handle first cts tries) ∧
      handles.LiveWithin (seen ++ walkCalls mysql timeout handle first cts tries)
        [heldBefore mysql handle.db first tries] := by
  induction tries with
  | zero =>
      refine ⟨Ledger.oneAtATime_nil hwithin le_rfl, ?_⟩
      simpa [walkCalls, heldBefore] using hwithin
  | succ tries ih =>
      obtain ⟨hone, hwithin'⟩ := ih
      obtain ⟨hone', hlast⟩ := @oneAtATime_tryCalls timeout handle _ _ hwithin'
        (tokenAt mysql (first + tries)) (cts.getD tries 0)
      rw [walkCalls, List.range_succ, List.flatMap_append, List.flatMap_singleton]
      exact ⟨hone.append hone', by rwa [← List.append_assoc]⟩

/-- At no moment of a walk are two connections open. -/
theorem Tried.oneAtATime {handle : DbHandle} {first : Nat} {cts : List Nat}
    {outcome : DbHandle × Bool} {calls seen : List Call}
    (htried : Tried mysql timeout handle first cts outcome calls)
    (hwithin : handles.LiveWithin seen [handle.db]) :
    handles.OneAtATime seen calls ∧ handles.LiveWithin (seen ++ calls) [outcome.1.db] := by
  cases htried with
  | attached i hi hfailed hconnected =>
      have hwalk := @oneAtATime_walkCalls mysql timeout handle seen hwithin first cts (i + 1)
      rwa [heldBefore, tokenAt, if_neg (by simp [hconnected])] at hwalk
  | exhausted hfailed => exact oneAtATime_walkCalls hwithin first cts cts.length

/-- A walk leaves the list of the servers and the mode of the handle alone, and the offset on
the ring. -/
theorem Tried.ring {handle : DbHandle} {first : Nat} {outcome : DbHandle × Bool}
    {calls : List Call} (hoffset : handle.serverOffset < handle.server.length)
    (htried : Tried mysql timeout handle first
      (Ring.around handle.server.length handle.serverOffset) outcome calls) :
    outcome.1.dblookup = handle.dblookup ∧ outcome.1.server = handle.server ∧
      outcome.1.serverOffset < outcome.1.server.length := by
  cases htried with
  | attached i hi hfailed hconnected =>
      refine ⟨rfl, rfl, ?_⟩
      rw [List.getD_eq_getElem?_getD, List.getElem?_eq_getElem hi]
      exact Ring.lt_of_mem_around (List.getElem_mem hi)
  | exhausted hfailed => exact ⟨rfl, rfl, hoffset⟩

/-- Reattachments one after the other never have two connections open, by induction on the
names. -/
theorem oneAtATime_reattachAll {handle : DbHandle} {seen : List Call}
    (hsingle : handle.dblookup = none) (hoffset : handle.serverOffset < handle.server.length)
    (hwithin : handles.LiveWithin seen [handle.db]) (names : List Bytes) (w : World) :
    ∃ calls, (after (reattachAll mysql timeout handle names) w).trace = w.trace ++ calls ∧
      handles.OneAtATime seen calls := by
  induction names generalizing handle seen w with
  | nil => exact ⟨[], (List.append_nil _).symm, Ledger.oneAtATime_nil hwithin le_rfl⟩
  | cons name rest ih =>
      obtain ⟨calls, htrace, htried⟩ :=
        @tried_dbHandleReattach mysql timeout handle hsingle hoffset name w
      obtain ⟨hone, hwithin'⟩ := htried.oneAtATime hwithin
      obtain ⟨hsingle', -, hoffset'⟩ := htried.ring hoffset
      obtain ⟨more, hmore, hone'⟩ := ih (hsingle'.trans hsingle) hoffset' hwithin'
        (after (dbHandleReattach mysql timeout handle name) w)
      refine ⟨calls ++ more, ?_, hone.append hone'⟩
      rw [← List.append_assoc, ← htrace]
      exact hmore

/-! ## The ring is visited once -/

/-- Reattaching changes neither the list of the servers nor how it was chopped. -/
theorem Chopped.reattach {server : Bytes} {handle : DbHandle} (hchopped : Chopped server handle)
    (dbserverName : Bytes) (w : World) :
    Chopped server (result (dbHandleReattach mysql timeout handle dbserverName) w).1 := by
  cases hmode : handle.dblookup with
  | none =>
      obtain ⟨calls, -, htried⟩ :=
        @tried_dbHandleReattach mysql timeout handle hmode hchopped.offset dbserverName w
      obtain ⟨-, hserver, hoffset⟩ := htried.ring hchopped.offset
      exact ⟨hserver ▸ hchopped.split, hserver ▸ hchopped.join, hserver ▸ hchopped.count, hoffset⟩
  | some table =>
      rw [dbHandleReattach_named_eq mysql timeout hmode]
      exact ⟨hchopped.split, hchopped.join, hchopped.count, hchopped.offset⟩

theorem Chopped.reattachAll {server : Bytes} {handle : DbHandle} (hchopped : Chopped server handle)
    (names : List Bytes) (w : World) :
    Chopped server (result (reattachAll mysql timeout handle names) w) := by
  induction names generalizing handle w with
  | nil => exact hchopped
  | cons name rest ih => exact ih (hchopped.reattach name w) _

/-- The servers of a handle are those of its string, in their order. -/
theorem chopped_dbHandleInit (user pass : Option Bytes) (server config : Bytes) (seed : Nat)
    (multidb : Bool) (w : World) :
    Chopped server
      (result (dbHandleInit mysql timeout user pass server config seed multidb) w) := by
  have hblank := chopped_dbHandleBlank user pass server config seed multidb
  rw [dbHandleInit, result_ite]
  split
  · exact hblank.reattachAll _ w
  · exact hblank.reattachAll _ w

/-- A walk fails exactly when every server of it fails, so one that can be reached is always
found. -/
theorem Tried.failed_iff {handle : DbHandle} {first : Nat} {cts : List Nat}
    {outcome : DbHandle × Bool} {calls : List Call}
    (htried : Tried mysql timeout handle first cts outcome calls) :
    outcome.2 = false ↔ ∀ i < cts.length, mysql.attempt (first + i) ≠ .connected := by
  cases htried with
  | attached i hi hfailed hconnected =>
      simp only [Bool.true_eq_false, false_iff, not_forall, not_not]
      exact ⟨i, hi, hconnected⟩
  | exhausted hfailed => simpa using hfailed

/-- The servers of a handle are those of its string. A reattachment tries them around the ring,
each once, up to the first that takes the connection; it fails when none does, and at no point
of any number of reattachments are two of their handles open. -/
theorem failover_visits_ring_once (mysql : Mysql) (timeout : Nat) :
    (∀ (user pass : Option Bytes) (server config : Bytes) (seed : Nat) (multidb : Bool) (w : World),
      Chopped server (dbHandleBlank user pass server config seed multidb) ∧
        Chopped server
          (result (dbHandleInit mysql timeout user pass server config seed multidb) w)) ∧
    ∀ (handle : DbHandle) (w : World), handle.dblookup = none →
      handle.serverOffset < handle.server.length →
      (Ring.around handle.server.length handle.serverOffset).Nodup ∧
      (∀ dbserverName, ∃ calls,
        (after (dbHandleReattach mysql timeout handle dbserverName) w).trace = w.trace ++ calls ∧
        Tried mysql timeout handle (attempts w.trace)
          (Ring.around handle.server.length handle.serverOffset)
          (result (dbHandleReattach mysql timeout handle dbserverName) w) calls ∧
        ((result (dbHandleReattach mysql timeout handle dbserverName) w).2 = false ↔
          ∀ i < handle.server.length, mysql.attempt (attempts w.trace + i) ≠ .connected)) ∧
      ∀ names, ∃ calls,
        (after (reattachAll mysql timeout handle names) w).trace = w.trace ++ calls ∧
        handles.OneAtATime [] calls := by
  refine ⟨fun user pass server config seed multidb w =>
    ⟨chopped_dbHandleBlank user pass server config seed multidb,
      chopped_dbHandleInit user pass server config seed multidb w⟩, ?_⟩
  intro handle w hsingle hoffset
  refine ⟨Ring.nodup_around hoffset, fun dbserverName => ?_, fun names => ?_⟩
  · obtain ⟨calls, htrace, htried⟩ :=
      @tried_dbHandleReattach mysql timeout handle hsingle hoffset dbserverName w
    refine ⟨calls, htrace, htried, ?_⟩
    simpa using htried.failed_iff
  · exact oneAtATime_reattachAll hsingle hoffset (by simp [Ledger.LiveWithin, Ledger.Live]) names w

/-- The first server refuses, for the second there is no handle, and the third connects. -/
def wrappingServer : Mysql where
  attempt
    | 0 => .refused
    | 1 => .noHandle
    | _ => .connected
  query _ := .error ⟨2006, bytes "MySQL server has gone away"⟩ false
  rollback _ := false
  stat _ := none
  hostInfo _ := none
  serverVersion _ := 0
  clientInfo := []
  clientVersion := 0

/-- From the second of three servers, around the end to the first. -/
theorem failover_wraps :
    (dbHandleBlank none none (bytes "db1:db2:db3") (bytes "/etc/my.cnf") 4 false).serverOffset = 1 ∧
      (result (dbHandleReattach wrappingServer 30
        (dbHandleBlank none none (bytes "db1:db2:db3") (bytes "/etc/my.cnf") 4 false) [])
        World.start).1.serverOffset = 0 ∧
      (result (dbHandleReattach wrappingServer 30
        (dbHandleBlank none none (bytes "db1:db2:db3") (bytes "/etc/my.cnf") 4 false) [])
        World.start).2 ≠ false := by
  refine ⟨by decide, by decide, ?_⟩
  have hring := (failover_visits_ring_once wrappingServer 30).2
    (dbHandleBlank none none (bytes "db1:db2:db3") (bytes "/etc/my.cnf") 4 false) World.start rfl
    (by decide)
  obtain ⟨calls, -, -, hfailed⟩ := hring.2.1 []
  intro hnull
  exact hfailed.mp hnull 2 (by decide) rfl

end DbSlayer.Db
