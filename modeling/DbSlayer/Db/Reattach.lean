import DbSlayer.Db.Calls
import DbSlayer.Foundation.Ring

/-! # Who holds which handle

A `db_handle_t` holds the handles in its field or in its table, and those are
the open ones. Reattaching closes what it replaces.
-/

namespace DbSlayer.Db

open Foundation

variable {mysql : Mysql}

/-- The tokens of a table of named servers. -/
def tableTokens (table : List (Bytes × Option Token)) : List Token := table.filterMap Prod.snd

/-- The tokens that a handle holds. -/
def DbHandle.held (handle : DbHandle) : List Token :=
  match handle.dblookup with
  | none => handle.db.toList
  | some table => tableTokens table

/-- The open handles are `held`, and no later attempt gets a token that was used. -/
structure Owned (w : World) (held : List Token) : Prop where
  holds : handles.Holds w.trace (held.map some)
  fresh : ∀ call ∈ w.trace, ∀ t,
    handles.opens call = some (some t) ∨ handles.closes call = some (some t) → t < attempts w.trace

/-- From `w` to `w'` every call was made on an open handle, and nothing was
queried. -/
def Quiet (w w' : World) : Prop :=
  ∃ calls, w'.trace = w.trace ++ calls ∧ handles.Guarded w.trace calls ∧ queries calls = 0

theorem Quiet.trans {w w' w'' : World} (hfirst : Quiet w w') (hsecond : Quiet w' w'') :
    Quiet w w'' := by
  obtain ⟨first, htrace, hguarded, hqueries⟩ := hfirst
  obtain ⟨second, htrace', hguarded', hqueries'⟩ := hsecond
  refine ⟨first ++ second, by rw [htrace', htrace, List.append_assoc], ?_, by
    simp [hqueries, hqueries']⟩
  exact Ledger.guarded_append.mpr ⟨hguarded, htrace ▸ hguarded'⟩

theorem Quiet.mem {w w' : World} (hquiet : Quiet w w') {call : Call} (hcall : call ∈ w.trace) :
    call ∈ w'.trace := by
  obtain ⟨calls, htrace, -⟩ := hquiet
  exact htrace ▸ List.mem_append_left _ hcall

theorem Quiet.refl (w : World) : Quiet w w := ⟨[], by simp, trivial, rfl⟩

namespace Owned

theorem live_iff {w : World} {held : List Token} (howned : Owned w held) (t : Token) :
    handles.Live w.trace (some t) ↔ t ∈ held := by
  rw [← howned.holds.live]
  simp

theorem not_live_none {w : World} {held : List Token} (howned : Owned w held) :
    ¬ handles.Live w.trace none := by
  rw [← howned.holds.live]
  simp

theorem perm {w : World} {held other : List Token} (howned : Owned w held)
    (hperm : held.Perm other) : Owned w other :=
  ⟨howned.holds.perm (hperm.map some), howned.fresh⟩

/-- Calls that neither open nor close leave the accounts alone. -/
theorem neutral {w w' : World} {held : List Token} {calls : List Call} (howned : Owned w held)
    (htrace : w'.trace = w.trace ++ calls) (hneutral : handles.Neutral calls) :
    Owned w' held := by
  refine ⟨htrace ▸ howned.holds.neutral hneutral, ?_⟩
  rw [htrace]
  intro call hcall t ht
  rcases List.mem_append.mp hcall with hold | hnew
  · rw [attempts_append]
    exact Nat.lt_add_right _ (howned.fresh call hold t ht)
  · simp [hneutral call hnew] at ht

theorem close {w : World} {t : Token} {rest : List Token} (howned : Owned w (t :: rest)) :
    Owned (after (mysqlClose (some t)) w) rest := by
  refine ⟨howned.holds.closeHeld rfl rfl, ?_⟩
  simp only [mysqlClose, record_trace, attempts_append]
  intro call hcall s hs
  rcases List.mem_append.mp hcall with hold | hnew
  · exact Nat.lt_add_right _ (howned.fresh call hold s hs)
  · obtain rfl := List.mem_singleton.mp hnew
    obtain rfl : t = s := by simpa [handles] using hs
    obtain ⟨⟨call, hcall, hopen⟩, -⟩ := (howned.live_iff t).mpr List.mem_cons_self
    exact Nat.lt_add_right _ (howned.fresh call hcall t (.inl hopen))

/-- A new handle is held together with the older ones, if there is one. -/
theorem init {w : World} {rest : List Token} (howned : Owned w rest) :
    Owned (after (mysqlInit mysql) w) ((result (mysqlInit mysql) w).toList ++ rest) := by
  simp only [mysqlInit, result_bind, result_get, after_get, result_pure, after_bind, after_pure]
  by_cases hattempt : mysql.attempt (attempts w.trace) = .noHandle
  · simp only [hattempt, if_true, Option.toList_none, List.nil_append]
    exact howned.neutral rfl (by simp [Ledger.Neutral, handles])
  · simp only [hattempt, if_false, Option.toList_some, List.singleton_append]
    refine ⟨howned.holds.openFresh rfl rfl ?_, ?_⟩
    · intro call hcall
      refine ⟨fun hopen => ?_, fun hclose => ?_⟩
      · exact Nat.lt_irrefl _ (howned.fresh call hcall _ (.inl hopen))
      · exact Nat.lt_irrefl _ (howned.fresh call hcall _ (.inr hclose))
    · simp only [record_trace, attempts_append]
      intro call hcall s hs
      rcases List.mem_append.mp hcall with hold | hnew
      · exact Nat.lt_add_right _ (howned.fresh call hold s hs)
      · obtain rfl := List.mem_singleton.mp hnew
        obtain rfl : attempts w.trace = s := by simpa [handles] using hs
        exact Nat.lt_succ_self _

end Owned

/-! ## One attempt -/

/-- The token of the `i`-th attempt, if it got a handle. -/
def tokenAt (mysql : Mysql) (i : Nat) : Option Token :=
  if mysql.attempt i = .noHandle then none else some i

/-- The handle of an attempt is its number, unless there is none. -/
theorem tokenAt_eq_some {i t : Nat} :
    tokenAt mysql i = some t ↔ t = i ∧ mysql.attempt t ≠ .noHandle := by
  unfold tokenAt
  split
  next hno =>
    simp only [reduceCtorEq, false_iff, not_and, not_not]
    rintro rfl
    exact hno
  next hhandle =>
    simp only [Option.some.injEq]
    constructor
    · rintro rfl
      exact ⟨rfl, hhandle⟩
    · rintro ⟨rfl, -⟩
      rfl

/-- What an attempt comes to, before and after its calls. -/
structure Renewed (mysql : Mysql) (old : Option Token) (rest : List Token) (w : World)
    (new : Option Token) (w' : World) : Prop where
  quiet : Quiet w w'
  owned : Owned w' (new.toList ++ rest)
  attempts : attempts w'.trace = attempts w.trace + 1
  new_eq : new = if mysql.attempt (Db.attempts w.trace) = .noHandle then none
    else some (Db.attempts w.trace)
  closed : ∀ t, old = some t → .close (some t) ∈ w'.trace

/-- Without an old handle, renewing is getting a new one. -/
theorem renewed_init {rest : List Token} {w : World} (howned : Owned w rest) :
    Renewed mysql none rest w (result (mysqlInit mysql) w) (after (mysqlInit mysql) w) where
  quiet := by
    refine ⟨_, rfl, ?_, rfl⟩
    exact ⟨by simp [handles], trivial⟩
  owned := howned.init
  attempts := by simp [mysqlInit, attempts, Call.isInit]
  new_eq := rfl
  closed := by simp

theorem attempts_mysqlClose (db : Option Token) (w : World) :
    attempts (after (mysqlClose db) w).trace = attempts w.trace := by
  simp [mysqlClose, attempts, Call.isInit]

/-- The old handle is closed and a new one is held in its place. -/
theorem renewHandle_spec {old : Option Token} {rest : List Token} {w : World}
    (howned : Owned w (old.toList ++ rest)) :
    Renewed mysql old rest w (result (renewHandle mysql old) w)
      (after (renewHandle mysql old) w) := by
  cases old with
  | none => exact renewed_init howned
  | some t =>
      have hclosed : Owned (after (mysqlClose (some t)) w) rest := howned.close
      have hrenewed : Renewed mysql none rest (after (mysqlClose (some t)) w) _ _ :=
        renewed_init hclosed
      have hclose : Quiet w (after (mysqlClose (some t)) w) := by
        refine ⟨[.close (some t)], rfl, ⟨?_, trivial⟩, rfl⟩
        intro r hr
        obtain rfl : some t = r := by simpa [handles] using hr
        exact (howned.live_iff t).mpr (by simp)
      have hcount := attempts_mysqlClose (some t) w
      exact
        { quiet := hclose.trans hrenewed.quiet
          owned := hrenewed.owned
          attempts := hcount ▸ hrenewed.attempts
          new_eq := hcount ▸ hrenewed.new_eq
          closed := by
            rintro s hs
            obtain rfl := Option.some.inj hs
            obtain ⟨calls, htrace, -⟩ := hrenewed.quiet
            exact htrace ▸ List.mem_append_left _ (by simp [mysqlClose]) }

/-- Which handle comes out is decided by the number of the attempt. -/
theorem renewHandle_result (old : Option Token) (w : World) :
    result (renewHandle mysql old) w = tokenAt mysql (attempts w.trace) := by
  cases old with
  | none => rfl
  | some t =>
      have hinit : result (renewHandle mysql (some t)) w =
          tokenAt mysql (attempts (after (mysqlClose (some t)) w).trace) := rfl
      rw [hinit, attempts_mysqlClose]

theorem renewHandle_trace (old : Option Token) (w : World) :
    (after (renewHandle mysql old) w).trace =
      w.trace ++ ((if old.isSome then [.close old] else []) ++
        [.init (tokenAt mysql (attempts w.trace))]) := by
  cases old with
  | none => rfl
  | some t =>
      have hinit : (after (renewHandle mysql (some t)) w).trace =
          w.trace ++ [.close (some t)] ++
            [.init (tokenAt mysql (attempts (after (mysqlClose (some t)) w).trace))] := rfl
      rw [hinit, attempts_mysqlClose, List.append_assoc]
      rfl

/-- The four options and the connection, in this order. -/
theorem connectTo_trace (mysql : Mysql) (timeout : Nat) (db : Option Token)
    (config server : Bytes) (user pass : Option Bytes) (w : World) :
    (after (connectTo mysql timeout db config server user pass) w).trace =
      w.trace ++ [.on db (.options (.readTimeout timeout)),
        .on db (.options (.writeTimeout timeout)), .on db (.options (.readDefaultFile config)),
        .on db (.options (.readDefaultGroup server)), .on db (.realConnect user pass)] := by
  simp [connectTo, dbSetQueryTimeouts, mysqlOptions, mysqlRealConnect]

/-- Setting the options and connecting keeps the accounts: the new handle is held before and
after, connected or not. -/
theorem connectTo_spec (mysql : Mysql) (timeout : Nat) {t : Token} {held : List Token} {w : World}
    (howned : Owned w held) (hheld : t ∈ held) (config server : Bytes)
    (user pass : Option Bytes) :
    Quiet w (after (connectTo mysql timeout (some t) config server user pass) w) ∧
      Owned (after (connectTo mysql timeout (some t) config server user pass) w) held ∧
      attempts (after (connectTo mysql timeout (some t) config server user pass) w).trace =
        attempts w.trace := by
  have htrace := connectTo_trace mysql timeout (some t) config server user pass w
  generalize hcalls : ([.on (some t) (.options (.readTimeout timeout)),
    .on (some t) (.options (.writeTimeout timeout)),
    .on (some t) (.options (.readDefaultFile config)),
    .on (some t) (.options (.readDefaultGroup server)),
    .on (some t) (.realConnect user pass)] : List Call) = calls at htrace
  have honly : handles.OnlyOn (some t) calls := by
    simp [Ledger.OnlyOn, Ledger.Neutral, ← hcalls, handles]
  refine ⟨⟨calls, htrace, ?_, by rw [← hcalls]; rfl⟩, howned.neutral htrace honly.1, ?_⟩
  · exact honly.guarded_iff.mpr (.inl ((howned.live_iff t).mpr hheld))
  · rw [htrace, attempts_append, ← hcalls]
    rfl

/-- The body of every reattachment: a new handle, and a connection unless it is null. -/
def attemptAt (mysql : Mysql) (timeout : Nat) (old : Option Token) (config server : Bytes)
    (user pass : Option Bytes) : Client (Option Token × Bool) := do
  let db ← renewHandle mysql old
  if db.isNone then return (db, false)
  else
    let connected ← connectTo mysql timeout db config server user pass
    return (db, connected)

/-- An attempt connects when MySQL says so about its number. -/
theorem attemptAt_result (mysql : Mysql) (timeout : Nat) (old : Option Token)
    (config server : Bytes) (user pass : Option Bytes) (w : World) :
    result (attemptAt mysql timeout old config server user pass) w =
      (tokenAt mysql (attempts w.trace),
        decide (mysql.attempt (attempts w.trace) = .connected)) := by
  simp only [attemptAt, result_bind, result_ite, result_pure, renewHandle_result]
  cases hattempt : mysql.attempt (attempts w.trace) with
  | noHandle => simp [tokenAt, hattempt]
  | refused => simp [tokenAt, hattempt, connectTo, mysqlRealConnect]
  | connected => simp [tokenAt, hattempt, connectTo, mysqlRealConnect]

/-- A whole attempt keeps the accounts as its first half does. -/
theorem attemptAt_renewed (mysql : Mysql) (timeout : Nat) {old : Option Token} {rest : List Token}
    {w : World} (howned : Owned w (old.toList ++ rest)) (config server : Bytes)
    (user pass : Option Bytes) :
    Renewed mysql old rest w (tokenAt mysql (attempts w.trace))
      (after (attemptAt mysql timeout old config server user pass) w) := by
  have hrenewed : Renewed mysql old rest w _ _ := renewHandle_spec howned
  simp only [attemptAt, after_bind, after_ite, after_pure]
  rw [renewHandle_result] at hrenewed ⊢
  generalize after (renewHandle mysql old) w = reached at hrenewed ⊢
  cases htoken : tokenAt mysql (attempts w.trace) with
  | none => rwa [htoken] at hrenewed
  | some t =>
      rw [htoken] at hrenewed
      have hmem : t ∈ (some t).toList ++ rest := by simp
      obtain ⟨hquiet, howned', hcount⟩ := connectTo_spec mysql timeout hrenewed.owned hmem config
        server user pass
      exact
        { quiet := hrenewed.quiet.trans hquiet
          owned := howned'
          attempts := hcount.trans hrenewed.attempts
          new_eq := hrenewed.new_eq
          closed := fun s hs => hquiet.mem (hrenewed.closed s hs) }

/-- An attempt on the ring is an attempt on the server at that place. -/
theorem ringAttempt_eq (mysql : Mysql) (timeout : Nat) (handle : DbHandle) (ct : Nat) :
    ringAttempt mysql timeout handle ct = (do
      let (db, connected) ← attemptAt mysql timeout handle.db handle.config (handle.serverAt ct)
        handle.user handle.pass
      return if connected then ({ handle with db, serverOffset := ct }, true)
        else ({ handle with db }, false)) := by
  simp only [ringAttempt, attemptAt, bind_assoc]
  congr
  funext db
  cases db with
  | none => rfl
  | some t =>
      simp only [Option.isNone_some, Bool.false_eq_true, if_false, bind_assoc, pure_bind]
      congr
      funext connected
      cases connected <;> rfl

/-- Only an attempt that connects moves the offset, so a walk that fails leaves the ring where
it was. -/
theorem ringAttempt_result (mysql : Mysql) (timeout : Nat) (handle : DbHandle) (ct : Nat)
    (w : World) :
    result (ringAttempt mysql timeout handle ct) w =
      if mysql.attempt (attempts w.trace) = .connected then
        ({ handle with db := some (attempts w.trace), serverOffset := ct }, true)
      else ({ handle with db := tokenAt mysql (attempts w.trace) }, false) := by
  rw [ringAttempt_eq]
  simp only [result_bind, result_pure, attemptAt_result, decide_eq_true_eq]
  split
  next hok => simp [tokenAt, hok]
  next => rfl

/-- For named servers, reattaching is one attempt under the name. -/
theorem dbHandleReattach_named_eq (mysql : Mysql) (timeout : Nat) {handle : DbHandle}
    {table : List (Bytes × Option Token)} (hnamed : handle.dblookup = some table)
    (dbserverName : Bytes) :
    dbHandleReattach mysql timeout handle dbserverName = (do
      let (db, connected) ← attemptAt mysql timeout (lookupGet table dbserverName) handle.config
        dbserverName none none
      return ({ handle with dblookup := some (Assoc.replace strcmp dbserverName db table) },
        connected)) := by
  simp only [dbHandleReattach, hnamed, attemptAt, bind_assoc]
  congr
  funext db
  cases db with
  | none => rfl
  | some t =>
      simp only [Option.isNone_some, Bool.false_eq_true, if_false, bind_assoc, pure_bind]

/-! ## The ring -/

/-- What attempts at the servers `cts` come to, for a handle of a ring. -/
structure RingSpec (mysql : Mysql) (cts : List Nat) (handle : DbHandle) (w : World)
    (handle' : DbHandle) (attached : Bool) (w' : World) : Prop where
  quiet : Quiet w w'
  owned : Owned w' handle'.db.toList
  single : handle'.dblookup = handle.dblookup
  server : handle'.server = handle.server
  attached_iff : attached = true ↔
    ∃ i < cts.length, mysql.attempt (attempts w.trace + i) = .connected
  db_isSome : attached = true → handle'.db.isSome = true
  offset : handle'.serverOffset ∈ cts ∨ handle'.serverOffset = handle.serverOffset
  failed : attached = false → handle'.serverOffset = handle.serverOffset ∧
    attempts w'.trace = attempts w.trace + cts.length
  closed : ∀ t, handle.db = some t →
    cts = [] ∧ handle'.db = some t ∨ .close (some t) ∈ w'.trace

theorem ringAttempt_spec (mysql : Mysql) (timeout : Nat) {handle : DbHandle} {w : World}
    (howned : Owned w handle.db.toList) (ct : Nat) :
    RingSpec mysql [ct] handle w (result (ringAttempt mysql timeout handle ct) w).1
      (result (ringAttempt mysql timeout handle ct) w).2
      (after (ringAttempt mysql timeout handle ct) w) := by
  have hold : Owned w (handle.db.toList ++ []) := by simpa using howned
  have hrenewed := attemptAt_renewed mysql timeout hold handle.config (handle.serverAt ct)
    handle.user handle.pass
  have howned' := hrenewed.owned
  rw [List.append_nil] at howned'
  rw [ringAttempt_eq]
  simp only [result_bind, after_bind, result_pure, after_pure, attemptAt_result]
  by_cases hok : mysql.attempt (attempts w.trace) = .connected
  · simp only [hok, decide_true, if_true]
    exact
      { quiet := hrenewed.quiet
        owned := howned'
        single := rfl
        server := rfl
        attached_iff := by simp [hok]
        db_isSome := by simp [tokenAt, hok]
        offset := .inl (by simp)
        failed := by simp
        closed := fun t ht => .inr (hrenewed.closed t ht) }
  · simp only [hok, decide_false, Bool.false_eq_true, if_false]
    exact
      { quiet := hrenewed.quiet
        owned := howned'
        single := rfl
        server := rfl
        attached_iff := by simp [hok]
        db_isSome := by simp
        offset := .inr rfl
        failed := fun _ => ⟨rfl, hrenewed.attempts⟩
        closed := fun t ht => .inr (hrenewed.closed t ht) }

/-- When the attempts at the first servers all fail, the walk goes on with the others in the
state they leave. -/
theorem RingSpec.append {first second : List Nat} {handle reached handle' : DbHandle}
    {attached : Bool} {w w' w'' : World}
    (hfirst : RingSpec mysql first handle w reached false w')
    (hsecond : RingSpec mysql second reached w' handle' attached w'') :
    RingSpec mysql (first ++ second) handle w handle' attached w'' := by
  obtain ⟨hoffset, hcount⟩ := hfirst.failed rfl
  have hno : ∀ i < first.length, mysql.attempt (attempts w.trace + i) ≠ .connected := by
    intro i hi hok
    simpa using hfirst.attached_iff.mpr ⟨i, hi, hok⟩
  exact
    { quiet := hfirst.quiet.trans hsecond.quiet
      owned := hsecond.owned
      single := hsecond.single.trans hfirst.single
      server := hsecond.server.trans hfirst.server
      attached_iff := by
        rw [hsecond.attached_iff, hcount, List.length_append]
        constructor
        · rintro ⟨i, hi, hok⟩
          exact ⟨first.length + i, by omega, by rwa [← Nat.add_assoc]⟩
        · rintro ⟨i, hi, hok⟩
          have hle : first.length ≤ i := Nat.le_of_not_lt fun hlt => hno i hlt hok
          refine ⟨i - first.length, by omega, ?_⟩
          rwa [Nat.add_assoc, Nat.add_sub_cancel' hle]
      db_isSome := hsecond.db_isSome
      offset := by
        rcases hsecond.offset with hmem | hsame
        · exact .inl (List.mem_append_right _ hmem)
        · exact .inr (hsame.trans hoffset)
      failed := by
        intro hfailed
        obtain ⟨hoffset', hcount'⟩ := hsecond.failed hfailed
        refine ⟨hoffset'.trans hoffset, ?_⟩
        rw [hcount', hcount, List.length_append, Nat.add_assoc]
      closed := by
        intro t ht
        rcases hfirst.closed t ht with ⟨rfl, hdb⟩ | hclose
        · exact hsecond.closed t hdb
        · exact .inr (hsecond.quiet.mem hclose) }

/-- When an attempt at the first servers succeeds, the others are not tried, so they may be
added to the list. -/
theorem RingSpec.append_attached {first : List Nat} {handle handle' : DbHandle} {w w' : World}
    (hfirst : RingSpec mysql first handle w handle' true w') (second : List Nat) :
    RingSpec mysql (first ++ second) handle w handle' true w' := by
  obtain ⟨i, hi, hok⟩ := hfirst.attached_iff.mp rfl
  exact
    { quiet := hfirst.quiet
      owned := hfirst.owned
      single := hfirst.single
      server := hfirst.server
      attached_iff := by
        simp only [true_iff, List.length_append]
        exact ⟨i, by omega, hok⟩
      db_isSome := hfirst.db_isSome
      offset := hfirst.offset.imp_left (List.mem_append_left _)
      failed := by simp
      closed := by
        intro t ht
        rcases hfirst.closed t ht with ⟨rfl, -⟩ | hclose
        · simp at hi
        · exact .inr hclose }

/-- What a walk leaves: it attaches with the first attempt that connects, or not at all. -/
theorem ringLoop_spec (mysql : Mysql) (timeout : Nat) {handle : DbHandle} {w : World}
    (howned : Owned w handle.db.toList) (cts : List Nat) :
    RingSpec mysql cts handle w (result (ringLoop mysql timeout cts handle) w).1
      (result (ringLoop mysql timeout cts handle) w).2
      (after (ringLoop mysql timeout cts handle) w) := by
  induction cts generalizing handle w with
  | nil =>
      exact
        { quiet := .refl w
          owned := howned
          single := rfl
          server := rfl
          attached_iff := by simp [ringLoop]
          db_isSome := by simp [ringLoop]
          offset := .inr rfl
          failed := fun _ => ⟨rfl, rfl⟩
          closed := fun t ht => .inl ⟨rfl, ht⟩ }
  | cons ct rest ih =>
      have hfirst := ringAttempt_spec mysql timeout howned ct
      simp only [ringLoop, result_bind, after_bind, result_ite, after_ite, result_pure, after_pure]
      generalize result (ringAttempt mysql timeout handle ct) w = outcome at hfirst ⊢
      generalize after (ringAttempt mysql timeout handle ct) w = reached at hfirst ⊢
      obtain ⟨handle', attached⟩ := outcome
      cases attached with
      | true => exact hfirst.append_attached rest
      | false => exact hfirst.append (ih hfirst.owned)

theorem ringLoop_offset (mysql : Mysql) (timeout : Nat) (cts : List Nat) (handle : DbHandle)
    (w : World) (hfailed : (result (ringLoop mysql timeout cts handle) w).2 = false) :
    (result (ringLoop mysql timeout cts handle) w).1.serverOffset = handle.serverOffset := by
  induction cts generalizing handle w with
  | nil => rfl
  | cons ct rest ih =>
      simp only [ringLoop, result_bind, result_ite, result_pure, ringAttempt_result] at hfailed ⊢
      by_cases hok : mysql.attempt (attempts w.trace) = .connected
      · simp [hok] at hfailed
      · simp only [hok, if_false, Bool.false_eq_true] at hfailed ⊢
        exact ih _ _ hfailed

/-- The servers of a second list are tried when those of the first all fail. The source has a
loop for each part of the ring. -/
theorem ringLoop_append (mysql : Mysql) (timeout : Nat) (first second : List Nat)
    (handle : DbHandle) :
    ringLoop mysql timeout (first ++ second) handle = (do
      let (handle, attached) ← ringLoop mysql timeout first handle
      if attached then return (handle, true) else ringLoop mysql timeout second handle) := by
  induction first generalizing handle with
  | nil => rfl
  | cons ct rest ih =>
      simp only [List.cons_append, ringLoop, bind_assoc]
      congr
      funext outcome
      obtain ⟨handle', attached⟩ := outcome
      cases attached with
      | true => rfl
      | false => exact ih handle'

/-- The order in which a reattachment tries the servers of a ring. -/
def DbHandle.ring (handle : DbHandle) : List Nat :=
  List.range' handle.serverOffset (handle.server.length - handle.serverOffset) ++
    List.range handle.serverOffset

/-- The walk goes once around the ring, from the offset. -/
theorem DbHandle.ring_eq (handle : DbHandle)
    (hoffset : handle.serverOffset < handle.server.length) :
    handle.ring = Ring.around handle.server.length handle.serverOffset :=
  (Ring.around_eq hoffset).symm

theorem DbHandle.length_ring (handle : DbHandle)
    (hoffset : handle.serverOffset ≤ handle.server.length) :
    handle.ring.length = handle.server.length := by
  simp only [ring, List.length_append, List.length_range', List.length_range]
  omega

theorem DbHandle.lt_of_mem_ring (handle : DbHandle)
    (hoffset : handle.serverOffset < handle.server.length) {ct : Nat} (hct : ct ∈ handle.ring) :
    ct < handle.server.length :=
  Ring.lt_of_mem_around (handle.ring_eq hoffset ▸ hct)

/-! ## Reattaching -/

/-- How many attempts a reattachment makes at most. -/
def DbHandle.ringLength (handle : DbHandle) : Nat :=
  match handle.dblookup with
  | none => handle.server.length
  | some _ => 1

/-- Whether one of the next attempts succeeds. -/
def ReattachSucceeds (mysql : Mysql) (handle : DbHandle) (w : World) : Prop :=
  ∃ i < handle.ringLength, mysql.attempt (attempts w.trace + i) = .connected

instance (handle : DbHandle) (w : World) : Decidable (ReattachSucceeds mysql handle w) :=
  inferInstanceAs (Decidable (∃ i < handle.ringLength, _))

/-- The handle holds what is open, and is attached to a server it has. -/
structure HandleInv (handle : DbHandle) (w : World) : Prop where
  owned : Owned w handle.held
  offset : handle.serverOffset < handle.server.length

/-- What reattaching a handle under a name comes to. -/
structure Reattached (mysql : Mysql) (handle : DbHandle) (dbserverName : Bytes) (w : World)
    (handle' : DbHandle) (attached : Bool) (w' : World) : Prop where
  quiet : Quiet w w'
  inv : HandleInv handle' w'
  mode : handle'.dblookup.isSome = handle.dblookup.isSome
  server : handle'.server = handle.server
  attached_iff : attached = true ↔ ReattachSucceeds mysql handle w
  current : attached = true → ∃ t ∈ handle'.held, handle'.current dbserverName = some t
  closed : ∀ t, handle.current dbserverName = some t → .close (some t) ∈ w'.trace

/-- A ring is tried once around, from the server that the handle is attached to. -/
theorem dbHandleReattach_ring (mysql : Mysql) (timeout : Nat) {handle : DbHandle} {w : World}
    (hsingle : handle.dblookup = none) (dbserverName : Bytes) :
    dbHandleReattach mysql timeout handle dbserverName w =
      ringLoop mysql timeout handle.ring handle w := by
  let upper := List.range' handle.serverOffset (handle.server.length - handle.serverOffset)
  have hupper := ringLoop_offset mysql timeout upper handle w
  have hbind : ∀ f : DbHandle × Bool → Client (DbHandle × Bool),
      (ringLoop mysql timeout upper handle >>= f) w =
        f (result (ringLoop mysql timeout upper handle) w)
          (after (ringLoop mysql timeout upper handle) w) := fun _ => rfl
  rw [DbHandle.ring, ringLoop_append, hbind, dbHandleReattach, hsingle]
  simp only [hbind, upper]
  generalize result (ringLoop mysql timeout upper handle) w = outcome at hupper ⊢
  obtain ⟨handle', attached⟩ := outcome
  cases attached with
  | true => rfl
  | false => rw [hupper rfl]

/-- Both loops together are one walk around the ring. -/
theorem reattached_ring (mysql : Mysql) (timeout : Nat) {handle : DbHandle} {w : World}
    (hinv : HandleInv handle w) (hsingle : handle.dblookup = none) (dbserverName : Bytes) :
    Reattached mysql handle dbserverName w
      (result (dbHandleReattach mysql timeout handle dbserverName) w).1
      (result (dbHandleReattach mysql timeout handle dbserverName) w).2
      (after (dbHandleReattach mysql timeout handle dbserverName) w) := by
  have howned : Owned w handle.db.toList := by
    have howned := hinv.owned
    rwa [DbHandle.held, hsingle] at howned
  have hring := ringLoop_spec mysql timeout howned handle.ring
  have hlength := handle.length_ring (Nat.le_of_lt hinv.offset)
  rw [result, after, dbHandleReattach_ring mysql timeout hsingle, ← result, ← after]
  generalize result (ringLoop mysql timeout handle.ring handle) w = outcome at hring ⊢
  generalize after (ringLoop mysql timeout handle.ring handle) w = reached at hring ⊢
  obtain ⟨handle', attached⟩ := outcome
  dsimp only at hring ⊢
  have hsingle' : handle'.dblookup = none := hring.single.trans hsingle
  have hheld : handle'.held = handle'.db.toList := by rw [DbHandle.held, hsingle']
  have hcurrent : handle'.current dbserverName = handle'.db := by rw [DbHandle.current, hsingle']
  exact
    { quiet := hring.quiet
      inv := by
        refine ⟨hheld ▸ hring.owned, ?_⟩
        rw [hring.server]
        rcases hring.offset with hmem | hsame
        · exact handle.lt_of_mem_ring hinv.offset hmem
        · rw [hsame]
          exact hinv.offset
      mode := by rw [hsingle', hsingle]
      server := hring.server
      attached_iff := by
        rw [ReattachSucceeds, DbHandle.ringLength, hsingle, ← hlength]
        exact hring.attached_iff
      current := by
        intro hattached
        obtain ⟨t, ht⟩ := Option.isSome_iff_exists.mp (hring.db_isSome hattached)
        exact ⟨t, by simp [hheld, ht], hcurrent.trans ht⟩
      closed := by
        intro t ht
        rw [DbHandle.current, hsingle] at ht
        -- the ring has a server, so the connection was closed at the first attempt
        rcases hring.closed t ht with ⟨hnil, -⟩ | hclose
        · rw [hnil, List.length_nil] at hlength
          exact absurd hinv.offset (by omega)
        · exact hclose }

/-- The tokens of a table are the one stored under a name and the rest, and replacing that
entry leaves the rest alone. -/
theorem tableTokens_replace (table : List (Bytes × Option Token)) (name : Bytes) :
    ∃ rest, (tableTokens table).Perm ((lookupGet table name).toList ++ rest) ∧
      ∀ db, (tableTokens (Assoc.replace strcmp name db table)).Perm (db.toList ++ rest) := by
  have hpiece : ∀ (front back : List (Bytes × Option Token)) (key : Bytes) (db : Option Token),
      (tableTokens (front ++ (key, db) :: back)).Perm
        (db.toList ++ (tableTokens front ++ tableTokens back)) := by
    intro front back key db
    cases db with
    | none => simp [tableTokens]
    | some t => simp [tableTokens]
  cases hget : Assoc.get strcmp name table with
  | none =>
      refine ⟨tableTokens table, by simp [lookupGet, hget], fun db => ?_⟩
      rw [Assoc.replace_of_get_none hget]
      have hput : (Assoc.put strcmp name db table).Perm ((name, db) :: table) :=
        List.perm_orderedInsert _ _ _
      have htokens := hput.filterMap Prod.snd
      exact htokens.trans (hpiece [] table name db)
  | some old =>
      obtain ⟨front, found, back, htable, -, hreplace⟩ := Assoc.exists_split_of_get_some hget
      refine ⟨tableTokens front ++ tableTokens back, ?_, fun db => ?_⟩
      · have hlookup : lookupGet table name = old := by rw [lookupGet, hget, Option.join_some]
        rw [hlookup, htable]
        exact hpiece front back found old
      · rw [hreplace]
        exact hpiece front back found db

/-- A named server is attempted once, and the table keeps its new handle whether or not it
connected. -/
theorem reattached_named (mysql : Mysql) (timeout : Nat) {handle : DbHandle} {w : World}
    {table : List (Bytes × Option Token)} (hinv : HandleInv handle w)
    (hnamed : handle.dblookup = some table) (dbserverName : Bytes) :
    Reattached mysql handle dbserverName w
      (result (dbHandleReattach mysql timeout handle dbserverName) w).1
      (result (dbHandleReattach mysql timeout handle dbserverName) w).2
      (after (dbHandleReattach mysql timeout handle dbserverName) w) := by
  obtain ⟨rest, hbefore, hafter⟩ := tableTokens_replace table dbserverName
  have howned : Owned w ((lookupGet table dbserverName).toList ++ rest) := by
    have howned := hinv.owned
    rw [DbHandle.held, hnamed] at howned
    exact howned.perm hbefore
  have hrenewed := attemptAt_renewed mysql timeout howned handle.config dbserverName none none
  have hcurrent : ∀ db, lookupGet (Assoc.replace strcmp dbserverName db table) dbserverName =
      db := by
    intro db
    simp [lookupGet, Assoc.get_replace strcmp_order, strcmp_order.self]
  rw [dbHandleReattach_named_eq mysql timeout hnamed]
  simp only [result_bind, after_bind, result_pure, after_pure, attemptAt_result]
  exact
    { quiet := hrenewed.quiet
      inv := ⟨hrenewed.owned.perm (hafter _).symm, hinv.offset⟩
      mode := by simp [hnamed]
      server := rfl
      attached_iff := by simp [ReattachSucceeds, DbHandle.ringLength, hnamed]
      current := by
        intro hattached
        have hok : mysql.attempt (attempts w.trace) = .connected := by simpa using hattached
        have htoken : tokenAt mysql (attempts w.trace) = some (attempts w.trace) := by
          simp [tokenAt, hok]
        refine ⟨attempts w.trace, ?_, (hcurrent _).trans htoken⟩
        exact (hafter _).mem_iff.mpr (by simp [htoken])
      closed := by
        intro t ht
        rw [DbHandle.current, hnamed] at ht
        exact hrenewed.closed t ht }

/-- Reattaching, in both modes: the handle holds what is open, and it is attached exactly when an
attempt connects. -/
theorem dbHandleReattach_spec (mysql : Mysql) (timeout : Nat) {handle : DbHandle} {w : World}
    (hinv : HandleInv handle w) (dbserverName : Bytes) :
    Reattached mysql handle dbserverName w
      (result (dbHandleReattach mysql timeout handle dbserverName) w).1
      (result (dbHandleReattach mysql timeout handle dbserverName) w).2
      (after (dbHandleReattach mysql timeout handle dbserverName) w) := by
  cases hmode : handle.dblookup with
  | none => exact reattached_ring mysql timeout hinv hmode dbserverName
  | some table => exact reattached_named mysql timeout hinv hmode dbserverName

/-! ## A new handle -/

/-- The handle holds what is open after any number of reattachments, by induction on them with
`dbHandleReattach_spec` as the step. -/
theorem reattachAll_inv (mysql : Mysql) (timeout : Nat) {handle : DbHandle} {w : World}
    (hinv : HandleInv handle w) (names : List Bytes) :
    HandleInv (result (reattachAll mysql timeout handle names) w)
      (after (reattachAll mysql timeout handle names) w) := by
  induction names generalizing handle w with
  | nil => exact hinv
  | cons name rest ih => exact ih (dbHandleReattach_spec mysql timeout hinv name).inv

theorem chopServers_length (b rest : Bytes) : 0 < (chopServers b rest).length := by
  induction rest generalizing b with
  | nil => simp [chopServers]
  | cons c rest ih =>
      rw [chopServers]
      split
      · simp
      · exact ih _

theorem dbHandleBlank_inv (user pass : Option Bytes) (server config : Bytes) (seed : Nat)
    (multidb : Bool) :
    HandleInv (dbHandleBlank user pass server config seed multidb) World.start := by
  refine ⟨⟨?_, by simp [World.start]⟩, ?_⟩
  · cases multidb with
    | true => exact Ledger.holds_nil
    | false => exact Ledger.holds_nil
  · have hpos := chopServers_length [] (cstr server)
    simp only [dbHandleBlank]
    split
    next hlt => exact hlt
    next => exact Nat.mod_lt _ hpos

theorem dbHandleInit_inv (mysql : Mysql) (timeout : Nat) (user pass : Option Bytes)
    (server config : Bytes) (seed : Nat) (multidb : Bool) :
    HandleInv (result (dbHandleInit mysql timeout user pass server config seed multidb) World.start)
      (after (dbHandleInit mysql timeout user pass server config seed multidb) World.start) := by
  have hblank := dbHandleBlank_inv user pass server config seed multidb
  simp only [dbHandleInit, result_ite, after_ite]
  split
  · exact reattachAll_inv mysql timeout hblank _
  · exact reattachAll_inv mysql timeout hblank _

end DbSlayer.Db
