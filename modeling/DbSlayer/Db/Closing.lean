import DbSlayer.Db.Reattach

/-! # Every handle is closed

`db_handle_destroy` walks the list of servers and closes what the table holds
under each name. The table has one entry for a name, however often the list
repeats it.
-/

namespace DbSlayer.Db

open Foundation

variable {mysql : Mysql} {timeout : Nat}

/-- A handle from its start over any reattachments to its end. -/
def lifetime (mysql : Mysql) (timeout : Nat) (user pass : Option Bytes) (server config : Bytes)
    (seed : Nat) (multidb : Bool) (names : List Bytes) : Client Unit := do
  let handle ← dbHandleInit mysql timeout user pass server config seed multidb
  let handle ← reattachAll mysql timeout handle names
  dbHandleDestroy handle

/-- Every handle that `mysql_init` returned was passed to `mysql_close` once. -/
def ClosedOnce (trace : List Call) : Prop :=
  ∀ t, .init (some t) ∈ trace → handles.closings trace (some t) = 1

/-- What `db_handle_destroy` passes to `mysql_close`. -/
def DbHandle.closes (handle : DbHandle) : List (Option Token) :=
  match handle.dblookup with
  | none => [handle.db]
  | some table => handle.server.map (lookupGet table)

/-- The loop closes what the table holds under each listed name, a repeated name twice. -/
theorem closeNamed_trace (table : List (Bytes × Option Token)) (names : List Bytes) (w : World) :
    (after (closeNamed table names) w).trace =
      w.trace ++ (names.map (lookupGet table)).map Call.close := by
  induction names generalizing w with
  | nil => simp [closeNamed]
  | cons name rest ih =>
      rw [closeNamed, after_bind, ih]
      simp [mysqlClose]

/-- Destroying a handle closes what it holds, server after server, and ends the thread's use of
the library. -/
theorem dbHandleDestroy_trace (handle : DbHandle) (w : World) :
    (after (dbHandleDestroy handle) w).trace =
      w.trace ++ (handle.closes.map Call.close ++ [.threadEnd]) := by
  unfold dbHandleDestroy DbHandle.closes
  cases handle.dblookup with
  | none => simp [mysqlClose]
  | some table => simp [closeNamed_trace]

/-- How often a connection is closed is how often it is listed. -/
theorem closings_map_close (dbs : List (Option Token)) (t : Token) :
    handles.closings (dbs.map Call.close) (some t) = dbs.count (some t) := by
  rw [Ledger.closings, List.countP_map, List.count]
  refine List.countP_congr fun db _ => ?_
  cases db with
  | none => simp [handles]
  | some s => simp [handles]

/-- Closing `dbs` behind a trace closes everything once exactly when each held
handle is among them once. -/
theorem closedOnce_iff {w : World} {held : List Token} (howned : Owned w held)
    {dbs : List (Option Token)} (hdbs : ∀ t, some t ∈ dbs → t ∈ held) :
    ClosedOnce (w.trace ++ (dbs.map Call.close ++ [.threadEnd])) ↔
      ∀ t ∈ held, dbs.count (some t) = 1 := by
  have hcount : ∀ t, handles.closings (w.trace ++ (dbs.map Call.close ++ [.threadEnd])) (some t) =
      handles.closings w.trace (some t) + dbs.count (some t) := by
    intro t
    rw [Ledger.closings_append, Ledger.closings_append, closings_map_close]
    rfl
  have hinit : ∀ t, .init (some t) ∈ w.trace ++ (dbs.map Call.close ++ [.threadEnd]) ↔
      .init (some t) ∈ w.trace := by simp
  constructor
  · intro honce t ht
    obtain ⟨⟨call, hcall, hopens⟩, -⟩ := (howned.live_iff t).mpr ht
    have hcall' : .init (some t) ∈ w.trace := by
      cases call with
      | init r =>
          cases r with
          | none => simp [handles] at hopens
          | some s =>
              obtain rfl : s = t := by simpa [handles] using hopens
              exact hcall
      | _ => simp [handles] at hopens
    have hclosed := honce t ((hinit t).mpr hcall')
    rw [hcount, howned.holds.closings_of_mem (List.mem_map_of_mem ht)] at hclosed
    omega
  · intro hheld t ht
    rw [hcount]
    by_cases hmem : t ∈ held
    · rw [howned.holds.closings_of_mem (List.mem_map_of_mem hmem), hheld t hmem]
    · have hnot : some t ∉ held.map some := by simpa using hmem
      have hzero : dbs.count (some t) = 0 := List.count_eq_zero.mpr fun h => hmem (hdbs t h)
      rw [howned.holds.closings_of_not_mem ((hinit t).mp ht) rfl hnot, hzero]

/-! ## The table of named servers -/

/-- The `i`-th attempt was the last one under `name`, and it got a handle. -/
def LastFor (mysql : Mysql) (names : List Bytes) (name : Bytes) (i : Nat) : Prop :=
  (∃ other, names[i]? = some other ∧ strcmp name other = 0) ∧ mysql.attempt i ≠ .noHandle ∧
    ∀ j other, i < j → names[j]? = some other → strcmp name other ≠ 0

/-- Equal names have the same last attempt. -/
theorem LastFor.congr {names : List Bytes} {name other : Bytes} {i : Nat}
    (hlast : LastFor mysql names other i) (heq : strcmp name other = 0) :
    LastFor mysql names name i := by
  obtain ⟨⟨found, hfound, hother⟩, hhandle, hlater⟩ := hlast
  refine ⟨⟨found, hfound, strcmp_order.eq_zero_trans heq hother⟩, hhandle, ?_⟩
  intro j later hj hlater' hname
  exact hlater j later hj hlater'
    (strcmp_order.eq_zero_trans (strcmp_order.eq_zero_comm heq) hname)

/-- The last attempt for a name is the newest one with that name, if there is one. -/
theorem lastFor_concat (names : List Bytes) (last name : Bytes) (i : Nat) :
    LastFor mysql (names ++ [last]) name i ↔
      if strcmp name last = 0 then i = names.length ∧ mysql.attempt i ≠ .noHandle
      else LastFor mysql names name i := by
  have hlast : (names ++ [last])[names.length]? = some last := List.getElem?_concat_length
  have hbefore : ∀ {j : Nat}, j < names.length → (names ++ [last])[j]? = names[j]? := fun hj =>
    List.getElem?_append_left hj
  have hbound : ∀ {j : Nat} {other : Bytes}, (names ++ [last])[j]? = some other →
      j ≤ names.length := by
    intro j other hj
    have hlt := (List.getElem?_eq_some_iff.mp hj).1
    simp only [List.length_append, List.length_singleton] at hlt
    omega
  split
  next heq =>
    constructor
    · rintro ⟨⟨other, hother, -⟩, hhandle, hlater⟩
      refine ⟨?_, hhandle⟩
      -- an earlier position has the new server behind it
      by_contra hne
      have hlt : i < names.length := by
        have hle := hbound hother
        omega
      exact hlater names.length last hlt hlast heq
    · rintro ⟨rfl, hhandle⟩
      refine ⟨⟨last, hlast, heq⟩, hhandle, ?_⟩
      intro j other hj hother
      have hle := hbound hother
      omega
  next hne =>
    constructor
    · rintro ⟨⟨other, hother, hname⟩, hhandle, hlater⟩
      have hlt : i < names.length := by
        refine Nat.lt_of_le_of_ne (hbound hother) ?_
        rintro rfl
        rw [hlast] at hother
        exact hne (Option.some.inj hother ▸ hname)
      refine ⟨⟨other, hbefore hlt ▸ hother, hname⟩, hhandle, ?_⟩
      intro j later hj hlater'
      have hlt' := (List.getElem?_eq_some_iff.mp hlater').1
      exact hlater j later hj ((hbefore hlt').trans hlater')
    · rintro ⟨⟨other, hother, hname⟩, hhandle, hlater⟩
      have hlt := (List.getElem?_eq_some_iff.mp hother).1
      refine ⟨⟨other, (hbefore hlt).trans hother, hname⟩, hhandle, ?_⟩
      intro j later hj hlater'
      rcases Nat.lt_or_eq_of_le (hbound hlater') with hlt' | rfl
      · exact hlater j later hj (hbefore hlt' ▸ hlater')
      · rw [hlast] at hlater'
        exact Option.some.inj hlater' ▸ hne

/-- Reattaching a name makes one attempt and stores its handle. -/
theorem dbHandleReattach_named (mysql : Mysql) (timeout : Nat) {handle : DbHandle}
    {table : List (Bytes × Option Token)} {w : World} (hinv : HandleInv handle w)
    (hnamed : handle.dblookup = some table) (name : Bytes) :
    (result (dbHandleReattach mysql timeout handle name) w).1.dblookup =
        some (Assoc.replace strcmp name (tokenAt mysql (attempts w.trace)) table) ∧
      attempts (after (dbHandleReattach mysql timeout handle name) w).trace =
        attempts w.trace + 1 := by
  obtain ⟨rest, hbefore, -⟩ := tableTokens_replace table name
  have howned : Owned w ((lookupGet table name).toList ++ rest) := by
    have howned := hinv.owned
    rw [DbHandle.held, hnamed] at howned
    exact howned.perm hbefore
  rw [dbHandleReattach_named_eq mysql timeout hnamed]
  simp only [result_bind, after_bind, result_pure, after_pure, attemptAt_result]
  exact ⟨trivial, (attemptAt_renewed mysql timeout howned handle.config name none none).attempts⟩

/-- The table after attempts under `names`, one for each. -/
structure NamedInv (mysql : Mysql) (names : List Bytes) (handle : DbHandle) (w : World)
    (table : List (Bytes × Option Token)) : Prop where
  inv : HandleInv handle w
  named : handle.dblookup = some table
  attempts : attempts w.trace = names.length
  lookup : ∀ name t, lookupGet table name = some t ↔ LastFor mysql names name t
  tokens : ∀ t, t ∈ tableTokens table ↔
    ∃ name, names[t]? = some name ∧ LastFor mysql names name t

/-- Only the handle stored under the name leaves the table. The handles of the other names are
their last attempts as before. -/
theorem NamedInv.mem_replace_iff {names : List Bytes} {handle : DbHandle} {w : World}
    {table : List (Bytes × Option Token)} (hnamed : NamedInv mysql names handle w table)
    (name : Bytes) (db : Option Token) (t : Token) :
    t ∈ tableTokens (Assoc.replace strcmp name db table) ↔
      db = some t ∨ ∃ other, names[t]? = some other ∧ LastFor mysql names other t ∧
        strcmp other name ≠ 0 := by
  obtain ⟨rest, hbefore, hafter⟩ := tableTokens_replace table name
  have hnodup : ((lookupGet table name).toList ++ rest).Nodup := by
    have hholds := hnamed.inv.owned.holds.nodup
    rw [DbHandle.held, hnamed.named] at hholds
    exact hbefore.nodup_iff.mp (List.Nodup.of_map some hholds)
  have hrest : t ∈ rest ↔ t ∈ tableTokens table ∧ lookupGet table name ≠ some t := by
    rw [hbefore.mem_iff, List.mem_append, Option.mem_toList]
    constructor
    · intro ht
      refine ⟨.inr ht, fun hlookup => ?_⟩
      exact (List.nodup_append.mp hnodup).2.2 t (by simp [hlookup]) t ht rfl
    · rintro ⟨hlookup | ht, hne⟩
      · exact absurd hlookup hne
      · exact ht
  rw [(hafter db).mem_iff, List.mem_append, Option.mem_toList, hrest, hnamed.tokens, Ne,
    hnamed.lookup]
  refine or_congr_right ?_
  constructor
  · rintro ⟨⟨other, hother, hlast⟩, hname⟩
    refine ⟨other, hother, hlast, fun heq => hname ?_⟩
    exact hlast.congr (strcmp_order.eq_zero_comm heq)
  · rintro ⟨other, hother, hlast, hne⟩
    refine ⟨⟨other, hother, hlast⟩, ?_⟩
    rintro ⟨⟨found, hfound, hname⟩, -⟩
    obtain rfl : found = other := Option.some.inj (hfound.symm.trans hother)
    exact hne (strcmp_order.eq_zero_comm hname)

/-- Reattaching one name adds one attempt and replaces one entry of the table. The invariant
says which attempt each entry is. -/
theorem NamedInv.reattach (timeout : Nat) {names : List Bytes} {handle : DbHandle} {w : World}
    {table : List (Bytes × Option Token)} (hnamed : NamedInv mysql names handle w table)
    (name : Bytes) :
    ∃ table', NamedInv mysql (names ++ [name])
      (result (dbHandleReattach mysql timeout handle name) w).1
      (after (dbHandleReattach mysql timeout handle name) w) table' := by
  obtain ⟨htable, hattempts⟩ := dbHandleReattach_named mysql timeout hnamed.inv hnamed.named name
  rw [hnamed.attempts] at htable hattempts
  refine ⟨_, (dbHandleReattach_spec mysql timeout hnamed.inv name).inv, htable, by
    simp [hattempts], ?_, ?_⟩
  · intro other t
    rw [lastFor_concat, lookupGet, Assoc.get_replace strcmp_order]
    split
    next => rw [Option.join_some, tokenAt_eq_some]
    next => exact hnamed.lookup other t
  · intro t
    rw [hnamed.mem_replace_iff]
    constructor
    · rintro (hnew | ⟨other, hother, hlast, hne⟩)
      · obtain ⟨rfl, hhandle⟩ := tokenAt_eq_some.mp hnew
        refine ⟨name, List.getElem?_concat_length, ?_⟩
        rw [lastFor_concat, if_pos (strcmp_order.self name)]
        exact ⟨rfl, hhandle⟩
      · have hlt := (List.getElem?_eq_some_iff.mp hother).1
        refine ⟨other, (List.getElem?_append_left hlt).trans hother, ?_⟩
        rw [lastFor_concat, if_neg hne]
        exact hlast
    · rintro ⟨other, hother, hlast⟩
      rw [lastFor_concat] at hlast
      split at hlast
      next heq => exact .inl (tokenAt_eq_some.mpr hlast)
      next hne =>
        have hlt : t < names.length := by
          obtain ⟨⟨found, hfound, -⟩, -⟩ := hlast
          exact (List.getElem?_eq_some_iff.mp hfound).1
        rw [List.getElem?_append_left hlt] at hother
        exact .inr ⟨other, hother, hlast, hne⟩

theorem NamedInv.reattachAll (timeout : Nat) {names : List Bytes} {handle : DbHandle} {w : World}
    {table : List (Bytes × Option Token)} (hnamed : NamedInv mysql names handle w table)
    (more : List Bytes) :
    ∃ table', NamedInv mysql (names ++ more) (result (reattachAll mysql timeout handle more) w)
      (after (reattachAll mysql timeout handle more) w) table' := by
  induction more generalizing names handle w table with
  | nil => exact ⟨table, by simpa [Db.reattachAll] using hnamed⟩
  | cons name rest ih =>
      obtain ⟨table', hnamed'⟩ := hnamed.reattach timeout name
      obtain ⟨table'', hnamed''⟩ := ih hnamed'
      rw [List.append_assoc, List.singleton_append] at hnamed''
      exact ⟨table'', hnamed''⟩

/-! ## Lifetimes -/

/-- Every name whose last attempt got a handle is on the list of servers once. -/
def HandlesNamedOnce (mysql : Mysql) (servers names : List Bytes) : Prop :=
  ∀ i name, (servers ++ names)[i]? = some name → LastFor mysql (servers ++ names) name i →
    servers.countP (fun server => strcmp server name = 0) = 1

/-- Reattaching changes neither the list of servers nor the mode. -/
theorem reattachAll_keeps (mysql : Mysql) (timeout : Nat) {handle : DbHandle} {w : World}
    (hinv : HandleInv handle w) (names : List Bytes) :
    (result (reattachAll mysql timeout handle names) w).server = handle.server ∧
      (result (reattachAll mysql timeout handle names) w).dblookup.isSome =
        handle.dblookup.isSome := by
  induction names generalizing handle w with
  | nil => exact ⟨rfl, rfl⟩
  | cons name rest ih =>
      have hspec := dbHandleReattach_spec mysql timeout hinv name
      obtain ⟨hserver, hmode⟩ := ih hspec.inv
      exact ⟨hserver.trans hspec.server, hmode.trans hspec.mode⟩

/-- Destroying a handle of a ring closes what it holds, which is its only connection, and so
every connection is closed once. -/
theorem closedOnce_ring {handle : DbHandle} {w : World} (hinv : HandleInv handle w)
    (hsingle : handle.dblookup = none) :
    ClosedOnce (after (dbHandleDestroy handle) w).trace := by
  have hcloses : handle.closes = [handle.db] := by rw [DbHandle.closes, hsingle]
  have hheld : handle.held = handle.db.toList := by rw [DbHandle.held, hsingle]
  rw [dbHandleDestroy_trace, closedOnce_iff hinv.owned]
  · intro t ht
    rw [hheld, Option.mem_toList] at ht
    simp [hcloses, ht]
  · intro t ht
    rw [hcloses, List.mem_singleton] at ht
    simp [hheld, ht]

/-- The end of a worker with named servers closes everything once exactly when no name is listed
twice for one handle. -/
theorem closedOnce_named {servers names : List Bytes} {handle : DbHandle} {w : World}
    {table : List (Bytes × Option Token)}
    (hnamed : NamedInv mysql (servers ++ names) handle w table)
    (hserver : handle.server = servers) :
    ClosedOnce (after (dbHandleDestroy handle) w).trace ↔ HandlesNamedOnce mysql servers names := by
  have hcloses : handle.closes = servers.map (lookupGet table) := by
    rw [DbHandle.closes, hnamed.named, hserver]
  have hheld : handle.held = tableTokens table := by rw [DbHandle.held, hnamed.named]
  have hcount : ∀ i name, (servers ++ names)[i]? = some name →
      LastFor mysql (servers ++ names) name i →
      handle.closes.count (some i) = servers.countP fun server => strcmp server name = 0 := by
    intro i name hname hlast
    rw [hcloses, List.count, List.countP_map]
    refine List.countP_congr fun server _ => ?_
    simp only [Function.comp_apply, beq_iff_eq, decide_eq_true_eq, hnamed.lookup]
    constructor
    · rintro ⟨⟨other, hother, hserver⟩, -⟩
      obtain rfl : other = name := Option.some.inj (hother.symm.trans hname)
      exact hserver
    · exact hlast.congr
  have hdbs : ∀ t, some t ∈ handle.closes → t ∈ handle.held := by
    intro t ht
    rw [hcloses] at ht
    obtain ⟨server, -, hserver⟩ := List.mem_map.mp ht
    have hlast := (hnamed.lookup server t).mp hserver
    obtain ⟨other, hother, hname⟩ := hlast.1
    exact hheld ▸ (hnamed.tokens t).mpr
      ⟨other, hother, hlast.congr (strcmp_order.eq_zero_comm hname)⟩
  rw [dbHandleDestroy_trace, closedOnce_iff hnamed.inv.owned hdbs, hheld]
  constructor
  · intro honce i name hname hlast
    rw [← hcount i name hname hlast]
    exact honce i ((hnamed.tokens i).mpr ⟨name, hname, hlast⟩)
  · intro honce t ht
    obtain ⟨name, hname, hlast⟩ := (hnamed.tokens t).mp ht
    rw [hcount t name hname hlast]
    exact honce t name hname hlast

/-- From `db_handle_init` over any reattachments to `db_handle_destroy`, every
handle is closed once exactly for a ring, and for named servers when each name
whose last attempt got a handle is listed once. -/
theorem lifetime_closes_once_iff (mysql : Mysql) (timeout : Nat) (user pass : Option Bytes)
    (server config : Bytes) (seed : Nat) (multidb : Bool) (names : List Bytes) :
    ClosedOnce (after (lifetime mysql timeout user pass server config seed multidb names)
        World.start).trace ↔
      multidb = false ∨ HandlesNamedOnce mysql (chopServers [] (cstr server)) names := by
  have hblank := dbHandleBlank_inv user pass server config seed multidb
  have hinit := dbHandleInit_inv mysql timeout user pass server config seed multidb
  have hreached := reattachAll_inv mysql timeout hinit names
  rw [lifetime, after_bind, after_bind]
  cases multidb with
  | false =>
      simp only [true_or, iff_true]
      refine closedOnce_ring hreached ?_
      have hmode := (reattachAll_keeps mysql timeout hinit names).2.trans
        (reattachAll_keeps mysql timeout hblank [[]]).2
      simpa [dbHandleBlank] using hmode
  | true =>
      have hstart : NamedInv mysql [] (dbHandleBlank user pass server config seed true)
          World.start [] :=
        { inv := hblank
          named := rfl
          attempts := rfl
          lookup := by simp [lookupGet, Assoc.get, Assoc.lowerBound, LastFor]
          tokens := by simp [tableTokens] }
      obtain ⟨table, htable⟩ := hstart.reattachAll timeout (chopServers [] (cstr server))
      obtain ⟨table', htable'⟩ := htable.reattachAll timeout names
      rw [List.nil_append] at htable'
      simp only [Bool.true_eq_false, false_or]
      refine closedOnce_named htable' ?_
      exact (reattachAll_keeps mysql timeout hinit names).1.trans
        (reattachAll_keeps mysql timeout hblank _).1

/-- Servers that accept every connection. -/
def steadyServers : Mysql where
  attempt _ := .connected
  query _ := .ok (.affected 0 0) .done
  rollback _ := false
  stat _ := none
  hostInfo _ := none
  serverVersion _ := 0
  clientInfo := []
  clientVersion := 0

/-- With `-m a:a` the second of the two connections is closed twice. -/
theorem lifetime_repeated_name_closes_twice :
    .init (some 1) ∈ (after (lifetime steadyServers 30 none none (bytes "a:a") (bytes "/etc/my.cnf")
        0 true []) World.start).trace ∧
      handles.closings (after (lifetime steadyServers 30 none none (bytes "a:a")
        (bytes "/etc/my.cnf") 0 true []) World.start).trace (some 1) = 2 := by
  decide +kernel

end DbSlayer.Db
