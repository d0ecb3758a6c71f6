import DbSlayer.Db.Failover
import DbSlayer.Db.Liveness

/-! # How connections are opened

Every `mysql_real_connect` comes right behind the calls that prepare its handle: a new
handle with both timeouts, the configuration file, and a group of it that the server list
names. What a client sends chooses among these groups and changes nothing else.
-/

namespace DbSlayer.Db

open Foundation Json

/-! ## The calls in front of a connection -/

/-- What the connections of a handle are opened with. -/
structure Opening where
  timeout : Nat
  config : Bytes
  servers : List Bytes
  user : Option Bytes
  pass : Option Bytes

namespace Opening

/-- The name is in the server list, as `strcmp` compares. -/
def Lists (opening : Opening) (name : Bytes) : Prop :=
  ∃ server ∈ opening.servers, strcmp name server = 0

/-- The calls that prepare a new handle for a group of the configuration file. -/
def prepares (opening : Opening) (t : Token) (name : Bytes) : List Call :=
  [.init (some t), .on (some t) (.options (.readTimeout opening.timeout)),
    .on (some t) (.options (.writeTimeout opening.timeout)),
    .on (some t) (.options (.readDefaultFile opening.config)),
    .on (some t) (.options (.readDefaultGroup name))]

/-- The handle was prepared last, and the credentials are those of the opening. -/
structure Prepared (opening : Opening) (front : List Call) (db : Option Token)
    (user pass : Option Bytes) : Prop where
  user : user = opening.user
  pass : pass = opening.pass
  calls : ∃ before t name, db = some t ∧ opening.Lists name ∧
    front = before ++ opening.prepares t name

/-- A connection is opened only on a handle that was prepared for it. -/
def Allows (opening : Opening) (front : List Call) : Call → Prop
  | .on db (.realConnect user pass) => opening.Prepared front db user pass
  | _ => True

/-- Every call is allowed behind the calls in front of it. -/
def Governs (opening : Opening) (trace : List Call) : Prop :=
  ∀ front call back, trace = front ++ call :: back → opening.Allows front call

end Opening

section Governs

variable {opening : Opening} {trace : List Call}

/-- Every call but `mysql_real_connect` is allowed anywhere. -/
theorem Opening.allows_of_isConnect {call : Call} (hcall : call.isConnect = false)
    (front : List Call) : opening.Allows front call := by
  unfold Opening.Allows
  split
  next => simp [Call.isConnect] at hcall
  next => trivial

theorem Opening.governs_nil : opening.Governs [] := by
  intro front call back htrace
  simp at htrace

/-- A governed trace stays governed with one more call that is allowed behind it. -/
theorem Opening.Governs.snoc {call : Call} (hgoverns : opening.Governs trace)
    (hallows : opening.Allows trace call) : opening.Governs (trace ++ [call]) := by
  intro front other back htrace
  obtain rfl | ⟨back, last, rfl⟩ := List.eq_nil_or_concat back
  · obtain ⟨rfl, hcall⟩ := List.append_inj' htrace rfl
    obtain rfl := List.singleton_inj.mp hcall
    exact hallows
  · rw [List.concat_eq_append, ← List.cons_append, ← List.append_assoc] at htrace
    exact hgoverns front other back (List.append_inj' htrace rfl).1

theorem Opening.Governs.append (hgoverns : opening.Governs trace) {calls : List Call}
    (hcalls : ∀ call ∈ calls, call.isConnect = false) : opening.Governs (trace ++ calls) := by
  induction calls generalizing trace with
  | nil => simpa using hgoverns
  | cons call rest ih =>
      obtain ⟨hcall, hrest⟩ := List.forall_mem_cons.mp hcalls
      rw [List.append_cons]
      exact ih (hgoverns.snoc (allows_of_isConnect hcall trace)) hrest

/-- A connection may be opened behind its preparation, to a server of the list and with the
credentials of the opening. -/
theorem Opening.Governs.connect (hgoverns : opening.Governs trace) (t : Token) {name : Bytes}
    (hname : opening.Lists name) :
    opening.Governs (trace ++ opening.prepares t name ++
      [.on (some t) (.realConnect opening.user opening.pass)]) := by
  have hprepared : opening.Governs (trace ++ opening.prepares t name) :=
    hgoverns.append (by simp [prepares, Call.isConnect])
  exact hprepared.snoc ⟨rfl, rfl, trace, t, name, rfl, hname, rfl⟩

end Governs

/-! ## Attaching a handle -/

variable {δ : Type} {mysql : Mysql} {timeout : Nat}

/-- One attempt on a server of the list is governed, since its four options come in front of
its connection. -/
theorem Opening.Governs.attemptAt {config : Bytes} {servers : List Bytes}
    {user pass : Option Bytes} {w : World}
    (hgoverns : Opening.Governs ⟨timeout, config, servers, user, pass⟩ w.trace)
    {name : Bytes} (hname : Opening.Lists ⟨timeout, config, servers, user, pass⟩ name)
    (old : Option Token) :
    Opening.Governs ⟨timeout, config, servers, user, pass⟩
      (after (attemptAt mysql timeout old config name user pass) w).trace := by
  have hclosed : Opening.Governs ⟨timeout, config, servers, user, pass⟩
      (w.trace ++ if old.isSome then [.close old] else []) := by
    refine hgoverns.append ?_
    split <;> simp [Call.isConnect]
  simp only [Db.attemptAt, after_bind, after_ite, after_pure, renewHandle_result]
  cases htoken : tokenAt mysql (attempts w.trace) with
  | none =>
      simp only [Option.isNone_none, if_true, renewHandle_trace, htoken]
      rw [← List.append_assoc]
      exact hclosed.append (by simp [Call.isConnect])
  | some t =>
      have hconnect := hclosed.connect t hname
      simp only [Option.isNone_some, Bool.false_eq_true, if_false, connectTo_trace,
        renewHandle_trace, htoken]
      simpa [Opening.prepares] using hconnect

/-- What the connections of a handle are opened with; named servers take their credentials
from the configuration file only. -/
def DbHandle.opening (handle : DbHandle) (timeout : Nat) : Opening where
  timeout
  config := handle.config
  servers := handle.server
  user := if handle.dblookup.isSome then none else handle.user
  pass := if handle.dblookup.isSome then none else handle.pass

/-- A ring connects with the credentials of its handle. -/
theorem DbHandle.opening_ring {handle : DbHandle} (hsingle : handle.dblookup = none) :
    handle.opening timeout =
      ⟨timeout, handle.config, handle.server, handle.user, handle.pass⟩ := by
  simp [opening, hsingle]

/-- Named servers connect with those of the configuration file. -/
theorem DbHandle.opening_named {handle : DbHandle} {table : List (Bytes × Option Token)}
    (hnamed : handle.dblookup = some table) :
    handle.opening timeout = ⟨timeout, handle.config, handle.server, none, none⟩ := by
  simp [opening, hnamed]

/-- The handle opens what the opening says, and its table holds listed names. -/
structure Governed (timeout : Nat) (opening : Opening) (handle : DbHandle) (w : World) : Prop where
  opening_eq : handle.opening timeout = opening
  offset : handle.serverOffset < handle.server.length
  listed : ∀ table, handle.dblookup = some table →
    ∀ name, (Assoc.get strcmp name table).isSome → opening.Lists name
  governs : opening.Governs w.trace

section Handles

variable {opening : Opening} {handle : DbHandle} {w : World}

/-- Calls that connect to nothing leave the handle governed. -/
theorem Governed.append (hgoverned : Governed timeout opening handle w) {w' : World}
    {calls : List Call} (htrace : w'.trace = w.trace ++ calls)
    (hcalls : ∀ call ∈ calls, call.isConnect = false) : Governed timeout opening handle w' :=
  { hgoverned with governs := htrace ▸ hgoverned.governs.append hcalls }

theorem DbHandle.lists_serverAt {ct : Nat} (hct : ct < handle.server.length) :
    (handle.opening timeout).Lists (handle.serverAt ct) := by
  refine ⟨handle.serverAt ct, ?_, strcmp_order.self _⟩
  simp only [opening, serverAt, List.getD_eq_getElem?_getD, List.getElem?_eq_getElem hct,
    Option.getD_some]
  exact List.getElem_mem hct

/-- An attempt on the ring leaves the list and the mode. -/
structure OnRing (mysql : Mysql) (timeout : Nat) (opening : Opening) (handle : DbHandle)
    (outcome : DbHandle × Bool) (w' : World) : Prop where
  governed : Governed timeout opening outcome.1 w'
  single : outcome.1.dblookup = none
  server : outcome.1.server = handle.server

/-- One attempt on the ring opens what the opening says: its timeouts, its configuration file
and one of its servers. -/
theorem ringAttempt_onRing (mysql : Mysql) (hgoverned : Governed timeout opening handle w)
    (hsingle : handle.dblookup = none) {ct : Nat} (hct : ct < handle.server.length) :
    OnRing mysql timeout opening handle (result (ringAttempt mysql timeout handle ct) w)
      (after (ringAttempt mysql timeout handle ct) w) := by
  have hgoverns : opening.Governs (after (ringAttempt mysql timeout handle ct) w).trace := by
    have hname : opening.Lists (handle.serverAt ct) :=
      hgoverned.opening_eq ▸ DbHandle.lists_serverAt hct
    have hbefore := hgoverned.governs
    obtain rfl := (DbHandle.opening_ring hsingle).symm.trans hgoverned.opening_eq
    rw [ringAttempt_eq]
    exact hbefore.attemptAt hname handle.db
  rw [ringAttempt_result]
  split
  next => exact ⟨⟨hgoverned.opening_eq, hct, hgoverned.listed, hgoverns⟩, hsingle, rfl⟩
  next => exact ⟨⟨hgoverned.opening_eq, hgoverned.offset, hgoverned.listed, hgoverns⟩, hsingle, rfl⟩

theorem ringLoop_governed (mysql : Mysql) (hgoverned : Governed timeout opening handle w)
    (hsingle : handle.dblookup = none) {cts : List Nat}
    (hcts : ∀ ct ∈ cts, ct < handle.server.length) :
    Governed timeout opening (result (ringLoop mysql timeout cts handle) w).1
      (after (ringLoop mysql timeout cts handle) w) := by
  induction cts generalizing handle w with
  | nil => exact hgoverned
  | cons ct rest ih =>
      obtain ⟨hct, hrest⟩ := List.forall_mem_cons.mp hcts
      have hfirst := ringAttempt_onRing mysql hgoverned hsingle hct
      simp only [ringLoop, result_bind, after_bind, result_ite, after_ite, result_pure, after_pure]
      split
      next => exact hfirst.governed
      next => exact ih hfirst.governed hfirst.single (hfirst.server ▸ hrest)

/-- Reattaching opens a listed server with the credentials of its mode, those of the options on
a ring and none for a named server. -/
theorem dbHandleReattach_governed (mysql : Mysql)
    (hgoverned : Governed timeout opening handle w) (dbserverName : Bytes)
    (hname : handle.dblookup.isSome → opening.Lists dbserverName) :
    Governed timeout opening (result (dbHandleReattach mysql timeout handle dbserverName) w).1
      (after (dbHandleReattach mysql timeout handle dbserverName) w) := by
  cases hmode : handle.dblookup with
  | none =>
      have hring := ringLoop_governed mysql hgoverned hmode
        fun ct hct => handle.lt_of_mem_ring hgoverned.offset hct
      rw [result, after, dbHandleReattach_ring mysql timeout hmode]
      exact hring
  | some table =>
      replace hname := hname (by simp [hmode])
      have hopening := (DbHandle.opening_named hmode).symm.trans hgoverned.opening_eq
      have hgoverns := hgoverned.governs
      have hlisted := hgoverned.listed table hmode
      obtain rfl := hopening
      rw [dbHandleReattach_named_eq mysql timeout hmode]
      simp only [result_bind, after_bind, result_pure, after_pure]
      refine ⟨rfl, hgoverned.offset, ?_, hgoverns.attemptAt hname _⟩
      rintro table' htable name hget
      obtain rfl := Option.some.inj htable
      rw [Assoc.get_replace strcmp_order] at hget
      split at hget
      next hsame =>
        obtain ⟨server, hserver, hequal⟩ := hname
        exact ⟨server, hserver, strcmp_order.eq_zero_trans hsame hequal⟩
      next => exact hlisted name hget

theorem reattachAll_governed (hgoverned : Governed timeout opening handle w) {names : List Bytes}
    (hnames : ∀ name ∈ names, opening.Lists name) :
    Governed timeout opening (result (reattachAll mysql timeout handle names) w)
      (after (reattachAll mysql timeout handle names) w) := by
  induction names generalizing handle w with
  | nil => exact hgoverned
  | cons name rest ih =>
      obtain ⟨hname, hrest⟩ := List.forall_mem_cons.mp hnames
      exact ih (dbHandleReattach_governed mysql hgoverned name fun _ => hname) hrest

/-- What a new handle opens is given by the arguments of `db_handle_init` alone. -/
theorem opening_dbHandleBlank (user pass : Option Bytes) (server config : Bytes) (seed : Nat)
    (multidb : Bool) :
    (dbHandleBlank user pass server config seed multidb).opening timeout =
      ⟨timeout, config, (cstr server).splitOn (ch ':'), if multidb then none else user,
        if multidb then none else pass⟩ := by
  rw [← (chopped_dbHandleBlank user pass server config seed multidb).split]
  cases multidb <;> rfl

theorem dbHandleInit_governed (user pass : Option Bytes) (server config : Bytes) (seed : Nat)
    (multidb : Bool) :
    Governed timeout ⟨timeout, config, (cstr server).splitOn (ch ':'),
        if multidb then none else user, if multidb then none else pass⟩
      (result (dbHandleInit mysql timeout user pass server config seed multidb) World.start)
      (after (dbHandleInit mysql timeout user pass server config seed multidb) World.start) := by
  rw [← opening_dbHandleBlank user pass server config seed multidb]
  have hblank : Governed timeout
      ((dbHandleBlank user pass server config seed multidb).opening timeout)
      (dbHandleBlank user pass server config seed multidb) World.start := by
    refine ⟨rfl, (dbHandleBlank_inv user pass server config seed multidb).offset, ?_,
      Opening.governs_nil⟩
    intro table htable name hget
    cases multidb with
    | false => cases htable
    | true =>
        cases htable
        simp [Assoc.get, Assoc.lowerBound] at hget
  cases multidb with
  | false => exact dbHandleReattach_governed mysql hblank [] (by simp [dbHandleBlank])
  | true => exact reattachAll_governed hblank fun name hname => ⟨name, hname, strcmp_order.self _⟩

end Handles

/-! ## Serving a request -/

section Requests

variable [CDouble δ] {opening : Opening} {handle : DbHandle} {db : Option Token} {w : World}

theorem queryOrReplay_governed (mysql : Mysql) (hgoverned : Governed timeout opening handle w)
    (db : Option Token) (dbserverName sql : Bytes)
    (hname : handle.dblookup.isSome → opening.Lists dbserverName) :
    Governed timeout opening
      (result (queryOrReplay mysql timeout handle db dbserverName sql) w).1
      (after (queryOrReplay mysql timeout handle db dbserverName sql) w) := by
  have hpath := queryOrReplay_path mysql timeout handle db dbserverName sql w
  have hquery : ∀ {handle w}, Governed timeout opening handle w → ∀ db,
      Governed timeout opening handle (after (mysqlQuery mysql db sql) w) :=
    fun hbefore db => hbefore.append (mysqlQuery_trace db sql _) (by simp [Call.isConnect])
  have hloss : Governed timeout opening handle (afterLoss mysql db sql w) :=
    hgoverned.append (afterLoss_trace db sql w) (by simp [Call.isConnect])
  have hreattached := dbHandleReattach_governed mysql hloss dbserverName hname
  generalize result (queryOrReplay mysql timeout handle db dbserverName sql) w = outcome at hpath
  generalize after (queryOrReplay mysql timeout handle db dbserverName sql) w = reached at hpath
  cases hpath with
  | ok _ => exact hquery hgoverned db
  | refused _ _ => exact hloss
  | stranded _ hstranded =>
      rw [hstranded] at hreattached
      exact hreattached
  | replayed _ hreplayed hreached =>
      rw [hreplayed, hreached] at hreattached
      exact hquery hreattached _

omit [CDouble δ] in
/-- A request that is not refused is for a listed server. -/
theorem selectServer_listed {injson : JsonValue δ} {dbserverName : Bytes}
    (hgoverned : Governed timeout opening handle w)
    (hselect : selectServer handle injson = .server db dbserverName)
    (hmode : handle.dblookup.isSome) : opening.Lists dbserverName := by
  obtain ⟨table, htable⟩ := Option.isSome_iff_exists.mp hmode
  unfold selectServer at hselect
  rw [htable] at hselect
  split at hselect
  next hnone => simp at hnone
  next name other _ hother =>
    cases hother
    split at hselect
    next => cases hselect
    next t hlookup =>
      cases hselect
      refine hgoverned.listed table htable dbserverName ?_
      cases hget : Assoc.get strcmp dbserverName table with
      | none => simp [lookupGet, hget] at hlookup
      | some _ => rfl
  next => cases hselect
  next hnone => simp at hnone

/-- No request makes the handle open anything else: a SERVER that is not listed is refused
before any call. -/
theorem dbexecute_governed (hgoverned : Governed timeout opening handle w)
    (injson : JsonValue δ) :
    Governed timeout opening (result (dbexecute mysql timeout handle injson) w).1
      (after (dbexecute mysql timeout handle injson) w) := by
  cases hselect : selectServer handle injson with
  | refused out => simpa [dbexecute, hselect] using hgoverned
  | server db dbserverName =>
      cases hsql : memberString injson "SQL" with
      | none =>
          have hcalls : CallsOn db (metadataCalls db injson) := callsOn_metadataCalls injson
          simp only [dbexecute, hselect, hsql, result_bind, after_bind, result_pure, after_pure]
          exact hgoverned.append (finishReply_trace dbserverName injson [] w) hcalls.connects
      | some sql =>
          have hqueried := queryOrReplay_governed mysql hgoverned db dbserverName sql
            (selectServer_listed hgoverned hselect)
          obtain ⟨hhandle, tail, htail, hcalls, -⟩ := dbexecute_sql hselect hsql w rfl rfl
          rw [hhandle]
          exact hqueried.append htail hcalls.connects

end Requests

end DbSlayer.Db
