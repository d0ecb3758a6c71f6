import DbSlayer.Db.Mysql

/-! # The handles of `dbaccess.c`

A worker's `db_handle_t` either holds one connection of a ring of servers, or
a table with a connection for every named server. The table is kept as the
level-0 order of its skip list.
-/

namespace DbSlayer.Db

open Foundation

/-- `db_handle_t`. The count of the servers is the length of their list. -/
structure DbHandle where
  user : Option Bytes
  pass : Option Bytes
  config : Bytes
  server : List Bytes
  serverOffset : Nat
  db : Option Token
  dblookup : Option (List (Bytes × Option Token))
  deriving DecidableEq, Repr

/-- `handle->server[i]`. -/
def DbHandle.serverAt (handle : DbHandle) (i : Nat) : Bytes := handle.server.getD i []

/-- `json_skip_get` on the table of named servers; a missing name and a null
pointer are the same. -/
def lookupGet (table : List (Bytes × Option Token)) (name : Bytes) : Option Token :=
  (Assoc.get strcmp name table).join

/-- `db_set_query_timeouts`. The timeout is what `db_query_timeout_seconds` reads from the
environment. -/
def dbSetQueryTimeouts (db : Option Token) (timeout : Nat) : Client Unit := do
  mysqlOptions db (.readTimeout timeout)
  mysqlOptions db (.writeTimeout timeout)

/-- The chopped server string: `b` is what was read of the current name. -/
def chopServers : Bytes → Bytes → List Bytes
  | b, [] => [b]
  | b, c :: rest => if c = ch ':' then b :: chopServers [] rest else chopServers (b ++ [c]) rest

section Reattach

variable (mysql : Mysql) (timeout : Nat)

/-- The options and the connection of a new handle. -/
def connectTo (db : Option Token) (config server : Bytes) (user pass : Option Bytes) :
    Client Bool := do
  dbSetQueryTimeouts db timeout
  mysqlOptions db (.readDefaultFile config)
  mysqlOptions db (.readDefaultGroup server)
  mysqlRealConnect mysql db user pass

/-- Close a handle unless it is null, and get a new one. -/
def renewHandle (old : Option Token) : Client (Option Token) := do
  if old.isSome then mysqlClose old
  mysqlInit mysql

/-- The body of both loops over the ring, and whether it returns. -/
def ringAttempt (handle : DbHandle) (ct : Nat) : Client (DbHandle × Bool) := do
  let db ← renewHandle mysql handle.db
  if db.isNone then return ({ handle with db }, false)
  else
    let connected ← connectTo mysql timeout db handle.config (handle.serverAt ct) handle.user
      handle.pass
    if connected then return ({ handle with db, serverOffset := ct }, true)
    else return ({ handle with db }, false)

def ringLoop : List Nat → DbHandle → Client (DbHandle × Bool)
  | [], handle => return (handle, false)
  | ct :: rest, handle => do
      let (handle, attached) ← ringAttempt mysql timeout handle ct
      if attached then return (handle, true) else ringLoop rest handle

/-- `db_handle_reattach`: the handle, and whether it is returned or null is. -/
def dbHandleReattach (handle : DbHandle) (dbserverName : Bytes) : Client (DbHandle × Bool) :=
  match handle.dblookup with
  | none => do
      let upper := List.range' handle.serverOffset (handle.server.length - handle.serverOffset)
      let (handle, attached) ← ringLoop mysql timeout upper handle
      if attached then return (handle, true)
      else ringLoop mysql timeout (List.range handle.serverOffset) handle
  | some table => do
      let db ← renewHandle mysql (lookupGet table dbserverName)
      let handle := { handle with dblookup := some (Assoc.replace strcmp dbserverName db table) }
      if db.isNone then return (handle, false)
      else
        let connected ← connectTo mysql timeout db handle.config dbserverName none none
        return (handle, connected)

/-- Reattach names one after the other. -/
def reattachAll (handle : DbHandle) : List Bytes → Client DbHandle
  | [] => return handle
  | name :: rest => do
      let (handle, _) ← dbHandleReattach mysql timeout handle name
      reattachAll handle rest

/-- The handle before its first connection. -/
def dbHandleBlank (user pass : Option Bytes) (server config : Bytes) (seed : Nat)
    (multidb : Bool) : DbHandle :=
  let servers := chopServers [] (cstr server)
  { user, pass, config, server := servers
    serverOffset := if seed < servers.length then seed else seed % servers.length
    db := none, dblookup := if multidb then some [] else none }

/-- `db_handle_init`. -/
def dbHandleInit (user pass : Option Bytes) (server config : Bytes) (seed : Nat)
    (multidb : Bool) : Client DbHandle :=
  let handle := dbHandleBlank user pass server config seed multidb
  if multidb then reattachAll mysql timeout handle handle.server
  else reattachAll mysql timeout handle [[]]

end Reattach

/-- The loop of `db_handle_destroy` over the names of the servers. -/
def closeNamed (table : List (Bytes × Option Token)) : List Bytes → Client Unit
  | [] => return ()
  | name :: rest => do
      mysqlClose (lookupGet table name)
      closeNamed table rest

/-- `db_handle_destroy`, as far as handles go. -/
def dbHandleDestroy (handle : DbHandle) : Client Unit := do
  match handle.dblookup with
  | none => mysqlClose handle.db
  | some table => closeNamed table handle.server
  record .threadEnd

end DbSlayer.Db
