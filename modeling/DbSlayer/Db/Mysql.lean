import DbSlayer.CLib.Strings
import DbSlayer.Foundation.Ledger
import Mathlib.Logic.Function.Basic

/-! # The MySQL client library

The calls that `dbaccess.c` makes on a `MYSQL *`, each recorded in a trace. A
handle is a token, new with every `mysql_init` that succeeds, and `none` is the
null pointer. What the servers do is a parameter: the outcome of the n-th
attempt to get a connection, of the n-th query, and of the other calls by the
number of calls before them. A query leaves a finite batch of results on its
connection, which `mysql_store_result` and `mysql_next_result` walk through.
-/

namespace DbSlayer.Db

open Foundation

/-- The address of a `MYSQL`. -/
abbrev Token := Nat

/-- What `mysql_errno` and `mysql_error` report. -/
structure MysqlError where
  errno : Nat
  text : Bytes
  deriving DecidableEq, Repr

/-- No error. -/
def MysqlError.none : MysqlError := ⟨0, []⟩

/-- `enum_field_types`, as far as the source names its members. -/
inductive FieldType where
  | tiny | short | long | int24 | decimal | newdecimal | double | float | longlong | bit
  | timestamp | date | time | datetime | year | string | varString | newdate | varchar | blob
  | tinyBlob | mediumBlob | longBlob | set | enum | geometry | null
  | other (code : Nat)
  deriving DecidableEq, Repr

/-- `MYSQL_FIELD`. -/
structure Field where
  name : Bytes
  type : FieldType
  charsetnr : Nat
  deriving DecidableEq, Repr

/-- `MYSQL_RES`: a cell is a null pointer or the bytes of `mysql_fetch_lengths`, with a
terminator behind them. -/
structure ResultSet where
  fields : List Field
  rows : List (List (Option Bytes))
  deriving DecidableEq, Repr

/-- What a statement of a batch left for `mysql_store_result`. -/
inductive Statement where
  | rows (result : ResultSet)
  | affected (rows insertId : UInt64)
  | failed (error : MysqlError)
  deriving DecidableEq, Repr

/-- What `mysql_next_result` finds behind a statement. -/
inductive Batch where
  | done
  | failed (error : MysqlError)
  | more (statement : Statement) (rest : Batch)
  deriving DecidableEq, Repr

/-- How a query ends. The server may have executed a query that fails. -/
inductive QueryOutcome where
  | ok (first : Statement) (rest : Batch)
  | error (error : MysqlError) (executed : Bool)
  deriving DecidableEq, Repr

/-- How `mysql_init` and the `mysql_real_connect` on its handle end. -/
inductive Attempt where
  | noHandle | refused | connected
  deriving DecidableEq, Repr

/-- The servers and the library as the program meets them. -/
structure Mysql where
  attempt : Nat → Attempt
  query : Nat → QueryOutcome
  rollback : Nat → Bool
  stat : Nat → Option Bytes
  hostInfo : Nat → Option Bytes
  serverVersion : Nat → Nat
  clientInfo : Bytes
  clientVersion : Nat

/-- The options that are set. -/
inductive ClientOption where
  | readTimeout (seconds : Nat)
  | writeTimeout (seconds : Nat)
  | readDefaultFile (config : Bytes)
  | readDefaultGroup (server : Bytes)
  deriving DecidableEq, Repr

/-- The calls on a handle other than opening, closing and querying. -/
inductive Operation where
  | options (option : ClientOption)
  | realConnect (user pass : Option Bytes)
  | errno | error | rollback | storeResult | nextResult | affectedRows | insertId | stat
  | hostInfo | serverVersion
  deriving DecidableEq, Repr

inductive Call where
  | init (result : Option Token)
  | close (db : Option Token)
  | query (db : Option Token) (sql : Bytes) (executed : Bool)
  | on (db : Option Token) (operation : Operation)
  | clientInfo
  | clientVersion
  | threadEnd
  deriving DecidableEq, Repr

/-- Handles as resources. A null pointer is never open, and may be closed. -/
def handles : Ledger Call (Option Token) where
  opens
    | .init (some t) => some (some t)
    | _ => none
  closes
    | .close (some t) => some (some t)
    | _ => none
  needs
    | .close (some t) => some (some t)
    | .query db _ _ => some db
    | .on db _ => some db
    | _ => none

def Call.isInit : Call → Bool
  | init _ => true
  | _ => false

def Call.isQuery : Call → Bool
  | query _ _ _ => true
  | _ => false

/-- How many attempts a trace holds. -/
def attempts (trace : List Call) : Nat := trace.countP Call.isInit

/-- How many queries a trace holds. -/
def queries (trace : List Call) : Nat := trace.countP Call.isQuery

/-- What a `MYSQL` keeps of the last call: the error, the current statement and
what is behind it. -/
structure Connection where
  error : MysqlError
  current : Statement
  rest : Batch

structure World where
  trace : List Call
  connection : Option Token → Connection

/-- No call was made yet. -/
def World.start : World :=
  ⟨[], fun _ => ⟨.none, .affected 0 0, .done⟩⟩

abbrev Client := StateM World

def record (call : Call) : Client Unit :=
  modify fun world => { world with trace := world.trace ++ [call] }

def setConnection (db : Option Token) (connection : Connection) : Client Unit :=
  modify fun world => { world with connection := Function.update world.connection db connection }

def mysqlClose (db : Option Token) : Client Unit := record (.close db)

def mysqlOptions (db : Option Token) (option : ClientOption) : Client Unit :=
  record (.on db (.options option))

def mysqlErrno (db : Option Token) : Client Nat := do
  record (.on db .errno)
  return ((← get).connection db).error.errno

def mysqlError (db : Option Token) : Client Bytes := do
  record (.on db .error)
  return ((← get).connection db).error.text

/-- The result set, or null when there is none or it could not be stored. -/
def mysqlStoreResult (db : Option Token) : Client (Option ResultSet) := do
  record (.on db .storeResult)
  let connection := (← get).connection db
  match connection.current with
  | .rows result => do
      setConnection db { connection with error := .none }
      return some result
  | .affected _ _ => do
      setConnection db { connection with error := .none }
      return none
  | .failed error => do
      setConnection db { connection with error }
      return none

/-- `0` for another result, `-1` for none, and more than `0` for an error. -/
def mysqlNextResult (db : Option Token) : Client Int := do
  record (.on db .nextResult)
  let connection := (← get).connection db
  match connection.rest with
  | .done => return -1
  | .failed error => do
      setConnection db { connection with error }
      return 1
  | .more statement rest => do
      setConnection db ⟨.none, statement, rest⟩
      return 0

def mysqlAffectedRows (db : Option Token) : Client UInt64 := do
  record (.on db .affectedRows)
  match ((← get).connection db).current with
  | .affected rows _ => return rows
  | _ => return (-1 : UInt64)

def mysqlInsertId (db : Option Token) : Client UInt64 := do
  record (.on db .insertId)
  match ((← get).connection db).current with
  | .affected _ insertId => return insertId
  | _ => return 0

section Servers

variable (mysql : Mysql)

def mysqlInit : Client (Option Token) := do
  let t := attempts (← get).trace
  let result := if mysql.attempt t = .noHandle then none else some t
  record (.init result)
  return result

/-- Whether the connection was made. -/
def mysqlRealConnect (db : Option Token) (user pass : Option Bytes) : Client Bool := do
  record (.on db (.realConnect user pass))
  return db.any fun t => mysql.attempt t = .connected

/-- Whether the query failed. -/
def mysqlQuery (db : Option Token) (sql : Bytes) : Client Bool := do
  match mysql.query (queries (← get).trace) with
  | .ok first rest => do
      record (.query db sql true)
      setConnection db ⟨.none, first, rest⟩
      return false
  | .error error executed => do
      record (.query db sql executed)
      setConnection db ⟨error, .failed error, .done⟩
      return true

/-- Whether the rollback failed. -/
def mysqlRollback (db : Option Token) : Client Bool := do
  let position := (← get).trace.length
  record (.on db .rollback)
  return mysql.rollback position

def mysqlStat (db : Option Token) : Client (Option Bytes) := do
  let position := (← get).trace.length
  record (.on db .stat)
  return mysql.stat position

def mysqlGetHostInfo (db : Option Token) : Client (Option Bytes) := do
  let position := (← get).trace.length
  record (.on db .hostInfo)
  return mysql.hostInfo position

def mysqlGetServerVersion (db : Option Token) : Client Nat := do
  let position := (← get).trace.length
  record (.on db .serverVersion)
  return mysql.serverVersion position

def mysqlGetClientInfo : Client Bytes := do
  record .clientInfo
  return mysql.clientInfo

def mysqlGetClientVersion : Client Nat := do
  record .clientVersion
  return mysql.clientVersion

end Servers

end DbSlayer.Db
