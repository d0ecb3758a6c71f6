import DbSlayer.Db.Handle
import DbSlayer.Db.Result

/-! # `dbexecute`

One request against a handle. The object that is returned is kept as its
ordered entries; a string may be a null pointer there, and the array of all
results is published by reference before it is complete.
-/

namespace DbSlayer.Db

open Foundation Json

variable {δ : Type} [CDouble δ]

/-- What an entry of the returned object points to. -/
inductive Reply (δ : Type) where
  | string (value : Option Bytes)
  | value (json : JsonValue δ)
  | allResult

abbrev Out (δ : Type) := List (Bytes × Reply δ)

/-- `json_object_add`. -/
def objectAdd (out : Out δ) (key : String) (reply : Reply δ) : Out δ :=
  Assoc.put strcmp (bytes key) reply out

/-- Whether `json_skip_get` finds the key. -/
def outHas (out : Out δ) (key : String) : Bool := (Assoc.get strcmp (bytes key) out).isSome

/-- The member of a request object, `none` for other requests. -/
def member (injson : JsonValue δ) (key : String) : Option (JsonValue δ) :=
  match injson with
  | .object entries => objectGet entries (bytes key)
  | _ => none

/-- A member that is a string. -/
def memberString (injson : JsonValue δ) (key : String) : Option Bytes :=
  match member injson key with
  | some (.string value) => some value
  | _ => none

def dbFlagSet (injson : JsonValue δ) (key : String) : Bool :=
  match member injson key with
  | some (.boolean value) => value ≠ 0
  | _ => false

/-- `CR_SERVER_LOST`, `CR_SERVER_GONE_ERROR` and `CR_SERVER_LOST_EXTENDED`. -/
def connectionLost (errno : Nat) : Bool := errno = 2013 || errno = 2006 || errno = 2055

section Calls

variable (mysql : Mysql)

def dbReportError (out : Out δ) (db : Option Token) (dbserverName : Bytes)
    (injson : JsonValue δ) : Client (Out δ) := do
  if outHas out "MYSQL_ERROR" then return out
  else
    let out := objectAdd out "SUCCESS" (.value (.boolean 0))
    let text ← mysqlError db
    let out := objectAdd out "MYSQL_ERROR" (.string (some text))
    let errno ← mysqlErrno db
    let out := objectAdd out "MYSQL_ERRNO" (.value (.long (Int64.ofNat errno)))
    let out := if outHas out "SERVER" then out
      else objectAdd out "SERVER" (.string (some dbserverName))
    if dbFlagSet injson "ROLLBACK_ON_ERROR" then
      let failed ← mysqlRollback mysql db
      let out := objectAdd out "ROLLBACK_ON_ERROR" (.value (.boolean 1))
      return objectAdd out "ROLLBACK_ON_ERROR_SUCCESS"
        (.value (.boolean (if failed then 0 else 1)))
    else return out

/-- `dbaffected2json`. -/
def dbaffected2json (db : Option Token) : Client (JsonValue δ) := do
  let rows ← mysqlAffectedRows db
  let insertId ← mysqlInsertId db
  return .object (objectOf [
    (bytes "SUCCESS", .boolean 1),
    (bytes "AFFECTED_ROWS", .long rows.toInt64),
    (bytes "INSERT_ID", .long insertId.toInt64)])

/-- The accumulator pair: the latest lone result, and the array of all results
from the second on. -/
structure Results (δ : Type) where
  sql : Option (JsonValue δ)
  all : Option (List (JsonValue δ))

/-- The second statement turns the results into an array. -/
def Results.promote (results : Results δ) : Results δ :=
  match results.sql, results.all with
  | some first, none => { results with all := some [first] }
  | _, _ => results

/-- `dbprocess_result`, with `none` for `-1`. -/
def dbprocessResult (db : Option Token) (myresult : Option ResultSet) (results : Results δ) :
    Client (Option (Results δ)) := do
  match myresult with
  | none =>
      let errno ← mysqlErrno db
      if errno ≠ 0 then return none
      else
        let results := results.promote
        let affected ← dbaffected2json db
        return some ⟨some affected, results.all.map (· ++ [affected])⟩
  | some result =>
      if results.sql.isNone then return some { results with sql := some (dbresult2json result) }
      else
        let results := results.promote
        return some { results with all := results.all.map (· ++ [dbresult2json result]) }

/-- The `do … while` over the statements of a batch. The fuel is the number of
statements that are left. -/
def resultLoop (db : Option Token) (dbserverName : Bytes) (injson : JsonValue δ) :
    Nat → Out δ → Results δ → Client (Out δ × Results δ)
  | 0, out, results => return (out, results)
  | fuel + 1, out, results => do
      let myresult ← mysqlStoreResult db
      match ← dbprocessResult db myresult results with
      | none =>
          let out ← dbReportError mysql out db dbserverName injson
          return (out, results)
      | some next =>
          let out := if results.all.isNone && next.all.isSome then objectAdd out "RESULT" .allResult
            else out
          let status ← mysqlNextResult db
          if status > 0 then
            let out ← dbReportError mysql out db dbserverName injson
            return (out, next)
          else if status = 0 then resultLoop db dbserverName injson fuel out next
          else return (out, next)

/-- How many statements are behind the current one. -/
def Batch.length : Batch → Nat
  | done => 0
  | failed _ => 0
  | more _ rest => rest.length + 1

/-- An introspection command: a flag, and the value that answers it. -/
def answerFlag (injson : JsonValue δ) (key : String) (answer : Client (Reply δ)) (out : Out δ) :
    Client (Out δ) := do
  if dbFlagSet injson key then
    let reply ← answer
    return objectAdd out key reply
  else return out

/-- The object of `SLAYER_HELP`. -/
def slayerHelp : JsonValue δ :=
  .object (objectOf [
    (bytes "SQL", .string (bytes
      "in(string)[sql statement to execute] : out()eturns results in RESULTS node")),
    (bytes "STAT", .string (bytes "in(boolean) : out(string) result of mysql_stat()")),
    (bytes "CLIENT_INFO", .string (bytes
      "in(boolean) : out(string) result of mysql_get_client_info()")),
    (bytes "HOST_INFO", .string (bytes
      "in(boolean) : out(string) result of mysql_get_host_info()")),
    (bytes "SERVER_VERSION", .string (bytes
      "in(boolean) : out(long) result of mysql_server_version()")),
    (bytes "CLIENT_VERSION", .string (bytes
      "in(boolean) : out(long) result of mysql_client_version()")),
    (bytes "SLAYER_HELP", .string (bytes "in(boolean) : true ? returns this result")),
    (bytes "SLAYER_DEBUG_RETURN_INPUT", .string (bytes
      "in(boolean) : true ? returns this result")),
    (bytes "SERVER_NAME", .string (bytes
      "in(boolean) : true ? returns stanza from the -s option that was used"))])

def dbprocessMetadata (db : Option Token) (injson : JsonValue δ) (out : Out δ)
    (dbserverName : Bytes) : Client (Out δ) := do
  let out ← answerFlag injson "STAT" (.string <$> mysqlStat mysql db) out
  let out ← answerFlag injson "CLIENT_INFO"
    ((fun info => .string (some info)) <$> mysqlGetClientInfo mysql) out
  let out ← answerFlag injson "HOST_INFO" (.string <$> mysqlGetHostInfo mysql db) out
  let out ← answerFlag injson "SERVER_VERSION"
    ((fun version => .value (.long (Int64.ofNat version))) <$> mysqlGetServerVersion mysql db) out
  let out ← answerFlag injson "CLIENT_VERSION"
    ((fun version => .value (.long (Int64.ofNat version))) <$> mysqlGetClientVersion mysql) out
  let out ← answerFlag injson "SLAYER_DEBUG_RETURN_INPUT" (return .value injson) out
  let out ← answerFlag injson "SERVER_NAME" (return .string (some dbserverName)) out
  answerFlag injson "SLAYER_HELP" (return .value slayerHelp) out

/-- Which connection a request is for: an error object, or a handle and the name
of its server. -/
inductive Selected (δ : Type) where
  | refused (out : Out δ)
  | server (db : Option Token) (dbserverName : Bytes)

/-- The connection that the handle keeps under a name, or its only one. -/
def DbHandle.current (handle : DbHandle) (dbserverName : Bytes) : Option Token :=
  match handle.dblookup with
  | none => handle.db
  | some table => lookupGet table dbserverName

/-- The name that an error is reported under. -/
def DbHandle.reportName (handle : DbHandle) (dbserverName : Bytes) : Bytes :=
  match handle.dblookup with
  | none => handle.serverAt handle.serverOffset
  | some _ => dbserverName

def selectServer (handle : DbHandle) (injson : JsonValue δ) : Selected δ :=
  match memberString injson "SERVER", handle.dblookup with
  | some _, none => .refused (objectAdd [] "ERROR" (.string (some (bytes
      "Provided a SERVER argument but dbslayer is not configure for named server access - perhaps you want the -m config option"))))
  | some dbserverName, some table =>
      match lookupGet table dbserverName with
      | none =>
          let out := objectAdd [] "ERROR" (.string (some (bytes
            "Couldn't find the database handle for SERVER requested")))
          .refused (objectAdd out "SERVER" (.value (.string dbserverName)))
      | some t => .server (some t) dbserverName
  | none, some _ => .refused (objectAdd [] "ERROR" (.string (some (bytes
      "dbslayer is configured to take a SERVER argument - perhaps you want the -s config option"))))
  | none, none => .server handle.db (handle.serverAt handle.serverOffset)

section Query

variable (timeout : Nat)

/-- The query and its replay on a lost connection: the handle afterwards, the
connection that the local variable `db` holds, and whether a query succeeded.
The variable keeps the old connection when the handle could not be reattached. -/
def queryOrReplay (handle : DbHandle) (db : Option Token) (dbserverName sql : Bytes) :
    Client (DbHandle × Option Token × Bool) := do
  let failed ← mysqlQuery mysql db sql
  if failed then
    let qerrno ← mysqlErrno db
    if connectionLost qerrno then
      let (handle, attached) ← dbHandleReattach mysql timeout handle dbserverName
      if attached then
        let db := handle.current dbserverName
        let failed ← mysqlQuery mysql db sql
        return (handle, db, !failed)
      else return (handle, db, false)
    else return (handle, db, false)
  else return (handle, db, true)

/-- The results of a query that succeeded. -/
def publishResults (db : Option Token) (dbserverName : Bytes) (injson : JsonValue δ) :
    Client (Out δ) := do
  let fuel := ((← get).connection db).rest.length + 1
  let (out, results) ← resultLoop mysql db dbserverName injson fuel [] ⟨none, none⟩
  let out := match results.sql, results.all with
    | some lone, none => objectAdd out "RESULT" (.value lone)
    | _, _ => out
  let out := if outHas out "SERVER" then out
    else objectAdd out "SERVER" (.string (some dbserverName))
  -- the published array now has its final contents
  return out.map fun entry => match entry.2 with
    | .allResult => (entry.1, .value (.array (results.all.getD [])))
    | _ => entry

/-- The metadata, and a hint when there is nothing else to say. -/
def finishReply (db : Option Token) (dbserverName : Bytes) (injson : JsonValue δ) (out : Out δ) :
    Client (Out δ) := do
  let out ← dbprocessMetadata mysql db injson out dbserverName
  return if out.length % 2 ^ 32 = 0 then
    objectAdd out "ERROR" (.string (some (bytes "TRY \x7b\"SLAYER_HELP\":true \x7d ")))
  else out

def dbexecute (handle : DbHandle) (injson : JsonValue δ) : Client (DbHandle × Out δ) :=
  match selectServer handle injson with
  | .refused out => return (handle, out)
  | .server db dbserverName =>
      match memberString injson "SQL" with
      | none => do
          let out ← finishReply mysql db dbserverName injson []
          return (handle, out)
      | some sql => do
          let (handle, db, ok) ← queryOrReplay mysql timeout handle db dbserverName sql
          if ok then
            let out ← publishResults mysql db dbserverName injson
            let out ← finishReply mysql db dbserverName injson out
            return (handle, out)
          else
            let out ← dbReportError mysql [] db (handle.reportName dbserverName) injson
            return (handle, out)

end Query

end Calls

end DbSlayer.Db
