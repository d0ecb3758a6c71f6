import DbSlayer.Db.Calls

/-! # What the returned object holds

Lookups in the object of `dbexecute`, through the parts that add to it. A part
leaves alone the keys that it does not add.
-/

namespace DbSlayer.Db

open Foundation Json

variable {δ : Type} {mysql : Mysql}

/-- The entry that `json_skip_get` finds. -/
def outGet (out : Out δ) (key : String) : Option (Reply δ) := Assoc.get strcmp (bytes key) out

/-- Two keys that `strcmp` tells apart. -/
def KeysDiffer (key other : String) : Prop := strcmp (bytes key) (bytes other) ≠ 0

instance (key other : String) : Decidable (KeysDiffer key other) :=
  inferInstanceAs (Decidable (_ ≠ _))

@[simp] theorem outGet_nil (key : String) : outGet ([] : Out δ) key = none := rfl

theorem outHas_eq (out : Out δ) (key : String) : outHas out key = (outGet out key).isSome := rfl

theorem outGet_objectAdd_self (out : Out δ) (key : String) (reply : Reply δ) :
    outGet (objectAdd out key reply) key = some reply := by
  have hself : strcmp (bytes key) (bytes key) = 0 := by
    have hneg := strcmp_neg (bytes key) (bytes key)
    omega
  rw [outGet, objectAdd, Assoc.get_put strcmp_order, if_pos hself]

theorem outGet_objectAdd_of_ne {key other : String} (hne : KeysDiffer other key) (out : Out δ)
    (reply : Reply δ) : outGet (objectAdd out key reply) other = outGet out other := by
  rw [outGet, objectAdd, Assoc.get_put strcmp_order, if_neg hne]
  rfl

/-- The server is named once. -/
def withServer (out : Out δ) (dbserverName : Bytes) : Out δ :=
  if outHas out "SERVER" then out else objectAdd out "SERVER" (.string (some dbserverName))

theorem outGet_withServer {key : String} (hne : KeysDiffer key "SERVER") (out : Out δ)
    (dbserverName : Bytes) : outGet (withServer out dbserverName) key = outGet out key := by
  unfold withServer
  split
  · rfl
  · exact outGet_objectAdd_of_ne hne out _

/-! ## Error reports -/

/-- The object behind an error report; `failed` is what the rollback returned. -/
def errorReport (out : Out δ) (error : MysqlError) (dbserverName : Bytes) (injson : JsonValue δ)
    (failed : Bool) : Out δ :=
  let out := objectAdd out "SUCCESS" (.value (.boolean 0))
  let out := objectAdd out "MYSQL_ERROR" (.string (some error.text))
  let out := objectAdd out "MYSQL_ERRNO" (.value (.long (Int64.ofNat error.errno)))
  let out := withServer out dbserverName
  if dbFlagSet injson "ROLLBACK_ON_ERROR" then
    let out := objectAdd out "ROLLBACK_ON_ERROR" (.value (.boolean 1))
    objectAdd out "ROLLBACK_ON_ERROR_SUCCESS" (.value (.boolean (if failed then 0 else 1)))
  else out

/-- The first error report, as one object of what it read. -/
theorem dbReportError_result {out : Out δ} (hnew : outHas out "MYSQL_ERROR" = false)
    (db : Option Token) (dbserverName : Bytes) (injson : JsonValue δ) (w : World) :
    result (dbReportError mysql out db dbserverName injson) w =
      errorReport out (w.connection db).error dbserverName injson
        (mysql.rollback (w.trace.length + 2)) := by
  unfold dbReportError errorReport
  rw [if_neg (by simp [hnew])]
  cases hflag : dbFlagSet injson "ROLLBACK_ON_ERROR" with
  | false => rfl
  | true =>
      have hposition : (w.trace ++ [Call.on db .error] ++ [Call.on db .errno]).length =
          w.trace.length + 2 := by simp
      rw [← hposition]
      rfl

/-- Whether the object reports an error, and which. -/
structure ErrorEntries (error : Option MysqlError) (out : Out δ) : Prop where
  success : outGet out "SUCCESS" = error.map fun _ => .value (.boolean 0)
  text : outGet out "MYSQL_ERROR" = error.map fun error => .string (some error.text)
  errno : outGet out "MYSQL_ERRNO" =
    error.map fun error => .value (.long (Int64.ofNat error.errno))

theorem errorEntries_nil : ErrorEntries none ([] : Out δ) := ⟨rfl, rfl, rfl⟩

/-- An entry under a key that no error uses leaves the entries of an error as they are. -/
theorem ErrorEntries.objectAdd {error : Option MysqlError} {out : Out δ} {key : String}
    (hentries : ErrorEntries error out) (hsuccess : KeysDiffer "SUCCESS" key)
    (htext : KeysDiffer "MYSQL_ERROR" key) (herrno : KeysDiffer "MYSQL_ERRNO" key)
    (reply : Reply δ) : ErrorEntries error (objectAdd out key reply) where
  success := (outGet_objectAdd_of_ne hsuccess out reply).trans hentries.success
  text := (outGet_objectAdd_of_ne htext out reply).trans hentries.text
  errno := (outGet_objectAdd_of_ne herrno out reply).trans hentries.errno

theorem ErrorEntries.withServer {error : Option MysqlError} {out : Out δ}
    (hentries : ErrorEntries error out) (dbserverName : Bytes) :
    ErrorEntries error (withServer out dbserverName) where
  success := (outGet_withServer (by decide) out dbserverName).trans hentries.success
  text := (outGet_withServer (by decide) out dbserverName).trans hentries.text
  errno := (outGet_withServer (by decide) out dbserverName).trans hentries.errno

theorem errorEntries_errorReport (out : Out δ) (error : MysqlError) (dbserverName : Bytes)
    (injson : JsonValue δ) (failed : Bool) :
    ErrorEntries (some error) (errorReport out error dbserverName injson failed) := by
  have hreport : ErrorEntries (some error) (objectAdd (objectAdd (objectAdd out "SUCCESS"
      (.value (.boolean 0))) "MYSQL_ERROR" (.string (some error.text)))
      "MYSQL_ERRNO" (.value (.long (Int64.ofNat error.errno)))) := by
    constructor
    · rw [outGet_objectAdd_of_ne (by decide), outGet_objectAdd_of_ne (by decide),
        outGet_objectAdd_self]
      rfl
    · rw [outGet_objectAdd_of_ne (by decide), outGet_objectAdd_self]
      rfl
    · rw [outGet_objectAdd_self]
      rfl
  unfold errorReport
  dsimp only
  generalize objectAdd (objectAdd (objectAdd out "SUCCESS" _) "MYSQL_ERROR" _) "MYSQL_ERRNO" _ =
    reported at hreport ⊢
  have hserver := hreport.withServer dbserverName
  split
  · exact (hserver.objectAdd (by decide) (by decide) (by decide) _).objectAdd (by decide)
      (by decide) (by decide) _
  · exact hserver

/-- The keys of an error report. -/
def errorKeys : List String :=
  ["SUCCESS", "MYSQL_ERROR", "MYSQL_ERRNO", "SERVER", "ROLLBACK_ON_ERROR",
    "ROLLBACK_ON_ERROR_SUCCESS"]

theorem outGet_errorReport {key : String} (hother : ∀ used ∈ errorKeys, KeysDiffer key used)
    (out : Out δ) (error : MysqlError) (dbserverName : Bytes) (injson : JsonValue δ)
    (failed : Bool) :
    outGet (errorReport out error dbserverName injson failed) key = outGet out key := by
  have hkeep : ∀ used ∈ errorKeys, ∀ (out : Out δ) reply,
      outGet (objectAdd out used reply) key = outGet out key :=
    fun used hused out reply => outGet_objectAdd_of_ne (hother used hused) out reply
  have hserver : KeysDiffer key "SERVER" := hother "SERVER" (by decide)
  simp only [errorKeys, List.forall_mem_cons] at hkeep
  obtain ⟨hsuccess, htext, herrno, -, hrollback, hdone, -⟩ := hkeep
  unfold errorReport
  dsimp only
  have hnamed : ∀ out : Out δ, outGet (withServer out dbserverName) key = outGet out key :=
    fun out => outGet_withServer hserver out dbserverName
  split <;> simp only [hsuccess, htext, herrno, hnamed, hrollback, hdone]

/-! ## Metadata -/

theorem outGet_answerFlag {key other : String} (hne : KeysDiffer other key) (injson : JsonValue δ)
    (answer : Client (Reply δ)) (out : Out δ) (w : World) :
    outGet (result (answerFlag injson key answer out) w) other = outGet out other := by
  rw [answerFlag, result_ite]
  split
  · exact outGet_objectAdd_of_ne hne out _
  · rfl

/-- The keys of the introspection commands. -/
def metadataKeys : List String :=
  ["STAT", "CLIENT_INFO", "HOST_INFO", "SERVER_VERSION", "CLIENT_VERSION",
    "SLAYER_DEBUG_RETURN_INPUT", "SERVER_NAME", "SLAYER_HELP"]

/-- The introspection flags answer under their own keys. -/
theorem outGet_dbprocessMetadata {key : String}
    (hother : ∀ used ∈ metadataKeys, KeysDiffer key used) (db : Option Token)
    (injson : JsonValue δ) (out : Out δ) (dbserverName : Bytes) (w : World) :
    outGet (result (dbprocessMetadata mysql db injson out dbserverName) w) key =
      outGet out key := by
  simp only [metadataKeys, List.forall_mem_cons] at hother
  obtain ⟨hstat, hclientInfo, hhostInfo, hserverVersion, hclientVersion, hinput, hname, hhelp, -⟩ :=
    hother
  simp only [dbprocessMetadata, result_bind]
  rw [outGet_answerFlag hhelp, outGet_answerFlag hname, outGet_answerFlag hinput,
    outGet_answerFlag hclientVersion, outGet_answerFlag hserverVersion,
    outGet_answerFlag hhostInfo, outGet_answerFlag hclientInfo, outGet_answerFlag hstat]

/-- What is under any other key was there before. -/
theorem outGet_finishReply {key : String} (herror : KeysDiffer key "ERROR")
    (hother : ∀ used ∈ metadataKeys, KeysDiffer key used) (db : Option Token)
    (dbserverName : Bytes) (injson : JsonValue δ) (out : Out δ) (w : World) :
    outGet (result (finishReply mysql db dbserverName injson out) w) key = outGet out key := by
  have hmetadata := @outGet_dbprocessMetadata δ mysql key hother db injson out dbserverName w
  simp only [finishReply, result_bind, result_pure]
  split
  · rw [outGet_objectAdd_of_ne herror, hmetadata]
  · exact hmetadata

end DbSlayer.Db
