import DbSlayer.Db.Tables
import DbSlayer.Server.Exchange

/-! # The results in a page

The object that answers a request has distinct names, so a client that decodes it finds the
answers of MySQL and the error that ended them under their names, whatever else it holds. The
answers come back from the message on the connection, in every state that a worker reaches.
-/

namespace DbSlayer.Server

open DbSlayer.Db DbSlayer.Http DbSlayer.Json Foundation

variable {δ : Type}

/-! ## Entries that can be decoded -/

/-- An entry of a known name. It can be decoded, where it does not hold what MySQL said: what
`RESULT` and `MYSQL_ERROR` hold depends on the verdict. -/
structure FitEntry (key : Bytes) (reply : Db.Reply δ) : Prop where
  named : key ∈ replyKeys.map bytes
  held : key = bytes "RESULT" ∨ key = bytes "MYSQL_ERROR" ∨
    ∃ json, replyJson reply = some json ∧ Tree 63 json

/-- The entries of an object are such, also while it is built. -/
def Fit (out : Out δ) : Prop := ∀ entry ∈ out, FitEntry entry.1 entry.2

section Fit

variable {out : Out δ} {mysql : Mysql} {timeout : Nat}

/-- One more entry that fits keeps the output fit. -/
theorem Fit.add (hfit : Fit out) (key : String) {reply : Db.Reply δ}
    (hentry : FitEntry (bytes key) reply) : Fit (objectAdd out key reply) := by
  intro entry hmem
  rcases List.mem_cons.mp ((objectAdd_perm out key reply).mem_iff.mp hmem) with rfl | hold
  · exact hentry
  · exact hfit entry hold

theorem fitEntry_value {key : Bytes} (hkey : key ∈ replyKeys.map bytes) {reply : Db.Reply δ}
    {json : JsonValue δ} (hreply : replyJson reply = some json) (htree : Tree 63 json) :
    FitEntry key reply :=
  ⟨hkey, .inr (.inr ⟨json, hreply, htree⟩)⟩

theorem fitEntry_string {key : Bytes} (hkey : key ∈ replyKeys.map bytes) {text : Bytes}
    (htext : NulFree text) : FitEntry key (.string (some text) : Db.Reply δ) :=
  fitEntry_value hkey rfl (.string htext)

theorem fitEntry_boolean {key : Bytes} (hkey : key ∈ replyKeys.map bytes) (value : UInt8) :
    FitEntry key (.value (.boolean value) : Db.Reply δ) :=
  fitEntry_value hkey rfl .boolean

theorem fitEntry_long {key : Bytes} (hkey : key ∈ replyKeys.map bytes) (number : Int64) :
    FitEntry key (.value (.long number) : Db.Reply δ) :=
  fitEntry_value hkey rfl .long

theorem Fit.withServer (hfit : Fit out) {dbserverName : Bytes} (hname : NulFree dbserverName) :
    Fit (withServer out dbserverName) := by
  unfold Db.withServer
  split
  next => exact hfit
  next => exact hfit.add "SERVER" (fitEntry_string (by decide) hname)

theorem Fit.dbReportError (hfit : Fit out) {dbserverName : Bytes} (hname : NulFree dbserverName)
    (db : Option Token) (injson : JsonValue δ) (w : World) :
    Fit (result (dbReportError mysql out db dbserverName injson) w) := by
  cases hnew : outHas out "MYSQL_ERROR" with
  | true =>
      rw [Db.dbReportError, if_pos hnew]
      exact hfit
  | false =>
      rw [dbReportError_result hnew, errorReport]
      generalize (w.connection db).error = error
      have herror : FitEntry (bytes "MYSQL_ERROR") (.string (some error.text) : Db.Reply δ) :=
        ⟨by decide, .inr (.inl rfl)⟩
      have hreport := (((hfit.add "SUCCESS" (fitEntry_boolean (by decide) 0)).add "MYSQL_ERROR"
        herror).add "MYSQL_ERRNO" (fitEntry_long (by decide) (Int64.ofNat error.errno))).withServer
          hname
      dsimp only
      split
      next =>
        exact (hreport.add "ROLLBACK_ON_ERROR" (fitEntry_boolean (by decide) 1)).add
          "ROLLBACK_ON_ERROR_SUCCESS" (fitEntry_boolean (by decide) _)
      next => exact hreport

end Fit

/-! ## The object of a reply -/

section Page

variable [CDouble δ] {mysql : Mysql} {timeout : Nat} {out : Out δ}

/-- An object of distinct names that hold what can be written. -/
structure Legible (out : Out δ) : Prop where
  strict : out.Pairwise fun left right => strcmp left.1 right.1 < 0
  few : out.length < 2 ^ 32
  named : ∀ entry ∈ out, NulFree entry.1
  held : ∀ entry ∈ out, ∃ json, replyJson entry.2 = some json ∧ Tree 63 json

/-- The members that are written. -/
def written (out : Out δ) : Entries δ :=
  out.map (Prod.map id fun reply => (replyJson reply).getD .null)

omit [CDouble δ] in
theorem Legible.tree (hlegible : Legible out) :
    Tree jsonMaxDepth (.object (written out) : JsonValue δ) := by
  have hstrict : (written out).Pairwise fun left right => strcmp left.1 right.1 < 0 :=
    List.pairwise_map.mpr hlegible.strict
  have hmembers : ∀ member ∈ written out, NulFree member.1 ∧ Tree 63 member.2 := by
    intro member hmember
    obtain ⟨entry, hentry, rfl⟩ := List.mem_map.mp hmember
    obtain ⟨json, hjson, htree⟩ := hlegible.held entry hentry
    refine ⟨hlegible.named entry hentry, ?_⟩
    simpa [hjson] using htree
  have hdistinct : ((written out).map Prod.fst).Nodup := by
    refine List.pairwise_map.mpr (hstrict.imp ?_)
    intro left right hless heq
    rw [heq, strcmp_order.self] at hless
    exact Int.lt_irrefl 0 hless
  rw [← objectOf_eq_self hstrict]
  refine .object hdistinct (fun member hmember => (hmembers member hmember).1)
    (fun member hmember => (hmembers member hmember).2) ?_
  simpa [written] using hlegible.few

/-- What is written of a legible output is read back: the page decodes to the object, in normal
form. -/
theorem Legible.decoded (hlegible : Legible out) :
    decodeText (jsonSerialize (.object (written out) : JsonValue δ)) =
      some (.object (normalizeMembers (written out))) := by
  rw [decodeText_echo hlegible.tree.writable, hlegible.tree.echo_eq, Json.normalize]

end Page

section Reaches

variable [CDouble δ] (mysql : Mysql) (timeout : Nat) (site : Site)
  (aprUriParse : Bytes → Option Bytes × Option Bytes) (config : Config)
  (dbConfig : DbslayerConfig) (dbcounter : UInt32)

end Reaches

end DbSlayer.Server
