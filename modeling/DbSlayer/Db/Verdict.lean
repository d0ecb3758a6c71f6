import DbSlayer.Db.Naming

/-! # What MySQL decided about a request

A request comes down to what MySQL answered in the end: nothing was asked, a query
failed, or a batch was answered. The object that `dbexecute` returns and the text of
every query that it sends follow from that.
-/

namespace DbSlayer.Db

open Foundation Json

variable {δ : Type} {mysql : Mysql} {timeout : Nat}

/-! ## Connections that are left alone -/

/-- The computation does not touch what MySQL keeps for the connections. -/
def LeavesConnections {α : Type} (m : Client α) : Prop :=
  ∀ w, (after m w).connection = w.connection

theorem LeavesConnections.bind {α β : Type} {m : Client α} {f : α → Client β}
    (hm : LeavesConnections m) (hf : ∀ a, LeavesConnections (f a)) :
    LeavesConnections (m >>= f) := by
  intro w
  rw [after_bind, hf, hm]

theorem LeavesConnections.ite {α : Type} {p : Prop} [Decidable p] {m n : Client α}
    (hm : LeavesConnections m) (hn : LeavesConnections n) :
    LeavesConnections (if p then m else n) := by
  split
  · exact hm
  · exact hn

/-- What a query leaves on its connection. -/
def QueryOutcome.leaves : QueryOutcome → Connection
  | .ok first rest => ⟨.none, first, rest⟩
  | .error report _ => ⟨report, .failed report, .done⟩

def Call.sql : Call → Option Bytes
  | query _ sql _ => some sql
  | _ => none

/-- The texts that were sent, in their order. -/
def queryTexts (calls : List Call) : List Bytes := calls.filterMap Call.sql

theorem queryTexts_append (first second : List Call) :
    queryTexts (first ++ second) = queryTexts first ++ queryTexts second := List.filterMap_append

theorem queryTexts_eq_nil {calls : List Call} (hqueries : queries calls = 0) :
    queryTexts calls = [] := by
  rw [queryTexts, List.filterMap_eq_nil_iff]
  intro call hcall
  have hquery := List.countP_eq_zero.mp hqueries call hcall
  cases call with
  | query db sql executed => exact absurd rfl hquery
  | _ => rfl

/-! ## The verdict -/

inductive Verdict where
  | unasked
  | failed (error : MysqlError)
  | answered (first : Statement) (rest : Batch)
deriving DecidableEq, Repr

namespace QueryOutcome

def verdict : QueryOutcome → Verdict
  | .ok first rest => .answered first rest
  | .error report _ => .failed report

end QueryOutcome

/-- Whether the query of a request is sent a second time. -/
def Replayed (mysql : Mysql) (handle : DbHandle) (w : World) : Prop :=
  (nextQuery mysql w).lost = true ∧ ReattachSucceeds mysql handle w

instance (handle : DbHandle) (w : World) : Decidable (Replayed mysql handle w) :=
  inferInstanceAs (Decidable (_ ∧ _))

/-- The answer to the query of a request, the second one if there is one. -/
def lastAnswer (mysql : Mysql) (handle : DbHandle) (w : World) : QueryOutcome :=
  if Replayed mysql handle w then mysql.query (queries w.trace + 1) else nextQuery mysql w

/-- The text that a request sends, unless it is refused. -/
def sentSql (handle : DbHandle) (injson : JsonValue δ) : Option Bytes :=
  match selectServer handle injson with
  | .refused _ => none
  | .server _ _ => memberString injson "SQL"

def verdict (mysql : Mysql) (handle : DbHandle) (injson : JsonValue δ) (w : World) : Verdict :=
  match sentSql handle injson with
  | none => .unasked
  | some _ => (lastAnswer mysql handle w).verdict

/-- How often the text of a request is sent. -/
def sendings (mysql : Mysql) (handle : DbHandle) (w : World) : Nat :=
  if Replayed mysql handle w then 2 else 1

namespace Verdict

/-- The error that is reported. -/
def error : Verdict → Option MysqlError
  | unasked => none
  | failed error => some error
  | answered first rest => ending first rest

/-- The objects of the statements that succeeded. -/
def objects [CDouble δ] : Verdict → List (JsonValue δ)
  | unasked | failed _ => []
  | answered first rest => successes first rest

end Verdict

/-! ## What `dbexecute` makes of it -/

variable [CDouble δ]

theorem Quiet.queryTexts {w w' : World} (hquiet : Quiet w w') :
    queryTexts w'.trace = queryTexts w.trace := by
  obtain ⟨calls, htrace, -, hqueries⟩ := hquiet
  rw [htrace, queryTexts_append, queryTexts_eq_nil hqueries, List.append_nil]

/-- The texts that a request sends. -/
def requestTexts (mysql : Mysql) (handle : DbHandle) (injson : JsonValue δ) (w : World) :
    List Bytes :=
  match sentSql handle injson with
  | none => []
  | some sql => List.replicate (sendings mysql handle w) sql

end DbSlayer.Db
