import DbSlayer.Foundation.Ledger
import DbSlayer.Server.Pipeline

/-! # What is held, and by whom

The log of a server is in order when exactly the connections that somebody holds
are open. `held` collects them from the tables, the queues and the workers, and
counting tells how a step moves them.
-/

namespace DbSlayer.Server

open Foundation

/-! ## What is done with one connection -/

def Action.conn : Action → Conn
  | .accepted c => c
  | .received c => c
  | .sent c => c
  | .closed c => c
  | .destroyed c => c

/-- A connection is open from its acceptance until its pool is destroyed. -/
def connections : Ledger Action Conn where
  opens
    | .accepted c => some c
    | _ => none
  closes
    | .destroyed c => some c
    | _ => none
  needs
    | .accepted _ => none
    | action => some action.conn

/-- The log of a server in which exactly the connections in `held` are open. -/
structure Kept (held : List Conn) (log : List Action) (next : Conn) : Prop where
  holds : connections.Holds log held
  guarded : connections.Guarded [] log
  fresh : ∀ action ∈ log, action.conn < next

namespace Kept

variable {held : List Conn} {log : List Action} {next : Conn}

theorem initial : Kept [] [] 0 := ⟨Ledger.holds_nil, trivial, by simp⟩

theorem perm {other : List Conn} (hkept : Kept held log next) (hperm : held.Perm other) :
    Kept other log next := ⟨hkept.holds.perm hperm, hkept.guarded, hkept.fresh⟩

theorem lt_next (hkept : Kept held log next) {c : Conn} (hc : c ∈ held) : c < next := by
  obtain ⟨⟨action, haction, hopens⟩, -⟩ := (hkept.holds.live c).mp hc
  cases action with
  | accepted d =>
      obtain rfl : d = c := by simpa [connections] using hopens
      exact hkept.fresh _ haction
  | received d => simp [connections] at hopens
  | sent d => simp [connections] at hopens
  | closed d => simp [connections] at hopens
  | destroyed d => simp [connections] at hopens

/-- An action on a held connection finds it open. -/
theorem guarded_append (hkept : Kept held log next) {action : Action} (hconn : action.conn ∈ held) :
    connections.Guarded [] (log ++ [action]) := by
  refine Ledger.guarded_append.mpr ⟨hkept.guarded, ⟨?_, trivial⟩⟩
  intro c hneeds
  have hlive := (hkept.holds.live action.conn).mp hconn
  cases action with
  | accepted d => simp [connections] at hneeds
  | received d => exact Option.some.inj hneeds ▸ hlive
  | sent d => exact Option.some.inj hneeds ▸ hlive
  | closed d => exact Option.some.inj hneeds ▸ hlive
  | destroyed d => exact Option.some.inj hneeds ▸ hlive

/-- An action on an accepted connection keeps the next number fresh. -/
theorem fresh_append (hkept : Kept held log next) {action : Action} (hlt : action.conn < next) :
    ∀ other ∈ log ++ [action], other.conn < next :=
  List.forall_mem_append.mpr ⟨hkept.fresh, by simpa using hlt⟩

/-- Reading, writing and closing change nothing about who holds what. -/
theorem use (hkept : Kept held log next) {action : Action} (hconn : action.conn ∈ held)
    (hneutral : connections.Neutral [action]) : Kept held (log ++ [action]) next where
  holds := hkept.holds.neutral hneutral
  guarded := hkept.guarded_append hconn
  fresh := hkept.fresh_append (hkept.lt_next hconn)

/-- Accepting takes a fresh connection into custody. -/
theorem accept (hkept : Kept held log next) :
    Kept (next :: held) (log ++ [.accepted next]) (next + 1) where
  holds := by
    refine hkept.holds.openFresh rfl rfl fun action haction => ?_
    have hlt := hkept.fresh action haction
    cases action with
    | accepted c => simpa [connections, Action.conn] using Nat.ne_of_lt hlt
    | received c => simp [connections]
    | sent c => simp [connections]
    | closed c => simp [connections]
    | destroyed c => simpa [connections, Action.conn] using Nat.ne_of_lt hlt
  guarded := Ledger.guarded_append.mpr ⟨hkept.guarded, by simp [Ledger.Guarded, connections]⟩
  fresh := by
    refine List.forall_mem_append.mpr ⟨fun action haction => ?_, by simp [Action.conn]⟩
    exact Nat.lt_succ_of_lt (hkept.fresh action haction)

/-- Destroying a connection gives it out of custody, once and for all, since no number is given
to another one. -/
theorem destroy {c : Conn} (hkept : Kept (c :: held) log next) :
    Kept held (log ++ [.closed c, .destroyed c]) next := by
  have hmem : (Action.closed c).conn ∈ c :: held := List.mem_cons_self
  have hclosed : Kept (c :: held) (log ++ [.closed c]) next :=
    hkept.use hmem (by simp [Ledger.Neutral, connections])
  rw [List.append_cons]
  exact ⟨hclosed.holds.closeHeld rfl rfl, hclosed.guarded_append List.mem_cons_self,
    hclosed.fresh_append (hkept.lt_next List.mem_cons_self)⟩

end Kept

/-! ## Who holds what -/

/-- A push that fails leaves the queue as it was. -/
theorem Queue.push_of_ne {queue after : Queue} {waits : Bool} {c : Conn} {status : QueueStatus}
    (hne : status ≠ .success) (hpush : queue.push waits c status = some after) :
    after = queue := by
  simp only [push, if_neg hne] at hpush
  split at hpush
  next => exact (Option.some.inj hpush).symm
  next => cases hpush

/-- A push that succeeds adds the connection once. -/
theorem Queue.count_push {queue after : Queue} {waits : Bool} {c : Conn} {status : QueueStatus}
    (hpush : queue.push waits c status = some after) (d : Conn) :
    after.items.count d =
      queue.items.count d + if status = .success then [c].count d else 0 := by
  unfold push at hpush
  split at hpush
  next =>
    cases hpush
    split
    next => exact List.count_append
    next => rfl
  next => cases hpush

theorem Queue.items_pop {queue after : Queue} {waits : Bool} {status : QueueStatus} {c : Conn}
    (hpop : queue.pop waits status = some (some c, after)) : queue.items = c :: after.items := by
  unfold pop at hpop
  split at hpop
  next =>
    split at hpop
    next first rest hitems _ =>
      obtain ⟨rfl, rfl⟩ : first = c ∧ { queue with items := rest } = after := by simpa using hpop
      exact hitems
    next => simp at hpop
  next => cases hpop

theorem Queue.items_push {queue after : Queue} {waits : Bool} {c : Conn}
    (hpush : queue.push waits c .success = some after) : after.items = queue.items ++ [c] := by
  simp only [push, if_true] at hpush
  split at hpush
  next => exact Option.some.inj hpush ▸ rfl
  next => cases hpush


def Listener.holds (listener : Listener) : List Conn := Slots.held listener.connections

def Worker.holds : Worker → List Conn
  | .holding c => [c]
  | .answered c => [c]
  | _ => []

namespace Pipeline

/-- Every place where a connection can be, with what is there. -/
def places (s : Pipeline) : List Conn :=
  s.listeners.flatMap Listener.holds ++ s.inQueue.items ++ s.workers.flatMap Worker.holds ++
    s.outQueue.items ++ Slots.held s.output.connections

/-- The places, and the connections that fell out of them. -/
def held (s : Pipeline) : List Conn := s.places ++ s.lost

theorem count_held (s : Pipeline) (c : Conn) :
    s.held.count c = (s.listeners.flatMap Listener.holds).count c + s.inQueue.items.count c +
      (s.workers.flatMap Worker.holds).count c + s.outQueue.items.count c +
      (Slots.held s.output.connections).count c + s.lost.count c := by
  simp only [held, places, List.count_append]

/-- Replacing a listener changes what is held by what it held and holds, and by nothing of the
other listeners. -/
theorem count_held_setListener {s : Pipeline} {l : Nat} {listener : Listener}
    (hl : s.listeners[l]? = some listener) (other : Listener) (c : Conn) :
    (s.setListener l other).held.count c + listener.holds.count c =
      s.held.count c + other.holds.count c := by
  obtain ⟨rest, hold, hnew⟩ := exists_rest_flatMap_set Listener.holds hl
  have hbefore := hold.count_eq c
  have hafter := (hnew other).count_eq c
  rw [List.count_append] at hbefore hafter
  simp only [count_held, setListener]
  omega

/-- Setting one worker changes the count of its own share. -/
theorem count_held_setWorker {s : Pipeline} {w : Nat} {worker : Worker}
    (hw : s.workers[w]? = some worker) (other : Worker) (c : Conn) :
    (s.setWorker w other).held.count c + worker.holds.count c =
      s.held.count c + other.holds.count c := by
  obtain ⟨rest, hold, hnew⟩ := exists_rest_flatMap_set Worker.holds hw
  have hbefore := hold.count_eq c
  have hafter := (hnew other).count_eq c
  rw [List.count_append] at hbefore hafter
  simp only [count_held, setWorker]
  omega

theorem count_held_inQueue (s : Pipeline) (inQueue : Queue) (c : Conn) :
    { s with inQueue }.held.count c + s.inQueue.items.count c =
      s.held.count c + inQueue.items.count c := by
  simp only [count_held]
  omega

theorem count_held_outQueue (s : Pipeline) (outQueue : Queue) (c : Conn) :
    { s with outQueue }.held.count c + s.outQueue.items.count c =
      s.held.count c + outQueue.items.count c := by
  simp only [count_held]
  omega

theorem count_held_output (s : Pipeline) (output : Output) (c : Conn) :
    { s with output }.held.count c + (Slots.held s.output.connections).count c =
      s.held.count c + (Slots.held output.connections).count c := by
  simp only [count_held]
  omega

theorem count_held_lost (s : Pipeline) (lost : List Conn) (c : Conn) :
    { s with lost }.held.count c + s.lost.count c = s.held.count c + lost.count c := by
  simp only [count_held]
  omega

end Pipeline

end DbSlayer.Server
