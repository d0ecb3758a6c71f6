import Mathlib.Data.Multiset.AddSub
import DbSlayer.Server.Bookkeeping

/-! # The course of the connections

What the threads do to a connection, told without the threads: it is in one of
the places of a `Course` and a `Move` carries it to the next one. Every step of
the server is a move, whatever the network and the queues answer.
-/

namespace DbSlayer.Server

open Foundation

/-! ## Moves -/

/-- What happens to a connection, the handoffs between threads included. -/
inductive Deed where
  | did (action : Action)
  /-- A listener put it into `in_queue`. -/
  | queued (c : Conn)
  /-- A worker has it. -/
  | taken (c : Conn)
  /-- It was put into `out_queue` with its response. -/
  | replied (c : Conn)
  /-- The output thread took it out of `out_queue`. -/
  | fetched (c : Conn)
deriving DecidableEq, Repr

def Deed.conn : Deed → Conn
  | .did action => action.conn
  | .queued c => c
  | .taken c => c
  | .replied c => c
  | .fetched c => c

/-- `slayer_http_connection_close` and `apr_pool_destroy`. -/
def Deed.destroyed (c : Conn) : List Deed := [.did (.closed c), .did (.destroyed c)]

/-- Where the connections are. Only the queues keep an order. -/
structure Course where
  next : Conn
  /-- The slots of the listeners. -/
  tables : Multiset Conn
  inQueue : List Conn
  /-- With a worker that is about to dispatch. -/
  hands : Multiset Conn
  /-- With a worker that has answered a `/shutdown`. -/
  leaving : Multiset Conn
  outQueue : List Conn
  /-- The slots of the output thread. -/
  slots : Multiset Conn
  lost : Multiset Conn

/-- One move, with what happens in it. -/
inductive Move : Course → List Deed → Course → Prop
  | idle (k : Course) : Move k [] k
  | read {k : Course} {c : Conn} (hc : c ∈ k.tables) : Move k [.did (.received c)] k
  | write {k : Course} {c : Conn} (hc : c ∈ k.slots) : Move k [.did (.sent c)] k
  | refuse (k : Course) :
      Move k (.did (.accepted k.next) :: Deed.destroyed k.next) { k with next := k.next + 1 }
  | enter (k : Course) :
      Move k [.did (.accepted k.next)]
        { k with next := k.next + 1, tables := k.next ::ₘ k.tables }
  | reap {k : Course} {c : Conn} {tables : Multiset Conn} (hc : k.tables = c ::ₘ tables) :
      Move k (Deed.destroyed c) { k with tables }
  | queue {k : Course} {c : Conn} {tables : Multiset Conn} (hc : k.tables = c ::ₘ tables) :
      Move k [.queued c] { k with tables, inQueue := k.inQueue ++ [c] }
  | take {k : Course} {c : Conn} {inQueue : List Conn} (hc : k.inQueue = c :: inQueue) :
      Move k [.taken c] { k with inQueue, hands := c ::ₘ k.hands }
  | dismiss {k : Course} {c : Conn} {hands : Multiset Conn} (hc : k.hands = c ::ₘ hands) :
      Move k (Deed.destroyed c) { k with hands }
  | reply {k : Course} {c : Conn} {hands : Multiset Conn} (hc : k.hands = c ::ₘ hands) :
      Move k [.replied c] { k with hands, outQueue := k.outQueue ++ [c] }
  | lose {k : Course} {c : Conn} {hands : Multiset Conn} (hc : k.hands = c ::ₘ hands) :
      Move k [] { k with hands, lost := c ::ₘ k.lost }
  /-- The answer to a `/shutdown` is queued and the worker goes on to close the
  connection. -/
  | replyLeaving {k : Course} {c : Conn} {hands : Multiset Conn} (hc : k.hands = c ::ₘ hands) :
      Move k [.replied c]
        { k with hands, leaving := c ::ₘ k.leaving, outQueue := k.outQueue ++ [c] }
  | leave {k : Course} {c : Conn} {hands : Multiset Conn} (hc : k.hands = c ::ₘ hands) :
      Move k [] { k with hands, leaving := c ::ₘ k.leaving }
  | quit {k : Course} {c : Conn} {leaving : Multiset Conn} (hc : k.leaving = c ::ₘ leaving) :
      Move k (Deed.destroyed c) { k with leaving }
  | fetch {k : Course} {c : Conn} {outQueue : List Conn} (hc : k.outQueue = c :: outQueue) :
      Move k [.fetched c] { k with outQueue, slots := c ::ₘ k.slots }
  /-- The output thread has no free slot. -/
  | overflow {k : Course} {c : Conn} {outQueue : List Conn} (hc : k.outQueue = c :: outQueue) :
      Move k (.fetched c :: Deed.destroyed c) { k with outQueue }
  | finish {k : Course} {c : Conn} {slots : Multiset Conn} (hc : k.slots = c ::ₘ slots) :
      Move k (Deed.destroyed c) { k with slots }

/-! ## What the server does -/

/-- The connection a worker is about to dispatch. -/
def Worker.carries : Worker → List Conn
  | .holding c => [c]
  | _ => []

/-- The connection a worker is about to close. -/
def Worker.leaves : Worker → List Conn
  | .answered c => [c]
  | _ => []

/-- The connection that a worker has got, where it was waiting before. -/
def Worker.got : Worker × Worker → Option Conn
  | (.idle, .holding c) => some c
  | _ => none

theorem Worker.got_self (worker : Worker) : Worker.got (worker, worker) = none := by
  cases worker with
  | idle => rfl
  | holding c => rfl
  | answered c => rfl
  | failed => rfl
  | outTerminated => rfl
  | inTerminated => rfl
  | exited => rfl

namespace Pipeline

def course (s : Pipeline) : Course where
  next := s.next
  tables := s.listeners.flatMap Listener.holds
  inQueue := s.inQueue.items
  hands := s.workers.flatMap Worker.carries
  leaving := s.workers.flatMap Worker.leaves
  outQueue := s.outQueue.items
  slots := Slots.held s.output.connections
  lost := s.lost

/-- What the workers got between two states. -/
def taken (s next : Pipeline) : List Conn := (s.workers.zip next.workers).filterMap Worker.got

/-- What was put into `out_queue` between two states. -/
def replied (s next : Pipeline) : List Conn := next.outQueue.items.drop s.outQueue.items.length

/-- What left `out_queue` between two states. -/
def fetched (s next : Pipeline) : List Conn :=
  s.outQueue.items.take (s.outQueue.items.length - next.outQueue.items.length)

/-- What happened between two states. -/
def deeds (s next : Pipeline) : List Deed :=
  (s.queued next).map .queued ++ (s.taken next).map .taken ++ (s.replied next).map .replied ++
    (s.fetched next).map .fetched ++ (next.log.drop s.log.length).map .did

/-- The step is a move. -/
def Moves (s s' : Pipeline) : Prop := Move s.course (s.deeds s') s'.course

section Steps

variable {s s' : Pipeline} {l i w : Nat} {listener : Listener} {worker : Worker} {c : Conn}

/-- The table of one listener is split off, and setting it changes this part only. -/
theorem exists_tables (hl : s.listeners[l]? = some listener) :
    ∃ rest : Multiset Conn, s.course.tables = listener.holds + rest ∧
      ∀ other, (s.setListener l other).course =
        { s.course with tables := (other.holds : Multiset Conn) + rest } := by
  obtain ⟨rest, hold, hnew⟩ := exists_rest_flatMap_set Listener.holds hl
  refine ⟨rest, Multiset.coe_eq_coe.mpr hold, fun other => ?_⟩
  have htables := Multiset.coe_eq_coe.mpr (hnew other)
  rw [← Multiset.coe_add] at htables
  rw [← htables]
  rfl

theorem exists_hands (hw : s.workers[w]? = some worker) :
    ∃ hands leaving : Multiset Conn,
      s.course.hands = worker.carries + hands ∧ s.course.leaving = worker.leaves + leaving ∧
      ∀ other, (s.setWorker w other).course =
        { s.course with
          hands := (other.carries : Multiset Conn) + hands
          leaving := (other.leaves : Multiset Conn) + leaving } := by
  obtain ⟨hands, holdHands, hnewHands⟩ := exists_rest_flatMap_set Worker.carries hw
  obtain ⟨leaving, holdLeaving, hnewLeaving⟩ := exists_rest_flatMap_set Worker.leaves hw
  refine ⟨hands, leaving, Multiset.coe_eq_coe.mpr holdHands, Multiset.coe_eq_coe.mpr holdLeaving,
    fun other => ?_⟩
  have hhands := Multiset.coe_eq_coe.mpr (hnewHands other)
  have hleaving := Multiset.coe_eq_coe.mpr (hnewLeaving other)
  rw [← Multiset.coe_add] at hhands hleaving
  rw [← hhands, ← hleaving]
  rfl

/-! ### What is seen of a step -/

theorem taken_of_eq (hworkers : s'.workers = s.workers) : s.taken s' = [] := by
  rw [taken, hworkers]
  exact filterMap_zip_self Worker.got_self s.workers

/-- Setting one worker takes over what this worker has got. -/
theorem taken_of_set (hw : s.workers[w]? = some worker) (other : Worker)
    (hworkers : s'.workers = s.workers.set w other) :
    s.taken s' = (Worker.got (worker, other)).toList := by
  rw [taken, hworkers]
  exact filterMap_zip_set Worker.got_self hw other

/-- The deeds of a step that leaves the queues alone are what it logs. -/
theorem deeds_of_log (actions : List Action) (hin : s'.inQueue.items = s.inQueue.items)
    (hworkers : s.taken s' = []) (hout : s'.outQueue.items = s.outQueue.items)
    (hlog : s'.log = s.log ++ actions) : s.deeds s' = actions.map .did := by
  simp [deeds, queued, replied, fetched, hin, hout, hworkers, hlog]

/-- The deeds of a step that takes a connection out of `out_queue` are this and what it logs. -/
theorem deeds_of_pop (actions : List Action) (hitems : s.outQueue.items = c :: s'.outQueue.items)
    (hin : s'.inQueue.items = s.inQueue.items) (hworkers : s'.workers = s.workers)
    (hlog : s'.log = s.log ++ actions) : s.deeds s' = .fetched c :: actions.map .did := by
  simp [deeds, queued, replied, fetched, hin, hitems, taken_of_eq hworkers, hlog]

theorem moves_of_deeds {deeds : List Deed} (hdeeds : s.deeds s' = deeds)
    (hmove : Move s.course deeds s'.course) : s.Moves s' := by
  rw [Moves, hdeeds]
  exact hmove

/-- A step that moves no connection and logs nothing about one has no deeds, and keeps the
places. -/
theorem moves_idle (hcourse : s'.course = s.course) (hworkers : s.taken s' = [])
    (hlog : s'.log = s.log) : s.Moves s' := by
  have hdeeds : s.deeds s' = [] := by
    refine deeds_of_log [] (congrArg Course.inQueue hcourse) hworkers
      (congrArg Course.outQueue hcourse) ?_
    rw [hlog, List.append_nil]
  rw [Moves, hdeeds, hcourse]
  exact .idle _

theorem moves_refl (s : Pipeline) : s.Moves s := moves_idle rfl (taken_of_eq rfl) rfl

/-! ### Listeners -/

/-- Accepting adds a connection to a table, or destroys it at once. -/
theorem moves_accept (hl : s.listeners[l]? = some listener)
    (henroll : (listener.enroll s.next).holds.Perm (s.next :: listener.holds))
    (outcome : AcceptOutcome) : s.Moves (s.accept l listener outcome) := by
  have hrefuse : ∀ counters, s.Moves ({ s.allocate with counters }.destroy s.next) := by
    intro counters
    have hdeeds : s.deeds ({ s.allocate with counters }.destroy s.next) =
        [Action.accepted s.next, .closed s.next, .destroyed s.next].map .did :=
      deeds_of_log _ rfl (taken_of_eq rfl) rfl (List.append_assoc ..)
    rw [Moves, hdeeds]
    exact .refuse s.course
  have hadmit : ∀ counters,
      s.Moves ({ s.allocate with counters }.setListener l (listener.enroll s.next)) := by
    intro counters
    have hl' : { s.allocate with counters }.listeners[l]? = some listener := hl
    obtain ⟨rest, hold, hnew⟩ := exists_tables hl'
    have hdeeds : s.deeds ({ s.allocate with counters }.setListener l (listener.enroll s.next)) =
        [Action.accepted s.next].map .did := deeds_of_log _ rfl (taken_of_eq rfl) rfl rfl
    have htables : ((listener.enroll s.next).holds : Multiset Conn) + rest =
        s.next ::ₘ s.course.tables := by
      have hsame : s.course.tables = listener.holds + rest := hold
      rw [hsame, Multiset.coe_eq_coe.mpr henroll, ← Multiset.cons_coe, Multiset.cons_add]
    rw [Moves, hdeeds, hnew, htables]
    exact .enter s.course
  cases outcome with
  | failed => exact moves_refl s
  | noAddress => exact hrefuse s.counters
  | connected ip tls =>
      simp only [Pipeline.accept]
      split
      next => exact hrefuse _
      next =>
        split
        next => exact hrefuse _
        next => exact hadmit _

theorem moves_readEvent (hc : c ∈ s.course.tables) (event : ReadEvent) :
    s.Moves (s.readEvent c event) := by
  by_cases hreads : event.reads = true
  · have hdeeds : s.deeds (s.readEvent c event) = [Action.received c].map .did := by
      refine deeds_of_log _ rfl (taken_of_eq rfl) rfl ?_
      rw [Pipeline.readEvent, if_pos hreads]
    rw [Moves, hdeeds]
    exact .read hc
  · refine moves_idle rfl (taken_of_eq rfl) ?_
    rw [Pipeline.readEvent, if_neg hreads, List.append_nil]

/-- Replacing a listener by one with the same table keeps the places of all connections. -/
theorem course_setListener (hl : s.listeners[l]? = some listener) {other : Listener}
    (htable : other.connections = listener.connections) :
    (s.setListener l other).course = s.course := by
  obtain ⟨rest, hold, hnew⟩ := exists_tables hl
  have hholds : other.holds = listener.holds := congrArg Slots.held htable
  rw [hnew, hholds, ← hold]

/-- Reaping takes the connection out of its slot and closes it. -/
theorem moves_reap (hl : s.listeners[l]? = some listener)
    (hslot : listener.connections[i]? = some (some c)) {other : Listener}
    (hclear : other.connections = (listener.release i).connections) :
    s.Moves ((s.destroy c).setListener l other) := by
  have hl' : (s.destroy c).listeners[l]? = some listener := hl
  obtain ⟨rest, hold, hnew⟩ := exists_tables hl'
  have hdeeds : s.deeds ((s.destroy c).setListener l other) =
      [Action.closed c, .destroyed c].map .did := deeds_of_log _ rfl (taken_of_eq rfl) rfl rfl
  have hholds : other.holds = (listener.release i).holds := congrArg Slots.held hclear
  have htables : s.course.tables = c ::ₘ (↑other.holds + rest) := by
    rw [hholds, ← Multiset.cons_add, Multiset.cons_coe,
      ← Multiset.coe_eq_coe.mpr (Listener.Sound.holds_release hslot)]
    exact hold
  rw [Moves, hdeeds, hnew]
  exact .reap htables

/-- A slot is cleared and its connection put into `in_queue`. -/
theorem moves_queue (hl : s.listeners[l]? = some listener)
    (hslot : listener.connections[i]? = some (some c)) {inQueue : Queue}
    (hpush : s.inQueue.push false c .success = some inQueue) :
    s.Moves ({ s with inQueue }.setListener l (listener.release i)) := by
  have hl' : { s with inQueue }.listeners[l]? = some listener := hl
  obtain ⟨rest, hold, hnew⟩ := exists_tables hl'
  have hitems := Queue.items_push hpush
  have hdeeds : s.deeds ({ s with inQueue }.setListener l (listener.release i)) = [.queued c] := by
    have htaken : s.taken ({ s with inQueue }.setListener l (listener.release i)) = [] :=
      taken_of_eq rfl
    rw [deeds, htaken]
    simp [queued, replied, fetched, setListener, hitems]
  have htables : s.course.tables = c ::ₘ (↑(listener.release i).holds + rest) := by
    rw [← Multiset.cons_add, Multiset.cons_coe,
      ← Multiset.coe_eq_coe.mpr (Listener.Sound.holds_release hslot)]
    exact hold
  have hcourse : { s with inQueue }.course =
      { s.course with inQueue := s.course.inQueue ++ [c] } := by
    rw [course, hitems]
    rfl
  rw [Moves, hdeeds, hnew, hcourse]
  exact .queue htables

/-- A handoff pushes the connection to the workers, keeps it for another try when the queue is
full, or gives it up. -/
theorem moves_handoff (hl : s.listeners[l]? = some listener)
    (hslot : listener.connections[i]? = some (some c)) {late : Bool} {status : QueueStatus}
    (hstep : s.handoff l listener i c late status = some s') : s.Moves s' := by
  have hparked : (s.park l (listener.park (s.flags c) c) c).course = s.course :=
    course_setListener (s := { s with flags := _ }) hl (listener.connections_park (s.flags c) c)
  have hl' : (s.park l (listener.park (s.flags c) c) c).listeners[l]? =
      some (listener.park (s.flags c) c) := getElem_setListener hl _
  have hslot' : (listener.park (s.flags c) c).connections[i]? = some (some c) := by
    rwa [listener.connections_park]
  -- parking leaves everything alone that a move looks at
  have hmoves : (s.park l (listener.park (s.flags c) c) c).Moves s' → s.Moves s' := by
    intro hmove
    rw [Moves, hparked] at hmove
    exact hmove
  apply hmoves
  simp only [Pipeline.handoff] at hstep
  split at hstep
  next => cases hstep
  next =>
    cases hstep
    exact moves_idle (course_setListener hl' rfl) (taken_of_eq rfl) rfl
  next =>
    cases hstep
    split
    next => exact moves_reap hl' hslot' rfl
    next => exact moves_refl _
  next =>
    cases hstep
    exact moves_reap hl' hslot' rfl
  next inQueue hpush =>
    cases hstep
    exact moves_queue hl' hslot' hpush

/-- One slot of the sweep, over the cases of `slayer_http_server_run`. -/
theorem moves_sweep (hl : s.listeners[l]? = some listener) {late : Bool} {status : QueueStatus}
    (hstep : s.sweep l listener i late status = some s') : s.Moves s' := by
  unfold Pipeline.sweep at hstep
  split at hstep
  next c hslot =>
    split at hstep
    next => exact moves_handoff hl hslot hstep
    next =>
      split at hstep
      next =>
        cases hstep
        exact moves_reap hl hslot rfl
      next =>
        cases hstep
        exact moves_refl s
  next =>
    cases hstep
    exact moves_refl s

/-! ### Workers -/

/-- Setting a worker that had nothing adds what it has now to the hands of the workers. -/
theorem course_setWorker (hw : s.workers[w]? = some worker) (hcarries : worker.carries = [])
    (hleaves : worker.leaves = []) (other : Worker) :
    (s.setWorker w other).course =
      { s.course with
        hands := (other.carries : Multiset Conn) + s.course.hands
        leaving := (other.leaves : Multiset Conn) + s.course.leaving } := by
  obtain ⟨hands, leaving, hhands, hleaving, hnew⟩ := exists_hands hw
  rw [hcarries, Multiset.coe_nil, zero_add] at hhands
  rw [hleaves, Multiset.coe_nil, zero_add] at hleaving
  rw [hnew, hhands, hleaving]

/-- A worker that was about to dispatch has its connection in the hands of the workers, and
setting it changes this share only. -/
theorem exists_hands_of_holding (hw : s.workers[w]? = some (.holding c)) :
    ∃ hands, s.course.hands = c ::ₘ hands ∧ ∀ other, (s.setWorker w other).course =
      { s.course with
        hands := (other.carries : Multiset Conn) + hands
        leaving := (other.leaves : Multiset Conn) + s.course.leaving } := by
  obtain ⟨hands, leaving, hhands, hleaving, hnew⟩ := exists_hands hw
  have hsame : s.course.leaving = leaving := hleaving.trans (zero_add leaving)
  refine ⟨hands, hhands, fun other => ?_⟩
  rw [hnew, hsame]

/-- A worker that was about to close a connection has it among those that are leaving, and
setting it changes this share only. -/
theorem exists_leaving_of_answered (hw : s.workers[w]? = some (.answered c)) :
    ∃ leaving, s.course.leaving = c ::ₘ leaving ∧ ∀ other, (s.setWorker w other).course =
      { s.course with
        hands := (other.carries : Multiset Conn) + s.course.hands
        leaving := (other.leaves : Multiset Conn) + leaving } := by
  obtain ⟨hands, leaving, hhands, hleaving, hnew⟩ := exists_hands hw
  have hsame : s.course.hands = hands := hhands.trans (zero_add hands)
  refine ⟨leaving, hleaving, fun other => ?_⟩
  rw [hnew, hsame]

/-- A step of a worker that has nothing before and behind it moves nothing. -/
theorem moves_setWorker (hw : s.workers[w]? = some worker) (hcarries : worker.carries = [])
    (hleaves : worker.leaves = []) (other : Worker) (hcarries' : other.carries = [])
    (hleaves' : other.leaves = []) (hcourse : s'.course = (s.setWorker w other).course)
    (hworkers : s'.workers = s.workers.set w other) (hlog : s'.log = s.log) : s.Moves s' := by
  refine moves_idle ?_ ?_ hlog
  · rw [hcourse, course_setWorker hw hcarries hleaves, hcarries', hleaves']
    simp
  · rw [taken_of_set hw other hworkers]
    cases other with
    | holding d => simp [Worker.carries] at hcarries'
    | idle => cases worker <;> rfl
    | answered d => cases worker <;> rfl
    | failed => cases worker <;> rfl
    | outTerminated => cases worker <;> rfl
    | inTerminated => cases worker <;> rfl
    | exited => cases worker <;> rfl

/-- A worker takes the connection in front of the queue, or none. -/
theorem moves_take (hw : s.workers[w]? = some .idle) {status : QueueStatus}
    (hstep : s.take w status = some s') : s.Moves s' := by
  unfold Pipeline.take at hstep
  split at hstep
  next => cases hstep
  next c inQueue hpop =>
    cases hstep
    have hitems := Queue.items_pop hpop
    have hdeeds : s.deeds ({ s with inQueue }.setWorker w (.holding c)) = [.taken c] := by
      rw [deeds, taken_of_set hw (.holding c) rfl]
      simp [queued, replied, fetched, setWorker, hitems, Worker.got]
    have hw' : { s with inQueue }.workers[w]? = some .idle := hw
    rw [Moves, hdeeds, course_setWorker hw' rfl rfl]
    exact .take hitems
  next =>
    cases hstep
    exact moves_setWorker hw rfl rfl .exited rfl rfl rfl rfl rfl

/-- A worker that closes the connection it has. -/
theorem moves_dismiss (hw : s.workers[w]? = some (.holding c)) :
    s.Moves ((s.destroy c).setWorker w .idle) := by
  have hw' : (s.destroy c).workers[w]? = some (.holding c) := hw
  obtain ⟨hands, hhands, hnew⟩ := exists_hands_of_holding hw'
  have hdeeds : s.deeds ((s.destroy c).setWorker w .idle) =
      [Action.closed c, .destroyed c].map .did :=
    deeds_of_log _ rfl (taken_of_set hw .idle rfl) rfl rfl
  rw [Moves, hdeeds, hnew]
  simp only [Worker.carries, Worker.leaves, Multiset.coe_nil, zero_add]
  exact .dismiss hhands

/-- Of a response that was queued one deed is seen, the reply to its connection. -/
theorem deeds_of_push (hw : s.workers[w]? = some (.holding c)) {other : Worker}
    {outQueue : Queue} {lost : List Conn}
    (hpush : s.outQueue.push true c .success = some outQueue) :
    s.deeds { ({ s with outQueue }.setWorker w other) with lost } = [.replied c] := by
  have htaken : s.taken { ({ s with outQueue }.setWorker w other) with lost } = [] :=
    taken_of_set hw other rfl
  rw [deeds, htaken]
  simp [queued, replied, fetched, setWorker, Queue.items_push hpush]

/-- A response is queued for the output thread, or its connection is lost with it when the
push fails. -/
theorem moves_respond (hw : s.workers[w]? = some (.holding c)) {status : QueueStatus}
    {outQueue : Queue} (hpush : s.outQueue.push true c status = some outQueue) :
    s.Moves { ({ s with outQueue }.setWorker w .idle) with
      lost := if status = .success then s.lost else c :: s.lost } := by
  obtain ⟨hands, hhands, hnew⟩ := exists_hands_of_holding hw
  have hcourse := hnew .idle
  simp only [Worker.carries, Worker.leaves, Multiset.coe_nil, zero_add] at hcourse
  by_cases hsuccess : status = .success
  · subst hsuccess
    rw [if_pos rfl, Moves, deeds_of_push hw hpush]
    have hqueued : { ({ s with outQueue }.setWorker w .idle) with lost := s.lost }.course =
        { (s.setWorker w .idle).course with outQueue := s.course.outQueue ++ [c] } := by
      have hitems : outQueue.items = s.course.outQueue ++ [c] := Queue.items_push hpush
      rw [← hitems]
      rfl
    rw [hqueued, hcourse]
    exact .reply hhands
  · obtain rfl := Queue.push_of_ne hsuccess hpush
    have hdeeds : s.deeds { (s.setWorker w .idle) with lost := c :: s.lost } = [] :=
      deeds_of_log [] rfl (taken_of_set hw .idle rfl) rfl (List.append_nil _).symm
    have hlost : { (s.setWorker w .idle) with lost := c :: s.lost }.course =
        { (s.setWorker w .idle).course with lost := c ::ₘ s.course.lost } := rfl
    rw [if_neg hsuccess, Moves, hdeeds, hlost, hcourse]
    exact .lose hhands

/-- The answer to a `/shutdown` is queued or not, and the worker goes on. -/
theorem moves_answer (hw : s.workers[w]? = some (.holding c)) {status : QueueStatus}
    {outQueue : Queue} (hpush : s.outQueue.push true c status = some outQueue) :
    s.Moves ({ s with outQueue }.setWorker w (.answered c)) := by
  obtain ⟨hands, hhands, hnew⟩ := exists_hands_of_holding hw
  have hcourse : (s.setWorker w (.answered c)).course =
      { s.course with hands, leaving := c ::ₘ s.course.leaving } := by
    rw [hnew]
    simp [Worker.carries, Worker.leaves]
  by_cases hsuccess : status = .success
  · subst hsuccess
    have hdeeds : s.deeds ({ s with outQueue }.setWorker w (.answered c)) = [.replied c] :=
      deeds_of_push hw hpush
    have hqueued : ({ s with outQueue }.setWorker w (.answered c)).course =
        { (s.setWorker w (.answered c)).course with outQueue := s.course.outQueue ++ [c] } := by
      have hitems : outQueue.items = s.course.outQueue ++ [c] := Queue.items_push hpush
      rw [← hitems]
      rfl
    rw [Moves, hdeeds, hqueued, hcourse]
    exact .replyLeaving hhands
  · obtain rfl := Queue.push_of_ne hsuccess hpush
    have hdeeds : s.deeds (s.setWorker w (.answered c)) = [] :=
      deeds_of_log [] rfl (taken_of_set hw (.answered c) rfl) rfl (List.append_nil _).symm
    change Move s.course (s.deeds (s.setWorker w (.answered c))) _
    rw [hdeeds, hcourse]
    exact .leave hhands

/-- A worker answers the request it has taken and passes it to the output thread, or goes down
with it. -/
theorem moves_dispatch (hw : s.workers[w]? = some (.holding c)) {request : Request}
    {status : QueueStatus} (hstep : s.dispatch w c request status = some s') : s.Moves s' := by
  unfold Pipeline.dispatch respond at hstep
  cases hpush : s.outQueue.push true c status with
  | none =>
      simp only [hpush] at hstep
      split at hstep
      next =>
        cases hstep
        exact moves_dismiss hw
      next => cases hstep
      next => cases hstep
  | some outQueue =>
      simp only [hpush] at hstep
      split at hstep
      next =>
        cases hstep
        exact moves_dismiss hw
      next =>
        cases hstep
        exact moves_answer hw hpush
      next =>
        cases hstep
        exact moves_respond hw hpush

/-- Going down closes what was left to be closed. -/
theorem moves_goDown (hw : s.workers[w]? = some worker)
    (hstep : s.goDown w worker = some s') : s.Moves s' := by
  cases worker with
  | answered c =>
      cases hstep
      have hw' : (s.destroy c).workers[w]? = some (.answered c) := hw
      obtain ⟨leaving, hleaving, hnew⟩ := exists_leaving_of_answered hw'
      have hdeeds : s.deeds ((s.destroy c).setWorker w .failed) =
          [Action.closed c, .destroyed c].map .did :=
        deeds_of_log _ rfl (taken_of_set hw .failed rfl) rfl rfl
      rw [Moves, hdeeds, hnew]
      simp only [Worker.carries, Worker.leaves, Multiset.coe_nil, zero_add]
      exact .quit hleaving
  | failed =>
      cases hstep
      exact moves_setWorker hw rfl rfl .outTerminated rfl rfl rfl rfl rfl
  | outTerminated =>
      cases hstep
      exact moves_setWorker hw rfl rfl .inTerminated rfl rfl rfl rfl rfl
  | inTerminated =>
      cases hstep
      exact moves_setWorker hw rfl rfl .exited rfl rfl rfl rfl rfl
  | idle => cases hstep
  | holding c => cases hstep
  | exited => cases hstep

/-! ### The output thread -/

theorem moves_writeEvent (hc : c ∈ s.course.slots) (event : WriteEvent) :
    s.Moves (s.writeEvent c event) := by
  cases event with
  | hangup => exact moves_idle rfl (taken_of_eq rfl) rfl
  | writable last =>
      have hdeeds : s.deeds (s.writeEvent c (.writable last)) = [Action.sent c].map .did :=
        deeds_of_log _ rfl (taken_of_eq rfl) rfl rfl
      rw [Moves, hdeeds]
      exact .write hc
  | oddball => exact moves_refl s

/-- The output thread closes what has been sent or is late. -/
theorem moves_outSweep (s : Pipeline) (i : Nat) (late : Bool) : s.Moves (s.outSweep i late) := by
  unfold Pipeline.outSweep
  split
  next c hslot =>
    split
    next =>
      have hclear := Multiset.coe_eq_coe.mpr (Slots.clear_perm hslot)
      exact moves_of_deeds
        (deeds_of_log [.closed c, .destroyed c] rfl (taken_of_eq rfl) rfl rfl) (.finish hclear)
    next => exact moves_refl s
  next => exact moves_refl s

/-- The output thread takes the connection in front of its queue into a free slot. -/
theorem moves_fetch {status : QueueStatus} (hstep : s.fetch status = some s') : s.Moves s' := by
  unfold Pipeline.fetch at hstep
  split at hstep
  next => cases hstep
  next c outQueue hpop =>
    cases hstep
    have hitems := Queue.items_pop hpop
    unfold outStore
    split
    next =>
      refine moves_of_deeds (deeds_of_pop [.closed c, .destroyed c] hitems rfl rfl rfl) ?_
      exact .overflow hitems
    next connections hstore =>
      have hstored : (Slots.held connections : Multiset Conn) = c ::ₘ s.course.slots :=
        Multiset.coe_eq_coe.mpr (Slots.store_perm hstore)
      refine moves_of_deeds (deeds_of_pop [] hitems rfl rfl (List.append_nil _).symm) ?_
      have hmove := Move.fetch (k := s.course) hitems
      rw [← hstored] at hmove
      exact hmove
  next =>
    cases hstep
    split
    next => exact moves_idle rfl (taken_of_eq rfl) rfl
    next => exact moves_refl s

/-! ### Every step -/

/-- The tables have to be in order, and the output thread has to poll what it holds. -/
theorem moves_step {label : Step} {outside : List Conn} (htabled : s.Tabled outside)
    (hpolled : ∀ c ∈ s.output.pollset, c ∈ Slots.held s.output.connections)
    (hstep : s.step label = some s') : s.Moves s' := by
  cases label with
  | accept l outcome =>
      obtain ⟨listener, hl, rfl⟩ := Option.map_eq_some_iff.mp hstep
      have hl := getElem_of_runningListener hl
      split
      next hroom =>
        exact moves_accept hl ((htabled.exact l listener hl).holds_enroll hroom s.next) outcome
      next => exact moves_refl s
  | readEvent l c event =>
      obtain ⟨listener, hl, hstep⟩ := Option.bind_eq_some_iff.mp hstep
      have hl := getElem_of_runningListener hl
      split at hstep
      next hc =>
        cases hstep
        refine moves_readEvent (Multiset.mem_coe.mpr ?_) event
        have hheld := ((htabled.exact l listener hl).polled c hc).1
        exact List.mem_flatMap.mpr ⟨listener, List.mem_of_getElem? hl, hheld⟩
      next => cases hstep
  | sweep l i late status =>
      obtain ⟨listener, hl, hstep⟩ := Option.bind_eq_some_iff.mp hstep
      exact moves_sweep (getElem_of_runningListener hl) hstep
  | leave l =>
      obtain ⟨listener, hl, hstep⟩ := Option.bind_eq_some_iff.mp hstep
      split at hstep
      next =>
        cases hstep
        exact moves_idle (course_setListener (getElem_of_runningListener hl) rfl)
          (taken_of_eq rfl) rfl
      next => cases hstep
  | take w status =>
      simp only [Pipeline.step] at hstep
      split at hstep
      next hw => exact moves_take hw hstep
      next => cases hstep
  | dispatch w request status =>
      simp only [Pipeline.step] at hstep
      split at hstep
      next c hw => exact moves_dispatch hw hstep
      next => cases hstep
  | goDown w =>
      obtain ⟨worker, hw, hstep⟩ := Option.bind_eq_some_iff.mp hstep
      exact moves_goDown hw hstep
  | writeEvent c event =>
      simp only [Pipeline.step, Bool.and_eq_true, decide_eq_true_eq] at hstep
      split at hstep
      next hc =>
        cases hstep
        exact moves_writeEvent (Multiset.mem_coe.mpr (hpolled c hc.2)) event
      next => cases hstep
  | outSweep i late =>
      simp only [Pipeline.step] at hstep
      split at hstep
      next =>
        cases hstep
        exact moves_outSweep s i late
      next => cases hstep
  | fetch status =>
      simp only [Pipeline.step] at hstep
      split at hstep
      next => exact moves_fetch hstep
      next => cases hstep

end Steps

end Pipeline

end DbSlayer.Server
