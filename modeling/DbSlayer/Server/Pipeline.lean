import DbSlayer.Foundation.Slots
import DbSlayer.Server.Accounting
import DbSlayer.Server.Dispatch

/-! # The threads of the server

Two listeners, the workers and the output thread hand connections to each other
through `in_queue` and `out_queue`. A step is one action of one thread on what it
shares with others, with the work on its own variables that belongs to it; the
labels carry what the network, the clock and the queues answer. Nothing is
assumed about the order in which a thread meets its events and slots.
-/

namespace DbSlayer.Server

open Foundation

/-! ## Queues -/

/-- `apr_queue_t`. -/
structure Queue where
  capacity : Nat
  items : List Conn
  terminated : Bool

/-- What a call on a queue returns. An interrupted call is made again by every
caller, so it does not appear. -/
inductive QueueStatus where
  | success
  | eof
  | eagain
  | fault
deriving DecidableEq, Repr

namespace Queue

/-- The answers that are possible. A queue that is being terminated may still serve
a call that had already begun; only a call that does not wait returns `eagain`. -/
def allows (queue : Queue) (waits : Bool) (ready : Bool) : QueueStatus → Bool
  | .success => ready
  | .eof => queue.terminated
  | .eagain => !waits && !ready
  | .fault => true

def hasRoom (queue : Queue) : Bool := queue.items.length < queue.capacity

/-- `apr_queue_push` and, with `waits` false, `apr_queue_trypush`. -/
def push (queue : Queue) (waits : Bool) (c : Conn) (status : QueueStatus) : Option Queue :=
  if queue.allows waits queue.hasRoom status then
    some (if status = .success then { queue with items := queue.items ++ [c] } else queue)
  else none

/-- `apr_queue_pop` and, with `waits` false, `apr_queue_trypop`. -/
def pop (queue : Queue) (waits : Bool) (status : QueueStatus) : Option (Option Conn × Queue) :=
  if queue.allows waits (!queue.items.isEmpty) status then
    match status, queue.items with
    | .success, c :: rest => some (some c, { queue with items := rest })
    | _, _ => some (none, queue)
  else none

end Queue

/-! ## The parties -/

/-- The flags of `slayer_http_request_t`. -/
structure Flags where
  readDone : Bool := false
  handoffPending : Bool := false
  done : Bool := false

/-- The variables of `handle_incoming_connections`. -/
structure Listener where
  running : Bool
  connections : List (Option Conn)
  connectionsCount : Int
  pollset : List Conn

/-- The variables of `handle_outgoing_response`. -/
structure Output where
  running : Bool
  connections : List (Option Conn)
  connectionCount : Int
  pollset : List Conn

/-- Where a worker stands in `handle_running_request`. -/
inductive Worker where
  /-- About to take a connection. -/
  | idle
  /-- About to dispatch. -/
  | holding (c : Conn)
  /-- Has answered a `/shutdown` and is about to close the connection. -/
  | answered (c : Conn)
  /-- The dispatcher returned an error. -/
  | failed
  | outTerminated
  | inTerminated
  | exited
deriving DecidableEq, Repr

/-- What is done with a connection. -/
inductive Action where
  | accepted (c : Conn)
  | received (c : Conn)
  | sent (c : Conn)
  | closed (c : Conn)
  | destroyed (c : Conn)
deriving DecidableEq, Repr

/-- The server: its threads, its queues and what happened so far. -/
structure Pipeline where
  config : Config
  listeners : List Listener
  inQueue : Queue
  workers : List Worker
  outQueue : Queue
  output : Output
  shutdown : Bool
  flags : Conn → Flags
  counters : Counters
  /-- The next connection to be allocated. -/
  next : Conn
  /-- Connections that nobody holds although they were not destroyed. -/
  lost : List Conn
  /-- Everything done so far. -/
  log : List Action

/-- The size of both tables. -/
def tableSize : Nat := 500

/-! ## Listeners -/

namespace Listener

def initial : Listener := ⟨true, List.replicate tableSize none, 0, []⟩

/-- `connections_count` is compared as a `size_t`. -/
def hasRoom (listener : Listener) : Bool :=
  0 ≤ listener.connectionsCount && listener.connectionsCount < (tableSize : Int) - 1

/-- Counts, polls and stores a connection. -/
def enroll (listener : Listener) (c : Conn) : Listener :=
  { listener with
    connectionsCount := listener.connectionsCount + 1
    pollset := c :: listener.pollset
    connections := (Slots.store listener.connections c).getD listener.connections }

def unpoll (listener : Listener) (c : Conn) : Listener :=
  { listener with pollset := listener.pollset.filter (· ≠ c) }

/-- Takes a connection out of the pollset when its handoff begins. -/
def park (listener : Listener) (flags : Flags) (c : Conn) : Listener :=
  if flags.handoffPending then listener else listener.unpoll c

/-- Clears a slot. -/
def release (listener : Listener) (i : Nat) : Listener :=
  { listener with
    connections := Slots.clear listener.connections i
    connectionsCount := listener.connectionsCount - 1 }

end Listener

/-- What `apr_socket_accept` and the calls behind it come to. -/
inductive AcceptOutcome where
  /-- Nothing was accepted. -/
  | failed
  /-- The address of the peer cannot be had. -/
  | noAddress
  /-- `tls` is whether the handshake succeeds, where there is one. -/
  | connected (ip : Bytes) (tls : Bool)
deriving DecidableEq, Repr

/-- What `apr_pollset_poll` reports of a connection that is being read, and what
`request_parse` makes of it. -/
inductive ReadEvent where
  | error
  | hangup
  /-- `request_parse` returns `-1`. -/
  | invalid
  /-- The headers are complete. -/
  | complete
  /-- More has to come. -/
  | partly
  | oddball
deriving DecidableEq, Repr

/-- The flags behind an event. -/
def ReadEvent.mark (flags : Flags) : ReadEvent → Flags
  | .error => { flags with done := true }
  | .hangup => { flags with done := true }
  | .invalid => { flags with done := true }
  | .complete => { flags with readDone := true }
  | .partly => flags
  | .oddball => flags

/-- Whether the event reads from the connection. -/
def ReadEvent.reads : ReadEvent → Bool
  | .invalid => true
  | .complete => true
  | .partly => true
  | _ => false

/-- What `apr_pollset_poll` reports of a connection that is being answered. -/
inductive WriteEvent where
  | hangup
  /-- A send, and whether it is the last one: nothing is left, or it failed. -/
  | writable (last : Bool)
  | oddball
deriving DecidableEq, Repr

namespace Pipeline

def initial (config : Config) (threads : Nat) : Pipeline where
  config
  listeners := [Listener.initial, Listener.initial]
  inQueue := ⟨(threads + 1) * 2, [], false⟩
  workers := List.replicate threads .idle
  outQueue := ⟨threads + 1, [], false⟩
  output := ⟨true, List.replicate tableSize none, 0, []⟩
  shutdown := false
  flags := fun _ => {}
  counters := Counters.initial
  next := 0
  lost := []
  log := []

/-! ## Steps -/

/-- `slayer_http_connection_close` and `apr_pool_destroy`. -/
def destroy (s : Pipeline) (c : Conn) : Pipeline :=
  { s with
    counters := s.counters.slayerHttpConnectionClose c
    log := s.log ++ [.closed c, .destroyed c] }

/-- A connection in a fresh pool, with its request. -/
def allocate (s : Pipeline) : Pipeline :=
  { s with
    flags := Function.update s.flags s.next {}
    next := s.next + 1
    log := s.log ++ [.accepted s.next] }

def setListener (s : Pipeline) (l : Nat) (listener : Listener) : Pipeline :=
  { s with listeners := s.listeners.set l listener }

def setWorker (s : Pipeline) (w : Nat) (worker : Worker) : Pipeline :=
  { s with workers := s.workers.set w worker }

def runningListener (s : Pipeline) (l : Nat) : Option Listener :=
  s.listeners[l]?.filter Listener.running

/-- A readable listening socket. -/
def accept (s : Pipeline) (l : Nat) (listener : Listener) : AcceptOutcome → Pipeline
  | .failed => s
  | .noAddress => s.allocate.destroy s.next
  | .connected ip tls =>
      let (current, counters) := s.counters.accept s.next ip
      let counted := { s.allocate with counters }
      if current > maxConnectionsPerIp then counted.destroy s.next
      else if !tls then counted.destroy s.next
      else counted.setListener l (listener.enroll s.next)

/-- An event on a connection of the pollset. -/
def readEvent (s : Pipeline) (c : Conn) (event : ReadEvent) : Pipeline :=
  { s with
    flags := Function.update s.flags c (event.mark (s.flags c))
    log := s.log ++ if event.reads then [.received c] else [] }

/-- Closes the connection of slot `i` and clears the slot. -/
def reap (s : Pipeline) (l : Nat) (listener : Listener) (i : Nat) (c : Conn) : Pipeline :=
  (s.destroy c).setListener l (listener.release i)

/-- The connection waits for the queue from now on. -/
def park (s : Pipeline) (l : Nat) (listener : Listener) (c : Conn) : Pipeline :=
  { s with flags := Function.update s.flags c { s.flags c with handoffPending := true } }.setListener
    l listener

/-- The handoff of a connection whose headers are complete. `late` is whether its
ten seconds are over. -/
def handoff (s : Pipeline) (l : Nat) (listener : Listener) (i : Nat) (c : Conn) (late : Bool)
    (status : QueueStatus) : Option Pipeline :=
  let listener := listener.park (s.flags c) c
  let s := s.park l listener c
  match s.inQueue.push false c status, status with
  | none, _ => none
  | some _, .eof => some (s.setListener l { listener with running := false })
  | some _, .eagain => some (if late then s.reap l listener i c else s)
  | some _, .fault => some (s.reap l listener i c)
  | some inQueue, .success => some ({ s with inQueue }.setListener l (listener.release i))

/-- The sweep over the table, at slot `i`. -/
def sweep (s : Pipeline) (l : Nat) (listener : Listener) (i : Nat) (late : Bool)
    (status : QueueStatus) : Option Pipeline :=
  match listener.connections[i]? with
  | some (some c) =>
      if (s.flags c).readDone then s.handoff l listener i c late status
      else if (s.flags c).done || late then some (s.reap l (listener.unpoll c) i c)
      else some s
  | _ => some s

/-- A worker takes a connection, or ends. -/
def take (s : Pipeline) (w : Nat) (status : QueueStatus) : Option Pipeline :=
  match s.inQueue.pop true status with
  | none => none
  | some (some c, inQueue) => some ({ s with inQueue }.setWorker w (.holding c))
  | some (none, _) => some (s.setWorker w .exited)

/-- `slayer_http_handle_response`. A message that cannot be queued is dropped with
its connection. -/
def respond (s : Pipeline) (c : Conn) (status : QueueStatus) : Option Pipeline :=
  match s.outQueue.push true c status with
  | none => none
  | some outQueue => some { s with outQueue }

/-- `slayer_http_request_dispatch`. -/
def dispatch (s : Pipeline) (w : Nat) (c : Conn) (request : Request) (status : QueueStatus) :
    Option Pipeline :=
  match route s.config request with
  | .noPath => some ((s.destroy c).setWorker w .idle)
  | .goingDown => (s.respond c status).map fun s => s.setWorker w (.answered c)
  | _ =>
      (s.respond c status).map fun s =>
        { s.setWorker w .idle with lost := if status = .success then s.lost else c :: s.lost }

/-- What a worker does behind a `/shutdown` from the machine itself, one thing at a
time. -/
def goDown (s : Pipeline) (w : Nat) : Worker → Option Pipeline
  | .answered c => some ((s.destroy c).setWorker w .failed)
  | .failed =>
      some ({ s with outQueue := { s.outQueue with terminated := true } }.setWorker w
        .outTerminated)
  | .outTerminated =>
      some ({ s with inQueue := { s.inQueue with terminated := true } }.setWorker w .inTerminated)
  | .inTerminated => some ({ s with shutdown := true }.setWorker w .exited)
  | _ => none

/-- An event on a connection of the output thread. -/
def writeEvent (s : Pipeline) (c : Conn) : WriteEvent → Pipeline
  | .hangup => { s with flags := Function.update s.flags c { s.flags c with done := true } }
  | .writable last =>
      { s with
        flags := Function.update s.flags c { s.flags c with done := (s.flags c).done || last }
        log := s.log ++ [.sent c] }
  | .oddball => s

/-- The sweep of the output thread, at slot `i`. -/
def outSweep (s : Pipeline) (i : Nat) (late : Bool) : Pipeline :=
  match s.output.connections[i]? with
  | some (some c) =>
      if 0 < s.output.connectionCount && ((s.flags c).done || late) then
        { s.destroy c with
          output :=
            { s.output with
              connections := Slots.clear s.output.connections i
              connectionCount := s.output.connectionCount - 1
              pollset := s.output.pollset.filter (· ≠ c) } }
      else s
  | _ => s

/-- The output thread stores a connection in a free slot or closes it. -/
def outStore (s : Pipeline) (c : Conn) : Pipeline :=
  match Slots.store s.output.connections c with
  | none => s.destroy c
  | some connections =>
      { s with
        output :=
          { s.output with
            connections
            connectionCount := s.output.connectionCount + 1
            pollset := c :: s.output.pollset } }

/-- The output thread waits for a connection only when it has none. -/
def fetch (s : Pipeline) (status : QueueStatus) : Option Pipeline :=
  match s.outQueue.pop (!decide (0 < s.output.connectionCount)) status with
  | none => none
  | some (some c, outQueue) => some ({ s with outQueue }.outStore c)
  | some (none, _) =>
      some (if status = .eof then { s with output := { s.output with running := false } } else s)

inductive Step where
  | accept (l : Nat) (outcome : AcceptOutcome)
  | readEvent (l : Nat) (c : Conn) (event : ReadEvent)
  | sweep (l i : Nat) (late : Bool) (status : QueueStatus)
  /-- A listener sees `shutdown`. -/
  | leave (l : Nat)
  | take (w : Nat) (status : QueueStatus)
  | dispatch (w : Nat) (request : Request) (status : QueueStatus)
  | goDown (w : Nat)
  | writeEvent (c : Conn) (event : WriteEvent)
  | outSweep (i : Nat) (late : Bool)
  | fetch (status : QueueStatus)

def step (s : Pipeline) : Step → Option Pipeline
  | .accept l outcome =>
      (s.runningListener l).map fun listener =>
        if listener.hasRoom then s.accept l listener outcome else s
  | .readEvent l c event =>
      (s.runningListener l).bind fun listener =>
        if c ∈ listener.pollset then some (s.readEvent c event) else none
  | .sweep l i late status =>
      (s.runningListener l).bind fun listener => s.sweep l listener i late status
  | .leave l =>
      (s.runningListener l).bind fun listener =>
        if s.shutdown then some (s.setListener l { listener with running := false }) else none
  | .take w status =>
      match s.workers[w]? with
      | some .idle => s.take w status
      | _ => none
  | .dispatch w request status =>
      match s.workers[w]? with
      | some (.holding c) => s.dispatch w c request status
      | _ => none
  | .goDown w => s.workers[w]?.bind fun worker => s.goDown w worker
  | .writeEvent c event =>
      if s.output.running && decide (c ∈ s.output.pollset) then some (s.writeEvent c event)
      else none
  | .outSweep i late => if s.output.running then some (s.outSweep i late) else none
  | .fetch status => if s.output.running then s.fetch status else none

end Pipeline

end DbSlayer.Server
