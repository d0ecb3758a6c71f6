import DbSlayer.Server.Ownership

/-! # What a step leaves alone

For each step, the parts of the server that it can change. Whether a listener goes
on is all that is kept of the tables.
-/

namespace DbSlayer.Server

open Foundation

namespace Pipeline

/-- Which listeners are running. -/
def listening (s : Pipeline) : List Bool := s.listeners.map Listener.running

section Steps

variable {s s' : Pipeline} {l i w : Nat} {listener : Listener} {worker : Worker} {c : Conn}

theorem map_running_set {listeners : List Listener} (hl : listeners[l]? = some listener)
    {other : Listener} (hrunning : other.running = listener.running) :
    (listeners.set l other).map Listener.running = listeners.map Listener.running := by
  have hmap : (listeners.map Listener.running)[l]? = some other.running := by
    rw [List.getElem?_map, hl, hrunning]
    rfl
  obtain ⟨hlt, hget⟩ := List.getElem?_eq_some_iff.mp hmap
  rw [List.map_set, ← hget, List.set_getElem_self]

theorem push_frame {queue after : Queue} {waits : Bool} {status : QueueStatus}
    (hpush : queue.push waits c status = some after) :
    after = { queue with items := after.items } := by
  unfold Queue.push at hpush
  split at hpush
  next =>
    cases hpush
    split
    next => rfl
    next => rfl
  next => cases hpush

theorem pop_frame {queue after : Queue} {waits : Bool} {status : QueueStatus}
    (hpop : queue.pop waits status = some (some c, after)) :
    after = { queue with items := after.items } := by
  unfold Queue.pop at hpop
  split at hpop
  next =>
    split at hpop
    next =>
      cases hpop
      rfl
    next => cases hpop
  next => cases hpop

/-- Accepting changes the tables and what is recorded of the connections. The queues, the
workers and the output thread are as before. -/
theorem accept_frame (hl : s.listeners[l]? = some listener) (outcome : AcceptOutcome) :
    ∃ listeners flags counters next log,
      s.accept l listener outcome = { s with listeners, flags, counters, next, log } ∧
        listeners.map Listener.running = s.listening := by
  cases outcome with
  | failed => exact ⟨_, _, _, _, _, rfl, rfl⟩
  | noAddress => exact ⟨_, _, _, _, _, rfl, rfl⟩
  | connected ip tls =>
      simp only [Pipeline.accept]
      split
      next => exact ⟨_, _, _, _, _, rfl, rfl⟩
      next =>
        split
        next => exact ⟨_, _, _, _, _, rfl, rfl⟩
        next => exact ⟨_, _, _, _, _, rfl, map_running_set hl rfl⟩

/-- A handoff leaves the workers and the output thread alone. -/
theorem handoff_frame (hl : s.listeners[l]? = some listener) {late : Bool} {status : QueueStatus}
    (hstep : s.handoff l listener i c late status = some s') :
    ∃ listeners items flags counters log,
      s' = { s with listeners, inQueue := { s.inQueue with items }, flags, counters, log } ∧
        (s.inQueue.terminated = false → listeners.map Listener.running = s.listening) := by
  have hpark : (listener.park (s.flags c) c).running = listener.running := by
    unfold Listener.park
    split
    next => rfl
    next => rfl
  have hset : ∀ other : Listener, other.running = listener.running →
      ((s.park l (listener.park (s.flags c) c) c).listeners.set l other).map Listener.running =
        s.listening := by
    intro other hother
    rw [Pipeline.park, setListener, List.set_set]
    exact map_running_set hl hother
  simp only [Pipeline.handoff] at hstep
  split at hstep
  next => cases hstep
  next inQueue hpush =>
    cases hstep
    refine ⟨_, _, _, _, _, rfl, fun hopen => ?_⟩
    simp [Queue.push, Queue.allows, Pipeline.park, setListener, hopen] at hpush
  next =>
    cases hstep
    split
    next => exact ⟨_, _, _, _, _, rfl, fun _ => hset _ hpark⟩
    next => exact ⟨_, _, _, _, _, rfl, fun _ => map_running_set hl hpark⟩
  next =>
    cases hstep
    exact ⟨_, _, _, _, _, rfl, fun _ => hset _ hpark⟩
  next inQueue hpush =>
    cases hstep
    rw [push_frame hpush]
    exact ⟨_, _, _, _, _, rfl, fun _ => hset _ hpark⟩

/-- A sweep changes the tables, `in_queue` and what is recorded of the connections. The
listener goes on while the queue is not terminated. -/
theorem sweep_frame (hl : s.listeners[l]? = some listener) {late : Bool} {status : QueueStatus}
    (hstep : s.sweep l listener i late status = some s') :
    ∃ listeners items flags counters log,
      s' = { s with listeners, inQueue := { s.inQueue with items }, flags, counters, log } ∧
        (s.inQueue.terminated = false → listeners.map Listener.running = s.listening) := by
  unfold Pipeline.sweep at hstep
  split at hstep
  next c hslot =>
    split at hstep
    next => exact handoff_frame hl hstep
    next =>
      split at hstep
      next =>
        cases hstep
        exact ⟨_, _, _, _, _, rfl, fun _ => map_running_set hl rfl⟩
      next =>
        cases hstep
        exact ⟨_, _, _, _, _, rfl, fun _ => rfl⟩
  next =>
    cases hstep
    exact ⟨_, _, _, _, _, rfl, fun _ => rfl⟩

/-- Taking changes `in_queue` and the worker, which ends when the queue is terminated or
fails. -/
theorem take_frame {status : QueueStatus} (hstep : s.take w status = some s') :
    ∃ items worker,
      s' = { s with
        inQueue := { s.inQueue with items }
        workers := s.workers.set w worker } ∧
      ((∃ c, worker = .holding c) ∨
        worker = .exited ∧ (status = .fault ∨ s.inQueue.terminated = true)) := by
  unfold Pipeline.take at hstep
  split at hstep
  next => cases hstep
  next c inQueue hpop =>
    cases hstep
    rw [pop_frame hpop]
    exact ⟨_, _, rfl, Or.inl ⟨c, rfl⟩⟩
  next hpop =>
    cases hstep
    refine ⟨_, _, rfl, Or.inr ⟨rfl, ?_⟩⟩
    unfold Queue.pop at hpop
    split at hpop
    next hallows =>
      cases status with
      | success =>
          -- a call that succeeds finds an item
          cases hitems : s.inQueue.items with
          | nil => simp [Queue.allows, hitems] at hallows
          | cons c rest => simp [hitems] at hpop
      | eof => exact Or.inr hallows
      | eagain => cases hallows
      | fault => exact Or.inl rfl
    next => cases hpop

/-- Dispatching changes `out_queue`, the worker and what is recorded of the connection.
The worker goes on unless the server goes down. -/
theorem dispatch_frame {request : Request} {status : QueueStatus}
    (hstep : s.dispatch w c request status = some s') :
    ∃ items worker counters lost log,
      s' = { s with
        outQueue := { s.outQueue with items }
        workers := s.workers.set w worker
        counters, lost, log } ∧
      (worker = .idle ∨ route s.config request = .goingDown) := by
  unfold Pipeline.dispatch respond at hstep
  cases hpush : s.outQueue.push true c status with
  | none =>
      simp only [hpush] at hstep
      split at hstep
      next =>
        cases hstep
        exact ⟨_, _, _, _, _, rfl, Or.inl rfl⟩
      next => cases hstep
      next => cases hstep
  | some outQueue =>
      simp only [hpush] at hstep
      rw [push_frame hpush] at hstep
      split at hstep
      next =>
        cases hstep
        exact ⟨_, _, _, _, _, rfl, Or.inl rfl⟩
      next hroute =>
        cases hstep
        exact ⟨_, _, _, _, _, rfl, Or.inr hroute⟩
      next =>
        cases hstep
        exact ⟨_, _, _, _, _, rfl, Or.inl rfl⟩

/-- Going down changes the queues and `shutdown`, not what is in a place. -/
theorem goDown_frame (hstep : s.goDown w worker = some s') :
    ∃ inTerminated outTerminated shutdown other counters log,
      s' = { s with
        inQueue := { s.inQueue with terminated := inTerminated }
        outQueue := { s.outQueue with terminated := outTerminated }
        workers := s.workers.set w other
        shutdown, counters, log } ∧
      worker ≠ .idle ∧ worker ≠ .exited ∧ ∀ c, worker ≠ .holding c := by
  cases worker with
  | answered c =>
      cases hstep
      exact ⟨_, _, _, _, _, _, rfl, by simp⟩
  | failed =>
      cases hstep
      exact ⟨_, _, _, _, _, _, rfl, by simp⟩
  | outTerminated =>
      cases hstep
      exact ⟨_, _, _, _, _, _, rfl, by simp⟩
  | inTerminated =>
      cases hstep
      exact ⟨_, _, _, _, _, _, rfl, by simp⟩
  | idle => cases hstep
  | holding c => cases hstep
  | exited => cases hstep

theorem writeEvent_frame (s : Pipeline) (c : Conn) (event : WriteEvent) :
    ∃ flags log, s.writeEvent c event = { s with flags, log } := by
  cases event with
  | hangup => exact ⟨_, _, rfl⟩
  | writable last => exact ⟨_, _, rfl⟩
  | oddball => exact ⟨_, _, rfl⟩

/-- The sweep of the output thread changes its table and what is recorded of the connections,
and it does not stop the thread. -/
theorem outSweep_frame (s : Pipeline) (i : Nat) (late : Bool) :
    ∃ output counters log, s.outSweep i late = { s with output, counters, log } ∧
      output.running = s.output.running := by
  unfold Pipeline.outSweep
  split
  next =>
    split
    next => exact ⟨_, _, _, rfl, rfl⟩
    next => exact ⟨_, _, _, rfl, rfl⟩
  next => exact ⟨_, _, _, rfl, rfl⟩

/-- The output thread goes on while `out_queue` is not terminated. -/
theorem fetch_frame {status : QueueStatus} (hstep : s.fetch status = some s') :
    ∃ items output counters log,
      s' = { s with outQueue := { s.outQueue with items }, output, counters, log } ∧
        (s.outQueue.terminated = false → output.running = s.output.running) := by
  unfold Pipeline.fetch at hstep
  split at hstep
  next => cases hstep
  next c outQueue hpop =>
    cases hstep
    rw [pop_frame hpop]
    unfold outStore
    split
    next => exact ⟨_, _, _, _, rfl, fun _ => rfl⟩
    next => exact ⟨_, _, _, _, rfl, fun _ => rfl⟩
  next hpop =>
    cases hstep
    split
    next heof =>
      refine ⟨_, _, _, _, rfl, fun hopen => ?_⟩
      subst heof
      simp [Queue.pop, Queue.allows, hopen] at hpop
    next => exact ⟨_, _, _, _, rfl, fun _ => rfl⟩

end Steps

end Pipeline

end DbSlayer.Server
