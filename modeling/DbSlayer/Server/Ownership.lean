import DbSlayer.Foundation.Steps
import DbSlayer.Server.Listener

/-! # Who owns a connection

A connection is in one table, in one queue or in the hands of one worker, and is
destroyed by the one that holds it. The exception is a `/shutdown` from the
machine itself: the worker queues the answer and goes on to destroy the
connection.
-/

namespace DbSlayer.Server

open Foundation

namespace Pipeline

/-- Each connection has one owner, who alone destroys it. -/
structure SingleOwner (s : Pipeline) : Prop where
  /-- No connection is in two places. -/
  nodup : s.places.Nodup
  /-- No destroyed connection is in a place. -/
  alive : ∀ c ∈ s.places, connections.Live s.log c
  /-- Nothing was done with a connection behind its destruction. -/
  guarded : connections.Guarded [] s.log

/-- The step does not queue the answer to a `/shutdown` from the machine itself. -/
def NotGoingDown (s : Pipeline) : Step → Prop
  | .dispatch _ request .success => route s.config request ≠ .goingDown
  | _ => True

/-- The connections in the places are open, and the tables are in order. -/
structure Owned (s : Pipeline) : Prop where
  kept : Kept s.held s.log s.next
  listeners : ∀ (l : Nat) (listener : Listener), s.listeners[l]? = some listener →
    listener.Sound s.flags
  output : ∀ c ∈ s.output.pollset, c ∈ Slots.held s.output.connections

theorem Owned.singleOwner {s : Pipeline} (hs : Owned s) : SingleOwner s where
  nodup := List.Nodup.of_append_left hs.kept.holds.nodup
  alive := fun c hc => (hs.kept.holds.live c).mp (List.mem_append_left s.lost hc)
  guarded := hs.kept.guarded

theorem owned_initial (config : Config) (threads : Nat) : Owned (initial config threads) where
  kept := by
    have hheld : (initial config threads).held = [] := by
      simp [held, places, initial, Listener.initial, Listener.holds, Worker.holds]
    rw [hheld]
    exact Kept.initial
  listeners := by
    intro l listener hl
    have hmem := List.mem_of_getElem? hl
    simp only [initial, List.mem_cons, List.not_mem_nil, or_false, or_self] at hmem
    exact hmem ▸ Listener.Sound.initial
  output := by simp [initial]

section Steps

variable {s : Pipeline} {l i w : Nat} {listener : Listener} {c : Conn}

theorem mem_held_of_listener (hl : s.listeners[l]? = some listener) (hc : c ∈ listener.holds) :
    c ∈ s.held := by
  have hmem : c ∈ s.listeners.flatMap Listener.holds :=
    List.mem_flatMap.mpr ⟨listener, List.mem_of_getElem? hl, hc⟩
  simp [held, places, hmem]

theorem getElem_setListener (hl : s.listeners[l]? = some listener) (other : Listener) :
    (s.setListener l other).listeners[l]? = some other := by
  obtain ⟨hlt, -⟩ := List.getElem?_eq_some_iff.mp hl
  simp [setListener, hlt]

/-- A replaced listener has to be in order, the others have to stay so. -/
theorem sound_setListener {flags : Conn → Flags} {other : Listener}
    (hrest : ∀ (j : Nat) (listener : Listener), j ≠ l → s.listeners[j]? = some listener →
      listener.Sound flags) (hnew : other.Sound flags) :
    ∀ (j : Nat) (listener : Listener), (s.setListener l other).listeners[j]? = some listener →
      listener.Sound flags := by
  intro j listener hj
  by_cases heq : j = l
  · subst heq
    simp only [setListener, List.getElem?_set, if_true] at hj
    split at hj
    next => exact Option.some.inj hj ▸ hnew
    next => simp at hj
  · rw [setListener, List.getElem?_set_ne (Ne.symm heq)] at hj
    exact hrest j listener heq hj

/-- The tables of the other listeners stay sound. -/
theorem Owned.sound_of_ne (hs : Owned s) : ∀ (j : Nat) (listener : Listener), j ≠ l →
    s.listeners[j]? = some listener → listener.Sound s.flags :=
  fun j listener _ hj => hs.listeners j listener hj

/-- A listener may be replaced by one with the same slots, if the new one is sound under the
flags. -/
theorem Owned.setListener (hs : Owned s) (hl : s.listeners[l]? = some listener) {other : Listener}
    (hsound : other.Sound s.flags) (htable : other.connections = listener.connections) :
    Owned (s.setListener l other) where
  kept := by
    refine hs.kept.perm (List.perm_iff_count.mpr fun d => ?_)
    have hcount := count_held_setListener hl other d
    rw [Listener.holds, Listener.holds, htable] at hcount
    omega
  listeners := sound_setListener hs.sound_of_ne hsound
  output := hs.output

theorem Owned.disjoint_listeners (hs : Owned s) {j k : Nat} (hne : j ≠ k)
    {first second : Listener} (hj : s.listeners[j]? = some first)
    (hk : s.listeners[k]? = some second) : List.Disjoint first.holds second.holds := by
  have hplaces := hs.singleOwner.nodup
  simp only [places, List.append_assoc] at hplaces
  exact disjoint_of_nodup_flatMap hplaces.of_append_left hne hj hk

/-- A slot is cleared and its connection put into `in_queue`. -/
theorem Owned.moveToQueue (hs : Owned s) (hl : s.listeners[l]? = some listener)
    (hslot : listener.connections[i]? = some (some c)) (hout : c ∉ listener.pollset)
    {inQueue : Queue} (hpush : s.inQueue.push false c .success = some inQueue) :
    Owned ({ s with inQueue }.setListener l (listener.release i)) where
  kept := by
    refine hs.kept.perm (List.perm_iff_count.mpr fun d => ?_)
    have hl' : { s with inQueue }.listeners[l]? = some listener := hl
    have hcount := count_held_setListener hl' (listener.release i) d
    have hrelease := (Listener.Sound.holds_release hslot).count_eq d
    have hqueue := count_held_inQueue s inQueue d
    rw [Queue.items_push hpush, List.count_append] at hqueue
    rw [← List.singleton_append, List.count_append] at hrelease
    omega
  listeners := sound_setListener hs.sound_of_ne ((hs.listeners l listener hl).release hslot hout)
  output := hs.output

/-- A slot is cleared and its connection destroyed. -/
theorem Owned.reap (hs : Owned s) (hl : s.listeners[l]? = some listener)
    (hslot : listener.connections[i]? = some (some c)) (hout : c ∉ listener.pollset) :
    Owned (s.reap l listener i c) where
  kept := by
    refine (hs.kept.perm (List.perm_iff_count.mpr fun d => ?_)).destroy
    have hcount := count_held_setListener hl (listener.release i) d
    have hrelease := (Listener.Sound.holds_release hslot).count_eq d
    have hheld : (s.reap l listener i c).held.count d =
        (s.setListener l (listener.release i)).held.count d := rfl
    rw [List.count_cons] at hrelease ⊢
    omega
  listeners := sound_setListener hs.sound_of_ne ((hs.listeners l listener hl).release hslot hout)
  output := hs.output

/-! ## Accepting -/

theorem Owned.sound_allocate (hs : Owned s) {j : Nat} {other : Listener}
    (hj : s.listeners[j]? = some other) : other.Sound s.allocate.flags := by
  refine (hs.listeners j other hj).congr fun d _ hpending => ?_
  by_cases heq : d = s.next
  · simp [allocate, heq]
  · simpa [allocate, heq] using hpending

/-- A connection that is not admitted is destroyed at once, and nobody had it before. -/
theorem Owned.refuse (hs : Owned s) (counters : Counters) :
    Owned ({ s.allocate with counters }.destroy s.next) where
  kept := hs.kept.accept.destroy
  listeners := fun _ _ hj => hs.sound_allocate hj
  output := hs.output

/-- A connection that is admitted is owned by the table of its listener and by nobody else. -/
theorem Owned.enroll (hs : Owned s) (counters : Counters) (hl : s.listeners[l]? = some listener)
    (hroom : listener.hasRoom = true) :
    Owned ({ s.allocate with counters }.setListener l (listener.enroll s.next)) where
  kept := by
    refine hs.kept.accept.perm (List.perm_iff_count.mpr fun d => ?_)
    have hl' : { s.allocate with counters }.listeners[l]? = some listener := hl
    have hcount := count_held_setListener hl' (listener.enroll s.next) d
    have henroll := ((hs.listeners l listener hl).holds_enroll hroom s.next).count_eq d
    have hheld : { s.allocate with counters }.held.count d = s.held.count d := rfl
    rw [List.count_cons] at henroll ⊢
    omega
  listeners := sound_setListener (fun _ _ _ hj => hs.sound_allocate hj)
    ((hs.listeners l listener hl).enroll hroom s.next)
  output := hs.output

/-- An accepted connection is owned by its listener. -/
theorem Owned.accept (hs : Owned s) (hl : s.listeners[l]? = some listener)
    (hroom : listener.hasRoom = true) (outcome : AcceptOutcome) :
    Owned (s.accept l listener outcome) := by
  cases outcome with
  | failed => exact hs
  | noAddress => exact hs.refuse s.counters
  | connected ip tls =>
      simp only [Pipeline.accept]
      split
      next => exact hs.refuse _
      next =>
        split
        next => exact hs.refuse _
        next => exact hs.enroll _ hl hroom

/-! ## Reading and handing off -/

theorem Owned.readEvent (hs : Owned s) (hl : s.listeners[l]? = some listener)
    (hc : c ∈ listener.pollset) (event : ReadEvent) : Owned (s.readEvent c event) where
  kept := by
    have hmem : (Action.received c).conn ∈ s.held :=
      mem_held_of_listener hl ((hs.listeners l listener hl).polled c hc).1
    simp only [Pipeline.readEvent]
    split
    next => exact hs.kept.use hmem (by simp [Ledger.Neutral, connections])
    next =>
      rw [List.append_nil]
      exact hs.kept
  listeners := by
    intro j other hj
    refine (hs.listeners j other hj).congr fun d _ hpending => ?_
    by_cases heq : d = c
    · subst heq
      cases event with
      | error => simpa [Pipeline.readEvent, ReadEvent.mark] using hpending
      | hangup => simpa [Pipeline.readEvent, ReadEvent.mark] using hpending
      | invalid => simpa [Pipeline.readEvent, ReadEvent.mark] using hpending
      | complete => simpa [Pipeline.readEvent, ReadEvent.mark] using hpending
      | partly => simpa [Pipeline.readEvent, ReadEvent.mark] using hpending
      | oddball => simpa [Pipeline.readEvent, ReadEvent.mark] using hpending
    · simpa [Pipeline.readEvent, heq] using hpending
  output := hs.output

theorem Owned.park (hs : Owned s) (hl : s.listeners[l]? = some listener)
    (hslot : listener.connections[i]? = some (some c)) :
    Owned (s.park l (listener.park (s.flags c) c) c) := by
  have hsound := hs.listeners l listener hl
  have hset := hs.setListener hl (hsound.park c) (listener.connections_park (s.flags c) c)
  refine ⟨hset.kept, sound_setListener (fun j other hne hj => ?_) ?_, hset.output⟩
  -- no listener polls the connection: another does not hold it, this one just stopped
  · have hother := hs.listeners j other hj
    refine hother.congr fun d hd hpending => ?_
    have hne : d ≠ c := by
      rintro rfl
      exact hs.disjoint_listeners hne hj hl (hother.polled d hd).1 (Slots.mem_held hslot)
    simpa [Pipeline.park, Pipeline.setListener, hne] using hpending
  · refine (hsound.park c).congr fun d hd hpending => ?_
    have hne : d ≠ c := fun heq => hsound.not_mem_park c (heq ▸ hd)
    simpa [Pipeline.park, Pipeline.setListener, hne] using hpending

/-- A handoff passes the connection on, keeps it for another try when the queue is full, or
closes it. -/
theorem Owned.handoff {s' : Pipeline} (hs : Owned s) (hl : s.listeners[l]? = some listener)
    (hslot : listener.connections[i]? = some (some c)) {late : Bool} {status : QueueStatus}
    (hstep : s.handoff l listener i c late status = some s') : Owned s' := by
  have hparked := hs.park hl hslot
  have hl' : (s.park l (listener.park (s.flags c) c) c).listeners[l]? =
      some (listener.park (s.flags c) c) := getElem_setListener hl _
  have hslot' : (listener.park (s.flags c) c).connections[i]? = some (some c) := by
    rwa [listener.connections_park]
  have hout := (hs.listeners l listener hl).not_mem_park c
  simp only [Pipeline.handoff] at hstep
  split at hstep
  next => cases hstep
  next =>
    cases hstep
    exact hparked.setListener hl' (hparked.listeners l _ hl').stop rfl
  next =>
    cases hstep
    split
    next => exact hparked.reap hl' hslot' hout
    next => exact hparked
  next =>
    cases hstep
    exact hparked.reap hl' hslot' hout
  next inQueue hpush =>
    cases hstep
    exact hparked.moveToQueue hl' hslot' hout hpush

theorem Owned.sweep {s' : Pipeline} (hs : Owned s) (hl : s.listeners[l]? = some listener)
    {late : Bool} {status : QueueStatus} (hstep : s.sweep l listener i late status = some s') :
    Owned s' := by
  unfold Pipeline.sweep at hstep
  split at hstep
  next c hslot =>
    split at hstep
    next => exact hs.handoff hl hslot hstep
    next =>
      split at hstep
      next =>
        cases hstep
        -- the connection leaves the pollset before its slot is cleared
        have hunpolled := hs.setListener hl ((hs.listeners l listener hl).unpoll c) rfl
        have hreap := hunpolled.reap (getElem_setListener hl _) hslot (listener.not_mem_unpoll c)
        simpa [Pipeline.reap, Pipeline.destroy, Pipeline.setListener] using hreap
      next =>
        cases hstep
        exact hs
  next =>
    cases hstep
    exact hs

/-! ## Workers -/

theorem Owned.take {s' : Pipeline} (hs : Owned s) (hw : s.workers[w]? = some .idle)
    {status : QueueStatus} (hstep : s.take w status = some s') : Owned s' := by
  unfold Pipeline.take at hstep
  split at hstep
  next => cases hstep
  next c inQueue hpop =>
    cases hstep
    refine ⟨hs.kept.perm (List.perm_iff_count.mpr fun d => ?_), hs.listeners, hs.output⟩
    have hw' : { s with inQueue }.workers[w]? = some .idle := hw
    have hcount := count_held_setWorker hw' (.holding c) d
    have hqueue := count_held_inQueue s inQueue d
    rw [Queue.items_pop hpop, ← List.singleton_append, List.count_append] at hqueue
    simp only [Worker.holds, List.count_nil] at hcount
    omega
  next =>
    cases hstep
    refine ⟨hs.kept.perm (List.perm_iff_count.mpr fun d => ?_), hs.listeners, hs.output⟩
    exact (count_held_setWorker hw .exited d).symm

/-- A worker that holds nothing before and behind the step may be replaced, and the owners are
as they were. -/
theorem Owned.setWorker {worker other : Worker} (hs : Owned s) (hw : s.workers[w]? = some worker)
    (hholds : other.holds = worker.holds) : Owned (s.setWorker w other) := by
  refine ⟨hs.kept.perm (List.perm_iff_count.mpr fun d => ?_), hs.listeners, hs.output⟩
  have hcount := count_held_setWorker hw other d
  rw [hholds] at hcount
  omega

/-- A worker destroys the connection it holds. -/
theorem Owned.destroyHeld {worker other : Worker} (hs : Owned s) (hw : s.workers[w]? = some worker)
    (hholds : worker.holds = [c]) (hother : other.holds = []) :
    Owned ((s.destroy c).setWorker w other) := by
  refine ⟨(hs.kept.perm (List.perm_iff_count.mpr fun d => ?_)).destroy, hs.listeners, hs.output⟩
  have hcount := count_held_setWorker hw other d
  have hheld : ((s.destroy c).setWorker w other).held.count d =
      (s.setWorker w other).held.count d := rfl
  rw [hholds, hother, List.count_nil] at hcount
  rw [← List.singleton_append, List.count_append]
  omega

/-- An answered connection is in `out_queue`, or nobody has it any more. -/
theorem Owned.answer {outQueue : Queue} {status : QueueStatus} (hs : Owned s)
    (hw : s.workers[w]? = some (.holding c))
    (hpush : s.outQueue.push true c status = some outQueue) :
    Owned { ({ s with outQueue }.setWorker w .idle) with
      lost := if status = .success then s.lost else c :: s.lost } := by
  refine ⟨hs.kept.perm (List.perm_iff_count.mpr fun d => ?_), hs.listeners, hs.output⟩
  have hw' : { s with outQueue }.workers[w]? = some (.holding c) := hw
  have hworker := count_held_setWorker hw' .idle d
  have hqueue := count_held_outQueue s outQueue d
  have hlost := count_held_lost ({ s with outQueue }.setWorker w .idle)
    (if status = .success then s.lost else c :: s.lost) d
  simp only [Worker.holds, List.count_nil] at hworker
  simp only [Queue.count_push hpush, Pipeline.setWorker] at hqueue hlost hworker ⊢
  split at hlost
  next hsuccess =>
    rw [if_pos hsuccess] at hqueue ⊢
    omega
  next hfail =>
    rw [if_neg hfail] at hqueue ⊢
    rw [List.count_cons] at hlost
    rw [List.count_singleton] at hworker
    omega

theorem Owned.dispatch {s' : Pipeline} {request : Request} {status : QueueStatus} (hs : Owned s)
    (hw : s.workers[w]? = some (.holding c))
    (hguard : s.NotGoingDown (.dispatch w request status))
    (hstep : s.dispatch w c request status = some s') : Owned s' := by
  unfold Pipeline.dispatch respond at hstep
  cases hpush : s.outQueue.push true c status with
  | none =>
      simp only [hpush] at hstep
      split at hstep
      next =>
        cases hstep
        exact hs.destroyHeld hw rfl rfl
      next => cases hstep
      next => cases hstep
  | some outQueue =>
      simp only [hpush] at hstep
      split at hstep
      next =>
        cases hstep
        exact hs.destroyHeld hw rfl rfl
      next hroute =>
        -- an answer that was not queued leaves the connection with the worker alone
        have hfail : status ≠ .success := by
          rintro rfl
          exact hguard hroute
        obtain rfl := Queue.push_of_ne hfail hpush
        cases hstep
        exact hs.setWorker hw rfl
      next =>
        cases hstep
        exact hs.answer hw hpush

theorem Owned.goDown {s' : Pipeline} {worker : Worker} (hs : Owned s)
    (hw : s.workers[w]? = some worker) (hstep : s.goDown w worker = some s') : Owned s' := by
  cases worker with
  | answered c =>
      cases hstep
      exact hs.destroyHeld hw rfl rfl
  | failed =>
      cases hstep
      have hset : Owned (s.setWorker w .outTerminated) := hs.setWorker hw rfl
      exact ⟨hset.kept, hs.listeners, hs.output⟩
  | outTerminated =>
      cases hstep
      have hset : Owned (s.setWorker w .inTerminated) := hs.setWorker hw rfl
      exact ⟨hset.kept, hs.listeners, hs.output⟩
  | inTerminated =>
      cases hstep
      have hset : Owned (s.setWorker w .exited) := hs.setWorker hw rfl
      exact ⟨hset.kept, hs.listeners, hs.output⟩
  | idle => cases hstep
  | holding c => cases hstep
  | exited => cases hstep

/-! ## The output thread -/

theorem Owned.writeEvent (hs : Owned s) (hc : c ∈ s.output.pollset) (event : WriteEvent) :
    Owned (s.writeEvent c event) := by
  have hflags : ∀ done, ∀ (j : Nat) (other : Listener), s.listeners[j]? = some other →
      other.Sound (Function.update s.flags c { s.flags c with done }) := by
    intro done j other hj
    refine (hs.listeners j other hj).congr fun d _ hpending => ?_
    by_cases heq : d = c
    · simpa [heq] using heq ▸ hpending
    · simpa [heq] using hpending
  cases event with
  | hangup => exact ⟨hs.kept, hflags true, hs.output⟩
  | writable last =>
      have hmem : (Action.sent c).conn ∈ s.held := by
        simp [held, places, Action.conn, hs.output c hc]
      exact ⟨hs.kept.use hmem (by simp [Ledger.Neutral, connections]), hflags _, hs.output⟩
  | oddball => exact hs

/-- What the output thread closes had no other owner. -/
theorem Owned.outSweep (hs : Owned s) (i : Nat) (late : Bool) : Owned (s.outSweep i late) := by
  unfold Pipeline.outSweep
  split
  next c hslot =>
    split
    next =>
      have hclear := Slots.clear_perm hslot
      refine ⟨(hs.kept.perm (List.perm_iff_count.mpr fun d => ?_)).destroy, hs.listeners, ?_⟩
      · have hcount := count_held_output (s.destroy c)
          { s.output with
            connections := Slots.clear s.output.connections i
            connectionCount := s.output.connectionCount - 1
            pollset := s.output.pollset.filter (· ≠ c) } d
        have hperm := hclear.count_eq d
        have hheld : (s.destroy c).held.count d = s.held.count d := rfl
        simp only [Pipeline.destroy] at hcount hheld ⊢
        rw [List.count_cons] at hperm ⊢
        omega
      · intro d hd
        obtain ⟨hd, hne⟩ := List.mem_filter.mp hd
        have hmem := List.mem_cons.mp (hclear.mem_iff.mp (hs.output d hd))
        exact hmem.resolve_left (by simpa using hne)
    next => exact hs
  next => exact hs

theorem Owned.fetch {s' : Pipeline} {status : QueueStatus} (hs : Owned s)
    (hstep : s.fetch status = some s') : Owned s' := by
  unfold Pipeline.fetch at hstep
  split at hstep
  next => cases hstep
  next c outQueue hpop =>
    cases hstep
    have hitems := Queue.items_pop hpop
    unfold outStore
    -- a connection that finds no free slot is destroyed
    split
    next =>
      refine ⟨(hs.kept.perm (List.perm_iff_count.mpr fun d => ?_)).destroy, hs.listeners, hs.output⟩
      have hqueue := count_held_outQueue s outQueue d
      have hheld : ({ s with outQueue }.destroy c).held.count d =
        { s with outQueue }.held.count d := rfl
      rw [hitems] at hqueue
      rw [List.count_cons] at hqueue ⊢
      omega
    next connections hstore =>
      have hperm := Slots.store_perm hstore
      refine ⟨hs.kept.perm (List.perm_iff_count.mpr fun d => ?_), hs.listeners, ?_⟩
      · have hqueue := count_held_outQueue s outQueue d
        have hcount := count_held_output { s with outQueue }
          { s.output with
            connections
            connectionCount := s.output.connectionCount + 1
            pollset := c :: s.output.pollset } d
        have hstored := hperm.count_eq d
        rw [hitems, List.count_cons] at hqueue
        rw [List.count_cons] at hstored
        dsimp only at hcount hqueue hstored ⊢
        omega
      · intro d hd
        refine hperm.mem_iff.mpr ?_
        exact List.cons_subset_cons c hs.output hd
  next =>
    cases hstep
    split
    next => exact ⟨hs.kept, hs.listeners, hs.output⟩
    next => exact hs

theorem getElem_of_runningListener (hl : s.runningListener l = some listener) :
    s.listeners[l]? = some listener := (Option.filter_eq_some_iff.mp hl).1

/-- Every step but the answer to a `/shutdown` from the machine itself keeps a single owner for
each connection, one case for each kind of step. -/
theorem Owned.step {s' : Pipeline} {label : Step} (hs : Owned s) (hguard : s.NotGoingDown label)
    (hstep : s.step label = some s') : Owned s' := by
  cases label with
  | accept l outcome =>
      obtain ⟨listener, hl, rfl⟩ := Option.map_eq_some_iff.mp hstep
      split
      next hroom => exact hs.accept (getElem_of_runningListener hl) hroom outcome
      next => exact hs
  | readEvent l c event =>
      obtain ⟨listener, hl, hstep⟩ := Option.bind_eq_some_iff.mp hstep
      split at hstep
      next hc =>
        cases hstep
        exact hs.readEvent (getElem_of_runningListener hl) hc event
      next => cases hstep
  | sweep l i late status =>
      obtain ⟨listener, hl, hstep⟩ := Option.bind_eq_some_iff.mp hstep
      exact hs.sweep (getElem_of_runningListener hl) hstep
  | leave l =>
      obtain ⟨listener, hl, hstep⟩ := Option.bind_eq_some_iff.mp hstep
      have hl := getElem_of_runningListener hl
      split at hstep
      next =>
        cases hstep
        exact hs.setListener hl (hs.listeners l listener hl).stop rfl
      next => cases hstep
  | take w status =>
      simp only [Pipeline.step] at hstep
      split at hstep
      next hw => exact hs.take hw hstep
      next => cases hstep
  | dispatch w request status =>
      simp only [Pipeline.step] at hstep
      split at hstep
      next c hw => exact hs.dispatch hw hguard hstep
      next => cases hstep
  | goDown w =>
      obtain ⟨worker, hw, hstep⟩ := Option.bind_eq_some_iff.mp hstep
      exact hs.goDown hw hstep
  | writeEvent c event =>
      simp only [Pipeline.step, Bool.and_eq_true, decide_eq_true_eq] at hstep
      split at hstep
      next hc =>
        cases hstep
        exact hs.writeEvent hc.2 event
      next => cases hstep
  | outSweep i late =>
      simp only [Pipeline.step] at hstep
      split at hstep
      next =>
        cases hstep
        exact hs.outSweep i late
      next => cases hstep
  | fetch status =>
      simp only [Pipeline.step] at hstep
      split at hstep
      next => exact hs.fetch hstep
      next => cases hstep

/-- Once the answer is queued, the connection is in the queue and with the worker. -/
theorem not_nodup_of_goingDown {s' : Pipeline} {request : Request}
    (hroute : route s.config request = .goingDown)
    (hstep : s.step (.dispatch w request .success) = some s') : ¬ s'.places.Nodup := by
  simp only [Pipeline.step] at hstep
  split at hstep
  next c hw =>
    simp only [Pipeline.dispatch, hroute, respond] at hstep
    split at hstep
    next => cases hstep
    next outQueue hpush =>
      cases hstep
      obtain ⟨hlt, -⟩ := List.getElem?_eq_some_iff.mp hw
      have hworker : c ∈ (s.workers.set w (.answered c)).flatMap Worker.holds :=
        List.mem_flatMap.mpr ⟨.answered c, List.mem_set hlt _, List.mem_singleton.mpr rfl⟩
      have hqueue : c ∈ outQueue.items := by
        rw [Queue.items_push hpush]
        exact List.mem_append_right _ List.mem_cons_self
      intro hnodup
      have honce := List.nodup_iff_count_le_one.mp hnodup c
      simp only [places, Pipeline.setWorker, List.count_append] at honce
      have hworker := List.count_pos_iff.mpr hworker
      have hqueue := List.count_pos_iff.mpr hqueue
      omega
  next => cases hstep

/-- Conversely, going down on a local `/shutdown` leaves a connection with two owners, the
output queue and the worker that destroys it. -/
theorem notGoingDown_of_singleOwner {s' : Pipeline} {label : Step}
    (hstep : s.step label = some s') (hafter : SingleOwner s') : s.NotGoingDown label := by
  cases label with
  | dispatch w request status =>
      cases status with
      | success => exact fun hroute => not_nodup_of_goingDown hroute hstep hafter.nodup
      | eof => trivial
      | eagain => trivial
      | fault => trivial
  | accept l outcome => trivial
  | readEvent l c event => trivial
  | sweep l i late status => trivial
  | leave l => trivial
  | take w status => trivial
  | goDown w => trivial
  | writeEvent c event => trivial
  | outSweep i late => trivial
  | fetch status => trivial

end Steps

/-- A run keeps each connection with one owner exactly when no step of it queues the
answer to a `/shutdown` from the machine itself. -/
theorem singleOwner_iff_notGoingDown (config : Config) (threads : Nat) (run : List Step) :
    Always step SingleOwner (initial config threads) run ↔
      EachStep step NotGoingDown (initial config threads) run :=
  always_iff_eachStep (fun _ hs => hs.singleOwner)
    (fun _ _ _ hs hguard hstep => hs.step hguard hstep)
    (fun _ _ _ _ hstep hafter => notGoingDown_of_singleOwner hstep hafter)
    (owned_initial config threads) run

/-- A `/shutdown` from the machine itself. -/
def shutdownRequest : Request where
  path := some (bytes "/shutdown")
  parse := Http.requestParseInit 1024000
  localIp := bytes "127.0.0.1"
  remoteIp := bytes "127.0.0.1"

/-- The output thread takes the answer before the worker destroys the connection, and
sends it behind that. -/
def shutdownRun : List Step :=
  [.accept 0 (.connected (bytes "127.0.0.1") true), .readEvent 0 0 .complete,
    .sweep 0 0 false .success, .take 0 .success, .dispatch 0 shutdownRequest .success,
    .fetch .success, .goDown 0, .writeEvent 0 (.writable true)]

theorem shutdownRun_sends_on_destroyed :
    ¬ Always step SingleOwner (initial ⟨none, [[bytes "/db", bytes "/dbform"]]⟩ 1) shutdownRun := by
  intro halways
  have hlog : (shutdownRun.foldlM step (initial ⟨none, [[bytes "/db", bytes "/dbform"]]⟩ 1)).map
      Pipeline.log =
        some [.accepted 0, .received 0, .closed 0, .destroyed 0, .sent 0] := by
    decide +kernel
  obtain ⟨last, hrun, hlast⟩ := Option.map_eq_some_iff.mp hlog
  have hguarded := (halways.last hrun).guarded
  rw [hlast] at hguarded
  simp [Ledger.Guarded, Ledger.Live, connections, Action.conn] at hguarded

end Pipeline

end DbSlayer.Server
