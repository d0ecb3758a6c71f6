import DbSlayer.Server.Lifecycle

/-! # The server stays up, and nobody waits for ever

Only the answer to a `/shutdown` from the machine itself takes the server down, and
only a failing pop of `in_queue` ends a worker otherwise. While all threads are up, they
cannot block each other through the two bounded queues: from every state there is a way
to empty all places, whatever the requests are.
-/

namespace DbSlayer.Server

open Foundation

/-! ## Going down -/

/-- An authorized `/shutdown` from the machine itself, where no service has that URL. -/
def LocalShutdown (config : Config) (request : Request) : Prop :=
  ∃ path, request.path = some path ∧ strcmp path (bytes "/shutdown") = 0 ∧
    authorized config request = true ∧ findService config path = none ∧
    strcmp request.localIp request.remoteIp = 0

/-- A path that is one page is no other page. -/
theorem strcmp_ne_zero_of_eq_zero {path page : Bytes} (hpage : strcmp path page = 0)
    (other : Bytes) (hne : strcmp page other ≠ 0) : strcmp path other ≠ 0 := fun hother =>
  hne (strcmp_order.eq_zero_trans (strcmp_order.eq_zero_comm hpage) hother)

/-- The fallback goes down for `/shutdown` from the machine itself only. -/
theorem of_fallback_eq_goingDown {request : Request} {path : Bytes}
    (hfallback : fallback request path = .goingDown) :
    strcmp path (bytes "/shutdown") = 0 ∧ strcmp request.localIp request.remoteIp = 0 := by
  unfold fallback at hfallback
  split at hfallback
  next hshutdown =>
    split at hfallback
    next => cases hfallback
    next hlocal => exact ⟨hshutdown, not_not.mp hlocal⟩
  next =>
    -- the other pages
    split at hfallback
    next => cases hfallback
    next =>
      split at hfallback
      next => cases hfallback
      next =>
        split at hfallback
        next => cases hfallback
        next =>
          split at hfallback
          next => cases hfallback
          next => cases hfallback

theorem route_eq_goingDown_iff (config : Config) (request : Request) :
    route config request = .goingDown ↔ LocalShutdown config request := by
  cases hpath : request.path with
  | none => simp [route, LocalShutdown, hpath]
  | some path =>
      constructor
      · intro hroute
        simp only [route, hpath] at hroute
        split at hroute
        next => cases hroute
        next =>
          split at hroute
          next => cases hroute
          next hauthorized =>
            split at hroute
            next => cases hroute
            next =>
              split at hroute
              next => cases hroute
              next hservice =>
                obtain ⟨hshutdown, hlocal⟩ := of_fallback_eq_goingDown hroute
                exact ⟨path, hpath, hshutdown, by simpa using hauthorized, hservice, hlocal⟩
      · rintro ⟨_, hpath', hshutdown, hauthorized, hservice, hlocal⟩
        obtain rfl := Option.some.inj (hpath.symm.trans hpath')
        have hhealth := strcmp_ne_zero_of_eq_zero hshutdown (bytes "/health") (by decide)
        have hmetrics := strcmp_ne_zero_of_eq_zero hshutdown (bytes "/metrics") (by decide)
        simp [route, fallback, hpath, hshutdown, hauthorized, hservice, hlocal, hhealth, hmetrics]

namespace Pipeline

/-- Every thread goes on and no queue is terminated. -/
structure Up (s : Pipeline) : Prop where
  shutdown : s.shutdown = false
  inQueue : s.inQueue.terminated = false
  outQueue : s.outQueue.terminated = false
  listeners : ∀ running ∈ s.listening, running = true
  output : s.output.running = true
  workers : ∀ worker ∈ s.workers, worker = .idle ∨ ∃ c, worker = .holding c

/-- The step does not dispatch a `/shutdown` from the machine itself, and it is no pop of
`in_queue` that fails. -/
def StaysUp (s : Pipeline) : Step → Prop
  | .take _ status => status ≠ .fault
  | .dispatch _ request _ => ¬ LocalShutdown s.config request
  | _ => True

section Steps

variable {s s' : Pipeline} {label : Step}

theorem up_initial (config : Config) (threads : Nat) : Up (initial config threads) where
  shutdown := rfl
  inQueue := rfl
  outQueue := rfl
  listeners := by simp [listening, initial, Listener.initial]
  output := rfl
  workers := by
    intro worker hworker
    exact Or.inl (List.eq_of_mem_replicate hworker)

/-- A worker may be replaced by one that goes on, idle or with a connection in its hands. -/
theorem Up.setWorker {w : Nat} {worker : Worker} (hs : Up s)
    (hworker : worker = .idle ∨ ∃ c, worker = .holding c) :
    ∀ other ∈ s.workers.set w worker, other = .idle ∨ ∃ c, other = .holding c := by
  intro other hother
  rcases List.mem_or_eq_of_mem_set hother with hmem | rfl
  · exact hs.workers other hmem
  · exact hworker

/-- Listeners that have not changed are still running. -/
theorem Up.relisten {listeners : List Listener} (hs : Up s)
    (hrunning : listeners.map Listener.running = s.listening) :
    ∀ running ∈ listeners.map Listener.running, running = true := by
  rw [hrunning]
  exact hs.listeners

/-- A step that `StaysUp` allows keeps the server up: the shutdown flag is not set, and no
thread leaves its loop. -/
theorem Up.step (hs : Up s) (hguard : s.StaysUp label) (hstep : s.step label = some s') :
    Up s' := by
  cases label with
  | accept l outcome =>
      obtain ⟨listener, hl, rfl⟩ := Option.map_eq_some_iff.mp hstep
      split
      next =>
        obtain ⟨_, _, _, _, _, heq, hrunning⟩ :=
          accept_frame (getElem_of_runningListener hl) outcome
        rw [heq]
        exact ⟨hs.shutdown, hs.inQueue, hs.outQueue, hs.relisten hrunning, hs.output, hs.workers⟩
      next => exact hs
  | readEvent l c event =>
      obtain ⟨listener, -, hstep⟩ := Option.bind_eq_some_iff.mp hstep
      split at hstep
      next =>
        cases hstep
        exact ⟨hs.shutdown, hs.inQueue, hs.outQueue, hs.listeners, hs.output, hs.workers⟩
      next => cases hstep
  | sweep l i late status =>
      obtain ⟨listener, hl, hstep⟩ := Option.bind_eq_some_iff.mp hstep
      obtain ⟨_, _, _, _, _, rfl, hrunning⟩ := sweep_frame (getElem_of_runningListener hl) hstep
      exact ⟨hs.shutdown, hs.inQueue, hs.outQueue, hs.relisten (hrunning hs.inQueue), hs.output,
        hs.workers⟩
  | leave l =>
      obtain ⟨listener, -, hstep⟩ := Option.bind_eq_some_iff.mp hstep
      rw [hs.shutdown] at hstep
      cases hstep
  | take w status =>
      simp only [Pipeline.step] at hstep
      split at hstep
      next =>
        obtain ⟨_, worker, rfl, hworker⟩ := take_frame hstep
        refine ⟨hs.shutdown, hs.inQueue, hs.outQueue, hs.listeners, hs.output, hs.setWorker ?_⟩
        rcases hworker with hholding | ⟨-, hfault | hterminated⟩
        · exact Or.inr hholding
        · exact absurd hfault hguard
        · rw [hs.inQueue] at hterminated
          cases hterminated
      next => cases hstep
  | dispatch w request status =>
      simp only [Pipeline.step] at hstep
      split at hstep
      next =>
        obtain ⟨_, worker, _, _, _, rfl, hworker⟩ := dispatch_frame hstep
        have hidle : worker = .idle :=
          hworker.resolve_right fun hroute =>
            hguard ((route_eq_goingDown_iff s.config request).mp hroute)
        exact ⟨hs.shutdown, hs.inQueue, hs.outQueue, hs.listeners, hs.output,
          hs.setWorker (Or.inl hidle)⟩
      next => cases hstep
  | goDown w =>
      obtain ⟨worker, hw, hstep⟩ := Option.bind_eq_some_iff.mp hstep
      obtain ⟨_, _, _, _, _, _, -, hidle, -, hholding⟩ := goDown_frame hstep
      -- no worker is on its way out
      rcases hs.workers worker (List.mem_of_getElem? hw) with rfl | ⟨c, rfl⟩
      · exact absurd rfl hidle
      · exact absurd rfl (hholding c)
  | writeEvent c event =>
      simp only [Pipeline.step] at hstep
      split at hstep
      next =>
        obtain ⟨_, _, heq⟩ := writeEvent_frame s c event
        cases hstep
        rw [heq]
        exact ⟨hs.shutdown, hs.inQueue, hs.outQueue, hs.listeners, hs.output, hs.workers⟩
      next => cases hstep
  | outSweep i late =>
      simp only [Pipeline.step] at hstep
      split at hstep
      next =>
        obtain ⟨_, _, _, heq, hrunning⟩ := outSweep_frame s i late
        cases hstep
        rw [heq]
        exact ⟨hs.shutdown, hs.inQueue, hs.outQueue, hs.listeners, hrunning.trans hs.output,
          hs.workers⟩
      next => cases hstep
  | fetch status =>
      simp only [Pipeline.step] at hstep
      split at hstep
      next =>
        obtain ⟨_, _, _, _, rfl, hrunning⟩ := fetch_frame hstep
        exact ⟨hs.shutdown, hs.inQueue, hs.outQueue, hs.listeners,
          (hrunning hs.outQueue).trans hs.output, hs.workers⟩
      next => cases hstep

end Steps

end Pipeline

/-! ## Emptying the places -/

namespace Course

/-- How far the connections still have to go. -/
def load (k : Course) : Nat :=
  6 * k.tables.card + 5 * k.inQueue.length + 4 * k.hands.card + 2 * k.outQueue.length +
    k.slots.card + k.leaving.card

end Course

section Moves

open Course

/-- Whatever changes the places otherwise than by a new connection brings the
connections further. -/
theorem Move.load_lt {k k' : Course} {deeds : List Deed} (hmove : Move k deeds k')
    (hnext : k'.next = k.next) (hne : k' ≠ k) : k'.load < k.load := by
  cases hmove with
  | idle => exact absurd rfl hne
  | read hc => exact absurd rfl hne
  | write hc => exact absurd rfl hne
  | refuse => exact absurd hnext (Nat.succ_ne_self k.next)
  | enter => exact absurd hnext (Nat.succ_ne_self k.next)
  | reap hc =>
      simp only [load, hc, Multiset.card_cons]
      omega
  | queue hc =>
      simp only [load, hc, Multiset.card_cons, List.length_append, List.length_singleton]
      omega
  | take hc =>
      simp only [load, hc, Multiset.card_cons, List.length_cons]
      omega
  | dismiss hc =>
      simp only [load, hc, Multiset.card_cons]
      omega
  | reply hc =>
      simp only [load, hc, Multiset.card_cons, List.length_append, List.length_singleton]
      omega
  | lose hc =>
      simp only [load, hc, Multiset.card_cons]
      omega
  | replyLeaving hc =>
      simp only [load, hc, Multiset.card_cons, List.length_append, List.length_singleton]
      omega
  | leave hc =>
      simp only [load, hc, Multiset.card_cons]
      omega
  | quit hc =>
      simp only [load, hc, Multiset.card_cons]
      omega
  | fetch hc =>
      simp only [load, hc, Multiset.card_cons, List.length_cons]
      omega
  | overflow hc =>
      simp only [load, hc, List.length_cons]
      omega
  | finish hc =>
      simp only [load, hc, Multiset.card_cons]
      omega

end Moves

namespace Pipeline

/-- A server with all its workers, which nothing takes down. -/
structure Serving (config : Config) (s : Pipeline) : Prop where
  settings : s.config = config
  orderly : Orderly s
  up : Up s
  staffed : s.workers ≠ []
  inRoom : 0 < s.inQueue.capacity
  outRoom : 0 < s.outQueue.capacity

/-- The steps of a server that accepts nothing any more. The queues answer at once where
they can, and the worker that holds `c` finds the request `requests c`. -/
def Drains (requests : Conn → Request) (s : Pipeline) : Step → Prop
  | .sweep _ _ _ status => status = .success
  | .take _ status => status = .success
  | .dispatch w request status =>
      status = .success ∧ ∀ c, s.workers[w]? = some (.holding c) → request = requests c
  | .outSweep _ _ => True
  | .fetch status => status = .success
  | _ => False

section Progress

variable {config : Config} {s s' : Pipeline} {label : Step} {requests : Conn → Request}

theorem serving_initial (config : Config) {threads : Nat} (hthreads : 0 < threads) :
    Serving config (initial config threads) where
  settings := rfl
  orderly := orderly_initial config threads
  up := up_initial config threads
  staffed := by simp [initial, Nat.ne_of_gt hthreads]
  inRoom := Nat.mul_pos (Nat.succ_pos threads) (by decide)
  outRoom := Nat.succ_pos threads

theorem Serving.step (hs : Serving config s) (hguard : s.StaysUp label)
    (hstep : s.step label = some s') : Serving config s' := by
  have horderly := hs.orderly.step hstep
  have hup := hs.up.step hguard hstep
  cases label with
  | accept l outcome =>
      obtain ⟨listener, hl, rfl⟩ := Option.map_eq_some_iff.mp hstep
      obtain ⟨_, _, _, _, _, heq, -⟩ := accept_frame (getElem_of_runningListener hl) outcome
      by_cases hroom : listener.hasRoom = true
      · rw [if_pos hroom, heq] at horderly hup ⊢
        exact ⟨hs.settings, horderly, hup, hs.staffed, hs.inRoom, hs.outRoom⟩
      · rw [if_neg hroom]
        exact hs
  | readEvent l c event =>
      obtain ⟨listener, -, hstep⟩ := Option.bind_eq_some_iff.mp hstep
      split at hstep
      next =>
        cases hstep
        exact ⟨hs.settings, horderly, hup, hs.staffed, hs.inRoom, hs.outRoom⟩
      next => cases hstep
  | sweep l i late status =>
      obtain ⟨listener, hl, hstep⟩ := Option.bind_eq_some_iff.mp hstep
      obtain ⟨_, _, _, _, _, rfl, -⟩ := sweep_frame (getElem_of_runningListener hl) hstep
      exact ⟨hs.settings, horderly, hup, hs.staffed, hs.inRoom, hs.outRoom⟩
  | leave l =>
      obtain ⟨listener, -, hstep⟩ := Option.bind_eq_some_iff.mp hstep
      rw [hs.up.shutdown] at hstep
      cases hstep
  | take w status =>
      simp only [Pipeline.step] at hstep
      split at hstep
      next =>
        obtain ⟨_, worker, rfl, -⟩ := take_frame hstep
        have hstaffed : s.workers.set w worker ≠ [] := by simpa using hs.staffed
        exact ⟨hs.settings, horderly, hup, hstaffed, hs.inRoom, hs.outRoom⟩
      next => cases hstep
  | dispatch w request status =>
      simp only [Pipeline.step] at hstep
      split at hstep
      next =>
        obtain ⟨_, worker, _, _, _, rfl, -⟩ := dispatch_frame hstep
        have hstaffed : s.workers.set w worker ≠ [] := by simpa using hs.staffed
        exact ⟨hs.settings, horderly, hup, hstaffed, hs.inRoom, hs.outRoom⟩
      next => cases hstep
  | goDown w =>
      obtain ⟨worker, hw, hstep⟩ := Option.bind_eq_some_iff.mp hstep
      obtain ⟨_, _, _, _, _, _, -, hidle, -, hholding⟩ := goDown_frame hstep
      rcases hs.up.workers worker (List.mem_of_getElem? hw) with rfl | ⟨c, rfl⟩
      · exact absurd rfl hidle
      · exact absurd rfl (hholding c)
  | writeEvent c event =>
      simp only [Pipeline.step] at hstep
      split at hstep
      next =>
        obtain ⟨_, _, heq⟩ := writeEvent_frame s c event
        cases hstep
        rw [heq] at horderly hup ⊢
        exact ⟨hs.settings, horderly, hup, hs.staffed, hs.inRoom, hs.outRoom⟩
      next => cases hstep
  | outSweep i late =>
      simp only [Pipeline.step] at hstep
      split at hstep
      next =>
        obtain ⟨_, _, _, heq, -⟩ := outSweep_frame s i late
        cases hstep
        rw [heq] at horderly hup ⊢
        exact ⟨hs.settings, horderly, hup, hs.staffed, hs.inRoom, hs.outRoom⟩
      next => cases hstep
  | fetch status =>
      simp only [Pipeline.step] at hstep
      split at hstep
      next =>
        obtain ⟨_, _, _, _, rfl, -⟩ := fetch_frame hstep
        exact ⟨hs.settings, horderly, hup, hs.staffed, hs.inRoom, hs.outRoom⟩
      next => cases hstep

/-- A step that brings a connection further. -/
structure Advances (config : Config) (requests : Conn → Request) (s : Pipeline) (label : Step)
    (s' : Pipeline) : Prop where
  step : s.step label = some s'
  drains : s.Drains requests label
  serving : Serving config s'
  lighter : s'.course.load < s.course.load

theorem Drains.staysUp (hrequests : ∀ c, ¬ LocalShutdown config (requests c))
    (hs : Serving config s) (hdrains : s.Drains requests label) (hstep : s.step label = some s') :
    s.StaysUp label := by
  cases label with
  | dispatch w request status =>
      intro hshutdown
      simp only [Pipeline.step] at hstep
      split at hstep
      next c hw =>
        rw [hdrains.2 c hw, hs.settings] at hshutdown
        exact hrequests c hshutdown
      next => cases hstep
  | take w status =>
      have hsuccess : status = .success := hdrains
      rintro rfl
      cases hsuccess
  | sweep l i late status => trivial
  | outSweep i late => trivial
  | fetch status => trivial
  | accept l outcome => exact hdrains.elim
  | readEvent l c event => exact hdrains.elim
  | leave l => exact hdrains.elim
  | goDown w => exact hdrains.elim
  | writeEvent c event => exact hdrains.elim

/-- A step that accepts nothing and changes the places advances: whoever held a connection has
brought it further or closed it. -/
theorem Serving.advances (hs : Serving config s)
    (hrequests : ∀ c, ¬ LocalShutdown config (requests c)) (label : Step)
    (hdrains : s.Drains requests label) (hstep : s.step label = some s')
    (hnext : s'.next = s.next) (hne : s'.course ≠ s.course) :
    Advances config requests s label s' where
  step := hstep
  drains := hdrains
  serving := hs.step (hdrains.staysUp hrequests hs hstep) hstep
  lighter := (hs.orderly.moves hstep).load_lt hnext hne

/-- The output thread closes what it holds once its time is over. -/
theorem Serving.advance_slots (hs : Serving config s)
    (hrequests : ∀ c, ¬ LocalShutdown config (requests c)) (hslots : s.course.slots ≠ 0) :
    ∃ label s', Advances config requests s label s' := by
  obtain ⟨c, hc⟩ := Multiset.exists_mem_of_ne_zero hslots
  have hheld : c ∈ Slots.held s.output.connections := Multiset.mem_coe.mp hc
  obtain ⟨i, hslot⟩ := List.mem_iff_getElem?.mp (Slots.mem_held_iff.mp hheld)
  have hstep : s.step (.outSweep i true) = some (s.outSweep i true) := by
    simp [Pipeline.step, hs.up.output]
  refine ⟨_, _, hs.advances hrequests (.outSweep i true) trivial hstep ?_ ?_⟩
  · obtain ⟨_, _, _, heq, -⟩ := outSweep_frame s i true
    rw [heq]
  · intro hsame
    have hgone := (hs.orderly.outSweep_finished ⟨hslot, Or.inr rfl⟩).1
    have hkept : c ∈ (s.outSweep i true).course.slots := hsame ▸ hc
    exact hgone (Slots.mem_held_iff.mp (Multiset.mem_coe.mp hkept))

/-- The output thread takes what is in `out_queue`. -/
theorem Serving.advance_outQueue (hs : Serving config s)
    (hrequests : ∀ c, ¬ LocalShutdown config (requests c)) {c : Conn} {rest : List Conn}
    (hqueue : s.outQueue.items = c :: rest) : ∃ label s', Advances config requests s label s' := by
  have hstep : s.step (.fetch .success) =
      some ({ s with outQueue := { s.outQueue with items := rest } }.outStore c) := by
    simp [Pipeline.step, Pipeline.fetch, Queue.pop, Queue.allows, hs.up.output, hqueue]
  have hframe : ∀ s : Pipeline,
      (s.outStore c).next = s.next ∧ (s.outStore c).outQueue = s.outQueue := by
    intro s
    unfold outStore
    split
    next => exact ⟨rfl, rfl⟩
    next => exact ⟨rfl, rfl⟩
  refine ⟨_, _, hs.advances hrequests (.fetch .success) rfl hstep (hframe _).1 ?_⟩
  intro hsame
  have hitems := congrArg Course.outQueue hsame
  simp only [course, (hframe _).2, hqueue] at hitems
  exact List.cons_ne_self c rest hitems.symm

/-- A worker takes what is in `in_queue`. -/
theorem Serving.advance_inQueue (hs : Serving config s)
    (hrequests : ∀ c, ¬ LocalShutdown config (requests c)) {c : Conn} {rest : List Conn}
    (hqueue : s.inQueue.items = c :: rest) {w : Nat} (hw : s.workers[w]? = some .idle) :
    ∃ label s', Advances config requests s label s' := by
  have hstep : s.step (.take w .success) =
      some ({ s with inQueue := { s.inQueue with items := rest } }.setWorker w (.holding c)) := by
    simp [Pipeline.step, Pipeline.take, Queue.pop, Queue.allows, hw, hqueue]
  refine ⟨_, _, hs.advances hrequests (.take w .success) rfl hstep rfl ?_⟩
  intro hsame
  have hitems : rest = c :: rest := (congrArg Course.inQueue hsame).trans hqueue
  exact List.cons_ne_self c rest hitems.symm

/-- A worker dispatches what it holds when `out_queue` has room. -/
theorem Serving.advance_hands (hs : Serving config s)
    (hrequests : ∀ c, ¬ LocalShutdown config (requests c)) (hempty : s.outQueue.items = [])
    {c : Conn} {w : Nat} (hw : s.workers[w]? = some (.holding c)) :
    ∃ label s', Advances config requests s label s' := by
  have hroom : s.outQueue.hasRoom = true := by simpa [Queue.hasRoom, hempty] using hs.outRoom
  have hdown : route s.config (requests c) ≠ .goingDown := by
    rw [hs.settings]
    exact fun hroute => hrequests c ((route_eq_goingDown_iff config _).mp hroute)
  have henabled : ∃ s', s.dispatch w c (requests c) .success = some s' := by
    unfold Pipeline.dispatch
    split
    next => exact ⟨_, rfl⟩
    next hroute => exact absurd hroute hdown
    next => simp [respond, Queue.push, Queue.allows, hroom]
  obtain ⟨s', hdispatch⟩ := henabled
  have hstep : s.step (.dispatch w (requests c) .success) = some s' := by
    simpa only [Pipeline.step, hw] using hdispatch
  have hdrains : s.Drains requests (.dispatch w (requests c) .success) := by
    refine ⟨rfl, fun d hd => ?_⟩
    cases hw.symm.trans hd
    rfl
  obtain ⟨_, worker, _, _, _, rfl, hworker⟩ := dispatch_frame hdispatch
  obtain rfl : worker = .idle := hworker.resolve_right hdown
  refine ⟨_, _, hs.advances hrequests (.dispatch w (requests c) .success) hdrains hstep rfl ?_⟩
  intro hsame
  obtain ⟨hands, hhands, hnew⟩ := exists_hands_of_holding hw
  have hless : hands = c ::ₘ hands := by
    have hset := congrArg Course.hands (hnew .idle)
    simp only [Worker.carries, Multiset.coe_nil, zero_add] at hset
    have hkept := congrArg Course.hands hsame
    rw [← hhands, ← hset]
    exact hkept
  have hcard := congrArg Multiset.card hless
  rw [Multiset.card_cons] at hcard
  omega

/-- A handoff succeeds when `in_queue` has room. -/
theorem exists_handoff (hroom : s.inQueue.hasRoom = true) (l : Nat) (listener : Listener) (i : Nat)
    (c : Conn) (late : Bool) :
    ∃ s', s.handoff l listener i c late .success = some s' ∧
      s'.inQueue.items = s.inQueue.items ++ [c] := by
  have hpush : (s.park l (listener.park (s.flags c) c) c).inQueue.push false c .success =
      some { s.inQueue with items := s.inQueue.items ++ [c] } := by
    have hsame : (s.park l (listener.park (s.flags c) c) c).inQueue = s.inQueue := rfl
    simp [Queue.push, Queue.allows, hsame, hroom]
  refine ⟨{ s.park l (listener.park (s.flags c) c) c with
      inQueue := { s.inQueue with items := s.inQueue.items ++ [c] } }.setListener l
    ((listener.park (s.flags c) c).release i), ?_, rfl⟩
  simp only [Pipeline.handoff, hpush]

/-- A listener hands on or closes what it holds when `in_queue` has room. -/
theorem Serving.advance_tables (hs : Serving config s)
    (hrequests : ∀ c, ¬ LocalShutdown config (requests c)) (hempty : s.inQueue.items = [])
    (htables : s.course.tables ≠ 0) : ∃ label s', Advances config requests s label s' := by
  obtain ⟨c, hc⟩ := Multiset.exists_mem_of_ne_zero htables
  obtain ⟨listener, hlistener, hheld⟩ := List.mem_flatMap.mp (Multiset.mem_coe.mp hc)
  obtain ⟨l, hl⟩ := List.mem_iff_getElem?.mp hlistener
  obtain ⟨i, hslot⟩ := List.mem_iff_getElem?.mp (Slots.mem_held_iff.mp hheld)
  have hrunning : s.runningListener l = some listener := by
    have htrue := hs.up.listeners listener.running (List.mem_map.mpr ⟨listener, hlistener, rfl⟩)
    simp [runningListener, hl, htrue]
  have hroom : s.inQueue.hasRoom = true := by simpa [Queue.hasRoom, hempty] using hs.inRoom
  have henabled : ∃ s', s.sweep l listener i true .success = some s' ∧ s'.course ≠ s.course := by
    unfold Pipeline.sweep
    rw [hslot]
    dsimp only
    by_cases hread : (s.flags c).readDone = true
    · rw [if_pos hread]
      obtain ⟨s', hhandoff, hitems⟩ := exists_handoff hroom l listener i c true
      refine ⟨s', hhandoff, fun hsame => ?_⟩
      have hkept : s'.inQueue.items = s.inQueue.items := congrArg Course.inQueue hsame
      simp [hkept] at hitems
    · rw [if_neg hread, if_pos (by simp)]
      refine ⟨_, rfl, fun hsame => ?_⟩
      obtain ⟨rest, hold, hnew⟩ := exists_tables hl
      have hcleared := congrArg Course.tables (hnew ((listener.unpoll c).release i))
      have hkept : ↑((listener.unpoll c).release i).holds + rest = s.course.tables :=
        hcleared.symm.trans (congrArg Course.tables hsame)
      have hcard := congrArg Multiset.card (hkept.trans hold)
      have hlength := (Listener.Sound.holds_release hslot).length_eq
      have hsame' : ((listener.unpoll c).release i).holds = (listener.release i).holds := rfl
      rw [Multiset.card_add, Multiset.card_add, Multiset.coe_card, Multiset.coe_card, hsame',
        hlength, List.length_cons] at hcard
      omega
  obtain ⟨s', hsweep, hne⟩ := henabled
  have hstep : s.step (.sweep l i true .success) = some s' := by
    simpa only [Pipeline.step, hrunning, Option.bind_some] using hsweep
  obtain ⟨_, _, _, _, _, rfl, -⟩ := sweep_frame hl hsweep
  exact ⟨_, _, hs.advances hrequests (.sweep l i true .success) rfl hstep rfl hne⟩

/-- While somebody holds a connection, some thread can go on. The places are looked at from the
last one to the first, so that the next queue has room. -/
theorem Serving.exists_advance (hs : Serving config s)
    (hrequests : ∀ c, ¬ LocalShutdown config (requests c)) (hheld : s.course.way ≠ 0) :
    ∃ label s', Advances config requests s label s' := by
  by_cases hslots : s.course.slots = 0
  swap
  · exact hs.advance_slots hrequests hslots
  cases hout : s.outQueue.items with
  | cons c rest => exact hs.advance_outQueue hrequests hout
  | nil =>
      by_cases hholding : ∃ (w : Nat) (c : Conn), s.workers[w]? = some (.holding c)
      · obtain ⟨w, c, hw⟩ := hholding
        exact hs.advance_hands hrequests hout hw
      · have hidle : ∀ worker ∈ s.workers, worker = .idle := by
          intro worker hmem
          obtain ⟨w, hw⟩ := List.mem_iff_getElem?.mp hmem
          rcases hs.up.workers worker hmem with hidle | ⟨c, rfl⟩
          · exact hidle
          · exact absurd ⟨w, c, hw⟩ hholding
        cases hin : s.inQueue.items with
        | cons c rest =>
            -- all workers wait for the queue
            obtain ⟨worker, hmem⟩ := List.exists_mem_of_ne_nil s.workers hs.staffed
            obtain ⟨w, hw⟩ := List.mem_iff_getElem?.mp hmem
            rw [hidle worker hmem] at hw
            exact hs.advance_inQueue hrequests hin hw
        | nil =>
            refine hs.advance_tables hrequests hin fun htables => hheld ?_
            have hhands : s.course.hands = 0 := by
              rw [course, Multiset.coe_eq_zero, List.flatMap_eq_nil_iff]
              intro worker hmem
              rw [hidle worker hmem]
              rfl
            have hinQueue : s.course.inQueue = [] := hin
            have houtQueue : s.course.outQueue = [] := hout
            simp [Course.way, htables, hinQueue, hhands, houtQueue, hslots]

/-- Step by step everything gets out. The induction is on the load, of which every such step
takes something. -/
theorem Serving.exists_drain (hrequests : ∀ c, ¬ LocalShutdown config (requests c))
    (hs : Serving config s) :
    ∃ more last, more.foldlM Pipeline.step s = some last ∧
      EachStep Pipeline.step (Drains requests) s more ∧ last.course.way = 0 ∧
      more.length ≤ s.course.load := by
  induction hload : s.course.load using Nat.strong_induction_on generalizing s with
  | _ load ih =>
      by_cases hempty : s.course.way = 0
      · exact ⟨[], s, rfl, trivial, hempty, Nat.zero_le _⟩
      · obtain ⟨label, s', hadvance⟩ := hs.exists_advance hrequests hempty
        obtain ⟨more, last, hrun, heach, hdone, hlength⟩ :=
          ih s'.course.load (hload ▸ hadvance.lighter) hadvance.serving rfl
        refine ⟨label :: more, last, ?_, ?_, hdone, ?_⟩
        · rw [List.foldlM_cons, hadvance.step]
          exact hrun
        · intro next hnext
          cases hadvance.step.symm.trans hnext
          exact ⟨hadvance.drains, heach⟩
        · have hlighter := hadvance.lighter
          rw [List.length_cons]
          omega

end Progress

/-- A server that is up has no worker on its way out. -/
theorem Up.load_le {s : Pipeline} (hs : Up s) : s.course.load ≤ 6 * s.course.way.card := by
  have hleaving : s.course.leaving = 0 := by
    rw [course, Multiset.coe_eq_zero, List.flatMap_eq_nil_iff]
    intro worker hmem
    rcases hs.workers worker hmem with rfl | ⟨c, rfl⟩
    · rfl
    · rfl
  simp only [Course.load, Course.way, Multiset.card_add, Multiset.coe_card, hleaving,
    Multiset.card_zero]
  omega

/-- From every state that a server reaches without a `/shutdown` and without a failing pop of
`in_queue`, a run leads to one in which nobody holds a connection any more. It needs at most
six steps for each of them, accepts nothing and lets each worker answer the request it has,
whatever that is. So the threads never wait for each other. -/
theorem exists_run_that_drains (config : Config) (threads : Nat) (hthreads : 0 < threads)
    (run : List Step) (hguard : EachStep step StaysUp (initial config threads) run)
    (requests : Conn → Request) (hrequests : ∀ c, ¬ LocalShutdown config (requests c)) :
    ∃ (more : List Step) (last : Pipeline),
      more.foldlM step (lastState step (initial config threads) run) = some last ∧
      EachStep step (Drains requests) (lastState step (initial config threads) run) more ∧
      last.course.way = 0 ∧
      more.length ≤ 6 * (lastState step (initial config threads) run).course.way.card := by
  have hkeep : ∀ s label s', Serving config s → StaysUp s label → step s label = some s' →
      Serving config s' := fun _ _ _ hs hguard hstep => hs.step hguard hstep
  have hserving :=
    (always_of_eachStep hkeep (serving_initial config hthreads) hguard).lastState
  obtain ⟨more, last, hrun, heach, hdone, hlength⟩ := Serving.exists_drain hrequests hserving
  exact ⟨more, last, hrun, heach, hdone, hlength.trans hserving.up.load_le⟩

instance LocalShutdown.decidable (config : Config) (request : Request) :
    Decidable (LocalShutdown config request) :=
  decidable_of_iff _ (route_eq_goingDown_iff config request)

instance StaysUp.decidable (s : Pipeline) : ∀ label, Decidable (s.StaysUp label)
  | .take _ status => inferInstanceAs (Decidable (status ≠ .fault))
  | .dispatch _ request _ => inferInstanceAs (Decidable (¬ LocalShutdown s.config request))
  | .accept _ _ => isTrue trivial
  | .readEvent _ _ _ => isTrue trivial
  | .sweep _ _ _ _ => isTrue trivial
  | .leave _ => isTrue trivial
  | .goDown _ => isTrue trivial
  | .writeEvent _ _ => isTrue trivial
  | .outSweep _ _ => isTrue trivial
  | .fetch _ => isTrue trivial

/-- A connection waits for a worker, another for the rest of its headers. -/
def arrivals : List Step :=
  [.accept 0 (.connected (bytes "127.0.0.1") true), .accept 1 (.connected (bytes "127.0.0.1") true),
    .readEvent 0 0 .complete, .sweep 0 0 false .success, .readEvent 1 1 .partly]

theorem exists_run_that_drains_arrivals :
    ∃ (more : List Step) (last : Pipeline),
      more.foldlM step (lastState step (initial ⟨none, []⟩ 1) arrivals) = some last ∧
        last.course.way = 0 ∧ more.length ≤ 12 := by
  have hguard : EachStep step StaysUp (initial ⟨none, []⟩ 1) arrivals := by decide +kernel
  have hcard : (lastState step (initial ⟨none, []⟩ 1) arrivals).course.way.card = 2 := by
    decide +kernel
  have hrequest : ¬ LocalShutdown ⟨none, []⟩ healthRequest := by decide +kernel
  obtain ⟨more, last, hrun, -, hdone, hlength⟩ := exists_run_that_drains ⟨none, []⟩ 1 (by decide)
    arrivals hguard (fun _ => healthRequest) (fun _ => hrequest)
  rw [hcard] at hlength
  exact ⟨more, last, hrun, hdone, hlength⟩

end Pipeline

end DbSlayer.Server
