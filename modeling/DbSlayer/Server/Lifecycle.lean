import DbSlayer.Server.Outgoing

/-! # The life of a connection

As long as no `/shutdown` is answered, everything that happens to a connection
follows the stages of its life: it is read, handed from thread to thread, answered
and closed, each in its time.
-/

namespace DbSlayer.Server

open Foundation

inductive Stage where
  | unborn
  /-- In a slot of a listener. -/
  | reading
  /-- In `in_queue`. -/
  | waiting
  /-- With a worker, or lost by one. -/
  | working
  /-- In `out_queue`. -/
  | answered
  /-- In a slot of the output thread. -/
  | sending
  /-- Its socket is closed. -/
  | closing
  | gone
deriving DecidableEq, Repr

/-- What can happen to a connection in a stage, and the stage it comes to. -/
def Stage.next : Stage → Deed → Option Stage
  | .unborn, .did (.accepted _) => some .reading
  | .reading, .did (.received _) => some .reading
  | .reading, .queued _ => some .waiting
  | .reading, .did (.closed _) => some .closing
  | .waiting, .taken _ => some .working
  | .working, .replied _ => some .answered
  | .working, .did (.closed _) => some .closing
  | .answered, .fetched _ => some .sending
  | .sending, .did (.sent _) => some .sending
  | .sending, .did (.closed _) => some .closing
  | .closing, .did (.destroyed _) => some .gone
  | _, _ => none

namespace Course

/-- The places of a connection, each with its stage. -/
def places (k : Course) : List (Stage × Multiset Conn) :=
  [(.reading, k.tables), (.waiting, k.inQueue), (.working, k.hands + k.leaving + k.lost),
    (.answered, k.outQueue), (.sending, k.slots)]

/-- The stage of a connection, by the place where it is. -/
def stage (k : Course) (c : Conn) : Stage :=
  if k.next ≤ c then .unborn else (whereabouts k.places c).getD .gone

/-- No connection is in two places, what workers leave behind included. -/
def Single (k : Course) : Prop := ∀ c, tally k.places c ≤ if c < k.next then 1 else 0

section Single

variable {k k' : Course} {c : Conn} {place : Stage × Multiset Conn}

theorem tally_places (k : Course) (c : Conn) :
    tally k.places c = k.tables.count c + k.inQueue.count c +
      (k.hands.count c + k.leaving.count c + k.lost.count c) + k.outQueue.count c +
      k.slots.count c := by
  simp [tally, places, Nat.add_assoc]

theorem Single.le_one (hk : k.Single) (c : Conn) : tally k.places c ≤ 1 := by
  have hbound := hk c
  split at hbound
  next => exact hbound
  next => exact Nat.le_succ_of_le hbound

theorem Single.lt_next (hk : k.Single) (hpos : 0 < tally k.places c) : c < k.next := by
  by_contra hge
  have hbound := hk c
  rw [if_neg hge] at hbound
  omega

theorem stage_of_le (hle : k.next ≤ c) : k.stage c = .unborn := if_pos hle

/-- The stage of a connection is the one of its place. -/
theorem Single.stage_eq (hk : k.Single) (hplace : place ∈ k.places) (hc : c ∈ place.2) :
    k.stage c = place.1 := by
  have hlt := hk.lt_next (tally_pos hplace hc)
  rw [stage, if_neg (Nat.not_le.mpr hlt), whereabouts_of_mem (hk.le_one c) hplace hc]
  rfl

theorem Single.reading (hk : k.Single) (hc : c ∈ k.tables) : k.stage c = .reading := by
  have hplace : (.reading, k.tables) ∈ k.places := by simp [places]
  exact hk.stage_eq hplace hc

theorem Single.waiting (hk : k.Single) (hc : c ∈ k.inQueue) : k.stage c = .waiting := by
  have hplace : (.waiting, (k.inQueue : Multiset Conn)) ∈ k.places := by simp [places]
  exact hk.stage_eq hplace hc

theorem Single.working (hk : k.Single) (hc : c ∈ k.hands + k.leaving + k.lost) :
    k.stage c = .working := by
  have hplace : (.working, k.hands + k.leaving + k.lost) ∈ k.places := by simp [places]
  exact hk.stage_eq hplace hc

theorem Single.answered (hk : k.Single) (hc : c ∈ k.outQueue) : k.stage c = .answered := by
  have hplace : (.answered, (k.outQueue : Multiset Conn)) ∈ k.places := by simp [places]
  exact hk.stage_eq hplace hc

theorem Single.sending (hk : k.Single) (hc : c ∈ k.slots) : k.stage c = .sending := by
  have hplace : (.sending, k.slots) ∈ k.places := by simp [places]
  exact hk.stage_eq hplace hc

/-- Whoever leaves the only place it is in is gone, since no place but the next number can have
it again. -/
theorem Single.gone (hk : k.Single) (k' : Course) (hnext : k'.next = k.next)
    (hless : tally k'.places c < tally k.places c) : k'.stage c = .gone := by
  have hone := hk.le_one c
  have hlt : c < k'.next := hnext ▸ hk.lt_next (by omega)
  rw [stage, if_neg (Nat.not_le.mpr hlt), whereabouts_of_tally_eq_zero (by omega)]
  rfl

/-- A connection that comes and goes in one step, as one that is refused, is gone behind it. -/
theorem Single.fresh_gone (hk : k.Single) : { k with next := k.next + 1 }.stage k.next = .gone := by
  have hbound := hk k.next
  rw [if_neg (Nat.lt_irrefl k.next)] at hbound
  have hzero : tally { k with next := k.next + 1 }.places k.next = 0 := Nat.le_zero.mp hbound
  rw [stage, if_neg (Nat.not_le.mpr (Nat.lt_succ_self k.next)), whereabouts_of_tally_eq_zero hzero]
  rfl

/-- Only the new connection is born. -/
theorem succ_le_iff_of_ne (hne : c ≠ k.next) : k.next + 1 ≤ c ↔ k.next ≤ c :=
  ⟨Nat.le_of_succ_le, fun hle => Nat.lt_of_le_of_ne hle (Ne.symm hne)⟩

/-- A connection that stays where it is stays in its stage. -/
theorem stage_congr (hnext : k'.next ≤ c ↔ k.next ≤ c)
    (hplaces : k'.places.map (fun place => (place.1, decide (c ∈ place.2))) =
      k.places.map (fun place => (place.1, decide (c ∈ place.2)))) : k'.stage c = k.stage c := by
  simp only [stage, hnext, whereabouts_congr hplaces]

end Single

end Course

/-- What happens to one connection. -/
def Deed.of (c : Conn) (deeds : List Deed) : List Deed := deeds.filter fun deed => deed.conn = c

/-- The deeds of a connection are selected part by part. -/
theorem Deed.of_append (c : Conn) (first second : List Deed) :
    Deed.of c (first ++ second) = Deed.of c first ++ Deed.of c second := List.filter_append ..

/-- Connections other than `d` are not concerned by deeds that are all of `d`. -/
theorem Deed.of_eq_nil {c d : Conn} (hne : c ≠ d) {deeds : List Deed}
    (hconn : ∀ deed ∈ deeds, deed.conn = d) : Deed.of c deeds = [] := by
  refine List.filter_eq_nil_iff.mpr fun deed hdeed => ?_
  rw [hconn deed hdeed]
  simpa using Ne.symm hne

theorem Deed.of_eq_self {c : Conn} {deeds : List Deed} (hconn : ∀ deed ∈ deeds, deed.conn = c) :
    Deed.of c deeds = deeds :=
  List.filter_eq_self.mpr fun deed hdeed => decide_eq_true (hconn deed hdeed)

namespace Course

variable {k k' : Course} {deeds : List Deed} {d : Conn}

/-- What happens to a connection agrees with the stages before and behind it. -/
def Follows (k : Course) (deeds : List Deed) (k' : Course) : Prop :=
  ∀ c, (Deed.of c deeds).foldlM Stage.next (k.stage c) = some (k'.stage c)

/-- For a move of the connection `d` it is enough to follow `d`: the others have no deeds and
keep their stage. -/
theorem follows_of_moved (hconn : ∀ deed ∈ deeds, deed.conn = d)
    (hother : ∀ c, c ≠ d → k'.stage c = k.stage c)
    (hmoved : deeds.foldlM Stage.next (k.stage d) = some (k'.stage d)) : k.Follows deeds k' := by
  intro c
  by_cases heq : c = d
  · subst heq
    rw [Deed.of_eq_self hconn]
    exact hmoved
  · rw [Deed.of_eq_nil heq hconn, hother c heq]
    rfl

end Course

section Moves

open Course

/-- A move takes every connection along the edges of its stage, one case for each kind of
move. -/
theorem Move.follows {k k' : Course} {deeds : List Deed} (hmove : Move k deeds k')
    (hk : k.Single) (hk' : k'.Single) : k.Follows deeds k' := by
  cases hmove with
  | idle => exact fun c => rfl
  | @read c hc =>
      refine follows_of_moved (d := c) (by simp [Deed.conn, Action.conn]) (fun _ _ => rfl) ?_
      rw [hk.reading hc]
      rfl
  | @write c hc =>
      refine follows_of_moved (d := c) (by simp [Deed.conn, Action.conn]) (fun _ _ => rfl) ?_
      rw [hk.sending hc]
      rfl
  | refuse =>
      refine follows_of_moved (d := k.next) (by simp [Deed.destroyed, Deed.conn, Action.conn])
        (fun c hne => stage_congr (succ_le_iff_of_ne hne) rfl) ?_
      rw [stage_of_le (Nat.le_refl k.next), hk.fresh_gone]
      rfl
  | enter =>
      refine follows_of_moved (d := k.next) (by simp [Deed.conn, Action.conn])
        (fun c hne => stage_congr (succ_le_iff_of_ne hne) (by simp [places, hne])) ?_
      rw [stage_of_le (Nat.le_refl k.next), hk'.reading (Multiset.mem_cons_self _ _)]
      rfl
  | @reap c tables hc =>
      refine follows_of_moved (d := c) (by simp [Deed.destroyed, Deed.conn, Action.conn])
        (fun d hne => stage_congr Iff.rfl (by simp [places, hc, hne])) ?_
      rw [hk.reading (by simp [hc]), hk.gone { k with tables } rfl (by simp [tally_places, hc])]
      rfl
  | @queue c tables hc =>
      refine follows_of_moved (d := c) (by simp [Deed.conn])
        (fun d hne => stage_congr Iff.rfl (by simp [places, hc, hne])) ?_
      rw [hk.reading (by simp [hc]), hk'.waiting (by simp)]
      rfl
  | @take c inQueue hc =>
      refine follows_of_moved (d := c) (by simp [Deed.conn])
        (fun d hne => stage_congr Iff.rfl (by simp [places, hc, hne])) ?_
      rw [hk.waiting (by simp [hc]), hk'.working (by simp)]
      rfl
  | @dismiss c hands hc =>
      refine follows_of_moved (d := c) (by simp [Deed.destroyed, Deed.conn, Action.conn])
        (fun d hne => stage_congr Iff.rfl (by simp [places, hc, hne])) ?_
      rw [hk.working (by simp [hc]), hk.gone { k with hands } rfl (by simp [tally_places, hc])]
      rfl
  | @reply c hands hc =>
      refine follows_of_moved (d := c) (by simp [Deed.conn])
        (fun d hne => stage_congr Iff.rfl (by simp [places, hc, hne])) ?_
      rw [hk.working (by simp [hc]), hk'.answered (by simp)]
      rfl
  | @lose c hands hc =>
      refine follows_of_moved (d := c) (by simp)
        (fun d hne => stage_congr Iff.rfl (by simp [places, hc, hne])) ?_
      rw [hk.working (by simp [hc]), hk'.working (by simp)]
      rfl
  | @replyLeaving c hands hc =>
      -- the connection would be with the worker and in the queue
      have hone := hk'.le_one c
      simp [tally_places] at hone
      omega
  | @leave c hands hc =>
      refine follows_of_moved (d := c) (by simp)
        (fun d hne => stage_congr Iff.rfl (by simp [places, hc, hne])) ?_
      rw [hk.working (by simp [hc]), hk'.working (by simp)]
      rfl
  | @quit c leaving hc =>
      refine follows_of_moved (d := c) (by simp [Deed.destroyed, Deed.conn, Action.conn])
        (fun d hne => stage_congr Iff.rfl (by simp [places, hc, hne])) ?_
      rw [hk.working (by simp [hc]), hk.gone { k with leaving } rfl (by simp [tally_places, hc])]
      rfl
  | @fetch c outQueue hc =>
      refine follows_of_moved (d := c) (by simp [Deed.conn])
        (fun d hne => stage_congr Iff.rfl (by simp [places, hc, hne])) ?_
      rw [hk.answered (by simp [hc]), hk'.sending (by simp)]
      rfl
  | @overflow c outQueue hc =>
      refine follows_of_moved (d := c) (by simp [Deed.destroyed, Deed.conn, Action.conn])
        (fun d hne => stage_congr Iff.rfl (by simp [places, hc, hne])) ?_
      rw [hk.answered (by simp [hc]), hk.gone { k with outQueue } rfl (by simp [tally_places, hc])]
      rfl
  | @finish c slots hc =>
      refine follows_of_moved (d := c) (by simp [Deed.destroyed, Deed.conn, Action.conn])
        (fun d hne => stage_congr Iff.rfl (by simp [places, hc, hne])) ?_
      rw [hk.sending (by simp [hc]), hk.gone { k with slots } rfl (by simp [tally_places, hc])]
      rfl

end Moves

namespace Pipeline

variable {s s' : Pipeline}

/-- What a worker holds is carried or about to leave. -/
theorem count_workers (workers : List Worker) (c : Conn) :
    (workers.flatMap Worker.holds).count c =
      (workers.flatMap Worker.carries).count c + (workers.flatMap Worker.leaves).count c := by
  induction workers with
  | nil => rfl
  | cons worker rest ih =>
      simp only [List.flatMap_cons, List.count_append, ih]
      have hworker : worker.holds.count c = worker.carries.count c + worker.leaves.count c := by
        cases worker <;> simp [Worker.holds, Worker.carries, Worker.leaves]
      omega

/-- What is held once is in one place, the places being those that hold a connection. -/
theorem Owned.single (hs : Owned s) : s.course.Single := by
  intro c
  have htotal : tally s.course.places c = s.held.count c := by
    rw [Course.tally_places, count_held, count_workers]
    simp only [course, Multiset.coe_count]
    omega
  rw [htotal]
  split
  next => exact List.nodup_iff_count_le_one.mp hs.kept.holds.nodup c
  next hge =>
    refine Nat.le_zero.mpr (List.count_eq_zero.mpr fun hmem => hge ?_)
    exact hs.kept.lt_next hmem

/-- What the run has done so far agrees with where the connections are. -/
structure Lived (s : Pipeline) (seen : List Deed) : Prop where
  orderly : Orderly s
  owned : Owned s
  follows : ∀ c, (Deed.of c seen).foldlM Stage.next .unborn = some (s.course.stage c)

theorem lived_initial (config : Config) (threads : Nat) : Lived (initial config threads) [] where
  orderly := orderly_initial config threads
  owned := owned_initial config threads
  follows := by
    intro c
    rw [Course.stage_of_le (Nat.zero_le c)]
    rfl

/-- A step adds to the life of a connection what it did to it. -/
theorem Lived.step {label : Step} {seen : List Deed} (hs : s.Lived seen)
    (hguard : s.NotGoingDown label) (hstep : s.step label = some s') :
    s'.Lived (seen ++ s.deeds s') where
  orderly := hs.orderly.step hstep
  owned := hs.owned.step hguard hstep
  follows := by
    intro c
    rw [Deed.of_append, List.foldlM_append, hs.follows c]
    exact (hs.orderly.moves hstep).follows hs.owned.single (hs.owned.step hguard hstep).single c

/-- In every run that answers no `/shutdown` from the machine itself, what happens to a
connection follows the stages of its life, and it is in the place that belongs to the
stage it has come to. -/
theorem lifecycle (config : Config) (threads : Nat) (run : List Step)
    (hguard : EachStep step NotGoingDown (initial config threads) run) (c : Conn) :
    (Deed.of c (collected step deeds (initial config threads) run)).foldlM Stage.next .unborn =
      some ((lastState step (initial config threads) run).course.stage c) := by
  have hkeep : ∀ s label s' seen, Lived s seen → NotGoingDown s label → step s label = some s' →
      Lived s' (seen ++ s.deeds s') := fun _ _ _ _ hs hguard hstep => hs.step hguard hstep
  exact (inv_collected_of_eachStep hkeep (lived_initial config threads) hguard).follows c

instance NotGoingDown.decidable (s : Pipeline) : ∀ label, Decidable (s.NotGoingDown label)
  | .dispatch _ request .success =>
      inferInstanceAs (Decidable (route s.config request ≠ .goingDown))
  | .dispatch _ _ .eof => isTrue trivial
  | .dispatch _ _ .eagain => isTrue trivial
  | .dispatch _ _ .fault => isTrue trivial
  | .accept _ _ => isTrue trivial
  | .readEvent _ _ _ => isTrue trivial
  | .sweep _ _ _ _ => isTrue trivial
  | .leave _ => isTrue trivial
  | .take _ _ => isTrue trivial
  | .goDown _ => isTrue trivial
  | .writeEvent _ _ => isTrue trivial
  | .outSweep _ _ => isTrue trivial
  | .fetch _ => isTrue trivial

def healthRequest : Request where
  path := some (bytes "/health")
  parse := Http.requestParseInit 1024000
  localIp := bytes "127.0.0.1"
  remoteIp := bytes "127.0.0.1"

/-- A connection is read, answered by the health page and closed. -/
def healthRun : List Step :=
  [.accept 0 (.connected (bytes "127.0.0.1") true), .readEvent 0 0 .partly,
    .readEvent 0 0 .complete, .sweep 0 0 false .success, .take 0 .success,
    .dispatch 0 healthRequest .success, .fetch .success, .writeEvent 0 (.writable true),
    .outSweep 0 false]

theorem lifecycle_healthRun :
    (Deed.of 0 (collected step deeds (initial ⟨none, []⟩ 1) healthRun)).foldlM Stage.next .unborn =
      some .gone := by
  have hguard : EachStep step NotGoingDown (initial ⟨none, []⟩ 1) healthRun := by decide +kernel
  have hstage : (lastState step (initial ⟨none, []⟩ 1) healthRun).course.stage 0 = .gone := by
    decide +kernel
  rw [← hstage]
  exact lifecycle ⟨none, []⟩ 1 healthRun hguard 0

/-! ## Leaks -/

/-- Whatever was accepted and not destroyed is in a place. -/
def NoLeak (s : Pipeline) : Prop := ∀ c, connections.Live s.log c → c ∈ s.places

/-- A connection without a path is closed at once; the answer to a `/shutdown` from the machine
itself is not queued, for its worker closes the connection; every other response is queued. -/
def Delivers (s : Pipeline) : Step → Prop
  | .dispatch _ request status =>
      match route s.config request with
      | .noPath => True
      | .goingDown => status ≠ .success
      | _ => status = .success
  | _ => True

variable {label : Step}

/-- A step that delivers is none that brings the server down, as its route is not `goingDown`
with a push that succeeds. -/
theorem Delivers.notGoingDown (hguard : s.Delivers label) : s.NotGoingDown label := by
  cases label with
  | dispatch w request status =>
      cases status with
      | success =>
          intro hroute
          rw [Delivers, hroute] at hguard
          exact hguard rfl
      | eof => trivial
      | eagain => trivial
      | fault => trivial
  | accept l outcome => trivial
  | readEvent l c event => trivial
  | sweep l i late status => trivial
  | leave l => trivial
  | take w status => trivial
  | goDown w => trivial
  | writeEvent c event => trivial
  | outSweep i late => trivial
  | fetch status => trivial

/-- Only a response that is not queued loses its connection. -/
theorem lost_dispatch {w : Nat} {c : Conn} {request : Request} {status : QueueStatus}
    (hstep : s.dispatch w c request status = some s') :
    s'.lost = if route s.config request = .noPath ∨ route s.config request = .goingDown ∨
      status = .success then s.lost else c :: s.lost := by
  have hrespond : ∀ answered, s.respond c status = some answered → answered.lost = s.lost := by
    intro answered hanswered
    unfold respond at hanswered
    split at hanswered
    next => cases hanswered
    next =>
      cases hanswered
      rfl
  unfold Pipeline.dispatch at hstep
  split at hstep
  next hroute =>
    cases hstep
    rw [if_pos (Or.inl hroute)]
    rfl
  next hroute =>
    obtain ⟨answered, hanswered, rfl⟩ := Option.map_eq_some_iff.mp hstep
    rw [if_pos (Or.inr (Or.inl hroute))]
    exact hrespond answered hanswered
  next hnone hdown =>
    obtain ⟨answered, hanswered, rfl⟩ := Option.map_eq_some_iff.mp hstep
    have hother : ¬ (route s.config request = .noPath ∨ route s.config request = .goingDown) := by
      rintro (hroute | hroute)
      · exact hnone hroute
      · exact hdown hroute
    simp only [← or_assoc, hother, false_or, hrespond answered hanswered]

/-- The other steps lose nothing. -/
theorem lost_step (hstep : s.step label = some s')
    (hother : ∀ w request status, label ≠ .dispatch w request status) : s'.lost = s.lost := by
  cases label with
  | accept l outcome =>
      obtain ⟨listener, hl, rfl⟩ := Option.map_eq_some_iff.mp hstep
      split
      next =>
        obtain ⟨_, _, _, _, _, heq, -⟩ := accept_frame (getElem_of_runningListener hl) outcome
        rw [heq]
      next => rfl
  | readEvent l c event =>
      obtain ⟨listener, -, hstep⟩ := Option.bind_eq_some_iff.mp hstep
      split at hstep
      next =>
        cases hstep
        rfl
      next => cases hstep
  | sweep l i late status =>
      obtain ⟨listener, hl, hstep⟩ := Option.bind_eq_some_iff.mp hstep
      obtain ⟨_, _, _, _, _, rfl, -⟩ := sweep_frame (getElem_of_runningListener hl) hstep
      rfl
  | leave l =>
      obtain ⟨listener, -, hstep⟩ := Option.bind_eq_some_iff.mp hstep
      split at hstep
      next =>
        cases hstep
        rfl
      next => cases hstep
  | take w status =>
      simp only [Pipeline.step] at hstep
      split at hstep
      next =>
        obtain ⟨_, _, rfl, -⟩ := take_frame hstep
        rfl
      next => cases hstep
  | dispatch w request status => exact absurd rfl (hother w request status)
  | goDown w =>
      obtain ⟨worker, -, hstep⟩ := Option.bind_eq_some_iff.mp hstep
      obtain ⟨_, _, _, _, _, _, rfl, -⟩ := goDown_frame hstep
      rfl
  | writeEvent c event =>
      simp only [Pipeline.step] at hstep
      split at hstep
      next =>
        obtain ⟨_, _, heq⟩ := writeEvent_frame s c event
        cases hstep
        rw [heq]
      next => cases hstep
  | outSweep i late =>
      simp only [Pipeline.step] at hstep
      split at hstep
      next =>
        obtain ⟨_, _, _, heq, -⟩ := outSweep_frame s i late
        cases hstep
        rw [heq]
      next => cases hstep
  | fetch status =>
      simp only [Pipeline.step] at hstep
      split at hstep
      next =>
        obtain ⟨_, _, _, _, rfl, -⟩ := fetch_frame hstep
        rfl
      next => cases hstep

/-- With one owner for each connection, nothing leaks exactly while nothing is lost. -/
theorem Owned.noLeak_iff (hs : Owned s) : s.NoLeak ↔ s.lost = [] := by
  constructor
  · intro hleak
    apply List.eq_nil_iff_forall_not_mem.mpr
    intro c hc
    have hlive := (hs.kept.holds.live c).mp (List.mem_append_right s.places hc)
    exact (List.nodup_append.mp hs.kept.holds.nodup).2.2 c (hleak c hlive) c hc rfl
  · intro hlost c hlive
    have hheld : c ∈ s.places ++ s.lost := (hs.kept.holds.live c).mpr hlive
    rwa [hlost, List.append_nil] at hheld

theorem lost_of_delivers (hguard : s.Delivers label) (hstep : s.step label = some s') :
    s'.lost = s.lost := by
  cases label with
  | dispatch w request status =>
      simp only [Pipeline.step] at hstep
      split at hstep
      next c hw =>
        rw [lost_dispatch hstep, if_pos]
        simp only [Delivers] at hguard
        split at hguard
        next hnone => exact Or.inl hnone
        next hdown => exact Or.inr (Or.inl hdown)
        next => exact Or.inr (Or.inr hguard)
      next => cases hstep
  | _ => exact lost_step hstep (by simp)

/-- A response that is not queued leaves a connection that nobody has, so a step behind which
nothing is lost delivers. -/
theorem delivers_of_lost_nil (hstep : s.step label = some s') (hafter : SingleOwner s')
    (hlost : s'.lost = []) : s.Delivers label := by
  have hguard := notGoingDown_of_singleOwner hstep hafter
  cases label with
  | dispatch w request status =>
      simp only [Pipeline.step] at hstep
      split at hstep
      next c hw =>
        rw [lost_dispatch hstep] at hlost
        simp only [Delivers]
        split
        next => trivial
        next hdown =>
          rintro rfl
          exact hguard hdown
        next hnone hdown =>
          by_contra hfailed
          rw [if_neg (not_or.mpr ⟨hnone, not_or.mpr ⟨hdown, hfailed⟩⟩)] at hlost
          cases hlost
      next => cases hstep
  | accept l outcome => trivial
  | readEvent l c event => trivial
  | sweep l i late status => trivial
  | leave l => trivial
  | take w status => trivial
  | goDown w => trivial
  | writeEvent c event => trivial
  | outSweep i late => trivial
  | fetch status => trivial

/-- A run keeps every connection that is not destroyed in exactly one place exactly when each of
its steps that dispatches closes a connection without a path, fails to queue the answer to a
`/shutdown` from the machine itself, or queues any other response. -/
theorem noLeak_iff_delivers (config : Config) (threads : Nat) (run : List Step) :
    Always step (fun s => s.SingleOwner ∧ s.NoLeak) (initial config threads) run ↔
      EachStep step Delivers (initial config threads) run := by
  have himp : ∀ s, Owned s ∧ s.lost = [] → s.SingleOwner ∧ s.NoLeak :=
    fun s ⟨hs, hlost⟩ => ⟨hs.singleOwner, hs.noLeak_iff.mpr hlost⟩
  have hgood : ∀ s label s', Owned s ∧ s.lost = [] → Delivers s label → step s label = some s' →
      Owned s' ∧ s'.lost = [] := by
    rintro s label s' ⟨hs, hlost⟩ hguard hstep
    exact ⟨hs.step hguard.notGoingDown hstep, (lost_of_delivers hguard hstep).trans hlost⟩
  have hbad : ∀ s label s', Owned s ∧ s.lost = [] → step s label = some s' →
      s'.SingleOwner ∧ s'.NoLeak → Delivers s label := by
    rintro s label s' ⟨hs, hlost⟩ hstep ⟨hsingle, hleak⟩
    have hs' := hs.step (notGoingDown_of_singleOwner hstep hsingle) hstep
    exact delivers_of_lost_nil hstep hsingle (hs'.noLeak_iff.mp hleak)
  exact always_iff_eachStep himp hgood hbad ⟨owned_initial config threads, rfl⟩ run

end Pipeline

end DbSlayer.Server
