import DbSlayer.Server.Lifecycle

/-! # Handoffs

Between the listeners, the workers and the output thread a connection changes
hands four times, in one order, whatever else happens. The queues keep the order
in which connections were put into them.
-/

namespace DbSlayer.Server

open Foundation

namespace Deed

/-- What was put into `in_queue`, in this order. -/
def pushedIn (deeds : List Deed) : List Conn :=
  deeds.filterMap fun
    | .queued c => some c
    | _ => none

/-- What the workers got, in this order. -/
def poppedIn (deeds : List Deed) : List Conn :=
  deeds.filterMap fun
    | .taken c => some c
    | _ => none

/-- What was put into `out_queue`, in this order. -/
def pushedOut (deeds : List Deed) : List Conn :=
  deeds.filterMap fun
    | .replied c => some c
    | _ => none

/-- What the output thread got, in this order. -/
def poppedOut (deeds : List Deed) : List Conn :=
  deeds.filterMap fun
    | .fetched c => some c
    | _ => none

def isHandoff : Deed → Bool
  | .did _ => false
  | _ => true

/-- The handoffs of one connection. -/
def handoffs (c : Conn) (deeds : List Deed) : List Deed := (Deed.of c deeds).filter isHandoff

/-- The way through the threads. -/
def fullWay (c : Conn) : List Deed := [.queued c, .taken c, .replied c, .fetched c]

theorem handoffs_append (c : Conn) (first second : List Deed) :
    handoffs c (first ++ second) = handoffs c first ++ handoffs c second := by
  rw [handoffs, of_append, List.filter_append]
  rfl

end Deed

/-- What was put into a queue is what was taken out of it and what is in it. -/
theorem fifo_append {pushed popped items pushed' popped' items' : List Conn}
    (hbefore : pushed = popped ++ items) (hstep : items ++ pushed' = popped' ++ items') :
    pushed ++ pushed' = popped ++ popped' ++ items' := by
  rw [hbefore, List.append_assoc, hstep, List.append_assoc]

/-- A move keeps the order of both queues: what is taken out comes from the front, what is put
in goes to the end. -/
theorem Move.fifo {k k' : Course} {deeds : List Deed} (hmove : Move k deeds k') :
    k.inQueue ++ Deed.pushedIn deeds = Deed.poppedIn deeds ++ k'.inQueue ∧
      k.outQueue ++ Deed.pushedOut deeds = Deed.poppedOut deeds ++ k'.outQueue := by
  cases hmove with
  | take hc => simp [Deed.pushedIn, Deed.poppedIn, Deed.pushedOut, Deed.poppedOut, hc]
  | fetch hc => simp [Deed.pushedIn, Deed.poppedIn, Deed.pushedOut, Deed.poppedOut, hc]
  | overflow hc =>
      simp [Deed.pushedIn, Deed.poppedIn, Deed.pushedOut, Deed.poppedOut, Deed.destroyed, hc]
  | _ => simp [Deed.pushedIn, Deed.poppedIn, Deed.pushedOut, Deed.poppedOut, Deed.destroyed]

namespace Course

/-- The places on the way, each with the number of handoffs before it. -/
def waypoints (k : Course) : List (Nat × Multiset Conn) :=
  [(0, k.tables), (1, k.inQueue), (2, k.hands), (3, k.outQueue), (4, k.slots)]

/-- How many handoffs a connection that is on its way has behind it. -/
def passed (k : Course) (c : Conn) : Option Nat :=
  if k.next ≤ c then some 0 else whereabouts k.waypoints c

/-- The handoffs of a connection so far are those in front of the place where it is. -/
structure Handed (k : Course) (c : Conn) (done : List Deed) : Prop where
  along : done <+: Deed.fullWay c
  upTo : ∀ n, k.passed c = some n → done = (Deed.fullWay c).take n

section Handed

variable {k k' : Course} {c d : Conn} {done : List Deed}

theorem tally_waypoints (k : Course) (c : Conn) : tally k.waypoints c = k.way.count c := by
  rw [count_way]
  simp [tally, waypoints, Nat.add_assoc]

theorem Once.le_one (hk : k.Once) (c : Conn) : tally k.waypoints c ≤ 1 := by
  have hbound := hk c
  rw [tally_waypoints]
  split at hbound
  next => exact hbound
  next => exact Nat.le_succ_of_le hbound

theorem Once.lt_next (hk : k.Once) (hpos : 0 < tally k.waypoints c) : c < k.next := by
  by_contra hge
  have hbound := hk c
  rw [tally_waypoints] at hpos
  rw [if_neg hge] at hbound
  omega

/-- The number of handoffs behind a connection is given by the waypoint it is at. -/
theorem Once.passed_eq (hk : k.Once) {place : Nat × Multiset Conn} (hplace : place ∈ k.waypoints)
    (hc : c ∈ place.2) : k.passed c = some place.1 := by
  have hlt := hk.lt_next (tally_pos hplace hc)
  rw [passed, if_neg (Nat.not_le.mpr hlt), whereabouts_of_mem (hk.le_one c) hplace hc]

/-- Whoever leaves its place otherwise than by a handoff is on no way. -/
theorem Once.passed_none (hk : k.Once) (k' : Course) (hnext : k'.next = k.next)
    (hless : tally k'.waypoints c < tally k.waypoints c) : k'.passed c = none := by
  have hone := hk.le_one c
  have hlt : c < k'.next := hnext ▸ hk.lt_next (by omega)
  rw [passed, if_neg (Nat.not_le.mpr hlt), whereabouts_of_tally_eq_zero (by omega)]

/-- How far a connection has come depends on nothing but the waypoints and the next number. -/
theorem passed_congr (hnext : k'.next ≤ c ↔ k.next ≤ c)
    (hplaces : k'.waypoints.map (fun place => (place.1, decide (c ∈ place.2))) =
      k.waypoints.map (fun place => (place.1, decide (c ∈ place.2)))) :
    k'.passed c = k.passed c := by
  simp only [passed, hnext, whereabouts_congr hplaces]

/-- A connection that is not handed over keeps its handoffs, as it is at the same waypoint. -/
theorem Handed.stay (hc : k.Handed c done) (hpassed : k'.passed c = k.passed c) :
    k'.Handed c done := ⟨hc.along, fun n hn => hc.upTo n (hpassed ▸ hn)⟩

/-- A connection that left the way needs no more than the handoffs behind it. -/
theorem Handed.drop (hc : k.Handed c done) (hpassed : k'.passed c = none) : k'.Handed c done :=
  ⟨hc.along, fun n hn => by rw [hpassed] at hn; cases hn⟩

/-- A connection that is handed over has one handoff more behind it, the one that its waypoint
asks for. -/
theorem Handed.handOver {n : Nat} {deed : Deed} (hc : k.Handed c done)
    (hbefore : k.passed c = some n) (hdeed : (Deed.fullWay c)[n]? = some deed)
    (hafter : k'.passed c = none ∨ k'.passed c = some (n + 1)) :
    k'.Handed c (done ++ [deed]) := by
  have hdone : done ++ [deed] = (Deed.fullWay c).take (n + 1) := by
    rw [hc.upTo n hbefore, List.take_add_one, hdeed]
    rfl
  refine ⟨hdone ▸ List.take_prefix _ _, fun m hm => ?_⟩
  rcases hafter with hafter | hafter
  · rw [hafter] at hm
    cases hm
  · rw [hafter] at hm
    cases hm
    exact hdone

/-- A move of the connection `d` has to be looked at for `d` only, since the deeds of the others
are none. -/
theorem Handed.moved {deeds : List Deed} (hc : k.Handed c done)
    (hconn : ∀ deed ∈ deeds, deed.conn = d) (hother : ∀ c, c ≠ d → k'.passed c = k.passed c)
    (hmoved : ∀ done, k.Handed d done → k'.Handed d (done ++ deeds.filter Deed.isHandoff)) :
    k'.Handed c (done ++ Deed.handoffs c deeds) := by
  by_cases heq : c = d
  · subst heq
    rw [Deed.handoffs, Deed.of_eq_self hconn]
    exact hmoved done hc
  · rw [Deed.handoffs, Deed.of_eq_nil heq hconn, List.filter_nil, List.append_nil]
    exact hc.stay (hother c heq)

/-- What happens to the connection `d` hands it to nobody, so every connection keeps the
handoffs behind it. -/
theorem Handed.kept {deeds : List Deed} (hc : k.Handed c done)
    (hconn : ∀ deed ∈ deeds, deed.conn = d) (hnone : deeds.filter Deed.isHandoff = [])
    (hother : ∀ c, c ≠ d → k'.passed c = k.passed c)
    (hkept : k'.passed d = none ∨ k'.passed d = k.passed d) :
    k'.Handed c (done ++ Deed.handoffs c deeds) := by
  refine hc.moved hconn hother fun done hd => ?_
  rw [hnone, List.append_nil]
  rcases hkept with hdropped | hstays
  · exact hd.drop hdropped
  · exact hd.stay hstays

/-- A handoff of the connection `d` takes it one waypoint further, and every other connection
stays at its own. -/
theorem Handed.handedOver {deeds : List Deed} {deed : Deed} (hc : k.Handed c done) (n : Nat)
    (hconn : ∀ deed ∈ deeds, deed.conn = d) (hdeeds : deeds.filter Deed.isHandoff = [deed])
    (hdeed : (Deed.fullWay d)[n]? = some deed) (hother : ∀ c, c ≠ d → k'.passed c = k.passed c)
    (hbefore : k.passed d = some n) (hafter : k'.passed d = none ∨ k'.passed d = some (n + 1)) :
    k'.Handed c (done ++ Deed.handoffs c deeds) := by
  refine hc.moved hconn hother fun done hd => ?_
  rw [hdeeds]
  exact hd.handOver hbefore hdeed hafter

theorem Once.inTables (hk : k.Once) (hc : c ∈ k.tables) : k.passed c = some 0 := by
  have hplace : (0, k.tables) ∈ k.waypoints := by simp [waypoints]
  exact hk.passed_eq hplace hc

theorem Once.inInQueue (hk : k.Once) (hc : c ∈ k.inQueue) : k.passed c = some 1 := by
  have hplace : (1, (k.inQueue : Multiset Conn)) ∈ k.waypoints := by simp [waypoints]
  exact hk.passed_eq hplace hc

theorem Once.inHands (hk : k.Once) (hc : c ∈ k.hands) : k.passed c = some 2 := by
  have hplace : (2, k.hands) ∈ k.waypoints := by simp [waypoints]
  exact hk.passed_eq hplace hc

theorem Once.inOutQueue (hk : k.Once) (hc : c ∈ k.outQueue) : k.passed c = some 3 := by
  have hplace : (3, (k.outQueue : Multiset Conn)) ∈ k.waypoints := by simp [waypoints]
  exact hk.passed_eq hplace hc

theorem Once.inSlots (hk : k.Once) (hc : c ∈ k.slots) : k.passed c = some 4 := by
  have hplace : (4, k.slots) ∈ k.waypoints := by simp [waypoints]
  exact hk.passed_eq hplace hc

end Handed

end Course

section Moves

open Course

/-- A move hands over one waypoint further, if at all. -/
theorem Move.handed {k k' : Course} {deeds : List Deed} (hmove : Move k deeds k') (hk : k.Once)
    {c : Conn} {done : List Deed} (hc : k.Handed c done) :
    k'.Handed c (done ++ Deed.handoffs c deeds) := by
  have hk' := hmove.once hk
  cases hmove with
  | idle =>
      rw [Deed.handoffs, Deed.of, List.filter_nil, List.filter_nil, List.append_nil]
      exact hc
  | @read d hd =>
      exact hc.kept (d := d) (by simp [Deed.conn, Action.conn]) (by simp [Deed.isHandoff])
        (fun _ _ => rfl) (Or.inr rfl)
  | @write d hd =>
      exact hc.kept (d := d) (by simp [Deed.conn, Action.conn]) (by simp [Deed.isHandoff])
        (fun _ _ => rfl) (Or.inr rfl)
  | refuse =>
      refine hc.kept (d := k.next) (by simp [Deed.destroyed, Deed.conn, Action.conn])
        (by simp [Deed.destroyed, Deed.isHandoff])
        (fun c hne => passed_congr (succ_le_iff_of_ne hne) rfl) (Or.inl ?_)
      have hbound := hk k.next
      rw [if_neg (Nat.lt_irrefl k.next), ← tally_waypoints] at hbound
      rw [passed, if_neg (Nat.not_le.mpr (Nat.lt_succ_self k.next))]
      exact whereabouts_of_tally_eq_zero (Nat.le_zero.mp hbound)
  | enter =>
      refine hc.kept (d := k.next) (by simp [Deed.conn, Action.conn]) (by simp [Deed.isHandoff])
        (fun c hne => passed_congr (succ_le_iff_of_ne hne) (by simp [waypoints, hne])) (Or.inr ?_)
      rw [hk'.inTables (Multiset.mem_cons_self _ _), passed, if_pos (Nat.le_refl _)]
  | @reap d tables hd =>
      refine hc.kept (d := d) (by simp [Deed.destroyed, Deed.conn, Action.conn])
        (by simp [Deed.destroyed, Deed.isHandoff])
        (fun c hne => passed_congr Iff.rfl (by simp [waypoints, hd, hne])) (Or.inl ?_)
      exact hk.passed_none { k with tables } rfl (by simp [tally_waypoints, count_way, hd])
  | @queue d tables hd =>
      refine hc.handedOver (d := d) 0 (by simp [Deed.conn]) (by simp [Deed.isHandoff]) rfl
        (fun c hne => passed_congr Iff.rfl (by simp [waypoints, hd, hne])) ?_ (Or.inr ?_)
      · exact hk.inTables (by simp [hd])
      · exact hk'.inInQueue (by simp)
  | @take d inQueue hd =>
      refine hc.handedOver (d := d) 1 (by simp [Deed.conn]) (by simp [Deed.isHandoff]) rfl
        (fun c hne => passed_congr Iff.rfl (by simp [waypoints, hd, hne])) ?_ (Or.inr ?_)
      · exact hk.inInQueue (by simp [hd])
      · exact hk'.inHands (by simp)
  | @dismiss d hands hd =>
      refine hc.kept (d := d) (by simp [Deed.destroyed, Deed.conn, Action.conn])
        (by simp [Deed.destroyed, Deed.isHandoff])
        (fun c hne => passed_congr Iff.rfl (by simp [waypoints, hd, hne])) (Or.inl ?_)
      exact hk.passed_none { k with hands } rfl (by simp [tally_waypoints, count_way, hd])
  | @reply d hands hd =>
      refine hc.handedOver (d := d) 2 (by simp [Deed.conn]) (by simp [Deed.isHandoff]) rfl
        (fun c hne => passed_congr Iff.rfl (by simp [waypoints, hd, hne])) ?_ (Or.inr ?_)
      · exact hk.inHands (by simp [hd])
      · exact hk'.inOutQueue (by simp)
  | @lose d hands hd =>
      refine hc.kept (d := d) (by simp) (by simp)
        (fun c hne => passed_congr Iff.rfl (by simp [waypoints, hd, hne])) (Or.inl ?_)
      exact hk.passed_none { k with hands, lost := d ::ₘ k.lost } rfl
        (by simp [tally_waypoints, count_way, hd])
  | @replyLeaving d hands hd =>
      refine hc.handedOver (d := d) 2 (by simp [Deed.conn]) (by simp [Deed.isHandoff]) rfl
        (fun c hne => passed_congr Iff.rfl (by simp [waypoints, hd, hne])) ?_ (Or.inr ?_)
      · exact hk.inHands (by simp [hd])
      · exact hk'.inOutQueue (by simp)
  | @leave d hands hd =>
      refine hc.kept (d := d) (by simp) (by simp)
        (fun c hne => passed_congr Iff.rfl (by simp [waypoints, hd, hne])) (Or.inl ?_)
      exact hk.passed_none { k with hands, leaving := d ::ₘ k.leaving } rfl
        (by simp [tally_waypoints, count_way, hd])
  | @quit d leaving hd =>
      exact hc.kept (d := d) (by simp [Deed.destroyed, Deed.conn, Action.conn])
        (by simp [Deed.destroyed, Deed.isHandoff]) (fun _ _ => rfl) (Or.inr rfl)
  | @fetch d outQueue hd =>
      refine hc.handedOver (d := d) 3 (by simp [Deed.conn]) (by simp [Deed.isHandoff]) rfl
        (fun c hne => passed_congr Iff.rfl (by simp [waypoints, hd, hne])) ?_ (Or.inr ?_)
      · exact hk.inOutQueue (by simp [hd])
      · exact hk'.inSlots (by simp)
  | @overflow d outQueue hd =>
      refine hc.handedOver (d := d) 3 (by simp [Deed.destroyed, Deed.conn, Action.conn]) rfl rfl
        (fun c hne => passed_congr Iff.rfl (by simp [waypoints, hd, hne])) ?_ (Or.inl ?_)
      · exact hk.inOutQueue (by simp [hd])
      · exact hk.passed_none { k with outQueue } rfl (by simp [tally_waypoints, count_way, hd])
  | @finish d slots hd =>
      refine hc.kept (d := d) (by simp [Deed.destroyed, Deed.conn, Action.conn])
        (by simp [Deed.destroyed, Deed.isHandoff])
        (fun c hne => passed_congr Iff.rfl (by simp [waypoints, hd, hne])) (Or.inl ?_)
      exact hk.passed_none { k with slots } rfl (by simp [tally_waypoints, count_way, hd])

end Moves

namespace Pipeline

variable {s s' : Pipeline}

/-- What the run has handed over so far agrees with the queues and with where the
connections are. -/
structure HandedOver (s : Pipeline) (seen : List Deed) : Prop where
  orderly : Orderly s
  inQueue : Deed.pushedIn seen = Deed.poppedIn seen ++ s.inQueue.items
  outQueue : Deed.pushedOut seen = Deed.poppedOut seen ++ s.outQueue.items
  handed : ∀ c, s.course.Handed c (Deed.handoffs c seen)

theorem handedOver_initial (config : Config) (threads : Nat) :
    HandedOver (initial config threads) [] where
  orderly := orderly_initial config threads
  inQueue := rfl
  outQueue := rfl
  handed := by
    intro c
    refine ⟨List.nil_prefix, fun n hn => ?_⟩
    have hpassed : (initial config threads).course.passed c = some 0 := if_pos (Nat.zero_le c)
    obtain rfl := Option.some.inj (hpassed.symm.trans hn)
    rfl

theorem HandedOver.step {label : Step} {seen : List Deed} (hs : s.HandedOver seen)
    (hstep : s.step label = some s') : s'.HandedOver (seen ++ s.deeds s') where
  orderly := hs.orderly.step hstep
  inQueue := by
    rw [Deed.pushedIn, Deed.poppedIn, List.filterMap_append, List.filterMap_append]
    exact fifo_append hs.inQueue (hs.orderly.moves hstep).fifo.1
  outQueue := by
    rw [Deed.pushedOut, Deed.poppedOut, List.filterMap_append, List.filterMap_append]
    exact fifo_append hs.outQueue (hs.orderly.moves hstep).fifo.2
  handed := by
    intro c
    rw [Deed.handoffs_append]
    exact (hs.orderly.moves hstep).handed hs.orderly.once (hs.handed c)

/-- In every run the workers get what the listeners queued and the output thread gets
what the workers queued, in the same order and with nothing left out but what is still
in the queues; and a connection is queued, taken, replied to and fetched at most once
and in this order. -/
theorem handoffs_in_order (config : Config) (threads : Nat) (run : List Step) :
    let history := collected step deeds (initial config threads) run
    let last := lastState step (initial config threads) run
    Deed.pushedIn history = Deed.poppedIn history ++ last.inQueue.items ∧
      Deed.pushedOut history = Deed.poppedOut history ++ last.outQueue.items ∧
      ∀ c, Deed.handoffs c history <+: Deed.fullWay c := by
  have hkeep : ∀ s label s' seen, HandedOver s seen → step s label = some s' →
      HandedOver s' (seen ++ s.deeds s') := fun _ _ _ _ hs hstep => hs.step hstep
  have hlast := inv_collected hkeep (handedOver_initial config threads) run
  exact ⟨hlast.inQueue, hlast.outQueue, fun c => (hlast.handed c).along⟩

end Pipeline

end DbSlayer.Server
