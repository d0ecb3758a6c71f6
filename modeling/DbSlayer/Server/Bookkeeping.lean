import DbSlayer.Server.Ownership

/-! # The bookkeeping of the listeners

`connections_count`, the slots, the pollset and the `handoff_pending` flags say the
same about every connection of a listener, whatever the network and the queue
answer and whatever the other threads do. A connection that left the table for
`in_queue` never comes back to a table, so it is not pushed again.
-/

namespace DbSlayer.Server

open Foundation

/-- The counter, the slots, the pollset and the flags agree. -/
structure Listener.Booked (listener : Listener) (flags : Conn → Flags) : Prop where
  counted : listener.connectionsCount = listener.connections.countP Option.isSome
  bounded : listener.connectionsCount ≤ 499
  /-- Whenever a connection may be admitted, the search for a free slot finds one. -/
  free : listener.hasRoom = true → ∀ c, (Slots.store listener.connections c).isSome = true
  polled : ∀ c, c ∈ listener.pollset ↔
    some c ∈ listener.connections ∧ (flags c).handoffPending = false

namespace Pipeline

/-- The slots of all listeners. -/
def slots (s : Pipeline) : List (Option Conn) := s.listeners.flatMap Listener.connections

structure Booked (s : Pipeline) : Prop where
  listeners : ∀ listener ∈ s.listeners, listener.Booked s.flags
  once : ∀ c, s.slots.count (some c) ≤ 1

/-- A connection is admitted: there is room in the table, its address has not too many
connections, and the handshake succeeds where there is one. -/
def Admits (s : Pipeline) (listener : Listener) : AcceptOutcome → Prop
  | .connected ip tls => listener.hasRoom = true ∧
      (s.counters.accept s.next ip).1 ≤ maxConnectionsPerIp ∧ tls = true
  | _ => False

/-- The connection that came is in exactly one slot of all tables, which is one of listener
`l`, where it is counted and polled. -/
structure Stores (s next : Pipeline) (l : Nat) (listener : Listener) : Prop where
  once : next.slots.count (some s.next) = 1
  booked : ∃ after, next.listeners[l]? = some after ∧ some s.next ∈ after.connections ∧
    s.next ∈ after.pollset ∧ after.connectionsCount = listener.connectionsCount + 1

/-- Every connection that is admitted is stored, and one that is not changes no table. -/
def StoresAdmitted (s : Pipeline) : Step → Prop
  | .accept l outcome => ∀ listener next, s.runningListener l = some listener →
      s.step (.accept l outcome) = some next →
      (s.Admits listener outcome → s.Stores next l listener) ∧
        (¬ s.Admits listener outcome → next.listeners = s.listeners)
  | _ => True

/-- What was put into `in_queue` between two states. -/
def queued (s next : Pipeline) : List Conn := next.inQueue.items.drop s.inQueue.items.length

end Pipeline

/-! ## One table -/

/-- The bookkeeping of a table that polls whatever waits for no handoff. -/
structure Listener.Exact (listener : Listener) (flags : Conn → Flags) : Prop
    extends listener.Sound flags where
  bounded : listener.holds.length ≤ 499
  waiting : ∀ c ∈ listener.holds, (flags c).handoffPending = false → c ∈ listener.pollset

namespace Listener.Exact

variable {listener : Listener} {flags : Conn → Flags} {c : Conn} {i : Nat}

theorem initial : Listener.initial.Exact flags where
  toSound := Listener.Sound.initial
  bounded := by simp [Listener.initial, holds]
  waiting := by simp [Listener.initial, holds]

/-- An exact table is booked, since the number of its slots that are taken is counted twice. -/
theorem booked (hexact : listener.Exact flags) : listener.Booked flags where
  counted := by rw [hexact.count, holds, Slots.length_held]
  bounded := by
    have hcount := hexact.count
    have hbounded := hexact.bounded
    omega
  free := by
    intro hroom c
    obtain ⟨connections, hstore⟩ := hexact.exists_store hroom c
    rw [hstore, Option.isSome_some]
  polled := by
    intro c
    rw [← Slots.mem_held_iff]
    exact ⟨hexact.polled c, fun hc => hexact.waiting c hc.1 hc.2⟩

/-- A table stays exact under flags that say nothing new about its own connections, whatever
they say about others. -/
theorem congr {after : Conn → Flags} (hexact : listener.Exact flags)
    (hsame : ∀ c ∈ listener.holds, (after c).handoffPending = (flags c).handoffPending) :
    listener.Exact after where
  toSound := hexact.toSound.congr fun c hc hpending =>
    (hsame c (hexact.polled c hc).1).trans hpending
  bounded := hexact.bounded
  waiting := fun c hc hpending => hexact.waiting c hc ((hsame c hc).symm.trans hpending)

/-- A connection that is enrolled is counted, stored and polled. -/
theorem enroll (hexact : listener.Exact flags) (hroom : listener.hasRoom = true)
    (hfresh : flags c = {}) : (listener.enroll c).Exact flags where
  toSound := by
    have hsound := hexact.toSound.enroll hroom c
    rwa [← hfresh, Function.update_eq_self] at hsound
  bounded := by
    have hcount := hexact.count
    have hlength := (hexact.holds_enroll hroom c).length_eq
    have hsize : tableSize = 500 := rfl
    simp only [hasRoom, Bool.and_eq_true, decide_eq_true_eq] at hroom
    rw [List.length_cons] at hlength
    omega
  waiting := by
    intro d hd hpending
    apply List.mem_cons.mpr
    obtain rfl | hd := List.mem_cons.mp ((hexact.holds_enroll hroom c).mem_iff.mp hd)
    · exact Or.inl rfl
    · exact Or.inr (hexact.waiting d hd hpending)

theorem stop (hexact : listener.Exact flags) : { listener with running := false }.Exact flags where
  toSound := hexact.toSound.stop
  bounded := hexact.bounded
  waiting := hexact.waiting

/-- The connection that begins to wait leaves the pollset. -/
theorem park (hexact : listener.Exact flags) (c : Conn) :
    (listener.park (flags c) c).Exact
      (Function.update flags c { flags c with handoffPending := true }) where
  toSound := by
    refine (hexact.toSound.park c).congr fun d hd hpending => ?_
    have hne : d ≠ c := fun heq => hexact.not_mem_park c (heq ▸ hd)
    rwa [Function.update_of_ne hne]
  bounded := by
    rw [holds, connections_park]
    exact hexact.bounded
  waiting := by
    intro d hd hpending
    have hne : d ≠ c := by
      rintro rfl
      simp at hpending
    rw [Function.update_of_ne hne] at hpending
    rw [holds, connections_park] at hd
    have hpolled := hexact.waiting d hd hpending
    unfold Listener.park
    split
    next => exact hpolled
    next => exact List.mem_filter.mpr ⟨hpolled, by simpa using hne⟩

/-- A slot may be cleared once its connection waits. -/
theorem release (hexact : listener.Exact flags)
    (hslot : listener.connections[i]? = some (some c)) (hout : c ∉ listener.pollset) :
    (listener.release i).Exact flags where
  toSound := hexact.toSound.release hslot hout
  bounded := by
    have hlength := (Sound.holds_release hslot).length_eq
    have hbounded := hexact.bounded
    rw [List.length_cons] at hlength
    omega
  waiting := by
    intro d hd hpending
    have hold : d ∈ listener.holds :=
      (Sound.holds_release hslot).mem_iff.mpr (List.mem_cons_of_mem c hd)
    exact hexact.waiting d hold hpending

/-- A slot is cleared together with the entry of the pollset. -/
theorem reap (hexact : listener.Exact flags) (hnodup : listener.holds.Nodup)
    (hslot : listener.connections[i]? = some (some c)) :
    ((listener.unpoll c).release i).Exact flags where
  toSound := (hexact.toSound.unpoll c).release hslot (listener.not_mem_unpoll c)
  bounded := by
    have hperm : listener.holds.Perm (c :: (listener.release i).holds) := Sound.holds_release hslot
    have hlength := hperm.length_eq
    have hbounded := hexact.bounded
    have hsame : ((listener.unpoll c).release i).holds = (listener.release i).holds := rfl
    rw [List.length_cons] at hlength
    rw [hsame]
    omega
  waiting := by
    intro d hd hpending
    have hperm : listener.holds.Perm (c :: (listener.release i).holds) := Sound.holds_release hslot
    have hpolled := hexact.waiting d (hperm.mem_iff.mpr (List.mem_cons_of_mem c hd)) hpending
    have hne : d ≠ c := by
      rintro rfl
      exact (List.nodup_cons.mp (hperm.nodup_iff.mp hnodup)).1 hd
    exact List.mem_filter.mpr ⟨hpolled, by simpa using hne⟩

end Listener.Exact

/-! ## All tables -/

/-- The tables, and connections that are `outside`: no connection is in two of these
places, and none that is still to come is in one. -/
structure Tables (listeners : List Listener) (flags : Conn → Flags) (next : Conn)
    (outside : List Conn) : Prop where
  exact : ∀ (l : Nat) (listener : Listener), listeners[l]? = some listener → listener.Exact flags
  once : ∀ c, (listeners.flatMap Listener.holds ++ outside).count c ≤ if c < next then 1 else 0

namespace Tables

variable {listeners : List Listener} {flags : Conn → Flags} {next : Conn} {outside : List Conn}
  {l i : Nat} {listener : Listener} {c : Conn}

/-- No connection stands in two tables, or in a table and outside. -/
theorem nodup (ht : Tables listeners flags next outside) :
    (listeners.flatMap Listener.holds ++ outside).Nodup := by
  apply List.nodup_iff_count_le_one.mpr
  intro c
  have honce := ht.once c
  split at honce
  next => exact honce
  next => exact Nat.le_succ_of_le honce

/-- The connections of a table have been accepted. -/
theorem lt_next (ht : Tables listeners flags next outside)
    (hl : listeners[l]? = some listener) (hc : c ∈ listener.holds) : c < next := by
  have hmem : c ∈ listeners.flatMap Listener.holds :=
    List.mem_flatMap.mpr ⟨listener, List.mem_of_getElem? hl, hc⟩
  have hpos := List.count_pos_iff.mpr (List.mem_append_left outside hmem)
  have honce := ht.once c
  by_contra hge
  rw [if_neg hge] at honce
  omega

theorem nodup_holds (ht : Tables listeners flags next outside)
    (hl : listeners[l]? = some listener) : listener.holds.Nodup :=
  (List.nodup_flatMap.mp ht.nodup.of_append_left).1 listener (List.mem_of_getElem? hl)

/-- The tables stay exact under flags that say nothing new about a connection that exists, as
those of a new one do. -/
theorem congr {after : Conn → Flags} (ht : Tables listeners flags next outside)
    (hsame : ∀ c < next, (after c).handoffPending = (flags c).handoffPending) :
    Tables listeners after next outside where
  exact := fun l listener hl =>
    (ht.exact l listener hl).congr fun c hc => hsame c (ht.lt_next hl hc)
  once := ht.once

/-- A new connection is outside the tables, with its flags cleared and under a number that was
not given before. -/
theorem allocate (ht : Tables listeners flags next outside) :
    Tables listeners (Function.update flags next {}) (next + 1) (next :: outside) where
  exact := by
    refine (ht.congr fun c hc => ?_).exact
    rw [Function.update_of_ne (Nat.ne_of_lt hc)]
  once := by
    intro c
    have honce := ht.once c
    rw [List.count_append] at honce ⊢
    rw [List.count_cons]
    by_cases heq : c = next
    · subst heq
      rw [if_neg (Nat.lt_irrefl c)] at honce
      rw [if_pos (Nat.lt_succ_self c), beq_self_eq_true, if_pos rfl]
      omega
    · have hbeq : (next == c) = false := by simpa using Ne.symm heq
      have hlt : c < next + 1 ↔ c < next := Nat.lt_succ_iff_lt_or_eq.trans (or_iff_left heq)
      simpa [hbeq, hlt] using honce

/-- Connections outside may be forgotten. -/
theorem forget {outside' : List Conn} (ht : Tables listeners flags next outside)
    (hsub : outside'.Sublist outside) : Tables listeners flags next outside' where
  exact := ht.exact
  once := fun d => Nat.le_trans ((hsub.append_left _).count_le d) (ht.once d)

/-- One table is replaced by another exact one, and connections pass between it and the
outside without being doubled. -/
theorem set (ht : Tables listeners flags next outside) (hl : listeners[l]? = some listener)
    {other : Listener} {after : Conn → Flags} {outside' : List Conn}
    (hother : other.Exact after)
    (hsame : ∀ d, d ∉ listener.holds → (after d).handoffPending = (flags d).handoffPending)
    (hcount : ∀ d, other.holds.count d + outside'.count d ≤
      listener.holds.count d + outside.count d) :
    Tables (listeners.set l other) after next outside' where
  exact := by
    intro j listener' hj
    rw [List.getElem?_set] at hj
    split at hj
    next heq =>
      split at hj
      next => exact Option.some.inj hj ▸ hother
      next => cases hj
    next hne =>
      -- what another table holds, this one does not hold
      refine (ht.exact j listener' hj).congr fun d hd => hsame d fun hmem => ?_
      exact disjoint_of_nodup_flatMap ht.nodup.of_append_left hne hl hj hmem hd
  once := by
    intro d
    obtain ⟨rest, hold, hnew⟩ := exists_rest_flatMap_set Listener.holds hl
    have hbefore := hold.count_eq d
    have hafter := (hnew other).count_eq d
    have honce := ht.once d
    have hcount := hcount d
    rw [List.count_append] at hbefore hafter honce ⊢
    omega

/-- A table is replaced by one with the same slots. -/
theorem setSame (ht : Tables listeners flags next outside) (hl : listeners[l]? = some listener)
    {other : Listener} {after : Conn → Flags} (hother : other.Exact after)
    (hsame : ∀ d, d ∉ listener.holds → (after d).handoffPending = (flags d).handoffPending)
    (htable : other.connections = listener.connections) :
    Tables (listeners.set l other) after next outside := by
  refine ht.set hl hother hsame fun d => ?_
  rw [Listener.holds, Listener.holds, htable]

/-- A slot is cleared, and its connection may be seen again outside, where the queue or a
worker has it. -/
theorem release (ht : Tables listeners flags next outside) (hl : listeners[l]? = some listener)
    (hslot : listener.connections[i]? = some (some c)) {other : Listener}
    (hother : other.Exact flags) (hclear : other.connections = (listener.release i).connections) :
    Tables (listeners.set l other) flags next (outside ++ [c]) := by
  refine ht.set hl hother (fun _ _ => rfl) fun d => ?_
  have hperm := (Listener.Sound.holds_release hslot).count_eq d
  have hholds : other.holds = (listener.release i).holds := congrArg Slots.held hclear
  rw [← List.singleton_append, List.count_append] at hperm
  rw [hholds, List.count_append]
  omega

end Tables

namespace Pipeline

section Steps

variable {s s' : Pipeline} {outside : List Conn} {l i : Nat} {listener : Listener} {c : Conn}

/-- The tables of a server. -/
def Tabled (s : Pipeline) (outside : List Conn) : Prop :=
  Tables s.listeners s.flags s.next outside

theorem Tabled.booked (hs : s.Tabled outside) : s.Booked where
  listeners := by
    intro listener hlistener
    obtain ⟨l, hl⟩ := List.mem_iff_getElem?.mp hlistener
    exact (hs.exact l listener hl).booked
  once := by
    intro c
    have hnodup : (s.listeners.flatMap Listener.holds).Nodup := hs.nodup.of_append_left
    have hheld : s.listeners.flatMap Listener.holds = Slots.held s.slots :=
      Slots.flatMap_held Listener.connections s.listeners
    rw [← Slots.count_held, ← hheld]
    exact List.nodup_iff_count_le_one.mp hnodup c

theorem tabled_initial (config : Config) (threads : Nat) : (initial config threads).Tabled [] where
  exact := by
    intro l listener hl
    have hmem := List.mem_of_getElem? hl
    simp only [initial, List.mem_cons, List.not_mem_nil, or_false, or_self] at hmem
    exact hmem ▸ Listener.Exact.initial
  once := by simp [initial, Listener.initial, Listener.holds]

/-- Accepting fills one slot of one listener, whatever comes of it. -/
theorem Tabled.accept (hs : s.Tabled outside) (hl : s.listeners[l]? = some listener)
    (hroom : listener.hasRoom = true) (outcome : AcceptOutcome) :
    (s.accept l listener outcome).Tabled outside := by
  have hallocated : Tables s.listeners (Function.update s.flags s.next {}) (s.next + 1)
      (s.next :: outside) := hs.allocate
  cases outcome with
  | failed => exact hs
  | noAddress => exact hallocated.forget (List.sublist_cons_self _ _)
  | connected ip tls =>
      simp only [Pipeline.accept]
      split
      next => exact hallocated.forget (List.sublist_cons_self _ _)
      next =>
        split
        next => exact hallocated.forget (List.sublist_cons_self _ _)
        next =>
          have hexact := hallocated.exact l listener hl
          refine hallocated.set hl (hexact.enroll hroom (Function.update_self ..))
            (fun _ _ => rfl) fun d => ?_
          have hperm := (hexact.holds_enroll hroom s.next).count_eq d
          rw [List.count_cons] at hperm ⊢
          omega

theorem Tabled.readEvent (hs : s.Tabled outside) (c : Conn) (event : ReadEvent) :
    (s.readEvent c event).Tabled outside := by
  refine hs.congr fun d _ => ?_
  by_cases heq : d = c
  · subst heq
    cases event with
    | error => simp [Pipeline.readEvent, ReadEvent.mark]
    | hangup => simp [Pipeline.readEvent, ReadEvent.mark]
    | invalid => simp [Pipeline.readEvent, ReadEvent.mark]
    | complete => simp [Pipeline.readEvent, ReadEvent.mark]
    | partly => simp [Pipeline.readEvent, ReadEvent.mark]
    | oddball => simp [Pipeline.readEvent, ReadEvent.mark]
  · simp [Pipeline.readEvent, heq]

/-- Parking takes a connection out of the pollset and leaves it in its slot. -/
theorem Tabled.park (hs : s.Tabled outside) (hl : s.listeners[l]? = some listener)
    (hslot : listener.connections[i]? = some (some c)) :
    (s.park l (listener.park (s.flags c) c) c).Tabled outside := by
  refine hs.setSame hl ((hs.exact l listener hl).park c) (fun d hd => ?_)
    (listener.connections_park (s.flags c) c)
  have hne : d ≠ c := by
    rintro rfl
    exact hd (Slots.mem_held hslot)
  simp [Pipeline.park, setListener, hne]

theorem Tabled.stop (hs : s.Tabled outside) (hl : s.listeners[l]? = some listener) :
    (s.setListener l { listener with running := false }).Tabled outside :=
  hs.setSame hl (hs.exact l listener hl).stop (fun _ _ => rfl) rfl

/-- The slot of a parked connection is cleared. -/
theorem Tabled.release (hs : s.Tabled outside) (hl : s.listeners[l]? = some listener)
    (hslot : listener.connections[i]? = some (some c)) (hout : c ∉ listener.pollset) :
    (s.setListener l (listener.release i)).Tabled (outside ++ [c]) :=
  Tables.release hs hl hslot ((hs.exact l listener hl).release hslot hout) rfl

/-- The slot of a parked connection is cleared and the connection destroyed. -/
theorem Tabled.reap (hs : s.Tabled outside) (hl : s.listeners[l]? = some listener)
    (hslot : listener.connections[i]? = some (some c)) (hout : c ∉ listener.pollset) :
    (s.reap l listener i c).Tabled outside :=
  Tables.forget (hs.release hl hslot hout) (List.sublist_append_left outside [c])

/-- A step that puts nothing into `in_queue` adds nothing to what was seen outside. -/
theorem Tabled.unqueued (hs : s'.Tabled outside)
    (hle : s'.inQueue.items.length ≤ s.inQueue.items.length) :
    s'.Tabled (outside ++ s.queued s') := by
  rw [queued, List.drop_eq_nil_of_le hle, List.append_nil]
  exact hs

/-- Handing over clears the slot, and the connection is outside from then on. -/
theorem Tabled.handoff (hs : s.Tabled outside) (hl : s.listeners[l]? = some listener)
    (hslot : listener.connections[i]? = some (some c)) {late : Bool} {status : QueueStatus}
    (hstep : s.handoff l listener i c late status = some s') :
    s'.Tabled (outside ++ s.queued s') := by
  have hparked := hs.park hl hslot
  have hl' : (s.park l (listener.park (s.flags c) c) c).listeners[l]? =
      some (listener.park (s.flags c) c) := getElem_setListener hl _
  have hslot' : (listener.park (s.flags c) c).connections[i]? = some (some c) := by
    rwa [listener.connections_park]
  have hout := (hs.exact l listener hl).not_mem_park c
  simp only [Pipeline.handoff] at hstep
  split at hstep
  next => cases hstep
  next =>
    cases hstep
    exact (hparked.stop hl').unqueued (Nat.le_refl _)
  next =>
    cases hstep
    split
    next => exact (hparked.reap hl' hslot' hout).unqueued (Nat.le_refl _)
    next => exact hparked.unqueued (Nat.le_refl _)
  next =>
    cases hstep
    exact (hparked.reap hl' hslot' hout).unqueued (Nat.le_refl _)
  next inQueue hpush =>
    cases hstep
    have hqueued : inQueue.items.drop s.inQueue.items.length = [c] := by
      have hitems : inQueue.items = s.inQueue.items ++ [c] := Queue.items_push hpush
      rw [hitems, List.drop_left]
    have hreleased := hparked.release hl' hslot' hout
    rw [← hqueued] at hreleased
    exact hreleased

/-- One slot of the sweep is cleared, handed over or left as it is. -/
theorem Tabled.sweep (hs : s.Tabled outside) (hl : s.listeners[l]? = some listener)
    {late : Bool} {status : QueueStatus} (hstep : s.sweep l listener i late status = some s') :
    s'.Tabled (outside ++ s.queued s') := by
  unfold Pipeline.sweep at hstep
  split at hstep
  next c hslot =>
    split at hstep
    next => exact hs.handoff hl hslot hstep
    next =>
      split at hstep
      next =>
        cases hstep
        have hexact := (hs.exact l listener hl).reap (hs.nodup_holds hl) hslot
        have hcleared := Tables.release hs hl hslot hexact rfl
        have hreaped : (s.reap l (listener.unpoll c) i c).Tabled outside :=
          hcleared.forget (List.sublist_append_left outside [c])
        exact hreaped.unqueued (Nat.le_refl _)
      next =>
        cases hstep
        exact hs.unqueued (Nat.le_refl _)
  next =>
    cases hstep
    exact hs.unqueued (Nat.le_refl _)

/-- What the workers and the output thread do leaves the tables alone and puts
nothing into `in_queue`. -/
structure Aside (s s' : Pipeline) : Prop where
  listeners : s'.listeners = s.listeners
  next : s'.next = s.next
  flags : ∀ c, (s'.flags c).handoffPending = (s.flags c).handoffPending
  inQueue : s'.inQueue.items.length ≤ s.inQueue.items.length

/-- What the other threads do leaves the tables alone. -/
theorem Tabled.aside (hs : s.Tabled outside) (haside : s.Aside s') :
    s'.Tabled (outside ++ s.queued s') := by
  refine Tabled.unqueued ?_ haside.inQueue
  unfold Tabled
  rw [haside.listeners, haside.next]
  exact Tables.congr hs fun c _ => haside.flags c

theorem Aside.refl (s : Pipeline) : s.Aside s := ⟨rfl, rfl, fun _ => rfl, Nat.le_refl _⟩

theorem aside_take {w : Nat} {status : QueueStatus} (hstep : s.take w status = some s') :
    s.Aside s' := by
  unfold Pipeline.take at hstep
  split at hstep
  next => cases hstep
  next c inQueue hpop =>
    cases hstep
    refine ⟨rfl, rfl, fun _ => rfl, ?_⟩
    have hitems := Queue.items_pop hpop
    rw [hitems, List.length_cons]
    exact Nat.le_succ _
  next =>
    cases hstep
    exact ⟨rfl, rfl, fun _ => rfl, Nat.le_refl _⟩

theorem aside_dispatch {w : Nat} {request : Request} {status : QueueStatus}
    (hstep : s.dispatch w c request status = some s') : s.Aside s' := by
  unfold Pipeline.dispatch respond at hstep
  cases hpush : s.outQueue.push true c status with
  | none =>
      simp only [hpush] at hstep
      split at hstep
      next =>
        cases hstep
        exact ⟨rfl, rfl, fun _ => rfl, Nat.le_refl _⟩
      next => cases hstep
      next => cases hstep
  | some outQueue =>
      simp only [hpush] at hstep
      split at hstep
      next =>
        cases hstep
        exact ⟨rfl, rfl, fun _ => rfl, Nat.le_refl _⟩
      next =>
        cases hstep
        exact ⟨rfl, rfl, fun _ => rfl, Nat.le_refl _⟩
      next =>
        cases hstep
        exact ⟨rfl, rfl, fun _ => rfl, Nat.le_refl _⟩

theorem aside_goDown {w : Nat} {worker : Worker} (hstep : s.goDown w worker = some s') :
    s.Aside s' := by
  cases worker with
  | answered c =>
      cases hstep
      exact ⟨rfl, rfl, fun _ => rfl, Nat.le_refl _⟩
  | failed =>
      cases hstep
      exact ⟨rfl, rfl, fun _ => rfl, Nat.le_refl _⟩
  | outTerminated =>
      cases hstep
      exact ⟨rfl, rfl, fun _ => rfl, Nat.le_refl _⟩
  | inTerminated =>
      cases hstep
      exact ⟨rfl, rfl, fun _ => rfl, Nat.le_refl _⟩
  | idle => cases hstep
  | holding c => cases hstep
  | exited => cases hstep

theorem aside_writeEvent (s : Pipeline) (c : Conn) (event : WriteEvent) :
    s.Aside (s.writeEvent c event) := by
  have hflags : ∀ done d, (Function.update s.flags c { s.flags c with done } d).handoffPending =
      (s.flags d).handoffPending := by
    intro done d
    by_cases heq : d = c
    · rw [heq, Function.update_self]
    · rw [Function.update_of_ne heq]
  cases event with
  | hangup => exact ⟨rfl, rfl, hflags true, Nat.le_refl _⟩
  | writable last => exact ⟨rfl, rfl, hflags _, Nat.le_refl _⟩
  | oddball => exact Aside.refl s

theorem aside_outSweep (s : Pipeline) (i : Nat) (late : Bool) : s.Aside (s.outSweep i late) := by
  unfold Pipeline.outSweep
  split
  next =>
    split
    next => exact ⟨rfl, rfl, fun _ => rfl, Nat.le_refl _⟩
    next => exact Aside.refl s
  next => exact Aside.refl s

theorem aside_fetch {status : QueueStatus} (hstep : s.fetch status = some s') : s.Aside s' := by
  unfold Pipeline.fetch at hstep
  split at hstep
  next => cases hstep
  next =>
    cases hstep
    unfold outStore
    split
    next => exact ⟨rfl, rfl, fun _ => rfl, Nat.le_refl _⟩
    next => exact ⟨rfl, rfl, fun _ => rfl, Nat.le_refl _⟩
  next =>
    cases hstep
    split
    next => exact ⟨rfl, rfl, fun _ => rfl, Nat.le_refl _⟩
    next => exact Aside.refl s

theorem inQueue_accept (s : Pipeline) (l : Nat) (listener : Listener) (outcome : AcceptOutcome) :
    (s.accept l listener outcome).inQueue = s.inQueue := by
  cases outcome with
  | failed => rfl
  | noAddress => rfl
  | connected ip tls =>
      simp only [Pipeline.accept]
      split
      next => rfl
      next =>
        split
        next => rfl
        next => rfl

/-- Every step keeps the tables exact, one case for each kind of step. What leaves a table is
outside of all of them from then on. -/
theorem Tabled.step {label : Step} (hs : s.Tabled outside) (hstep : s.step label = some s') :
    s'.Tabled (outside ++ s.queued s') := by
  cases label with
  | accept l outcome =>
      obtain ⟨listener, hl, rfl⟩ := Option.map_eq_some_iff.mp hstep
      split
      next hroom =>
        refine (hs.accept (getElem_of_runningListener hl) hroom outcome).unqueued ?_
        rw [inQueue_accept]
      next => exact hs.aside (Aside.refl s)
  | readEvent l c event =>
      obtain ⟨listener, -, hstep⟩ := Option.bind_eq_some_iff.mp hstep
      split at hstep
      next =>
        cases hstep
        exact (hs.readEvent c event).unqueued (Nat.le_refl _)
      next => cases hstep
  | sweep l i late status =>
      obtain ⟨listener, hl, hstep⟩ := Option.bind_eq_some_iff.mp hstep
      exact hs.sweep (getElem_of_runningListener hl) hstep
  | leave l =>
      obtain ⟨listener, hl, hstep⟩ := Option.bind_eq_some_iff.mp hstep
      split at hstep
      next =>
        cases hstep
        exact (hs.stop (getElem_of_runningListener hl)).unqueued (Nat.le_refl _)
      next => cases hstep
  | take w status =>
      simp only [Pipeline.step] at hstep
      split at hstep
      next => exact hs.aside (aside_take hstep)
      next => cases hstep
  | dispatch w request status =>
      simp only [Pipeline.step] at hstep
      split at hstep
      next => exact hs.aside (aside_dispatch hstep)
      next => cases hstep
  | goDown w =>
      obtain ⟨worker, -, hstep⟩ := Option.bind_eq_some_iff.mp hstep
      exact hs.aside (aside_goDown hstep)
  | writeEvent c event =>
      simp only [Pipeline.step] at hstep
      split at hstep
      next =>
        cases hstep
        exact hs.aside (aside_writeEvent s c event)
      next => cases hstep
  | outSweep i late =>
      simp only [Pipeline.step] at hstep
      split at hstep
      next =>
        cases hstep
        exact hs.aside (aside_outSweep s i late)
      next => cases hstep
  | fetch status =>
      simp only [Pipeline.step] at hstep
      split at hstep
      next => exact hs.aside (aside_fetch hstep)
      next => cases hstep

/-- A connection that is admitted is put into the table of its listener, and one that is
refused changes no table. -/
theorem listeners_accept (s : Pipeline) (l : Nat) {listener : Listener}
    (hroom : listener.hasRoom = true) (outcome : AcceptOutcome) :
    (s.Admits listener outcome →
        (s.accept l listener outcome).listeners = s.listeners.set l (listener.enroll s.next)) ∧
      (¬ s.Admits listener outcome → (s.accept l listener outcome).listeners = s.listeners) := by
  cases outcome with
  | failed => exact ⟨False.elim, fun _ => rfl⟩
  | noAddress => exact ⟨False.elim, fun _ => rfl⟩
  | connected ip tls =>
      simp only [Pipeline.accept, Admits]
      split
      next hmany =>
        refine ⟨fun hadmits => absurd hadmits.2.1 (Int.not_le_of_gt hmany), fun _ => rfl⟩
      next hfew =>
        cases tls with
        | false => exact ⟨fun hadmits => absurd hadmits.2.2 Bool.false_ne_true, fun _ => rfl⟩
        | true =>
            refine ⟨fun _ => rfl, fun hrefused => ?_⟩
            exact absurd ⟨hroom, Int.not_lt.mp hfew, rfl⟩ hrefused

/-- The table of a listener with room has a slot for the connection that comes, and none other
than this slot gets it. -/
theorem Tabled.stores (hs : s.Tabled outside) (hs' : s'.Tabled outside)
    (hl : s.listeners[l]? = some listener) (hroom : listener.hasRoom = true)
    (hset : s'.listeners = s.listeners.set l (listener.enroll s.next)) :
    s.Stores s' l listener := by
  obtain ⟨hlength, -⟩ := List.getElem?_eq_some_iff.mp hl
  have hheld : s.next ∈ (listener.enroll s.next).holds :=
    ((hs.exact l listener hl).holds_enroll hroom s.next).mem_iff.mpr List.mem_cons_self
  have hslot := Slots.mem_held_iff.mp hheld
  have hafter : s'.listeners[l]? = some (listener.enroll s.next) := by
    rw [hset, List.getElem?_set_self hlength]
  refine ⟨?_, listener.enroll s.next, hafter, hslot, List.mem_cons_self, rfl⟩
  have hmem : some s.next ∈ s'.slots :=
    List.mem_flatMap.mpr ⟨_, List.mem_of_getElem? hafter, hslot⟩
  have hpos := List.count_pos_iff.mpr hmem
  have honce := hs'.booked.once s.next
  omega

theorem Tabled.storesAdmitted (hs : s.Tabled outside) (label : Step) : s.StoresAdmitted label := by
  cases label with
  | accept l outcome =>
      intro listener next hl hstep
      have hrunning := getElem_of_runningListener hl
      simp only [Pipeline.step, hl, Option.map_some, Option.some.injEq] at hstep
      subst hstep
      split
      next hroom =>
        obtain ⟨hadmitted, hrefused⟩ := s.listeners_accept l hroom outcome
        refine ⟨fun hadmits => ?_, hrefused⟩
        exact hs.stores (hs.accept hrunning hroom outcome) hrunning hroom (hadmitted hadmits)
      next hfull =>
        refine ⟨fun hadmits => ?_, fun _ => rfl⟩
        cases outcome with
        | connected ip tls => exact absurd hadmits.1 hfull
        | failed => exact hadmits.elim
        | noAddress => exact hadmits.elim
  | readEvent l c event => trivial
  | sweep l i late status => trivial
  | leave l => trivial
  | take w status => trivial
  | dispatch w request status => trivial
  | goDown w => trivial
  | writeEvent c event => trivial
  | outSweep i late => trivial
  | fetch status => trivial

end Steps

/-- In every run the counter of a listener is the number of its slots in use and at
most 499, every connection that is admitted is put into exactly one slot, counted and
polled, a connection is polled exactly while it is in a slot without waiting for a
handoff, and no connection is put into `in_queue` twice. -/
theorem listeners_booked (config : Config) (threads : Nat) (run : List Step) :
    Always step Booked (initial config threads) run ∧
      EachStep step StoresAdmitted (initial config threads) run ∧
      (collected step queued (initial config threads) run).Nodup := by
  have hinitial := tabled_initial config threads
  have hkeep : ∀ s label s', (∃ outside, Tabled s outside) → step s label = some s' →
      ∃ outside, Tabled s' outside := by
    rintro s label s' ⟨outside, hs⟩ hstep
    exact ⟨outside ++ s.queued s', hs.step hstep⟩
  refine ⟨?_, ?_, ?_⟩
  · exact (always_of_invariant hkeep ⟨[], hinitial⟩ run).mono fun s ⟨_, hs⟩ => hs.booked
  · exact eachStep_of_invariant hkeep (fun s label _ ⟨_, hs⟩ _ => hs.storesAdmitted label)
      ⟨[], hinitial⟩ run
  · have hstep : ∀ s label s' seen, Tabled s seen → step s label = some s' →
        Tabled s' (seen ++ s.queued s') := fun _ _ _ _ hs hstep => hs.step hstep
    obtain ⟨last, hlast⟩ := exists_inv_collected hstep hinitial run
    exact hlast.nodup.of_append_right

end Pipeline

end DbSlayer.Server
