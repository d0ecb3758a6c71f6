import DbSlayer.Server.Custody

/-! # The table of a listener

`connections_count` counts the slots in use, so the search for a free slot does
not fail, and only connections of the table that wait for no handoff are polled.
-/

namespace DbSlayer.Server

open Foundation

theorem Listener.not_mem_unpoll (listener : Listener) (c : Conn) :
    c ∉ (listener.unpoll c).pollset := by
  simp [unpoll]

theorem Listener.connections_park (listener : Listener) (flags : Flags) (c : Conn) :
    (listener.park flags c).connections = listener.connections := by
  unfold Listener.park
  split
  next => rfl
  next => rfl

/-- The bookkeeping of a listener's table. -/
structure Listener.Sound (listener : Listener) (flags : Conn → Flags) : Prop where
  size : listener.connections.length = tableSize
  count : listener.connectionsCount = listener.holds.length
  polled : ∀ c ∈ listener.pollset, c ∈ listener.holds ∧ (flags c).handoffPending = false

namespace Listener.Sound

variable {listener : Listener} {flags : Conn → Flags}

theorem initial : Listener.initial.Sound flags where
  size := List.length_replicate
  count := by simp [Listener.initial, holds]
  polled := by simp [Listener.initial]

/-- A table stays sound under flags that say nothing new about a polled connection. -/
theorem congr {after : Conn → Flags} (hsound : listener.Sound flags)
    (hsame : ∀ c ∈ listener.pollset, (flags c).handoffPending = false →
      (after c).handoffPending = false) : listener.Sound after where
  size := hsound.size
  count := hsound.count
  polled := by
    intro c hc
    obtain ⟨hheld, hpending⟩ := hsound.polled c hc
    exact ⟨hheld, hsame c hc hpending⟩

/-- The search for a free slot does not fail in a table with room, since it counts the slots
that are taken. -/
theorem exists_store (hsound : listener.Sound flags) (hroom : listener.hasRoom = true) (c : Conn) :
    ∃ connections, Slots.store listener.connections c = some connections := by
  refine Slots.exists_store ?_ c
  have hcount := hsound.count
  simp only [hasRoom, Bool.and_eq_true, decide_eq_true_eq] at hroom
  rw [hsound.size]
  rw [holds] at hcount
  omega

/-- Enrolling adds one connection to what the table holds. -/
theorem holds_enroll (hsound : listener.Sound flags) (hroom : listener.hasRoom = true) (c : Conn) :
    (listener.enroll c).holds.Perm (c :: listener.holds) := by
  obtain ⟨connections, hstore⟩ := hsound.exists_store hroom c
  simpa [holds, enroll, hstore] using Slots.store_perm hstore

theorem enroll (hsound : listener.Sound flags) (hroom : listener.hasRoom = true) (c : Conn) :
    (listener.enroll c).Sound (Function.update flags c {}) where
  size := by
    obtain ⟨connections, hstore⟩ := hsound.exists_store hroom c
    simpa [Listener.enroll, hstore] using (Slots.length_store hstore).trans hsound.size
  count := by
    rw [(hsound.holds_enroll hroom c).length_eq, List.length_cons, Nat.cast_add_one, ← hsound.count]
    rfl
  polled := by
    intro d hd
    have hheld := (hsound.holds_enroll hroom c).mem_iff (a := d)
    by_cases heq : d = c
    · subst heq
      exact ⟨hheld.mpr List.mem_cons_self, by simp⟩
    · have hd : d ∈ listener.pollset := (List.mem_cons.mp hd).resolve_left heq
      obtain ⟨hold, hpending⟩ := hsound.polled d hd
      exact ⟨hheld.mpr (List.mem_cons_of_mem c hold), by rwa [Function.update_of_ne heq]⟩

theorem holds_release {i : Nat} {c : Conn} (hslot : listener.connections[i]? = some (some c)) :
    listener.holds.Perm (c :: (listener.release i).holds) := Slots.clear_perm hslot

/-- A slot may be cleared once its connection is not polled. -/
theorem release (hsound : listener.Sound flags) {i : Nat} {c : Conn}
    (hslot : listener.connections[i]? = some (some c)) (hout : c ∉ listener.pollset) :
    (listener.release i).Sound flags where
  size := List.length_set.trans hsound.size
  count := by
    have hlength := (holds_release hslot).length_eq
    have hcount : (listener.release i).connectionsCount = listener.connectionsCount - 1 := rfl
    rw [List.length_cons] at hlength
    rw [hcount, hsound.count, hlength]
    omega
  polled := by
    intro d hd
    obtain ⟨hold, hpending⟩ := hsound.polled d hd
    have hne : d ≠ c := fun heq => hout (heq ▸ hd)
    exact ⟨(List.mem_cons.mp ((holds_release hslot).mem_iff.mp hold)).resolve_left hne, hpending⟩

theorem unpoll (hsound : listener.Sound flags) (c : Conn) : (listener.unpoll c).Sound flags where
  size := hsound.size
  count := hsound.count
  polled := fun d hd => hsound.polled d (List.mem_of_mem_filter hd)

theorem stop (hsound : listener.Sound flags) : { listener with running := false }.Sound flags where
  size := hsound.size
  count := hsound.count
  polled := hsound.polled

/-- Parking keeps a table sound, as it marks what it takes out of the pollset. -/
theorem park (hsound : listener.Sound flags) (c : Conn) :
    (listener.park (flags c) c).Sound flags := by
  unfold Listener.park
  split
  next => exact hsound
  next => exact hsound.unpoll c

/-- A parked connection is not polled. -/
theorem not_mem_park (hsound : listener.Sound flags) (c : Conn) :
    c ∉ (listener.park (flags c) c).pollset := by
  unfold Listener.park
  split
  next hpending =>
    intro hc
    have hpolled := (hsound.polled c hc).2
    rw [hpending] at hpolled
    cases hpolled
  next => exact listener.not_mem_unpoll c

end Listener.Sound

end DbSlayer.Server
