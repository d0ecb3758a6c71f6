import DbSlayer.CLib.Strings
import DbSlayer.Foundation.Steps
import DbSlayer.Foundation.Tally

/-! # Connections per address

`slayer_http_connection_count_increment` and `slayer_http_connection_close` keep
one counter for each remote address and a gauge of all connections, under
`connection_counts_mutex`. The flag that tells whether a connection still counts
is tested before the mutex is taken.
-/

namespace DbSlayer.Server

open Foundation

/-- A connection, by the pool it lives in. -/
abbrev Conn := Nat

def maxConnectionsPerIp : Int := 50

/-- What the two functions read and write. -/
structure Counters where
  connectionCounts : Tally Bytes
  activeConnections : Int
  connectionCounted : Conn → Bool
  remoteIp : Conn → Bytes

namespace Counters

def initial : Counters where
  connectionCounts := Tally.empty
  activeConnections := 0
  connectionCounted := fun _ => false
  remoteIp := fun _ => []

def slayerHttpConnectionCountIncrement (s : Counters) (c : Conn) : Int × Counters :=
  let ip := s.remoteIp c
  let current := (s.connectionCounts.get ip).getD 0 + 1
  (current, { s with
    connectionCounts := s.connectionCounts.set ip (some current)
    connectionCounted := Function.update s.connectionCounted c true
    activeConnections := s.activeConnections + 1 })

/-- The listener notes the address of a new connection and counts it. -/
def accept (s : Counters) (c : Conn) (ip : Bytes) : Int × Counters :=
  slayerHttpConnectionCountIncrement { s with remoteIp := Function.update s.remoteIp c ip } c

/-- The part of `slayer_http_connection_close` under the mutex. -/
def decrement (s : Counters) (c : Conn) : Counters :=
  let ip := s.remoteIp c
  { s with
    connectionCounts :=
      match s.connectionCounts.get ip with
      | none => s.connectionCounts
      | some count =>
          s.connectionCounts.set ip (if count - 1 = 0 then none else some (count - 1))
    connectionCounted := Function.update s.connectionCounted c false
    activeConnections := s.activeConnections - 1 }

/-- A call of `slayer_http_connection_close` that nothing interrupts. -/
def slayerHttpConnectionClose (s : Counters) (c : Conn) : Counters :=
  if s.connectionCounted c then s.decrement c else s

/-- An address over the limit leaves no mark when its connection is closed at once. -/
theorem close_rejected (s : Counters) (c : Conn) (ip : Bytes)
    (hover : maxConnectionsPerIp < (s.accept c ip).1) :
    ((s.accept c ip).2.slayerHttpConnectionClose c).connectionCounts = s.connectionCounts ∧
      ((s.accept c ip).2.slayerHttpConnectionClose c).activeConnections = s.activeConnections := by
  obtain ⟨count, hget⟩ : ∃ count, s.connectionCounts.get ip = some count := by
    cases hget : s.connectionCounts.get ip with
    | none => simp [accept, slayerHttpConnectionCountIncrement, maxConnectionsPerIp, hget] at hover
    | some count => exact ⟨count, rfl⟩
  have hpos : count ≠ 0 := by
    rintro rfl
    simp [accept, slayerHttpConnectionCountIncrement, maxConnectionsPerIp, hget] at hover
  constructor
  · apply Tally.ext
    intro other
    by_cases heq : other = ip
    · subst heq
      simp [accept, slayerHttpConnectionCountIncrement, slayerHttpConnectionClose, decrement,
        Tally.get_set, hget, hpos]
    · simp [accept, slayerHttpConnectionCountIncrement, slayerHttpConnectionClose, decrement,
        Tally.get_set, hget, heq]
  · simp [accept, slayerHttpConnectionCountIncrement, slayerHttpConnectionClose, decrement]

end Counters

/-- The counters together with the calls under way and what became of the
connections so far. -/
structure Traffic where
  counters : Counters
  /-- Calls of `slayer_http_connection_close` between the test and the mutex. -/
  waiting : List Conn
  /-- Every connection that was counted. -/
  accepted : List Conn
  /-- Those not closed yet. -/
  opened : List Conn
  /-- Those counted within the limit. -/
  admitted : List Conn

namespace Traffic

def initial : Traffic := ⟨Counters.initial, [], [], [], []⟩

/-- The critical sections, and the test in front of the second one. -/
inductive Step where
  | accept (c : Conn) (ip : Bytes)
  | close (c : Conn)
  | decrement (c : Conn)
deriving DecidableEq, Repr

def accept (s : Traffic) (c : Conn) (ip : Bytes) : Traffic :=
  let (current, counters) := s.counters.accept c ip
  { s with
    counters
    accepted := c :: s.accepted
    opened := c :: s.opened
    admitted := if current ≤ maxConnectionsPerIp then c :: s.admitted else s.admitted }

def decrement (s : Traffic) (c : Conn) : Traffic :=
  { s with
    counters := s.counters.decrement c
    waiting := s.waiting.erase c
    opened := s.opened.erase c }

def step (s : Traffic) : Step → Option Traffic
  | .accept c ip =>
      -- a connection is a fresh allocation, and one listener accepts it
      if c ∈ s.accepted then none else some (s.accept c ip)
  | .close c =>
      if s.counters.connectionCounted c then some { s with waiting := c :: s.waiting } else some s
  | .decrement c => if c ∈ s.waiting then some (s.decrement c) else none

/-- The connections of an address that are counted and not closed. -/
def openedFrom (s : Traffic) (ip : Bytes) : List Conn :=
  s.opened.filter fun c => s.counters.remoteIp c = ip

/-- The table and the gauge tell the truth about the open connections. -/
structure Accounted (s : Traffic) : Prop where
  present : ∀ ip, (s.counters.connectionCounts.get ip).isSome ↔ s.openedFrom ip ≠ []
  exact : ∀ ip count, s.counters.connectionCounts.get ip = some count →
    count = (s.openedFrom ip).length
  total : s.counters.activeConnections = s.counters.connectionCounts.total
  nonneg : 0 ≤ s.counters.activeConnections
  limit : ∀ ip, ((s.openedFrom ip).filter (· ∈ s.admitted)).length ≤ maxConnectionsPerIp
  rejected : ∀ c ip, maxConnectionsPerIp < (s.counters.accept c ip).1 →
    ((s.counters.accept c ip).2.slayerHttpConnectionClose c).connectionCounts =
        s.counters.connectionCounts ∧
      ((s.counters.accept c ip).2.slayerHttpConnectionClose c).activeConnections =
        s.counters.activeConnections

/-- No other call has uncounted the connection since this one tested it. -/
def StillCounted (s : Traffic) : Step → Prop
  | .decrement c => s.counters.connectionCounted c = true
  | _ => True

/-- `Accounted`, with what ties the flags to the open connections. -/
structure Consistent (s : Traffic) : Prop where
  nodup : s.opened.Nodup
  accepted : ∀ c ∈ s.opened, c ∈ s.accepted
  admitted : ∀ c ∈ s.admitted, c ∈ s.accepted
  counted : ∀ c, s.counters.connectionCounted c = true ↔ c ∈ s.opened
  counts : s.counters.connectionCounts.Counts (s.opened.map s.counters.remoteIp)
  active : s.counters.activeConnections = s.opened.length
  limit : ∀ ip, ((s.openedFrom ip).filter (· ∈ s.admitted)).length ≤ maxConnectionsPerIp

/-- An address has an open connection exactly when some connection was accepted from it. -/
theorem openedFrom_ne_nil (s : Traffic) (ip : Bytes) :
    s.openedFrom ip ≠ [] ↔ ip ∈ s.opened.map s.counters.remoteIp := by
  simp [openedFrom, List.filter_eq_nil_iff]

/-- Nothing is open and nothing is counted at the start. -/
theorem consistent_initial : Consistent initial where
  nodup := List.nodup_nil
  accepted := by simp [initial]
  admitted := by simp [initial]
  counted := by simp [initial, Counters.initial]
  counts := Tally.counts_empty
  active := rfl
  limit := by simp [initial, openedFrom, maxConnectionsPerIp]

theorem Consistent.accounted {s : Traffic} (hs : Consistent s) : Accounted s where
  present := by
    intro ip
    rw [openedFrom_ne_nil, hs.counts ip]
    split
    next hmem => simp [hmem]
    next hmem => simp [hmem]
  exact := by
    intro ip count hget
    have hgetD := hs.counts.getD ip
    rw [hget, ← Tally.length_filter_eq_count] at hgetD
    exact hgetD
  total := by rw [hs.active, hs.counts.total_eq_length, List.length_map]
  nonneg := by
    rw [hs.active]
    exact Int.natCast_nonneg _
  limit := hs.limit
  rejected := s.counters.close_rejected

theorem Accounted.counts {s : Traffic} (hs : Accounted s) :
    s.counters.connectionCounts.Counts (s.opened.map s.counters.remoteIp) := by
  intro ip
  have hpresent := hs.present ip
  rw [openedFrom_ne_nil] at hpresent
  cases hget : s.counters.connectionCounts.get ip with
  | none =>
      rw [hget] at hpresent
      rw [if_neg fun hmem => by simpa using hpresent.mpr hmem]
  | some count =>
      rw [hget] at hpresent
      rw [if_pos (hpresent.mp rfl), ← Tally.length_filter_eq_count, hs.exact ip count hget]
      rfl

section Accept

variable {s : Traffic} {c : Conn} {ip : Bytes}

theorem remoteIp_accept (hnew : c ∉ s.opened) :
    ∀ d ∈ s.opened, (s.accept c ip).counters.remoteIp d = s.counters.remoteIp d := by
  intro d hd
  have hne : d ≠ c := fun heq => hnew (heq ▸ hd)
  exact Function.update_of_ne hne _ _

/-- Accepting a connection opens one from its own address. -/
theorem openedFrom_accept (hnew : c ∉ s.opened) (other : Bytes) :
    (s.accept c ip).openedFrom other =
      if ip = other then c :: s.openedFrom other else s.openedFrom other := by
  have htail : s.opened.filter (fun d => (s.accept c ip).counters.remoteIp d = other) =
      s.openedFrom other := by
    refine List.filter_congr fun d hd => ?_
    rw [remoteIp_accept hnew d hd]
  have hhead : (s.accept c ip).counters.remoteIp c = ip := Function.update_self _ _ _
  calc (s.accept c ip).openedFrom other
      = (c :: s.opened).filter (fun d => (s.accept c ip).counters.remoteIp d = other) := rfl
    _ = if ip = other then c :: s.openedFrom other else s.openedFrom other := by
        simp only [List.filter_cons, hhead, htail, decide_eq_true_eq]

/-- The result of the increment is the number of open connections, the new one included. -/
theorem Consistent.current_accept (hs : Consistent s) :
    (s.counters.accept c ip).1 = (s.openedFrom ip).length + 1 := by
  simp only [Counters.accept, Counters.slayerHttpConnectionCountIncrement,
    Function.update_self, hs.counts.getD, ← Tally.length_filter_eq_count]
  rfl

/-- A new connection is admitted only when there is room for it under its address, since the
result of the increment counts it already. -/
theorem Consistent.limit_accept (hs : Consistent s) (hfresh : c ∉ s.accepted) (other : Bytes) :
    (((s.accept c ip).openedFrom other).filter (· ∈ (s.accept c ip).admitted)).length ≤
      maxConnectionsPerIp := by
  have hnew : c ∉ s.opened := fun hmem => hfresh (hs.accepted c hmem)
  have hadmitted : (s.accept c ip).admitted =
      if (s.openedFrom ip).length + 1 ≤ maxConnectionsPerIp then c :: s.admitted
      else s.admitted := by
    rw [← hs.current_accept (c := c)]
    rfl
  have hold : (s.openedFrom other).filter (· ∈ c :: s.admitted) =
      (s.openedFrom other).filter (· ∈ s.admitted) := by
    refine List.filter_congr fun d hd => ?_
    have hne : d ≠ c := fun heq => hnew (heq ▸ List.mem_of_mem_filter hd)
    simp [hne]
  have hlimit := hs.limit other
  rw [openedFrom_accept hnew, hadmitted]
  by_cases heq : ip = other
  · subst heq
    rw [if_pos rfl]
    split
    next hroom =>
      have hle := List.length_filter_le (· ∈ c :: s.admitted) (c :: s.openedFrom ip)
      rw [List.length_cons] at hle
      omega
    next =>
      have hout : c ∉ s.admitted := fun hmem => hfresh (hs.admitted c hmem)
      rwa [List.filter_cons_of_neg (by simpa using hout)]
  · rw [if_neg heq]
    split
    next => rwa [hold]
    next => exact hlimit

/-- Accepting keeps the counts right, given that the connection is a new one: its address is
counted once more. -/
theorem Consistent.accept (hs : Consistent s) (hfresh : c ∉ s.accepted) :
    Consistent (s.accept c ip) where
  nodup := List.nodup_cons.mpr ⟨fun hmem => hfresh (hs.accepted c hmem), hs.nodup⟩
  accepted := List.cons_subset_cons c hs.accepted
  admitted := by
    intro d hd
    simp only [Traffic.accept] at hd
    split at hd
    · exact List.cons_subset_cons c hs.admitted hd
    · exact List.mem_cons_of_mem c (hs.admitted d hd)
  counted := by
    intro d
    by_cases hd : d = c
    · simp [Traffic.accept, Counters.accept, Counters.slayerHttpConnectionCountIncrement, hd]
    · simp [Traffic.accept, Counters.accept, Counters.slayerHttpConnectionCountIncrement, hd,
        hs.counted]
  counts := by
    have hnew : c ∉ s.opened := fun hmem => hfresh (hs.accepted c hmem)
    have hmap : s.opened.map (s.accept c ip).counters.remoteIp =
        s.opened.map s.counters.remoteIp := List.map_congr_left (remoteIp_accept hnew)
    have hbump := hs.counts.bump ip
    rw [← hmap] at hbump
    simpa [Traffic.accept, Counters.accept, Counters.slayerHttpConnectionCountIncrement] using hbump
  active := by
    simp [Traffic.accept, Counters.accept, Counters.slayerHttpConnectionCountIncrement, hs.active]
  limit := hs.limit_accept hfresh

end Accept

theorem Consistent.decrement {s : Traffic} (hs : Consistent s) {c : Conn}
    (hcounted : s.counters.connectionCounted c = true) : Consistent (s.decrement c) := by
  have hmem : c ∈ s.opened := (hs.counted c).mp hcounted
  have hperm : (s.opened.map s.counters.remoteIp).Perm
      (s.counters.remoteIp c :: (s.opened.erase c).map s.counters.remoteIp) :=
    (List.perm_cons_erase hmem).map s.counters.remoteIp
  refine ⟨hs.nodup.erase c, fun d hd => hs.accepted d (List.mem_of_mem_erase hd), hs.admitted,
    ?_, ?_, ?_, ?_⟩
  · intro d
    by_cases hd : d = c
    · simp [Traffic.decrement, Counters.decrement, hd, hs.nodup.mem_erase_iff]
    · simp [Traffic.decrement, Counters.decrement, hd, hs.nodup.mem_erase_iff, hs.counted]
  · obtain ⟨count, hget⟩ : ∃ count,
        s.counters.connectionCounts.get (s.counters.remoteIp c) = some count :=
      ⟨_, (hs.counts _).trans (if_pos (List.mem_map_of_mem hmem))⟩
    simpa [Traffic.decrement, Counters.decrement, hget] using (hs.counts.perm hperm).drop hget
  · have hlength : (s.opened.erase c).length + 1 = s.opened.length :=
      List.length_erase_add_one hmem
    calc s.counters.activeConnections - 1
        = s.opened.length - 1 := by rw [hs.active]
      _ = (s.opened.erase c).length := by omega
  · intro ip
    have hsub : ((s.opened.erase c).filter fun d => s.counters.remoteIp d = ip).Sublist
        (s.openedFrom ip) := List.erase_sublist.filter _
    have hlength := (hsub.filter (· ∈ s.admitted)).length_le
    exact le_trans (Int.ofNat_le.mpr hlength) (hs.limit ip)

/-- A step keeps the counters in order, when a decrement is of a connection that
still counts. -/
theorem Consistent.step {s s' : Traffic} {i : Step} (hs : Consistent s) (hstill : s.StillCounted i)
    (hstep : s.step i = some s') : Consistent s' := by
  cases i with
  | accept c ip =>
      simp only [Traffic.step] at hstep
      split at hstep
      next => simp at hstep
      next hfresh =>
        cases hstep
        exact hs.accept hfresh
  | close c =>
      -- the test writes nothing
      simp only [Traffic.step] at hstep
      split at hstep
      next =>
        cases hstep
        exact ⟨hs.nodup, hs.accepted, hs.admitted, hs.counted, hs.counts, hs.active, hs.limit⟩
      next =>
        cases hstep
        exact hs
  | decrement c =>
      simp only [Traffic.step] at hstep
      split at hstep
      next =>
        cases hstep
        exact hs.decrement hstill
      next => simp at hstep

/-- A second decrement takes the gauge below the number of open connections. -/
theorem Consistent.stillCounted {s s' : Traffic} {i : Step} (hs : Consistent s)
    (hstep : s.step i = some s') (hafter : Accounted s') : s.StillCounted i := by
  cases i with
  | accept c ip => trivial
  | close c => trivial
  | decrement c =>
      by_contra hcounted
      have hnot : c ∉ s.opened := fun hmem => hcounted ((hs.counted c).mpr hmem)
      simp only [Traffic.step] at hstep
      split at hstep
      next =>
        cases hstep
        have htotal := hafter.total
        rw [hafter.counts.total_eq_length] at htotal
        simp [Traffic.decrement, Counters.decrement, hs.active, List.erase_of_not_mem hnot]
          at htotal
      next => simp at hstep

/-- A run keeps the account exactly when each decrement of it finds its connection
still counted: no two calls of `slayer_http_connection_close` on one connection
both pass the test before the first of them takes the mutex. -/
theorem accounted_iff_stillCounted (run : List Step) :
    Always step Accounted initial run ↔ EachStep step StillCounted initial run :=
  always_iff_eachStep (fun _ hs => hs.accounted) (fun _ _ _ hs hstill hstep => hs.step hstill hstep)
    (fun _ _ _ hs hstep hafter => hs.stillCounted hstep hafter) consistent_initial run

/-- Two threads close one connection; each sees it counted. -/
def closedTwice : List Step :=
  [.accept 0 (bytes "10.0.0.1"), .close 0, .close 0, .decrement 0, .decrement 0]

/-- The gauge goes below zero, and as an unsigned word to its largest value. -/
theorem closedTwice_underflows : ¬ Always step Accounted initial closedTwice := by
  intro halways
  obtain ⟨-, haccept⟩ := halways
  obtain ⟨-, hfirst⟩ := haccept _ rfl
  obtain ⟨-, hsecond⟩ := hfirst _ rfl
  obtain ⟨-, hone⟩ := hsecond _ rfl
  obtain ⟨-, htwo⟩ := hone _ rfl
  have hnonneg := (htwo _ rfl).nonneg
  exact absurd hnonneg (by decide)

end Traffic

end DbSlayer.Server
