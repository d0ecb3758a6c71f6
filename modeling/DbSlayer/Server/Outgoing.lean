import DbSlayer.Server.Course
import DbSlayer.Server.Frames

/-! # The bookkeeping of the output thread

Every connection is in at most one place of its course, also while the server
goes down. So the output thread polls exactly the connections in its slots, its
counter is their number, and it waits for `out_queue` only when it has nothing to
send.
-/

namespace DbSlayer.Server

open Foundation

/-! ## One place at a time -/

namespace Course

/-- The places that connections pass on their way, in order. -/
def way (k : Course) : Multiset Conn :=
  k.tables + k.inQueue + k.hands + k.outQueue + k.slots

/-- No connection is in two places, and none that is still to come is in one. -/
def Once (k : Course) : Prop := ∀ c, k.way.count c ≤ if c < k.next then 1 else 0

/-- What is on its way is counted place by place. -/
theorem count_way (k : Course) (c : Conn) :
    k.way.count c = k.tables.count c + k.inQueue.count c + k.hands.count c +
      k.outQueue.count c + k.slots.count c := by
  simp only [way, Multiset.count_add, Multiset.coe_count]

theorem count_snoc (queue : List Conn) (c d : Conn) :
    (queue ++ [d]).count c = queue.count c + if c = d then 1 else 0 := by
  rw [List.count_append, List.count_singleton]
  simp only [beq_iff_eq, @eq_comm _ d c]

theorem count_first (queue : List Conn) (c d : Conn) :
    (d :: queue).count c = queue.count c + if c = d then 1 else 0 := by
  rw [List.count_cons]
  simp only [beq_iff_eq, @eq_comm _ d c]

/-- Where no count has grown, every connection is still on its way once. -/
theorem Once.of_count_le {k k' : Course} (honce : k.Once) (hnext : k'.next = k.next)
    (hcount : ∀ c, k'.way.count c ≤ k.way.count c) : k'.Once := by
  intro c
  rw [hnext]
  exact Nat.le_trans (hcount c) (honce c)

/-- A connection that is new is in no place yet, so it may be put into one and is on its way
once. -/
theorem Once.fresh {k k' : Course} (honce : k.Once) (hnext : k'.next = k.next + 1)
    (hcount : ∀ c, k'.way.count c ≤ k.way.count c + if c = k.next then 1 else 0) : k'.Once := by
  intro c
  have hbound := honce c
  have hgrown := hcount c
  rw [hnext]
  by_cases heq : c = k.next
  · subst heq
    rw [if_neg (Nat.lt_irrefl k.next)] at hbound
    rw [if_pos rfl] at hgrown
    rw [if_pos (Nat.lt_succ_self k.next)]
    omega
  · rw [if_neg heq, Nat.add_zero] at hgrown
    by_cases hlt : c < k.next
    · rw [if_pos hlt] at hbound
      rw [if_pos (Nat.lt_succ_of_lt hlt)]
      omega
    · rw [if_neg hlt] at hbound
      omega

end Course

section Moves

open Course

/-- A move keeps every connection on its way once, since it takes from one place what it puts
into another. -/
theorem Move.once {k k' : Course} {deeds : List Deed} (hmove : Move k deeds k')
    (honce : k.Once) : k'.Once := by
  cases hmove with
  | idle => exact honce
  | read hc => exact honce
  | write hc => exact honce
  | refuse =>
      refine honce.fresh rfl fun c => ?_
      simp only [count_way]
      exact Nat.le_add_right _ _
  | enter =>
      refine honce.fresh rfl fun c => ?_
      simp only [count_way, Multiset.count_cons]
      omega
  | reap hc =>
      refine honce.of_count_le rfl fun c => ?_
      simp only [count_way, hc, Multiset.count_cons]
      omega
  | queue hc =>
      refine honce.of_count_le rfl fun c => ?_
      simp only [count_way, hc, Multiset.count_cons, count_snoc]
      omega
  | take hc =>
      refine honce.of_count_le rfl fun c => ?_
      simp only [count_way, hc, Multiset.count_cons, count_first]
      omega
  | dismiss hc =>
      refine honce.of_count_le rfl fun c => ?_
      simp only [count_way, hc, Multiset.count_cons]
      omega
  | reply hc =>
      refine honce.of_count_le rfl fun c => ?_
      simp only [count_way, hc, Multiset.count_cons, count_snoc]
      omega
  | lose hc =>
      refine honce.of_count_le rfl fun c => ?_
      simp only [count_way, hc, Multiset.count_cons]
      omega
  | replyLeaving hc =>
      refine honce.of_count_le rfl fun c => ?_
      simp only [count_way, hc, Multiset.count_cons, count_snoc]
      omega
  | leave hc =>
      refine honce.of_count_le rfl fun c => ?_
      simp only [count_way, hc, Multiset.count_cons]
      omega
  | quit hc => exact honce
  | fetch hc =>
      refine honce.of_count_le rfl fun c => ?_
      simp only [count_way, hc, Multiset.count_cons, count_first]
      omega
  | overflow hc =>
      refine honce.of_count_le rfl fun c => ?_
      simp only [count_way, hc, count_first]
      omega
  | finish hc =>
      refine honce.of_count_le rfl fun c => ?_
      simp only [count_way, hc, Multiset.count_cons]
      omega

end Moves

/-! ## The table of the output thread -/

/-- The counter is the number of the slots in use, and what is polled is what is in the
slots. -/
structure Output.Booked (output : Output) : Prop where
  counted : output.connectionCount = output.connections.countP Option.isSome
  bounded : output.connectionCount ≤ 500
  once : ∀ c, output.connections.count (some c) ≤ 1
  polledOnce : output.pollset.Nodup
  polled : ∀ c, c ∈ output.pollset ↔ some c ∈ output.connections

namespace Pipeline

/-- With `out_queue` empty the output thread goes on, not waiting for the queue, exactly
while it has something to send. -/
def WaitsWhenIdle (s : Pipeline) : Prop :=
  s.output.running = true → s.outQueue.items = [] →
    ((s.step (.fetch .eagain)).isSome = true ↔ ∃ c, some c ∈ s.output.connections)

/-- A connection of the output thread is to be given up: it is done, or its time is over. -/
def Finished (s : Pipeline) (i : Nat) (late : Bool) (c : Conn) : Prop :=
  s.output.connections[i]? = some (some c) ∧ ((s.flags c).done = true ∨ late = true)

/-- The sweep closes a connection that is finished and forgets it, and where there is none
it leaves everything as it is. -/
def ClosesFinished (s : Pipeline) : Step → Prop
  | .outSweep i late => ∀ next, s.step (.outSweep i late) = some next →
      (∀ c, s.Finished i late c → some c ∉ next.output.connections ∧ c ∉ next.output.pollset ∧
        next.log = s.log ++ [.closed c, .destroyed c]) ∧
      ((∀ c, ¬ s.Finished i late c) → next = s)
  | _ => True

end Pipeline

/-- The counter, the slots and the pollset agree. -/
structure Output.Exact (output : Output) : Prop where
  size : output.connections.length = tableSize
  counted : output.connectionCount = (Slots.held output.connections).length
  nodup : (Slots.held output.connections).Nodup
  polled : output.pollset.Perm (Slots.held output.connections)

theorem Output.Exact.booked {output : Output} (hexact : output.Exact) : output.Booked where
  counted := by rw [hexact.counted, Slots.length_held]
  bounded := by
    have hcounted := hexact.counted
    have hlength : (Slots.held output.connections).length ≤ output.connections.length := by
      rw [Slots.length_held]
      exact List.countP_le_length
    have hsize : output.connections.length = 500 := hexact.size
    omega
  once := by
    intro c
    rw [← Slots.count_held]
    exact List.nodup_iff_count_le_one.mp hexact.nodup c
  polledOnce := hexact.polled.nodup_iff.mpr hexact.nodup
  polled := fun c => hexact.polled.mem_iff.trans Slots.mem_held_iff

namespace Pipeline

section Steps

variable {s s' : Pipeline} {i : Nat} {c : Conn}

/-- A slot is cleared together with the entry of the pollset. -/
theorem exact_outSweep (hexact : s.output.Exact) (i : Nat) (late : Bool) :
    (s.outSweep i late).output.Exact := by
  unfold Pipeline.outSweep
  split
  next c hslot =>
    split
    next =>
      have hclear := Slots.clear_perm hslot
      have hnodup := hclear.nodup_iff.mp hexact.nodup
      refine ⟨List.length_set.trans hexact.size, ?_, (List.nodup_cons.mp hnodup).2, ?_⟩
      · have hcounted := hexact.counted
        have hlength := hclear.length_eq
        rw [List.length_cons] at hlength
        dsimp only
        omega
      · have hfilter := (hexact.polled.trans hclear).filter (· ≠ c)
        have hkeep : ∀ d ∈ Slots.held (Slots.clear s.output.connections i),
            decide (d ≠ c) = true := by
          intro d hd
          apply decide_eq_true
          rintro rfl
          exact (List.nodup_cons.mp hnodup).1 hd
        rw [List.filter_cons_of_neg (by simp), List.filter_eq_self.mpr hkeep] at hfilter
        exact hfilter
    next => exact hexact
  next => exact hexact

/-- A connection is stored, counted and polled, or there is no free slot for it. -/
theorem exact_outStore (hexact : s.output.Exact) (hfresh : c ∉ Slots.held s.output.connections) :
    (s.outStore c).output.Exact := by
  unfold outStore
  split
  next => exact hexact
  next connections hstore =>
    have hperm := Slots.store_perm hstore
    refine ⟨(Slots.length_store hstore).trans hexact.size, ?_, ?_, ?_⟩
    · have hcounted := hexact.counted
      have hlength := hperm.length_eq
      rw [List.length_cons] at hlength
      dsimp only
      omega
    · exact hperm.nodup_iff.mpr (List.nodup_cons.mpr ⟨hfresh, hexact.nodup⟩)
    · exact (hexact.polled.cons c).trans hperm.symm

/-- Fetching stores the connection in a free slot, and counts and polls it. -/
theorem exact_fetch (hexact : s.output.Exact) (honce : s.course.Once) {status : QueueStatus}
    (hstep : s.fetch status = some s') : s'.output.Exact := by
  unfold Pipeline.fetch at hstep
  split at hstep
  next => cases hstep
  next c outQueue hpop =>
    cases hstep
    refine exact_outStore (s := { s with outQueue }) hexact fun hmem => ?_
    -- what is in the queue is in no slot
    have hbound := honce c
    have hqueue : 0 < s.course.outQueue.count c := by
      apply List.count_pos_iff.mpr
      rw [course, Queue.items_pop hpop]
      exact List.mem_cons_self
    have hslots : 0 < s.course.slots.count c :=
      Multiset.count_pos.mpr (Multiset.mem_coe.mpr hmem)
    rw [Course.count_way] at hbound
    split at hbound
    next => omega
    next => omega
  next =>
    cases hstep
    split
    next => exact ⟨hexact.size, hexact.counted, hexact.nodup, hexact.polled⟩
    next => exact hexact

/-- What every run keeps, also while the server goes down. -/
structure Orderly (s : Pipeline) : Prop where
  tabled : ∃ outside, s.Tabled outside
  once : s.course.Once
  output : s.output.Exact

theorem orderly_initial (config : Config) (threads : Nat) : Orderly (initial config threads) where
  tabled := ⟨[], tabled_initial config threads⟩
  once := by
    intro c
    simp [Course.count_way, course, initial, Listener.initial, Listener.holds, Worker.carries]
  output := ⟨List.length_replicate, by simp [initial], by simp [initial], by simp [initial]⟩

/-- In an orderly state every step moves as its deeds say. -/
theorem Orderly.moves {label : Step} (hs : s.Orderly) (hstep : s.step label = some s') :
    s.Moves s' := by
  obtain ⟨outside, htabled⟩ := hs.tabled
  exact moves_step htabled (fun c hc => hs.output.polled.mem_iff.mp hc) hstep

/-- Every step keeps the table of the output thread exact. -/
theorem exact_step {label : Step} (hs : s.Orderly) (hstep : s.step label = some s') :
    s'.output.Exact := by
  cases label with
  | accept l outcome =>
      obtain ⟨listener, hl, rfl⟩ := Option.map_eq_some_iff.mp hstep
      split
      next =>
        obtain ⟨_, _, _, _, _, heq, -⟩ := accept_frame (getElem_of_runningListener hl) outcome
        rw [heq]
        exact hs.output
      next => exact hs.output
  | readEvent l c event =>
      obtain ⟨listener, -, hstep⟩ := Option.bind_eq_some_iff.mp hstep
      split at hstep
      next =>
        cases hstep
        exact hs.output
      next => cases hstep
  | sweep l i late status =>
      obtain ⟨listener, hl, hstep⟩ := Option.bind_eq_some_iff.mp hstep
      obtain ⟨_, _, _, _, _, rfl, -⟩ := sweep_frame (getElem_of_runningListener hl) hstep
      exact hs.output
  | leave l =>
      obtain ⟨listener, -, hstep⟩ := Option.bind_eq_some_iff.mp hstep
      split at hstep
      next =>
        cases hstep
        exact hs.output
      next => cases hstep
  | take w status =>
      simp only [Pipeline.step] at hstep
      split at hstep
      next =>
        obtain ⟨_, _, rfl, -⟩ := take_frame hstep
        exact hs.output
      next => cases hstep
  | dispatch w request status =>
      simp only [Pipeline.step] at hstep
      split at hstep
      next =>
        obtain ⟨_, _, _, _, _, rfl, -⟩ := dispatch_frame hstep
        exact hs.output
      next => cases hstep
  | goDown w =>
      obtain ⟨worker, -, hstep⟩ := Option.bind_eq_some_iff.mp hstep
      obtain ⟨_, _, _, _, _, _, rfl, -⟩ := goDown_frame hstep
      exact hs.output
  | writeEvent c event =>
      simp only [Pipeline.step] at hstep
      split at hstep
      next =>
        obtain ⟨_, _, heq⟩ := writeEvent_frame s c event
        cases hstep
        rw [heq]
        exact hs.output
      next => cases hstep
  | outSweep i late =>
      simp only [Pipeline.step] at hstep
      split at hstep
      next =>
        cases hstep
        exact exact_outSweep hs.output i late
      next => cases hstep
  | fetch status =>
      simp only [Pipeline.step] at hstep
      split at hstep
      next => exact exact_fetch hs.output hs.once hstep
      next => cases hstep

/-- Every step keeps a state orderly: its tables, what is on its way, and the table of the
output thread, each by its own step lemma. -/
theorem Orderly.step {label : Step} (hs : s.Orderly) (hstep : s.step label = some s') :
    s'.Orderly where
  tabled := by
    obtain ⟨outside, htabled⟩ := hs.tabled
    exact ⟨outside ++ s.queued s', htabled.step hstep⟩
  once := (hs.moves hstep).once hs.once
  output := exact_step hs hstep

/-- The output thread waits for its queue exactly when its table is empty. -/
theorem Orderly.waitsWhenIdle (hs : s.Orderly) : s.WaitsWhenIdle := by
  intro hrunning hempty
  have hfetch : (s.step (.fetch .eagain)).isSome = true ↔ 0 < s.output.connectionCount := by
    by_cases hcount : 0 < s.output.connectionCount
    · simp [Pipeline.step, Pipeline.fetch, Queue.pop, Queue.allows, hrunning, hempty, hcount]
    · simp [Pipeline.step, Pipeline.fetch, Queue.pop, Queue.allows, hrunning, hcount]
  have hheld : 0 < s.output.connectionCount ↔ ∃ c, c ∈ Slots.held s.output.connections := by
    rw [hs.output.counted, Int.natCast_pos, List.length_pos_iff_exists_mem]
  rw [hfetch, hheld]
  simp only [Slots.mem_held_iff]

/-- The slot of a finished connection is cleared, with its entry of the pollset. -/
theorem Orderly.outSweep_finished (hs : s.Orderly) {late : Bool} (hfinished : s.Finished i late c) :
    some c ∉ (s.outSweep i late).output.connections ∧ c ∉ (s.outSweep i late).output.pollset ∧
      (s.outSweep i late).log = s.log ++ [.closed c, .destroyed c] := by
  obtain ⟨hslot, hover⟩ := hfinished
  have hpositive : 0 < s.output.connectionCount := by
    rw [hs.output.counted]
    exact Int.natCast_pos.mpr (List.length_pos_of_mem (Slots.mem_held hslot))
  have hguard :
      (decide (0 < s.output.connectionCount) && ((s.flags c).done || late)) = true := by
    rw [decide_eq_true hpositive, Bool.true_and]
    exact Bool.or_eq_true_iff.mpr hover
  have hexact := exact_outSweep hs.output i late
  simp only [Pipeline.outSweep, hslot, hguard, if_true] at hexact ⊢
  have hgone : c ∉ Slots.held (Slots.clear s.output.connections i) :=
    (List.nodup_cons.mp ((Slots.clear_perm hslot).nodup_iff.mp hs.output.nodup)).1
  refine ⟨fun hmem => hgone (Slots.mem_held_iff.mpr hmem), ?_, rfl⟩
  exact fun hmem => hgone (hexact.polled.mem_iff.mp hmem)

/-- The sweep has nothing to do at a slot that is free or not finished. -/
theorem outSweep_unfinished {late : Bool} (hnone : ∀ c, ¬ s.Finished i late c) :
    s.outSweep i late = s := by
  unfold Pipeline.outSweep
  split
  next c hslot =>
    refine if_neg fun hguard => hnone c ⟨hslot, ?_⟩
    exact Bool.or_eq_true_iff.mp (Bool.and_eq_true_iff.mp hguard).2
  next => rfl

/-- A sweep closes what is done or late, and nothing else. -/
theorem Orderly.closesFinished (hs : s.Orderly) (label : Step) : s.ClosesFinished label := by
  cases label with
  | outSweep i late =>
      intro next hstep
      simp only [Pipeline.step, Option.ite_none_right_eq_some, Option.some.injEq] at hstep
      obtain ⟨-, rfl⟩ := hstep
      exact ⟨fun c => hs.outSweep_finished, outSweep_unfinished⟩
  | accept l outcome => trivial
  | readEvent l c event => trivial
  | sweep l i late status => trivial
  | leave l => trivial
  | take w status => trivial
  | dispatch w request status => trivial
  | goDown w => trivial
  | writeEvent c event => trivial
  | fetch status => trivial

end Steps

/-- In every run the counter of the output thread is the number of its slots in use, the
pollset is what is in the slots, the thread waits for `out_queue` only when it has
nothing to send, and its sweep closes exactly what is done or late. -/
theorem output_booked (config : Config) (threads : Nat) (run : List Step) :
    Always step (fun s => s.output.Booked ∧ s.WaitsWhenIdle) (initial config threads) run ∧
      EachStep step ClosesFinished (initial config threads) run := by
  have hinitial := orderly_initial config threads
  have hkeep : ∀ s label s', Orderly s → step s label = some s' → Orderly s' :=
    fun _ _ _ hs hstep => hs.step hstep
  constructor
  · exact (always_of_invariant hkeep hinitial run).mono
      fun s hs => ⟨hs.output.booked, hs.waitsWhenIdle⟩
  · exact eachStep_of_invariant hkeep (fun s label _ hs _ => hs.closesFinished label) hinitial run

end Pipeline

end DbSlayer.Server
