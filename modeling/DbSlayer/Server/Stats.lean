import DbSlayer.Foundation.Ring
import DbSlayer.Foundation.Steps
import DbSlayer.Json.Value

/-! # The statistics ring

`slayer_server_stats.c`. The mutex makes an update and a tick one step each, and
so is the copy that `slayer_server_stats_tojson` starts from. The copy has the
offset and the counters, but of the two arrays only the pointers: every later read
of a slot is a step of its own, on the arrays as they are by then.
-/

namespace DbSlayer.Server

open DbSlayer.Json Foundation

/-- `slayer_server_stats_t`. -/
structure ServerStats where
  hits : List Nat
  slices : List Int
  startTime : Int
  totalRequests : Nat
  offset : Nat
  nslice : Nat
  hits_length : hits.length = nslice
  slices_length : slices.length = nslice
  offset_lt : offset < nslice

/-- `slayer_server_stat_init`, with what the clock reads. -/
def slayerServerStatInit (nslice : Nat) (now : Int) : ServerStats where
  hits := List.replicate (nslice + 1) 0
  slices := (List.replicate (nslice + 1) 0).set 0 now
  startTime := now
  totalRequests := 0
  offset := 0
  nslice := nslice + 1
  hits_length := List.length_replicate
  slices_length := by simp
  offset_lt := Nat.succ_pos nslice

def slayerServerStatUpdate (stats : ServerStats) : ServerStats :=
  { stats with
    hits := stats.hits.set stats.offset (stats.hits.getD stats.offset 0 + 1)
    totalRequests := stats.totalRequests + 1
    hits_length := by simp [stats.hits_length] }

def slayerServerStatsTick (stats : ServerStats) (now : Int) : ServerStats :=
  let offset := Ring.following stats.nslice stats.offset
  { stats with
    offset
    hits := stats.hits.set offset 0
    slices := stats.slices.set offset now
    hits_length := by simp [stats.hits_length]
    slices_length := by simp [stats.slices_length]
    offset_lt := Ring.following_lt stats.offset_lt }

/-- What other threads do to the statistics. -/
inductive StatsEvent where
  | update
  | tick (now : Int)
deriving DecidableEq, Repr

def StatsEvent.apply (stats : ServerStats) : StatsEvent → ServerStats
  | update => slayerServerStatUpdate stats
  | tick now => slayerServerStatsTick stats now

/-! ## The report -/

/-- What `slayer_server_stats_get` copies, the pointers to the arrays apart. -/
structure StatsCopy where
  startTime : Int
  totalRequests : Nat
  offset : Nat
  nslice : Nat
deriving DecidableEq, Repr

def slayerServerStatsGet (stats : ServerStats) : StatsCopy where
  startTime := stats.startTime
  totalRequests := stats.totalRequests
  offset := stats.offset
  nslice := stats.nslice

/-- Which array element a loop body reads next. -/
inductive StatsRead where
  | test
  | hit
  | slice
deriving DecidableEq, Repr

/-- The variables of `slayer_server_stats_tojson`. `pending` are the values of `i` that
both loops have still to take, the present one included. -/
structure StatsReader where
  copy : StatsCopy
  pending : List Nat
  next : StatsRead
  hits : List Nat
  slices : List Int
deriving DecidableEq, Repr

/-- The first loop runs from behind the offset to the end, the second one from the
beginning to the offset. -/
def StatsReader.start (copy : StatsCopy) : StatsReader :=
  ⟨copy, Ring.order copy.nslice copy.offset, .test, [], []⟩

/-- One read of an array element. -/
def StatsReader.read (reader : StatsReader) (stats : ServerStats) : Option StatsReader :=
  match reader.pending with
  | [] => none
  | i :: rest =>
      some <| match reader.next with
        | .test =>
            if stats.slices.getD i 0 ≠ 0 then { reader with next := .hit }
            else { reader with pending := rest }
        | .hit => { reader with hits := reader.hits ++ [stats.hits.getD i 0], next := .slice }
        | .slice =>
            { reader with
              slices := reader.slices ++ [stats.slices.getD i 0]
              pending := rest
              next := .test }

variable {δ : Type}

/-- The object that `slayer_server_stats_tojson` serializes. -/
def statsContainer (copy : StatsCopy) (hits : List Nat) (slices : List Int) (now : Int) :
    JsonValue δ :=
  .object (objectOf [
    (bytes "total_requests", .long (Int64.ofNat copy.totalRequests)),
    (bytes "hits", .array (hits.map fun count => .long (Int64.ofNat count))),
    (bytes "slices", .array (slices.map fun time => .long (Int64.ofInt time))),
    (bytes "start_time", .long (Int64.ofInt copy.startTime)),
    (bytes "current_time", .long (Int64.ofInt now))])

def StatsReader.container (reader : StatsReader) (now : Int) : JsonValue δ :=
  statsContainer reader.copy reader.hits reader.slices now

/-- A call of `slayer_server_stats_tojson` behind its copy, among other threads. -/
structure StatsCall where
  stats : ServerStats
  reader : StatsReader

def StatsCall.get (stats : ServerStats) : StatsCall :=
  ⟨stats, .start (slayerServerStatsGet stats)⟩

inductive StatsStep where
  | other (event : StatsEvent)
  | read
deriving DecidableEq, Repr

def StatsCall.step (call : StatsCall) : StatsStep → Option StatsCall
  | .other event => some { call with stats := event.apply call.stats }
  | .read => (call.reader.read call.stats).map fun reader => { call with reader }

/-! ## What the state at the copy says -/

namespace ServerStats

def hit (stats : ServerStats) (i : Nat) : Nat := stats.hits.getD i 0

def slice (stats : ServerStats) (i : Nat) : Int := stats.slices.getD i 0

/-- The buckets among some slots that were ever begun. -/
def begun (stats : ServerStats) (slots : List Nat) : List Nat :=
  slots.filter fun i => stats.slice i ≠ 0

/-- The completed buckets, oldest first. -/
def completed (stats : ServerStats) : List Nat :=
  stats.begun (Ring.order stats.nslice stats.offset)

end ServerStats

/-- The steps that leave alone what is still to be read: a tick enters no bucket that
the loops have not passed. -/
def Undisturbed (call : StatsCall) : StatsStep → Prop
  | .other (.tick _) => Ring.following call.stats.nslice call.stats.offset ∉ call.reader.pending
  | _ => True

instance (call : StatsCall) (step : StatsStep) : Decidable (Undisturbed call step) :=
  match step with
  | .other (.tick _) =>
      inferInstanceAs (Decidable (Ring.following call.stats.nslice call.stats.offset ∉
        call.reader.pending))
  | .other .update | .read => isTrue trivial

/-! ## Undisturbed calls -/

/-- What was reported when the loops have passed some slots, by the next read. -/
def Reported (first : ServerStats) (reader : StatsReader) (passed : List Nat) : Prop :=
  reader.slices = (first.begun passed).map first.slice ∧
    match reader.next with
    | .test => reader.hits = (first.begun passed).map first.hit
    | .hit => reader.hits = (first.begun passed).map first.hit ∧
        ∃ i rest, reader.pending = i :: rest ∧ first.slice i ≠ 0
    | .slice => ∃ i rest, reader.pending = i :: rest ∧ first.slice i ≠ 0 ∧
        reader.hits = (first.begun passed).map first.hit ++ [first.hit i]

/-- The call has read the state at its copy, and so will its next reads. -/
structure Consistent (first : ServerStats) (call : StatsCall) : Prop where
  copied : call.reader.copy = slayerServerStatsGet first
  reported : ∃ passed, Ring.order first.nslice first.offset = passed ++ call.reader.pending ∧
    Reported first call.reader passed
  same : ∀ i ∈ call.reader.pending,
    call.stats.hit i = first.hit i ∧ call.stats.slice i = first.slice i
  apart : call.stats.offset ∉ call.reader.pending

theorem begun_concat_of_ne {stats : ServerStats} {i : Nat} (hslice : stats.slice i ≠ 0)
    (slots : List Nat) : stats.begun (slots ++ [i]) = stats.begun slots ++ [i] := by
  simp [ServerStats.begun, hslice]

theorem begun_concat_of_eq {stats : ServerStats} {i : Nat} (hslice : stats.slice i = 0)
    (slots : List Nat) : stats.begun (slots ++ [i]) = stats.begun slots := by
  simp [ServerStats.begun, hslice]

/-- A call that has read nothing yet is consistent. -/
theorem consistent_get (stats : ServerStats) : Consistent stats (.get stats) where
  copied := rfl
  reported := ⟨[], rfl, rfl, rfl⟩
  same _ _ := ⟨rfl, rfl⟩
  apart := Ring.not_mem_order stats.nslice stats.offset

/-- An update writes the slot in use, which is not to be read any more. -/
theorem update_consistent {first : ServerStats} {call : StatsCall}
    (hconsistent : Consistent first call) :
    Consistent first { call with stats := slayerServerStatUpdate call.stats } where
  copied := hconsistent.copied
  reported := hconsistent.reported
  same i hi := by
    have hne : call.stats.offset ≠ i := fun heq => hconsistent.apart (heq ▸ hi)
    have hkept : (slayerServerStatUpdate call.stats).hit i = call.stats.hit i := by
      simp [slayerServerStatUpdate, ServerStats.hit, List.getElem?_set_ne hne]
    rw [hkept]
    exact hconsistent.same i hi
  apart := hconsistent.apart

/-- A tick is harmless unless it enters a bucket that the call has still to read, since it
writes no other one. -/
theorem tick_consistent {first : ServerStats} {call : StatsCall} (now : Int)
    (hconsistent : Consistent first call)
    (henter : Ring.following call.stats.nslice call.stats.offset ∉ call.reader.pending) :
    Consistent first { call with stats := slayerServerStatsTick call.stats now } where
  copied := hconsistent.copied
  reported := hconsistent.reported
  same i hi := by
    have hne : Ring.following call.stats.nslice call.stats.offset ≠ i :=
      fun heq => henter (heq ▸ hi)
    have hhit : (slayerServerStatsTick call.stats now).hit i = call.stats.hit i := by
      simp [slayerServerStatsTick, ServerStats.hit, List.getElem?_set_ne hne]
    have hslice : (slayerServerStatsTick call.stats now).slice i = call.stats.slice i := by
      simp [slayerServerStatsTick, ServerStats.slice, List.getElem?_set_ne hne]
    rw [hhit, hslice]
    exact hconsistent.same i hi
  apart := henter

/-- Reading one bucket copies it as it was at the start of the call. -/
theorem read_consistent {first : ServerStats} {call : StatsCall} {reader : StatsReader}
    (hconsistent : Consistent first call) (hread : call.reader.read call.stats = some reader) :
    Consistent first { call with reader } := by
  obtain ⟨stats, copy, pending, next, hits, slices⟩ := call
  obtain ⟨hcopy, ⟨passed, horder, hslices, hnext⟩, hsame, hapart⟩ := hconsistent
  dsimp only at hcopy horder hslices hnext hsame hapart hread
  cases pending with
  | nil => simp [StatsReader.read] at hread
  | cons i rest =>
      have hslice : stats.slices.getD i 0 = first.slice i := (hsame i List.mem_cons_self).2
      have hhit : stats.hits.getD i 0 = first.hit i := (hsame i List.mem_cons_self).1
      -- Behind the slot there is less to be read.
      have hbehind : Ring.order first.nslice first.offset = (passed ++ [i]) ++ rest := by
        rw [horder, List.append_assoc, List.singleton_append]
      have hsame' : ∀ j ∈ rest, stats.hit j = first.hit j ∧ stats.slice j = first.slice j :=
        fun j hj => hsame j (List.mem_cons_of_mem i hj)
      have hapart' : stats.offset ∉ rest := fun hj => hapart (List.mem_cons_of_mem i hj)
      cases next with
      | test =>
          simp only [StatsReader.read, hslice, Option.some.injEq] at hread
          split at hread
          next hne =>
            subst hread
            exact ⟨hcopy, ⟨passed, horder, hslices, hnext, i, rest, rfl, hne⟩, hsame, hapart⟩
          next heq =>
            subst hread
            have hzero : first.slice i = 0 := not_not.mp heq
            refine ⟨hcopy, ⟨passed ++ [i], hbehind, ?_⟩, hsame', hapart'⟩
            simp only [Reported, begun_concat_of_eq hzero]
            exact ⟨hslices, hnext⟩
      | hit =>
          simp only [StatsReader.read, hhit, Option.some.injEq] at hread
          subst hread
          obtain ⟨hhits, j, tail, heq, hne⟩ := hnext
          obtain ⟨rfl, rfl⟩ : i = j ∧ rest = tail := by simpa using heq
          refine ⟨hcopy, ⟨passed, horder, hslices, i, rest, rfl, hne, ?_⟩, hsame, hapart⟩
          rw [hhits]
      | slice =>
          simp only [StatsReader.read, hslice, Option.some.injEq] at hread
          subst hread
          obtain ⟨j, tail, heq, hne, hhits⟩ := hnext
          obtain ⟨rfl, rfl⟩ : i = j ∧ rest = tail := by simpa using heq
          refine ⟨hcopy, ⟨passed ++ [i], hbehind, ?_⟩, hsame', hapart'⟩
          simp only [Reported, begun_concat_of_ne hne, List.map_append, List.map_singleton]
          exact ⟨by rw [hslices], hhits⟩

/-- Every undisturbed step keeps the call consistent with the statistics it started from. -/
theorem step_consistent {first : ServerStats} (call : StatsCall) (step : StatsStep)
    (next : StatsCall) (hconsistent : Consistent first call) (hcalm : Undisturbed call step)
    (hstep : call.step step = some next) : Consistent first next := by
  cases step with
  | other event =>
      cases hstep
      cases event with
      | update => exact update_consistent hconsistent
      | tick now => exact tick_consistent now hconsistent hcalm
  | read =>
      obtain ⟨reader, hread, rfl⟩ := Option.map_eq_some_iff.mp hstep
      exact read_consistent hconsistent hread

/-- A call that has read everything has reported the completed buckets. -/
theorem Consistent.report {first : ServerStats} {call : StatsCall}
    (hconsistent : Consistent first call) (hdone : call.reader.pending = []) :
    call.reader.hits = first.completed.map first.hit ∧
      call.reader.slices = first.completed.map first.slice := by
  obtain ⟨passed, horder, hslices, hnext⟩ := hconsistent.reported
  rw [hdone, List.append_nil] at horder
  rw [ServerStats.completed, horder]
  cases hstate : call.reader.next with
  | test =>
      simp only [hstate] at hnext
      exact ⟨hnext, hslices⟩
  | hit =>
      simp only [hstate] at hnext
      obtain ⟨-, i, rest, hpending, -⟩ := hnext
      simp [hdone] at hpending
  | slice =>
      simp only [hstate] at hnext
      obtain ⟨i, rest, hpending, -⟩ := hnext
      simp [hdone] at hpending

/-! ## The order of the slices -/

/-- What the clock read at a tick. -/
def StatsEvent.reading : StatsEvent → Option Int
  | update => none
  | tick now => some now

/-- The statistics after a history. -/
def statsAfter (nslice : Nat) (start : Int) (history : List StatsEvent) : ServerStats :=
  history.foldl StatsEvent.apply (slayerServerStatInit nslice start)

/-- The buckets in the order of the ring began one after the other, none behind `clock`. -/
structure Chronological (stats : ServerStats) (clock : Int) : Prop where
  ascending : ((Ring.unrolled stats.slices stats.offset).filter (· ≠ 0)).Pairwise (· ≤ ·)
  bounded : ∀ time ∈ Ring.unrolled stats.slices stats.offset, time ≠ 0 → time ≤ clock

theorem chronological_init (nslice : Nat) (start : Int) :
    Chronological (slayerServerStatInit nslice start) start := by
  have hring : Ring.unrolled (slayerServerStatInit nslice start).slices
      (slayerServerStatInit nslice start).offset = List.replicate nslice 0 ++ [start] := by
    simp [slayerServerStatInit, Ring.unrolled, List.replicate_succ]
  constructor
  · rw [hring, List.filter_append, List.filter_replicate_of_neg (by simp), List.nil_append]
    exact (List.pairwise_singleton _ start).filter _
  · rw [hring]
    intro time hmem hne
    rcases List.mem_append.mp hmem with hzero | hlast
    · exact absurd (List.eq_of_mem_replicate hzero) hne
    · exact (List.mem_singleton.mp hlast).le

theorem tick_chronological {stats : ServerStats} {clock now : Int}
    (hchronological : Chronological stats clock) (hclock : clock ≤ now) :
    Chronological (slayerServerStatsTick stats now) now := by
  have hring : Ring.unrolled (slayerServerStatsTick stats now).slices
      (slayerServerStatsTick stats now).offset =
        (Ring.unrolled stats.slices stats.offset).tail ++ [now] := by
    have hoffset : stats.offset < stats.slices.length := by
      rw [stats.slices_length]
      exact stats.offset_lt
    have hfollowing := Ring.unrolled_following hoffset now
    rw [stats.slices_length] at hfollowing
    exact hfollowing
  have holder : ∀ time ∈ (Ring.unrolled stats.slices stats.offset).tail, time ≠ 0 → time ≤ now := by
    intro time hmem hne
    have hbound := hchronological.bounded time (List.mem_of_mem_tail hmem) hne
    omega
  constructor
  · rw [hring, List.filter_append, List.pairwise_append]
    refine ⟨?_, (List.pairwise_singleton _ now).filter _, ?_⟩
    · exact hchronological.ascending.sublist ((List.tail_sublist _).filter _)
    · intro earlier hearlier later hlater
      obtain ⟨hmem, hne⟩ := List.mem_filter.mp hearlier
      rw [List.mem_singleton.mp (List.mem_filter.mp hlater).1]
      exact holder earlier hmem (by simpa using hne)
  · rw [hring]
    intro time hmem hne
    rcases List.mem_append.mp hmem with hrest | hlast
    · exact holder time hrest hne
    · exact (List.mem_singleton.mp hlast).le

theorem history_chronological {stats : ServerStats} {clock : Int}
    (hchronological : Chronological stats clock) {history : List StatsEvent}
    (hclock : (clock :: history.filterMap StatsEvent.reading).Pairwise (· ≤ ·)) :
    ∃ clock, Chronological (history.foldl StatsEvent.apply stats) clock := by
  induction history generalizing stats clock with
  | nil => exact ⟨clock, hchronological⟩
  | cons event rest ih =>
      cases event with
      | update =>
          rw [List.filterMap_cons_none rfl] at hclock
          have hkept : Chronological (slayerServerStatUpdate stats) clock :=
            ⟨hchronological.ascending, hchronological.bounded⟩
          exact ih hkept hclock
      | tick now =>
          simp only [List.filterMap_cons, StatsEvent.reading, List.pairwise_cons] at hclock
          have hlater : clock ≤ now := hclock.1 now List.mem_cons_self
          exact ih (tick_chronological hchronological hlater) (List.pairwise_cons.mpr hclock.2)

/-- The slices of the completed buckets are the ring without the slot in use and
without the slots that were never begun. -/
theorem completed_slices (stats : ServerStats) :
    stats.completed.map stats.slice =
      (Ring.unrolled stats.slices stats.offset).dropLast.filter (· ≠ 0) := by
  have hoffset : stats.offset < stats.slices.length := by
    rw [stats.slices_length]
    exact stats.offset_lt
  rw [← Ring.map_order hoffset 0, stats.slices_length, List.filter_map]
  rfl

/-- The buckets that are completed are listed from old to new. -/
theorem Chronological.completed {stats : ServerStats} {clock : Int}
    (hchronological : Chronological stats clock) :
    (stats.completed.map stats.slice).Pairwise (· ≤ ·) := by
  rw [completed_slices]
  exact hchronological.ascending.sublist ((List.dropLast_sublist _).filter _)

/-- As long as no tick enters a bucket that is still to be read, the report is one of the
state at the copy. -/
theorem statsTojson_consistent (nslice : Nat) (start : Int) (history : List StatsEvent)
    (run : List StatsStep) (last : StatsCall)
    (hrun : run.foldlM StatsCall.step (.get (statsAfter nslice start history)) = some last)
    (hdone : last.reader.pending = [])
    (hcalm : EachStep StatsCall.step Undisturbed (.get (statsAfter nslice start history)) run) :
    let first := statsAfter nslice start history
    last.reader.hits = first.completed.map first.hit ∧
      last.reader.slices = first.completed.map first.slice ∧
      (∀ now, last.reader.container now = (statsContainer (slayerServerStatsGet first)
        (first.completed.map first.hit) (first.completed.map first.slice) now : JsonValue δ)) ∧
      first.offset ∉ first.completed ∧
      ((start :: history.filterMap StatsEvent.reading).Pairwise (· ≤ ·) →
        last.reader.slices.Pairwise (· ≤ ·)) := by
  intro first
  have hlast := (always_of_eachStep step_consistent (consistent_get first) hcalm).last hrun
  obtain ⟨hhits, hslices⟩ := hlast.report hdone
  refine ⟨hhits, hslices, ?_, ?_, ?_⟩
  · intro now
    rw [StatsReader.container, hhits, hslices, hlast.copied]
  · intro hmem
    exact Ring.not_mem_order first.nslice first.offset (List.mem_filter.mp hmem).1
  · intro hclock
    rw [hslices]
    obtain ⟨clock, hchronological⟩ :=
      history_chronological (chronological_init nslice start) hclock
    exact hchronological.completed

/-- The next tick comes when its bucket has been read, and an update before that. -/
theorem statsTojson_consistent_late_tick :
    ∃ last, [StatsStep.read, .other .update, .read, .read, .other (.tick 9)].foldlM
        StatsCall.step (.get (statsAfter 1 5 [.update, .tick 7])) = some last ∧
      last.reader.pending = [] ∧ last.reader.hits = [1] ∧ last.reader.slices = [5] := by
  obtain ⟨last, hrun⟩ := Option.isSome_iff_exists.mp (show ([StatsStep.read, .other .update, .read,
    .read, .other (.tick 9)].foldlM StatsCall.step
      (.get (statsAfter 1 5 [.update, .tick 7]))).isSome = true by decide)
  have hdone : last.reader.pending = [] := by
    have hpending : (([StatsStep.read, .other .update, .read, .read, .other (.tick 9)].foldlM
        StatsCall.step (.get (statsAfter 1 5 [.update, .tick 7]))).map
          fun call => call.reader.pending) = some [] := by decide
    simpa [hrun] using hpending
  have hreport := statsTojson_consistent (δ := Bytes) 1 5 [.update, .tick 7] _ last hrun hdone
    (by decide)
  exact ⟨last, hrun, hdone, hreport.1, hreport.2.1⟩

/-- A tick behind the copy: the bucket that it begins is listed first, in front of an
older one. -/
theorem statsTojson_torn :
    (([StatsStep.other (.tick 9), .read, .read, .read, .read, .read, .read].foldlM StatsCall.step
        (.get (statsAfter 2 5 [.update, .tick 6, .tick 7]))).map fun call =>
          (call.reader.pending, call.reader.hits, call.reader.slices)) = some ([], [0, 0], [9, 6]) ∧
      (statsAfter 2 5 [.update, .tick 6, .tick 7]).completed.map
        (statsAfter 2 5 [.update, .tick 6, .tick 7]).hit = [1, 0] ∧
      (statsAfter 2 5 [.update, .tick 6, .tick 7]).completed.map
        (statsAfter 2 5 [.update, .tick 6, .tick 7]).slice = [5, 6] := by
  decide

end DbSlayer.Server
