import DbSlayer.Json.Serialize
import DbSlayer.Server.Stats

/-! # The buckets of a history

`slayer_server_stats_tojson` when no other thread comes between its reads. The
history of updates and ticks says which buckets there were; the ring holds the
last ones of them, and the report lists those that are completed.
-/

namespace DbSlayer.Server

open DbSlayer.Json Foundation

/-! ## A call by itself -/

/-- The loops up to their end, with nothing in between. -/
def StatsReader.finish (stats : ServerStats) : Nat → StatsReader → StatsReader
  | 0, reader => reader
  | fuel + 1, reader =>
      match reader.read stats with
      | none => reader
      | some next => next.finish stats fuel

/-- `slayer_server_stats_tojson`; a slot takes up to three reads. -/
def slayerServerStatsTojson (δ : Type) [CDouble δ] (stats : ServerStats) (now : Int) : Bytes :=
  let reader := StatsReader.start (slayerServerStatsGet stats)
  jsonSerialize ((reader.finish stats (3 * reader.pending.length)).container now : JsonValue δ)

/-- The reads that are still to come, at most. -/
def StatsReader.remaining (reader : StatsReader) : Nat :=
  match reader.next with
  | .test => 3 * reader.pending.length
  | .hit => 3 * reader.pending.length - 1
  | .slice => 3 * reader.pending.length - 2

/-- Every round of the reader comes closer to its end. -/
theorem read_remaining {reader next : StatsReader} {stats : ServerStats}
    (hread : reader.read stats = some next) : next.remaining < reader.remaining := by
  obtain ⟨copy, pending, state, hits, slices⟩ := reader
  cases pending with
  | nil => simp [StatsReader.read] at hread
  | cons i rest =>
      simp only [StatsReader.read, Option.some.injEq] at hread
      cases state with
      | test =>
          simp only at hread
          split at hread
          all_goals
            subst hread
            simp only [StatsReader.remaining, List.length_cons]
            omega
      | hit | slice =>
          subst hread
          simp only [StatsReader.remaining, List.length_cons]
          omega

/-- With fuel for the rounds that remain, the reader finishes. -/
theorem finish_pending {stats : ServerStats} {fuel : Nat} {reader : StatsReader}
    (hfuel : reader.remaining ≤ fuel) : (reader.finish stats fuel).pending = [] := by
  induction fuel generalizing reader with
  | zero =>
      rw [StatsReader.finish]
      apply List.eq_nil_of_length_eq_zero
      unfold StatsReader.remaining at hfuel
      split at hfuel <;> omega
  | succ fuel ih =>
      rw [StatsReader.finish]
      cases hread : reader.read stats with
      | none =>
          cases hpending : reader.pending with
          | nil => rfl
          | cons i rest => simp [StatsReader.read, hpending] at hread
      | some next =>
          have hless := read_remaining hread
          exact ih (by omega)

/-- Finishing keeps what the reader has consistent with the statistics it started from. -/
theorem finish_consistent {first stats : ServerStats} {reader : StatsReader}
    (hconsistent : Consistent first ⟨stats, reader⟩) (fuel : Nat) :
    Consistent first ⟨stats, reader.finish stats fuel⟩ := by
  induction fuel generalizing reader with
  | zero => exact hconsistent
  | succ fuel ih =>
      rw [StatsReader.finish]
      cases hread : reader.read stats with
      | none => exact hconsistent
      | some next => exact ih (read_consistent hconsistent hread)

/-- A call that no other thread comes between reports the completed buckets, with as much fuel
as it has rounds. -/
theorem slayerServerStatsTojson_eq (δ : Type) [CDouble δ] (stats : ServerStats) (now : Int) :
    slayerServerStatsTojson δ stats now =
      jsonSerialize (statsContainer (slayerServerStatsGet stats) (stats.completed.map stats.hit)
        (stats.completed.map stats.slice) now : JsonValue δ) := by
  have hlast := finish_consistent (consistent_get stats)
    (3 * (StatsReader.start (slayerServerStatsGet stats)).pending.length)
  obtain ⟨hhits, hslices⟩ := hlast.report (finish_pending le_rfl)
  have hcopied := hlast.copied
  dsimp only at hhits hslices hcopied
  simp only [slayerServerStatsTojson, StatsReader.container, hhits, hslices, hcopied]

/-! ## The buckets -/

/-- When a bucket began, and the updates while it was current. -/
structure Bucket where
  begun : Int
  hits : Nat
deriving DecidableEq, Repr

/-- The buckets of a history that starts in a bucket; the last one is current. -/
def bucketsFrom (current : Bucket) : List StatsEvent → List Bucket
  | [] => [current]
  | .update :: rest => bucketsFrom { current with hits := current.hits + 1 } rest
  | .tick now :: rest => current :: bucketsFrom ⟨now, 0⟩ rest

/-- The buckets that a tick has completed. -/
def completedBuckets (start : Int) (history : List StatsEvent) : List Bucket :=
  (bucketsFrom ⟨start, 0⟩ history).dropLast

theorem length_bucketsFrom (current : Bucket) (history : List StatsEvent) :
    (bucketsFrom current history).length = (history.filterMap StatsEvent.reading).length + 1 := by
  induction history generalizing current with
  | nil => rfl
  | cons event rest ih =>
      cases event with
      | update =>
          rw [bucketsFrom, ih]
          rfl
      | tick now =>
          rw [bucketsFrom, List.length_cons, ih]
          rfl

theorem begun_bucketsFrom (current : Bucket) (history : List StatsEvent) :
    (bucketsFrom current history).map Bucket.begun =
      current.begun :: history.filterMap StatsEvent.reading := by
  induction history generalizing current with
  | nil => rfl
  | cons event rest ih =>
      cases event with
      | update =>
          rw [bucketsFrom, ih]
          rfl
      | tick now =>
          rw [bucketsFrom, List.map_cons, ih]
          rfl

/-- A bucket has no more hits than there were updates. -/
theorem hits_bucketsFrom_le {current bucket : Bucket} {history : List StatsEvent}
    (hbucket : bucket ∈ bucketsFrom current history) :
    bucket.hits ≤ current.hits + history.count .update := by
  induction history generalizing current with
  | nil =>
      obtain rfl := List.mem_singleton.mp hbucket
      exact Nat.le_add_right _ _
  | cons event rest ih =>
      cases event with
      | update =>
          have hle := ih hbucket
          simp only [List.count_cons_self] at hle ⊢
          omega
      | tick now =>
          rw [List.count_cons_of_ne (by simp)]
          rcases List.mem_cons.mp hbucket with rfl | hlater
          · exact Nat.le_add_right _ _
          · have hle := ih hlater
            simp only at hle
            omega

/-! ## The ring holds the last buckets -/

/-- The ring holds the last of some buckets, the current one included. -/
structure Records (stats : ServerStats) (buckets : List Bucket) : Prop where
  slices : Ring.unrolled stats.slices stats.offset =
    Ring.recent stats.nslice 0 (buckets.map Bucket.begun)
  hits : Ring.unrolled stats.hits stats.offset =
    Ring.recent stats.nslice 0 (buckets.map Bucket.hits)

/-- At the start there is one bucket, without hits. -/
theorem records_init (nslice : Nat) (start : Int) :
    Records (slayerServerStatInit nslice start) [⟨start, 0⟩] where
  slices := by
    simp [slayerServerStatInit, Ring.unrolled, Ring.recent, List.replicate_succ]
  hits := by
    simp [slayerServerStatInit, Ring.unrolled, Ring.recent, List.replicate_succ]

theorem update_records {stats : ServerStats} {done : List Bucket} {current : Bucket}
    (hrecords : Records stats (done ++ [current])) :
    Records (slayerServerStatUpdate stats)
      (done ++ [{ current with hits := current.hits + 1 }]) where
  slices := by
    have hring := hrecords.slices
    rw [List.map_append] at hring ⊢
    exact hring
  hits := by
    have hring := hrecords.hits
    rw [List.map_append, List.map_singleton] at hring ⊢
    -- The slot in use counts the hits of the current bucket.
    have hcount := Ring.getD_offset_recent stats.hits_length stats.offset_lt hring
    simp only [slayerServerStatUpdate, hcount]
    exact Ring.unrolled_set_recent stats.hits_length stats.offset_lt hring _

theorem tick_records {stats : ServerStats} {buckets : List Bucket} (now : Int)
    (hrecords : Records stats buckets) :
    Records (slayerServerStatsTick stats now) (buckets ++ [⟨now, 0⟩]) where
  slices := by
    rw [List.map_append, List.map_singleton]
    exact Ring.unrolled_following_recent stats.slices_length stats.offset_lt hrecords.slices now
  hits := by
    rw [List.map_append, List.map_singleton]
    exact Ring.unrolled_following_recent stats.hits_length stats.offset_lt hrecords.hits 0

/-- A history of updates and ticks leaves its buckets recorded, by induction on the history. -/
theorem history_records {stats : ServerStats} {done : List Bucket} {current : Bucket}
    (hrecords : Records stats (done ++ [current])) (history : List StatsEvent) :
    Records (history.foldl StatsEvent.apply stats) (done ++ bucketsFrom current history) := by
  induction history generalizing stats done current with
  | nil => exact hrecords
  | cons event rest ih =>
      cases event with
      | update => exact ih (update_records hrecords)
      | tick now =>
          have hlater := ih (tick_records now hrecords)
          rw [List.append_assoc] at hlater
          exact hlater

/-! ## The report -/

namespace ServerStats

/-- What a slot holds. -/
def bucket (stats : ServerStats) (i : Nat) : Bucket := ⟨stats.slice i, stats.hit i⟩

end ServerStats

/-- Reading the other slots gives the last buckets in front of the current one, behind
the slots that were never begun. -/
theorem map_bucket_order {stats : ServerStats} {done : List Bucket} {current : Bucket}
    {nslice : Nat} (hnslice : stats.nslice = nslice + 1)
    (hrecords : Records stats (done ++ [current])) :
    (Ring.order stats.nslice stats.offset).map stats.bucket =
      Ring.recent nslice ⟨0, 0⟩ done := by
  have hslices : (Ring.order stats.nslice stats.offset).map stats.slice =
      (Ring.recent nslice (⟨0, 0⟩ : Bucket) done).map Bucket.begun := by
    have hring := hrecords.slices
    rw [List.map_append, List.map_singleton, hnslice] at hring
    rw [Ring.map_recent, hnslice]
    exact Ring.map_order_recent (stats.slices_length.trans hnslice) (hnslice ▸ stats.offset_lt)
      hring
  have hhits : (Ring.order stats.nslice stats.offset).map stats.hit =
      (Ring.recent nslice (⟨0, 0⟩ : Bucket) done).map Bucket.hits := by
    have hring := hrecords.hits
    rw [List.map_append, List.map_singleton, hnslice] at hring
    rw [Ring.map_recent, hnslice]
    exact Ring.map_order_recent (stats.hits_length.trans hnslice) (hnslice ▸ stats.offset_lt)
      hring
  have hpairs := congrArg₂ (List.zipWith Bucket.mk) hslices hhits
  rw [List.zipWith_map, List.zipWith_map, List.zipWith_self, List.zipWith_self,
    List.map_id'] at hpairs
  exact hpairs

/-- The number of slices and the start time never change. -/
theorem history_frame (stats : ServerStats) (history : List StatsEvent) :
    (history.foldl StatsEvent.apply stats).nslice = stats.nslice ∧
      (history.foldl StatsEvent.apply stats).startTime = stats.startTime ∧
      (history.foldl StatsEvent.apply stats).totalRequests =
        stats.totalRequests + history.count .update := by
  induction history generalizing stats with
  | nil => exact ⟨rfl, rfl, rfl⟩
  | cons event rest ih =>
      obtain ⟨hnslice, hstart, htotal⟩ := ih (event.apply stats)
      rw [List.foldl_cons, hnslice, hstart, htotal]
      cases event with
      | update =>
          refine ⟨rfl, rfl, ?_⟩
          rw [List.count_cons_self]
          simp only [StatsEvent.apply, slayerServerStatUpdate]
          omega
      | tick now =>
          refine ⟨rfl, rfl, ?_⟩
          rw [List.count_cons_of_ne (by simp)]
          rfl

/-- The completed buckets in the ring are the last of those that the history completed. -/
theorem map_bucket_completed (nslice : Nat) {start : Int} {history : List StatsEvent}
    (hstart : start ≠ 0) (hclock : ∀ time ∈ history.filterMap StatsEvent.reading, time ≠ 0) :
    (statsAfter nslice start history).completed.map (statsAfter nslice start history).bucket =
      (completedBuckets start history).drop
        ((completedBuckets start history).length - nslice) := by
  have hrecords : Records (statsAfter nslice start history)
      ([] ++ bucketsFrom ⟨start, 0⟩ history) :=
    history_records (records_init nslice start) history
  have hne : bucketsFrom ⟨start, 0⟩ history ≠ [] := by
    rw [← List.length_pos_iff, length_bucketsFrom]
    exact Nat.succ_pos _
  rw [List.nil_append, ← List.dropLast_append_getLast hne] at hrecords
  have hread := map_bucket_order (history_frame _ history).1 hrecords
  have hbegun : ∀ bucket ∈ completedBuckets start history, decide (bucket.begun ≠ 0) = true := by
    intro bucket hbucket
    have hmem : bucket.begun ∈ (bucketsFrom ⟨start, 0⟩ history).map Bucket.begun :=
      List.mem_map_of_mem (List.dropLast_subset _ hbucket)
    rw [begun_bucketsFrom, List.mem_cons] at hmem
    rcases hmem with heq | hreading
    · simpa [heq] using hstart
    · simpa using hclock bucket.begun hreading
  have hfilter : (Ring.recent nslice ⟨0, 0⟩ (completedBuckets start history)).filter
      (fun bucket => bucket.begun ≠ 0) = _ := Ring.filter_recent (by simp) hbegun
  rw [← hfilter, completedBuckets, ← hread, List.filter_map]
  rfl

/-- The report lists the last completed buckets, oldest first, with the time each one
began and its updates, and the updates in all. -/
theorem statsTojson_lists_completed (δ : Type) [CDouble δ] (nslice : Nat) (start now : Int)
    (history : List StatsEvent) (hstart : start ≠ 0)
    (hclock : ∀ time ∈ history.filterMap StatsEvent.reading, time ≠ 0)
    (hupdates : history.count .update < 2 ^ 31) :
    let listed := (completedBuckets start history).drop
      ((completedBuckets start history).length - nslice)
    listed.length = min (history.filterMap StatsEvent.reading).length nslice ∧
      slayerServerStatsTojson δ (statsAfter nslice start history) now =
        jsonSerialize (.object (objectOf [
          (bytes "total_requests", .long (Int64.ofNat (history.count .update))),
          (bytes "hits", .array (listed.map fun bucket => .long (Int64.ofNat bucket.hits))),
          (bytes "slices", .array (listed.map fun bucket => .long (Int64.ofInt bucket.begun))),
          (bytes "start_time", .long (Int64.ofInt start)),
          (bytes "current_time", .long (Int64.ofInt now))]) : JsonValue δ) ∧
      (∀ bucket ∈ listed, bucket.hits < 2 ^ 31 ∧
        (Int64.ofNat bucket.hits).toInt = bucket.hits) ∧
      (Int64.ofNat (history.count .update)).toInt = history.count .update := by
  intro listed
  have hcompleted : (statsAfter nslice start history).completed.map
      (statsAfter nslice start history).bucket = listed :=
    map_bucket_completed nslice hstart hclock
  have hhits : (statsAfter nslice start history).completed.map
      (statsAfter nslice start history).hit = listed.map Bucket.hits := by
    rw [← hcompleted, List.map_map]
    rfl
  have hslices : (statsAfter nslice start history).completed.map
      (statsAfter nslice start history).slice = listed.map Bucket.begun := by
    rw [← hcompleted, List.map_map]
    rfl
  obtain ⟨-, hbegin, htotal⟩ := history_frame (slayerServerStatInit nslice start) history
  refine ⟨?_, ?_, ?_, Int64.toInt_ofNat_of_lt (by omega)⟩
  · rw [List.length_drop, completedBuckets, List.length_dropLast, length_bucketsFrom]
    omega
  · rw [slayerServerStatsTojson_eq, hhits, hslices, statsContainer, List.map_map, List.map_map]
    have htotal' : (slayerServerStatsGet (statsAfter nslice start history)).totalRequests =
        history.count .update := htotal.trans (Nat.zero_add _)
    have hbegin' : (slayerServerStatsGet (statsAfter nslice start history)).startTime = start :=
      hbegin
    rw [htotal', hbegin']
    rfl
  · intro bucket hbucket
    have hle : bucket.hits ≤ 0 + history.count .update :=
      hits_bucketsFrom_le (List.dropLast_subset _ (List.mem_of_mem_drop hbucket))
    exact ⟨by omega, Int64.toInt_ofNat_of_lt (by omega)⟩

/-- The ring has come around: the first bucket has been overwritten, and the last one, which is
not complete, is not listed. -/
theorem statsTojson_lists_completed_around :
    slayerServerStatsTojson Bytes
        (statsAfter 1 5 [.update, .tick 7, .update, .update, .tick 9, .update]) 10 =
      bytes "\x7b\"current_time\" : 10 , \"hits\" : [2] , \"slices\" : [7] , \"start_time\" : 5 " ++
        bytes ", \"total_requests\" : 4\x7d" := by
  have hlisted := statsTojson_lists_completed Bytes 1 5 10
    [.update, .tick 7, .update, .update, .tick 9, .update] (by decide) (by decide) (by decide)
  rw [hlisted.2.1]
  decide +kernel

end DbSlayer.Server
