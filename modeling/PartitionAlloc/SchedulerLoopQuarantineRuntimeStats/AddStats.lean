/-
`SchedulerLoopQuarantineRuntimeStats` (`scheduler_loop_quarantine_runtime_stats.cc`): three vectors of buckets
(total, purge and zap times) and the long-zap pause.

`AddStats` records the total time, then the purge and zap times when they were measured, and pauses the quarantine
when the zap time exceeds the zap bucket's average by more than `max_above_avg_zap_delta_`. It reads that average
before `RecordValue` and asks `valid()` after it, so on the call that fills the window for the first time (after
construction or `InitOrResetStats`) it compares the zap time with the average of an empty window, 0.

Model:
- `base::TimeTicks` and `base::TimeDelta` are counts of nanoseconds, `Int` (their header is not in `src/`); a null
  `TimeTicks` is 0, and `InNanoseconds()` is the count itself.
- a vector of buckets is a function from the bucket index to a bucket. Before the first `InitOrResetStats` the
  vectors are empty and no call reads them; `resize` then default-constructs every bucket.

- `Tracked.step`, `tracked_run`: every bucket of every run summarises the values recorded in it since the last reset
  (`BucketStats.Summarises`);
- `addStats_cases`: `AddStats` does nothing before initialization, and otherwise records and pauses exactly under
  `PausesOnLongZap`; `pausesOnLongZap_iff` says that condition in terms of the values the zap bucket holds;
- `add_stats_pause_decision`: on every run, an `AddStats` call pauses exactly when the quarantine is initialized, the
  zap was measured, the delta and the zap time are non-zero, the call fills or finds a full window, and the zap time
  exceeds by more than the delta the average of the window before the call, taken as 0 while it was not full;
- `fill_call_pauses`: 1024 identical zap times of 2000 ns with a delta of 1000 ns pause on the 1024th call, where
  the window's average is 2000.
-/
import PartitionAlloc.SchedulerLoopQuarantineRuntimeStats.BucketStats

namespace PartitionAlloc.SchedulerLoopQuarantineRuntimeStats

/-- the members of `SchedulerLoopQuarantineRuntimeStats` -/
structure RuntimeStats where
  initialized : Bool
  maxAboveAvgZapDelta : Int
  longZapPauseDelta : Int
  pauseUntil : Int
  zapBuckets : Nat → BucketStats
  purgeBuckets : Nat → BucketStats
  totalTimeBuckets : Nat → BucketStats

namespace RuntimeStats

def init : RuntimeStats := ⟨false, 0, 0, 0, fun _ => .init, fun _ => .init, fun _ => .init⟩

/-- `buckets[i].RecordValue(value)` -/
def recordAt (buckets : Nat → BucketStats) (i : Nat) (value : Int) : Nat → BucketStats :=
  Function.update buckets i ((buckets i).recordValue value)

/-- the records of `AddStats`: the total time, then the purge and zap times that were measured -/
def recordTimes (s : RuntimeStats) (bucketIndex : Nat) (quarantineStart purgeStart zapStart quarantineEnd : Int) :
    RuntimeStats :=
  let s := { s with totalTimeBuckets := recordAt s.totalTimeBuckets bucketIndex (quarantineEnd - quarantineStart) }
  if zapStart ≠ 0 then
    { s with
      purgeBuckets := recordAt s.purgeBuckets bucketIndex (zapStart - purgeStart)
      zapBuckets := recordAt s.zapBuckets bucketIndex (quarantineEnd - zapStart) }
  else if purgeStart ≠ 0 then
    { s with purgeBuckets := recordAt s.purgeBuckets bucketIndex (quarantineEnd - purgeStart) }
  else s

/-- `AddStats`; the zap bucket's average is read before its `RecordValue` (the total time's record, which comes
first, does not touch it) -/
def addStats (s : RuntimeStats) (bucketIndex : Nat) (quarantineStart purgeStart zapStart quarantineEnd : Int) :
    RuntimeStats :=
  if !s.initialized then s else
  let zapTime : Int := if zapStart ≠ 0 then quarantineEnd - zapStart else 0
  let averageNs := (s.zapBuckets bucketIndex).averageNs
  let s := s.recordTimes bucketIndex quarantineStart purgeStart zapStart quarantineEnd
  let shouldPauseOnLongZap := s.maxAboveAvgZapDelta != 0 && zapTime != 0
  if !(s.zapBuckets bucketIndex).valid || !shouldPauseOnLongZap then s
  else if zapTime - averageNs > s.maxAboveAvgZapDelta then
    { s with
      pauseUntil := quarantineEnd + s.longZapPauseDelta
      zapBuckets := Function.update s.zapBuckets bucketIndex (s.zapBuckets bucketIndex).increasePaused }
  else s

def initOrResetStats (s : RuntimeStats) (pauseDelay maxAboveAvgZapDelta : Int) : RuntimeStats :=
  let s :=
    if !s.initialized then
      { s with initialized := true, zapBuckets := fun _ => .init, purgeBuckets := fun _ => .init,
               totalTimeBuckets := fun _ => .init }
    else
      { s with zapBuckets := fun i => (s.zapBuckets i).reset, purgeBuckets := fun i => (s.purgeBuckets i).reset,
               totalTimeBuckets := fun i => (s.totalTimeBuckets i).reset }
  { s with longZapPauseDelta := pauseDelay, maxAboveAvgZapDelta := maxAboveAvgZapDelta }

def shouldPause (s : RuntimeStats) (start : Int) : Bool :=
  if !s.initialized || s.pauseUntil == 0 || start == 0 then false else decide (start < s.pauseUntil)

def reportedStats (s : RuntimeStats) : RuntimeStats :=
  if !s.initialized then s else
  { s with zapBuckets := fun i => (s.zapBuckets i).reported, purgeBuckets := fun i => (s.purgeBuckets i).reported,
           totalTimeBuckets := fun i => (s.totalTimeBuckets i).reported }

/-- the calls on the runtime stats -/
inductive Call
  | addStats (bucketIndex : Nat) (quarantineStart purgeStart zapStart quarantineEnd : Int)
  | initOrResetStats (pauseDelay maxAboveAvgZapDelta : Int)
  | reportedStats

def step (s : RuntimeStats) : Call → RuntimeStats
  | .addStats b qs ps zs qe => s.addStats b qs ps zs qe
  | .initOrResetStats d m => s.initOrResetStats d m
  | .reportedStats => s.reportedStats

/-- the stats after the calls `cs`, from construction -/
def run (cs : List Call) : RuntimeStats := cs.foldl step init

/-! ## What `AddStats` does -/

section RecordTimes

variable (s : RuntimeStats) (b : Nat) (qs ps zs qe : Int)

@[simp] theorem recordTimes_pauseUntil : (s.recordTimes b qs ps zs qe).pauseUntil = s.pauseUntil := by
  unfold recordTimes; split_ifs <;> rfl

@[simp] theorem recordTimes_maxAboveAvgZapDelta :
    (s.recordTimes b qs ps zs qe).maxAboveAvgZapDelta = s.maxAboveAvgZapDelta := by
  unfold recordTimes; split_ifs <;> rfl

@[simp] theorem recordTimes_longZapPauseDelta :
    (s.recordTimes b qs ps zs qe).longZapPauseDelta = s.longZapPauseDelta := by
  unfold recordTimes; split_ifs <;> rfl

theorem recordTimes_zapBuckets : (s.recordTimes b qs ps zs qe).zapBuckets =
    if zs ≠ 0 then recordAt s.zapBuckets b (qe - zs) else s.zapBuckets := by
  unfold recordTimes; split_ifs <;> rfl

end RecordTimes

/-- the zap bucket after the records of a call, before any pause -/
def zapRecorded (s : RuntimeStats) (b : Nat) (zs qe : Int) : BucketStats :=
  if zs ≠ 0 then (s.zapBuckets b).recordValue (qe - zs) else s.zapBuckets b

@[simp] theorem recordTimes_zapBuckets_self (s : RuntimeStats) (b : Nat) (qs ps zs qe : Int) :
    (s.recordTimes b qs ps zs qe).zapBuckets b = s.zapRecorded b zs qe := by
  simp only [recordTimes_zapBuckets, zapRecorded, recordAt]
  split_ifs <;> simp

/-- the condition under which `AddStats` pauses -/
def PausesOnLongZap (s : RuntimeStats) (b : Nat) (zs qe : Int) : Prop :=
  s.initialized = true ∧ zs ≠ 0 ∧ s.maxAboveAvgZapDelta ≠ 0 ∧ qe - zs ≠ 0 ∧
    (s.zapRecorded b zs qe).valid = true ∧ qe - zs - (s.zapBuckets b).averageNs > s.maxAboveAvgZapDelta

instance (s : RuntimeStats) (b : Nat) (zs qe : Int) : Decidable (s.PausesOnLongZap b zs qe) :=
  inferInstanceAs (Decidable (s.initialized = true ∧ zs ≠ 0 ∧ s.maxAboveAvgZapDelta ≠ 0 ∧ qe - zs ≠ 0 ∧
    (s.zapRecorded b zs qe).valid = true ∧ qe - zs - (s.zapBuckets b).averageNs > s.maxAboveAvgZapDelta))

variable {s : RuntimeStats} {b : Nat} {qs ps zs qe : Int}

/-- `AddStats` either leaves the stats as they are (not initialized), or records and pauses, or only records -/
theorem addStats_cases : s.addStats b qs ps zs qe =
    if s.initialized = false then s
    else if s.PausesOnLongZap b zs qe then
      { s.recordTimes b qs ps zs qe with
        pauseUntil := qe + s.longZapPauseDelta
        zapBuckets := Function.update (s.recordTimes b qs ps zs qe).zapBuckets b (s.zapRecorded b zs qe).increasePaused }
    else s.recordTimes b qs ps zs qe := by
  unfold addStats PausesOnLongZap
  by_cases hi : s.initialized <;> by_cases hz : zs = 0 <;> simp [hi, hz]
  split_ifs <;> simp_all

theorem addStats_pauseUntil : (s.addStats b qs ps zs qe).pauseUntil =
    if s.PausesOnLongZap b zs qe then qe + s.longZapPauseDelta else s.pauseUntil := by
  rw [addStats_cases]
  split_ifs with hi h
  · exact absurd h.1 (by simp [hi])
  all_goals simp

theorem addStats_zapBuckets_self : (s.addStats b qs ps zs qe).zapBuckets b =
    if s.PausesOnLongZap b zs qe then (s.zapRecorded b zs qe).increasePaused
    else if s.initialized then s.zapRecorded b zs qe else s.zapBuckets b := by
  rw [addStats_cases]
  split_ifs with hi h
  · exact absurd h.1 (by simp [hi])
  all_goals simp_all


theorem addStats_zapPaused : ((s.addStats b qs ps zs qe).zapBuckets b).paused =
    (s.zapBuckets b).paused + if s.PausesOnLongZap b zs qe then 1 else 0 := by
  rw [addStats_zapBuckets_self]
  split_ifs <;> simp [zapRecorded, BucketStats.increasePaused] <;> split_ifs <;> rfl

@[simp] theorem addStats_initialized : (s.addStats b qs ps zs qe).initialized = s.initialized := by
  rw [addStats_cases]; split_ifs <;> simp [recordTimes] <;> split_ifs <;> rfl

@[simp] theorem addStats_maxAboveAvgZapDelta :
    (s.addStats b qs ps zs qe).maxAboveAvgZapDelta = s.maxAboveAvgZapDelta := by
  rw [addStats_cases]; split_ifs <;> simp

@[simp] theorem addStats_longZapPauseDelta :
    (s.addStats b qs ps zs qe).longZapPauseDelta = s.longZapPauseDelta := by
  rw [addStats_cases]; split_ifs <;> simp

/-- the pause decision in terms of the values recorded in the zap bucket: `valid()` after the record, the average
before it -/
theorem pausesOnLongZap_iff {hs : List Int} (h : (s.zapBuckets b).Summarises hs) :
    s.PausesOnLongZap b zs qe ↔ s.initialized = true ∧ zs ≠ 0 ∧ s.maxAboveAvgZapDelta ≠ 0 ∧ qe - zs ≠ 0 ∧
      kMaxTimesToTrack ≤ hs.length + 1 ∧
      qe - zs - (if kMaxTimesToTrack ≤ hs.length then (s.zapBuckets b).sumNs.tdiv kMaxTimesToTrack else 0) >
        s.maxAboveAvgZapDelta := by
  unfold PausesOnLongZap zapRecorded
  rw [h.averageNs_eq, h.valid_eq]
  constructor
  · rintro ⟨hi, hz, hd, ht, hv, hgt⟩
    rw [if_pos hz, (h.recordValue (qe - zs)).valid_eq] at hv
    simp only [List.length_append, List.length_singleton, decide_eq_true_eq] at hv
    exact ⟨hi, hz, hd, ht, hv, by simpa using hgt⟩
  · rintro ⟨hi, hz, hd, ht, hv, hgt⟩
    rw [if_pos hz, (h.recordValue (qe - zs)).valid_eq]
    exact ⟨hi, hz, hd, ht, by simpa using hv, by simpa using hgt⟩

end RuntimeStats

/-! ## Every bucket summarises its window -/

/-- the bucket summarises the values recorded in it since its last reset -/
def BucketStats.Tracked (bs : BucketStats) : Prop := ∃ hs, bs.Summarises hs

namespace BucketStats.Tracked

variable {bs : BucketStats}

theorem recordValue (h : bs.Tracked) (v : Int) : (bs.recordValue v).Tracked :=
  let ⟨hs, h⟩ := h; ⟨hs ++ [v], h.recordValue v⟩

theorem increasePaused (h : bs.Tracked) : bs.increasePaused.Tracked :=
  let ⟨hs, h⟩ := h; ⟨hs, { h with }⟩

theorem reported (h : bs.Tracked) : bs.reported.Tracked :=
  let ⟨hs, h⟩ := h; ⟨hs, h.reported⟩

theorem reset (bs : BucketStats) : bs.reset.Tracked := ⟨[], Summarises.reset bs⟩

theorem init : BucketStats.init.Tracked := ⟨[], Summarises.init⟩

end BucketStats.Tracked

theorem tracked_update {bk : Nat → BucketStats} (h : ∀ i, (bk i).Tracked) (j : Nat) {bs : BucketStats}
    (hj : bs.Tracked) (i : Nat) : (Function.update bk j bs i).Tracked := by
  by_cases hij : i = j
  · subst hij; simpa using hj
  · simpa [hij] using h i

theorem tracked_recordAt {bk : Nat → BucketStats} (h : ∀ i, (bk i).Tracked) (j : Nat) (v : Int) (i : Nat) :
    (RuntimeStats.recordAt bk j v i).Tracked :=
  tracked_update h j ((h j).recordValue v) i

/-- every bucket of every vector is tracked -/
structure RuntimeStats.Tracked (s : RuntimeStats) : Prop where
  zap : ∀ i, (s.zapBuckets i).Tracked
  purge : ∀ i, (s.purgeBuckets i).Tracked
  total : ∀ i, (s.totalTimeBuckets i).Tracked

namespace RuntimeStats.Tracked

variable {s : RuntimeStats}

theorem init : RuntimeStats.init.Tracked :=
  ⟨fun _ => BucketStats.Tracked.init, fun _ => BucketStats.Tracked.init, fun _ => BucketStats.Tracked.init⟩

theorem recordTimes (h : s.Tracked) (b : Nat) (qs ps zs qe : Int) : (s.recordTimes b qs ps zs qe).Tracked := by
  unfold RuntimeStats.recordTimes
  have ht := tracked_recordAt h.total b (qe - qs)
  split_ifs
  · exact ⟨tracked_recordAt h.zap _ _, tracked_recordAt h.purge _ _, ht⟩
  · exact ⟨h.zap, tracked_recordAt h.purge _ _, ht⟩
  · exact ⟨h.zap, h.purge, ht⟩

theorem addStats (h : s.Tracked) (b : Nat) (qs ps zs qe : Int) : (s.addStats b qs ps zs qe).Tracked := by
  have h' := h.recordTimes b qs ps zs qe
  rw [RuntimeStats.addStats_cases]
  split_ifs
  · exact h
  · rw [← RuntimeStats.recordTimes_zapBuckets_self s b qs ps zs qe]
    exact ⟨tracked_update h'.zap _ ((h'.zap b).increasePaused), h'.purge, h'.total⟩
  · exact h'

theorem initOrResetStats (s : RuntimeStats) (d m : Int) : (s.initOrResetStats d m).Tracked := by
  unfold RuntimeStats.initOrResetStats
  split_ifs
  · exact ⟨fun _ => .init, fun _ => .init, fun _ => .init⟩
  · exact ⟨fun i => .reset _, fun i => .reset _, fun i => .reset _⟩

theorem reportedStats (h : s.Tracked) : s.reportedStats.Tracked := by
  unfold RuntimeStats.reportedStats
  split_ifs
  · exact h
  · exact ⟨fun i => (h.zap i).reported, fun i => (h.purge i).reported, fun i => (h.total i).reported⟩

theorem step (h : s.Tracked) : (c : RuntimeStats.Call) → (s.step c).Tracked
  | .addStats b qs ps zs qe => h.addStats b qs ps zs qe
  | .initOrResetStats d m => initOrResetStats s d m
  | .reportedStats => h.reportedStats

end RuntimeStats.Tracked

theorem tracked_run (cs : List RuntimeStats.Call) : (RuntimeStats.run cs).Tracked := by
  suffices ∀ s : RuntimeStats, s.Tracked → (cs.foldl RuntimeStats.step s).Tracked from this _ .init
  induction cs with
  | nil => exact fun _ h => h
  | cons c cs ih => exact fun s h => ih _ (h.step c)

theorem add_stats_pause_decision (cs : List RuntimeStats.Call) (b : Nat) (qs ps zs qe : Int) :
    let s := RuntimeStats.run cs
    ∃ hs, (s.zapBuckets b).Summarises hs ∧
      (s.PausesOnLongZap b zs qe ↔ s.initialized = true ∧ zs ≠ 0 ∧ s.maxAboveAvgZapDelta ≠ 0 ∧ qe - zs ≠ 0 ∧
        kMaxTimesToTrack ≤ hs.length + 1 ∧
        qe - zs - (if kMaxTimesToTrack ≤ hs.length then (s.zapBuckets b).sumNs.tdiv kMaxTimesToTrack else 0) >
          s.maxAboveAvgZapDelta) ∧
      (s.addStats b qs ps zs qe).pauseUntil =
        (if s.PausesOnLongZap b zs qe then qe + s.longZapPauseDelta else s.pauseUntil) ∧
      ((s.addStats b qs ps zs qe).zapBuckets b).paused =
        (s.zapBuckets b).paused + if s.PausesOnLongZap b zs qe then 1 else 0 := by
  obtain ⟨hs, h⟩ := (tracked_run cs).zap b
  exact ⟨hs, h, RuntimeStats.pausesOnLongZap_iff h, RuntimeStats.addStats_pauseUntil,
    RuntimeStats.addStats_zapPaused⟩

/-- the stats after `InitOrResetStats(5000, 1000)` and `n` calls whose zap takes 2000 ns -/
def steadyZaps (n : Nat) : List RuntimeStats.Call :=
  .initOrResetStats 5000 1000 :: List.replicate n (.addStats 0 1000 1000 1000 3000)

theorem steadyZaps_run (n : Nat) (hn : n < kMaxTimesToTrack) :
    let s := RuntimeStats.run (steadyZaps n)
    s.initialized = true ∧ s.maxAboveAvgZapDelta = 1000 ∧ s.longZapPauseDelta = 5000 ∧ s.pauseUntil = 0 ∧
      (s.zapBuckets 0).Summarises (List.replicate n 2000) ∧ (s.zapBuckets 0).paused = 0 := by
  induction n with
  | zero => exact ⟨rfl, rfl, rfl, rfl, BucketStats.Summarises.init, rfl⟩
  | succ n ih =>
    obtain ⟨hi, hd, hl, hp, hz, hpz⟩ := ih (by omega)
    have hno : ¬(RuntimeStats.run (steadyZaps n)).PausesOnLongZap 0 1000 3000 := by
      rw [RuntimeStats.pausesOnLongZap_iff hz, List.length_replicate]
      rintro ⟨-, -, -, -, hv, -⟩
      exact absurd hv (by simp [kMaxTimesToTrack] at hn ⊢; omega)
    have hrun : RuntimeStats.run (steadyZaps (n + 1)) =
        (RuntimeStats.run (steadyZaps n)).addStats 0 1000 1000 1000 3000 := by
      simp only [RuntimeStats.run, steadyZaps, List.replicate_succ', List.foldl_cons, List.foldl_append,
        List.foldl_nil]
      rfl
    dsimp only
    rw [hrun, RuntimeStats.addStats_zapPaused, if_neg hno, RuntimeStats.addStats_pauseUntil, if_neg hno,
      RuntimeStats.addStats_zapBuckets_self, if_neg hno, if_pos hi]
    refine ⟨by simpa using hi, by simpa using hd, by simpa using hl, hp, ?_, hpz⟩
    simpa [RuntimeStats.zapRecorded, List.replicate_succ'] using hz.recordValue 2000

theorem fill_call_pauses :
    let s := RuntimeStats.run (steadyZaps 1023)
    let s' := s.addStats 0 1000 1000 1000 3000
    s.pauseUntil = 0 ∧ s'.pauseUntil = 8000 ∧ (s'.zapBuckets 0).paused = 1 ∧ s'.shouldPause 3001 = true ∧
      (s'.zapBuckets 0).valid = true ∧ (s'.zapBuckets 0).averageNs = 2000 ∧ 2000 / kMaxTimesToTrack < 1000 := by
  obtain ⟨hi, hd, hl, hp, hz, hpz⟩ := steadyZaps_run 1023 (by decide)
  dsimp only
  have hyes : (RuntimeStats.run (steadyZaps 1023)).PausesOnLongZap 0 1000 3000 := by
    rw [RuntimeStats.pausesOnLongZap_iff hz, List.length_replicate, hi, hd]
    decide
  have hz' : ((RuntimeStats.run (steadyZaps 1023)).addStats 0 1000 1000 1000 3000).zapBuckets 0 =
      (((RuntimeStats.run (steadyZaps 1023)).zapBuckets 0).recordValue 2000).increasePaused := by
    rw [RuntimeStats.addStats_zapBuckets_self, if_pos hyes]
    rfl
  have hfull := hz.recordValue 2000
  rw [← List.replicate_succ'] at hfull
  have hpause : ((RuntimeStats.run (steadyZaps 1023)).addStats 0 1000 1000 1000 3000).pauseUntil = 8000 := by
    rw [RuntimeStats.addStats_pauseUntil, if_pos hyes, hl]; rfl
  refine ⟨hp, hpause, ?_, ?_, ?_, ?_, by decide⟩
  · rw [RuntimeStats.addStats_zapPaused, if_pos hyes, hpz]
  · simp [RuntimeStats.shouldPause, hpause, hi]
  · rw [hz', BucketStats.increasePaused, hfull.valid_eq, List.length_replicate]; rfl
  · rw [hz', BucketStats.increasePaused, hfull.averageNs_eq, hfull.valid_eq, hfull.sumNs_eq, List.length_replicate,
      List.map_replicate, List.take_replicate, List.sum_replicate, List.sum_replicate]
    rfl

end PartitionAlloc.SchedulerLoopQuarantineRuntimeStats
