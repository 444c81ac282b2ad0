/-
`SchedulerLoopQuarantineRuntimeStats::BucketStats` (`scheduler_loop_quarantine_runtime_stats.cc`): a ring of the last
`kMaxTimesToTrack` recorded durations, with a running sum and an integer average.

`RecordValue(value_ns)` adds the value to `sum_ns_`, a 0 counted as 1, and once the window is `valid_` subtracts the
value held by the slot it overwrites. The slot holds the raw value, so a recorded 0 adds 1 on the way in and takes 0
on the way out.

Model:
- `int64_t` values are `Int`: signed overflow is undefined in C++, and nothing here needs one.
- the model covers non-negative durations. `sum_ns_ / kMaxTimesToTrack` divides by a `size_t`, so `sum_ns_` is
  converted to `size_t` first: for a non-negative sum that is the truncating division `Int.tdiv` of the model, while a
  negative sum would be divided as the unsigned value `sum_ns_ + 2 ^ 64`.
- `bucket_times_` is a function from an index to a value; only indices below `kMaxTimesToTrack` are read or written.
- `paused_` and `cycled_` only grow or go back to 0: `Nat`.

Abstract model: the values recorded since construction or the last `Reset()` (`history`). `Summarises hs s` says
what each field of `s` is, given those values `hs`: `idx_` and `valid_` from their number, the ring holds the last
`kMaxTimesToTrack` of them at their indices, `sum_ns_` is the sum of all of them (each 0 counted as 1) less the raw
values that left the window, and `average_ns_` is `sum_ns_ / kMaxTimesToTrack` once valid, 0 before.

- `Summarises.recordValue`, `.reported`, `.reset`: one lemma per call;
- `summarises_run`: every run of calls from construction;
- `bucket_stats_window`: so `valid()` holds exactly once `kMaxTimesToTrack` values were recorded since construction or
  the last `Reset()`, `average_ns()` is `sum_ns() / kMaxTimesToTrack` from then on, and `sum_ns()` is the window's sum
  (each 0 counted as 1) plus the number of zeros that have left the window;
- `zero_records_drift`: after 2048 records of 0, `sum_ns()` is 2048 and the average 2, where the window's sum is 1024.
-/
import Mathlib.Data.List.Count
import Mathlib.Algebra.BigOperators.Group.List
import Mathlib.Algebra.Order.Ring.Nat
import Mathlib.Algebra.Order.Ring.Int

namespace PartitionAlloc.SchedulerLoopQuarantineRuntimeStats

def kMaxTimesToTrack : Nat := 1024

structure BucketStats where
  paused : Nat
  cycled : Nat
  valid : Bool
  idx : Nat
  reportedIdx : Nat
  sumNs : Int
  averageNs : Int
  bucketTimes : Nat → Int

namespace BucketStats

/-- the default member initializers: `reported_idx_` starts at `kMaxTimesToTrack - 1`, everything else at 0 -/
def init : BucketStats := ⟨0, 0, false, 0, kMaxTimesToTrack - 1, 0, 0, fun _ => 0⟩

def reset (s : BucketStats) : BucketStats :=
  { s with valid := false, idx := 0, sumNs := 0, averageNs := 0, reportedIdx := kMaxTimesToTrack - 1 }

def reported (s : BucketStats) : BucketStats :=
  if s.valid then { s with paused := 0, cycled := 0, reportedIdx := s.idx } else s

/-- `RecordValue(value_ns)`, each field as the body leaves it -/
def recordValue (s : BucketStats) (valueNs : Int) : BucketStats :=
  let sumNs := s.sumNs + (if valueNs ≠ 0 then valueNs else 1) - (if s.valid then s.bucketTimes s.idx else 0)
  let valid := if s.idx = s.reportedIdx then true else s.valid
  { s with
    sumNs := sumNs
    bucketTimes := Function.update s.bucketTimes s.idx valueNs
    valid := valid
    cycled := if s.idx = s.reportedIdx then s.cycled + 1 else s.cycled
    idx := if s.idx = kMaxTimesToTrack - 1 then 0 else s.idx + 1
    averageNs := if valid then sumNs.tdiv kMaxTimesToTrack else s.averageNs }

def increasePaused (s : BucketStats) : BucketStats := { s with paused := s.paused + 1 }

section Fields

variable (s : BucketStats) (v : Int)

@[simp] theorem recordValue_idx :
    (s.recordValue v).idx = if s.idx = kMaxTimesToTrack - 1 then 0 else s.idx + 1 := rfl

@[simp] theorem recordValue_valid : (s.recordValue v).valid = if s.idx = s.reportedIdx then true else s.valid :=
  rfl

@[simp] theorem recordValue_reportedIdx : (s.recordValue v).reportedIdx = s.reportedIdx := rfl

@[simp] theorem recordValue_paused : (s.recordValue v).paused = s.paused := rfl

@[simp] theorem recordValue_sumNs :
    (s.recordValue v).sumNs = s.sumNs + (if v ≠ 0 then v else 1) - (if s.valid then s.bucketTimes s.idx else 0) :=
  rfl

@[simp] theorem recordValue_bucketTimes :
    (s.recordValue v).bucketTimes = Function.update s.bucketTimes s.idx v := rfl

theorem recordValue_averageNs : (s.recordValue v).averageNs =
    if (s.recordValue v).valid then (s.recordValue v).sumNs.tdiv kMaxTimesToTrack else s.averageNs := rfl

end Fields

/-- the calls a bucket receives -/
inductive Call
  | recordValue (valueNs : Int)
  | reported
  | reset

def step (s : BucketStats) : Call → BucketStats
  | .recordValue v => s.recordValue v
  | .reported => s.reported
  | .reset => s.reset

/-- a bucket after the calls `cs`, from construction -/
def run (cs : List Call) : BucketStats := cs.foldl step init

end BucketStats

/-! ## The window a bucket summarises -/

/-- a recorded value as `RecordValue` adds it to `sum_ns_` -/
def countedNs (v : Int) : Int := if v = 0 then 1 else v

/-- the last `kMaxTimesToTrack` of the recorded values -/
def window (hs : List Int) : List Int := hs.drop (hs.length - kMaxTimesToTrack)

def historyStep (hs : List Int) : BucketStats.Call → List Int
  | .recordValue v => hs ++ [v]
  | .reported => hs
  | .reset => []

/-- the values recorded since construction or the last `Reset()` -/
def history (cs : List BucketStats.Call) : List Int := cs.foldl historyStep []

theorem sum_map_countedNs (l : List Int) : (l.map countedNs).sum = l.sum + l.count 0 := by
  induction l with
  | nil => rfl
  | cons v l ih =>
    by_cases hv : v = 0
    · simp [countedNs, hv, ih]; omega
    · simp [countedNs, hv, ih, List.count_cons]; omega

/-- what each field of a bucket is, given the values `hs` recorded since construction or the last `Reset()` -/
structure BucketStats.Summarises (hs : List Int) (s : BucketStats) : Prop where
  idx_eq : s.idx = hs.length % kMaxTimesToTrack
  valid_eq : s.valid = decide (kMaxTimesToTrack ≤ hs.length)
  reportedIdx_eq : hs.length < kMaxTimesToTrack → s.reportedIdx = kMaxTimesToTrack - 1
  window_eq : ∀ i, hs.length - kMaxTimesToTrack ≤ i → i < hs.length →
    hs[i]? = some (s.bucketTimes (i % kMaxTimesToTrack))
  sumNs_eq : s.sumNs = (hs.map countedNs).sum - (hs.take (hs.length - kMaxTimesToTrack)).sum
  averageNs_eq : s.averageNs = if s.valid then s.sumNs.tdiv kMaxTimesToTrack else 0

namespace BucketStats.Summarises

variable {hs : List Int} {s : BucketStats}

theorem init : Summarises [] BucketStats.init :=
  ⟨rfl, rfl, fun _ => rfl, fun _ _ h => absurd h (Nat.not_lt_zero _), rfl, rfl⟩

theorem reset (s : BucketStats) : Summarises [] s.reset :=
  ⟨rfl, rfl, fun _ => rfl, fun _ _ h => absurd h (Nat.not_lt_zero _), rfl, rfl⟩

theorem reported (h : Summarises hs s) : Summarises hs s.reported := by
  unfold BucketStats.reported
  split
  · next hv => exact { h with reportedIdx_eq := fun hlt => by simp [h.valid_eq] at hv; omega }
  · exact h

/-- the slot `RecordValue` overwrites holds the oldest value of a full window -/
theorem bucketTimes_idx (h : Summarises hs s) (hfull : kMaxTimesToTrack ≤ hs.length) :
    hs[hs.length - kMaxTimesToTrack]? = some (s.bucketTimes s.idx) := by
  have hK : kMaxTimesToTrack = 1024 := rfl
  rw [h.window_eq _ le_rfl (by omega), h.idx_eq, hK, show (hs.length - 1024) % 1024 = hs.length % 1024 by omega]

theorem recordValue (h : Summarises hs s) (v : Int) : Summarises (hs ++ [v]) (s.recordValue v) := by
  have hK : kMaxTimesToTrack = 1024 := rfl
  have hidx : s.idx = hs.length % 1024 := h.idx_eq
  have hcount : (if v ≠ 0 then v else 1) = countedNs v := by unfold countedNs; split_ifs <;> simp_all
  refine ⟨?idx, ?valid, ?reportedIdx, ?window, ?sumNs, ?averageNs⟩
  case idx =>
    simp only [recordValue_idx, List.length_append, List.length_singleton, hidx, hK]
    split_ifs <;> omega
  case valid =>
    rw [recordValue_valid, h.valid_eq, List.length_append, List.length_singleton]
    by_cases hfull : kMaxTimesToTrack ≤ hs.length
    · simp [hfull, show kMaxTimesToTrack ≤ hs.length + 1 by omega]
    · rw [decide_eq_false hfull, hidx, h.reportedIdx_eq (by omega), hK]
      rw [hK] at hfull
      split_ifs <;> simp <;> omega
  case reportedIdx =>
    intro hlt
    rw [recordValue_reportedIdx]
    exact h.reportedIdx_eq (by simp at hlt; omega)
  case window =>
    intro i hlo hhi
    simp only [List.length_append, List.length_singleton] at hlo hhi
    rw [recordValue_bucketTimes]
    rcases Nat.lt_succ_iff_lt_or_eq.mp hhi with hi | rfl
    · have hne : i % kMaxTimesToTrack ≠ s.idx := by rw [hidx, hK]; rw [hK] at hlo; omega
      rw [List.getElem?_append_left hi, h.window_eq i (by omega) hi, Function.update_noteq hne]
    · rw [List.getElem?_concat_length, h.idx_eq, Function.update_same]
  case sumNs =>
    rw [recordValue_sumNs, h.sumNs_eq, h.valid_eq, hcount]
    simp only [List.map_append, List.sum_append, List.map_singleton, List.sum_singleton, List.length_append,
      List.length_singleton]
    by_cases hfull : kMaxTimesToTrack ≤ hs.length
    · rw [show hs.length + 1 - kMaxTimesToTrack = hs.length - kMaxTimesToTrack + 1 by omega,
        List.take_append_of_le_length (by omega), List.take_succ, bucketTimes_idx h hfull]
      simp only [hfull, decide_True, if_true, Option.toList_some, List.sum_append, List.sum_singleton]
      omega
    · rw [show hs.length + 1 - kMaxTimesToTrack = 0 by omega, show hs.length - kMaxTimesToTrack = 0 by omega]
      simp [hfull]
  case averageNs =>
    rw [recordValue_averageNs]
    split_ifs with hv
    · rfl
    · have hold : s.valid ≠ true := fun hold => hv (by simp [hold])
      rw [h.averageNs_eq, if_neg hold]

theorem step (h : Summarises hs s) (c : Call) : Summarises (historyStep hs c) (s.step c) := by
  cases c with
  | recordValue v => exact h.recordValue v
  | reported => exact h.reported
  | reset => exact BucketStats.Summarises.reset s

end BucketStats.Summarises

theorem summarises_foldl (cs : List BucketStats.Call) {hs : List Int} {s : BucketStats}
    (h : s.Summarises hs) : (cs.foldl BucketStats.step s).Summarises (cs.foldl historyStep hs) := by
  induction cs generalizing hs s with
  | nil => exact h
  | cons c cs ih => exact ih (h.step c)

theorem summarises_run (cs : List BucketStats.Call) : (BucketStats.run cs).Summarises (history cs) :=
  summarises_foldl cs BucketStats.Summarises.init

/-- `sum_ns_` counts each value of the window (a 0 as 1), and one more for each 0 that has left it -/
theorem BucketStats.Summarises.sumNs_eq_window {hs : List Int} {s : BucketStats} (h : s.Summarises hs) :
    s.sumNs = ((window hs).map countedNs).sum + (hs.take (hs.length - kMaxTimesToTrack)).count 0 := by
  have hsplit := List.take_append_drop (hs.length - kMaxTimesToTrack) hs
  rw [h.sumNs_eq, window, ← hsplit, List.map_append, List.sum_append, sum_map_countedNs (List.take _ _), hsplit]
  omega

theorem bucket_stats_window (cs : List BucketStats.Call) :
    (BucketStats.run cs).valid = decide (kMaxTimesToTrack ≤ (history cs).length) ∧
    (BucketStats.run cs).sumNs = ((window (history cs)).map countedNs).sum +
      ((history cs).take ((history cs).length - kMaxTimesToTrack)).count 0 ∧
    (BucketStats.run cs).averageNs =
      if (BucketStats.run cs).valid then (BucketStats.run cs).sumNs.tdiv kMaxTimesToTrack else 0 :=
  ⟨(summarises_run cs).valid_eq, (summarises_run cs).sumNs_eq_window, (summarises_run cs).averageNs_eq⟩

theorem history_recordValues (vs : List Int) (hs : List Int) :
    (vs.map BucketStats.Call.recordValue).foldl historyStep hs = hs ++ vs := by
  induction vs generalizing hs with
  | nil => simp
  | cons v vs ih => simp [historyStep, ih]

theorem zero_records_drift :
    (window (history (List.replicate 2048 (.recordValue 0)))).map countedNs = List.replicate 1024 1 ∧
    (BucketStats.run (List.replicate 2048 (.recordValue 0))).valid = true ∧
    (BucketStats.run (List.replicate 2048 (.recordValue 0))).sumNs = 2048 ∧
    (BucketStats.run (List.replicate 2048 (.recordValue 0))).averageNs = 2 := by
  have hrun := summarises_run (List.replicate 2048 (.recordValue 0))
  have hhist : history (List.replicate 2048 (.recordValue 0)) = List.replicate 2048 0 := by
    rw [history, ← List.map_replicate, history_recordValues, List.nil_append]
  rw [hhist] at hrun ⊢
  have hsum : (BucketStats.run (List.replicate 2048 (.recordValue 0))).sumNs = 2048 := by
    rw [hrun.sumNs_eq, List.length_replicate, List.map_replicate, List.take_replicate, List.sum_replicate,
      List.sum_replicate]
    rfl
  have hvalid : (BucketStats.run (List.replicate 2048 (.recordValue 0))).valid = true := by
    rw [hrun.valid_eq, List.length_replicate]; rfl
  refine ⟨by rw [window, List.length_replicate, List.drop_replicate, List.map_replicate]; rfl, hvalid, hsum, ?_⟩
  rw [hrun.averageNs_eq, hvalid, hsum, if_pos rfl]
  rfl

end PartitionAlloc.SchedulerLoopQuarantineRuntimeStats
