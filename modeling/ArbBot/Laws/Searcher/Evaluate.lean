import ArbBot.Searcher
import Mathlib.Data.List.Sort

/-!
# What a parallel evaluation returns

The tasks of one evaluation work on different paths, and paths have different hashes, so no task
sees a cache entry another one wrote. In every interleaving a task that is done returned what its
path's current rate is worth, unless the cache as it was at the start turned the path down
(`taskInv_step`, `evaluates_mem`). Every evaluation of registered indices ends
(`exists_evaluates`).

Two tasks on one path would see each other's entries; the indices of a call never repeat.
-/

namespace ArbBot.Searcher

open Lib

/-- Different registered paths have different hashes. -/
def DistinctHashes (s : Searcher) : Prop := (s.allPaths.map SwapPath.hash).Nodup

/-- What `get_affected_paths` promises its caller: no index twice, and each one of a path. -/
structure Selected (s : Searcher) (indices : List Nat) : Prop where
  nodup : indices.Nodup
  inRange : ∀ i ∈ indices, i < s.allPaths.length

/-- The paths an evaluation with an empty cache returns: those whose current rate is at least
break-even, with the excess as profit. -/
def Profitable (s : Searcher) (est : RateEstimator) (indices : List Nat) (blockNumber : UInt64)
    (a : ArbPath) : Prop :=
  ∃ i ∈ indices, ∃ path, s.allPaths[i]? = some path ∧ rateScale ≤ est.evaluatePath path ∧
    a = ⟨path, est.evaluatePath path - rateScale, estimateGas path, blockNumber⟩

theorem assess_eq_some {path : SwapPath} {rate : U256} {blockNumber : UInt64} {a : ArbPath} :
    assess path rate blockNumber = some a ↔
      rateScale ≤ rate ∧ a = ⟨path, rate - rateScale, estimateGas path, blockNumber⟩ := by
  unfold assess
  by_cases hlt : rate < rateScale
  · have hnot : ¬ rateScale ≤ rate := BitVec.not_le.mpr hlt
    split <;> simp [hnot]
  · have hle : rateScale ≤ rate := BitVec.not_lt.mp hlt
    have hzero : rate ≠ 0 := by
      rintro rfl
      exact absurd hle (by decide)
    rw [if_neg hzero, if_neg hlt]
    simp only [Option.some.injEq, hle, true_and]
    exact eq_comm

/-! ## Tasks do not meet -/

variable {s : Searcher} {m : Memory} {est : RateEstimator} {indices : List Nat}
  {blockNumber : UInt64}

theorem taskPath_eq_some {k : Nat} {path : SwapPath} :
    s.taskPath indices k = some path ↔
      ∃ i, indices[k]? = some i ∧ s.allPaths[i]? = some path := by
  simp [taskPath, Option.bind_eq_some_iff]

/-- Different positions have paths of different hashes. -/
theorem taskPath_hash_inj (hhash : s.DistinctHashes) (hnodup : indices.Nodup) {k k' : Nat}
    {path path' : SwapPath} (h : s.taskPath indices k = some path)
    (h' : s.taskPath indices k' = some path') (he : path.hash = path'.hash) : k = k' := by
  obtain ⟨i, hi, hp⟩ := taskPath_eq_some.mp h
  obtain ⟨i', hi', hp'⟩ := taskPath_eq_some.mp h'
  obtain ⟨hk, rfl⟩ := List.getElem?_eq_some_iff.mp hi
  obtain ⟨hk', rfl⟩ := List.getElem?_eq_some_iff.mp hi'
  obtain ⟨hi, rfl⟩ := List.getElem?_eq_some_iff.mp hp
  obtain ⟨hi', rfl⟩ := List.getElem?_eq_some_iff.mp hp'
  have hlen : indices[k] < (s.allPaths.map SwapPath.hash).length := by rwa [List.length_map]
  have hlen' : indices[k'] < (s.allPaths.map SwapPath.hash).length := by rwa [List.length_map]
  have hget : (s.allPaths.map SwapPath.hash)[indices[k]] =
      (s.allPaths.map SwapPath.hash)[indices[k']] := by
    simpa only [List.getElem_map] using he
  exact hnodup.getElem_inj_iff.mp (hhash.getElem_inj_iff.mp hget)

/-- Where each task stands, told by the cache at the start. -/
def TaskInv (s : Searcher) (c : PathRateCache) (est : RateEstimator) (indices : List Nat)
    (blockNumber : UInt64) (e : Evaluation) : Prop :=
  ∀ k,
    match s.taskPath indices k, e.tasks k with
    | none, t => t = .waiting
    | some path, .waiting => turnedDown e.cache path blockNumber = turnedDown c path blockNumber
    | some path, .looked => turnedDown c path blockNumber = false
    | some path, .done r =>
      r = if turnedDown c path blockNumber then none
        else assess path (est.evaluatePath path) blockNumber

theorem turnedDown_insert_of_ne {c : PathRateCache} {path : SwapPath} {h b b' : UInt64}
    {rate : U256} (hne : path.hash ≠ h) :
    turnedDown (c.insert h rate b') path b = turnedDown c path b := by
  simp only [turnedDown, PathRateCache.getFresh_insert_of_ne hne]

theorem taskInv_step (hhash : s.DistinctHashes) (hnodup : indices.Nodup) {c : PathRateCache}
    {e e' : Evaluation} {j : Nat} (h : s.TaskInv c est indices blockNumber e)
    (hstep : s.TaskStep est indices blockNumber e j e') :
    s.TaskInv c est indices blockNumber e' := by
  have hj := h j
  unfold TaskStep taskStep at hstep
  split at hstep
  · -- the lookup of a waiting task
    rename_i path hpath htask
    simp only [hpath, htask] at hj
    intro k
    split at hstep <;> rename_i hdown <;> cases hstep <;> by_cases hk : k = j
    · subst hk
      rw [hj] at hdown
      simp [hpath, Evaluation.setTask, hdown]
    · simpa only [Evaluation.setTask, if_neg hk] using h k
    · subst hk
      rw [hj] at hdown
      simpa [hpath, Evaluation.setTask] using hdown
    · simpa only [Evaluation.setTask, if_neg hk] using h k
  · -- the evaluation of a task that looked
    rename_i path hpath htask
    simp only [hpath, htask] at hj
    cases hstep
    intro k
    by_cases hk : k = j
    · subst hk
      simp [hpath, Evaluation.setTask, hj]
    · have hk' := h k
      simp only [Evaluation.setTask, if_neg hk]
      cases hpath' : s.taskPath indices k with
      | none => simpa only [hpath'] using hk'
      | some path' =>
        have hne : path'.hash ≠ path.hash := fun he =>
          hk (taskPath_hash_inj hhash hnodup hpath' hpath he)
        cases htask' : e.tasks k with
        | waiting => simpa only [hpath', htask', turnedDown_insert_of_ne hne] using hk'
        | looked => simpa only [hpath', htask'] using hk'
        | done r => simpa only [hpath', htask'] using hk'
  · cases hstep

/-- **What an evaluation returns**, in every interleaving of its tasks: the profitable paths the
cache did not turn down at the start. -/
theorem evaluates_mem (hhash : s.DistinctHashes) (hnodup : indices.Nodup)
    {results : List ArbPath} {m' : Memory}
    (h : s.Evaluates m indices blockNumber results m') (a : ArbPath) :
    a ∈ results ↔ s.Profitable m.estimator indices blockNumber a ∧
      turnedDown m.rateCache a.path blockNumber = false := by
  obtain ⟨ks, e, hrun, hdone, hperm, -⟩ := h.ran
  have hinv : s.TaskInv m.rateCache m.estimator indices blockNumber e := by
    refine hrun.invariant (fun _ _ _ hinv hstep => taskInv_step hhash hnodup hinv hstep) fun k => ?_
    cases s.taskPath indices k <;> rfl
  have hresult : ∀ k path, s.taskPath indices k = some path → k < indices.length →
      (e.tasks k).result = if turnedDown m.rateCache path blockNumber then none
        else assess path (m.estimator.evaluatePath path) blockNumber := by
    intro k path hpath hk
    obtain ⟨r, hr⟩ := hdone k hk
    have := hinv k
    simp only [hpath, hr] at this
    rw [hr, Task.result, this]
  rw [hperm.mem_iff, Evaluation.collect, List.mem_filterMap]
  constructor
  · rintro ⟨k, hk, ha⟩
    rw [List.mem_range] at hk
    obtain ⟨r, hr⟩ := hdone k hk
    cases hpath : s.taskPath indices k with
    | none =>
      have := hinv k
      simp only [hpath, hr, reduceCtorEq] at this
    | some path =>
      rw [hresult k path hpath hk] at ha
      split at ha
      · cases ha
      · rename_i hdown
        obtain ⟨hrate, rfl⟩ := assess_eq_some.mp ha
        obtain ⟨i, hi, hp⟩ := taskPath_eq_some.mp hpath
        exact ⟨⟨i, List.mem_of_getElem? hi, path, hp, hrate, rfl⟩, by simpa using hdown⟩
  · rintro ⟨⟨i, hi, path, hp, hrate, rfl⟩, hdown⟩
    obtain ⟨k, hk, rfl⟩ := List.mem_iff_getElem.mp hi
    have hpath : s.taskPath indices k = some path :=
      taskPath_eq_some.mpr ⟨_, List.getElem?_eq_getElem hk, hp⟩
    refine ⟨k, List.mem_range.mpr hk, ?_⟩
    rw [hresult k path hpath hk, if_neg (by simpa using hdown)]
    exact assess_eq_some.mpr ⟨hrate, rfl⟩

/-! ## Every evaluation ends -/

/-- The tasks before position `n` can be run to their ends one after another. -/
theorem exists_run (est : RateEstimator) (blockNumber : UInt64)
    (hrange : ∀ i ∈ indices, i < s.allPaths.length) (c : PathRateCache) (n : Nat)
    (hn : n ≤ indices.length) :
    ∃ ks e, Run (s.TaskStep est indices blockNumber) ⟨c, fun _ => .waiting⟩ ks e ∧
      (∀ k < n, ∃ r, e.tasks k = .done r) ∧ ∀ k, n ≤ k → e.tasks k = .waiting := by
  induction n with
  | zero => exact ⟨[], _, .nil _, fun _ hk => absurd hk (Nat.not_lt_zero _), fun _ _ => rfl⟩
  | succ n ih =>
    obtain ⟨ks, e, hrun, hdone, hwait⟩ := ih (by omega)
    have hlt : n < indices.length := hn
    have hidx := hrange _ (List.getElem_mem hlt)
    have hpath : s.taskPath indices n = some s.allPaths[indices[n]] :=
      taskPath_eq_some.mpr
        ⟨_, List.getElem?_eq_getElem hlt, List.getElem?_eq_getElem hidx⟩
    -- the task at `n` ends in one step or in two, and moves no other task
    have hfinish : ∃ js e', Run (s.TaskStep est indices blockNumber) e js e' ∧
        (∃ r, e'.tasks n = .done r) ∧ ∀ k, k ≠ n → e'.tasks k = e.tasks k := by
      have hwaitn := hwait n (Nat.le_refl n)
      by_cases hdown : turnedDown e.cache s.allPaths[indices[n]] blockNumber = true
      · refine ⟨[n], e.setTask n (.done none), .cons ?_ (.nil _), ⟨none, ?_⟩, fun k hk => ?_⟩
        · simp only [TaskStep, taskStep, hpath, hwaitn, if_pos hdown]
        · exact if_pos rfl
        · exact if_neg hk
      · let path := s.allPaths[indices[n]]
        let rate := est.evaluatePath path
        let e' : Evaluation :=
          { ((e.setTask n .looked).setTask n (.done (assess path rate blockNumber))) with
            cache := e.cache.insert path.hash rate blockNumber }
        refine ⟨[n, n], e', .cons (t := e.setTask n .looked) ?_ (.cons ?_ (.nil _)),
          ⟨assess path rate blockNumber, ?_⟩, fun k hk => ?_⟩
        · simp only [TaskStep, taskStep, hpath, hwaitn, if_neg hdown]
        · simp only [TaskStep, taskStep, hpath, Evaluation.setTask, if_pos]
          rfl
        · exact if_pos rfl
        · simp only [e', Evaluation.setTask, if_neg hk]
    obtain ⟨js, e', hrun', hdone', hframe⟩ := hfinish
    refine ⟨ks ++ js, e', hrun.append hrun', fun k hk => ?_, fun k hk => ?_⟩
    · by_cases hkn : k = n
      · exact hkn ▸ hdone'
      · rw [hframe k hkn]
        exact hdone k (by omega)
    · rw [hframe k (by omega)]
      exact hwait k (by omega)

theorem exists_evaluates (hrange : ∀ i ∈ indices, i < s.allPaths.length) :
    ∃ results m', s.Evaluates m indices blockNumber results m' := by
  obtain ⟨ks, e, hrun, hdone, -⟩ :=
    exists_run m.estimator blockNumber hrange m.rateCache indices.length (Nat.le_refl _)
  let le : ArbPath → ArbPath → Bool := fun a b => decide (b.expectedProfit ≤ a.expectedProfit)
  have htrans : ∀ a b c : ArbPath, le a b = true → le b c = true → le a c = true := by
    intro a b c hab hbc
    simp only [le, decide_eq_true_eq] at hab hbc ⊢
    exact BitVec.le_trans hbc hab
  have htotal : ∀ a b : ArbPath, (le a b || le b a) = true := by
    intro a b
    simp only [le, Bool.or_eq_true, decide_eq_true_eq]
    exact BitVec.le_total _ _
  refine ⟨(e.collect indices.length).mergeSort le, _, ?_, ks, e, hrun, hdone,
    List.mergeSort_perm _ _, rfl⟩
  refine (List.pairwise_mergeSort htrans htotal _).imp fun h => ?_
  simpa only [le, decide_eq_true_eq] using h

end ArbBot.Searcher
