import ArbBot.Searcher
import Mathlib.Data.Finset.Card

/-!
# The affected paths

The index `register_paths` builds has under each pool the positions of the paths through it, once
for each step of a path that is on the pool (`mem_indexPaths`). The union over the touched pools
keeps each position once. So `get_affected_paths` returns positions of affected paths, none twice;
all of them while they are no more than the cap, else as many as the cap
(`getAffectedPaths_selects`). What was registered before is gone.
-/

namespace ArbBot.Searcher

/-- The path at an index goes through one of the pools. -/
def Affected (paths : List SwapPath) (pools : List Address) (i : Nat) : Prop :=
  ∃ path ∈ paths[i]?, ∃ step ∈ path.steps, step.poolAddress ∈ pools

instance (paths : List SwapPath) (pools : List Address) : DecidablePred (Affected paths pools) :=
  fun i => inferInstanceAs (Decidable (∃ path ∈ paths[i]?, _))

/-- The indices of the affected paths. -/
def affected (paths : List SwapPath) (pools : List Address) : Finset Nat :=
  (Finset.range paths.length).filter (Affected paths pools)

/-- What is to be evaluated: affected paths, none twice, and all of them unless they are more than
the cap. -/
structure Selects (paths : List SwapPath) (pools : List Address) (cap : Nat)
    (indices : List Nat) : Prop where
  nodup : indices.Nodup
  sound : ∀ i ∈ indices, Affected paths pools i
  all : (affected paths pools).card ≤ cap → ∀ i, Affected paths pools i → i ∈ indices
  capped : cap < (affected paths pools).card → indices.length = cap

theorem mem_affected {paths : List SwapPath} {pools : List Address} {i : Nat} :
    i ∈ affected paths pools ↔ Affected paths pools i := by
  rw [affected, Finset.mem_filter, Finset.mem_range]
  refine and_iff_right_of_imp ?_
  rintro ⟨path, hpath, -⟩
  exact (List.getElem?_eq_some_iff.mp hpath).1

/-! ## The index -/

variable {index : Address → Option (List Nat)} {pool : Address} {i idx : Nat}

theorem mem_pushPath {a : Address} : i ∈ (pushPath index pool idx a).getD [] ↔
    i ∈ (index a).getD [] ∨ (i = idx ∧ pool = a) := by
  unfold pushPath
  split <;> rename_i h
  · subst h
    simp
  · simp [Ne.symm h]

theorem mem_pushSteps (steps : List SwapStep) : ∀ index : Address → Option (List Nat),
    i ∈ (steps.foldl (fun index step => pushPath index step.poolAddress idx) index pool).getD [] ↔
      i ∈ (index pool).getD [] ∨ (i = idx ∧ ∃ step ∈ steps, step.poolAddress = pool) := by
  induction steps with
  | nil => simp
  | cons step steps ih =>
    intro index
    rw [List.foldl_cons, ih, mem_pushPath, or_assoc, ← and_or_left]
    simp only [List.mem_cons, exists_eq_or_imp]

/-- The positions under a pool are those of the paths with a step on it. -/
theorem mem_indexPaths (paths : List SwapPath) : ∀ (idx : Nat) (index : Address → Option (List Nat)),
    i ∈ (indexPaths paths idx index pool).getD [] ↔ i ∈ (index pool).getD [] ∨
      ∃ k, i = idx + k ∧ Affected paths [pool] k := by
  induction paths with
  | nil => simp [indexPaths, Affected]
  | cons path paths ih =>
    intro idx index
    rw [indexPaths, ih, mem_pushSteps, or_assoc]
    refine or_congr_right ?_
    constructor
    · rintro (⟨rfl, step, hstep, hpool⟩ | ⟨k, rfl, hk⟩)
      · exact ⟨0, rfl, path, rfl, step, hstep, List.mem_singleton.mpr hpool⟩
      · exact ⟨k + 1, by omega, hk⟩
    · rintro ⟨k, rfl, hk⟩
      cases k with
      | zero =>
        obtain ⟨_, ⟨⟩, step, hstep, hpool⟩ := hk
        exact .inl ⟨rfl, step, hstep, List.mem_singleton.mp hpool⟩
      | succ k => exact .inr ⟨k, by omega, hk⟩

/-! ## The union -/

theorem nodup_collect (is : List Nat) : ∀ acc : List Nat, acc.Nodup →
    (is.foldl (fun indices idx => if idx ∈ indices then indices else indices ++ [idx])
      acc).Nodup := by
  induction is with
  | nil => exact fun acc hacc => hacc
  | cons j is ih =>
    intro acc hacc
    rw [List.foldl_cons]
    split <;> rename_i hj
    · exact ih acc hacc
    · exact ih _ (hacc.append (List.nodup_singleton j) (List.disjoint_singleton.mpr hj))

theorem mem_collect (is : List Nat) : ∀ acc : List Nat,
    i ∈ is.foldl (fun indices idx => if idx ∈ indices then indices else indices ++ [idx]) acc ↔
      i ∈ acc ∨ i ∈ is := by
  induction is with
  | nil => simp
  | cons j is ih =>
    intro acc
    rw [List.foldl_cons, ih, List.mem_cons]
    split <;> rename_i hj
    · constructor
      · exact fun h => h.imp_right .inr
      · rintro (h | rfl | h)
        · exact .inl h
        · exact .inl hj
        · exact .inr h
    · rw [List.mem_append, List.mem_singleton, or_assoc]

theorem registerPoolMeta_fields (metas : List PoolMeta) : ∀ s : Searcher,
    (s.registerPoolMeta metas).maxPathsPerBlock = s.maxPathsPerBlock ∧
      (s.registerPoolMeta metas).allPaths = s.allPaths ∧
      (s.registerPoolMeta metas).poolToPaths = s.poolToPaths := by
  induction metas with
  | nil => exact fun _ => ⟨rfl, rfl, rfl⟩
  | cons m metas ih => exact fun s => ih _

variable {s w : Searcher} {paths : List SwapPath} {pools : List Address}

theorem nodup_collectIndices (s : Searcher) (pools : List Address) :
    (s.collectIndices pools).Nodup :=
  nodup_collect _ [] List.nodup_nil

/-- The collected indices are those of the affected paths. -/
theorem mem_collectIndices (hindex : w.poolToPaths = (s.registerPaths paths).poolToPaths) :
    i ∈ w.collectIndices pools ↔ Affected paths pools i := by
  rw [collectIndices, mem_collect, List.mem_flatMap, hindex]
  simp only [List.not_mem_nil, false_or, registerPaths, mem_indexPaths, Option.getD_none,
    Nat.zero_add]
  constructor
  · rintro ⟨pool, hpool, k, rfl, path, hpath, step, hstep, hstepPool⟩
    exact ⟨path, hpath, step, hstep, List.mem_singleton.mp hstepPool ▸ hpool⟩
  · rintro ⟨path, hpath, step, hstep, hpool⟩
    exact ⟨step.poolAddress, hpool, i, rfl, path, hpath, step, hstep, List.mem_singleton_self _⟩

/-- The selection of a worker whose index is that of the paths. -/
theorem selects_getAffectedPaths (pools : List Address)
    (hindex : w.poolToPaths = (s.registerPaths paths).poolToPaths)
    {shuffle : List Nat → List Nat} (hshuffle : ∀ is, (shuffle is).Perm is)
    (isMempoolEvent : Bool) : Selects paths pools w.maxPathsPerBlock
      (w.getAffectedPaths shuffle pools isMempoolEvent) := by
  have hperm : (if isMempoolEvent then w.collectIndices pools
      else shuffle (w.collectIndices pools)).Perm (w.collectIndices pools) := by
    split
    · exact .refl _
    · exact hshuffle _
  have hmem := fun i => (hperm.mem_iff (a := i)).trans (mem_collectIndices hindex)
  have hnodup := hperm.nodup_iff.mpr (nodup_collectIndices w pools)
  unfold getAffectedPaths
  dsimp only
  generalize (if isMempoolEvent then w.collectIndices pools
    else shuffle (w.collectIndices pools)) = indices at hmem hnodup
  -- there are as many indices as affected paths
  have hcard : (affected paths pools).card = indices.length := by
    rw [← List.toFinset_card_of_nodup hnodup]
    congr 1
    ext i
    rw [mem_affected, List.mem_toFinset, hmem]
  refine ⟨hnodup.sublist (List.take_sublist _ _),
    fun i hi => (hmem i).mp (List.mem_of_mem_take hi), fun hle i hi => ?_, fun hlt => ?_⟩
  · rw [List.take_of_length_le (hcard ▸ hle)]
    exact (hmem i).mpr hi
  · rw [List.length_take, ← hcard]
    omega

/-- **The affected paths are selected.** After the paths are registered, whatever was registered
before and whatever metadata is registered since, for every list of touched pools and every
shuffle. -/
theorem getAffectedPaths_selects (s : Searcher) (paths : List SwapPath) (metas : List PoolMeta)
    (shuffle : List Nat → List Nat) (hshuffle : ∀ is, (shuffle is).Perm is)
    (pools : List Address) (isMempoolEvent : Bool) :
    Selects paths pools s.maxPathsPerBlock
      (((s.registerPaths paths).registerPoolMeta metas).getAffectedPaths shuffle pools
        isMempoolEvent) := by
  obtain ⟨hcap, -, hindex⟩ := registerPoolMeta_fields metas (s.registerPaths paths)
  have h := selects_getAffectedPaths pools hindex hshuffle isMempoolEvent
  rwa [hcap] at h

/-- Two paths through pools 10 to 13, the first of them twice through pool 10. -/
def twoPaths : List SwapPath :=
  [⟨[⟨10, 1, 2, .uniswapV2, 30⟩, ⟨11, 2, 1, .uniswapV2, 30⟩, ⟨10, 1, 2, .uniswapV2, 30⟩], 5⟩,
    ⟨[⟨11, 1, 2, .uniswapV2, 30⟩, ⟨12, 2, 3, .uniswapV3, 500⟩, ⟨13, 3, 1, .uniswapV2, 30⟩], 6⟩]

/-- Registered over another list, with room for one path, for touched pools with a repetition. -/
theorem getAffectedPaths_selects_two :
    Selects twoPaths [11, 10, 11] 1
      ((((new 1).registerPaths twoPaths.reverse).registerPaths twoPaths).registerPoolMeta []
        |>.getAffectedPaths List.reverse [11, 10, 11] false) :=
  getAffectedPaths_selects ((new 1).registerPaths twoPaths.reverse) twoPaths [] List.reverse
    List.reverse_perm [11, 10, 11] false

end ArbBot.Searcher
