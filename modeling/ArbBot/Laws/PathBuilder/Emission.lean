import ArbBot.Laws.PathBuilder.Cycles
import Mathlib.Data.List.Count
import Mathlib.Data.List.Perm.Subperm

/-!
# What the builder emits

One round of the loop over the start tokens emits closed simple cycles through its token, keeps
the hash set in step with the paths, and below the cap leaves no cycle of its window without a
hash (`round_spec`). By induction over the start tokens the builder is sound, and complete below
the cap for cycles of three to `maxHops` steps.

The window itself is three to `maxHops + 1`: the guard on emission asks for two hops on the stack
before the closing one, and the guard on descent lets the stack grow to `maxHops`.
-/

namespace ArbBot.PathBuilder

namespace Builder

open Search (Tracks)

variable (b : Builder)

/-! ## One round -/

/-- What a round for `start` does to the paths emitted so far. -/
structure RoundSpec (start : Address) (e : Emitted) (r : Emitted × Nat) : Prop where
  grows : ∃ new, r.1.allPaths = e.allPaths ++ new ∧ r.2 = new.length ∧
    ∀ p ∈ new, p = SwapPath.new b.hasher p.steps ∧ b.IsPath start p.steps
  seen : e.seenHashes ⊆ r.1.seenHashes
  tracks : Tracks e.allPaths e.seenHashes → Tracks r.1.allPaths r.1.seenHashes
  complete : r.2 < b.maxPathsPerToken →
    ∀ steps, b.IsPath start steps → b.hasher steps ∈ r.1.seenHashes

/-- A token some cycle goes through is a node of the graph. -/
theorem IsPath.exists_node {start : Address} {steps : List SwapStep} (h : b.IsPath start steps) :
    ∃ n, (buildGraph b.pools).nodeMap start = some n := by
  obtain ⟨legs, hcycle, -⟩ := h.1.legs
  cases legs with
  | nil => exact absurd rfl hcycle.nonempty
  | cons l ls =>
    obtain ⟨hsrc, -, -⟩ := (hcycle.linked l List.mem_cons_self).nodeLink
    rw [hcycle.closes.1] at hsrc
    exact ⟨_, ((buildGraph b.pools).agree _ _).mpr hsrc⟩

theorem round_spec (e : Emitted) (start : Address) : b.RoundSpec start e (b.round e start) := by
  unfold round
  split
  · rename_i hnone
    refine ⟨⟨[], (List.append_nil _).symm, rfl, fun _ hp => absurd hp List.not_mem_nil⟩,
      Finset.Subset.refl _, id, fun _ steps hpath => ?_⟩
    obtain ⟨n, hn⟩ := hpath.exists_node
    rw [hnone] at hn
    cases hn
  · rename_i n hn
    have h := Search.findCycles_explores (s := b.search n) (b.maxHops + 1) n
      ⟨[], {n}, e.allPaths, e.seenHashes, 0⟩
    refine ⟨?_, h.seen, h.tracks, ?_⟩
    · obtain ⟨new, hsub, hall, hcount⟩ := h.grows
      refine ⟨new, hall, by simpa using hcount, fun p hp => ?_⟩
      obtain ⟨w, hw, rfl⟩ := List.mem_map.mp (hsub.subset hp)
      exact ⟨rfl, (b.exists_walk_iff hn).mp ⟨w, hw, rfl⟩⟩
    · intro hlt steps hpath
      obtain ⟨w, hw, rfl⟩ := (b.exists_walk_iff hn).mpr hpath
      exact h.complete hlt w hw

/-! ## All rounds -/

/-- What holds of the emitted paths between rounds. -/
structure Sound (starts : List Address) (e : Emitted) : Prop where
  tracks : Tracks e.allPaths e.seenHashes
  paths : ∀ p ∈ e.allPaths, p = SwapPath.new b.hasher p.steps ∧
    ∃ S ∈ starts, b.IsPath S p.steps

theorem Sound.empty (starts : List Address) : b.Sound starts ⟨[], ∅⟩ where
  tracks := ⟨by simp, List.nodup_nil⟩
  paths := fun _ hp => absurd hp List.not_mem_nil

variable {b}

theorem Sound.round {starts : List Address} {e : Emitted} (h : b.Sound starts e)
    {start : Address} (hstart : start ∈ starts) : b.Sound starts (b.round e start).1 := by
  have hspec := b.round_spec e start
  refine ⟨hspec.tracks h.tracks, fun p hp => ?_⟩
  obtain ⟨new, hall, -, hnew⟩ := hspec.grows
  rw [hall] at hp
  rcases List.mem_append.mp hp with hp | hp
  · exact h.paths p hp
  · exact ⟨(hnew p hp).1, start, hstart, (hnew p hp).2⟩

theorem rounds_cons (e : Emitted) (t : Address) (ts : List Address) :
    b.rounds e (t :: ts) = b.rounds (b.round e t).1 ts := rfl

theorem Sound.rounds {starts : List Address} : ∀ {ts : List Address} {e : Emitted},
    b.Sound starts e → ts ⊆ starts → b.Sound starts (b.rounds e ts)
  | [], _, h, _ => h
  | t :: ts, e, h, hts => by
    obtain ⟨ht, hts⟩ := List.cons_subset.mp hts
    rw [rounds_cons]
    exact Sound.rounds (h.round ht) hts

theorem seen_rounds : ∀ {ts : List Address} {e : Emitted},
    e.seenHashes ⊆ (b.rounds e ts).seenHashes
  | [], _ => Finset.Subset.refl _
  | t :: _, e => (b.round_spec e t).seen.trans seen_rounds

theorem rounds_append (e : Emitted) (ts us : List Address) :
    b.rounds e (ts ++ us) = b.rounds (b.rounds e ts) us :=
  List.foldl_append

variable (b) in
theorem sound (starts : List Address) : b.Sound starts (b.rounds ⟨[], ∅⟩ starts) :=
  (Sound.empty b starts).rounds (List.Subset.refl _)

/-- Paths that differ in their hash differ in their steps. -/
theorem Sound.steps_nodup {starts : List Address} {e : Emitted} (h : b.Sound starts e) :
    (e.allPaths.map SwapPath.steps).Nodup := by
  have hhash : e.allPaths.map SwapPath.hash = (e.allPaths.map SwapPath.steps).map b.hasher := by
    rw [List.map_map]
    refine List.map_congr_left fun p hp => ?_
    rw [(h.paths p hp).1]
    rfl
  exact List.Nodup.of_map b.hasher (hhash ▸ h.tracks.nodup)

/-- **Soundness.** Every emitted path is a closed simple cycle through a start token, over
distinct pools of the list, and no two emitted paths have the same steps. -/
theorem buildArbPaths_sound (b : Builder) (starts : List Address) :
    (∀ p ∈ b.buildArbPaths starts, ∃ S ∈ starts, ClosedSimpleCycle b.pools S p.steps) ∧
      ((b.buildArbPaths starts).map SwapPath.steps).Nodup := by
  refine ⟨fun p hp => ?_, (b.sound starts).steps_nodup⟩
  obtain ⟨-, S, hS, hpath⟩ := (b.sound starts).paths p hp
  exact ⟨S, hS, hpath.1⟩

/-- Every emitted path has at least three and at most `maxHops + 1` steps. -/
theorem length_of_mem {starts : List Address} {p : SwapPath} (hp : p ∈ b.buildArbPaths starts) :
    3 ≤ p.steps.length ∧ p.steps.length ≤ b.maxHops + 1 := by
  obtain ⟨-, S, -, hpath⟩ := (b.sound starts).paths p hp
  exact hpath.2

/-! ## Completeness below the cap -/

/-- A cycle of the window through a start token whose round stayed below the cap shares its hash
with an emitted path. -/
theorem exists_emitted {pre : List Address} (post : List Address) {S : Address}
    (hcap : (b.round (b.rounds ⟨[], ∅⟩ pre) S).2 < b.maxPathsPerToken) {steps : List SwapStep}
    (hpath : b.IsPath S steps) :
    ∃ p ∈ b.buildArbPaths (pre ++ S :: post), p.hash = b.hasher steps ∧
      p = SwapPath.new b.hasher p.steps ∧ ∃ S' ∈ pre ++ S :: post, b.IsPath S' p.steps := by
  have hsound := b.sound (pre ++ S :: post)
  have hseen : b.hasher steps ∈ (b.rounds ⟨[], ∅⟩ (pre ++ S :: post)).seenHashes := by
    rw [rounds_append, rounds_cons]
    exact seen_rounds ((b.round_spec _ S).complete hcap steps hpath)
  obtain ⟨p, hp, hhash⟩ := List.mem_map.mp ((hsound.tracks.mem _).mp hseen)
  exact ⟨p, hp, hhash, hsound.paths p hp⟩

/-- **Completeness.** Below the cap, and when the hash separates the cycles the builder may emit,
every closed simple cycle of three to `maxHops` steps through the start token is emitted exactly
once, in whatever order the edges are enumerated. -/
theorem buildArbPaths_complete (b : Builder) (pre post : List Address) (S : Address)
    (hcap : (b.round (b.rounds ⟨[], ∅⟩ pre) S).2 < b.maxPathsPerToken)
    (hinj : Set.InjOn b.hasher {steps | ∃ S' ∈ pre ++ S :: post, b.IsPath S' steps})
    (steps : List SwapStep) (hcycle : ClosedSimpleCycle b.pools S steps)
    (hmin : 3 ≤ steps.length) (hmax : steps.length ≤ b.maxHops) :
    ((b.buildArbPaths (pre ++ S :: post)).map SwapPath.steps).count steps = 1 := by
  have hpath : b.IsPath S steps := ⟨hcycle, hmin, Nat.le_succ_of_le hmax⟩
  have hS : S ∈ pre ++ S :: post := List.mem_append_right _ List.mem_cons_self
  obtain ⟨p, hp, hhash, hnew, hemitted⟩ := exists_emitted post hcap hpath
  have heq : p.steps = steps := hinj hemitted ⟨S, hS, hpath⟩ (by rw [← hhash, hnew]; rfl)
  refine List.count_eq_one_of_mem (b.sound _).steps_nodup ?_
  exact heq ▸ List.mem_map_of_mem hp

/-! ### A triangle -/

/-- A constant-product pool with a 0.3% fee. -/
def pairPool (address token0 token1 : Address) : RawPool :=
  ⟨address, token0, token1, 18, 18, 30, 0, .uniswapV2⟩

/-- Three pools in a triangle, with a hash that reads the pool of the first step. -/
def triangle : Builder where
  pools := [pairPool 10 1 2, pairPool 11 2 3, pairPool 12 3 1]
  order := .insertion _
  hasher steps := UInt64.ofNat ((steps.head?.map fun s => s.poolAddress.toNat).getD 0)
  maxHops := 3
  maxPathsPerToken := 10

theorem triangle_hasher_injOn : Set.InjOn triangle.hasher
    {steps | ∃ S ∈ ([] ++ 1 :: [] : List Address), triangle.IsPath S steps} := by
  have hnode : (buildGraph triangle.pools).nodeMap 1 = some 0 := by decide +kernel
  have hwalks : ∀ w ∈ (triangle.search 0).walks 4 0 [] {0},
      ∀ w' ∈ (triangle.search 0).walks 4 0 [] {0},
      triangle.hasher ((triangle.search 0).pathOf w).steps =
        triangle.hasher ((triangle.search 0).pathOf w').steps →
      ((triangle.search 0).pathOf w).steps = ((triangle.search 0).pathOf w').steps := by
    decide +kernel
  rintro steps ⟨S, hS, hsteps⟩ steps' ⟨S', hS', hsteps'⟩ he
  obtain rfl := List.mem_singleton.mp hS
  obtain rfl := List.mem_singleton.mp hS'
  obtain ⟨w, hw, rfl⟩ := (triangle.exists_walk_iff hnode).mpr hsteps
  obtain ⟨w', hw', rfl⟩ := (triangle.exists_walk_iff hnode).mpr hsteps'
  exact hwalks w hw w' hw' he

/-- The cycle of the triangle that starts along its first pool. -/
def triangleSteps : List SwapStep :=
  [⟨10, 1, 2, .uniswapV2, 30⟩, ⟨11, 2, 3, .uniswapV2, 30⟩, ⟨12, 3, 1, .uniswapV2, 30⟩]

theorem triangleSteps_closed : ClosedSimpleCycle triangle.pools 1 triangleSteps where
  sells := rfl
  buys := rfl
  chained := by decide
  distinct := by decide
  pooled := ⟨[0, 1, 2], by decide,
    .cons ⟨_, rfl, rfl, rfl, rfl, .inl ⟨rfl, rfl⟩⟩ <| .cons ⟨_, rfl, rfl, rfl, rfl, .inl ⟨rfl, rfl⟩⟩ <|
      .cons ⟨_, rfl, rfl, rfl, rfl, .inl ⟨rfl, rfl⟩⟩ .nil⟩

theorem buildArbPaths_complete_triangle :
    ((triangle.buildArbPaths [1]).map SwapPath.steps).count triangleSteps = 1 :=
  buildArbPaths_complete triangle [] [] 1 (by decide +kernel) triangle_hasher_injOn triangleSteps
    triangleSteps_closed (by decide) (by decide)

end Builder

end ArbBot.PathBuilder
