import ArbBot.Laws.PathBuilder.Emission

/-!
# The hop window

The module text of the source promises every cycle of two to `max_hops` swaps. `HopWindow` is
that promise for one pool list: no path outside the window, and below the cap both two-step
cycles through any two pools on one pair. The builder emits three to `max_hops + 1` swaps instead,
so the promise is kept exactly for pool lists that have nothing at either end of the window
(`hopWindow_iff`).

The builder drops a path whose hash it has seen, so the promise is made only for two-step cycles
whose hash no other cycle through a start token has.
-/

namespace ArbBot.PathBuilder

open Search (Tracks)

/-- No other closed simple cycle through a start token has the hash of `steps`. -/
def Unshared (pools : List RawPool) (starts : List Address) (hasher : StepHasher)
    (steps : List SwapStep) : Prop :=
  ∀ S ∈ starts, ∀ steps', ClosedSimpleCycle pools S steps' → hasher steps' = hasher steps →
    steps' = steps

/-- `out` sells `S` for another token in one pool, and `back` buys it back in a second pool. -/
structure TwoStep (pools : List RawPool) (S : Address) (out back : SwapStep) : Prop where
  pools : ∃ i j, i ≠ j ∧ Trades pools i out ∧ Trades pools j back
  sells : out.tokenIn = S
  leaves : out.tokenOut ≠ S
  returns : back.tokenIn = out.tokenOut
  buys : back.tokenOut = S

/-- The promised window for one pool list, one list of start tokens and one `maxHops`, whatever
the order of the edges, the hash function and the cap are. -/
def HopWindow (pools : List RawPool) (starts : List Address) (maxHops : Nat) : Prop :=
  ∀ (order : EdgeOrder (buildGraph pools)) (hasher : StepHasher) (cap : Nat),
    let b : Builder := ⟨pools, order, hasher, maxHops, cap⟩
    (∀ p ∈ b.buildArbPaths starts, 2 ≤ p.steps.length ∧ p.steps.length ≤ maxHops) ∧
      ∀ pre S post, starts = pre ++ S :: post → (b.round (b.rounds ⟨[], ∅⟩ pre) S).2 < cap →
        ∀ out back, TwoStep pools S out back → Unshared pools starts hasher [out, back] →
          [out, back] ∈ (b.buildArbPaths starts).map SwapPath.steps

/-- Two different pools trade one start token against one other token. -/
def ParallelPools (pools : List RawPool) (starts : List Address) : Prop :=
  ∃ S ∈ starts, ∃ X, X ≠ S ∧ ∃ i j, i ≠ j ∧ PoolLink pools i S X ∧ PoolLink pools j S X

theorem Trades.poolLink {pools : List RawPool} {i : Nat} {step : SwapStep}
    (h : Trades pools i step) : PoolLink pools i step.tokenIn step.tokenOut := by
  obtain ⟨pool, hp, -, -, -, hends⟩ := h
  exact ⟨pool, hp, hends⟩

/-- A link of a pool is a step through it. -/
theorem PoolLink.trades {pools : List RawPool} {i : Nat} {a c : Address}
    (h : PoolLink pools i a c) :
    ∃ step, Trades pools i step ∧ step.tokenIn = a ∧ step.tokenOut = c := by
  obtain ⟨pool, hp, hends⟩ := h
  exact ⟨⟨pool.address, a, c, pool.protocol, pool.fee⟩, ⟨pool, hp, rfl, rfl, rfl, hends⟩, rfl, rfl⟩

theorem TwoStep.parallelPools {pools : List RawPool} {starts : List Address} {S : Address}
    {out back : SwapStep} (h : TwoStep pools S out back) (hS : S ∈ starts) :
    ParallelPools pools starts := by
  obtain ⟨i, j, hij, hout, hback⟩ := h.pools
  have hi := hout.poolLink
  have hj := hback.poolLink
  rw [h.sells] at hi
  rw [h.returns, h.buys] at hj
  exact ⟨S, hS, out.tokenOut, h.leaves, i, j, hij, hi, hj.symm⟩

theorem ParallelPools.twoStep {pools : List RawPool} {starts : List Address}
    (h : ParallelPools pools starts) : ∃ S ∈ starts, ∃ out back, TwoStep pools S out back := by
  obtain ⟨S, hS, X, hX, i, j, hij, hi, hj⟩ := h
  obtain ⟨out, hout, hin, houtX⟩ := hi.trades
  obtain ⟨back, hback, hbackX, hbackS⟩ := hj.symm.trades
  exact ⟨S, hS, out, back, ⟨i, j, hij, hout, hback⟩, hin, houtX ▸ hX, hbackX.trans houtX.symm,
    hbackS⟩

/-! ## One cycle in the spotlight -/

namespace Builder

/-- A builder whose hash tells one step list from all others. -/
def spotlight (pools : List RawPool) (steps : List SwapStep) (maxHops : Nat) : Builder where
  pools := pools
  order := .insertion _
  hasher steps' := if steps' = steps then 1 else 0
  maxHops := maxHops
  maxPathsPerToken := 3

variable {pools : List RawPool} {steps : List SwapStep} {maxHops : Nat}

theorem spotlight_hasher_eq {steps' : List SwapStep}
    (h : (spotlight pools steps maxHops).hasher steps' =
      (spotlight pools steps maxHops).hasher steps) : steps' = steps := by
  by_contra hne
  simp [spotlight, hne] at h

/-- A round emits at most as many paths as there are hashes. -/
theorem round_count_le {b : Builder} (hashes : List UInt64)
    (hmem : ∀ steps, b.hasher steps ∈ hashes) {e : Emitted} (he : Tracks e.allPaths e.seenHashes)
    (start : Address) : (b.round e start).2 ≤ hashes.length := by
  have hspec := b.round_spec e start
  obtain ⟨new, hall, hcount, hnew⟩ := hspec.grows
  have hnodup := (hspec.tracks he).nodup
  rw [hall, List.map_append] at hnodup
  have hsub : new.map SwapPath.hash ⊆ hashes := by
    intro h hh
    obtain ⟨p, hp, rfl⟩ := List.mem_map.mp hh
    rw [(hnew p hp).1]
    exact hmem _
  have := (List.subperm_of_subset (List.nodup_append.mp hnodup).2.1 hsub).length_le
  rwa [List.length_map, ← hcount] at this

/-- Under the spotlight no round reaches the cap. -/
theorem spotlight_round_lt (pre : List Address) (S : Address) :
    ((spotlight pools steps maxHops).round ((spotlight pools steps maxHops).rounds ⟨[], ∅⟩ pre)
      S).2 < 3 := by
  have hmem : ∀ steps', (spotlight pools steps maxHops).hasher steps' ∈ [0, 1] := by
    intro steps'
    by_cases h : steps' = steps <;> simp [spotlight, h]
  have := round_count_le [0, 1] hmem ((spotlight pools steps maxHops).sound pre).tracks S
  exact Nat.lt_succ_of_le this

end Builder

/-! ## Where the promise is kept -/

/-- Two parallel pools break the promise: no two-step cycle is ever emitted. -/
theorem HopWindow.not_parallel {pools : List RawPool} {starts : List Address} {maxHops : Nat}
    (h : HopWindow pools starts maxHops) : ¬ ParallelPools pools starts := by
  intro hpar
  obtain ⟨S, hS, out, back, htwo⟩ := hpar.twoStep
  obtain ⟨pre, post, rfl⟩ := List.append_of_mem hS
  have hemitted := (h _ (Builder.spotlight pools [out, back] maxHops).hasher 3).2 pre S post rfl
    (Builder.spotlight_round_lt pre S) out back htwo fun _ _ _ _ he =>
      Builder.spotlight_hasher_eq he
  obtain ⟨p, hp, hsteps⟩ := List.mem_map.mp hemitted
  have := (Builder.length_of_mem hp).1
  rw [hsteps] at this
  exact absurd this (by simp)

/-- A cycle of `maxHops + 1` steps breaks the promise: it is emitted. -/
theorem HopWindow.not_longer {pools : List RawPool} {starts : List Address} {maxHops : Nat}
    (h : HopWindow pools starts maxHops) (hmax : 2 ≤ maxHops) :
    ¬ ∃ S ∈ starts, ∃ steps, ClosedSimpleCycle pools S steps ∧ steps.length = maxHops + 1 := by
  rintro ⟨S, hS, steps, hcycle, hlen⟩
  obtain ⟨pre, post, rfl⟩ := List.append_of_mem hS
  have hpath : (Builder.spotlight pools steps maxHops).IsPath S steps :=
    ⟨hcycle, by omega, Nat.le_of_eq hlen⟩
  obtain ⟨p, hp, hhash, hnew, -⟩ :=
    Builder.exists_emitted post (Builder.spotlight_round_lt pre S) hpath
  have hsteps : p.steps = steps := Builder.spotlight_hasher_eq (by rw [← hhash, hnew]; rfl)
  have := ((h _ (Builder.spotlight pools steps maxHops).hasher 3).1 p hp).2
  rw [hsteps] at this
  omega

/-- **The promised window is kept exactly when nothing lies at its ends**: no two different pools
trade a start token against one other token, and no closed simple cycle through a start token has
`maxHops + 1` steps. -/
theorem hopWindow_iff (pools : List RawPool) (starts : List Address) (maxHops : Nat)
    (hmax : 2 ≤ maxHops) :
    HopWindow pools starts maxHops ↔
      ¬ ParallelPools pools starts ∧
        ¬ ∃ S ∈ starts, ∃ steps, ClosedSimpleCycle pools S steps ∧
          steps.length = maxHops + 1 := by
  constructor
  · exact fun h => ⟨h.not_parallel, h.not_longer hmax⟩
  · rintro ⟨hpar, hlong⟩ order hasher cap
    refine ⟨fun p hp => ?_, fun pre S post hstarts _ out back htwo _ => ?_⟩
    · have hlen := Builder.length_of_mem hp
      obtain ⟨-, S, hS, hpath⟩ := (Builder.sound _ starts).paths p hp
      have hne : p.steps.length ≠ maxHops + 1 := fun he => hlong ⟨S, hS, _, hpath.1, he⟩
      have hle : p.steps.length ≤ maxHops + 1 := hlen.2
      omega
    · exact absurd (htwo.parallelPools (by simp [hstarts])) hpar

/-- A cycle takes a pool for each step. -/
theorem ClosedSimpleCycle.length_le {pools : List RawPool} {S : Address} {steps : List SwapStep}
    (h : ClosedSimpleCycle pools S steps) : steps.length ≤ pools.length := by
  obtain ⟨indices, hnodup, htrades⟩ := h.pooled
  have hsub : indices ⊆ List.range pools.length := by
    clear hnodup h
    induction htrades with
    | nil => exact List.nil_subset _
    | cons hfirst _ ih =>
      obtain ⟨pool, hpool, -⟩ := hfirst
      exact List.cons_subset.mpr
        ⟨List.mem_range.mpr (List.getElem?_eq_some_iff.mp hpool).1, ih⟩
  have hlength := (List.subperm_of_subset hnodup hsub).length_le
  rwa [List.length_range, htrades.length_eq] at hlength

theorem triangle_not_parallel : ¬ ParallelPools Builder.triangle.pools [1] := by
  have hlinks : ∀ i X, PoolLink Builder.triangle.pools i 1 X → i = 0 ∧ X = 2 ∨ i = 2 ∧ X = 3 := by
    rintro i X ⟨pool, hpool, hends⟩
    match i with
    | 0 =>
      cases hpool
      rcases hends with ⟨-, rfl⟩ | ⟨-, h⟩
      · exact .inl ⟨rfl, rfl⟩
      · exact absurd h (by decide)
    | 1 =>
      cases hpool
      rcases hends with ⟨h, -⟩ | ⟨-, h⟩ <;> exact absurd h (by decide)
    | 2 =>
      cases hpool
      rcases hends with ⟨h, -⟩ | ⟨rfl, -⟩
      · exact absurd h (by decide)
      · exact .inr ⟨rfl, rfl⟩
    | n + 3 => cases hpool
  rintro ⟨S, hS, X, -, i, j, hij, hi, hj⟩
  obtain rfl := List.mem_singleton.mp hS
  rcases hlinks i X hi with ⟨rfl, rfl⟩ | ⟨rfl, rfl⟩ <;>
    rcases hlinks j _ hj with ⟨rfl, hX⟩ | ⟨rfl, hX⟩
  · exact hij rfl
  · exact absurd hX (by decide)
  · exact absurd hX (by decide)
  · exact hij rfl

/-- Three pools in a triangle, with room for its cycles. -/
theorem hopWindow_iff_triangle : HopWindow Builder.triangle.pools [1] 3 := by
  refine (hopWindow_iff _ _ 3 (by decide)).mpr ⟨triangle_not_parallel, ?_⟩
  rintro ⟨S, -, steps, hcycle, hlength⟩
  have hpools : steps.length ≤ 3 := hcycle.length_le
  omega

/-- With `max_hops` at its documented minimum, two pools on one pair yield nothing, and a triangle
yields paths of three steps. -/
theorem not_hopWindow_two :
    ¬ HopWindow [Builder.pairPool 10 1 2, Builder.pairPool 11 1 2] [1] 2 ∧
      ¬ HopWindow Builder.triangle.pools [1] 2 := by
  constructor
  · intro h
    let pools := [Builder.pairPool 10 1 2, Builder.pairPool 11 1 2]
    let out : SwapStep := ⟨10, 1, 2, .uniswapV2, 30⟩
    let back : SwapStep := ⟨11, 2, 1, .uniswapV2, 30⟩
    have htwo : TwoStep pools 1 out back :=
      ⟨⟨0, 1, by decide, ⟨_, rfl, rfl, rfl, rfl, .inl ⟨rfl, rfl⟩⟩,
        ⟨_, rfl, rfl, rfl, rfl, .inr ⟨rfl, rfl⟩⟩⟩, rfl, by decide, rfl, rfl⟩
    have hemitted := (h (.insertion _) (Builder.spotlight pools [out, back] 2).hasher 1).2 [] 1 [] rfl
      (by decide +kernel) out back htwo fun _ _ _ _ he => Builder.spotlight_hasher_eq he
    revert hemitted
    decide +kernel
  · intro h
    have hlen := (h (.insertion _) Builder.triangle.hasher 10).1
    revert hlen
    decide +kernel

end ArbBot.PathBuilder
