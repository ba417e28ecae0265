import ArbBot.Laws.PathBuilder.Search
import Mathlib.Data.List.Chain

/-!
# The cycles the path builder emits

The search speaks of nodes and edges, a swap path of tokens and pools. The node map carries one
to the other, so the closing walks from the node of a start token are exactly the closed simple
cycles of the pool list through that token (`exists_walk_iff`), of three to `maxHops + 1` steps.
-/

namespace ArbBot.PathBuilder

open Lib

/-! ## Cycles of steps -/

/-- Pool `i` of the list carries the step: it has the step's address, protocol and fee, and its
unordered pair of tokens is the step's. -/
def Trades (pools : List RawPool) (i : Nat) (step : SwapStep) : Prop :=
  ∃ pool, pools[i]? = some pool ∧ step.poolAddress = pool.address ∧
    step.protocol = pool.protocol ∧ step.fee = pool.fee ∧
      ((pool.token0 = step.tokenIn ∧ pool.token1 = step.tokenOut) ∨
        (pool.token0 = step.tokenOut ∧ pool.token1 = step.tokenIn))

/-- The steps sell `start`, pass through pairwise distinct other tokens, buy `start` back, and
use distinct pools of the list. -/
structure ClosedSimpleCycle (pools : List RawPool) (start : Address) (steps : List SwapStep) :
    Prop where
  sells : steps.head?.map SwapStep.tokenIn = some start
  buys : steps.getLast?.map SwapStep.tokenOut = some start
  chained : steps.IsChain fun a b => a.tokenOut = b.tokenIn
  distinct : (start :: steps.dropLast.map SwapStep.tokenOut).Nodup
  pooled : ∃ indices : List Nat, indices.Nodup ∧ List.Forall₂ (Trades pools) indices steps

/-- The step a leg between tokens stands for. -/
def StepOf (pools : List RawPool) (leg : Leg Address Nat) (step : SwapStep) : Prop :=
  ∃ pool, pools[leg.label]? = some pool ∧
    step = ⟨pool.address, leg.src, leg.dst, pool.protocol, pool.fee⟩

theorem StepOf.unique {pools : List RawPool} {leg : Leg Address Nat} {step step' : SwapStep}
    (h : StepOf pools leg step) (h' : StepOf pools leg step') : step = step' := by
  obtain ⟨pool, hp, rfl⟩ := h
  obtain ⟨pool', hp', rfl⟩ := h'
  rw [hp] at hp'
  cases hp'
  rfl

theorem steps_unique {pools : List RawPool} {legs : List (Leg Address Nat)}
    {steps steps' : List SwapStep} (h : List.Forall₂ (StepOf pools) legs steps)
    (h' : List.Forall₂ (StepOf pools) legs steps') : steps = steps' := by
  induction h generalizing steps' with
  | nil => cases h'; rfl
  | cons hstep _ ih =>
    cases h' with
    | cons hstep' hrest' => rw [hstep.unique hstep', ih hrest']

/-- The ends of the legs are the tokens of the steps. -/
theorem ends_eq {pools : List RawPool} {legs : List (Leg Address Nat)} {steps : List SwapStep}
    (h : List.Forall₂ (StepOf pools) legs steps) :
    legs.map (fun l => (l.src, l.dst)) = steps.map fun s => (s.tokenIn, s.tokenOut) := by
  induction h with
  | nil => rfl
  | cons hstep _ ih =>
    obtain ⟨pool, -, rfl⟩ := hstep
    simp only [List.map_cons, ih]

theorem interior_eq {pools : List RawPool} {legs : List (Leg Address Nat)} {steps : List SwapStep}
    (h : List.Forall₂ (StepOf pools) legs steps) :
    legs.dropLast.map Leg.dst = steps.dropLast.map SwapStep.tokenOut := by
  have := congrArg (fun l => (l.map Prod.snd).dropLast) (ends_eq h)
  simpa only [List.map_map, Function.comp_def, List.map_dropLast] using this

/-- The walk of the legs and the walk of the steps agree end by end. -/
theorem follows_iff_steps {pools : List RawPool} {start : Address}
    {legs : List (Leg Address Nat)} {steps : List SwapStep}
    (h : List.Forall₂ (StepOf pools) legs steps) (hne : legs ≠ []) :
    Follows start legs start ↔ steps.head?.map SwapStep.tokenIn = some start ∧
      steps.getLast?.map SwapStep.tokenOut = some start ∧
        steps.IsChain fun a b => a.tokenOut = b.tokenIn := by
  have hends := ends_eq h
  have hhead : legs.head?.map Leg.src = steps.head?.map SwapStep.tokenIn := by
    have := congrArg (fun l => l.head?.map Prod.fst) hends
    simpa only [List.head?_map, Option.map_map, Function.comp_def] using this
  have hlast : legs.getLast?.map Leg.dst = steps.getLast?.map SwapStep.tokenOut := by
    have := congrArg (fun l => l.getLast?.map Prod.snd) hends
    simpa only [List.getLast?_map, Option.map_map, Function.comp_def] using this
  have hchain : (legs.IsChain fun a b => a.dst = b.src) ↔
      steps.IsChain fun a b => a.tokenOut = b.tokenIn := by
    have hl := List.isChain_map (R := fun p q : Address × Address => p.2 = q.1)
      (fun l : Leg Address Nat => (l.src, l.dst)) (l := legs)
    have hs := List.isChain_map (R := fun p q : Address × Address => p.2 = q.1)
      (fun s : SwapStep => (s.tokenIn, s.tokenOut)) (l := steps)
    exact hl.symm.trans (hends ▸ hs)
  rw [follows_iff_isChain hne, hhead, hlast, hchain]

theorem StepOf.trades {pools : List RawPool} {leg : Leg Address Nat} {step : SwapStep}
    (h : StepOf pools leg step) (hlink : PoolLink pools leg.label leg.src leg.dst) :
    Trades pools leg.label step := by
  obtain ⟨pool, hp, rfl⟩ := h
  obtain ⟨pool', hp', hends⟩ := hlink
  rw [hp] at hp'
  cases hp'
  exact ⟨pool, hp, rfl, rfl, rfl, hends⟩

/-- Legs of a simple cycle of at least three hops spell a closed simple cycle of steps. -/
theorem ClosedSimpleCycle.of_legs {pools : List RawPool} {start : Address}
    {legs : List (Leg Address Nat)} {steps : List SwapStep}
    (hcycle : SimpleCycle (PoolLink pools) start legs)
    (hsteps : List.Forall₂ (StepOf pools) legs steps) (hlen : 3 ≤ legs.length) :
    ClosedSimpleCycle pools start steps := by
  obtain ⟨hsells, hbuys, hchained⟩ :=
    (follows_iff_steps hsteps hcycle.nonempty).mp hcycle.closes
  refine ⟨hsells, hbuys, hchained, ?_, legs.map Leg.label, ?_, ?_⟩
  · rw [← interior_eq hsteps, ← hcycle.closes.sources hcycle.nonempty]
    exact hcycle.simple
  · exact hcycle.labels_nodup hlen PoolLink.ends
  · rw [List.forall₂_map_left_iff]
    have hmem : ∀ l ∈ legs, PoolLink pools l.label l.src l.dst := hcycle.linked
    clear hcycle hlen hsells hbuys hchained
    induction hsteps with
    | nil => exact .nil
    | cons hstep _ ih =>
      exact .cons (hstep.trades (hmem _ List.mem_cons_self))
        (ih fun l hl => hmem l (List.mem_cons_of_mem _ hl))

/-- A closed simple cycle of steps comes from legs of a simple cycle of the pools. -/
theorem ClosedSimpleCycle.legs {pools : List RawPool} {start : Address} {steps : List SwapStep}
    (h : ClosedSimpleCycle pools start steps) :
    ∃ legs, SimpleCycle (PoolLink pools) start legs ∧ List.Forall₂ (StepOf pools) legs steps := by
  obtain ⟨indices, -, htrades⟩ := h.pooled
  have hlegs : ∃ legs, List.Forall₂ (StepOf pools) legs steps ∧
      ∀ l ∈ legs, PoolLink pools l.label l.src l.dst := by
    have hne := h.sells
    clear h hne
    induction htrades with
    | nil => exact ⟨[], .nil, fun _ hl => absurd hl List.not_mem_nil⟩
    | @cons i step _ _ htrade _ ih =>
      obtain ⟨pool, hp, ha, hprot, hfee, hends⟩ := htrade
      obtain ⟨legs, hsteps, hlinked⟩ := ih
      refine ⟨⟨step.tokenIn, i, step.tokenOut⟩ :: legs, .cons ⟨pool, hp, ?_⟩ hsteps, ?_⟩
      · rw [← ha, ← hprot, ← hfee]
      · rintro l (_ | ⟨_, hl⟩)
        exacts [⟨pool, hp, hends⟩, hlinked l hl]
  obtain ⟨legs, hsteps, hlinked⟩ := hlegs
  have hne : legs ≠ [] := by
    rintro rfl
    cases hsteps
    exact absurd h.sells (by simp)
  have hcloses := (follows_iff_steps hsteps hne).mpr ⟨h.sells, h.buys, h.chained⟩
  refine ⟨legs, ⟨hne, hcloses, ?_, hlinked⟩, hsteps⟩
  rw [hcloses.sources hne, interior_eq hsteps]
  exact h.distinct

/-! ## From nodes to tokens -/

/-- A simple cycle of nodes is a simple cycle of their tokens. -/
theorem tokens_of_nodes {pools : List RawPool} {n : Nat} {w : List Hop}
    (h : SimpleCycle (NodeLink (buildGraph pools)) n w) :
    SimpleCycle (PoolLink pools) ((buildGraph pools).token n)
      (w.map (Leg.map (buildGraph pools).token)) := by
  refine h.map _ ?_ ?_
  · intro i u v hlink
    obtain ⟨a, b, ha, hb, hpool⟩ := hlink.poolLink
    rw [TokenGraph.token_of_getElem? ha, TokenGraph.token_of_getElem? hb]
    exact hpool
  · rintro u ⟨i, v, hu⟩ u' ⟨i', v', hu'⟩ he
    obtain ⟨a, -, ha, -, -⟩ := hu.poolLink
    obtain ⟨a', -, ha', -, -⟩ := hu'.poolLink
    rw [TokenGraph.token_of_getElem? ha, TokenGraph.token_of_getElem? ha'] at he
    subst he
    exact (TokenGraph.node_of_getElem? ha).symm.trans (TokenGraph.node_of_getElem? ha')

/-- A simple cycle of tokens is a simple cycle of their nodes. -/
theorem nodes_of_tokens {pools : List RawPool} {start : Address} {legs : List (Leg Address Nat)}
    (h : SimpleCycle (PoolLink pools) start legs) :
    SimpleCycle (NodeLink (buildGraph pools)) ((buildGraph pools).node start)
      (legs.map (Leg.map (buildGraph pools).node)) := by
  refine h.map _ (fun i a b hlink => hlink.nodeLink.2.2) ?_
  rintro a ⟨i, b, ha⟩ a' ⟨i', b', ha'⟩ he
  have hget := ha.nodeLink.1
  rw [he, ha'.nodeLink.1] at hget
  exact (Option.some.inj hget).symm

/-- The hops of linked nodes become the steps of their tokens. -/
theorem steps_of_hops (s : Search) (w : List Hop)
    (h : ∀ hop ∈ w, ∃ pool, s.pools[hop.label]? = some pool) :
    List.Forall₂ (StepOf s.pools) (w.map (Leg.map s.graph.token)) (w.filterMap s.step) := by
  induction w with
  | nil => exact .nil
  | cons hop w ih =>
    obtain ⟨pool, hp⟩ := h hop List.mem_cons_self
    have hstep : s.step hop = some ⟨pool.address, s.graph.token hop.src, s.graph.token hop.dst,
        pool.protocol, pool.fee⟩ := by
      simp only [Search.step, hp, Option.map_some]
    rw [List.map_cons, List.filterMap_cons_some hstep]
    exact .cons ⟨pool, hp, rfl⟩ (ih fun k hk => h k (List.mem_cons_of_mem _ hk))

theorem NodeLink.pool {pools : List RawPool} {i u v : Nat}
    (h : NodeLink (buildGraph pools) i u v) : ∃ pool, pools[i]? = some pool := by
  obtain ⟨a, b, -, -, pool, hp, -⟩ := h.poolLink
  exact ⟨pool, hp⟩

namespace Builder

variable (b : Builder)

/-- The paths the builder may emit for a start token: the closed simple cycles of three to
`maxHops + 1` steps. -/
def IsPath (start : Address) (steps : List SwapStep) : Prop :=
  ClosedSimpleCycle b.pools start steps ∧ 3 ≤ steps.length ∧ steps.length ≤ b.maxHops + 1

/-- **The closing walks from the node of a token are the closed simple cycles of the pool list
through the token**, step by step. -/
theorem exists_walk_iff {start : Address} {n : Nat}
    (hn : (buildGraph b.pools).nodeMap start = some n) {steps : List SwapStep} :
    (∃ w ∈ (b.search n).walks (b.maxHops + 1) n [] {n}, ((b.search n).pathOf w).steps = steps) ↔
      b.IsPath start steps := by
  have htoken : (buildGraph b.pools).token n = start :=
    TokenGraph.token_of_getElem? (((buildGraph b.pools).agree _ _).mp hn)
  have hnode : (buildGraph b.pools).node start = n := by
    simp only [TokenGraph.node, hn, Option.getD_some]
  constructor
  · rintro ⟨w, hw, rfl⟩
    obtain ⟨hcycle, hmin, hmax⟩ := Search.mem_walks_top.mp hw
    have hsteps := steps_of_hops (b.search n) w fun hop hhop => (hcycle.linked hop hhop).pool
    have hlen := hsteps.length_eq
    rw [List.length_map] at hlen
    have hlegs : 3 ≤ (w.map (Leg.map (buildGraph b.pools).token)).length := by
      rw [List.length_map]; exact hmin
    refine ⟨ClosedSimpleCycle.of_legs (htoken ▸ tokens_of_nodes hcycle) hsteps hlegs, ?_⟩
    rw [show ((b.search n).pathOf w).steps = w.filterMap (b.search n).step from rfl, ← hlen]
    exact ⟨hmin, hmax⟩
  · rintro ⟨hclosed, hmin, hmax⟩
    obtain ⟨legs, hcycle, hsteps⟩ := hclosed.legs
    have hnodes := nodes_of_tokens hcycle
    rw [hnode] at hnodes
    refine ⟨legs.map (Leg.map (buildGraph b.pools).node), ?_, ?_⟩
    · refine Search.mem_walks_top.mpr ⟨hnodes, ?_⟩
      rw [List.length_map, hsteps.length_eq]
      exact ⟨hmin, hmax⟩
    · have hback := steps_of_hops (b.search n) _ fun hop hhop => (hnodes.linked hop hhop).pool
      have hid : (legs.map (Leg.map (buildGraph b.pools).node)).map
          (Leg.map (b.search n).graph.token) = legs := by
        rw [List.map_map]
        refine (List.map_congr_left fun l hl => ?_).trans (List.map_id legs)
        obtain ⟨hsrc, hdst, -⟩ := (hcycle.linked l hl).nodeLink
        simp only [Function.comp_apply, Leg.map, id_eq]
        exact congrArg₂ (Leg.mk · l.label ·) (TokenGraph.token_of_getElem? hsrc)
          (TokenGraph.token_of_getElem? hdst)
      rw [hid] at hback
      exact steps_unique hback hsteps

end Builder

end ArbBot.PathBuilder
