import ArbBot.Laws.Searcher.Evaluate
import ArbBot.SearcherRun
import Mathlib.Data.Finset.SDiff

/-!
# No lost touch, and where one is lost

A touched pool is outstanding from the event that names it to the next evaluation that begins with
it. Between steps the worker holds the outstanding pools in one of three places: the merged set of
its drain before the evaluation, the merged set of its drain after it, and what it carries
forward. Only the end of the second drain can let go of pools: with no newer block number it
sends its results and forgets what it absorbed. Block numbers of mempool events are one past the
latest block, so two of them tie, and an event can tie with the block that follows it.

In every run where no second drain ends that way, no touch is lost (`no_lost_touch`). Nothing here
says when an event is received, or that a drain ends.
-/

namespace ArbBot.Searcher

open Lib

/-! ## Outstanding pools -/

/-- The pools outstanding after one more entry. -/
def Entry.settle (pools : Finset Address) : Entry → Finset Address
  | .received touched => pools ∪ touched.toFinset
  | .evaluated merged => pools \ merged

/-- The pools named in a received event and in no evaluation since. -/
def outstanding (log : List Entry) : Finset Address := log.foldl Entry.settle ∅

theorem outstanding_snoc (log : List Entry) (entry : Entry) :
    outstanding (log ++ [entry]) = entry.settle (outstanding log) := by
  simp only [outstanding, List.foldl_append, List.foldl_cons, List.foldl_nil]

/-- A pool of a received event that no later evaluation began with is outstanding. -/
theorem mem_outstanding {pre post : List Entry} {pools : List Address} {p : Address}
    (hp : p ∈ pools) (hpost : ∀ E, Entry.evaluated E ∈ post → p ∉ E) :
    p ∈ outstanding (pre ++ .received pools :: post) := by
  induction post using List.reverseRecOn with
  | nil =>
    rw [outstanding_snoc]
    exact Finset.mem_union_right _ (List.mem_toFinset.mpr hp)
  | append_singleton post entry ih =>
    have ih := ih fun E hE => hpost E (List.mem_append_left _ hE)
    rw [← List.cons_append, ← List.append_assoc, outstanding_snoc]
    cases entry with
    | received qs => exact Finset.mem_union_left _ ih
    | evaluated E => exact Finset.mem_sdiff.mpr ⟨ih, hpost E (by simp)⟩

/-! ## Held pools -/

/-- The pools the worker has taken and not begun to evaluate. -/
def Pc.held : Pc → Finset Address
  | .top carryForward => (carryForward.map Prod.fst).getD ∅
  | .preDrain merged _ _ => merged
  | .evaluating _ _ _ => ∅
  | .postDrain _ _ _ postMerged _ _ => postMerged
  | .sending _ => ∅
  | .stopped => ∅

/-- Every outstanding pool is held, and a drain that took no event absorbed no pool. -/
structure Holds (w : Loop) : Prop where
  outstanding : outstanding w.log ⊆ w.pc.held
  drained : ∀ merged preFinal finalBlock postMerged results,
    w.pc = .postDrain merged preFinal finalBlock postMerged 0 results → postMerged = ∅

/-- A drain after an evaluation does not end with pools absorbed and no newer block. -/
def DrainKeeps (w : Loop) (i : Label) : Prop :=
  match i, w.pc with
  | .work, .postDrain _ preFinal finalBlock postMerged _ _ =>
    w.channel = [] → postMerged = ∅ ∨ preFinal < finalBlock
  | _, _ => True

theorem Holds.take {s : Searcher} {quote : V3Quote} {w : Loop} (h : Holds w)
    {event : PoolsTouched} {rest : List PoolsTouched} {pc : Pc}
    (hpc : w.pc.held ∪ event.touchedPools.toFinset ⊆ pc.held)
    (hdrained : ∀ merged preFinal finalBlock postMerged results,
      pc ≠ .postDrain merged preFinal finalBlock postMerged 0 results) :
    Holds (w.take s quote event rest pc) where
  outstanding := by
    rw [Loop.take, outstanding_snoc]
    exact (Finset.union_subset_union_left h.outstanding).trans hpc
  drained := fun merged preFinal finalBlock postMerged results hp =>
    absurd hp (hdrained merged preFinal finalBlock postMerged results)

/-- A step of the worker keeps hold of every outstanding pool, one case for each step. -/
theorem holds_work {s : Searcher} {quote : V3Quote} {w w' : Loop} (h : Holds w)
    (hkeeps : DrainKeeps w .work) (hstep : Work s quote w w') : Holds w' := by
  have hout := h.outstanding
  cases hstep with
  | carried hpc =>
    rw [hpc] at hout
    exact ⟨hout, by simp⟩
  | recv hpc hchannel =>
    refine h.take ?_ (by simp)
    rw [hpc]
    exact Finset.union_subset (Finset.empty_subset _) (Finset.Subset.refl _)
  | recvClosed hpc _ _ =>
    rw [hpc] at hout
    exact ⟨hout, by simp⟩
  | preDrainTake hpc _ =>
    refine h.take ?_ (by simp)
    rw [hpc]
    exact Finset.Subset.refl _
  | preDrainEnd hpc _ _ hvec _ =>
    rw [hpc] at hout
    refine ⟨?_, ?_⟩
    · -- every outstanding pool is in the merged set the evaluation begins with
      rw [outstanding_snoc]
      intro p hp
      obtain ⟨hopen, hnew⟩ := Finset.mem_sdiff.mp hp
      exact absurd (hout hopen) hnew
    · intro merged preFinal finalBlock postMerged results hp
      simp only at hp
      split at hp <;> cases hp
  | evaluate hpc _ =>
    rw [hpc] at hout
    refine ⟨hout, fun merged preFinal finalBlock postMerged results hp => ?_⟩
    cases hp
    rfl
  | postDrainTake hpc _ =>
    refine h.take ?_ (by simp)
    rw [hpc]
    exact Finset.Subset.refl _
  | @postDrainEnd merged postMerged preFinal finalBlock postDrained results hpc hchannel =>
    rw [hpc] at hout
    simp only [DrainKeeps, hpc] at hkeeps
    by_cases hnewer : 0 < postDrained ∧ preFinal < finalBlock
    · rw [if_pos hnewer]
      exact ⟨hout.trans Finset.subset_union_right, by simp⟩
    · rw [if_neg hnewer]
      -- nothing newer: the drain has to have absorbed nothing
      have hempty : postMerged = ∅ := by
        rcases hkeeps hchannel with he | hlt
        · exact he
        · have hzero : postDrained = 0 := by
            by_contra hne
            exact hnewer ⟨Nat.pos_of_ne_zero hne, hlt⟩
          exact h.drained merged preFinal finalBlock postMerged results (hzero ▸ hpc)
      exact ⟨hout.trans (Finset.subset_of_eq hempty), by simp⟩
  | send hpc =>
    rw [hpc] at hout
    exact ⟨hout, by simp⟩
  | sendClosed hpc =>
    rw [hpc] at hout
    exact ⟨hout, by simp⟩
  | sent hpc =>
    rw [hpc] at hout
    exact ⟨hout, by simp⟩

theorem holds_step {s : Searcher} {quote : V3Quote} {w w' : Loop} {i : Label} (h : Holds w)
    (hstep : Guarded DrainKeeps (LoopStep s quote) w i w') : Holds w' := by
  obtain ⟨hkeeps, hstep⟩ := hstep
  cases hstep with
  | arrive _ => exact ⟨h.outstanding, h.drained⟩
  | close => exact ⟨h.outstanding, h.drained⟩
  | write => exact ⟨h.outstanding, h.drained⟩
  | work hwork => exact holds_work h hkeeps hwork

theorem Holds.start (m : Memory) : Holds (.start m) :=
  ⟨Finset.Subset.refl _, by simp [Loop.start]⟩

/-! ## Runs -/

/-- The worker waits for an event with nothing carried forward, sends, or has stopped. -/
def AtRest (w : Loop) : Prop := w.pc.held = ∅

/-- **No lost touch.** In every run whose second drains never end with pools absorbed and no newer
block, every pool of a received event has been in the set a later evaluation began with, or is
held for the next one; at rest none is held. -/
theorem no_lost_touch {s : Searcher} {quote : V3Quote} {m : Memory} {is : List Label} {w : Loop}
    (hrun : Run (Guarded DrainKeeps (LoopStep s quote)) (.start m) is w)
    {pre post : List Entry} {pools : List Address} (hlog : w.log = pre ++ .received pools :: post)
    {p : Address} (hp : p ∈ pools) :
    ((∃ E, Entry.evaluated E ∈ post ∧ p ∈ E) ∨ p ∈ w.pc.held) ∧
      (AtRest w → ∃ E, Entry.evaluated E ∈ post ∧ p ∈ E) := by
  have hholds : Holds w := hrun.invariant (fun _ _ _ h hstep => holds_step h hstep) (.start m)
  have hor : (∃ E, Entry.evaluated E ∈ post ∧ p ∈ E) ∨ p ∈ w.pc.held := by
    by_contra hnot
    rw [not_or] at hnot
    refine hnot.2 (hholds.outstanding ?_)
    rw [hlog]
    exact mem_outstanding hp fun E hE hpE => hnot.1 ⟨E, hE, hpE⟩
  refine ⟨hor, fun hrest => hor.resolve_right ?_⟩
  rw [hrest]
  exact Finset.notMem_empty p

/-! ### Two mempool events -/

/-- One registered path, through pool 10. -/
def onePath : Searcher := (new 50000).registerPaths [⟨[⟨10, 1, 2, .uniswapV2, 30⟩], 77⟩]

/-- Nothing loaded. -/
def blank : Memory := ⟨.empty, .new, .new⟩

theorem evaluates_unrated (block : UInt64) :
    onePath.Evaluates blank [0] block []
      { blank with rateCache := PathRateCache.new.insert 77 0 block } where
  sorted := .nil
  ran := by
    let e : Evaluation := ⟨.new, fun _ => .waiting⟩
    let e' : Evaluation :=
      { (e.setTask 0 .looked).setTask 0 (.done none) with
        cache := PathRateCache.new.insert 77 0 block }
    refine ⟨[0, 0], e', .cons (t := e.setTask 0 .looked) rfl (.cons rfl (.nil _)), ?_, .refl _, rfl⟩
    intro k hk
    obtain rfl : k = 0 := by simpa using hk
    exact ⟨none, rfl⟩

/-- A mempool event on pool 10 is evaluated as block 1. A second one, on pool 11, arrives
meanwhile, is absorbed under the same block number 1, and is forgotten: the worker waits for the
next event, and no evaluation began with pool 11. -/
theorem lost_touch :
    ∃ w, Run (LoopStep onePath .missing) (.start blank)
        [.arrive ⟨0, [10]⟩, .work, .work, .work, .arrive ⟨0, [11]⟩, .work, .work, .work] w ∧
      AtRest w ∧ w.log = [.received [10], .evaluated {10}, .received [11]] := by
  refine ⟨_, .cons (.arrive rfl) <| .cons (.work (.recv rfl rfl)) <|
    .cons (.work (.preDrainEnd rfl rfl (List.nodup_singleton 10) rfl fun is => .refl is)) <|
    .cons (.work (.evaluate rfl (evaluates_unrated 1))) <| .cons (.arrive rfl) <|
    .cons (.work (.postDrainTake rfl rfl)) <| .cons (.work (.postDrainEnd rfl rfl)) <|
    .cons (.work (.sent rfl)) (.nil _), rfl, rfl⟩

/-- Block 2 touches pool 11 while block 1 is evaluated: pool 11 is carried forward, and the next
evaluation begins with it and with pool 10 again. -/
theorem carried_run :
    ∃ w, Run (Guarded DrainKeeps (LoopStep onePath .missing)) (.start blank)
        [.arrive ⟨1, [10]⟩, .work, .work, .work, .arrive ⟨2, [11]⟩, .work, .work, .work, .work] w ∧
      AtRest w ∧ w.log = [.received [10], .evaluated {10}] ++
        .received [11] :: [.evaluated ({10} ∪ {11})] := by
  refine ⟨_, .cons ⟨trivial, .arrive rfl⟩ <| .cons ⟨trivial, .work (.recv rfl rfl)⟩ <|
    .cons ⟨trivial, .work (.preDrainEnd rfl rfl (List.nodup_singleton 10) rfl fun is => .refl is)⟩ <|
    .cons ⟨trivial, .work (.evaluate rfl (evaluates_unrated 1))⟩ <|
    .cons ⟨trivial, .arrive rfl⟩ <|
    .cons ⟨fun h => (List.cons_ne_nil _ _ h).elim, .work (.postDrainTake rfl rfl)⟩ <|
    .cons ⟨fun _ => .inr (by decide), .work (.postDrainEnd rfl rfl)⟩ <|
    .cons ⟨trivial, .work (.carried rfl)⟩ <|
    .cons ⟨trivial, .work (.preDrainEnd rfl rfl (by decide : ([10, 11] : List Address).Nodup) rfl
      fun is => .refl is)⟩ (.nil _), rfl, rfl⟩

theorem no_lost_touch_carried :
    ∃ w, Run (Guarded DrainKeeps (LoopStep onePath .missing)) (.start blank)
        [.arrive ⟨1, [10]⟩, .work, .work, .work, .arrive ⟨2, [11]⟩, .work, .work, .work, .work] w ∧
      ∃ E, Entry.evaluated E ∈ [Entry.evaluated ({10} ∪ {11})] ∧ (11 : Address) ∈ E :=
  let ⟨w, hrun, hrest, hlog⟩ := carried_run
  ⟨w, hrun, (no_lost_touch hrun hlog List.mem_cons_self).2 hrest⟩

end ArbBot.Searcher
