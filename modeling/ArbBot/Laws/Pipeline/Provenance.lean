import ArbBot.Laws.Pipeline.Accounting
import ArbBot.Laws.Searcher.Affected
import ArbBot.Laws.Searcher.Evaluate
import ArbBot.Laws.Simulator.Accounting

/-!
# Where the sender's paths come from

Every path the sender takes is registered, goes through a pool some received event named, carries
the gas estimate of its steps and a block number no newer than the newest the searcher has
published, and pays by what the simulator computed for it; in SIM mode the sender takes none
(`taken_sourced`). The number need not be that of a block: a mempool event is stamped with one past
the latest. Each worker hands on what it was given, so the property is one of every place a path can
be in.
-/

namespace ArbBot

open Lib

/-! ## What an evaluation returns -/

namespace Searcher

variable {s : Searcher} {m m' : Memory} {indices : List Nat} {blockNumber : UInt64}

/-- A task returns its own path, with its gas and the block of the evaluation. -/
def Faithful (s : Searcher) (indices : List Nat) (blockNumber : UInt64) (e : Evaluation) : Prop :=
  ∀ k arb, e.tasks k = .done (some arb) → s.taskPath indices k = some arb.path ∧
    arb.gasEstimate = estimateGas arb.path ∧ arb.blockNumber = blockNumber

theorem Faithful.setTask {e : Evaluation} (h : Faithful s indices blockNumber e) {k : Nat}
    {task : Task} (htask : ∀ arb, task = .done (some arb) → s.taskPath indices k = some arb.path ∧
      arb.gasEstimate = estimateGas arb.path ∧ arb.blockNumber = blockNumber) :
    Faithful s indices blockNumber (e.setTask k task) := by
  intro j arb hdone
  by_cases hj : j = k
  · subst hj
    exact htask arb ((if_pos rfl).symm.trans hdone)
  · exact h j arb ((if_neg hj).symm.trans hdone)

theorem Faithful.step {est : RateEstimator} {e e' : Evaluation} {k : Nat}
    (h : Faithful s indices blockNumber e) (hstep : s.TaskStep est indices blockNumber e k e') :
    Faithful s indices blockNumber e' := by
  unfold TaskStep taskStep at hstep
  split at hstep
  · split at hstep
    · cases hstep
      exact h.setTask nofun
    · cases hstep
      exact h.setTask nofun
  · rename_i path _ hpath _
    cases hstep
    refine h.setTask fun arb hdone => ?_
    obtain ⟨-, rfl⟩ := assess_eq_some.mp (Task.done.inj hdone)
    exact ⟨hpath, rfl, rfl⟩
  · cases hstep

/-- Every result is the path of an index, whatever the hashes are. -/
theorem Evaluates.source {results : List ArbPath} {arb : ArbPath}
    (h : s.Evaluates m indices blockNumber results m') (hmem : arb ∈ results) :
    (∃ i ∈ indices, s.allPaths[i]? = some arb.path) ∧
      arb.gasEstimate = estimateGas arb.path ∧ arb.blockNumber = blockNumber := by
  obtain ⟨ks, e, hrun, -, hperm, -⟩ := h.ran
  have hfaithful : Faithful s indices blockNumber e :=
    hrun.invariant (fun _ _ _ h hstep => h.step hstep) nofun
  obtain ⟨k, -, hresult⟩ := List.mem_filterMap.mp (hperm.mem_iff.mp hmem)
  have hdone : e.tasks k = .done (some arb) := by
    cases htask : e.tasks k with
    | done result =>
      rw [htask] at hresult
      exact congrArg Task.done hresult
    | waiting | looked =>
      rw [htask] at hresult
      cases hresult
  obtain ⟨hpath, hgas, hblock⟩ := hfaithful k arb hdone
  obtain ⟨i, hi, hpath⟩ := taskPath_eq_some.mp hpath
  exact ⟨⟨i, List.mem_of_getElem? hi, hpath⟩, hgas, hblock⟩

end Searcher

namespace Pipeline

open Searcher (Loop Entry)

variable {n : Nat} {p : Setup} {s t : System n}

/-! ## Sources -/

/-- What paths are judged by: the searcher's log, and the newest block number published. -/
structure Seen where
  log : List Entry
  latest : UInt64

def seen (w : Loop) : Seen := ⟨w.log, w.sharedLatestBlock⟩

/-- A received event named the pool. -/
def Touched (log : List Entry) (pool : Address) : Prop :=
  ∃ pools, .received pools ∈ log ∧ pool ∈ pools

/-- Where a path comes from. -/
structure Sourced (p : Setup) (w : Seen) (arb : ArbPath) : Prop where
  registered : arb.path ∈ p.paths
  touched : ∃ step ∈ arb.path.steps, Touched w.log step.poolAddress
  gas : arb.gasEstimate = Searcher.estimateGas arb.path
  block : arb.blockNumber ≤ w.latest

/-- The path pays by the simulator's figures, and the mode lets it through. -/
structure Pays (p : Setup) (valid : ValidPath) : Prop where
  live : p.simMode = false
  gain : valid.amountIn < valid.amountOut
  fee : Simulator.flashFee (Ignition.simulatorConfig p.config) valid.amountIn <
    valid.amountOut - valid.amountIn
  least : (Ignition.simulatorConfig p.config).minProfitWei ≤ valid.netProfit

/-- The log is longer and the newest number no older. -/
structure Later (w w' : Seen) : Prop where
  log : w.log ⊆ w'.log
  block : w.latest ≤ w'.latest

theorem Later.refl (w : Seen) : Later w w := ⟨List.Subset.refl _, UInt64.le_refl _⟩

theorem Touched.mono {log log' : List Entry} {pool : Address} (h : Touched log pool)
    (hlog : log ⊆ log') : Touched log' pool :=
  h.imp fun _ h => ⟨hlog h.1, h.2⟩

theorem Sourced.mono {w w' : Seen} {arb : ArbPath} (h : Sourced p w arb) (hlater : Later w w') :
    Sourced p w' arb where
  registered := h.registered
  touched := h.touched.imp fun _ h => ⟨h.1, h.2.mono hlater.log⟩
  gas := h.gas
  block := UInt64.le_trans h.block hlater.block

/-! ## The searcher -/

/-- What the searcher has in hand at each place of its loop. -/
def SearchSourced (p : Setup) (w : Seen) : Searcher.Pc → Prop
  | .top none | .stopped => True
  | .top (some (pools, _)) => ∀ pool ∈ pools, Touched w.log pool
  | .preDrain merged _ _ => ∀ pool ∈ merged, Touched w.log pool
  | .evaluating merged finalBlock affected =>
    (∀ pool ∈ merged, Touched w.log pool) ∧ finalBlock ≤ w.latest ∧
      ∀ i ∈ affected, ∃ path ∈ p.paths[i]?, ∃ step ∈ path.steps, Touched w.log step.poolAddress
  | .postDrain merged _ _ postMerged _ results =>
    (∀ pool ∈ merged, Touched w.log pool) ∧ (∀ pool ∈ postMerged, Touched w.log pool) ∧
      ∀ arb ∈ results, Sourced p w arb
  | .sending results => ∀ arb ∈ results, Sourced p w arb

theorem SearchSourced.mono {w w' : Seen} {pc : Searcher.Pc} (h : SearchSourced p w pc)
    (hlater : Later w w') : SearchSourced p w' pc := by
  have htouched : ∀ {pools : Finset Address}, (∀ pool ∈ pools, Touched w.log pool) →
      ∀ pool ∈ pools, Touched w'.log pool := fun h pool hpool => (h pool hpool).mono hlater.log
  have hsourced : ∀ {results : List ArbPath}, (∀ arb ∈ results, Sourced p w arb) →
      ∀ arb ∈ results, Sourced p w' arb := fun h arb harb => (h arb harb).mono hlater
  cases pc with
  | top carryForward =>
    cases carryForward with
    | none => trivial
    | some carried => exact htouched h
  | preDrain merged finalBlock mempool => exact htouched h
  | evaluating merged finalBlock affected =>
    refine ⟨htouched h.1, UInt64.le_trans h.2.1 hlater.block, fun i hi => ?_⟩
    obtain ⟨path, hpath, step, hstep, hpool⟩ := h.2.2 i hi
    exact ⟨path, hpath, step, hstep, hpool.mono hlater.log⟩
  | postDrain merged preFinal finalBlock postMerged postDrained results =>
    exact ⟨htouched h.1, htouched h.2.1, hsourced h.2.2⟩
  | sending results => exact hsourced h
  | stopped => trivial

section Take

variable {log : List Entry} {merged : Finset Address} {event : PoolsTouched}

theorem touched_event :
    ∀ pool ∈ event.touchedPools.toFinset, Touched (log ++ [.received event.touchedPools]) pool :=
  fun _ hpool => ⟨event.touchedPools, List.mem_append_right _ (List.mem_singleton_self _),
    List.mem_toFinset.mp hpool⟩

/-- The pools merged so far and those of the event taken. -/
theorem touched_union (h : ∀ pool ∈ merged, Touched log pool) :
    ∀ pool ∈ merged ∪ event.touchedPools.toFinset,
      Touched (log ++ [.received event.touchedPools]) pool := by
  intro pool hpool
  rcases Finset.mem_union.mp hpool with hold | hnew
  · exact (h pool hold).mono (List.subset_append_left _ _)
  · exact touched_event pool hnew

/-- The searcher's log after one more entry. -/
theorem later_snoc (w : Loop) (entry : Entry) :
    Later (seen w) ⟨w.log ++ [entry], w.sharedLatestBlock⟩ :=
  ⟨List.subset_append_left _ _, UInt64.le_refl _⟩

end Take

/-- The indices a worker with the registered paths selects. -/
theorem affected_touched {log : List Entry} {mergedVec : List Address} {mempool : Bool}
    {shuffle : List Nat → List Nat} (hshuffle : ∀ is, (shuffle is).Perm is)
    (h : ∀ pool ∈ mergedVec, Touched log pool) :
    ∀ i ∈ p.searcher.getAffectedPaths shuffle mergedVec mempool,
      ∃ path ∈ p.paths[i]?, ∃ step ∈ path.steps, Touched log step.poolAddress := by
  intro i hi
  have hindex : p.searcher.poolToPaths =
      ((Searcher.new p.maxPathsPerBlock).registerPaths p.paths).poolToPaths :=
    (Searcher.registerPoolMeta_fields p.metas _).2.2
  obtain ⟨path, hpath, step, hstep, hpool⟩ :=
    (Searcher.selects_getAffectedPaths mergedVec hindex hshuffle mempool).sound i hi
  exact ⟨path, hpath, step, hstep, h step.poolAddress hpool⟩

/-- A step of the searcher, one case for each. -/
theorem searchSourced_work {w w' : Loop} (h : SearchSourced p (seen w) w.pc)
    (hwork : Searcher.Work p.searcher p.quote w w') :
    Later (seen w) (seen w') ∧ SearchSourced p (seen w') w'.pc := by
  cases hwork with
  | carried hpc =>
    rw [hpc] at h
    exact ⟨.refl (seen w), h⟩
  | recv hpc _ => exact ⟨later_snoc w _, touched_event⟩
  | recvClosed _ _ _ => exact ⟨.refl (seen w), trivial⟩
  | preDrainTake hpc _ =>
    rw [hpc] at h
    exact ⟨later_snoc w _, touched_union h⟩
  | @preDrainEnd merged finalBlock mempool mergedVec shuffle hpc _ _ hmerged hshuffle =>
    rw [hpc] at h
    have htouched : ∀ pool ∈ merged, Touched (w.log ++ [.evaluated merged]) pool :=
      fun pool hpool => (h pool hpool).mono (List.subset_append_left _ _)
    refine ⟨⟨List.subset_append_left _ _, le_max_word _ _⟩, ?_⟩
    show SearchSourced p _ (if _ then _ else _)
    split
    · trivial
    · refine ⟨htouched, ?_, affected_touched hshuffle fun pool hpool => htouched pool ?_⟩
      · show finalBlock ≤ max w.sharedLatestBlock finalBlock
        rw [UInt64.le_iff_toNat_le, toNat_max]
        exact Nat.le_max_right _ _
      · rw [← hmerged]
        exact List.mem_toFinset.mpr hpool
  | @evaluate merged finalBlock affected results m hpc hevaluates =>
    rw [hpc] at h
    refine ⟨⟨List.Subset.refl _, UInt64.le_refl _⟩, h.1, nofun, fun arb harb => ?_⟩
    obtain ⟨⟨i, hi, hpath⟩, hgas, hblock⟩ := hevaluates.source harb
    have hallPaths : p.searcher.allPaths = p.paths :=
      (Searcher.registerPoolMeta_fields p.metas _).2.1
    rw [hallPaths] at hpath
    obtain ⟨path, hpath', step, hstep, hpool⟩ := h.2.2 i hi
    obtain rfl : path = arb.path := Option.some.inj (hpath'.symm.trans hpath)
    exact ⟨List.mem_of_getElem? hpath, ⟨step, hstep, hpool⟩, hgas, hblock ▸ h.2.1⟩
  | postDrainTake hpc _ =>
    rw [hpc] at h
    exact ⟨later_snoc w _, fun pool hpool => (h.1 pool hpool).mono (later_snoc w _).log,
      touched_union h.2.1, fun arb harb => (h.2.2 arb harb).mono (later_snoc w _)⟩
  | @postDrainEnd merged postMerged preFinal finalBlock postDrained results hpc _ =>
    rw [hpc] at h
    refine ⟨.refl (seen w), ?_⟩
    show SearchSourced p (seen w) (if _ then _ else _)
    split
    · intro pool hpool
      rcases Finset.mem_union.mp hpool with hold | hnew
      · exact h.1 pool hold
      · exact h.2.1 pool hnew
    · exact h.2.2
  | send hpc =>
    rw [hpc] at h
    exact ⟨.refl (seen w), fun arb harb => h arb (List.mem_cons_of_mem _ harb)⟩
  | sendClosed _ => exact ⟨.refl (seen w), trivial⟩
  | sent _ => exact ⟨.refl (seen w), trivial⟩

theorem searchSourced_step {w w' : Loop} {i : Searcher.Label} (h : SearchSourced p (seen w) w.pc)
    (hstep : Searcher.LoopStep p.searcher p.quote w i w') :
    Later (seen w) (seen w') ∧ SearchSourced p (seen w') w'.pc := by
  cases hstep with
  | work hwork => exact searchSourced_work h hwork
  | _ => exact ⟨.refl (seen w), h.mono (.refl (seen w))⟩

/-! ## The pipeline -/

/-- What a simulator has in hand at each place of its loop. -/
def HandSourced (p : Setup) (w : Seen) : Pc → Prop
  | .waiting | .stopped => True
  | .received arb | .checking _ arb | .checked arb => Sourced p w arb
  | .simulating arb _ | .optimized arb _ _ => Sourced p w arb ∧ p.simMode = false
  | .sending valid => Sourced p w valid.arb ∧ Pays p valid

theorem HandSourced.mono {w w' : Seen} {pc : Pc} (h : HandSourced p w pc) (hlater : Later w w') :
    HandSourced p w' pc := by
  cases pc with
  | waiting | stopped => trivial
  | received arb | checking _ arb | checked arb => exact Sourced.mono h hlater
  | simulating arb _ | optimized arb _ _ => exact ⟨h.1.mono hlater, h.2⟩
  | sending valid => exact ⟨h.1.mono hlater, h.2⟩

/-- Every path is sourced wherever it is. -/
structure Traced (p : Setup) (s : System n) : Prop where
  search : SearchSourced p (seen s.loop) s.loop.pc
  arbs : ∀ arb ∈ s.arbs, Sourced p (seen s.loop) arb
  hands : ∀ k, HandSourced p (seen s.loop) (s.workers k).pc
  valids : ∀ valid ∈ s.taken ++ s.valids, Sourced p (seen s.loop) valid.arb ∧ Pays p valid

/-- A step of the searcher's side. -/
theorem Traced.search_step (h : Traced p s) (hlater : Later (seen s.loop) (seen t.loop))
    (hsearch : SearchSourced p (seen t.loop) t.loop.pc)
    (harbs : ∀ arb ∈ t.arbs, Sourced p (seen t.loop) arb) (hworkers : t.workers = s.workers)
    (hvalids : t.taken ++ t.valids = s.taken ++ s.valids) : Traced p t where
  search := hsearch
  arbs := harbs
  hands := by
    rw [hworkers]
    exact fun k => (h.hands k).mono hlater
  valids := by
    rw [hvalids]
    exact fun valid hvalid => (h.valids valid hvalid).imp_left (·.mono hlater)

/-- A step of one simulator that sends nothing on. -/
theorem Traced.hand_step (h : Traced p s) (hlater : Later (seen s.loop) (seen t.loop))
    (hpc : t.loop.pc = s.loop.pc) (harbs : t.arbs ⊆ s.arbs) {k : Fin n} {w : SimWorker}
    (hworkers : t.workers = Function.update s.workers k w)
    (hhand : HandSourced p (seen t.loop) w.pc)
    (hvalids : ∀ valid ∈ t.taken ++ t.valids, Sourced p (seen t.loop) valid.arb ∧ Pays p valid) :
    Traced p t where
  search := by
    rw [hpc]
    exact h.search.mono hlater
  arbs arb harb := (h.arbs arb (harbs harb)).mono hlater
  hands := by
    rw [hworkers]
    intro j
    by_cases hj : j = k
    · subst hj
      rw [Function.update_self]
      exact hhand
    · rw [Function.update_of_ne hj]
      exact (h.hands j).mono hlater
  valids := hvalids

/-- A simulator hands on what it was given, one case for each step. -/
theorem Traced.simStep (h : Traced p s) {k : Fin n} (hstep : SimStep p s k t) : Traced p t := by
  have hhand := h.hands k
  have hrefl := Later.refl (seen s.loop)
  have hsame : s.arbs ⊆ s.arbs := List.Subset.refl _
  cases hstep with
  | @recv arb rest hpc harbs =>
    refine h.hand_step hrefl rfl ?_ rfl (h.arbs arb ?_) h.valids
    · rw [harbs]
      exact List.subset_cons_self arb rest
    · rw [harbs]
      exact List.mem_cons_self
  | recvClosed => exact h.hand_step hrefl rfl hsame rfl trivial h.valids
  | @observe arb _ hpc _ =>
    rw [hpc] at hhand
    have hlater : Later (seen s.loop) ⟨s.loop.log, max s.loop.sharedLatestBlock arb.blockNumber⟩ :=
      ⟨List.Subset.refl _, le_max_word _ _⟩
    exact h.hand_step hlater rfl hsame rfl (Sourced.mono hhand hlater) fun valid hvalid =>
      (h.valids valid hvalid).imp_left (·.mono hlater)
  | turnDown => exact h.hand_step hrefl rfl hsame rfl trivial h.valids
  | @pass arb check hpc _ =>
    rw [hpc] at hhand
    refine h.hand_step hrefl rfl hsame rfl ?_ h.valids
    cases check <;> exact hhand
  | verify => exact h.hand_step hrefl rfl hsame rfl trivial h.valids
  | snapshot hpc hlive =>
    rw [hpc] at hhand
    exact h.hand_step hrefl rfl hsame rfl ⟨hhand, hlive⟩ h.valids
  | unviable => exact h.hand_step hrefl rfl hsame rfl trivial h.valids
  | writeBack hpc _ =>
    rw [hpc] at hhand
    exact h.hand_step hrefl rfl hsame rfl hhand h.valids
  | unprofitable => exact h.hand_step hrefl rfl hsame rfl trivial h.valids
  | @found arb snapshot revm valid hpc hfound =>
    rw [hpc] at hhand
    obtain ⟨hsourced, hlive⟩ := hhand
    rw [← Simulator.simulateAndOptimize_arb hfound] at hsourced
    obtain ⟨-, hgain, hfee, native, -, -, -, hleast⟩ :=
      Simulator.simulateAndOptimize_eq_some hfound
    exact h.hand_step hrefl rfl hsame rfl ⟨hsourced, hlive, hgain, hfee, hleast⟩ h.valids
  | @send valid hpc _ _ =>
    rw [hpc] at hhand
    refine h.hand_step hrefl rfl hsame rfl trivial ?_
    show ∀ v ∈ s.taken ++ (s.valids ++ [valid]), _
    intro v hv
    rw [← List.append_assoc] at hv
    rcases List.mem_append.mp hv with hold | hnew
    · exact h.valids v hold
    · obtain rfl := List.mem_singleton.mp hnew
      exact hhand
  | sendClosed => exact h.hand_step hrefl rfl hsame rfl trivial h.valids

theorem Traced.step (h : Traced p s) {i : Label n} (hstep : Step p s i t) : Traced p t := by
  have hrefl := Later.refl (seen s.loop)
  cases hstep with
  | search _ hloop =>
    obtain ⟨hlater, hsearch⟩ := searchSourced_step h.search hloop
    exact h.search_step hlater hsearch (fun arb harb => (h.arbs arb harb).mono hlater) rfl rfl
  | @offer arb results hoffers _ _ =>
    have hresults := h.search
    rw [hoffers] at hresults
    refine h.search_step hrefl (fun a ha => hresults a (List.mem_cons_of_mem _ ha)) ?_ rfl rfl
    intro a ha
    rcases List.mem_append.mp ha with hold | hnew
    · exact h.arbs a hold
    · obtain rfl := List.mem_singleton.mp hnew
      exact hresults a List.mem_cons_self
  | drop hoffers _ _ =>
    have hresults := h.search
    rw [hoffers] at hresults
    exact h.search_step hrefl (fun a ha => hresults a (List.mem_cons_of_mem _ ha)) h.arbs rfl rfl
  | offerClosed _ _ => exact h.search_step hrefl trivial h.arbs rfl rfl
  | simulate hsim => exact h.simStep hsim
  | send hsend =>
    cases hsend with
    | @take valid rest _ hvalids =>
      refine h.search_step hrefl h.search h.arbs rfl ?_
      show s.taken ++ [valid] ++ rest = s.taken ++ s.valids
      rw [hvalids, List.append_assoc, List.singleton_append]
    | _ => exact h.search_step hrefl h.search h.arbs rfl rfl
  | block => exact h.search_step hrefl h.search h.arbs rfl rfl

theorem Traced.start (m : Memory) (heads : Fin n → UInt64) (g : GasStation)
    (sender : TxSender.State) : Traced p (.start m heads g sender) where
  search := trivial
  arbs := nofun
  hands _ := trivial
  valids := nofun

theorem traced_run {m : Memory} {heads : Fin n → UInt64} {g : GasStation}
    {sender : TxSender.State} {is : List (Label n)}
    (hrun : Run (Step p) (.start m heads g sender) is s) : Traced p s := by
  refine hrun.invariant ?_ (.start m heads g sender)
  intro t i u h hstep
  exact h.step hstep

/-- **What the sender takes** is a registered path through a pool that was touched, with the gas of
its steps and a number no newer than the newest published, and pays; and in SIM mode it takes
nothing. -/
theorem taken_sourced {m : Memory} {heads : Fin n → UInt64} {g : GasStation}
    {sender : TxSender.State} {is : List (Label n)}
    (hrun : Run (Step p) (.start m heads g sender) is s) :
    ∀ valid ∈ s.taken, Sourced p (seen s.loop) valid.arb ∧ Pays p valid := by
  intro valid hvalid
  exact (traced_run hrun).valids valid (List.mem_append_left _ hvalid)

theorem taken_sourced_oneHop :
    ∃ s : System 1, s.taken = [foundValid] ∧
      ∀ valid ∈ s.taken, Sourced sampleSetup (seen s.loop) valid.arb ∧ Pays sampleSetup valid :=
  let ⟨s, hrun, htaken⟩ := sampleRun
  ⟨s, htaken, taken_sourced hrun⟩

end Pipeline

end ArbBot
