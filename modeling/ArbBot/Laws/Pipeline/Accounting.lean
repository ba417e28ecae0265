import ArbBot.Laws.Ignition
import ArbBot.Lib.Workers
import ArbBot.Pipeline
import Mathlib.Algebra.Order.Group.Multiset

/-!
# No path is lost or duplicated

What one worker holds is a summand of what all of them hold, and a step of that worker changes no
other summand (`load_update`). With it the books of the pipeline balance in every state it reaches
(`Balanced`): what the searcher queued is what the simulators received and what is left in the
channel, in that order; every received path is in the hands of one simulator or has one outcome;
and what the simulators sent is what the sender took and what is left, in that order.
-/

namespace ArbBot

open Lib

/-- A path that pays is handed on as it came. -/
theorem Simulator.simulateAndOptimize_arb {w : Worker} {r : Revm} {others : StateDb → StateDb}
    {db : StateDb} {arb : ArbPath} {v : ValidPath}
    (h : simulateAndOptimize w r others db arb = some v) : v.arb = arb := by
  unfold simulateAndOptimize at h
  simp only [Option.bind_eq_bind, Option.bind_eq_some_iff, Option.ite_none_left_eq_some,
    Option.ite_none_right_eq_some] at h
  obtain ⟨_, -, -, -, -, _, -, _, -, -, -, h⟩ := h
  obtain rfl := Option.some.inj h
  rfl

namespace Pipeline

variable {n : Nat} {p : Setup} {s t : System n}

/-! ## Loads -/

/-- The path a simulator has in hand. -/
def Pc.arb? : Pc → Option ArbPath
  | waiting | stopped => none
  | received arb | checking _ arb | checked arb | simulating arb _ | optimized arb _ _ => some arb
  | sending valid => some valid.arb

/-- What the simulators hold together, when each holds what `f` says. -/
def System.load {M : Type} [AddCommMonoid M] (f : Pc → M) (s : System n) : M :=
  Lib.load (fun w : SimWorker => f w.pc) s.workers

/-- One simulator's share of the load is its own. -/
theorem load_update {M : Type} [AddCommMonoid M] (f : Pc → M) (s : System n) (k : Fin n) :
    ∃ rest, s.load f = f (s.workers k).pc + rest ∧
      ∀ (t : System n) (w : SimWorker), t.workers = Function.update s.workers k w →
        t.load f = f w.pc + rest := by
  obtain ⟨rest, hbefore, hafter⟩ := Lib.load_update (fun w : SimWorker => f w.pc) s.workers k
  refine ⟨rest, hbefore, fun t w ht => ?_⟩
  rw [System.load, ht]
  exact hafter w

/-! ## The books -/

/-- The path in hand, as a collection of one or none. -/
def Pc.held (pc : Pc) : Multiset ArbPath := (pc.arb?.map fun arb => {arb}).getD 0

/-- The path an outcome sent on. -/
def Outcome.sent? : Outcome → Option ValidPath
  | sent valid => some valid
  | _ => none

/-- The paths that were sent on, in order. -/
def sentOf (outcomes : List (ArbPath × Outcome)) : List ValidPath :=
  outcomes.filterMap fun outcome => outcome.2.sent?

theorem sentOf_snoc (outcomes : List (ArbPath × Outcome)) (arb : ArbPath) (outcome : Outcome) :
    sentOf (outcomes ++ [(arb, outcome)]) = sentOf outcomes ++ outcome.sent?.toList := by
  cases hsent : outcome.sent? <;> simp [sentOf, List.filterMap_append, hsent]

/-- The books of the pipeline. -/
structure Balanced (p : Setup) (s : System n) : Prop where
  arbs : s.queued = s.received ++ s.arbs
  hands : (s.received : Multiset ArbPath) =
    (s.outcomes.map Prod.fst : Multiset ArbPath) + s.load Pc.held
  valids : sentOf s.outcomes = s.taken ++ s.valids
  own : ∀ outcome ∈ s.outcomes, ∀ valid, outcome.2.sent? = some valid → valid.arb = outcome.1
  arbsFit : s.arbs.length ≤ p.channelBuffer
  validsFit : s.valids.length ≤ p.channelBuffer

/-- What the books are kept of, apart from the hands of the simulators. -/
def System.books (s : System n) :=
  (s.arbs, s.valids, s.queued, s.received, s.outcomes, s.taken)

theorem Balanced.of_books (h : Balanced p s) (hbooks : t.books = s.books)
    (hload : t.load Pc.held = s.load Pc.held) : Balanced p t := by
  simp only [System.books, Prod.mk.injEq] at hbooks
  obtain ⟨harbs, hvalids, hqueued, hreceived, houtcomes, htaken⟩ := hbooks
  constructor
  · rw [hqueued, hreceived, harbs]
    exact h.arbs
  · rw [hreceived, houtcomes, hload]
    exact h.hands
  · rw [houtcomes, htaken, hvalids]
    exact h.valids
  · rw [houtcomes]
    exact h.own
  · rw [harbs]
    exact h.arbsFit
  · rw [hvalids]
    exact h.validsFit

/-- A step that keeps what the simulator has in hand. -/
theorem Balanced.keep (h : Balanced p s) {k : Fin n} {w : SimWorker}
    (hworkers : t.workers = Function.update s.workers k w)
    (hheld : w.pc.held = (s.workers k).pc.held) (hbooks : t.books = s.books) : Balanced p t := by
  obtain ⟨rest, hs, ht⟩ := load_update Pc.held s k
  refine h.of_books hbooks ?_
  rw [ht t w hworkers, hs, hheld]

/-- The hands after a step that ends with the path in hand. -/
theorem hands_end {k : Fin n} {arb : ArbPath} {w : SimWorker} {outcome : Outcome}
    (h : (s.received : Multiset ArbPath) =
      (s.outcomes.map Prod.fst : Multiset ArbPath) + s.load Pc.held)
    (hheld : (s.workers k).pc.held = {arb}) (hempty : w.pc.held = 0)
    (hworkers : t.workers = Function.update s.workers k w)
    (hreceived : t.received = s.received)
    (houtcomes : t.outcomes = s.outcomes ++ [(arb, outcome)]) :
    (t.received : Multiset ArbPath) =
      (t.outcomes.map Prod.fst : Multiset ArbPath) + t.load Pc.held := by
  obtain ⟨rest, hs, ht⟩ := load_update Pc.held s k
  rw [ht t w hworkers, hempty, hreceived, houtcomes, h, hs, hheld, List.map_append, zero_add]
  simp only [← Multiset.coe_add, List.map_cons, List.map_nil, Multiset.coe_singleton, add_assoc]

theorem own_snoc {outcomes : List (ArbPath × Outcome)} {arb : ArbPath} {outcome : Outcome}
    (h : ∀ o ∈ outcomes, ∀ valid, o.2.sent? = some valid → valid.arb = o.1)
    (hlast : ∀ valid, outcome.sent? = some valid → valid.arb = arb) :
    ∀ o ∈ outcomes ++ [(arb, outcome)], ∀ valid, o.2.sent? = some valid → valid.arb = o.1 := by
  intro o ho
  rcases List.mem_append.mp ho with hold | hnew
  · exact h o hold
  · obtain rfl := List.mem_singleton.mp hnew
    exact hlast

/-- A step that ends with the path in hand and sends nothing on. -/
theorem Balanced.end (h : Balanced p s) {k : Fin n} {arb : ArbPath} {outcome : Outcome}
    {w : SimWorker} (hworkers : t.workers = Function.update s.workers k w)
    (hheld : (s.workers k).pc.held = {arb}) (hempty : w.pc.held = 0)
    (hsent : outcome.sent? = none)
    (hbooks : t.books =
      (s.arbs, s.valids, s.queued, s.received, s.outcomes ++ [(arb, outcome)], s.taken)) :
    Balanced p t := by
  simp only [System.books, Prod.mk.injEq] at hbooks
  obtain ⟨harbs, hvalids, hqueued, hreceived, houtcomes, htaken⟩ := hbooks
  constructor
  · rw [hqueued, hreceived, harbs]
    exact h.arbs
  · exact hands_end h.hands hheld hempty hworkers hreceived houtcomes
  · rw [houtcomes, htaken, hvalids, sentOf_snoc, h.valids, hsent, Option.toList_none,
      List.append_nil]
  · rw [houtcomes]
    exact own_snoc h.own (by simp [hsent])
  · rw [harbs]
    exact h.arbsFit
  · rw [hvalids]
    exact h.validsFit

theorem Check.held_pass (check : Check) (arb : ArbPath) : (check.pass arb).held = {arb} := by
  cases check <;> rfl

theorem Check.sent_outcome (check : Check) : check.outcome.sent? = none := by
  cases check <;> rfl

/-- A step of a simulator keeps the books, one case for each step. -/
theorem Balanced.simStep (h : Balanced p s) {k : Fin n} (hstep : SimStep p s k t) :
    Balanced p t := by
  cases hstep with
  | @recv arb rest hpc harbs =>
    obtain ⟨load, hs, ht⟩ := load_update Pc.held s k
    have hfit := h.arbsFit
    rw [harbs] at hfit
    refine ⟨?_, ?_, h.valids, h.own, (Nat.le_succ _).trans hfit, h.validsFit⟩
    · show s.queued = s.received ++ [arb] ++ rest
      rw [h.arbs, harbs, List.append_assoc, List.singleton_append]
    · rw [ht _ ⟨.received arb, (s.workers k).currentBlock, (s.workers k).cachedHead⟩ rfl]
      show ((s.received ++ [arb] : List ArbPath) : Multiset ArbPath) =
        (s.outcomes.map Prod.fst : Multiset ArbPath) + ({arb} + load)
      rw [← Multiset.coe_add, h.hands, hs, hpc]
      show _ + (0 + load) + _ = _ + ({arb} + load)
      rw [zero_add, add_assoc, Multiset.coe_singleton, add_comm load]
  | recvClosed hpc _ _ => exact h.keep rfl (by rw [hpc]; rfl) rfl
  | observe hpc _ => exact h.keep rfl (by rw [hpc]; rfl) rfl
  | @turnDown arb check hpc _ => exact h.end rfl (by rw [hpc]; rfl) rfl check.sent_outcome rfl
  | @pass arb check hpc _ =>
    refine h.keep rfl ?_ rfl
    rw [hpc]
    exact check.held_pass arb
  | verify hpc _ => exact h.end rfl (by rw [hpc]; rfl) rfl rfl rfl
  | snapshot hpc _ => exact h.keep rfl (by rw [hpc]; rfl) rfl
  | unviable hpc _ => exact h.end rfl (by rw [hpc]; rfl) rfl rfl rfl
  | writeBack hpc _ => exact h.keep rfl (by rw [hpc]; rfl) rfl
  | unprofitable hpc _ => exact h.end rfl (by rw [hpc]; rfl) rfl rfl rfl
  | found hpc hfound =>
    refine h.keep rfl ?_ rfl
    rw [hpc, Pc.held, Pc.arb?, Simulator.simulateAndOptimize_arb hfound]
    rfl
  | @send valid hpc _ hroom =>
    refine ⟨h.arbs, hands_end h.hands (by rw [hpc]; rfl) rfl rfl rfl rfl, ?_,
      own_snoc h.own fun v hv => ?_, h.arbsFit, ?_⟩
    · show sentOf (s.outcomes ++ [(valid.arb, .sent valid)]) = s.taken ++ (s.valids ++ [valid])
      rw [sentOf_snoc, h.valids, List.append_assoc]
      rfl
    · obtain rfl := Option.some.inj hv
      rfl
    · show (s.valids ++ [valid]).length ≤ p.channelBuffer
      rw [List.length_append]
      exact hroom
  | sendClosed hpc _ => exact h.end rfl (by rw [hpc]; rfl) rfl rfl rfl

/-- A step of the pipeline keeps the books. -/
theorem Balanced.step (h : Balanced p s) {i : Label n} (hstep : Step p s i t) : Balanced p t := by
  cases hstep with
  | search _ _ => exact h.of_books rfl rfl
  | @offer arb results _ _ hroom =>
    refine ⟨?_, h.hands, h.valids, h.own, ?_, h.validsFit⟩
    · show s.queued ++ [arb] = s.received ++ (s.arbs ++ [arb])
      rw [h.arbs, List.append_assoc]
    · show (s.arbs ++ [arb]).length ≤ p.channelBuffer
      rw [List.length_append]
      exact hroom
  | drop _ _ _ => exact h.of_books rfl rfl
  | offerClosed _ _ => exact h.of_books rfl rfl
  | simulate hsim => exact h.simStep hsim
  | send hsend =>
    cases hsend with
    | @take valid rest _ hvalids =>
      refine ⟨h.arbs, h.hands, ?_, h.own, h.arbsFit, ?_⟩
      · show sentOf s.outcomes = s.taken ++ [valid] ++ rest
        rw [h.valids, hvalids, List.append_assoc, List.singleton_append]
      · have hfit := h.validsFit
        rw [hvalids] at hfit
        exact (Nat.le_succ _).trans hfit
    | handle _ _ _ => exact h.of_books rfl rfl
    | panic _ _ _ => exact h.of_books rfl rfl
    | closed _ _ _ => exact h.of_books rfl rfl
  | block => exact h.of_books rfl rfl

theorem Balanced.start (m : Memory) (heads : Fin n → UInt64) (g : GasStation)
    (sender : TxSender.State) : Balanced p (.start m heads g sender) where
  arbs := rfl
  hands := by
    show (0 : Multiset ArbPath) = 0 + System.load Pc.held (.start m heads g sender)
    rw [zero_add]
    exact (load_eq_zero fun _ => rfl).symm
  valids := rfl
  own := by simp [System.start]
  arbsFit := Nat.zero_le _
  validsFit := Nat.zero_le _

/-! ## Runs -/

/-- What was sent on was received. -/
theorem sentOf_le {outcomes : List (ArbPath × Outcome)}
    (hown : ∀ o ∈ outcomes, ∀ valid, o.2.sent? = some valid → valid.arb = o.1) :
    ((sentOf outcomes).map ValidPath.arb).Sublist (outcomes.map Prod.fst) := by
  induction outcomes with
  | nil => exact .slnil
  | cons o outcomes ih =>
    have hrest := ih fun o' ho' => hown o' (List.mem_cons_of_mem o ho')
    cases hsent : o.2.sent? with
    | none =>
      simp only [sentOf, List.filterMap_cons, hsent]
      exact hrest.cons _
    | some valid =>
      simp only [sentOf, List.filterMap_cons, hsent, List.map_cons]
      rw [hown o List.mem_cons_self valid hsent]
      exact hrest.cons_cons _

/-- **The books balance** in every state the pipeline reaches. So the sender takes no path more
often than the searcher queued it. -/
theorem balanced_run {m : Memory} {heads : Fin n → UInt64} {g : GasStation}
    {sender : TxSender.State} {is : List (Label n)}
    (hrun : Run (Step p) (.start m heads g sender) is s) :
    Balanced p s ∧ (s.taken.map ValidPath.arb : Multiset ArbPath) ≤ (s.queued : Multiset ArbPath) := by
  have h : Balanced p s :=
    hrun.invariant (fun _ _ _ h hstep => h.step hstep) (.start m heads g sender)
  refine ⟨h, ?_⟩
  calc (s.taken.map ValidPath.arb : Multiset ArbPath)
      ≤ ((sentOf s.outcomes).map ValidPath.arb : Multiset ArbPath) := by
        rw [h.valids, List.map_append, Multiset.coe_le]
        exact (List.sublist_append_left _ _).subperm
    _ ≤ (s.outcomes.map Prod.fst : Multiset ArbPath) := Multiset.coe_le.mpr (sentOf_le h.own).subperm
    _ ≤ (s.received : Multiset ArbPath) := by
        rw [h.hands]
        exact Multiset.le_add_right _ _
    _ ≤ (s.queued : Multiset ArbPath) := by
        rw [h.arbs, Multiset.coe_le]
        exact (List.sublist_append_left _ _).subperm

/-! ### One path from a block to the sender -/

/-- One registered path, with hash 77: a step through pool 10 from the native token. -/
def oneHop : SwapPath := ⟨[⟨10, 1, 2, .uniswapV2, 30⟩], 77⟩

def sampleSetup : Setup where
  config := Ignition.samplePipeline
  channelBuffer := 1
  simMode := false
  logInfo := false
  maxPathsPerBlock := 1
  paths := [oneHop]
  metas := []
  quote := .missing
  keys := TxSender.sampleKeys

/-- Every hop doubles. -/
def doubling : Memory := ⟨.empty, ⟨fun _ _ => some (rateScale * 2), fun _ => none⟩, .new⟩

/-- What the evaluation at block 5 finds. -/
def foundArb : ArbPath := ⟨oneHop, rateScale, 110000, 5⟩

/-- No gas price, one simulator. -/
def sampleStart : System 1 :=
  .start doubling (fun _ => 0) ⟨0, 0, 0, 6, 50, 0, 0⟩
    ⟨⟨7, 0, fun _ => 0, fun _ => 0, ∅, ∅⟩, 0⟩

/-- Every quote is 1000. -/
def thousand : Simulator.Revm := ⟨fun _ => some 1000, [], fun _ _ => 0⟩

def foundValid : ValidPath := ⟨foundArb, 1, 1000, 0, 999⟩

/-- The sample with other paths and pools. -/
def sampleWith (paths : List SwapPath) (metas : List PoolMeta) : Setup :=
  { sampleSetup with paths := paths, metas := metas }

/-- A path the evaluation of one pool's event finds, and the simulator finds to gain, goes from the
searcher through the simulator to the sender. -/
theorem run_of_found {paths : List SwapPath} {metas : List PoolMeta} {m m' : Memory}
    {pool : Address} {indices : List Nat} {arb : ArbPath} {valid : ValidPath}
    (haffected : (sampleWith paths metas).searcher.getAffectedPaths id [pool] false = indices)
    (hsome : indices ≠ [])
    (hevaluates : (sampleWith paths metas).searcher.Evaluates
      ((sampleWith paths metas).searcher.updateRatesForPools .missing m [pool]) indices 5 [arb] m')
    (hblock : arb.blockNumber = 5)
    (hfound : Simulator.simulateAndOptimize (sampleStart.simulator (sampleWith paths metas)) thousand
      (fun _ => ((SimDb.snapshot m'.db).run thousand.fetch thousand.accesses).writeBack m'.db) m'.db
      arb = some valid) :
    ∃ s, Run (Step (sampleWith paths metas))
      (.start m (fun _ => 0) sampleStart.gasStation sampleStart.sender : System 1)
        ([.arrive ⟨5, [pool]⟩, .work, .work, .work, .work, .work].map Label.search ++
          List.replicate 10 (.simulate 0) ++ [.send]) s ∧ s.taken = [valid] := by
  have hevaluating : (if (sampleWith paths metas).searcher.getAffectedPaths id [pool] false = [] then
      Searcher.Pc.top none
      else .evaluating {pool} 5 ((sampleWith paths metas).searcher.getAffectedPaths id [pool] false)) =
        .evaluating {pool} 5 indices := by
    rw [haffected, if_neg hsome]
  have hsameHead : (none : Option UInt64).isSome → arb.blockNumber ≠ 0 := nofun
  refine ⟨_, .cons (.search nofun (.arrive rfl)) <|
    .cons (.search nofun (.work (.recv rfl rfl))) <|
    .cons (.search nofun
      (.work (.preDrainEnd rfl rfl (List.nodup_singleton pool) rfl fun is => .refl is))) <|
    .cons (.search ?_ (.work (.evaluate hevaluating hevaluates))) <|
    .cons (.search nofun (.work (.postDrainEnd rfl rfl))) <|
    .cons (.offer rfl (fun h => nomatch h 0) Nat.zero_lt_one) <|
    .cons (.simulate (.recv rfl rfl)) <| .cons (.simulate (.observe rfl hsameHead)) <|
    .cons (.simulate (.pass rfl ?_)) <| .cons (.simulate (.pass rfl ?_)) <|
    .cons (.simulate (.pass rfl ?_)) <| .cons (.simulate (.pass rfl ?_)) <|
    .cons (.simulate (.snapshot rfl rfl)) <| .cons (.simulate (.writeBack rfl ?_)) <|
    .cons (.simulate (.found rfl hfound)) <|
    .cons (.simulate (.send rfl nofun Nat.zero_lt_one)) <| .cons (.send (.take rfl rfl)) (.nil _), rfl⟩
  · intro _ other results hoffers
    exact nomatch hevaluating.symm.trans hoffers
  · intro h
    have hhead : (0 : UInt64) < 0 := h.1
    exact absurd hhead (by decide)
  · intro h
    have hlatest : arb.blockNumber + 3 < max (max 0 5) arb.blockNumber := h
    rw [hblock] at hlatest
    exact absurd hlatest (by decide)
  · exact Finset.notMem_empty _
  · rintro ⟨step, -, h | h⟩ <;> exact Finset.notMem_empty _ h
  · have hgains : (1 : U256) < 1000 := by decide
    exact ⟨1000, rfl, hgains⟩

/-- The evaluation of one path that is worth it. -/
theorem evaluates_single {s : Searcher} {m : Memory} {i : Nat} {path : SwapPath} {arb : ArbPath}
    (hpath : s.allPaths[i]? = some path)
    (hfresh : Searcher.turnedDown m.rateCache path 5 = false)
    (hassess : Searcher.assess path (m.estimator.evaluatePath path) 5 = some arb) :
    s.Evaluates m [i] 5 [arb]
      { m with rateCache := m.rateCache.insert path.hash (m.estimator.evaluatePath path) 5 } where
  sorted := List.pairwise_singleton _ _
  ran := by
    let e : Searcher.Evaluation := ⟨m.rateCache, fun _ => .waiting⟩
    let e' : Searcher.Evaluation :=
      { (e.setTask 0 .looked).setTask 0 (.done (some arb)) with
        cache := m.rateCache.insert path.hash (m.estimator.evaluatePath path) 5 }
    have htask : s.taskPath [i] 0 = some path := hpath
    have hlooked : s.TaskStep m.estimator [i] 5 e 0 (e.setTask 0 .looked) := by
      simp [Searcher.TaskStep, Searcher.taskStep, htask, e, hfresh]
    have hdone : s.TaskStep m.estimator [i] 5 (e.setTask 0 .looked) 0 e' := by
      simp [Searcher.TaskStep, Searcher.taskStep, htask, e, e', hassess,
        Searcher.Evaluation.setTask]
    refine ⟨[0, 0], e', .cons hlooked (.cons hdone (.nil _)), ?_, .refl _, rfl⟩
    intro k hk
    obtain rfl : k = 0 := by simpa using hk
    exact ⟨some arb, rfl⟩

/-- The path of the block's event. -/
theorem sampleRun :
    ∃ s, Run (Step sampleSetup) sampleStart
        ([.arrive ⟨5, [10]⟩, .work, .work, .work, .work, .work].map Label.search ++
          List.replicate 10 (.simulate 0) ++ [.send]) s ∧ s.taken = [foundValid] :=
  @run_of_found [oneHop] [] doubling _ 10 [0] foundArb foundValid rfl (by decide)
    (evaluates_single rfl rfl rfl) rfl rfl

theorem balanced_run_oneHop :
    ∃ s : System 1, s.taken = [foundValid] ∧ Balanced sampleSetup s ∧
      (s.taken.map ValidPath.arb : Multiset ArbPath) ≤ (s.queued : Multiset ArbPath) :=
  let ⟨s, hrun, htaken⟩ := sampleRun
  ⟨s, htaken, balanced_run hrun⟩

end Pipeline

end ArbBot
