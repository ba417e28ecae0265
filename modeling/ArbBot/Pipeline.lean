import ArbBot.Ignition
import ArbBot.SearcherRun
import Mathlib.Logic.Function.Basic

/-!
# The pipeline

The workers of `start_pipeline` beside each other (`ignition.rs`): the searcher, the simulators and
the transaction sender, with the two bounded channels between them. The loop of the simulators is
`SimulatorWorker::run` (`simulator_pipeline.rs`). A simulator takes a path from the shared receiver,
checks its age and the two blacklists, runs it on a snapshot of the database, and hands on what
pays. Each read or write of shared memory is a step of its own, so the other workers move between
any two of them; only the price and the gas of a path are read in one step.

The market state and the mempool listener are the senders of the searcher's channel: they are the
arrivals of its loop. The blacklists are those of the transaction sender, which alone adds to them.

The record beside the state says what went through the channels and how each path ended.
-/

namespace ArbBot.Pipeline

open Lib

/-- What the workers are started with. -/
structure Setup where
  config : Ignition.PipelineConfig
  channelBuffer : Nat
  simMode : Bool
  logInfo : Bool
  maxPathsPerBlock : Nat
  paths : List SwapPath
  metas : List PoolMeta
  quote : V3Quote
  keys : TxSender.Keyring

/-- The searcher with the paths and the pools registered. -/
def Setup.searcher (p : Setup) : Searcher :=
  ((Searcher.new p.maxPathsPerBlock).registerPaths p.paths).registerPoolMeta p.metas

def Setup.sender (p : Setup) : TxSender.Config := Ignition.txSenderConfig p.config p.logInfo

/-! ## State -/

/-- The checks a simulator makes before it runs a path, in their order. -/
inductive Check where
  /-- The age of the path by the chain head the worker last read. -/
  | head
  /-- Its age by the newest block any worker has seen. -/
  | latest
  | paths
  | tokens
  deriving DecidableEq

/-- Where a simulator stands in its loop. -/
inductive Pc where
  | waiting
  | received (arb : ArbPath)
  | checking (check : Check) (arb : ArbPath)
  | checked (arb : ArbPath)
  /-- With the snapshot it was taken on. -/
  | simulating (arb : ArbPath) (snapshot : StateDb)
  /-- With what the virtual machine answered; the fetched slots are written back. -/
  | optimized (arb : ArbPath) (snapshot : StateDb) (revm : Simulator.Revm)
  | sending (valid : ValidPath)
  | stopped

/-- A simulator. -/
structure SimWorker where
  pc : Pc
  currentBlock : UInt64
  cachedHead : UInt64

/-- How the simulators end with a path. -/
inductive Outcome where
  | stale
  | skipped
  /-- In SIM mode a path is compared and goes no further. -/
  | verified
  | unprofitable
  | sent (valid : ValidPath)
  /-- The sender was gone. -/
  | lost (valid : ValidPath)

/-- Where the transaction sender stands in its loop. -/
inductive SenderPc where
  | idle
  | handling (valid : ValidPath)
  | stopped

/-- The workers, the channels between them, and what they share. -/
structure System (n : Nat) where
  loop : Searcher.Loop
  arbs : List ArbPath
  workers : Fin n → SimWorker
  gasStation : GasStation
  valids : List ValidPath
  sender : TxSender.State
  senderPc : SenderPc
  /-- The paths the searcher put on its channel. -/
  queued : List ArbPath
  /-- The paths the simulators took from it. -/
  received : List ArbPath
  outcomes : List (ArbPath × Outcome)
  /-- The paths the sender took from its channel. -/
  taken : List ValidPath

/-- The workers at the start of their loops. The simulators have asked for the chain head. -/
def System.start {n : Nat} (m : Memory) (heads : Fin n → UInt64) (g : GasStation)
    (sender : TxSender.State) : System n where
  loop := .start m
  arbs := []
  workers k := ⟨.waiting, 0, heads k⟩
  gasStation := g
  valids := []
  sender := sender
  senderPc := .idle
  queued := []
  received := []
  outcomes := []
  taken := []

section

variable {n : Nat} (p : Setup)

/-- A simulator at another place of its loop. -/
def System.move (s : System n) (k : Fin n) (pc : Pc) : System n :=
  { s with workers := Function.update s.workers k { s.workers k with pc := pc } }

/-- A simulator is through with a path. -/
def System.finish (s : System n) (k : Fin n) (arb : ArbPath) (outcome : Outcome) : System n :=
  { s.move k .waiting with outcomes := s.outcomes ++ [(arb, outcome)] }

/-- Every simulator has stopped, and with them the receiver they share. -/
def System.AllStopped (s : System n) : Prop := ∀ k, (s.workers k).pc = .stopped

/-- The simulator's view of the configuration and the gas station. -/
def System.simulator (s : System n) : Simulator.Worker where
  config := Ignition.simulatorConfig p.config
  gasStation := s.gasStation
  nativeToken := p.config.nativeToken
  tokenPricePools token := p.config.tokenPricePools.lookup token

/-! ## Checks -/

/-- The check turns a path down. The sums wrap as the release build's do. -/
def TurnsDown (s : System n) (k : Fin n) (arb : ArbPath) : Check → Prop
  | .head =>
    0 < (s.workers k).cachedHead ∧
      arb.blockNumber + p.config.maxStaleBlocks < (s.workers k).cachedHead
  | .latest => arb.blockNumber + p.config.maxStaleBlocks < s.loop.sharedLatestBlock
  | .paths => arb.path.hash ∈ s.sender.worker.blacklistedPaths
  | .tokens =>
    ∃ step ∈ arb.path.steps, step.tokenIn ∈ s.sender.worker.blacklistedTokens ∨
      step.tokenOut ∈ s.sender.worker.blacklistedTokens

/-- What becomes of a path that is turned down. -/
def Check.outcome : Check → Outcome
  | head | latest => .stale
  | paths | tokens => .skipped

/-- Where a path goes that is not. -/
def Check.pass (arb : ArbPath) : Check → Pc
  | head => .checking .latest arb
  | latest => .checking .paths arb
  | paths => .checking .tokens arb
  | tokens => .checked arb

/-- The path gains at the minimal input, so it is worth optimising. -/
def Viable (r : Simulator.Revm) : Prop :=
  ∃ out, r.quote (Ignition.simulatorConfig p.config).minInput = some out ∧
    (Ignition.simulatorConfig p.config).minInput < out

/-! ## Steps -/

/-- A step of a simulator. -/
inductive SimStep (s : System n) (k : Fin n) : System n → Prop
  | recv {arb : ArbPath} {rest : List ArbPath} :
      (s.workers k).pc = .waiting → s.arbs = arb :: rest →
      SimStep s k { s.move k (.received arb) with
        arbs := rest
        received := s.received ++ [arb] }
  | recvClosed : (s.workers k).pc = .waiting → s.arbs = [] → s.loop.pc = .stopped →
      SimStep s k (s.move k .stopped)
  /-- The newest block is raised. At a new block the head may be read anew. -/
  | observe {arb : ArbPath} {head : Option UInt64} :
      (s.workers k).pc = .received arb →
      (head.isSome → arb.blockNumber ≠ (s.workers k).currentBlock) →
      SimStep s k { s with
        loop := { s.loop with
          sharedLatestBlock := max s.loop.sharedLatestBlock arb.blockNumber }
        workers := Function.update s.workers k
          ⟨.checking .head arb, arb.blockNumber, head.getD (s.workers k).cachedHead⟩ }
  | turnDown {arb : ArbPath} {check : Check} :
      (s.workers k).pc = .checking check arb → TurnsDown p s k arb check →
      SimStep s k (s.finish k arb check.outcome)
  | pass {arb : ArbPath} {check : Check} :
      (s.workers k).pc = .checking check arb → ¬ TurnsDown p s k arb check →
      SimStep s k (s.move k (check.pass arb))
  | verify {arb : ArbPath} : (s.workers k).pc = .checked arb → p.simMode = true →
      SimStep s k (s.finish k arb .verified)
  | snapshot {arb : ArbPath} : (s.workers k).pc = .checked arb → p.simMode = false →
      SimStep s k (s.move k (.simulating arb s.loop.memory.db))
  | unviable {arb : ArbPath} {snapshot : StateDb} {revm : Simulator.Revm} :
      (s.workers k).pc = .simulating arb snapshot → ¬ Viable p revm →
      SimStep s k (s.finish k arb .unprofitable)
  | writeBack {arb : ArbPath} {snapshot : StateDb} {revm : Simulator.Revm} :
      (s.workers k).pc = .simulating arb snapshot → Viable p revm →
      SimStep s k { s.move k (.optimized arb snapshot revm) with
        loop := { s.loop with
          memory := { s.loop.memory with
            db := ((SimDb.snapshot snapshot).run revm.fetch revm.accesses).writeBack
              s.loop.memory.db } } }
  | unprofitable {arb : ArbPath} {snapshot : StateDb} {revm : Simulator.Revm} :
      (s.workers k).pc = .optimized arb snapshot revm →
      Simulator.simulateAndOptimize (s.simulator p) revm (fun _ => s.loop.memory.db) snapshot arb =
        none →
      SimStep s k (s.finish k arb .unprofitable)
  | found {arb : ArbPath} {snapshot : StateDb} {revm : Simulator.Revm} {valid : ValidPath} :
      (s.workers k).pc = .optimized arb snapshot revm →
      Simulator.simulateAndOptimize (s.simulator p) revm (fun _ => s.loop.memory.db) snapshot arb =
        some valid →
      SimStep s k (s.move k (.sending valid))
  | send {valid : ValidPath} :
      (s.workers k).pc = .sending valid → s.senderPc ≠ .stopped →
      s.valids.length < p.channelBuffer →
      SimStep s k { s.finish k valid.arb (.sent valid) with valids := s.valids ++ [valid] }
  | sendClosed {valid : ValidPath} :
      (s.workers k).pc = .sending valid → s.senderPc = .stopped →
      SimStep s k { s.move k .stopped with
        outcomes := s.outcomes ++ [(valid.arb, .lost valid)] }

/-- A step of the transaction sender. A panic ends it. -/
inductive SenderStep (s : System n) : System n → Prop
  | take {valid : ValidPath} {rest : List ValidPath} :
      s.senderPc = .idle → s.valids = valid :: rest →
      SenderStep s { s with
        valids := rest
        senderPc := .handling valid
        taken := s.taken ++ [valid] }
  | handle {valid : ValidPath} {a : TxSender.Answers} {t : TxSender.State} :
      s.senderPc = .handling valid → a.gasStation = s.gasStation →
      TxSender.Step p.keys p.sender s.sender (valid, a) t →
      SenderStep s { s with sender := t, senderPc := .idle }
  | panic {valid : ValidPath} {a : TxSender.Answers} :
      s.senderPc = .handling valid → a.gasStation = s.gasStation →
      TxSender.round p.keys p.sender s.sender valid a = none →
      SenderStep s { s with senderPc := .stopped }
  | closed : s.senderPc = .idle → s.valids = [] → s.AllStopped →
      SenderStep s { s with senderPc := .stopped }

/-- The searcher is about to offer a path to the simulators. -/
def System.Offers (s : System n) (arb : ArbPath) (results : List ArbPath) : Prop :=
  s.loop.pc = .sending (arb :: results)

/-- Who moves. -/
inductive Label (n : Nat) where
  | search (i : Searcher.Label)
  | simulate (k : Fin n)
  | send
  /-- The market state records the gas of a block. -/
  | block (baseFee gasUsed gasLimit : UInt64)

/-- A step of the pipeline. -/
inductive Step : System n → Label n → System n → Prop
  /-- The searcher, short of offering a path, or one of the senders of its channel. -/
  | search {s : System n} {i : Searcher.Label} {loop : Searcher.Loop} :
      (i = .work → ∀ arb results, ¬ s.Offers arb results) →
      Searcher.LoopStep p.searcher p.quote s.loop i loop →
      Step s (.search i) { s with loop := loop }
  | offer {s : System n} {arb : ArbPath} {results : List ArbPath} :
      s.Offers arb results → ¬ s.AllStopped → s.arbs.length < p.channelBuffer →
      Step s (.search .work) { s with
        loop := { s.loop with pc := .sending results }
        arbs := s.arbs ++ [arb]
        queued := s.queued ++ [arb] }
  | drop {s : System n} {arb : ArbPath} {results : List ArbPath} :
      s.Offers arb results → ¬ s.AllStopped → p.channelBuffer ≤ s.arbs.length →
      Step s (.search .work) { s with loop := { s.loop with pc := .sending results } }
  | offerClosed {s : System n} {arb : ArbPath} {results : List ArbPath} :
      s.Offers arb results → s.AllStopped →
      Step s (.search .work) { s with loop := { s.loop with pc := .stopped } }
  | simulate {s t : System n} {k : Fin n} : SimStep p s k t → Step s (.simulate k) t
  | send {s t : System n} : SenderStep p s t → Step s .send t
  | block {s : System n} {baseFee gasUsed gasLimit : UInt64} :
      Step s (.block baseFee gasUsed gasLimit)
        { s with gasStation := s.gasStation.updateFromBlock baseFee gasUsed gasLimit }

end

end ArbBot.Pipeline
