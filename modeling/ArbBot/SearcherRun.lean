import ArbBot.Searcher
import Mathlib.Data.Finset.Dedup
import Mathlib.Data.Finset.Lattice.Lemmas

/-!
# The loop of the searcher

`SearcherWorker::run` as a machine beside its channels. The worker takes an event or what it
carried forward, drains the channel, evaluates, drains the channel again, and sends the results or
carries on. Events arrive at any time, so each receive of the source is a step of its own; the
end of a drain is the step that finds the channel empty.

The log records what the machine did with touched pools: a received event, with its rates applied,
and the set of pools each evaluation began with.
-/

namespace ArbBot.Searcher

open Lib

/-- What happened to touched pools. -/
inductive Entry where
  | received (pools : List Address)
  | evaluated (pools : Finset Address)
  deriving DecidableEq

/-- Where the worker stands in its loop. -/
inductive Pc where
  /-- The head of the loop, with what was carried forward. -/
  | top (carryForward : Option (Finset Address × UInt64))
  | preDrain (merged : Finset Address) (finalBlock : UInt64) (isMempoolEvent : Bool)
  | evaluating (merged : Finset Address) (finalBlock : UInt64) (affected : List Nat)
  | postDrain (merged : Finset Address) (preFinal finalBlock : UInt64)
      (postMerged : Finset Address) (postDrained : Nat) (results : List ArbPath)
  | sending (results : List ArbPath)
  | stopped

/-- The worker, the channel it receives from, and the memory it shares. -/
structure Loop where
  memory : Memory
  channel : List PoolsTouched
  closed : Bool
  latestBlock : UInt64
  sharedLatestBlock : UInt64
  pc : Pc
  log : List Entry

/-- The start of the loop. -/
def Loop.start (m : Memory) : Loop := ⟨m, [], false, 0, 0, .top none, []⟩

/-- The block number an event is taken under: its own, or one past the latest for a mempool
event. -/
def stampBlock (latestBlock : UInt64) (event : PoolsTouched) : UInt64 :=
  if event.blockNumber = 0 then saturatingAdd latestBlock 1 else event.blockNumber

/-- The latest block after an event. -/
def stampLatest (latestBlock : UInt64) (event : PoolsTouched) : UInt64 :=
  if event.blockNumber = 0 then latestBlock else max latestBlock event.blockNumber

/-- The worker took the first event of the channel and applied its rates. -/
def Loop.take (s : Searcher) (quote : V3Quote) (w : Loop) (event : PoolsTouched)
    (rest : List PoolsTouched) (pc : Pc) : Loop :=
  { w with
    memory := s.updateRatesForPools quote w.memory event.touchedPools
    channel := rest
    latestBlock := stampLatest w.latestBlock event
    pc := pc
    log := w.log ++ [.received event.touchedPools] }

/-- Who moves: a sender, the last sender leaving, the market state writing a slot, the worker. -/
inductive Label where
  | arrive (event : PoolsTouched)
  | close
  | write (address : Address) (slot value : U256)
  | work

/-- A step of the worker. -/
inductive Work (s : Searcher) (quote : V3Quote) : Loop → Loop → Prop
  | carried {w : Loop} {pools : Finset Address} {block : UInt64} :
      w.pc = .top (some (pools, block)) →
      Work s quote w { w with pc := .preDrain pools block false }
  | recv {w : Loop} {event : PoolsTouched} {rest : List PoolsTouched} :
      w.pc = .top none → w.channel = event :: rest →
      Work s quote w (w.take s quote event rest
        (.preDrain event.touchedPools.toFinset (stampBlock w.latestBlock event)
          (decide (event.blockNumber = 0))))
  | recvClosed {w : Loop} : w.pc = .top none → w.channel = [] → w.closed = true →
      Work s quote w { w with pc := .stopped }
  | preDrainTake {w : Loop} {merged : Finset Address} {finalBlock : UInt64} {mempool : Bool}
      {event : PoolsTouched} {rest : List PoolsTouched} :
      w.pc = .preDrain merged finalBlock mempool → w.channel = event :: rest →
      Work s quote w (w.take s quote event rest
        (.preDrain (merged ∪ event.touchedPools.toFinset)
          (max finalBlock (stampBlock w.latestBlock event)) mempool))
  | preDrainEnd {w : Loop} {merged : Finset Address} {finalBlock : UInt64} {mempool : Bool}
      {mergedVec : List Address} {shuffle : List Nat → List Nat} :
      w.pc = .preDrain merged finalBlock mempool → w.channel = [] →
      mergedVec.Nodup → mergedVec.toFinset = merged → (∀ is, (shuffle is).Perm is) →
      Work s quote w
        { w with
          sharedLatestBlock := max w.sharedLatestBlock finalBlock
          pc :=
            if s.getAffectedPaths shuffle mergedVec mempool = [] then .top none
            else .evaluating merged finalBlock (s.getAffectedPaths shuffle mergedVec mempool)
          log := w.log ++ [.evaluated merged] }
  | evaluate {w : Loop} {merged : Finset Address} {finalBlock : UInt64} {affected : List Nat}
      {results : List ArbPath} {m : Memory} :
      w.pc = .evaluating merged finalBlock affected →
      s.Evaluates w.memory affected finalBlock results m →
      Work s quote w
        { w with
          memory := m
          pc := .postDrain merged finalBlock finalBlock ∅ 0 results }
  | postDrainTake {w : Loop} {merged postMerged : Finset Address} {preFinal finalBlock : UInt64}
      {postDrained : Nat} {results : List ArbPath} {event : PoolsTouched}
      {rest : List PoolsTouched} :
      w.pc = .postDrain merged preFinal finalBlock postMerged postDrained results →
      w.channel = event :: rest →
      Work s quote w (w.take s quote event rest
        (.postDrain merged preFinal (max finalBlock (stampBlock w.latestBlock event))
          (postMerged ∪ event.touchedPools.toFinset) (postDrained + 1) results))
  | postDrainEnd {w : Loop} {merged postMerged : Finset Address} {preFinal finalBlock : UInt64}
      {postDrained : Nat} {results : List ArbPath} :
      w.pc = .postDrain merged preFinal finalBlock postMerged postDrained results →
      w.channel = [] →
      Work s quote w
        { w with
          pc :=
            if 0 < postDrained ∧ preFinal < finalBlock then
              .top (some (merged ∪ postMerged, finalBlock))
            else .sending results }
  /-- `try_send` succeeds, or the channel of the simulators is full. -/
  | send {w : Loop} {arb : ArbPath} {results : List ArbPath} :
      w.pc = .sending (arb :: results) → Work s quote w { w with pc := .sending results }
  | sendClosed {w : Loop} {arb : ArbPath} {results : List ArbPath} :
      w.pc = .sending (arb :: results) → Work s quote w { w with pc := .stopped }
  | sent {w : Loop} : w.pc = .sending [] → Work s quote w { w with pc := .top none }

/-- A step of the whole. -/
inductive LoopStep (s : Searcher) (quote : V3Quote) : Loop → Label → Loop → Prop
  | arrive {w : Loop} {event : PoolsTouched} : w.closed = false →
      LoopStep s quote w (.arrive event) { w with channel := w.channel ++ [event] }
  | close {w : Loop} : LoopStep s quote w .close { w with closed := true }
  | write {w : Loop} {address : Address} {slot value : U256} :
      LoopStep s quote w (.write address slot value)
        { w with memory := { w.memory with db := w.memory.db.updateSlot address slot value } }
  | work {w w' : Loop} : Work s quote w w' → LoopStep s quote w .work w'

end ArbBot.Searcher
