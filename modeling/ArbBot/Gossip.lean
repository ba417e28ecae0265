import ArbBot.BlockStream
import ArbBot.Lib.Runs
import Mathlib.Logic.Function.Basic

/-!
# The endpoints of the block gossip

The tasks of `stream_blocks_gossip` (`block_stream.rs`), one for each endpoint, beside the window
they share and the broadcast channel they send to. A task connects, subscribes, and takes headers
until its stream ends; then it waits and starts over, and waits twice as long after each failure.
The window is locked for the insertion only, so a task that has won a block sends it in a later
step. Sending fails when no receiver is left, and ends the task.

The lists beside the state say what was reported, what was accepted (newest first), and what became
of the accepted blocks.
-/

namespace ArbBot.Gossip

/-- The fields of a header that are read. -/
structure Header where
  number : UInt64
  baseFeePerGas : Option UInt64
  gasUsed : UInt64
  gasLimit : UInt64
  timestamp : UInt64

/-- `PipelineEvent::NewBlock`. -/
structure NewBlock where
  blockNumber : UInt64
  baseFee : UInt64
  gasUsed : UInt64
  gasLimit : UInt64
  timestamp : UInt64

def Header.newBlock (header : Header) : NewBlock where
  blockNumber := header.number
  baseFee := header.baseFeePerGas.getD 0
  gasUsed := header.gasUsed
  gasLimit := header.gasLimit
  timestamp := header.timestamp

/-- The first wait, in milliseconds. -/
def minBackoffMs : UInt64 := 500

/-- `MAX_BACKOFF_MS`. -/
def maxBackoffMs : UInt64 := 30000

/-- Where a task stands. -/
inductive Pc where
  | connecting
  | subscribing
  | streaming
  /-- It was the first to see the block, and is about to send it. -/
  | first (block : NewBlock)
  | sleeping
  | stopped

/-- A task, with the number of its waits since it last subscribed. -/
structure Endpoint where
  pc : Pc
  backoffMs : UInt64
  waits : Nat

/-- The tasks and what they share. -/
structure State (n : Nat) where
  endpoints : Fin n → Endpoint
  dedup : BlockDedup
  /-- No receiver is left. -/
  closed : Bool
  reported : List Header
  accepted : List NewBlock
  sent : List NewBlock
  lost : List NewBlock

def State.start {n : Nat} : State n where
  endpoints _ := ⟨.connecting, minBackoffMs, 0⟩
  dedup := .new
  closed := false
  reported := []
  accepted := []
  sent := []
  lost := []

section

variable {n : Nat}

/-- A task at another place of its loop. -/
def State.move (g : State n) (k : Fin n) (pc : Pc) : State n :=
  { g with endpoints := Function.update g.endpoints k { g.endpoints k with pc := pc } }

/-- Who moves: a task on its own, a task with a header from its stream, the last receiver. -/
inductive Label (n : Nat) where
  | move (k : Fin n)
  | report (k : Fin n) (header : Header)
  | close

/-- A step of the gossip. -/
inductive Step : State n → Label n → State n → Prop
  | connectFailed {g : State n} {k : Fin n} : (g.endpoints k).pc = .connecting →
      Step g (.move k) (g.move k .sleeping)
  | connected {g : State n} {k : Fin n} : (g.endpoints k).pc = .connecting →
      Step g (.move k) (g.move k .subscribing)
  | subscribeFailed {g : State n} {k : Fin n} : (g.endpoints k).pc = .subscribing →
      Step g (.move k) (g.move k .sleeping)
  | subscribed {g : State n} {k : Fin n} : (g.endpoints k).pc = .subscribing →
      Step g (.move k) { g with
        endpoints := Function.update g.endpoints k ⟨.streaming, minBackoffMs, 0⟩ }
  | duplicate {g : State n} {k : Fin n} {header : Header} : (g.endpoints k).pc = .streaming →
      (g.dedup.tryInsert header.number).1 = false →
      Step g (.report k header) { g with reported := g.reported ++ [header] }
  | first {g : State n} {k : Fin n} {header : Header} : (g.endpoints k).pc = .streaming →
      (g.dedup.tryInsert header.number).1 = true →
      Step g (.report k header) { g.move k (.first header.newBlock) with
        dedup := (g.dedup.tryInsert header.number).2
        reported := g.reported ++ [header]
        accepted := header.newBlock :: g.accepted }
  | send {g : State n} {k : Fin n} {block : NewBlock} : (g.endpoints k).pc = .first block →
      g.closed = false →
      Step g (.move k) { g.move k .streaming with sent := g.sent ++ [block] }
  | sendClosed {g : State n} {k : Fin n} {block : NewBlock} : (g.endpoints k).pc = .first block →
      g.closed = true →
      Step g (.move k) { g.move k .stopped with lost := g.lost ++ [block] }
  | streamEnded {g : State n} {k : Fin n} : (g.endpoints k).pc = .streaming →
      Step g (.move k) (g.move k .sleeping)
  | woken {g : State n} {k : Fin n} : (g.endpoints k).pc = .sleeping →
      Step g (.move k) { g with
        endpoints := Function.update g.endpoints k
          ⟨.connecting, min ((g.endpoints k).backoffMs * 2) maxBackoffMs,
            (g.endpoints k).waits + 1⟩ }
  | close {g : State n} : Step g .close { g with closed := true }

end

end ArbBot.Gossip
