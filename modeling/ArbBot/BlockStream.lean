import Mathlib.Data.Finset.Erase
import Mathlib.Data.Finset.Insert

/-!
# Gossiped blocks

Every endpoint reports every block, and the first report wins (`block_stream.rs`). The endpoints
share one `BlockDedup` behind a lock, so their calls come in some order; connections, backoff and
the other fields of a header are left out.
-/

namespace ArbBot

/-- `DEDUP_WINDOW`. -/
abbrev dedupWindow : Nat := 64

/-- `BlockDedup`. A number 0 in the ring marks a cell that was never written. -/
structure BlockDedup where
  seen : Finset UInt64
  ring : Vector UInt64 dedupWindow
  head : Fin dedupWindow

namespace BlockDedup

/-- `new`. -/
def new : BlockDedup where
  seen := ∅
  ring := .replicate dedupWindow 0
  head := 0

/-- `try_insert`: whether the number is new, and the window after the call. -/
def tryInsert (dedup : BlockDedup) (blockNumber : UInt64) : Bool × BlockDedup :=
  if blockNumber ∈ dedup.seen then (false, dedup)
  else
    let seen := insert blockNumber dedup.seen
    let evicted := dedup.ring[dedup.head]
    (true, {
      seen := if evicted ≠ 0 then seen.erase evicted else seen
      ring := dedup.ring.set dedup.head blockNumber
      head := ⟨(dedup.head + 1) % dedupWindow, Nat.mod_lt _ (by decide)⟩ })

/-- One report: the window and the numbers that went downstream, newest first. -/
def report (state : BlockDedup × List UInt64) (blockNumber : UInt64) :
    BlockDedup × List UInt64 :=
  let (isFirst, dedup) := state.1.tryInsert blockNumber
  (dedup, if isFirst then blockNumber :: state.2 else state.2)

/-- The window and the accepted numbers after a sequence of reports. -/
def reports (blockNumbers : List UInt64) : BlockDedup × List UInt64 :=
  blockNumbers.foldl report (new, [])

end BlockDedup

end ArbBot
