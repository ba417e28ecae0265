import ArbBot.Lib.Panic
import ArbBot.SwapTypes

/-!
# Decoding pending transactions

The calldata decoders of `mempool.rs`. Offsets and lengths are read from calldata as 64-bit words
and added as `usize`, so every sum with such a word goes through the checked arithmetic of
`Lib.Checked`; slices and conversions to addresses panic when they are out of range. A bound of
the source that turns the input down (`return None`) is a `noneIf`.

The multicall loop leaves its body by `break` and `continue`, which are the two ways the round
below ends without decoding its sub-call.
-/

namespace ArbBot.Mempool

open Lib (Checked)
open Lib.Checked (noneIf add mul)

/-- A byte slice. No slice is longer than `isize::MAX`. -/
structure Bytes where
  bytes : List UInt8
  bound : bytes.length < 2 ^ 63

namespace Bytes

def len (b : Bytes) : Nat := b.bytes.length

theorem len_lt (b : Bytes) : b.len < 2 ^ 63 := b.bound

/-- The big-endian value of the bytes. -/
def toNat (b : Bytes) : Nat := b.bytes.foldl (fun n byte => n * 256 + byte.toNat) 0

/-- The bytes from `start` up to `stop`. -/
def extract (b : Bytes) (start stop : Nat) : Bytes where
  bytes := (b.bytes.take stop).drop start
  bound := by
    have := b.bound
    rw [List.length_drop, List.length_take]
    omega

theorem len_extract (b : Bytes) {start stop : Nat} (h : stop ≤ b.len) :
    (b.extract start stop).len = stop - start := by
  simp only [len, extract, List.length_drop, List.length_take]
  unfold len at h
  omega

/-- `&b[start..stop]`. -/
def slice (b : Bytes) (start stop : Nat) : Checked Bytes :=
  if start ≤ stop ∧ stop ≤ b.len then pure (b.extract start stop) else .panic .slice

/-- The last eight bytes of the 32-byte word at `pos`. -/
def word (b : Bytes) (pos : Nat) : Nat := ((b.extract pos (pos + 32)).extract 24 32).toNat

/-- `u64::from_be_bytes` of the last eight bytes of `b[pos..pos + 32]`. The conversions to arrays
of 32 and of 8 bytes are from slices of these lengths. -/
def readWord (b : Bytes) (pos : Nat) : Checked Nat := do
  let stop ← add pos 32
  let word ← b.slice pos stop
  let low ← word.slice 24 32
  pure low.toNat

end Bytes

/-- `Address::from_slice`. -/
def addressFromSlice (b : Bytes) : Checked Address :=
  if b.len = 20 then pure (BitVec.ofNat 160 b.toNat) else .panic .slice

/-! ## Selectors -/

/-- The first four bytes of a call. -/
abbrev Selector := BitVec 32

def swapExactTokensForTokens : Selector := 0x38ed1739
def swapTokensForExactTokens : Selector := 0x8803dbee
def swapExactEthForTokens : Selector := 0x7ff36ab5
def swapExactTokensForEth : Selector := 0x18cbafe5
def swapExactTokensForTokensFee : Selector := 0x5c11d795
def swapExactTokensForEthFee : Selector := 0x791ac947
def exactInputSingle : Selector := 0x414bf389
def exactInput : Selector := 0xc04b8d59
def exactOutputSingle : Selector := 0xdb3e2198
def exactOutput : Selector := 0xf28c0498
def exactInputSingleV3Alt : Selector := 0x04e45aaf
def multicallDeadline : Selector := 0x5ae401dc
def multicallNoDeadline : Selector := 0xac9650d8

/-- `calldata[..4]`, as the array of four bytes it is converted to. -/
def readSelector (calldata : Bytes) : Checked Selector := do
  let bytes ← calldata.slice 0 4
  pure (BitVec.ofNat 32 bytes.toNat)

/-- The selectors `decode_v2_swap_path` takes. -/
def v2Selectors : List Selector :=
  [swapExactTokensForTokens, swapTokensForExactTokens, swapExactEthForTokens,
    swapExactTokensForEth, swapExactTokensForTokensFee, swapExactTokensForEthFee]

/-- The selectors `decode_v3_single_swap` takes. -/
def v3SingleSelectors : List Selector :=
  [exactInputSingle, exactOutputSingle, exactInputSingleV3Alt]

/-- The selectors `decode_v3_multi_swap` takes. -/
def v3MultiSelectors : List Selector := [exactInput, exactOutput]

/-- The word that holds the offset of the `path` array, by function. -/
def pathWordIdx (selector : Selector) : Option Nat :=
  if selector = swapExactEthForTokens then some 1
  else if selector ∈ v2Selectors then some 2
  else none

/-- The word that holds the offset of the `bytes[]` array, by function. -/
def arrayOffsetWord (selector : Selector) : Option Nat :=
  if selector = multicallDeadline then some 1
  else if selector = multicallNoDeadline then some 0
  else none

/-! ## V2 -/

/-- The loop over the words of the path; the addresses are right-aligned in their words. -/
def readPath (calldata : Bytes) (dataStart : Nat) : List Nat → Checked (List Address)
  | [] => pure []
  | i :: is => do
    let skipped ← mul i 32
    let wordStart ← add dataStart skipped
    let addrStart ← add wordStart 12
    let addrStop ← add addrStart 20
    noneIf (calldata.len < addrStop)
    let addr ← addressFromSlice (← calldata.slice addrStart addrStop)
    let addrs ← readPath calldata dataStart is
    pure (addr :: addrs)

/-- `decode_v2_swap_path`. -/
def decodeV2SwapPath (calldata : Bytes) : Checked (List Address) := do
  noneIf (calldata.len < 4)
  let selector ← readSelector calldata
  let pathWordIdx ← Checked.ofOption (pathWordIdx selector)
  let offsetStart := 4 + pathWordIdx * 32
  noneIf (calldata.len < offsetStart + 32)
  let offset ← calldata.readWord offsetStart
  let arrayStart ← add 4 offset
  let dataStart ← add arrayStart 32
  noneIf (calldata.len < dataStart)
  let pathLen ← calldata.readWord arrayStart
  noneIf (pathLen < 2 ∨ 10 < pathLen)
  let dataLen ← mul pathLen 32
  let dataStop ← add dataStart dataLen
  noneIf (calldata.len < dataStop)
  readPath calldata dataStart (List.range pathLen)

/-! ## V3 -/

/-- `decode_v3_single_swap`. -/
def decodeV3SingleSwap (calldata : Bytes) : Checked (List Address) := do
  noneIf (calldata.len < 68)
  let tokenIn ← addressFromSlice (← calldata.slice (4 + 12) (4 + 32))
  let tokenOut ← addressFromSlice (← calldata.slice (4 + 32 + 12) (4 + 64))
  pure [tokenIn, tokenOut]

/-- The loop over the hops of a packed path: three bytes of fee, twenty of address. Each round
moves `pos` on by 23, so as many rounds as the path has bytes are enough (`readHops_succ`). -/
def readHops (path : Bytes) : Nat → Nat → List Address → Checked (List Address)
  | 0, _, addrs => pure addrs
  | rounds + 1, pos, addrs => do
    let hopStop ← add pos 23
    if hopStop ≤ path.len then
      let addrStart ← add pos 3
      let addrStop ← add addrStart 20
      let addr ← addressFromSlice (← path.slice addrStart addrStop)
      readHops path rounds addrStop (addrs ++ [addr])
    else pure addrs

/-- `decode_v3_path_bytes`. -/
def decodeV3PathBytes (path : Bytes) : Checked (List Address) := do
  noneIf (path.len < 43)
  noneIf (path.len < 0 + 20)
  let first ← addressFromSlice (← path.slice 0 (0 + 20))
  let addrs ← readHops path path.len 20 [first]
  if 2 ≤ addrs.length then pure addrs else .none

/-- `decode_v3_multi_swap`. -/
def decodeV3MultiSwap (calldata : Bytes) : Checked (List Address) := do
  noneIf (calldata.len < 4 + 32)
  let offset ← calldata.readWord 4
  let pathStart ← add 4 offset
  let dataStart ← add pathStart 32
  noneIf (calldata.len < dataStart)
  let pathLen ← calldata.readWord pathStart
  let dataStop ← add dataStart pathLen
  noneIf (calldata.len < dataStop)
  let pathData ← calldata.slice dataStart dataStop
  decodeV3PathBytes pathData

/-! ## Multicall -/

/-- The decoder a sub-call is dispatched to. -/
def decodeSubCall (subCall : Bytes) (selector : Selector) : Checked (List Address) :=
  if selector ∈ v3SingleSelectors then decodeV3SingleSwap subCall
  else if selector ∈ v3MultiSelectors then decodeV3MultiSwap subCall
  else if selector ∈ v2Selectors then decodeV2SwapPath subCall
  else .none

/-- The loop over the sub-calls. A word that does not fit ends the loop, a sub-call that does not
fit or has no selector is passed over, and one that does not decode adds nothing. -/
def readSubCalls (calldata : Bytes) (arrStart : Nat) :
    List Nat → List Address → Checked (List Address)
  | [], allTokens => pure allTokens
  | i :: is, allTokens => do
    let head ← add arrStart 32
    let skipped ← mul i 32
    let elemOffPos ← add head skipped
    let elemOffStop ← add elemOffPos 32
    if calldata.len < elemOffStop then pure allTokens
    else
      let elemOffset ← calldata.readWord elemOffPos
      let elemStart ← add head elemOffset
      let subDataStart ← add elemStart 32
      if calldata.len < subDataStart then pure allTokens
      else
        let subLen ← calldata.readWord elemStart
        let subDataStop ← add subDataStart subLen
        if calldata.len < subDataStop ∨ subLen < 4 then
          readSubCalls calldata arrStart is allTokens
        else
          let subCall ← calldata.slice subDataStart subDataStop
          let selector ← readSelector subCall
          let tokens ← Checked.attempt (decodeSubCall subCall selector)
          readSubCalls calldata arrStart is (allTokens ++ tokens.getD [])

/-- `decode_multicall_swaps`. -/
def decodeMulticallSwaps (calldata : Bytes) : Checked (List Address) := do
  noneIf (calldata.len < 4)
  let selector ← readSelector calldata
  let arrayOffsetWord ← Checked.ofOption (arrayOffsetWord selector)
  let offStart := 4 + arrayOffsetWord * 32
  noneIf (calldata.len < offStart + 32)
  let offset ← calldata.readWord offStart
  let arrStart ← add 4 offset
  let head ← add arrStart 32
  noneIf (calldata.len < head)
  let numCalls ← calldata.readWord arrStart
  noneIf (numCalls = 0 ∨ 20 < numCalls)
  let allTokens ← readSubCalls calldata arrStart (List.range numCalls) []
  if allTokens = [] then .none else pure allTokens

/-- `decode_any_swap`. -/
def decodeAnySwap (calldata : Bytes) : Checked (List Address) := do
  noneIf (calldata.len < 4)
  let selector ← readSelector calldata
  if selector ∈ v2Selectors then decodeV2SwapPath calldata
  else if selector ∈ v3SingleSelectors then decodeV3SingleSwap calldata
  else if selector ∈ v3MultiSelectors then decodeV3MultiSwap calldata
  else if selector = multicallDeadline ∨ selector = multicallNoDeadline then
    decodeMulticallSwaps calldata
  else .none

end ArbBot.Mempool
