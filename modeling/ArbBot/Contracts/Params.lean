import ArbBot.Lib.Bytes
import ArbBot.SwapTypes

/-!
# Parameters of the contract and their encoding

The parameter structures of `V2ArbBot.sol`, `abi.encode` of each and `abi.decode` as the compiler
checks it: a word out of range, an address or a small integer with dirty upper bits, and an offset
or a length past `2 ^ 64 - 1` make the call revert.
-/

namespace ArbBot

open Lib (Bytes)
open Lib.Bytes (readWord)

/-- An address as a word. -/
def Address.toWord (a : Address) : U256 := a.setWidth 256

/-- The address in the low bits of a word, which is what a comparison or a call uses. -/
def U256.toAddress (word : U256) : Address := word.setWidth 160

@[simp] theorem U256.toAddress_toWord (a : Address) : U256.toAddress (Address.toWord a) = a := by
  unfold U256.toAddress Address.toWord
  rw [BitVec.setWidth_setWidth_of_le _ (by decide), BitVec.setWidth_eq]

namespace Abi

def readAddress (data : Bytes) (pos : Nat) : Option Address := do
  let word ← readWord data pos
  if word.toNat < 2 ^ 160 then some (U256.toAddress word) else none

def readUint8 (data : Bytes) (pos : Nat) : Option UInt8 := do
  let word ← readWord data pos
  if word.toNat < 2 ^ 8 then some (UInt8.ofNat word.toNat) else none

def readUint32 (data : Bytes) (pos : Nat) : Option UInt32 := do
  let word ← readWord data pos
  if word.toNat < 2 ^ 32 then some (UInt32.ofNat word.toNat) else none

/-- The position an offset word leads to. -/
def readOffset (data : Bytes) (start pos : Nat) : Option Nat := do
  let word ← readWord data pos
  if word.toNat < 2 ^ 64 then some (start + word.toNat) else none

/-- A length and that many elements. -/
def readArray {α : Type} (read : Bytes → Nat → Option α) (data : Bytes) (pos : Nat) :
    Option (List α) := do
  let length ← readWord data pos
  if length.toNat < 2 ^ 64 ∧ pos + 32 + 32 * length.toNat ≤ data.length then
    (List.range length.toNat).mapM fun i => read data (pos + 32 + 32 * i)
  else none

/-- A length and the elements as words. -/
def encodeArray {α : Type} (encode : α → U256) (xs : List α) : List U256 :=
  BitVec.ofNat 256 xs.length :: xs.map encode

/-- `abi.encode(tokenIn, amountIn)`. -/
def encodeTokenAmount (token : Address) (amount : U256) : Bytes :=
  Bytes.ofWords [token.toWord, amount]

/-- `abi.decode(data, (address, uint256))`. -/
def decodeTokenAmount (data : Bytes) : Option (Address × U256) := do
  let token ← readAddress data 0
  let amount ← readWord data 32
  some (token, amount)

end Abi

/-- `V2ArbBot.SwapParams`. -/
structure SwapParams where
  pools : List Address
  poolVersions : List UInt8
  fees : List UInt32
  amountIn : U256
  startToken : Address
  flashLoanProvider : UInt8
  deriving DecidableEq

namespace SwapParams

/-- The words of the structure: three offsets, three values, and the arrays. -/
def toWords (arb : SwapParams) : List U256 :=
  let pools := Abi.encodeArray Address.toWord arb.pools
  let versions := Abi.encodeArray (fun v : UInt8 => BitVec.ofNat 256 v.toNat) arb.poolVersions
  let fees := Abi.encodeArray (fun f : UInt32 => BitVec.ofNat 256 f.toNat) arb.fees
  let offset (words : Nat) : U256 := BitVec.ofNat 256 (32 * words)
  [offset 6, offset (6 + pools.length), offset (6 + pools.length + versions.length),
    arb.amountIn, arb.startToken.toWord, BitVec.ofNat 256 arb.flashLoanProvider.toNat]
    ++ pools ++ versions ++ fees

/-- `abi.encode(arb)`. -/
def encode (arb : SwapParams) : Bytes := Bytes.ofWords (32 :: arb.toWords)

/-- `abi.encode(arb, flashPool, startToken)`. -/
def encodeFlash (arb : SwapParams) (flashPool startToken : Address) : Bytes :=
  Bytes.ofWords (96 :: flashPool.toWord :: startToken.toWord :: arb.toWords)

/-- The structure at a position of the data. -/
def read (data : Bytes) (start : Nat) : Option SwapParams := do
  let pools ← Abi.readArray Abi.readAddress data (← Abi.readOffset data start start)
  let poolVersions ← Abi.readArray Abi.readUint8 data (← Abi.readOffset data start (start + 32))
  let fees ← Abi.readArray Abi.readUint32 data (← Abi.readOffset data start (start + 64))
  let amountIn ← readWord data (start + 96)
  let startToken ← Abi.readAddress data (start + 128)
  let flashLoanProvider ← Abi.readUint8 data (start + 160)
  some { pools, poolVersions, fees, amountIn, startToken, flashLoanProvider }

/-- `abi.decode(params, (SwapParams))`. -/
def decode (data : Bytes) : Option SwapParams := do
  read data (← Abi.readOffset data 0 0)

/-- `abi.decode(data, (SwapParams, address, address))`. -/
def decodeFlash (data : Bytes) : Option (SwapParams × Address × Address) := do
  let arb ← read data (← Abi.readOffset data 0 0)
  let flashPool ← Abi.readAddress data 32
  let startToken ← Abi.readAddress data 64
  some (arb, flashPool, startToken)

end SwapParams

/-- `V2ArbBot.LiquidationParams`. A pool id of zero names no Balancer pool. -/
structure LiquidationParams where
  user : Address
  collateralAsset : Address
  debtAsset : Address
  debtToCover : U256
  collateralPool : Address
  debtPool : Address
  colBalancerPool : U256
  debtBalancerPool : U256
  deriving DecidableEq

namespace LiquidationParams

def encode (p : LiquidationParams) : Bytes :=
  Bytes.ofWords [p.user.toWord, p.collateralAsset.toWord, p.debtAsset.toWord, p.debtToCover,
    p.collateralPool.toWord, p.debtPool.toWord, p.colBalancerPool, p.debtBalancerPool]

def decode (data : Bytes) : Option LiquidationParams := do
  let user ← Abi.readAddress data 0
  let collateralAsset ← Abi.readAddress data 32
  let debtAsset ← Abi.readAddress data 64
  let debtToCover ← readWord data 96
  let collateralPool ← Abi.readAddress data 128
  let debtPool ← Abi.readAddress data 160
  let colBalancerPool ← readWord data 192
  let debtBalancerPool ← readWord data 224
  some { user, collateralAsset, debtAsset, debtToCover, collateralPool, debtPool,
         colBalancerPool, debtBalancerPool }

end LiquidationParams

/-- `IMorpho.MarketParams`. -/
structure MarketParams where
  loanToken : Address
  collateralToken : Address
  oracle : Address
  irm : Address
  lltv : U256
  deriving DecidableEq

/-- `V2ArbBot.MorphoBlueLiqParams`; its first five fields are the market. -/
structure MorphoBlueLiqParams where
  market : MarketParams
  borrower : Address
  repaidShares : U256
  flashAmount : U256
  collateralPool : Address
  debtPool : Address
  colBalancerPool : U256
  debtBalancerPool : U256
  deriving DecidableEq

namespace MorphoBlueLiqParams

def encode (p : MorphoBlueLiqParams) : Bytes :=
  Bytes.ofWords [p.market.loanToken.toWord, p.market.collateralToken.toWord,
    p.market.oracle.toWord, p.market.irm.toWord, p.market.lltv, p.borrower.toWord,
    p.repaidShares, p.flashAmount, p.collateralPool.toWord, p.debtPool.toWord,
    p.colBalancerPool, p.debtBalancerPool]

def decode (data : Bytes) : Option MorphoBlueLiqParams := do
  let loanToken ← Abi.readAddress data 0
  let collateralToken ← Abi.readAddress data 32
  let oracle ← Abi.readAddress data 64
  let irm ← Abi.readAddress data 96
  let lltv ← readWord data 128
  let borrower ← Abi.readAddress data 160
  let repaidShares ← readWord data 192
  let flashAmount ← readWord data 224
  let collateralPool ← Abi.readAddress data 256
  let debtPool ← Abi.readAddress data 288
  let colBalancerPool ← readWord data 320
  let debtBalancerPool ← readWord data 352
  some { market := { loanToken, collateralToken, oracle, irm, lltv }, borrower, repaidShares,
         flashAmount, collateralPool, debtPool, colBalancerPool, debtBalancerPool }

end MorphoBlueLiqParams

end ArbBot
