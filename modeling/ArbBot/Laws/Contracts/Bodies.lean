import ArbBot.Contracts.Chain

/-!
# Bodies within a relation

What the bodies of the bot keep, whatever they are answered: a preorder on the states that the
answers stay within, and that a swap which arms and clears a slot stays within too, is kept by every
body that changes no other flag. The callbacks of the lenders clear flags before they call out, and
keep the relation when clearing does. Only the calls that arm a liquidation are left out.
-/

namespace ArbBot.V2ArbBot

open Lib Lib.Prog

/-- A relation that the answers and the two swaps with a slot stay within. -/
structure SwapFrame (dep : Deployment) (answers : Answers Storage Ledger Query Query.Answer)
    (rel : World → World → Prop) : Prop extends Frame answers rel where
  v3Swap : ∀ pool tokenIn tokenOut amountIn,
    Keeps answers rel (swapUniswapV3Pool dep pool tokenIn tokenOut amountIn)
  algebraSwap : ∀ pool tokenIn tokenOut amountIn,
    Keeps answers rel (swapAlgebraPool dep pool tokenIn tokenOut amountIn)

/-- A relation that also allows the configuration to change and a liquidation to be cleared. -/
structure CallFrame (dep : Deployment) (answers : Answers Storage Ledger Query Query.Answer)
    (rel : World → World → Prop) : Prop extends SwapFrame dep answers rel where
  configure : ∀ (s : World) (allowed : Address → Bool) (aave uni pancake : Address),
    rel s ({ s.1 with allowedFlashAssets := allowed, aavePool := aave, uniV3FlashPool := uni,
                      pancakeV3FlashPool := pancake }, s.2)
  clearLiquidation : ∀ s : World,
    rel s ({ s.1 with liquidationPending := false, liquidationVault := 0 }, s.2)
  clearMorphoBlue : ∀ s : World,
    rel s ({ s.1 with morphoBlueLiqPending := false, liquidationVault := 0, morphoBlueAddr := 0,
                      pendingSwapVault := 0 }, s.2)
  clearMorpho : ∀ s : World,
    rel s ({ s.1 with morphoLiquidationPending := false, liquidationVault := 0,
                      pendingSwapVault := 0 }, s.2)
  clearAave : ∀ s : World,
    rel s ({ s.1 with aaveLiquidationPending := false, pendingAaveLiqSwapVault := 0 }, s.2)

variable {answers : Answers Storage Ledger Query Query.Answer} {rel : World → World → Prop}
  {dep : Deployment} {msg : Msg}

/-- A slot whose changes stay within the relation. -/
theorem keeps_swapPool (F : Frame answers rel) {arm : Address → Storage → Storage}
    (harm : ∀ a, Keeps answers rel (update (arm a) : Bot Unit))
    (pool tokenIn tokenOut : Address) (amountIn : U256) :
    Keeps answers rel (swapPool dep arm pool tokenIn tokenOut amountIn) :=
  F.bind (F.call _) fun _ => F.bind (harm _) fun _ => F.bind (F.call _) fun _ =>
    F.bind (F.call _) fun _ => F.bind (harm _) fun _ => F.bind (F.call _) fun _ => F.ofOption _

namespace SwapFrame

variable (F : SwapFrame dep answers rel)

include F

protected theorem callPairSwap (pair : Address) (zeroForOne : Bool) (amountOut : U256) :
    Keeps answers rel (callPairSwap dep pair zeroForOne amountOut) :=
  keeps_ite (F.call _) (F.call _)

protected theorem swapV2Pair (pair tokenIn tokenOut : Address) (amountIn fee : U256) :
    Keeps answers rel (swapV2Pair dep pair tokenIn tokenOut amountIn fee) :=
  F.bind (F.call _) fun _ => F.bind (F.call _) fun _ => F.bind (F.ofOption _) fun _ =>
    F.bind (F.call _) fun _ => F.bind (F.call _) fun _ =>
      F.bind (F.callPairSwap _ _ _) fun _ => F.bind (F.call _) fun _ => F.ofOption _

protected theorem swapSolidlyStablePair (pair tokenIn tokenOut : Address) (amountIn fee : U256) :
    Keeps answers rel (swapSolidlyStablePair dep pair tokenIn tokenOut amountIn fee) :=
  F.bind (F.call _) fun _ => F.bind (F.call _) fun _ => F.bind (F.call _) fun _ =>
    F.bind (F.call _) fun _ => F.bind (F.ofOption _) fun _ => F.bind (F.ofOption _) fun _ =>
      F.bind (F.require _) fun _ => F.bind (F.call _) fun _ =>
        F.bind (F.callPairSwap _ _ _) fun _ => F.pure _

protected theorem swapLFJPair (pair tokenIn tokenOut : Address) (amountIn : U256) :
    Keeps answers rel (swapLFJPair dep pair tokenIn tokenOut amountIn) :=
  F.bind (F.call _) fun _ => F.bind (F.call _) fun _ => F.bind (F.call _) fun _ =>
    F.bind (F.call _) fun _ => F.bind (F.call _) fun _ => F.ofOption _

protected theorem safeApprove (token spender : Address) (amount : U256) :
    Keeps answers rel (safeApprove dep token spender amount) :=
  F.bind (keeps_ite (F.pure _) (F.call _)) fun _ => F.bind (F.require _) fun _ => F.call _

protected theorem resetApprove (token spender : Address) (amount : U256) :
    Keeps answers rel (resetApprove dep token spender amount) :=
  F.bind (F.safeApprove _ _ _) fun _ => F.safeApprove _ _ _

protected theorem swapBalancer (vault : Address) (poolId : U256) (tokenIn tokenOut : Address)
    (amountIn : U256) :
    Keeps answers rel (swapBalancer dep msg vault poolId tokenIn tokenOut amountIn) :=
  F.bind (F.resetApprove _ _ _) fun _ => F.bind (F.ofOption _) fun _ => F.call _

/-! ## Paths -/

protected theorem swapHop (arb : SwapParams) (i : Nat) (cur : Address × U256) :
    Keeps answers rel (swapHop dep arb i cur) :=
  F.bind (F.ofOption _) fun _ => F.bind (F.ofOption _) fun _ => F.bind (F.call _) fun _ =>
    F.bind (keeps_ite (F.call _) (F.pure _)) fun _ =>
      F.bind
        (keeps_ite (F.swapV2Pair _ _ _ _ _) <|
          keeps_ite (F.v3Swap _ _ _ _) <|
          keeps_ite (F.algebraSwap _ _ _ _) <|
          keeps_ite (F.swapSolidlyStablePair _ _ _ _ _) keeps_revert)
        fun _ => F.pure _

protected theorem swapHops (arb : SwapParams) (startToken : Address) (startAmt : U256) :
    ∀ n, Keeps answers rel (swapHops dep arb startToken startAmt n) := by
  intro n
  induction n with
  | zero => exact F.pure _
  | succ n ih => exact F.bind ih fun _ => F.swapHop _ _ _

protected theorem executeSwapPath (arb : SwapParams) (startToken : Address) (startAmt : U256) :
    Keeps answers rel (executeSwapPath dep arb startToken startAmt) :=
  F.bind (F.swapHops _ _ _ _) fun _ => F.pure _

protected theorem packedHop (data : Bytes) (i : Nat) (amountIn : U256) :
    Keeps answers rel (packedHop dep data i amountIn) :=
  keeps_ite (F.algebraSwap _ _ _ _) <|
    keeps_ite (F.swapSolidlyStablePair _ _ _ _ _) <|
    keeps_ite (F.v3Swap _ _ _ _) <|
    keeps_ite (F.swapLFJPair _ _ _ _) (F.swapV2Pair _ _ _ _ _)

protected theorem packedHops (data : Bytes) (amountIn : U256) :
    ∀ n, Keeps answers rel (packedHops dep data amountIn n) := by
  intro n
  induction n with
  | zero => exact F.pure _
  | succ n ih => exact F.bind ih fun _ => F.packedHop _ _ _

protected theorem execute (data : Bytes) : Keeps answers rel (execute dep data) :=
  F.bind (F.packedHops _ _ _) fun _ => F.bind (F.require _) fun _ => F.pure _

/-! ## Liquidations -/

protected theorem swapLeg (swapVault : Address) (poolId : U256) (pool tokenIn tokenOut : Address)
    (amount : U256) :
    Keeps answers rel (swapLeg dep msg swapVault poolId pool tokenIn tokenOut amount) :=
  keeps_ite (F.swapBalancer _ _ _ _ _) <|
    keeps_ite (F.v3Swap _ _ _ _) (F.pure _)

protected theorem swapCollateral (swapVault collateral debt : Address) (colBalancerPool : U256)
    (collateralPool : Address) (debtBalancerPool : U256) (debtPool : Address) :
    Keeps answers rel (swapCollateral dep msg swapVault collateral debt
      colBalancerPool collateralPool debtBalancerPool debtPool) :=
  keeps_ite (F.pure _) <|
    F.bind (F.call _) fun _ =>
      F.bind (keeps_ite (F.pure _) (F.swapLeg _ _ _ _ _ _)) fun _ =>
        keeps_ite (F.pure _) (F.bind (F.swapLeg _ _ _ _ _ _) fun _ => F.pure _)

protected theorem executeLiquidationCore (swapVault : Address) (p : LiquidationParams) :
    Keeps answers rel (executeLiquidationCore dep msg swapVault p) :=
  F.bind F.get fun _ => F.bind (F.resetApprove _ _ _) fun _ => F.bind F.get fun _ =>
    F.bind (F.call _) fun _ => F.swapCollateral _ _ _ _ _ _ _

protected theorem executeLiquidationFlashLoan (debtToken : Address) (debtAmount feeAmount : U256)
    (data : Bytes) :
    Keeps answers rel (executeLiquidationFlashLoan dep msg debtToken debtAmount feeAmount data) :=
  F.bind (F.ofOption _) fun _ => F.bind (F.executeLiquidationCore _ _) fun _ =>
    F.bind (F.ofOption _) fun _ => F.call _

protected theorem executeMorphoBlueLiqCore (morpho swapVault : Address) (p : MorphoBlueLiqParams)
    (debtAmount feeAmount : U256) :
    Keeps answers rel (executeMorphoBlueLiqCore dep msg morpho swapVault p debtAmount feeAmount) :=
  F.bind (F.resetApprove _ _ _) fun _ => F.bind (F.call _) fun _ =>
    F.bind (F.safeApprove _ _ _) fun _ =>
      F.bind (F.swapCollateral _ _ _ _ _ _ _) fun _ =>
        F.bind (F.ofOption _) fun _ => F.call _

/-! ## Entry points -/

protected theorem onlyOwner : Keeps answers rel (onlyOwner dep msg) := F.require _

protected theorem recoverToken (token : Address) :
    Keeps answers rel (recoverToken dep msg token) :=
  F.bind F.onlyOwner fun _ => F.bind (F.call _) fun _ => F.bind (F.ofOption _) fun _ =>
    F.call _

protected theorem approveTokens (router : Address) (force : Bool) :
    ∀ tokens, Keeps answers rel (approveTokens dep router force tokens) := by
  intro tokens
  induction tokens with
  | nil => exact F.pure _
  | cons token tokens ih =>
    exact F.bind (F.call _) fun _ =>
      F.bind (keeps_ite (F.resetApprove _ _ _) (F.pure _)) fun _ => ih

protected theorem executeArbWithFlashPool (flashPool startToken : Address) (arb : SwapParams) :
    Keeps answers rel (executeArbWithFlashPool dep flashPool startToken arb) :=
  F.bind (F.call _) fun _ => F.bind (F.call _) fun _ => F.bind (F.require _) fun _ => F.call _

protected theorem executeArbitrage (arb : SwapParams) :
    Keeps answers rel (executeArbitrage dep msg arb) :=
  F.bind F.onlyOwner fun _ => F.bind (F.require _) fun _ => F.bind (F.require _) fun _ =>
    F.bind
      (keeps_ite (F.pure _) (F.bind (F.call _) fun _ => F.bind (F.call _) fun _ => F.pure _))
      fun _ => F.bind F.get fun _ =>
        keeps_ite (F.bind (F.require _) fun _ => F.bind (F.require _) fun _ => F.call _) <|
        keeps_ite (F.bind (F.require _) fun _ => F.executeArbWithFlashPool _ _ _) <|
        keeps_ite (F.bind (F.require _) fun _ => F.executeArbWithFlashPool _ _ _) <|
        F.bind (F.call _) fun _ => F.bind (F.require _) fun _ =>
          F.bind (F.executeSwapPath _ _ _) fun _ => F.require _

protected theorem algebraSwapDirect (poolAddr tokenIn : Address) (amountIn : U256) :
    Keeps answers rel (algebraSwapDirect dep msg poolAddr tokenIn amountIn) :=
  F.bind F.onlyOwner fun _ => F.bind (F.call _) fun _ => F.bind (F.call _) fun _ =>
    F.bind (F.require _) fun _ => F.pure _

protected theorem fallback (data : Bytes) :
    Keeps answers rel (fallback dep msg data) :=
  F.bind F.onlyOwner fun _ =>
    keeps_ite (F.bind (F.execute _) fun _ => F.pure _) <|
    keeps_ite (F.call _) <|
    keeps_ite (F.bind (F.call _) fun _ => keeps_ite (F.call _) (F.call _)) <|
    keeps_ite (F.bind F.get fun _ => F.bind (F.require _) fun _ => F.call _) (F.pure _)

protected theorem paySwap (armed : Storage → Address) (amount0Delta amount1Delta : U256)
    (data : Bytes) :
    Keeps answers rel (paySwap armed msg amount0Delta amount1Delta data) :=
  F.bind F.get fun _ => F.bind (F.require _) fun _ => F.bind (F.ofOption _) fun _ => F.call _

protected theorem receiveArbLoan (tokens : List Address) (amounts feeAmounts : List U256)
    (data : Bytes) :
    Keeps answers rel (receiveArbLoan dep msg tokens amounts feeAmounts data) :=
  F.bind (F.require _) fun _ => F.bind (F.ofOption _) fun _ => F.bind (F.ofOption _) fun _ =>
    F.bind (F.execute _) fun _ => F.bind (F.ofOption _) fun _ =>
      F.bind (F.ofOption _) fun _ => F.call _

protected theorem uniswapV3FlashCallback (fee0 fee1 : U256) (data : Bytes) :
    Keeps answers rel (uniswapV3FlashCallback dep msg fee0 fee1 data) :=
  F.bind (F.ofOption _) fun _ => F.bind (F.require _) fun _ => F.bind F.get fun _ =>
    F.bind (F.require _) fun _ => F.bind (F.executeSwapPath _ _ _) fun _ =>
      F.bind (F.ofOption _) fun _ => F.bind (F.ofOption _) fun _ => F.bind (F.require _) fun _ =>
        F.call _

protected theorem uniswapV2Call (sender : Address) (amount0 amount1 : U256) (data : Bytes) :
    Keeps answers rel (uniswapV2Call dep msg sender amount0 amount1 data) :=
  F.bind (F.require _) fun _ => F.bind (F.require _) fun _ => F.bind (F.execute _) fun _ =>
    F.bind (F.ofOption _) fun _ => F.call _

end SwapFrame

/-! ## Callbacks of the lenders -/

/-- The functions that arm a liquidation and take out its loan. -/
def Entry.isTrigger : Entry → Bool
  | .triggerLiquidation .. | .triggerLiquidationWithMorpho .. | .triggerMorphoBlueLiquidation ..
  | .triggerLiquidationWithAave .. => true
  | _ => false

namespace CallFrame

variable (F : CallFrame dep answers rel)

include F

protected theorem receiveFlashLoan (tokens : List Address) (amounts feeAmounts : List U256)
    (data : Bytes) :
    Keeps answers rel (receiveFlashLoan dep msg tokens amounts feeAmounts data) :=
  F.bind F.get fun _ =>
    keeps_ite
      (F.bind (F.require _) fun _ =>
        F.bind (keeps_update fun st l => F.clearLiquidation (st, l)) fun _ =>
        F.bind (F.ofOption _) fun _ => F.bind (F.ofOption _) fun _ => F.bind (F.ofOption _) fun _ =>
          F.executeLiquidationFlashLoan _ _ _ _) <|
    keeps_ite
      (F.bind (F.require _) fun _ =>
        F.bind (keeps_update fun st l => F.clearMorphoBlue (st, l)) fun _ =>
        F.bind (F.ofOption _) fun _ => F.bind (F.ofOption _) fun _ => F.bind (F.ofOption _) fun _ =>
          F.executeMorphoBlueLiqCore _ _ _ _ _)
      (F.receiveArbLoan _ _ _ _)

protected theorem onMorphoFlashLoan (assets : U256) (data : Bytes) :
    Keeps answers rel (onMorphoFlashLoan dep msg assets data) :=
  F.bind F.get fun _ => F.bind (F.require _) fun _ =>
    F.bind (keeps_update fun st l => F.clearMorpho (st, l)) fun _ => F.bind (F.ofOption _) fun _ =>
      F.bind (F.executeLiquidationCore _ _) fun _ => F.resetApprove _ _ _

protected theorem executeOperation (asset : Address) (amount premium : U256) (initiator : Address)
    (params : Bytes) :
    Keeps answers rel (executeOperation dep msg asset amount premium initiator params) :=
  F.bind (F.require _) fun _ => F.bind F.get fun _ => F.bind (F.require _) fun _ =>
    F.bind (F.require _) fun _ => F.bind (F.ofOption _) fun _ =>
      keeps_ite
        (F.bind (keeps_update fun st l => F.clearAave (st, l)) fun _ =>
          F.bind (F.ofOption _) fun _ => F.bind (F.executeLiquidationCore _ _) fun _ =>
            F.resetApprove _ _ _)
        (F.bind (F.ofOption _) fun _ => F.bind (F.executeSwapPath _ _ _) fun _ =>
          F.bind (F.require _) fun _ => F.resetApprove _ _ _)

/-- **Every call but a trigger stays within the relation.** -/
protected theorem run {entry : Entry} (h : entry.isTrigger = false) :
    Keeps answers rel (entry.run dep msg) := by
  cases entry with
  | receive => exact F.call _
  | setAllowedFlashAsset | setAavePool | setUniV3FlashPool | setPancakeV3FlashPool =>
    exact F.bind F.onlyOwner fun _ => keeps_update fun st l => F.configure (st, l) _ _ _ _
  | recoverToken => exact F.recoverToken _
  | approveRouter => exact F.bind F.onlyOwner fun _ => F.approveTokens _ _ _
  | executeArbitrage => exact F.executeArbitrage _
  | algebraSwapDirect => exact F.bind (F.algebraSwapDirect _ _ _) fun _ => F.pure _
  | triggerLiquidation | triggerLiquidationWithMorpho | triggerMorphoBlueLiquidation
  | triggerLiquidationWithAave => cases h
  | receiveFlashLoan => exact F.receiveFlashLoan _ _ _ _
  | onMorphoFlashLoan => exact F.onMorphoFlashLoan _ _
  | uniswapV3SwapCallback | pancakeV3SwapCallback | algebraSwapCallback =>
    exact F.paySwap _ _ _ _
  | executeOperation => exact F.executeOperation _ _ _ _ _
  | uniswapV3FlashCallback => exact F.uniswapV3FlashCallback _ _ _
  | uniswapV2Call => exact F.uniswapV2Call _ _ _ _
  | fallback => exact F.fallback _

end CallFrame

end ArbBot.V2ArbBot
