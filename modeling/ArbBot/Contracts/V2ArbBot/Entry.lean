import ArbBot.Contracts.V2ArbBot.Swaps

/-!
# The entry points of the bot

The external functions of `V2ArbBot.sol`, the liquidation bodies they share, and the dispatch of a
call to them. The functions that only the owner may call begin with that check; a callback checks
its caller against a pending slot, a configured address, or a word of the data it was passed.
-/

namespace ArbBot.V2ArbBot

open Lib
open Lib.Prog (ofOption require update get)

/-! ## Configuration -/

/-- `require(msg.sender == owner)`. -/
def onlyOwner (dep : Deployment) (msg : Msg) : Bot Unit := require (msg.sender = dep.owner)

def setAllowedFlashAsset (dep : Deployment) (msg : Msg) (asset : Address) (allowed : Bool) :
    Bot Unit := do
  onlyOwner dep msg
  update fun st =>
    { st with allowedFlashAssets := fun a => if a = asset then allowed else st.allowedFlashAssets a }

def setAavePool (dep : Deployment) (msg : Msg) (pool : Address) : Bot Unit := do
  onlyOwner dep msg
  update fun st => { st with aavePool := pool }

def setUniV3FlashPool (dep : Deployment) (msg : Msg) (pool : Address) : Bot Unit := do
  onlyOwner dep msg
  update fun st => { st with uniV3FlashPool := pool }

def setPancakeV3FlashPool (dep : Deployment) (msg : Msg) (pool : Address) : Bot Unit := do
  onlyOwner dep msg
  update fun st => { st with pancakeV3FlashPool := pool }

/-- `recoverToken`: all but one unit of a token. -/
def recoverToken (dep : Deployment) (msg : Msg) (token : Address) : Bot Unit := do
  onlyOwner dep msg
  let balance ← call (.balanceOf token dep.self)
  let amount ← sub balance 1
  call (.transfer token msg.sender amount)

/-- The loop of `approveRouter`. -/
def approveTokens (dep : Deployment) (router : Address) (force : Bool) : List Address → Bot Unit
  | [] => pure ()
  | token :: tokens => do
    let allowance ← call (.allowance token dep.self router)
    let maxInt : U256 := BitVec.allOnes 256
    (if allowance < maxInt / 2 ∨ force then resetApprove dep token router maxInt
      else pure () : Bot Unit)
    approveTokens dep router force tokens

def approveRouter (dep : Deployment) (msg : Msg) (router : Address) (tokens : List Address)
    (force : Bool) : Bot Unit := do
  onlyOwner dep msg
  approveTokens dep router force tokens

/-! ## Arbitrage -/

/-- `_resolveStartToken`. -/
def resolveStartToken (dep : Deployment) (pool : Address) : Bot Address := do
  let t0 ← call (.token0 pool)
  let t1 ← call (.token1 pool)
  pure (if t0 = dep.mainCurrency ∨ t1 = dep.mainCurrency then dep.mainCurrency else t0)

/-- `_executeArbWithFlashPool`. -/
def executeArbWithFlashPool (dep : Deployment) (flashPool startToken : Address)
    (arb : SwapParams) : Bot Unit := do
  let token0 ← call (.token0 flashPool)
  let token1 ← call (.token1 flashPool)
  let amount0 := if startToken = token0 then arb.amountIn else 0
  let amount1 := if startToken = token1 then arb.amountIn else 0
  require (0 < amount0 ∨ 0 < amount1)
  call (.poolFlash flashPool dep.self amount0 amount1 (arb.encodeFlash flashPool startToken))

/-- `executeArbitrage`. -/
def executeArbitrage (dep : Deployment) (msg : Msg) (arb : SwapParams) : Bot Unit := do
  onlyOwner dep msg
  require (0 < arb.pools.length)
  require (arb.pools.length = arb.poolVersions.length)
  let startToken ← (if arb.startToken ≠ 0 then pure arb.startToken
    else resolveStartToken dep (arb.pools[0]?.getD 0) : Bot Address)
  let st ← get
  if arb.flashLoanProvider = 0 then do
    require (st.aavePool ≠ 0)
    require (st.allowedFlashAssets startToken)
    call (.flashLoanSimple st.aavePool dep.self startToken arb.amountIn arb.encode)
  else if arb.flashLoanProvider = 1 then do
    require (st.uniV3FlashPool ≠ 0)
    executeArbWithFlashPool dep st.uniV3FlashPool startToken arb
  else if arb.flashLoanProvider = 2 then do
    require (st.pancakeV3FlashPool ≠ 0)
    executeArbWithFlashPool dep st.pancakeV3FlashPool startToken arb
  else do
    let balance ← call (.balanceOf startToken dep.self)
    require (arb.amountIn ≤ balance)
    let amountOut ← executeSwapPath dep arb startToken arb.amountIn
    require (arb.amountIn < amountOut)

/-- `algebraSwapDirect`. It arms no slot. -/
def algebraSwapDirect (dep : Deployment) (msg : Msg) (poolAddr tokenIn : Address)
    (amountIn : U256) : Bot U256 := do
  onlyOwner dep msg
  let token0 ← call (.token0 poolAddr)
  let zeroToOne := decide (tokenIn = token0)
  let deltas ← call (.poolSwap poolAddr dep.self zeroToOne amountIn (sqrtPriceLimit zeroToOne)
    (Abi.encodeTokenAmount tokenIn amountIn))
  let delta := if zeroToOne then deltas.2 else deltas.1
  require (delta ≠ BitVec.intMin 256)
  pure (-delta)

/-- The fallback: the owner's packed arbitrage, on one of three flash loans or none. -/
def fallback (dep : Deployment) (msg : Msg) (data : Bytes) : Bot Unit := do
  onlyOwner dep msg
  let amountIn := data.wordAt 0
  let useLoan := data.wordAt 0x20
  let loanPool := U256.toAddress (data.wordAt 0x40)
  let tokenBorrow := U256.toAddress (data.wordAt 0xa0)
  if useLoan = 0 then do
    let _ ← execute dep data
  else if useLoan = 1 then
    call (.vaultFlashLoan loanPool dep.self [tokenBorrow] [amountIn] data)
  else if useLoan = 2 then do
    let token0 ← call (.token0 loanPool)
    if tokenBorrow = token0 then call (.pairSwap loanPool amountIn 0 dep.self data)
    else call (.pairSwap loanPool 0 amountIn dep.self data)
  else if useLoan = 3 then do
    let st ← get
    require (st.allowedFlashAssets tokenBorrow)
    call (.flashLoanSimple loanPool dep.self tokenBorrow amountIn data)
  else pure ()

/-! ## Swap callbacks -/

/-- What `_handleV3Callback` and `algebraSwapCallback` do, each with its own slot: only the pool
in the slot is paid the positive one of the two amounts. -/
def paySwap (armed : Storage → Address) (msg : Msg) (amount0Delta amount1Delta : U256)
    (data : Bytes) : Bot Unit := do
  let st ← get
  require (armed st ≠ 0 ∧ msg.sender = armed st)
  let (tokenIn, _) ← ofOption (Abi.decodeTokenAmount data)
  let actualAmount := if (0 : U256).slt amount0Delta then amount0Delta else amount1Delta
  call (.transfer tokenIn msg.sender actualAmount)

/-- `uniswapV3SwapCallback` and `pancakeV3SwapCallback`. -/
def handleV3Callback : Msg → U256 → U256 → Bytes → Bot Unit := paySwap Storage.pendingV3Pool

def algebraSwapCallback : Msg → U256 → U256 → Bytes → Bot Unit :=
  paySwap Storage.pendingAlgebraPool

/-! ## Liquidations -/

/-- One leg of the swaps after a liquidation: by the vault if there is a pool id for it, else by
a V3 pool if there is one, else not at all. -/
def swapLeg (dep : Deployment) (msg : Msg) (swapVault : Address) (poolId : U256)
    (pool tokenIn tokenOut : Address) (amount : U256) : Bot U256 :=
  if poolId ≠ 0 ∧ swapVault ≠ 0 then swapBalancer dep msg swapVault poolId tokenIn tokenOut amount
  else if pool ≠ 0 then swapUniswapV3Pool dep pool tokenIn tokenOut amount
  else pure amount

/-- Step 3 of both liquidation cores: the seized collateral is sold for the debt token, through
the main currency. -/
def swapCollateral (dep : Deployment) (msg : Msg) (swapVault collateral debt : Address)
    (colBalancerPool : U256) (collateralPool : Address) (debtBalancerPool : U256)
    (debtPool : Address) : Bot Unit :=
  if collateral = debt then pure ()
  else do
    let weth := dep.mainCurrency
    let bal ← call (.balanceOf collateral dep.self)
    let bal ← (if collateral = weth then pure bal
      else swapLeg dep msg swapVault colBalancerPool collateralPool collateral weth bal : Bot U256)
    if debt = weth then pure ()
    else do
      let _ ← swapLeg dep msg swapVault debtBalancerPool debtPool weth debt bal

/-- `_executeLiquidationCore`. -/
def executeLiquidationCore (dep : Deployment) (msg : Msg) (swapVault : Address)
    (p : LiquidationParams) : Bot Unit := do
  let st ← get
  resetApprove dep p.debtAsset st.aavePool p.debtToCover
  let st ← get
  call (.liquidationCall st.aavePool p.collateralAsset p.debtAsset p.user p.debtToCover)
  swapCollateral dep msg swapVault p.collateralAsset p.debtAsset p.colBalancerPool
    p.collateralPool p.debtBalancerPool p.debtPool

/-- `_executeLiquidationFlashLoan`: the swap vault is the caller. -/
def executeLiquidationFlashLoan (dep : Deployment) (msg : Msg) (debtToken : Address)
    (debtAmount feeAmount : U256) (data : Bytes) : Bot Unit := do
  let p ← ofOption (LiquidationParams.decode data)
  executeLiquidationCore dep msg msg.sender p
  let amount ← add debtAmount feeAmount
  call (.transfer debtToken msg.sender amount)

/-- `_executeMorphoBlueLiqCore`. -/
def executeMorphoBlueLiqCore (dep : Deployment) (msg : Msg) (morpho swapVault : Address)
    (p : MorphoBlueLiqParams) (debtAmount feeAmount : U256) : Bot Unit := do
  let loanToken := p.market.loanToken
  resetApprove dep loanToken morpho debtAmount
  call (.morphoLiquidate morpho p.market p.borrower p.repaidShares)
  safeApprove dep loanToken morpho 0
  swapCollateral dep msg swapVault p.market.collateralToken loanToken p.colBalancerPool
    p.collateralPool p.debtBalancerPool p.debtPool
  let amount ← add debtAmount feeAmount
  call (.transfer loanToken msg.sender amount)

/-- `triggerLiquidation`. -/
def triggerLiquidation (dep : Deployment) (msg : Msg) (balancerVault : Address)
    (p : LiquidationParams) : Bot Unit := do
  onlyOwner dep msg
  update fun st => { st with liquidationPending := true, liquidationVault := balancerVault }
  call (.vaultFlashLoan balancerVault dep.self [p.debtAsset] [p.debtToCover] p.encode)

/-- `triggerLiquidationWithMorpho`. -/
def triggerLiquidationWithMorpho (dep : Deployment) (msg : Msg) (morpho swapVault : Address)
    (p : LiquidationParams) : Bot Unit := do
  onlyOwner dep msg
  update fun st =>
    { st with morphoLiquidationPending := true, liquidationVault := morpho,
              pendingSwapVault := swapVault }
  call (.morphoFlashLoan morpho p.debtAsset p.debtToCover p.encode)

/-- `triggerMorphoBlueLiquidation`. -/
def triggerMorphoBlueLiquidation (dep : Deployment) (msg : Msg)
    (balancerVault morphoBlue : Address) (p : MorphoBlueLiqParams) : Bot Unit := do
  onlyOwner dep msg
  update fun st =>
    { st with morphoBlueLiqPending := true, morphoBlueAddr := morphoBlue,
              liquidationVault := balancerVault, pendingSwapVault := balancerVault }
  call (.vaultFlashLoan balancerVault dep.self [p.market.loanToken] [p.flashAmount] p.encode)

/-- `triggerLiquidationWithAave`. -/
def triggerLiquidationWithAave (dep : Deployment) (msg : Msg) (swapVault : Address)
    (p : LiquidationParams) : Bot Unit := do
  onlyOwner dep msg
  let st ← get
  require (st.aavePool ≠ 0)
  update fun st =>
    { st with aaveLiquidationPending := true, pendingAaveLiqSwapVault := swapVault }
  call (.flashLoanSimple st.aavePool dep.self p.debtAsset p.debtToCover p.encode)

/-! ## Flash-loan callbacks -/

/-- The address in the third word of the data, which the caller of a flash callback chose. -/
def lenderWord (data : Bytes) : Address := U256.toAddress (data.wordAt 0x40)

/-- The arbitrage branch of `receiveFlashLoan`. -/
def receiveArbLoan (dep : Deployment) (msg : Msg) (tokens : List Address)
    (amounts feeAmounts : List U256) (data : Bytes) : Bot Unit := do
  let vault := lenderWord data
  require (msg.sender = vault)
  let token ← ofOption tokens[0]?
  let amountIn ← ofOption amounts[0]?
  let _ ← execute dep data
  let fee ← ofOption feeAmounts[0]?
  let amount ← add amountIn fee
  call (.transfer token vault amount)

/-- `receiveFlashLoan`: a pending liquidation with its stored vault, else an arbitrage. -/
def receiveFlashLoan (dep : Deployment) (msg : Msg) (tokens : List Address)
    (amounts feeAmounts : List U256) (data : Bytes) : Bot Unit := do
  let st ← get
  if st.liquidationPending then do
    require (msg.sender = st.liquidationVault)
    update fun st => { st with liquidationPending := false, liquidationVault := 0 }
    let token ← ofOption tokens[0]?
    let amount ← ofOption amounts[0]?
    let fee ← ofOption feeAmounts[0]?
    executeLiquidationFlashLoan dep msg token amount fee data
  else if st.morphoBlueLiqPending then do
    require (msg.sender = st.liquidationVault)
    update fun st =>
      { st with morphoBlueLiqPending := false, liquidationVault := 0, morphoBlueAddr := 0,
                pendingSwapVault := 0 }
    let p ← ofOption (MorphoBlueLiqParams.decode data)
    let amount ← ofOption amounts[0]?
    let fee ← ofOption feeAmounts[0]?
    executeMorphoBlueLiqCore dep msg st.morphoBlueAddr st.pendingSwapVault p amount fee
  else receiveArbLoan dep msg tokens amounts feeAmounts data

/-- `onMorphoFlashLoan`. -/
def onMorphoFlashLoan (dep : Deployment) (msg : Msg) (assets : U256) (data : Bytes) :
    Bot Unit := do
  let st ← get
  require (st.morphoLiquidationPending = true ∧ msg.sender = st.liquidationVault)
  update fun st =>
    { st with morphoLiquidationPending := false, liquidationVault := 0, pendingSwapVault := 0 }
  let p ← ofOption (LiquidationParams.decode data)
  executeLiquidationCore dep msg st.pendingSwapVault p
  resetApprove dep p.debtAsset msg.sender assets

/-- `executeOperation`. -/
def executeOperation (dep : Deployment) (msg : Msg) (asset : Address) (amount premium : U256)
    (initiator : Address) (params : Bytes) : Bot Unit := do
  require (initiator = dep.self)
  let st ← get
  require (st.aavePool ≠ 0 ∧ msg.sender = st.aavePool)
  require (st.allowedFlashAssets asset)
  let repayAmount ← add amount premium
  if st.aaveLiquidationPending then do
    update fun st =>
      { st with aaveLiquidationPending := false, pendingAaveLiqSwapVault := 0 }
    let p ← ofOption (LiquidationParams.decode params)
    executeLiquidationCore dep msg st.pendingAaveLiqSwapVault p
    resetApprove dep asset msg.sender repayAmount
  else do
    let arb ← ofOption (SwapParams.decode params)
    let amountOut ← executeSwapPath dep arb asset amount
    require (repayAmount ≤ amountOut)
    resetApprove dep asset msg.sender repayAmount

/-- `uniswapV3FlashCallback`. -/
def uniswapV3FlashCallback (dep : Deployment) (msg : Msg) (fee0 fee1 : U256) (data : Bytes) :
    Bot Unit := do
  let (arb, flashPool, startToken) ← ofOption (SwapParams.decodeFlash data)
  require (msg.sender = flashPool)
  let st ← get
  require (flashPool = st.uniV3FlashPool ∨ flashPool = st.pancakeV3FlashPool)
  let amountOut ← executeSwapPath dep arb startToken arb.amountIn
  let withFee0 ← add arb.amountIn fee0
  let repayAmount ← add withFee0 fee1
  require (repayAmount ≤ amountOut)
  call (.transfer startToken flashPool repayAmount)

/-- What `uniswapV2Call` repays for a loan. -/
def repayV2 (amountIn feeBps : U256) : Option U256 := do
  let product ← checkedMul amountIn feeBps
  let base ← checkedSub 10000 feeBps
  let repayFee ← checkedAdd (← checkedDiv product base) 1
  checkedAdd amountIn repayFee

/-- `uniswapV2Call`. -/
def uniswapV2Call (dep : Deployment) (msg : Msg) (sender : Address) (amount0 amount1 : U256)
    (data : Bytes) : Bot Unit := do
  let loanPool := lenderWord data
  let tokenIn := U256.toAddress (data.wordAt 0xa0)
  let feeBps := data.wordAt 0x100
  require (msg.sender = loanPool)
  require (sender = dep.self)
  let _ ← execute dep data
  let repayAmount ← ofOption (repayV2 (if amount0 = 0 then amount1 else amount0) feeBps)
  call (.transfer tokenIn loanPool repayAmount)

/-! ## Dispatch -/

/-- A call to the contract with its decoded arguments. The getters of the public variables are
left out: they change nothing. -/
inductive Entry where
  | receive
  | setAllowedFlashAsset (asset : Address) (allowed : Bool)
  | setAavePool (pool : Address)
  | setUniV3FlashPool (pool : Address)
  | setPancakeV3FlashPool (pool : Address)
  | recoverToken (token : Address)
  | approveRouter (router : Address) (tokens : List Address) (force : Bool)
  | executeArbitrage (arb : SwapParams)
  | algebraSwapDirect (poolAddr tokenIn : Address) (amountIn : U256)
  | triggerLiquidation (balancerVault : Address) (p : LiquidationParams)
  | triggerLiquidationWithMorpho (morpho swapVault : Address) (p : LiquidationParams)
  | triggerMorphoBlueLiquidation (balancerVault morphoBlue : Address) (p : MorphoBlueLiqParams)
  | triggerLiquidationWithAave (swapVault : Address) (p : LiquidationParams)
  | receiveFlashLoan (tokens : List Address) (amounts feeAmounts : List U256) (data : Bytes)
  | onMorphoFlashLoan (assets : U256) (data : Bytes)
  | uniswapV3SwapCallback (amount0Delta amount1Delta : U256) (data : Bytes)
  | pancakeV3SwapCallback (amount0Delta amount1Delta : U256) (data : Bytes)
  | algebraSwapCallback (amount0Delta amount1Delta : U256) (data : Bytes)
  | executeOperation (asset : Address) (amount premium : U256) (initiator : Address)
      (params : Bytes)
  | uniswapV3FlashCallback (fee0 fee1 : U256) (data : Bytes)
  | uniswapV2Call (sender : Address) (amount0 amount1 : U256) (data : Bytes)
  | fallback (data : Bytes)
  deriving DecidableEq

/-- The function a call runs. A plain transfer of the native currency is wrapped. -/
def Entry.run (dep : Deployment) (msg : Msg) : Entry → Bot Unit
  | .receive => call (.deposit dep.mainCurrency msg.value)
  | .setAllowedFlashAsset asset allowed => V2ArbBot.setAllowedFlashAsset dep msg asset allowed
  | .setAavePool pool => V2ArbBot.setAavePool dep msg pool
  | .setUniV3FlashPool pool => V2ArbBot.setUniV3FlashPool dep msg pool
  | .setPancakeV3FlashPool pool => V2ArbBot.setPancakeV3FlashPool dep msg pool
  | .recoverToken token => V2ArbBot.recoverToken dep msg token
  | .approveRouter router tokens force => V2ArbBot.approveRouter dep msg router tokens force
  | .executeArbitrage arb => V2ArbBot.executeArbitrage dep msg arb
  | .algebraSwapDirect poolAddr tokenIn amountIn => do
    let _ ← V2ArbBot.algebraSwapDirect dep msg poolAddr tokenIn amountIn
  | .triggerLiquidation vault p => V2ArbBot.triggerLiquidation dep msg vault p
  | .triggerLiquidationWithMorpho morpho vault p =>
    V2ArbBot.triggerLiquidationWithMorpho dep msg morpho vault p
  | .triggerMorphoBlueLiquidation vault morpho p =>
    V2ArbBot.triggerMorphoBlueLiquidation dep msg vault morpho p
  | .triggerLiquidationWithAave vault p => V2ArbBot.triggerLiquidationWithAave dep msg vault p
  | .receiveFlashLoan tokens amounts feeAmounts data =>
    V2ArbBot.receiveFlashLoan dep msg tokens amounts feeAmounts data
  | .onMorphoFlashLoan assets data => V2ArbBot.onMorphoFlashLoan dep msg assets data
  | .uniswapV3SwapCallback amount0Delta amount1Delta data
  | .pancakeV3SwapCallback amount0Delta amount1Delta data =>
    handleV3Callback msg amount0Delta amount1Delta data
  | .algebraSwapCallback amount0Delta amount1Delta data =>
    V2ArbBot.algebraSwapCallback msg amount0Delta amount1Delta data
  | .executeOperation asset amount premium initiator params =>
    V2ArbBot.executeOperation dep msg asset amount premium initiator params
  | .uniswapV3FlashCallback fee0 fee1 data =>
    V2ArbBot.uniswapV3FlashCallback dep msg fee0 fee1 data
  | .uniswapV2Call sender amount0 amount1 data =>
    V2ArbBot.uniswapV2Call dep msg sender amount0 amount1 data
  | .fallback data => V2ArbBot.fallback dep msg data

end ArbBot.V2ArbBot
