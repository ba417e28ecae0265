import ArbBot.Lib.Text
import ArbBot.Simulator
import ArbBot.TxSender
import Mathlib.Data.Finset.Dedup

/-!
# Configuration and startup

How the flash-loan section of the configuration is resolved to a provider and a fee (`main.rs`), and
how `start_pipeline` hands these to the simulator and to the transaction sender (`ignition.rs`). The
amounts that are configured as floating-point numbers are given here in wei. Of the pipeline's
configuration only what these two workers read is kept; the fee cache is written and never read.
-/

namespace ArbBot.Ignition

/-- The flash-loan fields of `ExecutionConfig`. -/
structure ExecutionConfig where
  useFlashloan : Bool
  defaultFlashloanProvider : String
  dynamicFlashloanRouting : Bool
  flashloanProviders : List String
  flashLoanFeeAaveBps : UInt64
  flashLoanFeeUniswapV3Bps : UInt64
  flashLoanFeePancakeswapV3Bps : UInt64

/-! ## Texts -/

/-- `str::to_ascii_lowercase`. -/
def toAsciiLowercase (s : String) : String := String.ofList (s.toList.map Char.toLower)

/-! ## Routing -/

/-- `canonical_provider_name`. -/
def canonicalProviderName (name : String) : String :=
  match toAsciiLowercase (String.ofList (Lib.Text.trim name.toList)) with
  | "aave" | "aavev3" => "AaveV3"
  | "uniswap" | "uniswapv3" | "univ3" => "UniswapV3"
  | "pancake" | "pancakeswap" | "pancakeswapv3" | "pcsv3" => "PancakeSwapV3"
  | other => other

/-- `fee_map`. -/
def feeMap (e : ExecutionConfig) : String → Option UInt64
  | "AaveV3" => some e.flashLoanFeeAaveBps
  | "UniswapV3" => some e.flashLoanFeeUniswapV3Bps
  | "PancakeSwapV3" => some e.flashLoanFeePancakeswapV3Bps
  | _ => none

/-- `min_by_key` on the fees: the first of the cheapest. -/
def cheapest : List (String × UInt64) → Option (String × UInt64)
  | [] => none
  | first :: rest =>
    some (rest.foldl (fun best candidate => if candidate.2 < best.2 then candidate else best) first)

/-- `resolve_flashloan_provider`. -/
def resolveFlashloanProvider (selectedProviders : List String)
    (providerFeesBps : String → Option UInt64) (defaultProvider : String) (dynamic : Bool) :
    Option (String × UInt64) := do
  let withFee (name : String) : Option (String × UInt64) :=
    (providerFeesBps name).map fun fee => (name, fee)
  let listed := selectedProviders.filterMap fun name => withFee (canonicalProviderName name)
  let fallback := canonicalProviderName defaultProvider
  let candidates ← if listed = [] then (withFee fallback).map fun chosen => [chosen] else some listed
  if dynamic then cheapest candidates else (withFee fallback <|> candidates.head?)

/-- The provider's name and the fee `main` puts in the pipeline's configuration. -/
def flashLoanRouting (e : ExecutionConfig) : String × UInt64 :=
  if e.useFlashloan then
    let selectedProviders :=
      if e.flashloanProviders = [] then [e.defaultFlashloanProvider] else e.flashloanProviders
    (resolveFlashloanProvider selectedProviders (feeMap e) e.defaultFlashloanProvider
      e.dynamicFlashloanRouting).getD ("AaveV3", e.flashLoanFeeAaveBps)
  else ("none", 0)

/-! ## The pipeline -/

/-- The fields of `PipelineConfig` that the simulator and the transaction sender are given. -/
structure PipelineConfig where
  botAddress : Address
  signerKey : String
  chainId : UInt64
  dryRun : Bool
  useFlashloan : Bool
  flashLoanFeeBps : UInt64
  flashLoanProvider : String
  nativeToken : Address
  tokenPricePools : List (Address × Address)
  maxGasLimit : UInt64
  profitShareBps : UInt64
  minSubmitProfitWei : UInt64
  minSimProfitWei : UInt64
  optimizationSteps : Nat
  minInputWei : BitVec 128
  maxInputWei : BitVec 128
  maxStaleBlocks : UInt64
  strikeThreshold : UInt32

/-- The configuration with the flash-loan routing of `main`. -/
def PipelineConfig.routed (p : PipelineConfig) (e : ExecutionConfig) : PipelineConfig :=
  { p with
    useFlashloan := e.useFlashloan
    flashLoanProvider := (flashLoanRouting e).1
    flashLoanFeeBps := (flashLoanRouting e).2 }

/-- `SimulatorConfig` as `start_pipeline` fills it. -/
def simulatorConfig (p : PipelineConfig) : Simulator.Config where
  minProfitWei := BitVec.ofNat 256 p.minSimProfitWei.toNat
  optimizationSteps := p.optimizationSteps
  minInput := p.minInputWei.setWidth 256
  maxInput := p.maxInputWei.setWidth 256
  flashLoanFeeBps := if p.useFlashloan then p.flashLoanFeeBps else 0

/-- The byte the contract selects a provider by; 255 stands for no loan. -/
def flashLoanProviderByte (name : String) : UInt8 :=
  match toAsciiLowercase name with
  | "aave" | "aavev3" => 0
  | "uniswap" | "uniswapv3" | "univ3" => 1
  | "pancake" | "pancakeswap" | "pancakeswapv3" | "pcsv3" => 2
  | _ => 255

/-- `TxSenderConfig` as `start_pipeline` fills it, with the start tokens beside it. -/
def txSenderConfig (p : PipelineConfig) (logInfo : Bool) : TxSender.Config where
  botAddress := p.botAddress
  signerKey := p.signerKey
  chainId := p.chainId
  maxGasLimit := p.maxGasLimit
  profitShareBps := p.profitShareBps
  minSubmitProfitWei := BitVec.ofNat 256 p.minSubmitProfitWei.toNat
  maxStaleBlocks := p.maxStaleBlocks
  strikeThreshold := p.strikeThreshold
  dryRun := p.dryRun
  flashLoanProvider := flashLoanProviderByte p.flashLoanProvider
  startTokens := insert p.nativeToken (p.tokenPricePools.map (·.1)).toFinset
  logInfo := logInfo

end ArbBot.Ignition
