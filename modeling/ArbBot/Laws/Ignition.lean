import ArbBot.Ignition
import ArbBot.Laws.TxSender.Providers

/-!
# The fee of the submitted loan

The simulator deducts the fee of the provider that the configuration is resolved to, and that is
the provider whose calldata is tried first. But the sender may fall back on Aave, whatever was
deducted. So a submitted loan costs no more than was accounted for exactly when Aave's fee is
covered too, or the fallback is not submitted.
-/

namespace ArbBot.Ignition

open TxSender

variable {e : ExecutionConfig} {name : String} {fee : UInt64}

/-- The configured fee of the provider a byte selects. Without a loan there is none. -/
def configuredFee (e : ExecutionConfig) : UInt8 → UInt64
  | 0 => e.flashLoanFeeAaveBps
  | 1 => e.flashLoanFeeUniswapV3Bps
  | 2 => e.flashLoanFeePancakeswapV3Bps
  | _ => 0

/-! ## The resolved provider -/

theorem cheapest_mem {candidates : List (String × UInt64)} {chosen : String × UInt64}
    (h : cheapest candidates = some chosen) : chosen ∈ candidates := by
  cases candidates with
  | nil => cases h
  | cons first rest =>
    obtain rfl := Option.some.inj h
    induction rest generalizing first with
    | nil => exact List.mem_cons_self
    | cons next rest ih =>
      rw [List.foldl_cons]
      split
      · exact List.mem_cons_of_mem _ (ih next rfl)
      · rcases List.mem_cons.mp (ih first rfl) with heq | hmem
        · rw [heq]
          exact List.mem_cons_self
        · exact List.mem_cons_of_mem _ (List.mem_cons_of_mem _ hmem)

/-- The provider comes with its fee. -/
theorem fee_of_resolve {selected : List String} {fees : String → Option UInt64} {default : String}
    {dynamic : Bool}
    (h : resolveFlashloanProvider selected fees default dynamic = some (name, fee)) :
    fees name = some fee := by
  have hwithFee {requested : String} {chosen : String × UInt64}
      (hchosen : (fees requested).map (fun fee => (requested, fee)) = some chosen) :
      fees chosen.1 = some chosen.2 := by
    obtain ⟨found, hfound, rfl⟩ := Option.map_eq_some_iff.mp hchosen
    exact hfound
  have hpick {candidates : List (String × UInt64)}
      (hall : ∀ chosen ∈ candidates, fees chosen.1 = some chosen.2)
      (hpicked : (if dynamic then cheapest candidates
        else ((fees (canonicalProviderName default)).map (fun fee =>
          (canonicalProviderName default, fee)) <|> candidates.head?)) = some (name, fee)) :
      fees name = some fee := by
    split at hpicked
    · exact hall _ (cheapest_mem hpicked)
    · cases hfallback : (fees (canonicalProviderName default)).map (fun fee =>
          (canonicalProviderName default, fee)) with
      | some chosen =>
        rw [hfallback] at hpicked
        cases hpicked
        exact hwithFee hfallback
      | none =>
        rw [hfallback] at hpicked
        exact hall _ (List.mem_of_mem_head? hpicked)
  simp only [resolveFlashloanProvider, Option.bind_eq_bind] at h
  split at h
  · obtain ⟨candidates, hcandidates, h⟩ := Option.bind_eq_some_iff.mp h
    refine hpick (fun chosen hmem => ?_) h
    obtain ⟨found, hfound, rfl⟩ := Option.map_eq_some_iff.mp hcandidates
    obtain rfl := List.mem_singleton.mp hmem
    exact hwithFee hfound
  · obtain ⟨candidates, hcandidates, h⟩ := Option.bind_eq_some_iff.mp h
    refine hpick (fun chosen hmem => ?_) h
    obtain rfl := Option.some.inj hcandidates
    obtain ⟨requested, -, hrequested⟩ := List.mem_filterMap.mp hmem
    exact hwithFee hrequested

theorem configuredFee_of_feeMap (h : feeMap e name = some fee) :
    configuredFee e (flashLoanProviderByte name) = fee := by
  have haave : flashLoanProviderByte "AaveV3" = 0 := by decide
  have huniswap : flashLoanProviderByte "UniswapV3" = 1 := by decide
  have hpancake : flashLoanProviderByte "PancakeSwapV3" = 2 := by decide
  unfold feeMap at h
  split at h
  · rw [haave]
    exact Option.some.inj h
  · rw [huniswap]
    exact Option.some.inj h
  · rw [hpancake]
    exact Option.some.inj h
  · cases h

/-- The fee deducted is the one configured for the primary provider. -/
theorem configuredFee_primary (e : ExecutionConfig) :
    configuredFee e (flashLoanProviderByte (flashLoanRouting e).1) = (flashLoanRouting e).2 := by
  unfold flashLoanRouting
  split
  · dsimp only
    cases hresolve : resolveFlashloanProvider
      (if e.flashloanProviders = [] then [e.defaultFlashloanProvider] else e.flashloanProviders)
      (feeMap e) e.defaultFlashloanProvider e.dynamicFlashloanRouting with
    | none =>
      have haave : feeMap e "AaveV3" = some e.flashLoanFeeAaveBps := rfl
      exact configuredFee_of_feeMap haave
    | some chosen => exact configuredFee_of_feeMap (fee_of_resolve hresolve)
  · have hnone : flashLoanProviderByte "none" = 255 := by decide
    rw [hnone]
    rfl

/-! ## The submitted provider -/

section Submitted

variable {keys : Keyring} {c : Config} {a : Answers} {nonce : UInt64} {valid : ValidPath}

/-- The transaction is signed and handed to the sequencer. -/
def Submits (keys : Keyring) (c : Config) (a : Answers) (nonce : UInt64) (valid : ValidPath)
    (tx : TransactionRequest) : Prop :=
  toSign keys c a nonce valid = some tx ∧ ∃ encoded, a.signing tx = .ok encoded

/-- The transaction that carries some calldata, if it can be built. -/
def builds (keys : Keyring) (c : Config) (a : Answers) (nonce : UInt64) (valid : ValidPath)
    (calldata : TxSender.SwapParams) (tx : TransactionRequest) : Prop :=
  ∃ maxFeePerGas priorityFee signer, fees c a.gasStation valid = some (maxFeePerGas, priorityFee) ∧
    importKey keys c = some (.ok signer) ∧
    tx = transactionRequest c nonce calldata maxFeePerGas priorityFee

theorem toSign_eq_some {tx : TransactionRequest} :
    toSign keys c a nonce valid = some tx ↔
      ∃ calldata, tryProviders keys c a valid (providers c) "" = some (.send calldata) ∧
        builds keys c a nonce valid calldata tx := by
  unfold toSign builds
  constructor
  · intro h
    obtain ⟨⟨maxFeePerGas, priorityFee⟩, hfees, h⟩ := Option.bind_eq_some_iff.mp h
    obtain ⟨choice, hchoice, h⟩ := Option.bind_eq_some_iff.mp h
    cases choice with
    | stop result => cases h
    | send calldata =>
      obtain ⟨key, hkey, h⟩ := Option.bind_eq_some_iff.mp h
      cases key with
      | error text => cases h
      | ok signer =>
        exact ⟨calldata, hchoice, maxFeePerGas, priorityFee, signer, hfees, hkey,
          (Option.some.inj h).symm⟩
  · rintro ⟨calldata, hchoice, maxFeePerGas, priorityFee, signer, hfees, hkey, rfl⟩
    refine Option.bind_eq_some_iff.mpr ⟨_, hfees, ?_⟩
    refine Option.bind_eq_some_iff.mpr ⟨_, hchoice, ?_⟩
    exact Option.bind_eq_some_iff.mpr ⟨_, hkey, rfl⟩

/-- The fallback to Aave is submitted. -/
def SubmitsFallback (keys : Keyring) (c : Config) (a : Answers) (nonce : UInt64)
    (valid : ValidPath) : Prop :=
  FallsBack keys c a ∧ ∃ tx encoded,
    builds keys c a nonce valid (encodeCalldataWithProvider valid 0) tx ∧
      a.signing tx = .ok encoded

/-- What is submitted goes through the primary provider or is the fallback. -/
theorem Submits.provider {tx : TransactionRequest} (h : Submits keys c a nonce valid tx) :
    tx.input.flashLoanProvider = c.flashLoanProvider ∨
      tx.input.flashLoanProvider = 0 ∧ SubmitsFallback keys c a nonce valid := by
  obtain ⟨hsign, encoded, hencoded⟩ := h
  obtain ⟨calldata, hchoice, hbuilds⟩ := toSign_eq_some.mp hsign
  have hinput : tx.input = calldata := by
    obtain ⟨_, _, _, -, -, rfl⟩ := hbuilds
    rfl
  unfold providers at hchoice
  split at hchoice
  · rename_i hprimary
    rcases (tryProviders_two hprimary).mp hchoice with ⟨rfl, -⟩ | ⟨rfl, hback⟩
    · exact .inl (by rw [hinput]; rfl)
    · exact .inr ⟨by rw [hinput]; rfl, hback, tx, encoded, hbuilds, hencoded⟩
  · rename_i hprimary
    obtain ⟨rfl, -⟩ := tryProviders_last.mp hchoice
    refine .inl ?_
    rw [hinput, not_not.mp hprimary]
    rfl

theorem SubmitsFallback.submits (h : SubmitsFallback keys c a nonce valid) :
    ∃ tx, Submits keys c a nonce valid tx ∧ tx.input.flashLoanProvider = 0 := by
  obtain ⟨hback, tx, encoded, hbuilds, hencoded⟩ := h
  have hchoice : tryProviders keys c a valid (providers c) "" =
      some (.send (encodeCalldataWithProvider valid 0)) := by
    unfold providers
    rw [if_pos hback.primary]
    exact (tryProviders_two hback.primary).mpr (.inr ⟨rfl, hback⟩)
  refine ⟨tx, ⟨toSign_eq_some.mpr ⟨_, hchoice, hbuilds⟩, encoded, hencoded⟩, ?_⟩
  obtain ⟨_, _, _, -, -, rfl⟩ := hbuilds
  rfl

/-- **What is submitted costs no more than the simulator deducted if and only if Aave's fee is
covered or the fallback to Aave is not submitted.** -/
theorem submitted_fee_covered_iff (e : ExecutionConfig) (p : PipelineConfig) (logInfo : Bool)
    (keys : Keyring) (a : Answers) (nonce : UInt64) (valid : ValidPath) :
    let c := txSenderConfig (p.routed e) logInfo
    let deducted := (simulatorConfig (p.routed e)).flashLoanFeeBps
    (∀ tx, Submits keys c a nonce valid tx →
        configuredFee e tx.input.flashLoanProvider ≤ deducted) ↔
      e.flashLoanFeeAaveBps ≤ deducted ∨ ¬ SubmitsFallback keys c a nonce valid := by
  intro c deducted
  have hprimary : configuredFee e c.flashLoanProvider ≤ deducted := by
    have hdeducted : deducted = (flashLoanRouting e).2 := by
      have hunfold : deducted = if e.useFlashloan then (flashLoanRouting e).2 else 0 := rfl
      rw [hunfold]
      split
      · rfl
      · rename_i hoff
        unfold flashLoanRouting
        rw [if_neg hoff]
    have hfee : configuredFee e c.flashLoanProvider = (flashLoanRouting e).2 :=
      configuredFee_primary e
    rw [hfee, hdeducted]
    exact UInt64.le_refl _
  constructor
  · intro h
    rw [or_iff_not_imp_right, not_not]
    intro hback
    obtain ⟨tx, hsubmits, hprovider⟩ := hback.submits
    have hle := h tx hsubmits
    rw [hprovider] at hle
    exact hle
  · intro h tx hsubmits
    rcases hsubmits.provider with hprovider | ⟨hprovider, hback⟩
    · rw [hprovider]
      exact hprimary
    · rw [hprovider]
      exact h.resolve_right (not_not_intro hback)

end Submitted

/-! ### A fallback with the default configuration -/

/-- The defaults: the cheapest of the three providers, Aave at 5 basis points. -/
def defaultExecution : ExecutionConfig where
  useFlashloan := true
  defaultFlashloanProvider := "AaveV3"
  dynamicFlashloanRouting := true
  flashloanProviders := ["AaveV3", "UniswapV3", "PancakeSwapV3"]
  flashLoanFeeAaveBps := 5
  flashLoanFeeUniswapV3Bps := 0
  flashLoanFeePancakeswapV3Bps := 0

def samplePipeline : PipelineConfig where
  botAddress := 2
  signerKey := "01"
  chainId := 8453
  dryRun := false
  useFlashloan := false
  flashLoanFeeBps := 0
  flashLoanProvider := "AaveV3"
  nativeToken := 1
  tokenPricePools := []
  maxGasLimit := 1000000
  profitShareBps := 5000
  minSubmitProfitWei := 0
  minSimProfitWei := 0
  optimizationSteps := 20
  minInputWei := 1
  maxInputWei := 1000
  maxStaleBlocks := 3
  strikeThreshold := 3

/-- The preflight through Uniswap reverts, the one through Aave passes. -/
def fallingBack : Answers :=
  { landed with
    skipPreflight := false
    preflight := fun provider =>
      if provider = 0 then .answer ⟨none, some "0x", ""⟩ else .answer ⟨some "boom", none, ""⟩ }

/-- Aave's loan of 5 basis points is submitted, and nothing was deducted. -/
theorem fallback_not_covered :
    ∃ tx, Submits sampleKeys (txSenderConfig (samplePipeline.routed defaultExecution) true)
        fallingBack 7 samplePath tx ∧ tx.input.flashLoanProvider = 0 ∧
      configuredFee defaultExecution 0 = 5 ∧
      (simulatorConfig (samplePipeline.routed defaultExecution)).flashLoanFeeBps = 0 := by
  refine ⟨_, ⟨rfl, _, rfl⟩, rfl, rfl, ?_⟩
  decide

end ArbBot.Ignition
