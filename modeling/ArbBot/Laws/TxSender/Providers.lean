import ArbBot.Laws.TxSender.Nonce

/-!
# The choice of a provider

A transaction is sent through the primary provider, or through Aave after the primary's preflight
has failed in a way that allows for it.
-/

namespace ArbBot.TxSender

variable {keys : Keyring} {c : Config} {a : Answers} {nonce : UInt64} {valid : ValidPath}

/-- The preflight of a provider's calldata succeeds. -/
def Passes (keys : Keyring) (c : Config) (a : Answers) (provider : UInt8) : Prop :=
  preflightEthCall keys c (a.preflight provider) = some (.ok ())

/-- The preflight of the primary provider fails, with an error that is not instant and whose first
120 bytes end between two characters if they are logged. -/
def GivesWay (keys : Keyring) (c : Config) (a : Answers) : Prop :=
  ∃ e, preflightEthCall keys c (a.preflight c.flashLoanProvider) = some (.error e) ∧
    isInstantBlacklistError e = false ∧
    ¬ (c.logInfo = true ∧ ¬ (String.Pos.Raw.mk (min e.utf8ByteSize 120)).isValid e)

/-- A transaction is sent through Aave in place of the primary provider. -/
structure FallsBack (keys : Keyring) (c : Config) (a : Answers) : Prop where
  primary : c.flashLoanProvider ≠ 0
  live : c.dryRun = false
  preflight : a.skipPreflight = false
  givesWay : GivesWay keys c a
  passes : Passes keys c a 0

/-- The text of the failure that ends the loop over the providers. -/
def wrapped (e : String) : String :=
  if isInstantBlacklistError e then "preflight eth_call reverted: INSTANT_BLACKLIST " ++ e
  else "preflight eth_call reverted: " ++ e

/-- A provider whose preflight fails ends the loop, or hands over to the next one. -/
theorem tryProviders_failed {provider : UInt8} {rest : List UInt8} {lastErr e : String}
    (hdry : ¬ c.dryRun = true) (hskip : ¬ a.skipPreflight = true)
    (hfailed : preflightEthCall keys c (a.preflight provider) = some (.error e)) :
    tryProviders keys c a valid (provider :: rest) lastErr =
      if isInstantBlacklistError e = true ∨ rest = [] then some (.stop (.error (wrapped e)))
      else if c.logInfo ∧ ¬ (String.Pos.Raw.mk (min e.utf8ByteSize 120)).isValid e then none
      else tryProviders keys c a valid rest e := by
  rw [tryProviders, if_neg hdry, if_neg hskip, hfailed]
  dsimp only
  unfold wrapped
  by_cases hinstant : isInstantBlacklistError e = true
  · rw [if_pos hinstant, if_pos (.inl hinstant), if_pos hinstant]
  · rw [if_neg hinstant, if_neg hinstant]
    by_cases hlast : rest = []
    · rw [if_pos hlast, if_pos (.inr hlast)]
    · rw [if_neg hlast, if_neg (not_or.mpr ⟨hinstant, hlast⟩)]

/-- A provider in the last place. -/
theorem tryProviders_last {provider : UInt8} {calldata : SwapParams} {lastErr : String} :
    tryProviders keys c a valid [provider] lastErr = some (.send calldata) ↔
      calldata = encodeCalldataWithProvider valid provider ∧ c.dryRun = false ∧
        (a.skipPreflight = true ∨ Passes keys c a provider) := by
  unfold tryProviders Passes
  cases hdry : c.dryRun with
  | true => simp
  | false =>
    cases hskip : a.skipPreflight with
    | true => simp [eq_comm]
    | false =>
      rcases hreply : preflightEthCall keys c (a.preflight provider) with _ | e | ⟨⟩
      · simp
      · simp only [Bool.false_eq_true, if_false, if_true]
        split <;> simp
      · simp [eq_comm]

theorem givesWay_iff {e : String}
    (hfailed : preflightEthCall keys c (a.preflight c.flashLoanProvider) = some (.error e)) :
    GivesWay keys c a ↔ isInstantBlacklistError e = false ∧
      ¬ (c.logInfo = true ∧ ¬ (String.Pos.Raw.mk (min e.utf8ByteSize 120)).isValid e) := by
  unfold GivesWay
  rw [hfailed]
  simp only [Option.some.injEq, Except.error.injEq, exists_eq_left']

/-- After a failure of the primary provider Aave is tried, if the failure allows for it. -/
theorem tryProviders_failed_two {calldata : SwapParams} {lastErr e : String}
    (hdry : ¬ c.dryRun = true) (hskip : ¬ a.skipPreflight = true)
    (hfailed : preflightEthCall keys c (a.preflight c.flashLoanProvider) = some (.error e)) :
    tryProviders keys c a valid [c.flashLoanProvider, 0] lastErr = some (.send calldata) ↔
      calldata = encodeCalldataWithProvider valid 0 ∧ GivesWay keys c a ∧ Passes keys c a 0 := by
  rw [tryProviders_failed hdry hskip hfailed, givesWay_iff hfailed]
  by_cases hinstant : isInstantBlacklistError e = true
  · simp [hinstant]
  · rw [if_neg (not_or.mpr ⟨hinstant, List.cons_ne_nil _ _⟩)]
    have hordinary : isInstantBlacklistError e = false := Bool.eq_false_iff.mpr hinstant
    by_cases hcut : c.logInfo = true ∧ ¬ (String.Pos.Raw.mk (min e.utf8ByteSize 120)).isValid e
    · rw [if_pos hcut]
      simp [hcut]
    · rw [if_neg hcut, tryProviders_last]
      constructor
      · rintro ⟨rfl, -, hpasses⟩
        exact ⟨rfl, ⟨hordinary, hcut⟩, hpasses.resolve_left hskip⟩
      · rintro ⟨rfl, -, hpasses⟩
        exact ⟨rfl, Bool.eq_false_iff.mpr hdry, .inr hpasses⟩

/-- A provider with Aave behind it. -/
theorem tryProviders_two {calldata : SwapParams} {lastErr : String}
    (hprimary : c.flashLoanProvider ≠ 0) :
    tryProviders keys c a valid [c.flashLoanProvider, 0] lastErr = some (.send calldata) ↔
      (calldata = encodeCalldataWithProvider valid c.flashLoanProvider ∧ c.dryRun = false ∧
          (a.skipPreflight = true ∨ Passes keys c a c.flashLoanProvider)) ∨
        calldata = encodeCalldataWithProvider valid 0 ∧ FallsBack keys c a := by
  by_cases hdry : c.dryRun = true
  · rw [tryProviders, if_pos hdry]
    refine iff_of_false (fun h => by cases h) ?_
    rintro (⟨-, hlive, -⟩ | ⟨-, hback⟩)
    · exact absurd (hdry.symm.trans hlive) (by decide)
    · exact absurd (hdry.symm.trans hback.live) (by decide)
  have hlive : c.dryRun = false := Bool.eq_false_iff.mpr hdry
  by_cases hskip : a.skipPreflight = true
  · rw [tryProviders, if_neg hdry, if_pos hskip]
    constructor
    · intro h
      cases h
      exact .inl ⟨rfl, hlive, .inl hskip⟩
    · rintro (⟨rfl, -, -⟩ | ⟨-, hback⟩)
      · rfl
      · exact absurd (hskip.symm.trans hback.preflight) (by decide)
  have hnot : a.skipPreflight = false := Bool.eq_false_iff.mpr hskip
  have hfallback : FallsBack keys c a ↔ GivesWay keys c a ∧ Passes keys c a 0 :=
    ⟨fun h => ⟨h.givesWay, h.passes⟩, fun h => ⟨hprimary, hlive, hnot, h.1, h.2⟩⟩
  rw [hfallback]
  cases hreply : preflightEthCall keys c (a.preflight c.flashLoanProvider) with
  | none =>
    rw [tryProviders, if_neg hdry, if_neg hskip, hreply]
    simp [Passes, GivesWay, hreply, hnot]
  | some result =>
    cases result with
    | ok u =>
      rw [tryProviders, if_neg hdry, if_neg hskip, hreply]
      simp only [Passes, GivesWay, hreply, hlive, reduceCtorEq, Option.some.injEq, false_and,
        exists_const, and_false, or_false, or_true, and_true, Choice.send.injEq]
      exact eq_comm
    | error e =>
      have hpass : ¬ Passes keys c a c.flashLoanProvider := by
        unfold Passes
        rw [hreply]
        exact nofun
      rw [tryProviders_failed_two hdry hskip hreply]
      simp [hpass, hnot]

end ArbBot.TxSender
