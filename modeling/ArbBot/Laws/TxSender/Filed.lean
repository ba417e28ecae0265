import ArbBot.Laws.ToxicTokens.File
import ArbBot.Laws.TxSender.Sends
import ArbBot.Laws.TxSender.TokenStrikes
import ArbBot.TxSenderFile

/-!
# The worker with its file

Without its file the worker with a file is the worker. What is said of rounds and runs of the one is
said of the other, and the file changes only in a round that blacklists a token.
-/

namespace ArbBot.TxSender

open Lib ToxicTokens

variable {f : ToxicFile} {keys : Keyring} {c : Config} {instant : Bool} {path : SwapPath}

/-! ## Strikes -/

theorem strikeTokensFiled_worker (tokens : List Address) (s : Filed) :
    (tokens.foldl (strikeTokenFiled f c instant) s).worker =
      tokens.foldl (strikeToken c instant) s.worker := by
  induction tokens generalizing s with
  | nil => rfl
  | cons token tokens ih =>
    rw [List.foldl_cons, List.foldl_cons, ih]
    rfl

theorem recordResultFiled_worker (s : Filed) (valid : ValidPath) (result : Except String String) :
    (recordResultFiled f c s valid result).worker = recordResult c s.worker valid result := by
  cases result with
  | ok hash => rfl
  | error e =>
    unfold recordResultFiled recordResult
    dsimp only
    by_cases hrevert : Mentions e "preflight eth_call reverted"
    · rw [if_pos hrevert, if_pos hrevert]
      by_cases hmarginal : Mentions e "repay insufficient" ∨
          Mentions e "726570617920696e73756666696369656e74"
      · rw [if_pos hmarginal, if_pos hmarginal]
      · rw [if_neg hmarginal, if_neg hmarginal]
        exact strikeTokensFiled_worker _ _
    · rw [if_neg hrevert, if_neg hrevert]

theorem recordResultFiled_of_not_counted {s : Filed} {valid : ValidPath}
    {result : Except String String} (h : ¬ Counted result) :
    recordResultFiled f c s valid result = s := by
  cases result with
  | ok hash => rfl
  | error e =>
    unfold recordResultFiled
    dsimp only
    by_cases hrevert : Mentions e "preflight eth_call reverted"
    · have hmarginal : Mentions e "repay insufficient" ∨
          Mentions e "726570617920696e73756666696369656e74" :=
        not_not.mp fun hmarginal => h ⟨hrevert, hmarginal⟩
      rw [if_pos hrevert, if_pos hmarginal]
    · rw [if_neg hrevert]

theorem recordResultFiled_of_counted {s : Filed} {valid : ValidPath} {e : String}
    (h : Counted (.error e)) :
    recordResultFiled f c s valid (.error e) =
      strikePathFiled f c (decide (Mentions e "INSTANT_BLACKLIST")) s valid.arb.path := by
  obtain ⟨hrevert, hmarginal⟩ := h
  unfold MarginalText at hmarginal
  unfold recordResultFiled
  dsimp only
  rw [if_pos hrevert, if_neg hmarginal]

/-! ## Rounds -/

/-- **The worker with a file refines the worker.** -/
theorem StepFiled.step {s s' : FiledState} {i : ValidPath × Answers} (h : StepFiled f keys c s i s') :
    Step keys c s.state i s'.state := by
  unfold StepFiled roundFiled at h
  unfold Step round
  by_cases hprofit : i.1.netProfit < c.minSubmitProfitWei
  · rw [if_pos hprofit] at h ⊢
    cases h
    rfl
  rw [if_neg hprofit] at h ⊢
  dsimp only at h ⊢
  by_cases hstale : isStale c (refreshHead s.state.worker i.2) i.1
  · rw [if_pos hstale] at h ⊢
    cases h
    rfl
  rw [if_neg hstale] at h ⊢
  obtain ⟨sent, hsent, rfl⟩ := Option.map_eq_some_iff.mp h
  rw [hsent, Option.map_some]
  dsimp only
  rw [recordResultFiled_worker]

theorem run_of_filed {s s' : FiledState} {is : List (ValidPath × Answers)}
    (h : Run (StepFiled f keys c) s is s') : Run (Step keys c) s.state is s'.state := by
  induction h with
  | nil s => exact .nil s.state
  | cons hstep _ ih => exact .cons hstep.step ih

/-- A round with a send records the result, up to the nonce and the head it has read. -/
theorem stepFiled_of_sendOf {s s' : FiledState} {i : ValidPath × Answers} {send : Send}
    (h : StepFiled f keys c s i s') (hsend : sendOf keys c s.state i = some send) :
    ∃ nonce head, (⟨s'.state.worker, s'.file⟩ : Filed) =
      recordResultFiled f c ⟨s.state.worker.setNonceHead nonce head, s.file⟩ i.1 send.result := by
  obtain ⟨head, hhead⟩ := exists_refreshHead s.state.worker i.2
  unfold StepFiled roundFiled at h
  unfold sendOf at hsend
  by_cases hprofit : i.1.netProfit < c.minSubmitProfitWei
  · rw [if_pos hprofit] at hsend
    cases hsend
  rw [if_neg hprofit] at h hsend
  dsimp only at h hsend
  by_cases hstale : isStale c (refreshHead s.state.worker i.2) i.1
  · rw [if_pos hstale] at hsend
    cases hsend
  rw [if_neg hstale] at h hsend
  obtain ⟨sent, hsent, rfl⟩ := Option.map_eq_some_iff.mp h
  rw [hsent] at hsend
  obtain rfl := Option.some.inj hsend
  refine ⟨sent.nonce, head, ?_⟩
  dsimp only
  rw [hhead]
  rfl

/-! ### Sample -/

/-- The file the samples keep, with a library that reads back what it prints. -/
def sampleToxicFile : ToxicFile := ⟨smallToml, "cache/.toxic-tokens.toml"⟩

end ArbBot.TxSender
