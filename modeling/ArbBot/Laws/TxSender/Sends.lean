import ArbBot.Lib.Runs
import ArbBot.TxSender
import Mathlib.Data.List.Count

/-!
# The history of sends

What the strike accounting of the worker sees of a run: one entry for each path that is handed to
`build_and_send`, with its result. A round changes the strike counts and the blacklists as
`recordResult` says for its entry, and leaves them alone when it sends nothing. Nothing is said
here of the nonce.
-/

namespace ArbBot.TxSender

open Lib

variable {keys : Keyring} {c : Config}

/-- A path handed to `build_and_send`, with the result. -/
structure Send where
  path : SwapPath
  result : Except String String

/-- The send of a round: none when the profit is below the threshold or the path is too old. -/
def sendOf (keys : Keyring) (c : Config) (s : State) (i : ValidPath × Answers) : Option Send :=
  if i.1.netProfit < c.minSubmitProfitWei then none
  else
    let w := refreshHead s.worker i.2
    if isStale c w i.1 then none
    else (buildAndSend keys c i.2 w.nonce i.1).map fun sent => ⟨i.1.arb.path, sent.result⟩

/-- The sends of the rounds that start in a state, in order. -/
def sends (keys : Keyring) (c : Config) : State → List (ValidPath × Answers) → List Send
  | _, [] => []
  | s, i :: is =>
    match round keys c s i.1 i.2 with
    | none => []
    | some s' => (sendOf keys c s i).toList ++ sends keys c s' is

theorem sends_cons {s s' : State} {i : ValidPath × Answers} {is : List (ValidPath × Answers)}
    (h : Step keys c s i s') :
    sends keys c s (i :: is) = (sendOf keys c s i).toList ++ sends keys c s' is := by
  unfold Step at h
  rw [sends, h]

theorem sends_append {s s' : State} {is js : List (ValidPath × Answers)}
    (hrun : Run (Step keys c) s is s') :
    sends keys c s (is ++ js) = sends keys c s is ++ sends keys c s' js := by
  induction hrun with
  | nil s => rfl
  | cons hstep _ ih => rw [List.cons_append, sends_cons hstep, sends_cons hstep, ih,
      List.append_assoc]

/-! ## The classes of results -/

/-- A marginal arb: the swaps succeed, their output does not repay the loan. -/
def MarginalText (e : String) : Prop :=
  Mentions e "repay insufficient" ∨ Mentions e "726570617920696e73756666696369656e74"

instance (e : String) : Decidable (MarginalText e) := inferInstanceAs (Decidable (_ ∨ _))

/-- A preflight revert that is not put down to a marginal arb. -/
def Counted : Except String String → Prop
  | .ok _ => False
  | .error e => Mentions e "preflight eth_call reverted" ∧ ¬ MarginalText e

/-- A preflight revert with the tag for instant blacklisting. -/
def Instant : Except String String → Prop
  | .ok _ => False
  | .error e => Mentions e "preflight eth_call reverted" ∧ Mentions e "INSTANT_BLACKLIST"

instance : DecidablePred Counted
  | .ok _ => inferInstanceAs (Decidable False)
  | .error _ => inferInstanceAs (Decidable (_ ∧ _))

instance : DecidablePred Instant
  | .ok _ => inferInstanceAs (Decidable False)
  | .error _ => inferInstanceAs (Decidable (_ ∧ _))

theorem recordResult_of_counted {w : Worker} {valid : ValidPath} {result : Except String String}
    (h : Counted result) :
    recordResult c w valid result = strikePath c (decide (Instant result)) w valid.arb.path := by
  cases result with
  | ok hash => cases h
  | error e =>
    obtain ⟨hrevert, hmarginal⟩ := h
    have hinstant : Mentions e "INSTANT_BLACKLIST" ↔ Instant (.error e) :=
      ⟨fun hi => ⟨hrevert, hi⟩, fun hi => hi.2⟩
    unfold MarginalText at hmarginal
    simp only [recordResult, if_pos hrevert, if_neg hmarginal, hinstant]

theorem recordResult_of_not_counted {w : Worker} {valid : ValidPath}
    {result : Except String String} (h : ¬ Counted result) :
    recordResult c w valid result = w := by
  cases result with
  | ok hash => rfl
  | error e =>
    simp only [recordResult]
    split
    · rename_i hrevert
      rw [if_pos]
      by_contra hmarginal
      exact h ⟨hrevert, hmarginal⟩
    · rfl

/-! ## What a round does -/

/-- The worker apart from its nonce and its view of the chain head. -/
def Worker.setNonceHead (w : Worker) (nonce head : UInt64) : Worker :=
  { w with nonce := nonce, cachedHead := head }

theorem exists_refreshHead (w : Worker) (a : Answers) :
    ∃ head, refreshHead w a = w.setNonceHead w.nonce head := by
  unfold refreshHead
  split
  · exact ⟨_, rfl⟩
  · exact ⟨w.cachedHead, rfl⟩

/-- A round records the result of its send, up to the nonce and the head it has read. -/
theorem step_sendOf {s s' : State} {i : ValidPath × Answers} (h : Step keys c s i s') :
    ∃ nonce head,
      (sendOf keys c s i = none ∧ s'.worker = s.worker.setNonceHead nonce head) ∨
        ∃ send, sendOf keys c s i = some send ∧ send.path = i.1.arb.path ∧
          s'.worker = recordResult c (s.worker.setNonceHead nonce head) i.1 send.result := by
  obtain ⟨head, hhead⟩ := exists_refreshHead s.worker i.2
  unfold Step round at h
  unfold sendOf
  split at h
  · rename_i hprofit
    cases h
    exact ⟨s.worker.nonce, s.worker.cachedHead, .inl ⟨if_pos hprofit, rfl⟩⟩
  · rename_i hprofit
    rw [if_neg hprofit]
    dsimp only at h ⊢
    split at h
    · rename_i hstale
      cases h
      exact ⟨_, head, .inl ⟨if_pos hstale, hhead⟩⟩
    · rename_i hstale
      obtain ⟨sent, hsent, rfl⟩ := Option.map_eq_some_iff.mp h
      refine ⟨sent.nonce, head, .inr ⟨⟨i.1.arb.path, sent.result⟩, ?_, rfl, ?_⟩⟩
      · rw [if_neg hstale, hsent]
        rfl
      · dsimp only
        rw [hhead]
        rfl

end ArbBot.TxSender
