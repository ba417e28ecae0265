import ArbBot.Laws.TxSender.Filed
import ArbBot.Laws.TxSender.PathStrikes
import ArbBot.Laws.TxSender.Providers

/-!
# Preflights that fail unexecuted

A preflight can fail without a revert: the key does not sign, the request fails, the answer is not
JSON or has no result. The loop over the providers puts the words of a revert before the text of any
failure, so the worker strikes the path and its tokens for these as it does for a revert. It is spared
only where the text happens to speak of the repayment, or where an instant failure finds everything
at the threshold and blacklisted already.
-/

namespace ArbBot.TxSender

open Lib ToxicTokens

variable {f : ToxicFile} {keys : Keyring} {c : Config} {a : Answers} {w : Worker} {path : SwapPath}
  {reply : Reply} {e text label word : String}

/-! ## Failures without a revert -/

/-- The words of a failure without a revert, as they come from the key library, the request or the
node: the key cannot be read or does not sign, the request fails, the answer is not JSON, or it has
neither an error nor a result. -/
def unexecutedText (keys : Keyring) (c : Config) (reply : Reply) : Option String :=
  match keys.hexDecode c.signerKey with
  | .error e => some e
  | .ok bytes =>
    match keys.secretKey bytes with
    | none => none
    | some (.error e) => some e
    | some (.ok _) =>
      match reply with
      | .requestFailed e => some e
      | .notJson e => some e
      | .answer a => if a.error = none ∧ a.result = none then some a.text else none

/-- What `preflight_eth_call` puts before these words. -/
def unexecutedLabels : List String :=
  ["preflight: bad key hex: ", "preflight: bad key: ", "preflight eth_call request failed: ",
    "preflight eth_call JSON parse failed: ", "preflight eth_call: unexpected response: "]

/-- The answer has an error, or a revert reason for its result. -/
def IsRevert (reply : Reply) : Prop :=
  ∃ answer, reply = .answer answer ∧ (answer.error.isSome ∨
    ∃ result, answer.result = some result ∧ "0x08c379a2".toList <+: result.toList)

/-- What a preflight can do: it fails unexecuted, behind one of the labels, or it fails by a revert
only. -/
theorem preflightEthCall_cases (keys : Keyring) (c : Config) (reply : Reply) :
    (∃ label ∈ unexecutedLabels, ∃ text, unexecutedText keys c reply = some text ∧
        preflightEthCall keys c reply = some (.error (label ++ text))) ∨
      unexecutedText keys c reply = none ∧
        ∀ e, preflightEthCall keys c reply = some (.error e) → IsRevert reply := by
  unfold unexecutedText preflightEthCall
  cases keys.hexDecode c.signerKey with
  | error e => exact .inl ⟨"preflight: bad key hex: ", by simp [unexecutedLabels], e, rfl, rfl⟩
  | ok bytes =>
    dsimp only
    rcases keys.secretKey bytes with _ | e | signer
    · exact .inr ⟨rfl, nofun⟩
    · exact .inl ⟨"preflight: bad key: ", by simp [unexecutedLabels], e, rfl, rfl⟩
    cases reply with
    | requestFailed e =>
      exact .inl ⟨"preflight eth_call request failed: ", by simp [unexecutedLabels], e, rfl, rfl⟩
    | notJson e =>
      exact .inl ⟨"preflight eth_call JSON parse failed: ", by simp [unexecutedLabels], e, rfl, rfl⟩
    | answer answer =>
      dsimp only
      cases herror : answer.error with
      | some err => exact .inr ⟨rfl, fun _ _ => ⟨answer, rfl, .inl (by rw [herror]; rfl)⟩⟩
      | none =>
        cases hresult : answer.result with
        | none =>
          exact .inl ⟨"preflight eth_call: unexpected response: ", by simp [unexecutedLabels],
            answer.text, rfl, rfl⟩
        | some result =>
          refine .inr ⟨rfl, fun e hfailed => ⟨answer, rfl, .inr ⟨result, hresult, ?_⟩⟩⟩
          dsimp only at hfailed
          split at hfailed
          · assumption
          · cases hfailed

theorem preflightEthCall_of_unexecuted (h : unexecutedText keys c reply = some text) :
    ∃ label ∈ unexecutedLabels, preflightEthCall keys c reply = some (.error (label ++ text)) := by
  rcases preflightEthCall_cases keys c reply with ⟨label, hlabel, text', htext, hfailed⟩ | ⟨hnone, -⟩
  · obtain rfl : text = text' := Option.some.inj (h.symm.trans htext)
    exact ⟨label, hlabel, hfailed⟩
  · rw [h] at hnone
    cases hnone

/-! ## Texts -/

/-- The failure is taken for an instant one. -/
def Tagged (text : String) : Prop :=
  isInstantBlacklistError text = true ∨ Mentions text "INSTANT_BLACKLIST"

instance (text : String) : Decidable (Tagged text) := inferInstanceAs (Decidable (_ ∨ _))

/-- The texts that failures are classified by. -/
def classifiers : List String :=
  ["repay insufficient", "726570617920696e73756666696369656e74", "\"data\":\"0x\"", "5446", "repay",
    "INSTANT_BLACKLIST"]

theorem mentions_append (h : Text.Apart label.toList word.toList) (text : String) :
    Mentions (label ++ text) word ↔ Mentions text word := by
  unfold Mentions
  rw [String.toList_append]
  exact Text.infix_append_of_apart h text.toList

theorem label_apart : ∀ label ∈ unexecutedLabels, ∀ word ∈ classifiers,
    Text.Apart label.toList word.toList := by
  decide +kernel

theorem reverted_apart : ∀ word ∈ classifiers,
    Text.Apart "preflight eth_call reverted: ".toList word.toList := by
  decide +kernel

theorem instant_apart : ∀ word ∈ classifiers, word ≠ "INSTANT_BLACKLIST" →
    Text.Apart "preflight eth_call reverted: INSTANT_BLACKLIST ".toList word.toList := by
  decide +kernel

theorem mentions_wrapped_reverted (e : String) :
    Mentions (wrapped e) "preflight eth_call reverted" := by
  unfold wrapped Mentions
  split
  · rw [String.toList_append]
    exact List.IsInfix.trans (by decide) (List.prefix_append _ _).isInfix
  · rw [String.toList_append]
    exact List.IsInfix.trans (by decide) (List.prefix_append _ _).isInfix

theorem mentions_wrapped (hword : word ∈ classifiers) (hinstant : word ≠ "INSTANT_BLACKLIST") :
    Mentions (wrapped e) word ↔ Mentions e word := by
  unfold wrapped
  split
  · exact mentions_append (instant_apart word hword hinstant) e
  · exact mentions_append (reverted_apart word hword) e

theorem mentions_wrapped_instant : Mentions (wrapped e) "INSTANT_BLACKLIST" ↔ Tagged e := by
  unfold wrapped Tagged
  split
  · rename_i hinstant
    refine iff_of_true ?_ (.inl hinstant)
    unfold Mentions
    rw [String.toList_append]
    exact List.IsInfix.trans (by decide) (List.prefix_append _ _).isInfix
  · rename_i hinstant
    rw [or_iff_right hinstant]
    exact mentions_append (reverted_apart _ (by decide)) e

section Label

variable (hlabel : label ∈ unexecutedLabels)
include hlabel

theorem marginalText_label : MarginalText (wrapped (label ++ text)) ↔ MarginalText text := by
  have hwords : ∀ word ∈ classifiers, word ≠ "INSTANT_BLACKLIST" →
      (Mentions (wrapped (label ++ text)) word ↔ Mentions text word) := fun word hword hinstant =>
    (mentions_wrapped hword hinstant).trans (mentions_append (label_apart label hlabel word hword) text)
  exact or_congr (hwords _ (by decide) (by decide)) (hwords _ (by decide) (by decide))

theorem tagged_label : Tagged (label ++ text) ↔ Tagged text := by
  have hwords : ∀ word ∈ classifiers, (Mentions (label ++ text) word ↔ Mentions text word) :=
    fun word hword => mentions_append (label_apart label hlabel word hword) text
  unfold Tagged isInstantBlacklistError
  simp only [Bool.or_eq_true, decide_eq_true_eq]
  rw [hwords "\"data\":\"0x\"" (by decide), hwords "5446" (by decide), hwords "repay" (by decide),
    hwords "INSTANT_BLACKLIST" (by decide)]

end Label

/-! ## The preflight that decides -/

/-- The provider whose failed preflight ends the loop over the providers. -/
def decidingPreflight (keys : Keyring) (c : Config) (a : Answers) : List UInt8 → Option UInt8
  | [] => none
  | provider :: rest =>
    if c.dryRun ∨ a.skipPreflight then none
    else
      match preflightEthCall keys c (a.preflight provider) with
      | some (.error e) =>
        if isInstantBlacklistError e ∨ rest = [] then some provider
        else decidingPreflight keys c a rest
      | _ => none

theorem tryProviders_of_deciding {valid : ValidPath} {providers : List UInt8} {lastErr : String}
    {provider : UInt8} {choice : Choice}
    (hdeciding : decidingPreflight keys c a providers = some provider)
    (hfailed : preflightEthCall keys c (a.preflight provider) = some (.error e))
    (hchoice : tryProviders keys c a valid providers lastErr = some choice) :
    choice = .stop (.error (wrapped e)) := by
  induction providers generalizing lastErr with
  | nil => cases hdeciding
  | cons first rest ih =>
    unfold decidingPreflight at hdeciding
    split at hdeciding
    · cases hdeciding
    rename_i hlive
    obtain ⟨hdry, hskip⟩ := not_or.mp hlive
    rcases hreply : preflightEthCall keys c (a.preflight first) with _ | e' | _
    · rw [hreply] at hdeciding
      cases hdeciding
    · rw [hreply] at hdeciding
      rw [tryProviders_failed hdry hskip hreply] at hchoice
      dsimp only at hdeciding
      by_cases hends : isInstantBlacklistError e' = true ∨ rest = []
      · rw [if_pos hends] at hdeciding hchoice
        obtain rfl := Option.some.inj hdeciding
        obtain rfl : e' = e := Except.error.inj (Option.some.inj (hreply.symm.trans hfailed))
        exact (Option.some.inj hchoice).symm
      · rw [if_neg hends] at hdeciding hchoice
        split at hchoice
        · cases hchoice
        · exact ih hdeciding hchoice
    · rw [hreply] at hdeciding
      cases hdeciding

/-- The round hands its path to `build_and_send`, where the preflight of a provider ends the loop
over the providers by a failure without a revert, in the words `text`. -/
structure FailsUnexecuted (keys : Keyring) (c : Config) (s : State) (i : ValidPath × Answers)
    (provider : UInt8) (text : String) : Prop where
  profit : ¬ i.1.netProfit < c.minSubmitProfitWei
  recent : ¬ isStale c (refreshHead s.worker i.2) i.1
  deciding : decidingPreflight keys c i.2 (providers c) = some provider
  unexecuted : unexecutedText keys c (i.2.preflight provider) = some text

theorem FailsUnexecuted.sendOf {s s' : State} {i : ValidPath × Answers} {provider : UInt8}
    (h : FailsUnexecuted keys c s i provider text) (hstep : Step keys c s i s') :
    ∃ label ∈ unexecutedLabels,
      sendOf keys c s i = some ⟨i.1.arb.path, .error (wrapped (label ++ text))⟩ := by
  obtain ⟨label, hlabel, hfailed⟩ := preflightEthCall_of_unexecuted h.unexecuted
  refine ⟨label, hlabel, ?_⟩
  unfold Step round at hstep
  rw [if_neg h.profit] at hstep
  dsimp only at hstep
  rw [if_neg h.recent] at hstep
  obtain ⟨sent, hsent, -⟩ := Option.map_eq_some_iff.mp hstep
  have hresult : sent.result = .error (wrapped (label ++ text)) := by
    unfold buildAndSend at hsent
    obtain ⟨⟨maxFee, tip⟩, -, hsent⟩ := Option.bind_eq_some_iff.mp hsent
    obtain ⟨choice, hchoice, hsent⟩ := Option.bind_eq_some_iff.mp hsent
    obtain rfl := tryProviders_of_deciding h.deciding hfailed hchoice
    exact congrArg Sent.result (Option.some.inj hsent).symm
  rw [TxSender.sendOf, if_neg h.profit]
  dsimp only
  rw [if_neg h.recent, hsent, Option.map_some, hresult]

/-! ## When nothing is struck -/

/-- Everything a strike of the path would touch is at the threshold and blacklisted. -/
structure Saturated (c : Config) (w : Worker) (path : SwapPath) : Prop where
  count : w.strikeCounts path.hash = c.strikeThreshold
  listed : path.hash ∈ w.blacklistedPaths
  tokens : ∀ t ∈ ends path, t ∉ c.startTokens →
    w.tokenStrikeCounts t = c.strikeThreshold ∧ t ∈ w.blacklistedTokens

/-- The failure is taken for a marginal arb, or is instant and finds nothing left to strike. -/
def Spared (c : Config) (w : Worker) (path : SwapPath) (text : String) : Prop :=
  MarginalText text ∨ Tagged text ∧ Saturated c w path

theorem strikeToken_of_saturated {t : Address} (hcount : w.tokenStrikeCounts t = c.strikeThreshold)
    (hlisted : t ∈ w.blacklistedTokens) : strikeToken c true w t = w := by
  have hcounts : (fun t' => if t' = t then c.strikeThreshold else w.tokenStrikeCounts t') =
      w.tokenStrikeCounts := by
    funext t'
    by_cases ht' : t' = t
    · rw [if_pos ht', ht', hcount]
    · rw [if_neg ht']
  unfold strikeToken strike
  split
  · rfl
  · simp only [if_true, hcounts, UInt32.le_refl, Finset.insert_eq_of_mem hlisted]

theorem strikeTokenFiled_of_saturated {s : Filed} {t : Address} (h : t ∈ c.startTokens ∨
    s.worker.tokenStrikeCounts t = c.strikeThreshold ∧ t ∈ s.worker.blacklistedTokens) :
    strikeTokenFiled f c true s t = s := by
  have hsame : strikeToken c true s.worker t = s.worker := by
    rcases h with hstart | ⟨hcount, hlisted⟩
    · exact if_pos hstart
    · exact strikeToken_of_saturated hcount hlisted
  unfold strikeTokenFiled
  dsimp only
  rw [hsame, if_neg fun hnew => hnew.2 hnew.1]

theorem strikeHash_of_saturated {hash : UInt64} (hcount : w.strikeCounts hash = c.strikeThreshold)
    (hlisted : hash ∈ w.blacklistedPaths) : strikeHash c true w hash = w := by
  have hcounts : (fun h => if h = hash then c.strikeThreshold else w.strikeCounts h) =
      w.strikeCounts := by
    funext h
    by_cases hh : h = hash
    · rw [if_pos hh, hh, hcount]
    · rw [if_neg hh]
  unfold strikeHash strike
  simp only [if_true, hcounts, UInt32.le_refl, Finset.insert_eq_of_mem hlisted]

/-- An instant strike of a saturated path changes nothing, neither the worker nor the file. -/
theorem strikePathFiled_of_saturated {s : Filed} (h : Saturated c s.worker path) :
    strikePathFiled f c true s path = s := by
  have htokens : ∀ tokens : List Address, (∀ t ∈ tokens, t ∈ ends path) →
      tokens.foldl (strikeTokenFiled f c true) s = s := by
    intro tokens
    induction tokens with
    | nil => exact fun _ => rfl
    | cons t tokens ih =>
      intro hmem
      have ht : strikeTokenFiled f c true s t = s := by
        refine strikeTokenFiled_of_saturated ?_
        by_cases hstart : t ∈ c.startTokens
        · exact .inl hstart
        · exact .inr (h.tokens t (hmem t List.mem_cons_self) hstart)
      rw [List.foldl_cons, ht]
      exact ih fun t' ht' => hmem t' (List.mem_cons_of_mem t ht')
  unfold strikePathFiled
  rw [strikeHash_of_saturated h.count h.listed]
  exact htokens _ fun _ ht => ht

/-! ## When something is -/

theorem strikeTokens_count_instant {t : Address} (ht : t ∉ c.startTokens) (tokens : List Address)
    (w : Worker) (h : t ∈ tokens ∨ w.tokenStrikeCounts t = c.strikeThreshold) :
    (tokens.foldl (strikeToken c true) w).tokenStrikeCounts t = c.strikeThreshold := by
  induction tokens generalizing w with
  | nil => exact h.resolve_left (by simp)
  | cons token tokens ih =>
    rw [List.foldl_cons]
    refine ih _ ?_
    by_cases htoken : t = token
    · subst htoken
      exact .inr (strikeToken_count_self ht)
    · rw [strikeToken_count_of_ne htoken]
      exact h.imp_left fun hmem => (List.mem_cons.mp hmem).resolve_left htoken

/-- A strike that changes nothing is an instant one, of a saturated path. -/
theorem saturated_of_unchanged {instant : Bool}
    (hcounts : (strikePath c instant w path).strikeCounts = w.strikeCounts)
    (htokenCounts : (strikePath c instant w path).tokenStrikeCounts = w.tokenStrikeCounts)
    (hpaths : (strikePath c instant w path).blacklistedPaths = w.blacklistedPaths)
    (htokens : (strikePath c instant w path).blacklistedTokens = w.blacklistedTokens) :
    instant = true ∧ Saturated c w path := by
  have hcount : strike c instant (w.strikeCounts path.hash) = w.strikeCounts path.hash := by
    have hself : (strikePath c instant w path).strikeCounts path.hash =
        if path.hash = path.hash then strike c instant (w.strikeCounts path.hash)
        else w.strikeCounts path.hash := strikePath_strikeCounts
    rw [if_pos rfl, hcounts] at hself
    exact hself.symm
  obtain rfl : instant = true := by
    cases instant with
    | true => rfl
    | false =>
      have hnext : w.strikeCounts path.hash + 1 = w.strikeCounts path.hash := hcount
      have htoNat := congrArg UInt32.toNat hnext
      have hlt := (w.strikeCounts path.hash).toNat_lt
      rw [UInt32.toNat_add] at htoNat
      simp only [UInt32.reduceToNat] at htoNat
      omega
  refine ⟨rfl, hcount.symm, ?_, fun t ht hstart => ⟨?_, ?_⟩⟩
  · rw [← hpaths]
    exact strikePath_mem.mpr (.inr ⟨rfl, UInt32.le_refl _⟩)
  · rw [← htokenCounts]
    exact strikeTokens_count_instant hstart (ends path) _ (.inl ht)
  · rw [← htokens]
    exact strikePath_mem_instant hstart ht w

/-! ## Rounds and runs -/

/-- The strike counts, the blacklists and the file are as they were. -/
structure Unchanged (s s' : FiledState) : Prop where
  strikeCounts : s'.state.worker.strikeCounts = s.state.worker.strikeCounts
  tokenStrikeCounts : s'.state.worker.tokenStrikeCounts = s.state.worker.tokenStrikeCounts
  blacklistedPaths : s'.state.worker.blacklistedPaths = s.state.worker.blacklistedPaths
  blacklistedTokens : s'.state.worker.blacklistedTokens = s.state.worker.blacklistedTokens
  file : s'.file = s.file

theorem Unchanged.of_filed {s s' : FiledState} {nonce head : UInt64}
    (h : (⟨s'.state.worker, s'.file⟩ : Filed) = ⟨s.state.worker.setNonceHead nonce head, s.file⟩) :
    Unchanged s s' := by
  have hworker : s'.state.worker = s.state.worker.setNonceHead nonce head := congrArg Filed.worker h
  have hfile : s'.file = s.file := congrArg Filed.file h
  refine ⟨?_, ?_, ?_, ?_, hfile⟩ <;> rw [hworker] <;> rfl

/-- The step lemma: a round whose preflight fails without a revert changes nothing exactly if it is
spared. -/
theorem unchanged_iff_spared {s s' : FiledState} {i : ValidPath × Answers} {provider : UInt8}
    (hstep : StepFiled f keys c s i s') (hfail : FailsUnexecuted keys c s.state i provider text) :
    Unchanged s s' ↔ Spared c s.state.worker i.1.arb.path text := by
  obtain ⟨label, hlabel, hsend⟩ := hfail.sendOf hstep.step
  obtain ⟨nonce, head, hfiled⟩ := stepFiled_of_sendOf hstep hsend
  dsimp only at hfiled
  unfold Spared
  rw [← marginalText_label hlabel, ← tagged_label hlabel, ← mentions_wrapped_instant]
  by_cases hmarginal : MarginalText (wrapped (label ++ text))
  · have hnot : ¬ Counted (.error (wrapped (label ++ text))) := fun hcounted =>
      absurd hmarginal (And.right hcounted)
    rw [recordResultFiled_of_not_counted hnot] at hfiled
    exact iff_of_true (.of_filed hfiled) (.inl hmarginal)
  have hcounted : Counted (.error (wrapped (label ++ text))) :=
    ⟨mentions_wrapped_reverted _, hmarginal⟩
  rw [or_iff_right hmarginal]
  constructor
  · intro h
    have hworker := congrArg Filed.worker hfiled
    rw [recordResultFiled_worker, recordResult_of_counted hcounted] at hworker
    dsimp only at hworker
    -- the nonce and the head are none of the fields the strikes read
    obtain ⟨hinstant, hsaturated⟩ := saturated_of_unchanged
      ((congrArg Worker.strikeCounts hworker).symm.trans h.strikeCounts)
      ((congrArg Worker.tokenStrikeCounts hworker).symm.trans h.tokenStrikeCounts)
      ((congrArg Worker.blacklistedPaths hworker).symm.trans h.blacklistedPaths)
      ((congrArg Worker.blacklistedTokens hworker).symm.trans h.blacklistedTokens)
    exact ⟨(of_decide_eq_true hinstant).2, hsaturated.count, hsaturated.listed,
      hsaturated.tokens⟩
  · rintro ⟨hinstant, hsaturated⟩
    have hsame : Saturated c (s.state.worker.setNonceHead nonce head) i.1.arb.path :=
      ⟨hsaturated.count, hsaturated.listed, hsaturated.tokens⟩
    rw [recordResultFiled_of_counted hcounted, decide_eq_true hinstant,
      strikePathFiled_of_saturated hsame] at hfiled
    exact .of_filed hfiled

/-- **Preflights that fail unexecuted are punished unless they are spared.** For every run of the
worker with its file: each round whose deciding preflight failed without a revert leaves the strike
counts, the blacklists and the file as they were, exactly if the words of each of these failures
speak of the repayment, or are taken for an instant failure while the path and its tokens are at the
threshold and blacklisted. -/
theorem unexecuted_unpunished_iff (f : ToxicFile) (keys : Keyring) (c : Config) (s : FiledState)
    (is : List (ValidPath × Answers)) :
    (∀ js i t t' provider text, js ++ [i] <+: is → Run (StepFiled f keys c) s js t →
        StepFiled f keys c t i t' → FailsUnexecuted keys c t.state i provider text →
          Unchanged t t') ↔
      ∀ js i t t' provider text, js ++ [i] <+: is → Run (StepFiled f keys c) s js t →
        StepFiled f keys c t i t' → FailsUnexecuted keys c t.state i provider text →
          Spared c t.state.worker i.1.arb.path text := by
  constructor
  · intro h js i t t' provider text hpre hrun hstep hfail
    exact (unchanged_iff_spared hstep hfail).mp (h js i t t' provider text hpre hrun hstep hfail)
  · intro h js i t t' provider text hpre hrun hstep hfail
    exact (unchanged_iff_spared hstep hfail).mpr (h js i t t' provider text hpre hrun hstep hfail)

/-! ### A node that does not answer -/

/-- The request of the preflight fails. -/
def offline : Answers :=
  { lost with skipPreflight := false, preflight := fun _ => .requestFailed "connection refused" }

/-- A worker without strikes and without a file. -/
def unstruckFiled : FiledState := ⟨unstruck, none⟩

theorem offline_failsUnexecuted :
    FailsUnexecuted sampleKeys strikeConfig unstruck (thereAndBack, offline) 0
      "connection refused" :=
  ⟨by decide, by decide, rfl, rfl⟩

/-- One request that fails strikes the path. -/
theorem offline_struck :
    ∃ s', StepFiled sampleToxicFile sampleKeys strikeConfig unstruckFiled (thereAndBack, offline) s' ∧
      FailsUnexecuted sampleKeys strikeConfig unstruck (thereAndBack, offline) 0
        "connection refused" ∧
      ¬ Unchanged unstruckFiled s' := by
  obtain ⟨s', hstep⟩ : ∃ s', StepFiled sampleToxicFile sampleKeys strikeConfig unstruckFiled
      (thereAndBack, offline) s' := ⟨_, rfl⟩
  refine ⟨s', hstep, offline_failsUnexecuted, fun h => ?_⟩
  have hmarginal : ¬ MarginalText "connection refused" := by decide
  have htagged : ¬ Tagged "connection refused" := by decide
  rcases (unchanged_iff_spared hstep offline_failsUnexecuted).mp h with hspared | ⟨hspared, -⟩
  · exact hmarginal hspared
  · exact htagged hspared

end ArbBot.TxSender
