import ArbBot.Lib.Runs
import ArbBot.TxSender

/-!
# The nonce counter

The counter is advanced by `build_raw_tx` before signing, and nothing sets it back. So it stays at
its seed plus the transactions the sequencer accepted exactly as long as every transaction that
takes a nonce is signed and accepted; the first one that is not leaves a gap for good, since the
counter is seeded only once. What the worker reads of the sequencer's answer plays no part: a lost
answer to an accepted transaction does no harm.
-/

namespace ArbBot.TxSender

open Lib

variable {keys : Keyring} {c : Config}

/-- The transaction `build_and_send` comes to sign, when it comes to sign one. -/
def toSign (keys : Keyring) (c : Config) (a : Answers) (nonce : UInt64) (valid : ValidPath) :
    Option TransactionRequest := do
  let (maxFeePerGas, priorityFee) ← fees c a.gasStation valid
  match ← tryProviders keys c a valid (providers c) "" with
  | .stop _ => none
  | .send calldata =>
    match ← importKey keys c with
    | .error _ => none
    | .ok _ => some (transactionRequest c nonce calldata maxFeePerGas priorityFee)

/-- The transaction is signed and the sequencer accepts it. -/
def Lands (a : Answers) (tx : TransactionRequest) : Prop :=
  (∃ encoded, a.signing tx = .ok encoded) ∧ a.submission.accepted = true

/-- Without a transaction to sign the counter stays; with one it is advanced, whether the
transaction lands or not. -/
theorem buildAndSend_spec {a : Answers} {nonce : UInt64} {valid : ValidPath} {sent : Sent}
    (h : buildAndSend keys c a nonce valid = some sent) :
    (toSign keys c a nonce valid = none ∧ sent.nonce = nonce ∧ sent.accepted = 0) ∨
      ∃ tx, toSign keys c a nonce valid = some tx ∧ sent.nonce = nonce + 1 ∧
        (Lands a tx ∧ sent.accepted = 1 ∨ ¬ Lands a tx ∧ sent.accepted = 0) := by
  unfold buildAndSend at h
  unfold toSign
  cases hfees : fees c a.gasStation valid with
  | none => rw [hfees] at h; cases h
  | some fee =>
    rw [hfees] at h
    simp only [Option.bind_eq_bind, Option.bind_some] at h ⊢
    cases hchoice : tryProviders keys c a valid (providers c) "" with
    | none => rw [hchoice] at h; cases h
    | some choice =>
      rw [hchoice] at h
      simp only [Option.bind_some] at h ⊢
      cases choice with
      | stop result =>
        cases h
        exact .inl ⟨rfl, rfl, rfl⟩
      | send calldata =>
        unfold buildRawTx at h
        cases hkey : importKey keys c with
        | none => rw [hkey] at h; cases h
        | some key =>
          rw [hkey] at h
          simp only [Option.map_some, Option.bind_some] at h ⊢
          cases key with
          | error e =>
            cases h
            exact .inl ⟨rfl, rfl, rfl⟩
          | ok signer =>
            refine .inr ⟨_, rfl, ?_⟩
            simp only [Lands] at h ⊢
            cases hsign : a.signing (transactionRequest c nonce calldata fee.1 fee.2) with
            | error e =>
              rw [hsign] at h
              cases h
              refine ⟨rfl, .inr ⟨?_, rfl⟩⟩
              rintro ⟨⟨_, he⟩, -⟩
              cases he
            | ok encoded =>
              rw [hsign] at h
              cases h
              refine ⟨rfl, ?_⟩
              cases hacc : a.submission.accepted with
              | false =>
                refine .inr ⟨?_, rfl⟩
                rintro ⟨-, he⟩
                cases he
              | true => exact .inl ⟨⟨⟨encoded, rfl⟩, rfl⟩, rfl⟩

/-! ## What leaves the counter alone -/

@[simp] theorem refreshHead_nonce (w : Worker) (a : Answers) :
    (refreshHead w a).nonce = w.nonce := by
  unfold refreshHead
  split <;> rfl

@[simp] theorem strikeToken_nonce (instant : Bool) (w : Worker) (token : Address) :
    (strikeToken c instant w token).nonce = w.nonce := by
  unfold strikeToken
  split <;> rfl

theorem strikeTokens_nonce (instant : Bool) (tokens : List Address) (w : Worker) :
    (tokens.foldl (strikeToken c instant) w).nonce = w.nonce := by
  induction tokens generalizing w with
  | nil => rfl
  | cons token tokens ih => rw [List.foldl_cons, ih, strikeToken_nonce]

@[simp] theorem recordResult_nonce (w : Worker) (valid : ValidPath)
    (result : Except String String) : (recordResult c w valid result).nonce = w.nonce := by
  cases result with
  | ok hash => rfl
  | error e =>
    simp only [recordResult]
    split
    · split
      · rfl
      · exact strikeTokens_nonce _ _ _
    · rfl

/-! ## Rounds and runs -/

/-- The counter is the seed plus the transactions accepted so far. -/
def Continuous (seed : UInt64) (s : State) : Prop :=
  s.worker.nonce = seed + UInt64.ofNat s.accepted

/-- If the round comes to sign a transaction, the transaction lands. -/
def RoundLands (keys : Keyring) (c : Config) (s : State) (i : ValidPath × Answers) : Prop :=
  ¬ i.1.netProfit < c.minSubmitProfitWei → ¬ isStale c (refreshHead s.worker i.2) i.1 →
    ∀ tx, toSign keys c i.2 s.worker.nonce i.1 = some tx → Lands i.2 tx

/-- A round keeps the counter continuous exactly when what it signs lands. -/
theorem continuous_step {seed : UInt64} {s s' : State} {i : ValidPath × Answers}
    (hs : Continuous seed s) (h : Step keys c s i s') :
    Continuous seed s' ↔ RoundLands keys c s i := by
  obtain ⟨valid, a⟩ := i
  simp only [Step, round] at h
  split at h
  · rename_i hprofit
    cases h
    exact iff_of_true hs fun hn => absurd hprofit hn
  · split at h
    · rename_i hstale
      cases h
      refine iff_of_true ?_ fun _ hn => absurd hstale hn
      rw [Continuous, refreshHead_nonce]
      exact hs
    · rename_i hprofit hstale
      obtain ⟨sent, hsent, rfl⟩ := Option.map_eq_some_iff.mp h
      rw [refreshHead_nonce] at hsent
      simp only [Continuous, recordResult_nonce]
      rcases buildAndSend_spec hsent with ⟨hnone, hnonce, hacc⟩ | ⟨tx, htx, hnonce, hland⟩
      · rw [hnonce, hacc]
        refine iff_of_true hs fun _ _ tx htx => ?_
        rw [hnone] at htx
        cases htx
      · have hround : RoundLands keys c s (valid, a) ↔ Lands a tx :=
          ⟨fun hl => hl hprofit hstale tx htx, fun hl _ _ tx' htx' =>
            Option.some.inj (htx.symm.trans htx') ▸ hl⟩
        rw [hround, hnonce, hs]
        rcases hland with ⟨hl, hacc⟩ | ⟨hl, hacc⟩
        · refine iff_of_true ?_ hl
          rw [hacc, UInt64.ofNat_add, UInt64.add_assoc]
          rfl
        · refine iff_of_false ?_ hl
          rw [hacc]
          exact fun he => absurd (UInt64.add_eq_left.mp he) (by decide)

/-- **In every state a run reaches the counter is the seed plus the transactions accepted, if and
only if every transaction the run comes to sign is signed and accepted.** -/
theorem nonce_continuous_iff {count head : Option UInt64} {paths : Finset UInt64}
    {tokens : Finset Address} {s s' : State} {is : List (ValidPath × Answers)}
    (hstart : start keys c count head paths tokens = some s) (hrun : Run (Step keys c) s is s') :
    (∀ js t, js <+: is → Run (Step keys c) s js t → Continuous s.worker.nonce t) ↔
      Run (Guarded (RoundLands keys c) (Step keys c)) s is s' := by
  refine hrun.forall_prefix_iff (fun h h' => Option.some.inj (h.symm.trans h'))
    continuous_step ?_
  obtain ⟨nonce, -, rfl⟩ := Option.map_eq_some_iff.mp hstart
  simp [Continuous]

/-! ### A lost submission -/

/-- A key that decodes. -/
def sampleKeys : Keyring where
  hexDecode _ := .ok (List.replicate 32 1)
  fromBytes _ := .ok 1

/-- Live submission without thresholds. -/
def sampleConfig : Config where
  botAddress := 2
  signerKey := "01"
  chainId := 8453
  maxGasLimit := 1000000
  profitShareBps := 5000
  minSubmitProfitWei := 0
  maxStaleBlocks := 3
  strikeThreshold := 3
  dryRun := false
  flashLoanProvider := 0
  startTokens := ∅
  logInfo := true

def samplePath : ValidPath := ⟨⟨⟨[], 0⟩, 0, 0, 0⟩, 1, 2, 0, 1⟩

/-- Preflight is skipped, the transaction is signed, and the request to the sequencer fails. -/
def lost : Answers where
  head := none
  gasStation := ⟨1000000, 0, 0, 6, 50, 1000000, 0⟩
  skipPreflight := true
  preflight _ := .answer ⟨none, some "0x", ""⟩
  signing _ := .ok []
  submission := .requestFailed "connection refused" false

/-- After one failed submission the next transaction is written with nonce 8, while the sequencer
has accepted none beyond the seed 7. -/
theorem lost_leaves_gap :
    ∃ s s', start sampleKeys sampleConfig (some 7) none ∅ ∅ = some s ∧
      Run (Step sampleKeys sampleConfig) s [(samplePath, lost)] s' ∧
        ¬ Continuous s.worker.nonce s' := by
  refine ⟨_, _, rfl, .cons rfl (.nil _), ?_⟩
  change ¬ (8 : UInt64) = 7 + 0
  decide

/-- The same round with an answer from the sequencer. -/
def landed : Answers :=
  { lost with submission := .answer ⟨none, some "0xabc", ""⟩ }

theorem nonce_continuous_iff_landed :
    ∃ s s', start sampleKeys sampleConfig (some 7) none ∅ ∅ = some s ∧
      Run (Step sampleKeys sampleConfig) s [(samplePath, landed)] s' ∧
        ((∀ js t, js <+: [(samplePath, landed)] →
            Run (Step sampleKeys sampleConfig) s js t → Continuous s.worker.nonce t) ↔
          Run (Guarded (RoundLands sampleKeys sampleConfig) (Step sampleKeys sampleConfig)) s
            [(samplePath, landed)] s') :=
  ⟨_, _, rfl, .cons rfl (.nil _), nonce_continuous_iff rfl (.cons rfl (.nil _))⟩

end ArbBot.TxSender
