import ArbBot.Laws.TxSender.Providers
import ArbBot.TxSenderTrace

/-!
# The fallback to Aave

Whatever the preflights answer, a send tries the providers in order, signs and submits at most one
transaction, and none in a dry run or when every preflight failed. It does not always return: the
message about a fallback cuts the node's text after 120 bytes, the conversion of the key takes 32
bytes, and the prediction of the base fee divides by its parameters.
-/

namespace ArbBot.TxSender

variable {keys : Keyring} {c : Config} {a : Answers} {nonce : UInt64} {valid : ValidPath}
  {list : List UInt8} {lastErr : String}

/-! ## The record -/

/-- The record changes nothing of the loop. -/
theorem tryProvidersTraced_snd (list : List UInt8) (lastErr : String) :
    (tryProvidersTraced keys c a valid list lastErr).2 =
      tryProviders keys c a valid list lastErr := by
  induction list generalizing lastErr with
  | nil => rfl
  | cons provider rest ih =>
    unfold tryProvidersTraced tryProviders
    by_cases hdry : c.dryRun = true
    · rw [if_pos hdry, if_pos hdry]
    rw [if_neg hdry, if_neg hdry]
    by_cases hskip : a.skipPreflight = true
    · rw [if_pos hskip, if_pos hskip]
    rw [if_neg hskip, if_neg hskip]
    rcases preflightEthCall keys c (a.preflight provider) with _ | e | ⟨⟩
    · rfl
    · dsimp only
      by_cases hinstant : isInstantBlacklistError e = true
      · rw [if_pos hinstant, if_pos hinstant]
      rw [if_neg hinstant, if_neg hinstant]
      by_cases hlast : rest = []
      · rw [if_pos hlast, if_pos hlast]
      rw [if_neg hlast, if_neg hlast]
      by_cases hcut : c.logInfo = true ∧
          ¬(String.Pos.Raw.mk (min e.utf8ByteSize 120)).isValid e = true
      · rw [if_pos hcut, if_pos hcut]
      · rw [if_neg hcut, if_neg hcut]
        exact ih e
    · rfl

/-- **The record changes nothing of a send.** -/
theorem buildAndSendTraced_snd :
    (buildAndSendTraced keys c a nonce valid).2 = buildAndSend keys c a nonce valid := by
  unfold buildAndSendTraced buildAndSend
  rcases fees c a.gasStation valid with _ | ⟨maxFeePerGas, priorityFee⟩
  · rfl
  simp only [Option.bind_eq_bind, Option.bind_some]
  rw [← tryProvidersTraced_snd]
  rcases tryProvidersTraced keys c a valid (providers c) "" with ⟨events, _ | result | calldata⟩
  · rfl
  · rfl
  · simp only [Option.bind_some, buildRawTx]
    rcases importKey keys c with _ | e | signer
    · rfl
    · rfl
    · simp only [Option.map_some, Option.bind_some]
      rcases a.signing (transactionRequest c nonce calldata maxFeePerGas priorityFee)
        with e | encoded
      · rfl
      · rfl

/-- The loop only tries, and in order. -/
theorem tryProvidersTraced_fst (list : List UInt8) (lastErr : String) :
    ∃ tried, tried <+: list ∧
      (tryProvidersTraced keys c a valid list lastErr).1 = tried.map Event.tried := by
  induction list generalizing lastErr with
  | nil => exact ⟨[], List.prefix_refl _, rfl⟩
  | cons provider rest ih =>
    have hone : ∃ tried, tried <+: provider :: rest ∧
        [Event.tried provider] = tried.map Event.tried := ⟨[provider], ⟨rest, rfl⟩, rfl⟩
    unfold tryProvidersTraced
    by_cases hdry : c.dryRun = true
    · rw [if_pos hdry]
      exact hone
    rw [if_neg hdry]
    by_cases hskip : a.skipPreflight = true
    · rw [if_pos hskip]
      exact hone
    rw [if_neg hskip]
    rcases preflightEthCall keys c (a.preflight provider) with _ | e | ⟨⟩
    · exact hone
    · dsimp only
      split
      · exact hone
      · split
        · exact hone
        · split
          · exact hone
          · obtain ⟨tried, hprefix, hevents⟩ := ih e
            refine ⟨provider :: tried, List.cons_prefix_cons.mpr ⟨rfl, hprefix⟩, ?_⟩
            rw [List.map_cons, ← hevents]
    · exact hone

/-- A loop that sends has tried a provider whose preflight passed, or skips the preflights. -/
theorem tryProvidersTraced_send {events : List Event} {calldata : SwapParams}
    (h : tryProvidersTraced keys c a valid list lastErr = (events, some (.send calldata))) :
    c.dryRun = false ∧ (a.skipPreflight = true ∨
      ∃ provider, Event.tried provider ∈ events ∧ Passes keys c a provider) := by
  induction list generalizing lastErr events with
  | nil => cases h
  | cons provider rest ih =>
    unfold tryProvidersTraced at h
    by_cases hdry : c.dryRun = true
    · rw [if_pos hdry] at h
      cases h
    rw [if_neg hdry] at h
    refine ⟨Bool.eq_false_iff.mpr hdry, ?_⟩
    by_cases hskip : a.skipPreflight = true
    · exact .inl hskip
    rw [if_neg hskip] at h
    right
    rcases hreply : preflightEthCall keys c (a.preflight provider) with _ | e | ⟨⟩
    · rw [hreply] at h
      cases h
    · rw [hreply] at h
      dsimp only at h
      split at h
      · cases h
      · split at h
        · cases h
        · split at h
          · cases h
          · obtain ⟨hevents, hchoice⟩ := Prod.mk.inj h
            obtain ⟨-, hpasses⟩ := ih (Prod.ext rfl hchoice)
            obtain ⟨passing, hmem, hpass⟩ := hpasses.resolve_left hskip
            exact ⟨passing, hevents ▸ List.mem_cons_of_mem _ hmem, hpass⟩
    · rw [hreply] at h
      cases h
      exact ⟨provider, List.mem_cons_self, hreply⟩

/-! ## What a send does -/

/-- How a send ends, by its record: it only tried, it tried and signed, or it tried, signed and
submitted. -/
theorem buildAndSendTraced_cases (keys : Keyring) (c : Config) (a : Answers) (nonce : UInt64)
    (valid : ValidPath) :
    ∃ tried, tried <+: providers c ∧ ∃ tail,
      (buildAndSendTraced keys c a nonce valid).1 = tried.map Event.tried ++ tail ∧
      (tail = [] ∧ (∀ sent ∈ (buildAndSendTraced keys c a nonce valid).2, sent.nonce = nonce) ∨
        (c.dryRun = false ∧ (a.skipPreflight = true ∨
            ∃ provider ∈ tried, Passes keys c a provider)) ∧
          ∃ tx, tail = [.signs tx] ∨ ∃ encoded, tail = [.signs tx, .submits encoded]) := by
  unfold buildAndSendTraced
  rcases fees c a.gasStation valid with _ | ⟨maxFeePerGas, priorityFee⟩
  · exact ⟨[], List.nil_prefix, [], rfl, .inl ⟨rfl, fun sent h => by cases h⟩⟩
  obtain ⟨tried, hprefix, hevents⟩ := tryProvidersTraced_fst (c := c) (a := a) (providers c) ""
  refine ⟨tried, hprefix, ?_⟩
  rcases hloop : tryProvidersTraced keys c a valid (providers c) "" with ⟨events, choice⟩
  rw [hloop] at hevents
  obtain rfl : events = tried.map Event.tried := hevents
  have hnone : tried.map Event.tried = tried.map Event.tried ++ [] := (List.append_nil _).symm
  rcases choice with _ | result | calldata
  · exact ⟨[], hnone, .inl ⟨rfl, fun sent h => by cases h⟩⟩
  · refine ⟨[], hnone, .inl ⟨rfl, fun sent h => ?_⟩⟩
    cases h
    rfl
  obtain ⟨hlive, hpasses⟩ := tryProvidersTraced_send hloop
  have hpasses' : a.skipPreflight = true ∨ ∃ provider ∈ tried, Passes keys c a provider := by
    apply hpasses.imp_right
    rintro ⟨provider, hmem, hpass⟩
    obtain ⟨provider', hmem', heq⟩ := List.mem_map.mp hmem
    cases heq
    exact ⟨provider, hmem', hpass⟩
  rcases importKey keys c with _ | e | signer
  · exact ⟨[], hnone, .inl ⟨rfl, fun sent h => by cases h⟩⟩
  · refine ⟨[], hnone, .inl ⟨rfl, fun sent h => ?_⟩⟩
    cases h
    rfl
  · dsimp only
    rcases a.signing (transactionRequest c nonce calldata maxFeePerGas priorityFee) with e | encoded
    · exact ⟨_, rfl, .inr ⟨⟨hlive, hpasses'⟩, _, .inl rfl⟩⟩
    · exact ⟨_, rfl, .inr ⟨⟨hlive, hpasses'⟩, _, .inr ⟨encoded, rfl⟩⟩⟩

/-! ## When a send panics -/

/-- The prediction of the base fee divides by zero. -/
def GasPanics (g : GasStation) : Prop :=
  g.lastGasLimit ≠ 0 ∧ (g.elasticityMultiplier = 0 ∨
    g.lastGasLimit / g.elasticityMultiplier ≠ 0 ∧
      g.lastGasUsed ≠ g.lastGasLimit / g.elasticityMultiplier ∧ g.baseFeeChangeDenominator = 0)

/-- The configured key decodes to another length than that of a secret key. -/
def KeyPanics (keys : Keyring) (c : Config) : Prop :=
  ∃ bytes, keys.hexDecode c.signerKey = .ok bytes ∧ bytes.length ≠ 32

/-- The text of the primary provider's failed preflight is cut inside a character: there is a
provider to fall back to, the failure is no instant one, and the message is logged. -/
def CutPanics (keys : Keyring) (c : Config) (a : Answers) : Prop :=
  c.flashLoanProvider ≠ 0 ∧ c.logInfo = true ∧
    ∃ e, preflightEthCall keys c (a.preflight c.flashLoanProvider) = some (.error e) ∧
      isInstantBlacklistError e = false ∧
      ¬(String.Pos.Raw.mk (min e.utf8ByteSize 120)).isValid e = true

/-- **The inputs on which a send panics.** -/
def Panics (keys : Keyring) (c : Config) (a : Answers) : Prop :=
  GasPanics a.gasStation ∨ c.dryRun = false ∧
    (a.skipPreflight = true ∧ c.signerKey ≠ "" ∧ KeyPanics keys c ∨
      a.skipPreflight = false ∧ (KeyPanics keys c ∨ CutPanics keys c a))

theorem fees_eq_none : fees c a.gasStation valid = none ↔ GasPanics a.gasStation := by
  unfold fees GasStation.predictNextBaseFee calcNextBaseFee GasPanics
  by_cases hlimit : a.gasStation.lastGasLimit = 0
  · simp [hlimit]
  by_cases helasticity : a.gasStation.elasticityMultiplier = 0
  · simp [hlimit, helasticity]
  by_cases htarget : a.gasStation.lastGasLimit / a.gasStation.elasticityMultiplier = 0
  · simp [hlimit, helasticity, htarget]
  by_cases hused : a.gasStation.lastGasUsed =
      a.gasStation.lastGasLimit / a.gasStation.elasticityMultiplier
  · simp [hlimit, helasticity, hused]
  by_cases hdenominator : a.gasStation.baseFeeChangeDenominator = 0
  · simp [hlimit, helasticity, htarget, hused, hdenominator]
  · simp only [hlimit, helasticity, htarget, hused, hdenominator, if_false, ne_eq,
      not_false_eq_true, and_false, or_false, iff_false]
    split <;> simp

theorem secretKey_eq_none {bytes : List UInt8} :
    keys.secretKey bytes = none ↔ bytes.length ≠ 32 := by
  unfold Keyring.secretKey
  split <;> simp_all

theorem keyPanics_iff {bytes : List UInt8} (hdecode : keys.hexDecode c.signerKey = .ok bytes) :
    KeyPanics keys c ↔ keys.secretKey bytes = none := by
  rw [KeyPanics, hdecode, secretKey_eq_none]
  simp

theorem not_keyPanics_of_error {e : String} (hdecode : keys.hexDecode c.signerKey = .error e) :
    ¬KeyPanics keys c := by
  rintro ⟨bytes, hbytes, -⟩
  rw [hdecode] at hbytes
  cases hbytes

theorem preflightEthCall_eq_none {reply : Reply} :
    preflightEthCall keys c reply = none ↔ KeyPanics keys c := by
  unfold preflightEthCall
  cases hdecode : keys.hexDecode c.signerKey with
  | error e => exact iff_of_false (Option.some_ne_none _) (not_keyPanics_of_error hdecode)
  | ok bytes =>
    rw [keyPanics_iff hdecode]
    dsimp only
    rcases keys.secretKey bytes with _ | e | signer
    · exact iff_of_true rfl rfl
    · exact iff_of_false (Option.some_ne_none _) (Option.some_ne_none _)
    · exact iff_of_false (Option.some_ne_none _) (Option.some_ne_none _)

theorem importKey_eq_none :
    importKey keys c = none ↔ c.signerKey ≠ "" ∧ KeyPanics keys c := by
  unfold importKey
  by_cases hempty : c.signerKey = ""
  · rw [if_pos hempty]
    exact iff_of_false (Option.some_ne_none _) fun h => h.1 hempty
  rw [if_neg hempty, and_iff_right hempty]
  cases hdecode : keys.hexDecode c.signerKey with
  | error e => exact iff_of_false (Option.some_ne_none _) (not_keyPanics_of_error hdecode)
  | ok bytes =>
    rw [keyPanics_iff hdecode]
    dsimp only
    rcases keys.secretKey bytes with _ | e | signer
    · exact iff_of_true rfl rfl
    · exact iff_of_false (Option.some_ne_none _) (Option.some_ne_none _)
    · exact iff_of_false (Option.some_ne_none _) (Option.some_ne_none _)

theorem tryProviders_panicked {provider : UInt8} {rest : List UInt8} (hdry : ¬c.dryRun = true)
    (hskip : ¬a.skipPreflight = true)
    (hpanic : preflightEthCall keys c (a.preflight provider) = none) :
    tryProviders keys c a valid (provider :: rest) lastErr = none := by
  rw [tryProviders, if_neg hdry, if_neg hskip, hpanic]

theorem tryProviders_passed {provider : UInt8} {rest : List UInt8} (hdry : ¬c.dryRun = true)
    (hskip : ¬a.skipPreflight = true)
    (hpass : preflightEthCall keys c (a.preflight provider) = some (.ok ())) :
    tryProviders keys c a valid (provider :: rest) lastErr =
      some (.send (encodeCalldataWithProvider valid provider)) := by
  rw [tryProviders, if_neg hdry, if_neg hskip, hpass]

/-- The last provider panics with the key only. -/
theorem tryProviders_last_eq_none {provider : UInt8} (hdry : ¬c.dryRun = true)
    (hskip : ¬a.skipPreflight = true) :
    tryProviders keys c a valid [provider] lastErr = none ↔ KeyPanics keys c := by
  rw [← preflightEthCall_eq_none]
  rcases hreply : preflightEthCall keys c (a.preflight provider) with _ | e | ⟨⟩
  · exact iff_of_true (tryProviders_panicked hdry hskip hreply) rfl
  · rw [tryProviders_failed hdry hskip hreply, if_pos (.inr rfl)]
    exact iff_of_false (Option.some_ne_none _) (Option.some_ne_none _)
  · rw [tryProviders_passed hdry hskip hreply]
    exact iff_of_false (Option.some_ne_none _) (Option.some_ne_none _)

theorem tryProviders_eq_none (hdry : ¬c.dryRun = true) (hskip : ¬a.skipPreflight = true) :
    tryProviders keys c a valid (providers c) lastErr = none ↔
      KeyPanics keys c ∨ CutPanics keys c a := by
  unfold providers
  by_cases hprimary : c.flashLoanProvider = 0
  · rw [if_neg (not_not.mpr hprimary), tryProviders_last_eq_none hdry hskip]
    simp [CutPanics, hprimary]
  rw [if_pos hprimary]
  rcases hreply : preflightEthCall keys c (a.preflight c.flashLoanProvider) with _ | e | ⟨⟩
  · exact iff_of_true (tryProviders_panicked hdry hskip hreply)
      (.inl (preflightEthCall_eq_none.mp hreply))
  · have hkey : ¬KeyPanics keys c := by
      rw [← preflightEthCall_eq_none, hreply]
      exact Option.some_ne_none _
    rw [tryProviders_failed hdry hskip hreply]
    simp only [hkey, false_or, CutPanics, hreply, Option.some.injEq, Except.error.injEq,
      exists_eq_left', ne_eq, hprimary, not_false_eq_true, true_and]
    by_cases hinstant : isInstantBlacklistError e = true
    · simp [hinstant]
    · rw [if_neg (not_or.mpr ⟨hinstant, List.cons_ne_nil _ _⟩)]
      have hordinary : isInstantBlacklistError e = false := Bool.eq_false_iff.mpr hinstant
      simp only [hordinary, true_and]
      split
      · rename_i hcut
        exact iff_of_true rfl hcut
      · rename_i hcut
        rw [tryProviders_last_eq_none hdry hskip]
        exact iff_of_false hkey hcut
  · have hkey : ¬KeyPanics keys c := by
      rw [← preflightEthCall_eq_none, hreply]
      exact Option.some_ne_none _
    rw [tryProviders_passed hdry hskip hreply]
    refine iff_of_false (Option.some_ne_none _) ?_
    rintro (h | ⟨-, -, e, he, -⟩)
    · exact hkey h
    · rw [hreply] at he
      cases he

/-- Building and submitting panic with the import of the key only. -/
theorem send_eq_none {maxFeePerGas priorityFee : UInt64} {calldata : SwapParams} :
    ((buildRawTx keys c a nonce calldata maxFeePerGas priorityFee).bind fun built =>
      match built.encoded with
      | .error e => some ⟨built.nonce, 0, .error e⟩
      | .ok _ => some (Sent.mk built.nonce a.submission.accepted.toNat
          (submitRawTx a.submission))) = none ↔ importKey keys c = none := by
  unfold buildRawTx
  rcases importKey keys c with _ | key
  · exact iff_of_true rfl rfl
  · refine iff_of_false ?_ (Option.some_ne_none _)
    rw [Option.map_some, Option.bind_some]
    split
    · exact Option.some_ne_none _
    · exact Option.some_ne_none _

theorem exists_providers (c : Config) : ∃ provider rest, providers c = provider :: rest := by
  unfold providers
  split
  · exact ⟨_, _, rfl⟩
  · exact ⟨_, _, rfl⟩

/-- **A send panics exactly where one of its operations does.** -/
theorem buildAndSend_eq_none : buildAndSend keys c a nonce valid = none ↔ Panics keys c a := by
  obtain ⟨provider, rest, hlist⟩ := exists_providers c
  rw [Panics, ← fees_eq_none]
  unfold buildAndSend
  rcases fees c a.gasStation valid with _ | ⟨maxFeePerGas, priorityFee⟩
  · exact iff_of_true rfl (.inl rfl)
  simp only [Option.bind_eq_bind, Option.bind_some, reduceCtorEq, false_or]
  by_cases hdry : c.dryRun = true
  · rw [hlist, tryProviders, if_pos hdry]
    simp [hdry]
  simp only [Bool.eq_false_iff.mpr hdry, true_and]
  by_cases hskip : a.skipPreflight = true
  · rw [hlist, tryProviders, if_neg hdry, if_pos hskip, Option.bind_some]
    simp only [hskip, true_and, reduceCtorEq, false_and, or_false]
    exact send_eq_none.trans importKey_eq_none
  · simp only [Bool.eq_false_iff.mpr hskip, reduceCtorEq, false_and, false_or, true_and]
    have hloop := @tryProviders_eq_none keys c a valid "" hdry hskip
    rcases htry : tryProviders keys c a valid (providers c) "" with _ | result | calldata
    · exact iff_of_true rfl (hloop.mp htry)
    · refine iff_of_false (Option.some_ne_none _) fun hpanics => ?_
      rw [hloop.mpr hpanics] at htry
      cases htry
    · have hsafe : ¬(KeyPanics keys c ∨ CutPanics keys c a) := by
        rw [← hloop, htry]
        exact Option.some_ne_none _
      refine iff_of_false (fun hnone => hsafe (.inl ?_)) hsafe
      exact (importKey_eq_none.mp (send_eq_none.mp hnone)).2

/-! ## The fallback law -/

/-- **A send falls back safely**: it returns, it comes to the providers in order, it signs and
submits at most one transaction, and none in a dry run or when every preflight that was made
failed; then the counter stays. -/
structure FallsBackSafely (keys : Keyring) (c : Config) (a : Answers) (nonce : UInt64)
    (valid : ValidPath) : Prop where
  returns : (buildAndSend keys c a nonce valid).isSome
  inOrder : (buildAndSendTraced keys c a nonce valid).1.filterMap Event.provider? <+: providers c
  signsOnce : (buildAndSendTraced keys c a nonce valid).1.countP Event.isSigning ≤ 1
  submitsOnce : (buildAndSendTraced keys c a nonce valid).1.countP Event.isSubmission ≤ 1
  dryRun : c.dryRun = true →
    (buildAndSendTraced keys c a nonce valid).1.countP Event.isSubmission = 0
  failed : a.skipPreflight = false →
    (∀ provider, Event.tried provider ∈ (buildAndSendTraced keys c a nonce valid).1 →
      ¬Passes keys c a provider) →
    (buildAndSendTraced keys c a nonce valid).1.countP Event.isSubmission = 0 ∧
      ∀ sent, buildAndSend keys c a nonce valid = some sent → sent.nonce = nonce

theorem filterMap_tried (tried : List UInt8) (tail : List Event) :
    (tried.map Event.tried ++ tail).filterMap Event.provider? =
      tried ++ tail.filterMap Event.provider? := by
  induction tried with
  | nil => rfl
  | cons provider tried ih => simp only [List.map_cons, List.cons_append, List.filterMap_cons,
      Event.provider?, ih]

theorem countP_tried (p : Event → Bool) (hp : ∀ provider, p (.tried provider) = false)
    (tried : List UInt8) (tail : List Event) :
    (tried.map Event.tried ++ tail).countP p = tail.countP p := by
  induction tried with
  | nil => rfl
  | cons provider tried ih =>
    rw [List.map_cons, List.cons_append, List.countP_cons, hp, ih]
    rfl

/-- **A send falls back safely exactly where it does not panic**: where the prediction of the base
fee does not divide by zero and, unless it is a dry run, the key has its length and the text of the
primary provider's failure is not cut inside a character. -/
theorem fallsBackSafely_iff :
    FallsBackSafely keys c a nonce valid ↔ ¬Panics keys c a := by
  rw [← buildAndSend_eq_none]
  constructor
  · intro hsafe hnone
    have hreturns := hsafe.returns
    rw [hnone] at hreturns
    cases hreturns
  · intro hsome
    obtain ⟨tried, hprefix, tail, hevents, hcases⟩ :=
      buildAndSendTraced_cases keys c a nonce valid
    have hreturns := Option.isSome_iff_ne_none.mpr hsome
    have hsigns := countP_tried Event.isSigning (fun _ => rfl) tried tail
    have hsubmits := countP_tried Event.isSubmission (fun _ => rfl) tried tail
    have hproviders := filterMap_tried tried tail
    rw [← hevents] at hsigns hsubmits hproviders
    rw [buildAndSendTraced_snd] at hcases
    rcases hcases with ⟨rfl, hnonce⟩ | ⟨⟨hlive, hpasses⟩, tx, htail⟩
    · rw [List.filterMap_nil, List.append_nil] at hproviders
      refine ⟨hreturns, hproviders ▸ hprefix, ?_, ?_, fun _ => hsubmits, fun _ _ =>
        ⟨hsubmits, hnonce⟩⟩
      · exact hsigns.trans_le (Nat.zero_le 1)
      · exact hsubmits.trans_le (Nat.zero_le 1)
    · have hone : tail.filterMap Event.provider? = [] ∧ tail.countP Event.isSigning = 1 ∧
          tail.countP Event.isSubmission ≤ 1 := by
        rcases htail with rfl | ⟨encoded, rfl⟩
        · exact ⟨rfl, rfl, Nat.zero_le 1⟩
        · exact ⟨rfl, rfl, le_refl 1⟩
      rw [hone.1, List.append_nil] at hproviders
      refine ⟨hreturns, hproviders ▸ hprefix, (hsigns.trans hone.2.1).le, hsubmits.trans_le hone.2.2,
        fun hdry => ?_, fun hskip hfail => ?_⟩
      · rw [hlive] at hdry
        cases hdry
      · rw [hskip] at hpasses
        obtain ⟨provider, hmem, hpass⟩ := hpasses.resolve_left Bool.false_ne_true
        refine absurd hpass (hfail provider ?_)
        rw [hevents]
        exact List.mem_append_left _ (List.mem_map_of_mem hmem)

/-- An error of the node, a JSON text as it is displayed: a quote, 89 letters, a letter of two
bytes, and the closing quote. -/
def accented : String := "\"" ++ String.ofList (List.replicate 89 'x') ++ "é\""

/-- Both preflights fail with that text. -/
def accentedAnswers : Answers :=
  { lost with
    skipPreflight := false
    preflight := fun _ => .answer ⟨some accented, none, accented⟩ }

/-- After the 29 bytes of the code's own words, byte 120 is the second of the two. -/
theorem not_fallsBackSafely_accented :
    ¬FallsBackSafely sampleKeys { sampleConfig with flashLoanProvider := 1 } accentedAnswers 7
      samplePath := by
  intro hsafe
  have hpanics : Panics sampleKeys { sampleConfig with flashLoanProvider := 1 } accentedAnswers := by
    refine .inr ⟨rfl, .inr ⟨rfl, .inr ⟨by decide, rfl, "preflight eth_call reverted: " ++ accented,
      rfl, ?_, ?_⟩⟩⟩
    · decide +kernel
    · decide +kernel
  have hreturns := hsafe.returns
  rw [buildAndSend_eq_none.mpr hpanics] at hreturns
  cases hreturns

end ArbBot.TxSender
