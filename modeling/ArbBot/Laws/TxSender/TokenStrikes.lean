import ArbBot.Laws.TxSender.Nonce
import ArbBot.Laws.TxSender.Sends

/-!
# The strikes of tokens

The worker strikes both ends of every step of a failed path, so a token in the middle of a path is
struck once as the output of a step and once more as the input of the next. As long as no counted
failure has a path that names a token twice, the strike count of a token is the number of counted
failures of paths with the token, and the token is blacklisted when that number reaches the
threshold or an instant failure comes first.
-/

namespace ArbBot.TxSender

open Lib

variable {keys : Keyring} {c : Config} {t token : Address} {instant : Bool} {w : Worker}

/-- The tokens at the two ends of every step, in the order the worker strikes them. -/
def ends (path : SwapPath) : List Address :=
  path.steps.flatMap fun step => [step.tokenIn, step.tokenOut]

/-! ## One token -/

theorem strikeToken_count_of_ne (h : t ≠ token) :
    (strikeToken c instant w token).tokenStrikeCounts t = w.tokenStrikeCounts t := by
  unfold strikeToken
  split
  · rfl
  · exact if_neg h

theorem strikeToken_mem_of_ne (h : t ≠ token) :
    t ∈ (strikeToken c instant w token).blacklistedTokens ↔ t ∈ w.blacklistedTokens := by
  unfold strikeToken
  split
  · rfl
  · dsimp only
    split
    · rw [Finset.mem_insert, or_iff_right h]
    · rfl

theorem strikeToken_count_self (ht : t ∉ c.startTokens) :
    (strikeToken c instant w t).tokenStrikeCounts t = strike c instant (w.tokenStrikeCounts t) := by
  unfold strikeToken
  rw [if_neg ht]
  exact if_pos rfl

theorem strikeToken_mem_self (ht : t ∉ c.startTokens) :
    t ∈ (strikeToken c instant w t).blacklistedTokens ↔
      t ∈ w.blacklistedTokens ∨ c.strikeThreshold ≤ strike c instant (w.tokenStrikeCounts t) := by
  unfold strikeToken
  rw [if_neg ht]
  dsimp only
  split
  · rename_i hle
    simp [hle]
  · rename_i hlt
    rw [or_iff_left hlt]

theorem strikeToken_mem_mono (h : t ∈ w.blacklistedTokens) :
    t ∈ (strikeToken c instant w token).blacklistedTokens := by
  by_cases htoken : t = token
  · subst htoken
    by_cases ht : t ∈ c.startTokens
    · unfold strikeToken
      rw [if_pos ht]
      exact h
    · exact (strikeToken_mem_self ht).mpr (.inl h)
  · exact (strikeToken_mem_of_ne htoken).mpr h

/-! ## The tokens of a path -/

section Tokens

variable {tokens : List Address}

theorem strikeTokens_of_not_mem (instant : Bool) (h : t ∉ tokens) (w : Worker) :
    (tokens.foldl (strikeToken c instant) w).tokenStrikeCounts t = w.tokenStrikeCounts t ∧
      (t ∈ (tokens.foldl (strikeToken c instant) w).blacklistedTokens ↔
        t ∈ w.blacklistedTokens) := by
  induction tokens generalizing w with
  | nil => exact ⟨rfl, Iff.rfl⟩
  | cons token tokens ih =>
    have hne : t ≠ token := List.ne_of_not_mem_cons h
    have hrest : t ∉ tokens := List.not_mem_of_not_mem_cons h
    obtain ⟨hcount, hmem⟩ := ih hrest (strikeToken c instant w token)
    rw [List.foldl_cons]
    exact ⟨hcount.trans (strikeToken_count_of_ne hne), hmem.trans (strikeToken_mem_of_ne hne)⟩

/-- A token that occurs once is struck once. -/
theorem strikeTokens_of_count_one (ht : t ∉ c.startTokens) (h : tokens.count t = 1) (w : Worker) :
    (tokens.foldl (strikeToken c instant) w).tokenStrikeCounts t =
        strike c instant (w.tokenStrikeCounts t) ∧
      (t ∈ (tokens.foldl (strikeToken c instant) w).blacklistedTokens ↔
        t ∈ w.blacklistedTokens ∨
          c.strikeThreshold ≤ strike c instant (w.tokenStrikeCounts t)) := by
  induction tokens generalizing w with
  | nil => cases h
  | cons token tokens ih =>
    rw [List.foldl_cons]
    by_cases htoken : t = token
    · subst htoken
      have hrest : t ∉ tokens := by
        rw [List.count_cons_self] at h
        exact List.count_eq_zero.mp (Nat.succ.inj h)
      obtain ⟨hcount, hmem⟩ := strikeTokens_of_not_mem (c := c) instant hrest
        (strikeToken c instant w t)
      exact ⟨hcount.trans (strikeToken_count_self ht), hmem.trans (strikeToken_mem_self ht)⟩
    · rw [List.count_cons_of_ne (Ne.symm htoken)] at h
      obtain ⟨hcount, hmem⟩ := ih h (strikeToken c instant w token)
      rw [strikeToken_count_of_ne htoken] at hcount hmem
      exact ⟨hcount, hmem.trans (or_congr_left (strikeToken_mem_of_ne htoken))⟩

theorem strikeTokens_mem_mono (h : t ∈ w.blacklistedTokens) :
    t ∈ (tokens.foldl (strikeToken c instant) w).blacklistedTokens := by
  induction tokens generalizing w with
  | nil => exact h
  | cons token tokens ih => exact ih (strikeToken_mem_mono h)

/-- An instant failure blacklists every token of the path, however often it occurs. -/
theorem strikeTokens_mem_instant (ht : t ∉ c.startTokens) (h : t ∈ tokens) (w : Worker) :
    t ∈ (tokens.foldl (strikeToken c true) w).blacklistedTokens := by
  induction tokens generalizing w with
  | nil => cases h
  | cons token tokens ih =>
    rw [List.foldl_cons]
    rcases List.mem_cons.mp h with rfl | hrest
    · apply strikeTokens_mem_mono
      exact (strikeToken_mem_self ht).mpr (.inr (UInt32.le_refl _))
    · exact ih hrest _

end Tokens

section Path

variable {path : SwapPath}

theorem strikePath_of_not_mem (instant : Bool) (h : t ∉ ends path) (w : Worker) :
    (strikePath c instant w path).tokenStrikeCounts t = w.tokenStrikeCounts t ∧
      (t ∈ (strikePath c instant w path).blacklistedTokens ↔ t ∈ w.blacklistedTokens) :=
  strikeTokens_of_not_mem instant h _

theorem strikePath_of_count_one (instant : Bool) (ht : t ∉ c.startTokens) (h : (ends path).count t = 1)
    (w : Worker) :
    (strikePath c instant w path).tokenStrikeCounts t =
        strike c instant (w.tokenStrikeCounts t) ∧
      (t ∈ (strikePath c instant w path).blacklistedTokens ↔ t ∈ w.blacklistedTokens ∨
        c.strikeThreshold ≤ strike c instant (w.tokenStrikeCounts t)) :=
  strikeTokens_of_count_one ht h _

theorem strikePath_mem_instant (ht : t ∉ c.startTokens) (h : t ∈ ends path) (w : Worker) :
    t ∈ (strikePath c true w path).blacklistedTokens :=
  strikeTokens_mem_instant ht h _

end Path

/-! ## The tally -/

/-- The counted failures whose path has the token. -/
def failuresWith (t : Address) (history : List Send) : List Send :=
  history.filter fun send => decide (Counted send.result ∧ t ∈ ends send.path)

/-- The token is to be blacklisted: an instant failure met it, or enough counted ones did. -/
def Due (c : Config) (t : Address) (history : List Send) : Prop :=
  (∃ send ∈ history, Instant send.result ∧ t ∈ ends send.path) ∨
    c.strikeThreshold.toNat ≤ (failuresWith t history).length

instance (c : Config) (t : Address) (history : List Send) : Decidable (Due c t history) :=
  inferInstanceAs (Decidable (_ ∨ _))

/-- The worker's books on a token agree with the history. -/
structure Tallied (c : Config) (t : Address) (history : List Send) (w : Worker) : Prop where
  mem : t ∈ w.blacklistedTokens ↔ Due c t history
  count : ¬ Due c t history →
    (w.tokenStrikeCounts t).toNat = (failuresWith t history).length

theorem failuresWith_append_of_not {history : List Send} {send : Send}
    (h : ¬ (Counted send.result ∧ t ∈ ends send.path)) :
    failuresWith t (history ++ [send]) = failuresWith t history := by
  simp [failuresWith, h]

theorem length_failuresWith_append (history : List Send) {send : Send}
    (hcounted : Counted send.result) (ht : t ∈ ends send.path) :
    (failuresWith t (history ++ [send])).length = (failuresWith t history).length + 1 := by
  simp [failuresWith, hcounted, ht]

theorem due_append_of_not (history : List Send) {send : Send}
    (hcounted : ¬ (Counted send.result ∧ t ∈ ends send.path))
    (hinstant : ¬ (Instant send.result ∧ t ∈ ends send.path)) :
    Due c t (history ++ [send]) ↔ Due c t history := by
  unfold Due
  rw [failuresWith_append_of_not hcounted]
  simp [or_and_right, exists_or, hinstant]

theorem due_append_of_counted (history : List Send) {send : Send}
    (hcounted : Counted send.result) (hinstant : ¬ Instant send.result)
    (ht : t ∈ ends send.path) :
    Due c t (history ++ [send]) ↔ Due c t history ∨
      c.strikeThreshold.toNat ≤ (failuresWith t history).length + 1 := by
  unfold Due
  rw [length_failuresWith_append history hcounted ht]
  simp only [List.mem_append, List.mem_singleton, or_and_right, exists_or, exists_eq_left,
    hinstant, false_and, or_false]
  constructor
  · rintro (h | h)
    · exact .inl (.inl h)
    · exact .inr h
  · rintro ((h | h) | h)
    · exact .inl h
    · exact .inr (Nat.le_succ_of_le h)
    · exact .inr h

/-! ## Steps and runs -/

/-- If the round ends in a counted failure, no token of the path but a start token occurs twice
among the ends of its steps; and a failure with the instant tag is counted. -/
def StrikesOnce (keys : Keyring) (c : Config) (s : State) (i : ValidPath × Answers) : Prop :=
  ∀ send, sendOf keys c s i = some send →
    (Instant send.result → Counted send.result) ∧
      (Counted send.result → ¬ Instant send.result →
        ∀ t, t ∉ c.startTokens → (ends send.path).count t ≤ 1)

/-- The books on one token after a counted failure that is not instant. -/
theorem step_of_counted {s s' : State} {i : ValidPath × Answers} {send : Send}
    (hstep : Step keys c s i s') (hsend : sendOf keys c s i = some send)
    (hcounted : Counted send.result) (hinstant : ¬ Instant send.result)
    (hone : (ends send.path).count t ≤ 1) (ht : t ∉ c.startTokens) :
    s'.worker.tokenStrikeCounts t =
        s.worker.tokenStrikeCounts t + (if t ∈ ends send.path then 1 else 0) ∧
      (t ∈ s'.worker.blacklistedTokens ↔ t ∈ s.worker.blacklistedTokens ∨
        t ∈ ends send.path ∧ c.strikeThreshold ≤ s.worker.tokenStrikeCounts t + 1) := by
  obtain ⟨nonce, head, ⟨hnone, -⟩ | ⟨send', hsend', hpath, hworker⟩⟩ := step_sendOf hstep
  · rw [hsend] at hnone
    cases hnone
  · obtain rfl : send = send' := Option.some.inj (hsend.symm.trans hsend')
    rw [recordResult_of_counted hcounted, decide_eq_false hinstant, ← hpath] at hworker
    rw [hworker]
    by_cases hmem : t ∈ ends send.path
    · have hcount : (ends send.path).count t = 1 :=
        Nat.le_antisymm hone (List.count_pos_iff.mpr hmem)
      obtain ⟨hstrikes, hlisted⟩ := strikePath_of_count_one false ht hcount
        (s.worker.setNonceHead nonce head)
      rw [if_pos hmem, hstrikes, hlisted]
      exact ⟨rfl, or_congr_right (iff_and_self.mpr fun _ => hmem)⟩
    · obtain ⟨hstrikes, hlisted⟩ := strikePath_of_not_mem (c := c) false hmem
        (s.worker.setNonceHead nonce head)
      rw [if_neg hmem, UInt32.add_zero, hstrikes, hlisted]
      refine ⟨rfl, (or_iff_left ?_).symm⟩
      rintro ⟨h, -⟩
      exact hmem h

/-- The books on one token after any other round. -/
theorem step_of_not_counted {s s' : State} {i : ValidPath × Answers}
    (hstep : Step keys c s i s')
    (hsend : ∀ send, sendOf keys c s i = some send →
      ¬ (Counted send.result ∧ t ∈ ends send.path)) :
    s'.worker.tokenStrikeCounts t = s.worker.tokenStrikeCounts t ∧
      (t ∈ s'.worker.blacklistedTokens ↔ t ∈ s.worker.blacklistedTokens) := by
  obtain ⟨nonce, head, ⟨-, hworker⟩ | ⟨send, hsend', hpath, hworker⟩⟩ := step_sendOf hstep
  · rw [hworker]
    exact ⟨rfl, Iff.rfl⟩
  · by_cases hcounted : Counted send.result
    · rw [recordResult_of_counted hcounted, ← hpath] at hworker
      rw [hworker]
      exact strikePath_of_not_mem _ (fun hmem => hsend send hsend' ⟨hcounted, hmem⟩) _
    · rw [recordResult_of_not_counted hcounted] at hworker
      rw [hworker]
      exact ⟨rfl, Iff.rfl⟩

/-- An instant failure that is counted blacklists the tokens of its path. -/
theorem step_of_instant {s s' : State} {i : ValidPath × Answers} {send : Send}
    (hstep : Step keys c s i s') (hsend : sendOf keys c s i = some send)
    (hcounted : Counted send.result) (hinstant : Instant send.result) (ht : t ∉ c.startTokens)
    (hmem : t ∈ ends send.path) : t ∈ s'.worker.blacklistedTokens := by
  obtain ⟨nonce, head, ⟨hnone, -⟩ | ⟨send', hsend', hpath, hworker⟩⟩ := step_sendOf hstep
  · rw [hsend] at hnone
    cases hnone
  · obtain rfl : send = send' := Option.some.inj (hsend.symm.trans hsend')
    rw [recordResult_of_counted hcounted, decide_eq_true hinstant, ← hpath] at hworker
    rw [hworker]
    exact strikePath_mem_instant ht hmem _

/-- A round that strikes once keeps the tally. -/
theorem Tallied.step {history : List Send} {s s' : State} {i : ValidPath × Answers}
    (h : Tallied c t history s.worker) (ht : t ∉ c.startTokens) (hone : StrikesOnce keys c s i)
    (hstep : Step keys c s i s') :
    Tallied c t (history ++ (sendOf keys c s i).toList) s'.worker := by
  cases hsend : sendOf keys c s i with
  | none =>
    obtain ⟨hcount, hmem⟩ := step_of_not_counted (t := t) hstep (fun send h' => by
      rw [hsend] at h'
      cases h')
    rw [Option.toList_none, List.append_nil]
    exact ⟨hmem.trans h.mem, fun hdue => hcount ▸ h.count hdue⟩
  | some send =>
    obtain ⟨hinstantCounted, honce⟩ := hone send hsend
    rw [Option.toList_some]
    by_cases hboth : Counted send.result ∧ t ∈ ends send.path
    · obtain ⟨hcounted, hmem⟩ := hboth
      by_cases hinstant : Instant send.result
      · have hdue : Due c t (history ++ [send]) :=
          .inl ⟨send, by simp, hinstant, hmem⟩
        exact ⟨iff_of_true (step_of_instant hstep hsend hcounted hinstant ht hmem) hdue,
          fun hn => absurd hdue hn⟩
      · obtain ⟨hcount, hlisted⟩ := step_of_counted hstep hsend hcounted hinstant
          (honce hcounted hinstant t ht) ht
        rw [if_pos hmem] at hcount
        have hdue := due_append_of_counted (c := c) history hcounted hinstant hmem
        have hlen := length_failuresWith_append history hcounted hmem
        by_cases hbefore : Due c t history
        · exact ⟨iff_of_true (hlisted.mpr (.inl (h.mem.mpr hbefore))) (hdue.mpr (.inl hbefore)),
            fun hn => absurd (hdue.mpr (.inl hbefore)) hn⟩
        · -- below the threshold the count is exact, so one more strike cannot wrap
          have hbelow : (failuresWith t history).length < c.strikeThreshold.toNat :=
            Nat.lt_of_not_le fun hle => hbefore (.inr hle)
          have hexact := h.count hbefore
          have hnext : (s.worker.tokenStrikeCounts t + 1).toNat =
              (failuresWith t history).length + 1 := by
            have := c.strikeThreshold.toNat_lt
            rw [UInt32.toNat_add, hexact]
            simp only [UInt32.reduceToNat]
            omega
          constructor
          · rw [hlisted, hdue, h.mem, UInt32.le_iff_toNat_le, hnext]
            simp [hmem]
          · intro _
            rw [hcount, hnext, hlen]
    · have hinstant : ¬ (Instant send.result ∧ t ∈ ends send.path) := fun hi =>
        hboth ⟨hinstantCounted hi.1, hi.2⟩
      obtain ⟨hcount, hlisted⟩ := step_of_not_counted (t := t) hstep (fun send' h' => by
        obtain rfl : send = send' := Option.some.inj (hsend.symm.trans h')
        exact hboth)
      have hdue := due_append_of_not (c := c) history hboth hinstant
      refine ⟨(hlisted.trans h.mem).trans hdue.symm, fun hn => ?_⟩
      rw [hcount, failuresWith_append_of_not hboth]
      exact h.count (mt hdue.mpr hn)

theorem Tallied.run {history : List Send} {s s' : State} {is : List (ValidPath × Answers)}
    (h : Tallied c t history s.worker) (ht : t ∉ c.startTokens)
    (hrun : Run (Guarded (StrikesOnce keys c) (Step keys c)) s is s') :
    Tallied c t (history ++ sends keys c s is) s'.worker := by
  induction hrun generalizing history with
  | nil s => rwa [sends, List.append_nil]
  | cons hfirst _ ih =>
    obtain ⟨hone, hstep⟩ := hfirst
    rw [sends_cons hstep, ← List.append_assoc]
    exact ih (h.step ht hone hstep)

/-- **As long as no counted failure names a token twice, a token is blacklisted if and only if an
instant failure met it or the threshold's number of counted failures did, and each such failure
adds one strike to each token of its path.** -/
theorem blacklistedTokens_iff {count head : Option UInt64} {paths : Finset UInt64}
    {tokens : Finset Address} {s s' : State} {is : List (ValidPath × Answers)}
    (hthreshold : 0 < c.strikeThreshold) (hstart : start keys c count head paths tokens = some s)
    (hrun : Run (Guarded (StrikesOnce keys c) (Step keys c)) s is s')
    (htokens : t ∉ tokens) (ht : t ∉ c.startTokens) :
    (t ∈ s'.worker.blacklistedTokens ↔ Due c t (sends keys c s is)) ∧
      ∀ i s'' send, Guarded (StrikesOnce keys c) (Step keys c) s' i s'' →
        sendOf keys c s' i = some send → Counted send.result → ¬ Instant send.result →
        s''.worker.tokenStrikeCounts t =
          s'.worker.tokenStrikeCounts t + if t ∈ ends send.path then 1 else 0 := by
  have hnone : ¬ Due c t [] := by
    rintro (⟨send, hmem, -⟩ | hle)
    · cases hmem
    · have hpos := UInt32.lt_iff_toNat_lt.mp hthreshold
      exact absurd hle (Nat.not_le.mpr hpos)
  have hfirst : Tallied c t [] s.worker := by
    obtain ⟨nonce, -, rfl⟩ := Option.map_eq_some_iff.mp hstart
    exact ⟨iff_of_false htokens hnone, fun _ => rfl⟩
  refine ⟨(hfirst.run ht hrun).mem, ?_⟩
  intro i s'' send hstep hsend hcounted hinstant
  have hone := (hstep.1 send hsend).2 hcounted hinstant t ht
  exact (step_of_counted hstep.2 hsend hcounted hinstant hone ht).1

/-! ### A token in the middle of a path -/

/-- Two strikes blacklist; token 1 is a start token. -/
def strikeConfig : Config :=
  { sampleConfig with strikeThreshold := 2, startTokens := {1} }

/-- Out of token 1 and back through token 2. -/
def thereAndBack : ValidPath :=
  { samplePath with
    arb := ⟨⟨[⟨10, 1, 2, .uniswapV2, 30⟩, ⟨11, 2, 1, .uniswapV2, 30⟩], 5⟩, 0, 0, 0⟩ }

/-- The preflight reverts. -/
def reverting : Answers :=
  { lost with skipPreflight := false, preflight := fun _ => .answer ⟨some "boom", none, ""⟩ }

/-- What `build_and_send` makes of it. -/
def thereAndBackSend : Send :=
  ⟨thereAndBack.arb.path,
    .error ("preflight eth_call reverted: " ++ ("preflight eth_call reverted: " ++ "boom"))⟩

/-- A worker without strikes. -/
def unstruck : State := ⟨⟨0, 0, fun _ => 0, fun _ => 0, ∅, ∅⟩, 0⟩

/-- One counted failure blacklists the token in the middle, though the threshold is two. -/
theorem middle_struck_twice :
    ∃ s s', start sampleKeys strikeConfig none none ∅ ∅ = some s ∧
      Run (Step sampleKeys strikeConfig) s [(thereAndBack, reverting)] s' ∧
        (2 : Address) ∉ strikeConfig.startTokens ∧
        ¬ ((2 : Address) ∈ s'.worker.blacklistedTokens ↔
          Due strikeConfig 2 (sends sampleKeys strikeConfig s [(thereAndBack, reverting)])) := by
  refine ⟨unstruck, _, rfl, .cons rfl (.nil _), by decide, ?_⟩
  have hsends : sends sampleKeys strikeConfig unstruck [(thereAndBack, reverting)] =
      [thereAndBackSend] := rfl
  rw [hsends]
  have hinstant : ¬ Instant thereAndBackSend.result := by decide
  have hdue : ¬ Due strikeConfig 2 [thereAndBackSend] := by
    rintro (⟨send, hmem, hi, -⟩ | hle)
    · obtain rfl := List.mem_singleton.mp hmem
      exact hinstant hi
    · exact absurd (hle.trans (List.length_filter_le _ _)) (by decide)
  have hmem : (2 : Address) ∈ (strikePath strikeConfig false unstruck.worker
      thereAndBack.arb.path).blacklistedTokens := by decide
  exact fun h => hdue (h.mp hmem)

/-- The same failure on a path of one step. -/
def oneWay : ValidPath :=
  { samplePath with arb := ⟨⟨[⟨10, 1, 2, .uniswapV2, 30⟩], 5⟩, 0, 0, 0⟩ }

/-- What `build_and_send` makes of the one-step path when its preflight reverts. -/
def oneWayFailed : Send :=
  ⟨oneWay.arb.path, thereAndBackSend.result⟩

theorem step_oneWay {s : State} {a : Answers} {sent : Sent} (hhead : s.worker.cachedHead = 0)
    (ha : a.head = none)
    (hsent : buildAndSend sampleKeys strikeConfig a s.worker.nonce oneWay = some sent) :
    sendOf sampleKeys strikeConfig s (oneWay, a) = some ⟨oneWay.arb.path, sent.result⟩ ∧
      Step sampleKeys strikeConfig s (oneWay, a)
        ⟨recordResult strikeConfig (s.worker.setNonceHead sent.nonce 0) oneWay sent.result,
          s.accepted + sent.accepted⟩ := by
  have hprofit : ¬ oneWay.netProfit < strikeConfig.minSubmitProfitWei := by decide
  have hfresh : ¬ isStale strikeConfig s.worker oneWay := by
    rintro ⟨hpos, -⟩
    rw [hhead] at hpos
    exact absurd hpos (by decide)
  have hrefresh : refreshHead s.worker a = s.worker := by
    unfold refreshHead
    rw [ha]
  unfold Step round sendOf
  simp only [hprofit, if_false, hrefresh, hfresh, hsent, Option.map_some]
  refine ⟨trivial, ?_⟩
  rw [← hhead]
  rfl

theorem step_reverting {s : State} (hhead : s.worker.cachedHead = 0) :
    sendOf sampleKeys strikeConfig s (oneWay, reverting) = some oneWayFailed ∧
      Step sampleKeys strikeConfig s (oneWay, reverting)
        ⟨strikePath strikeConfig false (s.worker.setNonceHead s.worker.nonce 0) oneWay.arb.path,
          s.accepted⟩ := by
  have hcounted : Counted thereAndBackSend.result := by decide
  have hinstant : ¬ Instant thereAndBackSend.result := by decide
  have hsent : buildAndSend sampleKeys strikeConfig reverting s.worker.nonce oneWay =
      some ⟨s.worker.nonce, 0, thereAndBackSend.result⟩ := rfl
  have hstep := step_oneWay hhead rfl hsent
  rw [recordResult_of_counted hcounted, decide_eq_false hinstant] at hstep
  exact hstep

/-- The worker after one failure of the one-step path. -/
def failedOnce : State :=
  ⟨strikePath strikeConfig false unstruck.worker oneWay.arb.path, 0⟩

theorem strikesOnce_reverting {s : State} (hhead : s.worker.cachedHead = 0) :
    StrikesOnce sampleKeys strikeConfig s (oneWay, reverting) := by
  intro send hsend
  obtain rfl := Option.some.inj ((step_reverting hhead).1.symm.trans hsend)
  refine ⟨fun _ => by decide, fun _ _ t _ => ?_⟩
  have hnodup : (ends oneWay.arb.path).Nodup := by decide
  exact List.nodup_iff_count_le_one.mp hnodup t

/-- The second failure of the path reaches the threshold. -/
theorem blacklistedTokens_iff_twice :
    ∃ s', Run (Guarded (StrikesOnce sampleKeys strikeConfig) (Step sampleKeys strikeConfig))
        unstruck [(oneWay, reverting), (oneWay, reverting)] s' ∧
      (2 : Address) ∈ s'.worker.blacklistedTokens := by
  have h₁ := step_reverting (s := unstruck) rfl
  have h₂ := step_reverting (s := failedOnce) rfl
  have hfirst : Guarded (StrikesOnce sampleKeys strikeConfig) (Step sampleKeys strikeConfig)
      unstruck (oneWay, reverting) failedOnce := ⟨strikesOnce_reverting rfl, h₁.2⟩
  have hrun := Run.cons hfirst (.cons ⟨strikesOnce_reverting rfl, h₂.2⟩ (.nil _))
  have hdue : Due strikeConfig 2
      (sends sampleKeys strikeConfig unstruck [(oneWay, reverting), (oneWay, reverting)]) := by
    rw [@sends_cons _ _ unstruck failedOnce _ _ h₁.2, sends_cons h₂.2, h₁.1, h₂.1]
    right
    decide +kernel
  refine ⟨_, hrun, ?_⟩
  exact (blacklistedTokens_iff (by decide) (rfl : start sampleKeys strikeConfig none none ∅ ∅ =
    some unstruck) hrun (by decide) (by decide)).1.mpr hdue

end ArbBot.TxSender
