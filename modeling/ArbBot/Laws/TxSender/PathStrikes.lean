import ArbBot.Laws.TxSender.TokenStrikes

/-!
# The strikes of paths

The count of a path is advanced by every counted failure and reset by nothing, so failures add up
over any number of submissions in between. As long as a path that has strikes is sent with no other
outcome than a counted failure, the count is the length of its last row of failures, and a path is
blacklisted only after the threshold's number of them in a row, or after an instant failure.
-/

namespace ArbBot.TxSender

open Lib

variable {keys : Keyring} {c : Config} {h : UInt64}

/-- The results of the sends of one path, in order. -/
def resultsOf (h : UInt64) (history : List Send) : List (Except String String) :=
  (history.filter fun send => decide (send.path.hash = h)).map (·.result)

/-- The last `n` sends of the path were counted failures. -/
def LastCounted (h : UInt64) (n : Nat) (history : List Send) : Prop :=
  ∃ row, row <:+ resultsOf h history ∧ row.length = n ∧ ∀ result ∈ row, Counted result

/-- A path may be blacklisted: after the threshold's number of failures in a row, or after an
instant failure. -/
def PathDue (c : Config) (h : UInt64) (history : List Send) : Prop :=
  LastCounted h c.strikeThreshold.toNat history ∨ ∃ result ∈ resultsOf h history, Instant result

theorem resultsOf_append_of_ne {history : List Send} {send : Send} (hne : send.path.hash ≠ h) :
    resultsOf h (history ++ [send]) = resultsOf h history := by
  simp [resultsOf, hne]

theorem resultsOf_append_self {history : List Send} {send : Send} :
    resultsOf send.path.hash (history ++ [send]) =
      resultsOf send.path.hash history ++ [send.result] := by
  simp [resultsOf]

/-- A longer row ends in a shorter one. -/
theorem LastCounted.shorter {n m : Nat} {history : List Send} (hrow : LastCounted h n history)
    (hle : m ≤ n) : LastCounted h m history := by
  obtain ⟨row, hsuffix, hlen, hall⟩ := hrow
  refine ⟨row.drop (n - m), (List.drop_suffix _ _).trans hsuffix, ?_, ?_⟩
  · rw [List.length_drop, hlen]
    omega
  · exact fun result hmem => hall result (List.mem_of_mem_drop hmem)

theorem LastCounted.append {n : Nat} {history : List Send} {send : Send}
    (hrow : LastCounted send.path.hash n history) (hcounted : Counted send.result) :
    LastCounted send.path.hash (n + 1) (history ++ [send]) := by
  obtain ⟨row, ⟨before, hsuffix⟩, hlen, hall⟩ := hrow
  refine ⟨row ++ [send.result], ⟨before, ?_⟩, ?_, ?_⟩
  · rw [resultsOf_append_self, ← hsuffix, List.append_assoc]
  · rw [List.length_append, hlen, List.length_singleton]
  · intro result hmem
    rcases List.mem_append.mp hmem with hmem | hmem
    · exact hall result hmem
    · obtain rfl := List.mem_singleton.mp hmem
      exact hcounted

/-! ## One path -/

section StrikePath

variable {instant : Bool} {w : Worker} {path : SwapPath}

@[simp] theorem strikeToken_strikeCounts (token : Address) :
    (strikeToken c instant w token).strikeCounts = w.strikeCounts := by
  unfold strikeToken
  split <;> rfl

@[simp] theorem strikeToken_blacklistedPaths (token : Address) :
    (strikeToken c instant w token).blacklistedPaths = w.blacklistedPaths := by
  unfold strikeToken
  split <;> rfl

theorem strikeTokens_paths (tokens : List Address) (w : Worker) :
    (tokens.foldl (strikeToken c instant) w).strikeCounts = w.strikeCounts ∧
      (tokens.foldl (strikeToken c instant) w).blacklistedPaths = w.blacklistedPaths := by
  induction tokens generalizing w with
  | nil => exact ⟨rfl, rfl⟩
  | cons token tokens ih =>
    rw [List.foldl_cons]
    simpa using ih (strikeToken c instant w token)

theorem strikePath_strikeCounts :
    (strikePath c instant w path).strikeCounts h =
      if h = path.hash then strike c instant (w.strikeCounts path.hash)
      else w.strikeCounts h :=
  congrFun (strikeTokens_paths _ _).1 h

theorem strikePath_mem :
    h ∈ (strikePath c instant w path).blacklistedPaths ↔ h ∈ w.blacklistedPaths ∨
      h = path.hash ∧ c.strikeThreshold ≤ strike c instant (w.strikeCounts path.hash) := by
  unfold strikePath
  rw [(strikeTokens_paths _ _).2]
  dsimp only
  split
  · rename_i hle
    simp [hle, or_comm]
  · rename_i hlt
    simp [hlt]

end StrikePath

/-! ## Steps and runs -/

/-- The worker's books on a path that is not blacklisted: unless it met an instant failure, its
count is below the threshold and is the length of a row of failures at the end of its sends. -/
def InRow (c : Config) (h : UInt64) (history : List Send) (w : Worker) : Prop :=
  h ∉ w.blacklistedPaths → (∃ result ∈ resultsOf h history, Instant result) ∨
    (w.strikeCounts h = 0 ∨ w.strikeCounts h < c.strikeThreshold) ∧
      LastCounted h (w.strikeCounts h).toNat history

/-- If the round sends a path that has strikes and is not blacklisted, it ends in a counted
failure. -/
def FailsAgain (keys : Keyring) (c : Config) (s : State) (i : ValidPath × Answers) : Prop :=
  ∀ send, sendOf keys c s i = some send → s.worker.strikeCounts send.path.hash ≠ 0 →
    send.path.hash ∉ s.worker.blacklistedPaths → Counted send.result

theorem mem_resultsOf_append {history : List Send} {send : Send} {result : Except String String}
    (hmem : result ∈ resultsOf h history) : result ∈ resultsOf h (history ++ [send]) := by
  unfold resultsOf at hmem ⊢
  rw [List.filter_append, List.map_append]
  exact List.mem_append_left _ hmem

/-- What is not sent and not struck keeps its books. -/
theorem InRow.of_same {history history' : List Send} {w w' : Worker} (hrow : InRow c h history w)
    (hmem : h ∈ w'.blacklistedPaths ↔ h ∈ w.blacklistedPaths)
    (hcount : w'.strikeCounts h = w.strikeCounts h)
    (hresults : resultsOf h history' = resultsOf h history) : InRow c h history' w' := by
  intro hnot
  have hbefore := hrow (mt hmem.mpr hnot)
  rw [hresults, hcount]
  unfold LastCounted at hbefore ⊢
  rw [hresults]
  exact hbefore

/-- One more counted failure of a path that is not yet blacklisted. -/
theorem InRow.count {history : List Send} {send : Send} {w : Worker}
    (hbelow : w.strikeCounts send.path.hash = 0 ∨
      w.strikeCounts send.path.hash < c.strikeThreshold)
    (hlast : LastCounted send.path.hash (w.strikeCounts send.path.hash).toNat history)
    (hcounted : Counted send.result) :
    LastCounted send.path.hash (w.strikeCounts send.path.hash + 1).toNat (history ++ [send]) := by
  have hnext : (w.strikeCounts send.path.hash + 1).toNat =
      (w.strikeCounts send.path.hash).toNat + 1 := by
    have hlt : (w.strikeCounts send.path.hash).toNat + 1 < 2 ^ 32 := by
      rcases hbelow with hzero | hbelow
      · rw [hzero]
        decide
      · have hle := UInt32.lt_iff_toNat_lt.mp hbelow
        have hmax := c.strikeThreshold.toNat_lt
        omega
    rw [UInt32.toNat_add]
    exact Nat.mod_eq_of_lt hlt
  rw [hnext]
  exact hlast.append hcounted

/-- What a record must keep of the books on a path, and when it may blacklist it. -/
def Kept (c : Config) (h : UInt64) (history : List Send) (w w' : Worker) : Prop :=
  InRow c h history w' ∧
    (h ∉ w.blacklistedPaths → h ∈ w'.blacklistedPaths → PathDue c h history)

theorem Kept.of_same {history history' : List Send} {w w' : Worker} (hrow : InRow c h history w)
    (hmem : h ∈ w'.blacklistedPaths ↔ h ∈ w.blacklistedPaths)
    (hcount : w'.strikeCounts h = w.strikeCounts h)
    (hresults : resultsOf h history' = resultsOf h history) : Kept c h history' w w' :=
  ⟨hrow.of_same hmem hcount hresults, fun hnot hin => absurd (hmem.mp hin) hnot⟩

/-- An instant failure answers for itself. -/
theorem Kept.of_instant {history : List Send} {send : Send} {w w' : Worker}
    (hinstant : Instant send.result) :
    Kept c send.path.hash (history ++ [send]) w w' := by
  have hmet : ∃ result ∈ resultsOf send.path.hash (history ++ [send]), Instant result := by
    refine ⟨send.result, ?_, hinstant⟩
    rw [resultsOf_append_self]
    exact List.mem_append_right _ (List.mem_singleton.mpr rfl)
  exact ⟨fun _ => .inl hmet, fun _ _ => .inr hmet⟩

/-- A counted failure that is not instant is one more strike. -/
theorem Kept.of_counted {history : List Send} {send : Send} {w : Worker}
    (hrow : InRow c send.path.hash history w) (hcounted : Counted send.result) :
    Kept c send.path.hash (history ++ [send]) w (strikePath c false w send.path) := by
  have hbooks : send.path.hash ∉ w.blacklistedPaths →
      (∃ result ∈ resultsOf send.path.hash (history ++ [send]), Instant result) ∨
        LastCounted send.path.hash (w.strikeCounts send.path.hash + 1).toNat
          (history ++ [send]) := by
    intro hnot
    rcases hrow hnot with ⟨result, hmem, hmet⟩ | ⟨hbelow, hlast⟩
    · exact .inl ⟨result, mem_resultsOf_append hmem, hmet⟩
    · exact .inr (InRow.count hbelow hlast hcounted)
  constructor
  · intro hnot
    rw [strikePath_mem, not_or] at hnot
    obtain ⟨hbefore, hthreshold⟩ := hnot
    rcases hbooks hbefore with hmet | hlast
    · exact .inl hmet
    · refine .inr ⟨.inr ?_, ?_⟩
      · rw [strikePath_strikeCounts, if_pos rfl]
        exact UInt32.not_le.mp fun hle => hthreshold ⟨rfl, hle⟩
      · rw [strikePath_strikeCounts, if_pos rfl]
        exact hlast
  · intro hbefore hmem
    have hle := ((strikePath_mem.mp hmem).resolve_left hbefore).2
    rcases hbooks hbefore with hmet | hlast
    · exact .inr hmet
    · exact .inl (hlast.shorter (UInt32.le_iff_toNat_le.mp hle))

/-- A round that meets the condition keeps the books of every path, and blacklists a path only
when that is due. -/
theorem InRow.step {history : List Send} {s s' : State} {i : ValidPath × Answers}
    (hrow : InRow c h history s.worker) (hagain : FailsAgain keys c s i)
    (hstep : Step keys c s i s') :
    Kept c h (history ++ (sendOf keys c s i).toList) s.worker s'.worker := by
  obtain ⟨nonce, head, ⟨hnone, hworker⟩ | ⟨send, hsend, hpath, hworker⟩⟩ := step_sendOf hstep
  · rw [hnone, Option.toList_none, List.append_nil, hworker]
    exact .of_same hrow Iff.rfl rfl rfl
  · have hrow' : InRow c h history (s.worker.setNonceHead nonce head) := hrow
    rw [hsend, Option.toList_some]
    by_cases hcounted : Counted send.result
    · rw [recordResult_of_counted hcounted, ← hpath] at hworker
      rw [hworker]
      by_cases hhash : send.path.hash = h
      · subst hhash
        by_cases hinstant : Instant send.result
        · exact .of_instant hinstant
        · rw [decide_eq_false hinstant]
          exact Kept.of_counted hrow' hcounted
      · refine .of_same hrow ?_ ?_ (resultsOf_append_of_ne hhash)
        · rw [strikePath_mem]
          exact or_iff_left fun he => hhash he.1.symm
        · rw [strikePath_strikeCounts, if_neg (Ne.symm hhash)]
          rfl
    · rw [recordResult_of_not_counted hcounted] at hworker
      rw [hworker]
      by_cases hhash : send.path.hash = h
      · subst hhash
        refine ⟨fun hnot => ?_, fun hnot hmem => absurd hmem hnot⟩
        -- what is not counted meets a path without strikes, and an empty row is a row
        have hzero : s.worker.strikeCounts send.path.hash = 0 := by
          by_contra hne
          exact hcounted (hagain send hsend hne hnot)
        refine .inr ⟨.inl hzero, [], List.nil_suffix, ?_, fun _ hmem => ?_⟩
        · exact (congrArg UInt32.toNat hzero).symm
        · cases hmem
      · exact .of_same hrow Iff.rfl rfl (resultsOf_append_of_ne hhash)

theorem InRow.run {history : List Send} {s s' : State} {is : List (ValidPath × Answers)}
    (hrow : InRow c h history s.worker)
    (hrun : Run (Guarded (FailsAgain keys c) (Step keys c)) s is s') :
    InRow c h (history ++ sends keys c s is) s'.worker := by
  induction hrun generalizing history with
  | nil s => rwa [sends, List.append_nil]
  | cons hfirst _ ih =>
    obtain ⟨hagain, hstep⟩ := hfirst
    rw [sends_cons hstep, ← List.append_assoc]
    exact ih (hrow.step hagain hstep).1

theorem inRow_start {count head : Option UInt64} {paths : Finset UInt64} {tokens : Finset Address}
    {s : State} (hstart : start keys c count head paths tokens = some s) :
    InRow c h [] s.worker := by
  obtain ⟨nonce, -, rfl⟩ := Option.map_eq_some_iff.mp hstart
  intro _
  refine .inr ⟨.inl rfl, [], List.nil_suffix, rfl, fun _ hmem => ?_⟩
  cases hmem

/-- **As long as a path that has strikes and is not blacklisted is sent with no other outcome than
a counted failure, a path enters the blacklist only after the threshold's number of counted
failures in a row, or after an instant failure.** -/
theorem blacklistedPaths_due {count head : Option UInt64} {paths : Finset UInt64}
    {tokens : Finset Address} {s s' s'' : State} {is : List (ValidPath × Answers)}
    {i : ValidPath × Answers} (hstart : start keys c count head paths tokens = some s)
    (hrun : Run (Guarded (FailsAgain keys c) (Step keys c)) s is s')
    (hstep : Guarded (FailsAgain keys c) (Step keys c) s' i s'')
    (hbefore : h ∉ s'.worker.blacklistedPaths) (hafter : h ∈ s''.worker.blacklistedPaths) :
    PathDue c h (sends keys c s (is ++ [i])) := by
  have hbooks : InRow c h (sends keys c s is) s'.worker := by
    simpa using (inRow_start hstart).run hrun
  rw [sends_append hrun.unguard, sends_cons hstep.2, sends, List.append_nil]
  exact (hbooks.step hstep.1 hstep.2).2 hbefore hafter

/-! ### Isolated failures -/

theorem step_landed {s : State} (hhead : s.worker.cachedHead = 0) :
    sendOf sampleKeys strikeConfig s (oneWay, landed) = some ⟨oneWay.arb.path, .ok "0xabc"⟩ ∧
      Step sampleKeys strikeConfig s (oneWay, landed)
        ⟨s.worker.setNonceHead (s.worker.nonce + 1) 0, s.accepted + 1⟩ := by
  have hsent : buildAndSend sampleKeys strikeConfig landed s.worker.nonce oneWay =
      some ⟨s.worker.nonce + 1, 1, .ok "0xabc"⟩ := rfl
  exact step_oneWay hhead rfl hsent

/-- The worker after a submission of the path that has failed once. -/
def thenSubmitted : State :=
  ⟨failedOnce.worker.setNonceHead 1 0, 1⟩

/-- One isolated failure before, one after a successful submission: the second one blacklists the
path, though the threshold is two and no two of its sends failed in a row. -/
theorem isolated_failures_blacklist :
    ∃ s s' s'', start sampleKeys strikeConfig none none ∅ ∅ = some s ∧
      Run (Step sampleKeys strikeConfig) s [(oneWay, reverting), (oneWay, landed)] s' ∧
        Step sampleKeys strikeConfig s' (oneWay, reverting) s'' ∧
        (5 : UInt64) ∉ s'.worker.blacklistedPaths ∧ (5 : UInt64) ∈ s''.worker.blacklistedPaths ∧
        ¬ PathDue strikeConfig 5 (sends sampleKeys strikeConfig s
          ([(oneWay, reverting), (oneWay, landed)] ++ [(oneWay, reverting)])) := by
  have h₁ : Step sampleKeys strikeConfig unstruck (oneWay, reverting) failedOnce :=
    (step_reverting rfl).2
  have h₂ : Step sampleKeys strikeConfig failedOnce (oneWay, landed) thenSubmitted :=
    (step_landed rfl).2
  have h₃ := (step_reverting (s := thenSubmitted) rfl).2
  have hrun := Run.cons h₁ (.cons h₂ (.nil _))
  refine ⟨unstruck, thenSubmitted, _, rfl, hrun, h₃, ?_, ?_, ?_⟩
  · decide
  · decide
  · have hsends : sends sampleKeys strikeConfig unstruck
        ([(oneWay, reverting), (oneWay, landed)] ++ [(oneWay, reverting)]) =
          [oneWayFailed, ⟨oneWay.arb.path, .ok "0xabc"⟩, oneWayFailed] := by
      rw [sends_append hrun, sends_cons h₁, sends_cons h₂, sends_cons h₃,
        (step_reverting rfl).1, (step_landed rfl).1, (step_reverting rfl).1]
      rfl
    have hresults : resultsOf 5 [oneWayFailed, ⟨oneWay.arb.path, .ok "0xabc"⟩, oneWayFailed] =
        [oneWayFailed.result, .ok "0xabc", oneWayFailed.result] := rfl
    have hinstant : ¬ Instant oneWayFailed.result := by decide
    rw [hsends]
    unfold PathDue LastCounted
    rw [hresults]
    rintro (⟨row, hsuffix, hlen, hall⟩ | ⟨result, hmem, hmet⟩)
    · rw [List.suffix_iff_eq_drop, hlen] at hsuffix
      rw [hsuffix] at hall
      exact hall (.ok "0xabc") (List.mem_cons_self ..)
    · simp only [List.mem_cons, List.not_mem_nil, or_false] at hmem
      rcases hmem with rfl | rfl | rfl
      · exact hinstant hmet
      · exact hmet
      · exact hinstant hmet

theorem failsAgain_reverting {s : State} (hhead : s.worker.cachedHead = 0) :
    FailsAgain sampleKeys strikeConfig s (oneWay, reverting) := by
  intro send hsend _ _
  obtain rfl := Option.some.inj ((step_reverting hhead).1.symm.trans hsend)
  have hcounted : Counted oneWayFailed.result := by decide
  exact hcounted

/-- Two failures in a row. -/
theorem blacklistedPaths_due_twice :
    PathDue strikeConfig 5 (sends sampleKeys strikeConfig unstruck
      ([(oneWay, reverting)] ++ [(oneWay, reverting)])) := by
  have h₁ := step_reverting (s := unstruck) rfl
  have h₂ := step_reverting (s := failedOnce) rfl
  exact blacklistedPaths_due (rfl : start sampleKeys strikeConfig none none ∅ ∅ = some unstruck)
    (.cons ⟨failsAgain_reverting rfl, h₁.2⟩ (.nil _)) ⟨failsAgain_reverting rfl, h₂.2⟩
    (by decide) (by decide)

end ArbBot.TxSender
