import ArbBot.Laws.Contracts.Slots

/-!
# What strangers can take

While the owner is not at work, the callbacks of the bot should let nobody in. Three of them check
their caller against something a stranger may control: `receiveFlashLoan` and `uniswapV2Call`
against a word of the data the caller passes, and the liquidation callbacks against the vault of a
liquidation that is still pending. A stranger who is not let in by one of these can only pay in;
one who is let in by the first can take a whole balance.
-/

namespace ArbBot.V2ArbBot

open Lib Lib.Prog

/-! ## Callers -/

/-- Callers other than the owner. The configured lenders call back only in a loan the bot has
taken out, and only its owner makes it take one out. -/
def stranger (dep : Deployment) : Callers := fun st call =>
  call.msg.sender ≠ dep.owner ∧
    match call.entry with
    | .executeOperation .. => call.msg.sender ≠ st.aavePool
    | .uniswapV3FlashCallback .. =>
      call.msg.sender ≠ st.uniV3FlashPool ∧ call.msg.sender ≠ st.pancakeV3FlashPool
    | _ => True

/-- The call passes the check of its caller: the caller names itself in its data, or is the vault
of a liquidation that is still pending. -/
def LetIn (dep : Deployment) (st : Storage) (call : Call) : Prop :=
  match call.entry with
  | .receiveFlashLoan _ _ _ data =>
    if st.liquidationPending ∨ st.morphoBlueLiqPending then call.msg.sender = st.liquidationVault
    else call.msg.sender = lenderWord data
  | .uniswapV2Call sender _ _ data => call.msg.sender = lenderWord data ∧ sender = dep.self
  | .onMorphoFlashLoan .. =>
    st.morphoLiquidationPending = true ∧ call.msg.sender = st.liquidationVault
  | _ => False

/-- Strangers who are not let in. -/
def turnedAway (dep : Deployment) : Callers := fun st call =>
  stranger dep st call ∧ ¬ LetIn dep st call

section TurnedAway

variable {answers : Answers Storage Ledger Query Query.Answer} {dep : Deployment} {msg : Msg}
  {s t : World}

theorem not_exec_paySwap {armed : Storage → Address} (harmed : armed s.1 = 0)
    {amount0Delta amount1Delta : U256} {data : Bytes} :
    ¬ Exec answers (paySwap armed msg amount0Delta amount1Delta data) s () t :=
  fun h => not_exec_require_bind (fun hslot => hslot.1 harmed) (exec_get_bind.mp h)

theorem not_exec_receiveFlashLoan {tokens : List Address} {amounts feeAmounts : List U256}
    {data : Bytes}
    (h : ¬ LetIn dep s.1 ⟨msg, .receiveFlashLoan tokens amounts feeAmounts data⟩) :
    ¬ Exec answers (receiveFlashLoan dep msg tokens amounts feeAmounts data) s () t := by
  intro hexec
  rw [receiveFlashLoan, exec_get_bind] at hexec
  simp only [LetIn] at h
  by_cases hliq : s.1.liquidationPending = true
  · rw [if_pos (.inl hliq)] at h
    rw [if_pos hliq] at hexec
    exact not_exec_require_bind h hexec
  rw [if_neg hliq] at hexec
  by_cases hmorpho : s.1.morphoBlueLiqPending = true
  · rw [if_pos (.inr hmorpho)] at h
    rw [if_pos hmorpho] at hexec
    exact not_exec_require_bind h hexec
  · rw [if_neg (by simp [hliq, hmorpho])] at h
    rw [if_neg hmorpho] at hexec
    exact not_exec_require_bind h hexec

theorem not_exec_uniswapV2Call {sender : Address} {amount0 amount1 : U256} {data : Bytes}
    (h : ¬ (msg.sender = lenderWord data ∧ sender = dep.self)) :
    ¬ Exec answers (uniswapV2Call dep msg sender amount0 amount1 data) s () t := by
  intro hexec
  obtain ⟨_, _, hlender, hrest⟩ := exec_bind.mp hexec
  exact not_exec_require_bind (fun hself => h ⟨(exec_require.mp hlender).1, hself⟩) hrest

theorem not_exec_executeOperation {asset : Address} {amount premium : U256} {initiator : Address}
    {params : Bytes} (h : msg.sender ≠ s.1.aavePool) :
    ¬ Exec answers (executeOperation dep msg asset amount premium initiator params) s () t := by
  intro hexec
  obtain ⟨_, _, hinit, hrest⟩ := exec_bind.mp hexec
  obtain ⟨-, rfl⟩ := exec_require.mp hinit
  exact not_exec_require_bind (fun hpool => h hpool.2) (exec_get_bind.mp hrest)

theorem not_exec_uniswapV3FlashCallback {fee0 fee1 : U256} {data : Bytes}
    (huni : msg.sender ≠ s.1.uniV3FlashPool) (hpancake : msg.sender ≠ s.1.pancakeV3FlashPool) :
    ¬ Exec answers (uniswapV3FlashCallback dep msg fee0 fee1 data) s () t := by
  intro hexec
  obtain ⟨⟨arb, flashPool, startToken⟩, _, hdecode, hrest⟩ := exec_bind.mp hexec
  obtain ⟨-, rfl⟩ := exec_ofOption.mp hdecode
  obtain ⟨_, _, hsender, hafter⟩ := exec_bind.mp hrest
  obtain ⟨rfl, rfl⟩ := exec_require.mp hsender
  rw [exec_get_bind] at hafter
  exact not_exec_require_bind (fun hpool => hpool.elim huni hpancake) hafter

theorem not_exec_onMorphoFlashLoan {assets : U256} {data : Bytes}
    (h : ¬ (s.1.morphoLiquidationPending = true ∧ msg.sender = s.1.liquidationVault)) :
    ¬ Exec answers (onMorphoFlashLoan dep msg assets data) s () t :=
  fun hexec => not_exec_require_bind h (exec_get_bind.mp hexec)

/-- A stranger who is not let in can complete no call but a plain payment. -/
theorem not_exec_run {entry : Entry} (hs : SlotsClear s.1)
    (h : turnedAway dep s.1 ⟨msg, entry⟩) (hentry : entry ≠ .receive) :
    ¬ Exec answers (entry.run dep msg) s () t := by
  obtain ⟨⟨howner, hlender⟩, hlet⟩ := h
  cases entry with
  | receive => exact (hentry rfl).elim
  | setAllowedFlashAsset | setAavePool | setUniV3FlashPool | setPancakeV3FlashPool | recoverToken
  | approveRouter | executeArbitrage | triggerLiquidation | triggerLiquidationWithMorpho
  | triggerMorphoBlueLiquidation | triggerLiquidationWithAave | fallback =>
    exact not_exec_require_bind howner
  | algebraSwapDirect poolAddr tokenIn amountIn =>
    intro hexec
    obtain ⟨_, _, hswap, -⟩ := exec_bind.mp hexec
    exact not_exec_require_bind howner hswap
  | receiveFlashLoan => exact not_exec_receiveFlashLoan hlet
  | onMorphoFlashLoan => exact not_exec_onMorphoFlashLoan hlet
  | uniswapV3SwapCallback | pancakeV3SwapCallback => exact not_exec_paySwap hs.v3
  | algebraSwapCallback => exact not_exec_paySwap hs.algebra
  | executeOperation => exact not_exec_executeOperation hlender
  | uniswapV3FlashCallback => exact not_exec_uniswapV3FlashCallback hlender.1 hlender.2
  | uniswapV2Call => exact not_exec_uniswapV2Call hlet

end TurnedAway

/-! ## Histories -/

/-- Nothing is lost: the storage stays, and in every token out of reach of those who draw on
allowances the balance does not fall. -/
structure Unharmed (c : Chain) (s t : World) : Prop where
  storage : t.1 = s.1
  foreign : c.Foreign s.2 t.2

section Histories

variable {c : Chain} {s t u : World}

/-- An allowance that is not raised is not granted. -/
theorem Chain.NoPull.mono {l l' : Ledger} {token : Address} (h : c.NoPull l token)
    (hle : ∀ spender, l'.allowance token spender ≤ l.allowance token spender) :
    c.NoPull l' token := by
  intro spender hspender
  have hzero := hle spender
  rw [h spender hspender] at hzero
  exact BitVec.le_zero_iff.mp hzero

theorem Chain.Foreign.noPull {l l' : Ledger} (h : c.Foreign l l') {token : Address}
    (ht : c.genuine token) (hpull : c.NoPull l token) : c.NoPull l' token :=
  hpull.mono fun spender => h.allowance token spender ht

theorem Chain.Foreign.refl (l : Ledger) : c.Foreign l l :=
  ⟨fun _ _ _ => BitVec.le_refl _, fun _ _ _ => BitVec.le_refl _⟩

theorem Chain.Foreign.trans {l l' l'' : Ledger} (h : c.Foreign l l') (h' : c.Foreign l' l'') :
    c.Foreign l l'' where
  balance token ht hpull :=
    BitVec.le_trans (h.balance token ht hpull) (h'.balance token ht (h.noPull ht hpull))
  allowance token spender ht :=
    BitVec.le_trans (h'.allowance token spender ht) (h.allowance token spender ht)

theorem Unharmed.refl (s : World) : Unharmed c s s := ⟨rfl, .refl _⟩

theorem Unharmed.trans (h : Unharmed c s t) (h' : Unharmed c t u) : Unharmed c s u :=
  ⟨h'.storage.trans h.storage, h.foreign.trans h'.foreign⟩

/-- A payment only adds. -/
theorem foreign_deposit {weth : Address} {value : U256} {l l' : Ledger}
    (h : c.Effect (.deposit weth value) l l') : c.Foreign l l' := by
  rcases h with ⟨-, hsum, rfl⟩ | ⟨-, rfl⟩
  · refine ⟨fun token _ _ => ?_, fun _ _ _ => BitVec.le_refl _⟩
    by_cases htoken : token = weth
    · subst htoken
      simp only [Ledger.credit, if_true, BitVec.le_def, BitVec.toNat_add]
      omega
    · simp [Ledger.credit, htoken]
  · exact .refl _

theorem unharmed_called {deep : World → World → Prop}
    (hdeep : ∀ s t, SlotsClear s.1 → deep s t → Unharmed c s t) {call : Call}
    (hs : SlotsClear s.1) (h : c.Called (turnedAway c.dep) deep call s t) : Unharmed c s t := by
  obtain ⟨msg, entry⟩ := call
  obtain ⟨hcall, hexec⟩ := h
  by_cases hentry : entry = .receive
  · subst hentry
    obtain ⟨-, l, heffect, hinside⟩ := exec_call.mp hexec
    have hpaid : Unharmed c s (s.1, l) := ⟨rfl, foreign_deposit heffect⟩
    exact hpaid.trans (hdeep (s.1, l) t hs hinside)
  · exact (not_exec_run hs hcall hentry hexec).elim

/-- Nothing is lost in calls nested to any depth. -/
theorem unharmed_deep : ∀ n (s t : World), SlotsClear s.1 →
    c.Deep (turnedAway c.dep) n s t → Unharmed c s t := by
  intro n
  induction n with
  | zero =>
    intro s t _ h
    induction h with
    | refl => exact .refl _
    | tail _ hstep ih => exact ih.trans ⟨hstep.1, hstep.2⟩
  | succ n ihn =>
    intro s t hs h
    induction h with
    | refl => exact .refl _
    | tail _ hstep ih =>
      refine ih.trans ?_
      rcases hstep with hsilent | ⟨call, hcalled⟩
      · exact ⟨hsilent.1, hsilent.2⟩
      · exact unharmed_called ihn (ih.storage ▸ hs) hcalled

theorem unharmed_step {event : Chain.Event} (hs : SlotsClear s.1)
    (h : c.step (turnedAway c.dep) s event t) : Unharmed c s t := by
  cases event with
  | foreign => exact ⟨h.1, h.2⟩
  | call call =>
    obtain ⟨n, hcalled⟩ := h
    exact unharmed_called (unharmed_deep n) hs hcalled

theorem unharmed_run {events : List Chain.Event} (hs : SlotsClear s.1)
    (h : Run (c.step (turnedAway c.dep)) s events t) : Unharmed c s t := by
  have hkeep : ∀ t event u, Unharmed c s t → c.step (turnedAway c.dep) t event u →
      Unharmed c s u := by
    intro t event u ht hstep
    exact ht.trans (unharmed_step (ht.storage ▸ hs) hstep)
  exact h.invariant hkeep (.refl s)

/-- **Strangers who are turned away never take anything.** Whatever the past of the bot, from the
moment its owner is no longer at work no balance falls, however deep the calls nest. -/
theorem balance_le_of_turnedAway {l : Ledger} {past events further : List Chain.Event}
    {token : Address} (hpast : Run (c.step anybody) (Storage.initial, l) past s)
    (hevents : Run (c.step (turnedAway c.dep)) s events t)
    (hfurther : Run (c.step (turnedAway c.dep)) t further u) (htoken : c.genuine token)
    (hpull : c.NoPull s.2 token) : t.2.balance token ≤ u.2.balance token := by
  have hs : SlotsClear s.1 := slotsClear_of_run hpast slotsClear_initial
  have hbefore := unharmed_run hs hevents
  have hafter := unharmed_run (hbefore.storage ▸ hs) hfurther
  exact hafter.foreign.balance token htoken (hbefore.foreign.noPull htoken hpull)

end Histories

/-- A bot whose main currency is the only token, among accounts that draw on no allowance. -/
def oneToken : Chain where
  dep := { self := 1, owner := 2, mainCurrency := 3 }
  genuine := fun token => token = 3
  puller := fun _ => False

/-- A thousand units of the token. -/
def funds : Ledger where
  balance := fun token => if token = 3 then 1000 else 0
  allowance := fun _ _ => 0

/-- A stranger pays five units in. -/
theorem balance_le_of_turnedAway_payment :
    funds.balance 3 ≤ (funds.credit 3 5).balance 3 := by
  have hcall : turnedAway oneToken.dep Storage.initial ⟨⟨4, 5, 0⟩, .receive⟩ :=
    ⟨⟨by decide, trivial⟩, id⟩
  have hpaid : oneToken.step (turnedAway oneToken.dep) (Storage.initial, funds)
      (.call ⟨⟨4, 5, 0⟩, .receive⟩) (Storage.initial, funds.credit 3 5) :=
    ⟨0, hcall, exec_call.mpr ⟨trivial, _, .inl ⟨rfl, by decide, rfl⟩, .refl⟩⟩
  exact balance_le_of_turnedAway (c := oneToken) (.nil _) (.nil _) (.cons hpaid (.nil _)) rfl
    fun _ h => h.elim

/-! ## The open door -/

/-- The repayment of a loan that nobody made: its data name the caller as the vault, and their
last words ask for no swap and no profit. -/
def unmadeLoan (thief token : Address) (amount : U256) : Call where
  msg := { sender := thief, value := 0, timestamp := 0 }
  entry := .receiveFlashLoan [token] [amount] [0] (Bytes.ofWords [0, 0, thief.toWord, 0])

section OpenDoor

variable {answers : Answers Storage Ledger Query Query.Answer} {c : Chain} {callers : Callers}
  {s t : World} {thief token : Address}

theorem lenderWord_ofWords (w₀ w₁ w₃ : U256) (lender : Address) :
    lenderWord (Bytes.ofWords [w₀, w₁, lender.toWord, w₃]) = lender := by
  have hword : (Bytes.ofWords [w₀, w₁, lender.toWord, w₃]).wordAt 0x40 = lender.toWord :=
    Bytes.wordAt_ofWords (i := 2) rfl
  rw [lenderWord, hword, U256.toAddress_toWord]

theorem exec_execute_noHops {dep : Deployment} {data : Bytes} (hcount : packedHopCount data = 0)
    (hmin : data.wordAt 0x60 = 0) : Exec answers (execute dep data) s (data.wordAt 0) s := by
  rw [execute, hcount]
  refine exec_bind.mpr ⟨data.wordAt 0, s, exec_pure.mpr ⟨rfl, rfl⟩, ?_⟩
  refine exec_bind.mpr ⟨(), s, exec_require.mpr ⟨fun hpos => ?_, rfl⟩, exec_pure.mpr ⟨rfl, rfl⟩⟩
  rw [hmin] at hpos
  exact absurd hpos (by decide)

/-- An arbitrage of no hops repays its caller. -/
theorem exec_receiveFlashLoan_noHops {dep : Deployment} {msg : Msg} {data : Bytes}
    {amount fee sum : U256} (hliq : s.1.liquidationPending = false)
    (hmorpho : s.1.morphoBlueLiqPending = false) (hvault : msg.sender = lenderWord data)
    (hcount : packedHopCount data = 0) (hmin : data.wordAt 0x60 = 0)
    (hsum : checkedAdd amount fee = some sum)
    (hpaid : answers s (.transfer token msg.sender sum) () t) :
    Exec answers (receiveFlashLoan dep msg [token] [amount] [fee] data) s () t := by
  rw [receiveFlashLoan, exec_get_bind, if_neg (by simp [hliq]), if_neg (by simp [hmorpho]),
    receiveArbLoan, ← hvault]
  refine exec_bind.mpr ⟨(), s, exec_require.mpr ⟨rfl, rfl⟩, ?_⟩
  refine exec_bind.mpr ⟨token, s, exec_ofOption.mpr ⟨rfl, rfl⟩, ?_⟩
  refine exec_bind.mpr ⟨amount, s, exec_ofOption.mpr ⟨rfl, rfl⟩, ?_⟩
  refine exec_bind.mpr ⟨data.wordAt 0, s, exec_execute_noHops hcount hmin, ?_⟩
  refine exec_bind.mpr ⟨fee, s, exec_ofOption.mpr ⟨rfl, rfl⟩, ?_⟩
  exact exec_bind.mpr ⟨sum, s, exec_ofOption.mpr ⟨hsum, rfl⟩, exec_call.mpr hpaid⟩

/-- **Anybody takes what they like.** While no liquidation is pending, any account but the bot
itself makes it repay a loan that nobody made, up to its whole balance. -/
theorem step_unmadeLoan (hliq : s.1.liquidationPending = false)
    (hmorpho : s.1.morphoBlueLiqPending = false) (hthief : thief ≠ c.dep.self)
    (htoken : c.genuine token) {amount : U256} (hamount : amount ≤ s.2.balance token)
    (hcall : callers s.1 (unmadeLoan thief token amount)) :
    c.step callers s (.call (unmadeLoan thief token amount))
      (s.1, s.2.debit token amount) := by
  have hvault : thief = lenderWord (Bytes.ofWords [0, 0, thief.toWord, 0]) :=
    (lenderWord_ofWords 0 0 0 thief).symm
  have hcount : packedHopCount (Bytes.ofWords [0, 0, thief.toWord, 0]) = 0 := by
    simp [packedHopCount]
  have hmin : (Bytes.ofWords [0, 0, thief.toWord, 0]).wordAt 0x60 = 0 :=
    Bytes.wordAt_ofWords (i := 3) rfl
  have hsum : checkedAdd amount 0 = some amount := checkedAdd_eq_some.mpr rfl
  refine ⟨0, hcall, exec_receiveFlashLoan_noHops hliq hmorpho hvault hcount hmin hsum ?_⟩
  exact ⟨trivial, _, .inl ⟨htoken, hamount, (if_neg hthief).symm⟩, .refl⟩

end OpenDoor

/-- **Strangers do take balances**: the first call that a bot with a thousand units receives can
leave it with nothing. -/
theorem not_balance_le_of_stranger :
    ¬ ∀ (c : Chain) (l : Ledger) (past events further : List Chain.Event) (s t u : World)
      (token : Address), Run (c.step anybody) (Storage.initial, l) past s →
      Run (c.step (stranger c.dep)) s events t → Run (c.step (stranger c.dep)) t further u →
      c.genuine token → c.NoPull s.2 token → t.2.balance token ≤ u.2.balance token := by
  intro h
  have hcall : stranger oneToken.dep Storage.initial (unmadeLoan 4 3 1000) := ⟨by decide, trivial⟩
  have htaken : oneToken.step (stranger oneToken.dep) (Storage.initial, funds)
      (.call (unmadeLoan 4 3 1000)) (Storage.initial, funds.debit 3 1000) :=
    step_unmadeLoan rfl rfl (by decide) rfl (by decide) hcall
  have hkept := h oneToken funds [] [] _ _ _ _ 3 (.nil _) (.nil _) (.cons htaken (.nil _)) rfl
    fun _ hpuller => hpuller.elim
  exact absurd hkept (by decide)

end ArbBot.V2ArbBot
