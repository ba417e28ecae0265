import ArbBot.Contracts.Lenders
import ArbBot.Laws.Contracts.Strangers

/-!
# No authorisation outlives its transaction

Where lenders call back, every flag that a call sets is cleared before the call completes. The
relation that carries this through nested calls says which flags may still be set at the end of a
call: those that were set before, and the one of a Morpho Blue liquidation in place of the plain one
that its callback cleared, as both are served by the same function. The addresses stand only as long
as a flag they belong to.
-/

namespace ArbBot.V2ArbBot

open Lib Lib.Prog

/-- Every address belongs to a liquidation that is pending. -/
structure Owned (st : Storage) : Prop where
  vault : st.liquidationVault ≠ 0 →
    st.liquidationPending ∨ st.morphoLiquidationPending ∨ st.morphoBlueLiqPending
  swapVault : st.pendingSwapVault ≠ 0 → st.morphoLiquidationPending ∨ st.morphoBlueLiqPending
  aaveSwapVault : st.pendingAaveLiqSwapVault ≠ 0 → st.aaveLiquidationPending
  morphoBlueAddr : st.morphoBlueAddr ≠ 0 → st.morphoBlueLiqPending

/-- What a call may leave pending. -/
structure Settles (s t : World) : Prop where
  liquidation : t.1.liquidationPending → s.1.liquidationPending
  morpho : t.1.morphoLiquidationPending → s.1.morphoLiquidationPending
  aave : t.1.aaveLiquidationPending → s.1.aaveLiquidationPending
  morphoBlue : t.1.morphoBlueLiqPending →
    s.1.morphoBlueLiqPending ∨ s.1.liquidationPending ∧ ¬ t.1.liquidationPending
  owned : Owned s.1 → Owned t.1

namespace Settles

variable {s t u : World}

theorem refl (s : World) : Settles s s := ⟨id, id, id, .inl, id⟩

theorem trans (h : Settles s t) (h' : Settles t u) : Settles s u where
  liquidation := h.liquidation ∘ h'.liquidation
  morpho := h.morpho ∘ h'.morpho
  aave := h.aave ∘ h'.aave
  morphoBlue := by
    intro hu
    rcases h'.morphoBlue hu with ht | ⟨ht, hcleared⟩
    · rcases h.morphoBlue ht with hs | ⟨hs, hcleared⟩
      · exact .inl hs
      · exact .inr ⟨hs, fun hpending => hcleared (h'.liquidation hpending)⟩
    · exact .inr ⟨h.liquidation ht, hcleared⟩
  owned := h'.owned ∘ h.owned

/-- The account of the bot plays no part. -/
theorem of_ledger {l : Ledger} (h : Settles (s.1, l) t) : Settles s t :=
  ⟨h.liquidation, h.morpho, h.aave, h.morphoBlue, h.owned⟩

/-- With no plain liquidation pending, nothing that a vault serves becomes pending. -/
theorem served (h : Settles s t) (hs : ¬ s.1.liquidationPending) :
    ¬ t.1.liquidationPending ∧ (t.1.morphoBlueLiqPending → s.1.morphoBlueLiqPending) := by
  refine ⟨fun hpending => hs (h.liquidation hpending), fun hpending => ?_⟩
  rcases h.morphoBlue hpending with hbefore | ⟨hliq, -⟩
  · exact hbefore
  · exact (hs hliq).elim

/-- A change of nothing that is pending. -/
theorem of_storage (h : t.1 = s.1) : Settles s t := by
  obtain ⟨st, l⟩ := s
  obtain ⟨st', l'⟩ := t
  obtain rfl : st' = st := h
  exact ⟨id, id, id, .inl, id⟩

end Settles

/-! ## Bodies -/

/-- What a completed loan of each lender has cleared. A vault serves two kinds of liquidation with
one callback, which clears the plain one first. -/
structure Serves (answers : Answers Storage Ledger Query Query.Answer) : Prop where
  vault : ∀ {s t : World} {vault recipient tokens amounts data},
    answers s (.vaultFlashLoan vault recipient tokens amounts data) () t →
    ¬ t.1.liquidationPending ∧
      (t.1.morphoBlueLiqPending → s.1.morphoBlueLiqPending ∧ s.1.liquidationPending)
  morpho : ∀ {s t : World} {morpho token assets data},
    answers s (.morphoFlashLoan morpho token assets data) () t → ¬ t.1.morphoLiquidationPending
  aave : ∀ {s t : World} {pool receiver asset amount data},
    answers s (.flashLoanSimple pool receiver asset amount data) () t →
    ¬ t.1.aaveLiquidationPending

section Bodies

variable {answers : Answers Storage Ledger Query Query.Answer} {dep : Deployment} {msg : Msg}
  {s t : World}

/-- What the answers settle, the bodies settle: a swap arms flags of its own. -/
theorem settles_callFrame (h : ∀ s q a t, answers s q a t → Settles s t) :
    CallFrame dep answers Settles where
  refl := Settles.refl
  trans := Settles.trans
  answer := h
  v3Swap := keeps_swapPool ⟨.refl, .trans, h⟩ fun _ =>
    keeps_update fun _ _ => ⟨id, id, id, .inl, fun h => ⟨h.1, h.2, h.3, h.4⟩⟩
  algebraSwap := keeps_swapPool ⟨.refl, .trans, h⟩ fun _ =>
    keeps_update fun _ _ => ⟨id, id, id, .inl, fun h => ⟨h.1, h.2, h.3, h.4⟩⟩
  configure _ _ _ _ _ := ⟨id, id, id, .inl, fun h => ⟨h.1, h.2, h.3, h.4⟩⟩
  clearLiquidation _ :=
    ⟨nofun, id, id, .inl, fun h => ⟨fun hne => (hne rfl).elim, h.2, h.3, h.4⟩⟩
  clearMorphoBlue _ :=
    ⟨id, id, id, nofun, fun h =>
      ⟨fun hne => (hne rfl).elim, fun hne => (hne rfl).elim, h.3, fun hne => (hne rfl).elim⟩⟩
  clearMorpho _ :=
    ⟨id, nofun, id, .inl, fun h =>
      ⟨fun hne => (hne rfl).elim, fun hne => (hne rfl).elim, h.3, h.4⟩⟩
  clearAave _ :=
    ⟨id, id, nofun, .inl, fun h => ⟨h.1, h.2, fun hne => (hne rfl).elim, h.4⟩⟩

variable (F : CallFrame dep answers Settles)

include F

/-- The callback of a vault clears the flag it finds, the plain liquidation first. -/
theorem receiveFlashLoan_clears {tokens : List Address} {amounts feeAmounts : List U256}
    {data : Bytes}
    (h : Exec answers (receiveFlashLoan dep msg tokens amounts feeAmounts data) s () t) :
    ¬ t.1.liquidationPending ∧
      (t.1.morphoBlueLiqPending → s.1.morphoBlueLiqPending ∧ s.1.liquidationPending) := by
  rw [receiveFlashLoan, exec_get_bind] at h
  by_cases hliq : s.1.liquidationPending = true
  · rw [if_pos hliq] at h
    simp only [exec_bind, exec_require, exec_update, exec_ofOption] at h
    obtain ⟨_, _, ⟨-, rfl⟩, _, u, rfl, _, _, ⟨-, rfl⟩, _, _, ⟨-, rfl⟩, _, _, ⟨-, rfl⟩, hrest⟩ := h
    have hsettled : Settles _ t := F.executeLiquidationFlashLoan _ _ _ _ _ _ _ hrest
    obtain ⟨hcleared, hkept⟩ := hsettled.served Bool.false_ne_true
    exact ⟨hcleared, fun hpending => ⟨hkept hpending, hliq⟩⟩
  rw [if_neg hliq] at h
  by_cases hmorphoBlue : s.1.morphoBlueLiqPending = true
  · rw [if_pos hmorphoBlue] at h
    simp only [exec_bind, exec_require, exec_update, exec_ofOption] at h
    obtain ⟨_, _, ⟨-, rfl⟩, _, u, rfl, _, _, ⟨-, rfl⟩, _, _, ⟨-, rfl⟩, _, _, ⟨-, rfl⟩, hrest⟩ := h
    have hsettled : Settles _ t := F.executeMorphoBlueLiqCore _ _ _ _ _ _ _ _ hrest
    obtain ⟨hcleared, hkept⟩ := hsettled.served hliq
    exact ⟨hcleared, fun hpending => absurd (hkept hpending) Bool.false_ne_true⟩
  · rw [if_neg hmorphoBlue] at h
    have hsettled : Settles s t := F.receiveArbLoan _ _ _ _ _ _ _ h
    obtain ⟨hcleared, hkept⟩ := hsettled.served hliq
    exact ⟨hcleared, fun hpending => (hmorphoBlue (hkept hpending)).elim⟩

theorem onMorphoFlashLoan_clears {assets : U256} {data : Bytes}
    (h : Exec answers (onMorphoFlashLoan dep msg assets data) s () t) :
    ¬ t.1.morphoLiquidationPending := by
  rw [onMorphoFlashLoan, exec_get_bind] at h
  simp only [exec_bind, exec_require, exec_update, exec_ofOption] at h
  obtain ⟨_, _, ⟨-, rfl⟩, _, u, rfl, _, _, ⟨-, rfl⟩, _, v, hcore, happrove⟩ := h
  have hsettled : Settles _ t :=
    (F.executeLiquidationCore _ _ _ _ _ hcore).trans (F.resetApprove _ _ _ _ _ _ happrove)
  exact fun hpending => Bool.false_ne_true (hsettled.morpho hpending)

theorem executeOperation_clears {asset : Address} {amount premium : U256} {initiator : Address}
    {params : Bytes}
    (h : Exec answers (executeOperation dep msg asset amount premium initiator params) s () t) :
    ¬ t.1.aaveLiquidationPending := by
  by_cases haave : s.1.aaveLiquidationPending = true
  · simp only [executeOperation, exec_bind, exec_require, exec_get, exec_ofOption, add] at h
    obtain ⟨_, _, ⟨-, rfl⟩, _, _, ⟨rfl, rfl⟩, _, _, ⟨-, rfl⟩, _, _, ⟨-, rfl⟩, _, _, ⟨-, rfl⟩,
      h⟩ := h
    rw [if_pos haave] at h
    simp only [exec_bind, exec_update, exec_ofOption] at h
    obtain ⟨_, u, rfl, _, _, ⟨-, rfl⟩, _, v, hcore, happrove⟩ := h
    have hsettled : Settles _ t :=
      (F.executeLiquidationCore _ _ _ _ _ hcore).trans (F.resetApprove _ _ _ _ _ _ happrove)
    exact fun hpending => Bool.false_ne_true (hsettled.aave hpending)
  · have hsettled : Settles s t := F.executeOperation _ _ _ _ _ _ _ _ h
    exact fun hpending => haave (hsettled.aave hpending)

/-- Every call settles, when the loans are served: what a trigger sets its lender has cleared. -/
theorem settles_run (hserves : Serves answers) (entry : Entry) :
    Keeps answers Settles (entry.run dep msg) := by
  intro s _ t h
  cases entry with
  | triggerLiquidation vault p =>
    simp only [Entry.run, triggerLiquidation, onlyOwner, exec_bind, exec_require, exec_update,
      exec_call] at h
    obtain ⟨_, _, ⟨-, rfl⟩, _, u, rfl, hloan⟩ := h
    have hsettled := F.answer _ _ _ _ hloan
    obtain ⟨hcleared, hkept⟩ := hserves.vault hloan
    refine ⟨fun hpending => (hcleared hpending).elim, hsettled.morpho, hsettled.aave,
      fun hpending => .inl (hkept hpending).1, fun howned => hsettled.owned ?_⟩
    exact ⟨fun _ => .inl rfl, howned.swapVault, howned.aaveSwapVault, howned.morphoBlueAddr⟩
  | triggerLiquidationWithMorpho morpho vault p =>
    simp only [Entry.run, triggerLiquidationWithMorpho, onlyOwner, exec_bind, exec_require,
      exec_update, exec_call] at h
    obtain ⟨_, _, ⟨-, rfl⟩, _, u, rfl, hloan⟩ := h
    have hsettled := F.answer _ _ _ _ hloan
    have hcleared := hserves.morpho hloan
    refine ⟨hsettled.liquidation, fun hpending => (hcleared hpending).elim, hsettled.aave,
      hsettled.morphoBlue, fun howned => hsettled.owned ?_⟩
    exact ⟨fun _ => .inr (.inl rfl), fun _ => .inl rfl, howned.aaveSwapVault,
      howned.morphoBlueAddr⟩
  | triggerMorphoBlueLiquidation vault morpho p =>
    simp only [Entry.run, triggerMorphoBlueLiquidation, onlyOwner, exec_bind, exec_require,
      exec_update, exec_call] at h
    obtain ⟨_, _, ⟨-, rfl⟩, _, u, rfl, hloan⟩ := h
    have hsettled := F.answer _ _ _ _ hloan
    obtain ⟨hcleared, hkept⟩ := hserves.vault hloan
    refine ⟨hsettled.liquidation, hsettled.morpho, hsettled.aave,
      fun hpending => .inr ⟨(hkept hpending).2, hcleared⟩, fun howned => hsettled.owned ?_⟩
    exact ⟨fun _ => .inr (.inr rfl), fun _ => .inr rfl, howned.aaveSwapVault, fun _ => rfl⟩
  | triggerLiquidationWithAave vault p =>
    simp only [Entry.run, triggerLiquidationWithAave, onlyOwner, exec_bind, exec_require, exec_get,
      exec_update, exec_call] at h
    obtain ⟨_, _, ⟨-, rfl⟩, _, _, ⟨rfl, rfl⟩, _, _, ⟨-, rfl⟩, _, u, rfl, hloan⟩ := h
    have hsettled := F.answer _ _ _ _ hloan
    have hcleared := hserves.aave hloan
    refine ⟨hsettled.liquidation, hsettled.morpho, fun hpending => (hcleared hpending).elim,
      hsettled.morphoBlue, fun howned => hsettled.owned ?_⟩
    exact ⟨howned.vault, howned.swapVault, fun _ => rfl, howned.morphoBlueAddr⟩
  | _ => exact F.run rfl s () t h

end Bodies

/-! ## Histories -/

section Histories

variable {c : Chain} {s t : World}

theorem settles_silent (h : c.Silent s t) : Settles s t := .of_storage h.1

/-- What others do with control settles, when the calls they make do. -/
theorem settles_lentAnswers {within : World → World → Prop}
    {completes : Call → World → World → Prop} (hwithin : ∀ s t, within s t → Settles s t)
    (hcompletes : ∀ call s t, completes call s t → Settles s t) (s : World) (q : Query)
    (a : q.Answer) (t : World) (h : c.lentAnswers within completes s q a t) : Settles s t := by
  obtain ⟨-, l, -, h⟩ := h
  apply Settles.of_ledger (l := l)
  split at h
  · exact .of_storage (congrArg Prod.fst h)
  split at h
  · obtain ⟨call, u, v, -, hbefore, hback, hafter⟩ := h
    exact ((hwithin _ _ hbefore).trans (hcompletes _ _ _ hback)).trans (hwithin _ _ hafter)
  · exact hwithin _ _ h

theorem settles_within {answers : Answers Storage Ledger Query Query.Answer}
    (hrun : ∀ call s t, c.Completes answers call s t → Settles s t) (s t : World)
    (h : c.Within answers s t) : Settles s t := by
  induction h with
  | refl => exact .refl _
  | tail _ hstep ih =>
    rcases hstep with hsilent | ⟨call, hcall⟩
    · exact ih.trans (settles_silent hsilent)
    · exact ih.trans (hrun _ _ _ hcall)

/-- A loan is served by the call back of its lender. -/
theorem serves_lentAnswers {answers : Answers Storage Ledger Query Query.Answer}
    (F : CallFrame c.dep answers Settles) (hserves : Serves answers) :
    Serves (c.lentAnswers (c.Within answers) (c.Completes answers)) := by
  have hwithin := settles_within fun call s t h => settles_run F hserves call.entry s () t h
  constructor
  · intro s t vault recipient tokens amounts data h
    obtain ⟨-, l, -, ⟨msg, entry⟩, u, v, hcall, hbefore, hback, hafter⟩ := h
    cases entry with
    | receiveFlashLoan =>
      obtain ⟨hcleared, hkept⟩ := receiveFlashLoan_clears F hback
      obtain ⟨hstill, hlast⟩ := (hwithin v t hafter).served hcleared
      refine ⟨hstill, fun hpending => ?_⟩
      obtain ⟨hmorphoBlue, hliq⟩ := hkept (hlast hpending)
      have hbegin : Settles (s.1, l) u := hwithin _ _ hbefore
      refine ⟨?_, hbegin.liquidation hliq⟩
      rcases hbegin.morphoBlue hmorphoBlue with hfirst | ⟨-, hgone⟩
      · exact hfirst
      · exact (hgone hliq).elim
    | _ => exact hcall.elim
  · intro s t morpho token assets data h
    obtain ⟨-, l, -, ⟨msg, entry⟩, u, v, hcall, hbefore, hback, hafter⟩ := h
    cases entry with
    | onMorphoFlashLoan =>
      have hcleared := onMorphoFlashLoan_clears F hback
      exact fun hpending => hcleared ((hwithin v t hafter).morpho hpending)
    | _ => exact hcall.elim
  · intro s t pool receiver asset amount data h
    obtain ⟨-, l, -, ⟨msg, entry⟩, u, v, hcall, hbefore, hback, hafter⟩ := h
    cases entry with
    | executeOperation =>
      have hcleared := executeOperation_clears F hback
      exact fun hpending => hcleared ((hwithin v t hafter).aave hpending)
    | _ => exact hcall.elim

/-- Calls nested to any depth settle, and the loans in them are served. -/
theorem settles_nested : ∀ n, CallFrame c.dep (c.nested n) Settles ∧ Serves (c.nested n) := by
  intro n
  induction n with
  | zero =>
    have hsilent : ∀ s t, Relation.ReflTransGen c.Silent s t → Settles s t := by
      intro s t h
      induction h with
      | refl => exact .refl _
      | tail _ hstep ih => exact ih.trans (settles_silent hstep)
    refine ⟨settles_callFrame (settles_lentAnswers hsilent fun _ _ _ => False.elim), ?_⟩
    constructor
    · rintro s t vault recipient tokens amounts data ⟨-, l, -, call, u, v, -, -, hback, -⟩
      exact hback.elim
    · rintro s t morpho token assets data ⟨-, l, -, call, u, v, -, -, hback, -⟩
      exact hback.elim
    · rintro s t pool receiver asset amount data ⟨-, l, -, call, u, v, -, -, hback, -⟩
      exact hback.elim
  | succ n ih =>
    obtain ⟨F, hserves⟩ := ih
    have hrun : ∀ call s t, c.Completes (c.nested n) call s t → Settles s t :=
      fun call s t h => settles_run F hserves call.entry s () t h
    exact ⟨settles_callFrame (settles_lentAnswers (settles_within hrun) hrun),
      serves_lentAnswers F hserves⟩

theorem settles_step {event : Chain.Event} (h : c.lentStep s event t) : Settles s t := by
  cases event with
  | foreign => exact settles_silent h
  | call call =>
    obtain ⟨n, hcall⟩ := h
    obtain ⟨F, hserves⟩ := settles_nested (c := c) n
    exact settles_run F hserves call.entry s () t hcall

/-! ## Among strangers -/

theorem answers_of_lentAnswers {within deep : World → World → Prop}
    {completes : Call → World → World → Prop} (hwithin : ∀ s t, within s t → deep s t)
    (hlends : ∀ q s t, Chain.Lends within completes q s t → deep s t) (s : World) (q : Query)
    (a : q.Answer) (t : World) (h : c.lentAnswers within completes s q a t) :
    c.answers deep s q a t := by
  obtain ⟨hreports, l, heffect, h⟩ := h
  refine ⟨hreports, l, heffect, ?_⟩
  by_cases hview : q.isView = true
  · rw [if_pos hview] at h ⊢
    exact h
  rw [if_neg hview] at h ⊢
  split at h
  · exact hlends _ _ _ h
  · exact hwithin _ _ h

/-- A lender that calls back does nothing that a stranger may not do. -/
theorem answers_of_nested : ∀ n s q a t, c.nested n s q a t →
    c.answers (c.Deep anybody n) s q a t := by
  intro n
  induction n with
  | zero =>
    intro s q a t h
    apply answers_of_lentAnswers (fun _ _ hsilent => hsilent) _ s q a t h
    intro q s t hlends
    obtain ⟨call, u, v, -, -, hback, -⟩ := hlends
    exact hback.elim
  | succ n ih =>
    have hcalled : ∀ call s t, c.Completes (c.nested n) call s t →
        c.Called anybody (c.Deep anybody n) call s t :=
      fun call s t h => ⟨trivial, h.mono ih⟩
    have hwithin : ∀ s t, c.Within (c.nested n) s t → c.Deep anybody (n + 1) s t := by
      intro s t h
      refine Relation.ReflTransGen.mono (fun u v hstep => ?_) s t h
      rcases hstep with hsilent | ⟨call, hcall⟩
      · exact .inl hsilent
      · exact .inr ⟨call, hcalled call u v hcall⟩
    intro s q a t h
    apply answers_of_lentAnswers hwithin _ s q a t h
    intro q s t hlends
    obtain ⟨call, u, v, -, hbefore, hback, hafter⟩ := hlends
    have hmiddle : c.Deep anybody (n + 1) u v := .single (.inr ⟨call, hcalled call u v hback⟩)
    exact ((hwithin s u hbefore).trans hmiddle).trans (hwithin v t hafter)

/-- A history among lenders that call back is a history among strangers. -/
theorem step_of_lentStep {event : Chain.Event} (h : c.lentStep s event t) :
    c.step anybody s event t := by
  cases event with
  | foreign => exact h
  | call call =>
    obtain ⟨n, hcall⟩ := h
    exact ⟨n, trivial, hcall.mono (answers_of_nested n)⟩

/-! ## Authorisations -/

/-- What settles from the beginning leaves no flag set, and so no address. -/
theorem unarmed_of_settles {l : Ledger} (hslots : SlotsClear t.1)
    (h : Settles (Storage.initial, l) t) : Unarmed t.1 := by
  have hliq : ¬ t.1.liquidationPending := fun hpending => nomatch h.liquidation hpending
  have hmorpho : ¬ t.1.morphoLiquidationPending := fun hpending => nomatch h.morpho hpending
  have haave : ¬ t.1.aaveLiquidationPending := fun hpending => nomatch h.aave hpending
  have hmorphoBlue : ¬ t.1.morphoBlueLiqPending :=
    fun hpending => nomatch (h.served nofun).2 hpending
  have howned : Owned t.1 := h.owned ⟨fun hne => (hne rfl).elim, fun hne => (hne rfl).elim,
    fun hne => (hne rfl).elim, fun hne => (hne rfl).elim⟩
  exact
    { algebraPool := hslots.algebra
      v3Pool := hslots.v3
      liquidation := by simpa using hliq
      vault := by_contra fun hne =>
        (howned.vault hne).elim hliq fun hor => hor.elim hmorpho hmorphoBlue
      morpho := by simpa using hmorpho
      swapVault := by_contra fun hne => (howned.swapVault hne).elim hmorpho hmorphoBlue
      aave := by simpa using haave
      aaveSwapVault := by_contra fun hne => haave (howned.aaveSwapVault hne)
      morphoBlue := by simpa using hmorphoBlue
      morphoBlueAddr := by_contra fun hne => hmorphoBlue (howned.morphoBlueAddr hne) }

theorem Unarmed.not_authorised {st : Storage} (h : Unarmed st) (call : Call) :
    ¬ Authorised st call := by
  intro hcall
  obtain ⟨msg, entry⟩ := call
  cases entry with
  | uniswapV3SwapCallback | pancakeV3SwapCallback => exact hcall.1 h.v3Pool
  | algebraSwapCallback => exact hcall.1 h.algebraPool
  | receiveFlashLoan => simp [Authorised, h.liquidation, h.morphoBlue] at hcall
  | onMorphoFlashLoan => simp [Authorised, h.morpho] at hcall
  | executeOperation => simp [Authorised, h.aave] at hcall
  | _ => exact hcall

/-- Every flag is clear after every transaction. -/
theorem unarmed_lentRun {l : Ledger} {events : List Chain.Event}
    (h : Run c.lentStep (Storage.initial, l) events t) : Unarmed t.1 := by
  have hslots : SlotsClear t.1 :=
    slotsClear_of_run (h.mono fun _ _ _ hstep => step_of_lentStep hstep) slotsClear_initial
  have hsettled : Settles (Storage.initial, l) t :=
    h.invariant (fun _ _ _ hs hstep => hs.trans (settles_step hstep)) (.refl _)
  exact unarmed_of_settles hslots hsettled

end Histories

/-- **No authorisation outlives its transaction.** Whoever calls and whatever the other contracts
do, as long as each lender calls back, every flag is clear after every transaction, and no call
finds an authorisation that an earlier one left. -/
theorem unarmed_of_lentRun {c : Chain} {l : Ledger} {events : List Chain.Event} {t : World}
    (h : Run c.lentStep (Storage.initial, l) events t) :
    Unarmed t.1 ∧ ∀ call, ¬ Authorised t.1 call :=
  ⟨unarmed_lentRun h, (unarmed_lentRun h).not_authorised⟩

/-! ## A liquidation -/

/-- A debt of a hundred units, for which the collateral is of the same token. -/
def debt : LiquidationParams where
  user := 6
  collateralAsset := 3
  debtAsset := 3
  debtToCover := 100
  collateralPool := 0
  debtPool := 0
  colBalancerPool := 0
  debtBalancerPool := 0

/-- The account afterwards: nothing was seized, and the loan is repaid. -/
def paidBack : Ledger := ((funds.approve 3 0 0).approve 3 0 100).debit 3 100

theorem exec_safeApprove {s : World} {spender : Address} {amount : U256}
    (h : s.2.allowance 3 spender = 0) :
    Exec (oneToken.nested 0) (safeApprove oneToken.dep 3 spender amount) s ()
      (s.1, s.2.approve 3 spender amount) := by
  simp only [safeApprove, exec_bind, exec_require, exec_call]
  refine ⟨0, s, ?_, (), s, ⟨rfl, rfl⟩, trivial, _, .inl ⟨rfl, rfl⟩, .refl⟩
  split
  · exact ⟨rfl, rfl⟩
  · exact exec_call.mpr ⟨fun _ _ => h.symm, s.2, rfl, rfl⟩

theorem exec_resetApprove {s : World} {spender : Address} {amount : U256}
    (h : s.2.allowance 3 spender = 0) :
    Exec (oneToken.nested 0) (resetApprove oneToken.dep 3 spender amount) s ()
      (s.1, (s.2.approve 3 spender 0).approve 3 spender amount) :=
  exec_bind.mpr ⟨(), _, exec_safeApprove h, exec_safeApprove (by simp [Ledger.approve])⟩

/-- What the bot does with the loan. -/
theorem exec_liquidation {st : Storage} {data : Bytes} (h : st.aavePool = 0)
    (hdata : LiquidationParams.decode data = some debt) :
    Exec (oneToken.nested 0) (executeLiquidationFlashLoan oneToken.dep ⟨5, 0, 0⟩ 3 100 0 data)
      (st, funds) () (st, paidBack) := by
  have hreset : Exec (oneToken.nested 0) (resetApprove oneToken.dep 3 0 100) (st, funds) ()
      (st, (funds.approve 3 0 0).approve 3 0 100) := exec_resetApprove rfl
  have hcore : Exec (oneToken.nested 0) (executeLiquidationCore oneToken.dep ⟨5, 0, 0⟩ 5 debt)
      (st, funds) () (st, (funds.approve 3 0 0).approve 3 0 100) := by
    rw [executeLiquidationCore, exec_get_bind, h]
    refine exec_bind.mpr ⟨(), _, hreset, ?_⟩
    rw [exec_get_bind]
    refine exec_bind.mpr ⟨(), _, exec_call.mpr ⟨trivial, _, rfl, .refl⟩, ?_⟩
    have hsame : debt.collateralAsset = debt.debtAsset := rfl
    rw [swapCollateral, if_pos hsame]
    exact exec_pure.mpr ⟨rfl, rfl⟩
  refine exec_bind.mpr ⟨debt, _, exec_ofOption.mpr ⟨hdata, rfl⟩, ?_⟩
  refine exec_bind.mpr ⟨(), _, hcore, ?_⟩
  refine exec_bind.mpr ⟨100, _, exec_ofOption.mpr ⟨by decide, rfl⟩, exec_call.mpr ?_⟩
  have hfunds : (100 : U256) ≤ ((funds.approve 3 0 0).approve 3 0 100).balance 3 := by decide
  exact ⟨trivial, _, .inl ⟨rfl, hfunds, rfl⟩, .refl⟩

theorem completes_callback {data : Bytes} (hdata : LiquidationParams.decode data = some debt) :
    oneToken.Completes (oneToken.nested 0) ⟨⟨5, 0, 0⟩, .receiveFlashLoan [3] [100] [0] data⟩
      ({ Storage.initial with liquidationPending := true, liquidationVault := 5 }, funds)
      (Storage.initial, paidBack) := by
  rw [Chain.Completes, Entry.run, receiveFlashLoan, exec_get_bind, if_pos rfl]
  refine exec_bind.mpr ⟨(), _, exec_require.mpr ⟨rfl, rfl⟩, ?_⟩
  refine exec_bind.mpr ⟨(), _, exec_update.mpr rfl, ?_⟩
  refine exec_bind.mpr ⟨3, _, exec_ofOption.mpr ⟨rfl, rfl⟩, ?_⟩
  refine exec_bind.mpr ⟨100, _, exec_ofOption.mpr ⟨rfl, rfl⟩, ?_⟩
  exact exec_bind.mpr ⟨0, _, exec_ofOption.mpr ⟨rfl, rfl⟩, exec_liquidation rfl hdata⟩

/-- The owner liquidates with a loan from a vault that calls back. -/
theorem lentStep_liquidation {data : Bytes} (hencode : debt.encode = data)
    (hdata : LiquidationParams.decode data = some debt) :
    oneToken.lentStep (Storage.initial, funds) (.call ⟨⟨2, 0, 0⟩, .triggerLiquidation 5 debt⟩)
      (Storage.initial, paidBack) := by
  refine ⟨1, ?_⟩
  rw [Chain.Completes, Entry.run, triggerLiquidation, hencode]
  refine exec_bind.mpr ⟨(), _, exec_require.mpr ⟨rfl, rfl⟩, ?_⟩
  refine exec_bind.mpr ⟨(), _, exec_update.mpr rfl, exec_call.mpr ⟨trivial, funds, rfl, ?_⟩⟩
  exact ⟨⟨⟨5, 0, 0⟩, .receiveFlashLoan [3] [100] [0] data⟩, _, _, rfl, .refl,
    completes_callback hdata, .refl⟩

/-- The lender of a liquidation calls back, and nothing is left armed. -/
theorem unarmed_of_lentRun_liquidation :
    oneToken.lentStep (Storage.initial, funds) (.call ⟨⟨2, 0, 0⟩, .triggerLiquidation 5 debt⟩)
      (Storage.initial, paidBack) ∧
        Unarmed Storage.initial ∧ ∀ call, ¬ Authorised Storage.initial call := by
  have hdata : LiquidationParams.decode debt.encode = some debt := by decide +kernel
  have hstep := lentStep_liquidation rfl hdata
  exact ⟨hstep, unarmed_of_lentRun (.cons hstep (.nil _))⟩

end ArbBot.V2ArbBot
