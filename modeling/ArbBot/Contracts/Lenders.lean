import ArbBot.Contracts.Chain

/-!
# Lenders that call back

The same surroundings, except that a flash lender does what it is for: it answers the call for a
loan only when it has called the bot back and that call has completed. Before and after it may do
whatever anybody may do, which includes calling back again, and it passes whatever data it likes. A
lender that does not call back reverts, so it is no step.

`nested n` is what the bot is answered when calls nest at most `n` deep: with no call inside,
nothing can be lent.
-/

namespace ArbBot.V2ArbBot

open Lib

/-- A loan for which the lender calls a function of the bot that may find a flag set. The pools that
lend have no flag, and stay among the strangers. -/
def Query.isLoan : Query → Bool
  | .vaultFlashLoan .. | .flashLoanSimple .. | .morphoFlashLoan .. => true
  | _ => false

/-- The call with which its lender answers a loan. -/
def Query.CallsBack (q : Query) (call : Call) : Prop :=
  match q, call.entry with
  | .vaultFlashLoan vault .., .receiveFlashLoan .. => call.msg.sender = vault
  | .flashLoanSimple pool .., .executeOperation .. => call.msg.sender = pool
  | .morphoFlashLoan morpho .., .onMorphoFlashLoan .. => call.msg.sender = morpho
  | _, _ => False

namespace Chain

variable (c : Chain)

/-- A call of the bot that completes on these answers. -/
def Completes (answers : Prog.Answers Storage Ledger Query Query.Answer) (call : Call)
    (s t : World) : Prop :=
  Prog.Exec answers (call.entry.run c.dep call.msg) s () t

/-- What anybody may do while the bot waits. -/
def Within (answers : Prog.Answers Storage Ledger Query Query.Answer) : World → World → Prop :=
  Relation.ReflTransGen fun s t => c.Silent s t ∨ ∃ call, c.Completes answers call s t

/-- What a lender does: it calls back, and before and after it there is `within`. -/
def Lends (within : World → World → Prop) (completes : Call → World → World → Prop) (q : Query)
    (s t : World) : Prop :=
  ∃ call u v, q.CallsBack call ∧ within s u ∧ completes call u v ∧ within v t

/-- What the bot may be answered where lenders call back. -/
def lentAnswers (within : World → World → Prop) (completes : Call → World → World → Prop) :
    Prog.Answers Storage Ledger Query Query.Answer :=
  fun s q a t => c.Reports s.2 q a ∧ ∃ l, c.Effect q s.2 l ∧
    if q.isView then t = (s.1, l)
    else if q.isLoan then Lends within completes q (s.1, l) t
    else within (s.1, l) t

/-- The answers when calls nest at most `n` deep. -/
def nested : Nat → Prog.Answers Storage Ledger Query Query.Answer
  | 0 => c.lentAnswers (Relation.ReflTransGen c.Silent) fun _ _ _ => False
  | n + 1 => c.lentAnswers (c.Within (nested n)) (c.Completes (nested n))

/-- The steps of a history among lenders that call back; a call may nest to any depth. -/
def lentStep (s : World) (event : Event) (t : World) : Prop :=
  match event with
  | .foreign => c.Silent s t
  | .call call => ∃ n, c.Completes (c.nested n) call s t

end Chain

/-! ## Authorisations -/

/-- No pool and no lender is expected. -/
structure Unarmed (st : Storage) : Prop where
  algebraPool : st.pendingAlgebraPool = 0
  v3Pool : st.pendingV3Pool = 0
  liquidation : st.liquidationPending = false
  vault : st.liquidationVault = 0
  morpho : st.morphoLiquidationPending = false
  swapVault : st.pendingSwapVault = 0
  aave : st.aaveLiquidationPending = false
  aaveSwapVault : st.pendingAaveLiqSwapVault = 0
  morphoBlue : st.morphoBlueLiqPending = false
  morphoBlueAddr : st.morphoBlueAddr = 0

/-- The call uses an authorisation that stands in the storage. -/
def Authorised (st : Storage) (call : Call) : Prop :=
  match call.entry with
  | .uniswapV3SwapCallback .. | .pancakeV3SwapCallback .. =>
    st.pendingV3Pool ≠ 0 ∧ call.msg.sender = st.pendingV3Pool
  | .algebraSwapCallback .. =>
    st.pendingAlgebraPool ≠ 0 ∧ call.msg.sender = st.pendingAlgebraPool
  | .receiveFlashLoan .. =>
    (st.liquidationPending ∨ st.morphoBlueLiqPending) ∧ call.msg.sender = st.liquidationVault
  | .onMorphoFlashLoan .. =>
    st.morphoLiquidationPending ∧ call.msg.sender = st.liquidationVault
  | .executeOperation .. => st.aaveLiquidationPending ∧ call.msg.sender = st.aavePool
  | _ => False

end ArbBot.V2ArbBot
