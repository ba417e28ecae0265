import ArbBot.Contracts.Chain
import ArbBot.Contracts.PairMarket

/-!
# A market with lenders

The market of pairs with the flash lenders of `executeArbitrage` beside it. A lender lends, calls
the bot back, and takes back what it lent and what it charges: the pool of `flashLoanSimple` by
drawing on the allowance the bot grants it, a pool that lends its own tokens by being sent them. As
a pair may, a lender may turn the bot down. Nothing else happens, so the market at the end is the
bot's doing.
-/

namespace ArbBot

open Lib V2ArbBot

/-- The pools, with two different tokens each, and what the lenders charge: the pool of
`flashLoanSimple` by asset and amount, a pool by its address and the amount of each token. -/
structure Loans extends Pairs where
  distinct : ∀ pool, token0 pool ≠ token1 pool
  premium : Address → U256 → U256
  flashFee : Address → U256 → U256

/-- The market, and what the bot allows others to draw. -/
structure LoanMarket extends Market where
  allowance : Address → Address → U256

namespace LoanMarket

def credit (m : LoanMarket) (token : Address) (amount : U256) : LoanMarket :=
  { m with balance := fun t => if t = token then m.balance t + amount else m.balance t }

def approve (m : LoanMarket) (token spender : Address) (amount : U256) : LoanMarket :=
  { m with
    allowance := fun t s => if t = token ∧ s = spender then amount else m.allowance t s }

/-- The bot was sent an amount. -/
def Lent (token : Address) (amount : U256) (m m' : LoanMarket) : Prop :=
  (m.balance token).toNat + amount.toNat < 2 ^ 256 ∧ m' = m.credit token amount

/-- The market after an amount is drawn on an allowance. -/
def draw (m : LoanMarket) (token spender : Address) (amount : U256) : LoanMarket :=
  { m.approve token spender (m.allowance token spender - amount) with
    toMarket := m.debit token amount }

/-- An amount was drawn on an allowance the bot has granted. -/
def Drawn (token spender : Address) (amount : U256) (m m' : LoanMarket) : Prop :=
  amount ≤ m.balance token ∧ amount ≤ m.allowance token spender ∧ m' = m.draw token spender amount

/-- The market is a part of it. -/
def part : Prog.Part LoanMarket Market where
  get := toMarket
  put m market := { m with toMarket := market }
  put_get _ := rfl
  get_put _ _ := rfl
  put_put _ _ _ := rfl

end LoanMarket

/-- The calls that the market of pairs alone answers. -/
def V2ArbBot.Query.Plain : Query → Prop
  | .allowance .. | .approve .. | .flashLoanSimple .. | .poolFlash .. => False
  | _ => True

namespace Loans

variable (dep : Deployment) (loans : Loans)

/-- What the bot is answered, when `completes` says which of its calls complete inside. -/
def answers (completes : Call → Storage × LoanMarket → Storage × LoanMarket → Prop) :
    Prog.Answers Storage LoanMarket Query Query.Answer := fun s q a t =>
  match q, a with
  | .allowance token holder spender, allowance =>
    holder = dep.self ∧ allowance = s.2.allowance token spender ∧ t = s
  | .approve token spender amount, _ => t = (s.1, s.2.approve token spender amount)
  | .flashLoanSimple pool receiver asset amount data, _ =>
    pool ≠ dep.self ∧ receiver = dep.self ∧
      ∃ l msg u, LoanMarket.Lent asset amount s.2 l ∧ msg.sender = pool ∧
        completes ⟨msg, .executeOperation asset amount (loans.premium asset amount) dep.self data⟩
          (s.1, l) u ∧
        t.1 = u.1 ∧ LoanMarket.Drawn asset pool (amount + loans.premium asset amount) u.2 t.2
  | .poolFlash pool recipient amount0 amount1 data, _ =>
    pool ≠ dep.self ∧ recipient = dep.self ∧
      ∃ l l' msg, LoanMarket.Lent (loans.token0 pool) amount0 s.2 l ∧
        LoanMarket.Lent (loans.token1 pool) amount1 l l' ∧ msg.sender = pool ∧
        completes ⟨msg, .uniswapV3FlashCallback (loans.flashFee pool amount0)
          (loans.flashFee pool amount1) data⟩ (s.1, l') t
  | q, a => ∃ m, Market.answers dep loans.toPairs (s.1, s.2.toMarket) q a (t.1, m) ∧
      t.2 = LoanMarket.part.put s.2 m

/-- The calls of the bot that complete with less than `n` levels of calls. -/
def completes : Nat → Call → Storage × LoanMarket → Storage × LoanMarket → Prop
  | 0, _, _, _ => False
  | n + 1, call, s, t =>
    Prog.Exec (loans.answers dep (completes n)) (call.entry.run dep call.msg) s () t

/-- What a pool charges for lending an amount of a token. -/
def poolCost (pool token : Address) (amount : U256) : Nat :=
  (loans.flashFee pool (if token = loans.token0 pool then amount else 0)).toNat +
    (loans.flashFee pool (if token = loans.token1 pool then amount else 0)).toNat

/-- What the loan of an arbitrage costs, by the lender its parameters name. -/
def cost (st : Storage) (provider : UInt8) (token : Address) (amount : U256) : Nat :=
  if provider = 0 then (loans.premium token amount).toNat
  else if provider = 1 then loans.poolCost st.uniV3FlashPool token amount
  else if provider = 2 then loans.poolCost st.pancakeV3FlashPool token amount
  else 0

/-- What the bot asks of the amount a path gives: a loan and its cost, or more than went in. -/
def Covers (provider : UInt8) (amountIn amountOut : U256) (cost : Nat) : Prop :=
  if provider = 0 ∨ provider = 1 ∨ provider = 2 then amountIn.toNat + cost ≤ amountOut.toNat
  else amountIn.toNat < amountOut.toNat

end Loans

/-- An amount of a token has become another, less a cost, and no other balance has changed. -/
structure Earned (token : Address) (amountIn amountOut : U256) (cost : Nat) (m m' : Market) :
    Prop where
  gain : (m'.balance token).toNat + amountIn.toNat + cost =
    (m.balance token).toNat + amountOut.toNat
  rest : ∀ other, other ≠ token → m'.balance other = m.balance other

end ArbBot
