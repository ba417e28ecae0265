import ArbBot.Contracts.PairMarket
import ArbBot.Contracts.Lenders

/-!
# Plain venues

Surroundings in which an arbitrage meets nothing unexpected: tokens keep their books, a pool takes
exactly the input it is given and pays what it reports, and a lender is paid back what it asks for.
A venue does nothing else, and may turn a call down; the bot then reverts with it.

A call to a pool or to a lender runs a callback of the bot. `completes n` are the calls of the bot
that complete with calls nested less than `n` deep.
-/

namespace ArbBot

open Lib V2ArbBot

/-- The pools, with two different tokens each, and what the lenders charge: the lender of
`flashLoanSimple` by asset and amount, a pool by its address and the amount of each token. -/
structure Venues extends Pairs where
  distinct : ∀ pool, token0 pool ≠ token1 pool
  premium : Address → U256 → U256
  flashFee : Address → U256 → U256

namespace V2ArbBot

/-- The balances in numbers. -/
def Ledger.holdings (l : Ledger) (token : Address) : Nat := (l.balance token).toNat

/-- The bot was sent an amount. -/
def Credited (token : Address) (amount : U256) (l l' : Ledger) : Prop :=
  (l.balance token).toNat + amount.toNat < 2 ^ 256 ∧ l' = l.credit token amount

/-- An amount was drawn on an allowance the bot has granted. -/
def Drawn (token spender : Address) (amount : U256) (l l' : Ledger) : Prop :=
  amount ≤ l.balance token ∧ amount ≤ l.allowance token spender ∧
    l' = (l.debit token amount).approve token spender (l.allowance token spender - amount)

/-- The function of the bot that a pool calls for its input. -/
def IsSwapCallback (amount0Delta amount1Delta : U256) (data : Bytes) (entry : Entry) : Prop :=
  entry = .uniswapV3SwapCallback amount0Delta amount1Delta data ∨
    entry = .pancakeV3SwapCallback amount0Delta amount1Delta data ∨
    entry = .algebraSwapCallback amount0Delta amount1Delta data

end V2ArbBot

namespace Venues

variable (dep : Deployment) (v : Venues)

/-- What the bot is answered, when `completes` says which of its calls complete inside. A pair pays
what it is asked for; any other pool pays some output of its other token and then calls the bot for
exactly the input; lenders lend, call back and are paid. The bot itself is no venue. -/
def answers (completes : Call → World → World → Prop) :
    Prog.Answers Storage Ledger Query Query.Answer := fun s q a t =>
  match q, a with
  | .balanceOf token holder, balance => holder = dep.self ∧ balance = s.2.balance token ∧ t = s
  | .allowance token holder spender, allowance =>
    holder = dep.self ∧ allowance = s.2.allowance token spender ∧ t = s
  | .decimals _, _ => t = s
  | .transfer token recipient amount, _ =>
    amount ≤ s.2.balance token ∧
      t = (s.1, if recipient = dep.self then s.2 else s.2.debit token amount)
  | .approve token spender amount, _ => t = (s.1, s.2.approve token spender amount)
  | .token0 pool, token => pool ≠ dep.self ∧ token = v.token0 pool ∧ t = s
  | .token1 pool, token => pool ≠ dep.self ∧ token = v.token1 pool ∧ t = s
  | .getReserves pool, _ => pool ≠ dep.self ∧ t = s
  | .pairSwap pair amount0Out amount1Out recipient data, _ =>
    pair ≠ dep.self ∧ recipient = dep.self ∧ data = [] ∧ t.1 = s.1 ∧
      ∃ l, Credited (v.token0 pair) amount0Out s.2 l ∧ Credited (v.token1 pair) amount1Out l t.2
  | .poolSwap pool recipient zeroForOne amount _ data, deltas =>
    pool ≠ dep.self ∧ recipient = dep.self ∧ (0 : U256).slt amount ∧
      ∃ out l msg callback, out.toNat < 2 ^ 255 ∧
        deltas = (if zeroForOne then (amount, -out) else (-out, amount)) ∧
        Credited (if zeroForOne then v.token1 pool else v.token0 pool) out s.2 l ∧
        msg.sender = pool ∧ IsSwapCallback deltas.1 deltas.2 data callback ∧
        completes ⟨msg, callback⟩ (s.1, l) t
  | .flashLoanSimple pool receiver asset amount data, _ =>
    pool ≠ dep.self ∧ receiver = dep.self ∧
      ∃ l msg u, Credited asset amount s.2 l ∧ msg.sender = pool ∧
        completes ⟨msg, .executeOperation asset amount (v.premium asset amount) dep.self data⟩
          (s.1, l) u ∧
        t.1 = u.1 ∧ Drawn asset pool (amount + v.premium asset amount) u.2 t.2
  | .poolFlash pool recipient amount0 amount1 data, _ =>
    pool ≠ dep.self ∧ recipient = dep.self ∧
      ∃ l l' msg, Credited (v.token0 pool) amount0 s.2 l ∧
        Credited (v.token1 pool) amount1 l l' ∧ msg.sender = pool ∧
        completes ⟨msg, .uniswapV3FlashCallback (v.flashFee pool amount0)
          (v.flashFee pool amount1) data⟩ (s.1, l') t
  | _, _ => False

/-- The calls of the bot that complete with less than `n` levels of calls. -/
def completes : Nat → Call → World → World → Prop
  | 0, _, _, _ => False
  | n + 1, call, s, t =>
    Prog.Exec (v.answers dep (completes n)) (call.entry.run dep call.msg) s () t

/-! ## Paths -/

/-- The token a hop through the pool ends in. A pool takes any other token for its second one. -/
def next (token pool : Address) : Address :=
  if token = v.token0 pool then v.token1 pool else v.token0 pool

/-- The token a path ends in. -/
def endToken (token : Address) (pools : List Address) : Address := pools.foldl v.next token

/-- The token an arbitrage starts with: the one it names, or what is found at its first pool. -/
def startToken (arb : SwapParams) : Address :=
  if arb.startToken ≠ 0 then arb.startToken
  else
    let pool := arb.pools[0]?.getD 0
    if v.token0 pool = dep.mainCurrency ∨ v.token1 pool = dep.mainCurrency then dep.mainCurrency
    else v.token0 pool

/-- The path returns to its start token. -/
def Closed (arb : SwapParams) : Prop :=
  v.endToken (v.startToken dep arb) arb.pools = v.startToken dep arb

/-- There is nothing to pay back: no input, and no premium on it. -/
def Costless (arb : SwapParams) : Prop :=
  arb.amountIn = 0 ∧ (arb.flashLoanProvider = 0 → v.premium (v.startToken dep arb) 0 = 0)

end Venues

end ArbBot
