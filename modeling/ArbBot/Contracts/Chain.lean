import ArbBot.Contracts.V2ArbBot.Entry
import ArbBot.Lib.Runs
import Mathlib.Logic.Relation

/-!
# The bot among strangers

Surroundings in which everything the bot calls may be hostile, except that ERC-20 contracts keep
their books. What is modelled of the world is the bot's account in every token: its balance and
the allowances it has granted. A contract that the bot hands control to may answer anything, and
before it answers it may do whatever anybody may do, which includes calling the bot again; `Deep n`
is what can happen in calls nested at most `n` deep.

A call that reverts leaves no trace, so only completed calls are steps.
-/

namespace ArbBot.V2ArbBot

open Lib

/-- The bot's account: its balances by token, and its allowances by token and spender. -/
structure Ledger where
  balance : Address → U256
  allowance : Address → Address → U256

namespace Ledger

def debit (l : Ledger) (token : Address) (amount : U256) : Ledger :=
  { l with balance := fun t => if t = token then l.balance t - amount else l.balance t }

def credit (l : Ledger) (token : Address) (amount : U256) : Ledger :=
  { l with balance := fun t => if t = token then l.balance t + amount else l.balance t }

def approve (l : Ledger) (token spender : Address) (amount : U256) : Ledger :=
  { l with
    allowance := fun t s => if t = token ∧ s = spender then amount else l.allowance t s }

end Ledger

/-- Where the bot lives: its immutables, the contracts that are ERC-20 tokens, and the accounts
that draw on an allowance the bot has granted them. -/
structure Chain where
  dep : Deployment
  genuine : Address → Prop
  puller : Address → Prop

/-- The storage of the bot and its account. -/
abbrev World : Type := Storage × Ledger

namespace Chain

variable (c : Chain)

/-- Nobody who draws on allowances has one in this token. -/
def NoPull (l : Ledger) (token : Address) : Prop :=
  ∀ spender, c.puller spender → l.allowance token spender = 0

/-- What others do with a token: the bot's balance falls only when one of its allowances is drawn
on, and only the bot raises its allowances. -/
structure Foreign (l l' : Ledger) : Prop where
  balance : ∀ token, c.genuine token → c.NoPull l token → l.balance token ≤ l'.balance token
  allowance : ∀ token spender, c.genuine token →
    l'.allowance token spender ≤ l.allowance token spender

/-- What a call itself does to the bot's account. -/
def Effect (q : Query) (l l' : Ledger) : Prop :=
  match q with
  | .transfer token recipient amount =>
    c.genuine token ∧ amount ≤ l.balance token ∧
        (l' = if recipient = c.dep.self then l else l.debit token amount) ∨
      ¬ c.genuine token ∧ l' = l
  | .approve token spender amount =>
    c.genuine token ∧ l' = l.approve token spender amount ∨ ¬ c.genuine token ∧ l' = l
  | .deposit weth value =>
    c.genuine weth ∧ (l.balance weth).toNat + value.toNat < 2 ^ 256 ∧ l' = l.credit weth value ∨
      ¬ c.genuine weth ∧ l' = l
  | _ => l' = l

/-- A token reports the bot's account as it is; every other answer is free. -/
def Reports (l : Ledger) (q : Query) (a : q.Answer) : Prop :=
  match q, a with
  | .balanceOf token holder, balance =>
    c.genuine token → holder = c.dep.self → balance = l.balance token
  | .allowance token holder spender, allowance =>
    c.genuine token → holder = c.dep.self → allowance = l.allowance token spender
  | _, _ => True

/-- What the bot may be answered, when `deep` may happen while another contract has control. -/
def answers (deep : World → World → Prop) : Prog.Answers Storage Ledger Query Query.Answer :=
  fun s q a t =>
    c.Reports s.2 q a ∧ ∃ l, c.Effect q s.2 l ∧ if q.isView then t = (s.1, l) else deep (s.1, l) t

/-- The account changes without a call to the bot. -/
def Silent (s t : World) : Prop := t.1 = s.1 ∧ c.Foreign s.2 t.2

end Chain

/-- A call of the bot from outside. -/
structure Call where
  msg : Msg
  entry : Entry

/-- Which calls may be made, by the storage they find. -/
abbrev Callers : Type := Storage → Call → Prop

/-- Anybody may call anything. -/
def anybody : Callers := fun _ _ => True

namespace Chain

variable (c : Chain) (callers : Callers)

/-- A completed call, with `deep` inside it. -/
def Called (deep : World → World → Prop) (call : Call) (s t : World) : Prop :=
  callers s.1 call ∧ Prog.Exec (c.answers deep) (call.entry.run c.dep call.msg) s () t

/-- What may happen with calls nested at most `n` deep. -/
def Deep : Nat → World → World → Prop
  | 0 => Relation.ReflTransGen c.Silent
  | n + 1 =>
    Relation.ReflTransGen fun s t => c.Silent s t ∨ ∃ call, c.Called callers (Deep n) call s t

/-- A step of a history: others act, or the bot is called and the call completes. -/
inductive Event where
  | foreign
  | call (call : Call)

/-- The steps of a history; a call may nest to any depth. -/
def step (s : World) (event : Event) (t : World) : Prop :=
  match event with
  | .foreign => c.Silent s t
  | .call call => ∃ n, c.Called callers (c.Deep callers n) call s t

end Chain

end ArbBot.V2ArbBot
