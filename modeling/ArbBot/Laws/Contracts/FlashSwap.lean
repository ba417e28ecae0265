import ArbBot.Contracts.Chain
import Mathlib.Order.Bounds.Basic

/-!
# Repaying a pair

A pair that lends one of its tokens asks for the product of its reserves back, less the fee on what
it is repaid. `uniswapV2Call` repays the rounded-down fee and one unit. That is always enough, and
never more than one unit beyond the smallest repayment that is.
-/

namespace ArbBot.V2ArbBot

open Lib
open Lib.Prog (Answers Exec exec_bind exec_call exec_ofOption exec_require exec_pure)

/-! ## What a pair asks for -/

/-- A loan of one of the tokens of a pair, whose fee is in basis points. -/
structure PairLoan where
  borrowed : Nat
  feeBps : Nat

namespace PairLoan

variable (l : PairLoan)

/-- The pair's check after a repayment, for the reserves it had before the loan: of the token that
was borrowed, and of the other one. -/
def PaysBack (reserve other repaid : Nat) : Prop :=
  reserve * other * 10000 ≤
    ((reserve - l.borrowed + repaid) * 10000 - repaid * l.feeBps) * other

/-- The repayment of `uniswapV2Call`, in exact numbers. -/
def repayAmount : Nat := l.borrowed + (l.borrowed * l.feeBps / (10000 - l.feeBps) + 1)

/-- The loan over what the fee leaves, rounded up. -/
def least : Nat := (l.borrowed * 10000 + (10000 - l.feeBps - 1)) / (10000 - l.feeBps)

variable {l} {reserve other repaid : Nat}

/-- Unless the other reserve is empty, what is repaid less the fee has to be at least what was
lent. -/
theorem paysBack_iff (hfee : l.feeBps < 10000) (hreserve : l.borrowed ≤ reserve) :
    l.PaysBack reserve other repaid ↔
      other = 0 ∨ l.borrowed * 10000 ≤ repaid * (10000 - l.feeBps) := by
  have hkept : (reserve - l.borrowed + repaid) * 10000 - repaid * l.feeBps =
      (reserve - l.borrowed) * 10000 + repaid * (10000 - l.feeBps) := by
    rw [Nat.add_mul, Nat.mul_sub, Nat.add_sub_assoc (Nat.mul_le_mul_left _ hfee.le)]
  rw [PaysBack, hkept]
  rcases Nat.eq_zero_or_pos other with rfl | hpos
  · simp
  · rw [or_iff_right hpos.ne', Nat.mul_right_comm, Nat.mul_le_mul_right_iff hpos]
    obtain ⟨rest, rfl⟩ := Nat.exists_eq_add_of_le hreserve
    rw [Nat.add_sub_cancel_left, Nat.add_mul, Nat.add_comm, Nat.add_le_add_iff_left]

theorem least_le_iff (hfee : l.feeBps < 10000) :
    l.least ≤ repaid ↔ l.borrowed * 10000 ≤ repaid * (10000 - l.feeBps) := by
  rw [least, Nat.div_le_iff_le_mul_add_pred (Nat.sub_pos_of_lt hfee), Nat.add_le_add_iff_right,
    Nat.mul_comm repaid]

/-- The loan is what the fee leaves of it and the fee. -/
theorem borrowed_split (hfee : l.feeBps < 10000) :
    l.borrowed * 10000 = l.borrowed * (10000 - l.feeBps) + l.borrowed * l.feeBps := by
  rw [← Nat.mul_add, Nat.sub_add_cancel hfee.le]

/-- The floored fee and one unit are enough. -/
theorem least_le_repayAmount (hfee : l.feeBps < 10000) : l.least ≤ l.repayAmount := by
  have hfloor := Nat.lt_mul_div_succ (l.borrowed * l.feeBps) (Nat.sub_pos_of_lt hfee)
  rw [least_le_iff hfee, borrowed_split hfee, repayAmount, Nat.add_mul,
    Nat.mul_comm (_ / _ + 1)]
  exact Nat.add_le_add_left hfloor.le _

/-- And without the unit they are not too much. -/
theorem repayAmount_le_succ (hfee : l.feeBps < 10000) : l.repayAmount ≤ l.least + 1 := by
  have hpos : 0 < 10000 - l.feeBps := Nat.sub_pos_of_lt hfee
  have hleast := (least_le_iff hfee).mp (Nat.le_refl l.least)
  rw [borrowed_split hfee, Nat.mul_comm l.borrowed (10000 - l.feeBps)] at hleast
  have hfloor : l.borrowed + l.borrowed * l.feeBps / (10000 - l.feeBps) ≤ l.least := by
    rw [← Nat.mul_add_div hpos]
    exact Nat.div_le_of_le_mul (Nat.mul_comm l.least _ ▸ hleast)
  exact Nat.succ_le_succ hfloor

/-- The smallest repayment that a pair accepts is the same for all reserves. -/
theorem isLeast_least (hfee : l.feeBps < 10000) (hreserve : l.borrowed ≤ reserve)
    (hother : 0 < other) : IsLeast {repaid | l.PaysBack reserve other repaid} l.least := by
  have hiff : ∀ repaid, l.PaysBack reserve other repaid ↔ l.least ≤ repaid := fun repaid => by
    rw [paysBack_iff hfee hreserve, or_iff_right hother.ne', least_le_iff hfee]
  exact ⟨(hiff _).mpr (Nat.le_refl _), fun repaid h => (hiff repaid).mp h⟩

theorem paysBack_of_least_le (hfee : l.feeBps < 10000) (hreserve : l.borrowed ≤ reserve)
    (h : l.least ≤ repaid) : l.PaysBack reserve other repaid :=
  (paysBack_iff hfee hreserve).mpr (.inr ((least_le_iff hfee).mp h))

/-- And so is the smallest one for every pair. -/
theorem isLeast_least_forall (hfee : l.feeBps < 10000) :
    IsLeast {repaid | ∀ reserve other, l.borrowed ≤ reserve → l.PaysBack reserve other repaid}
      l.least :=
  ⟨fun _ _ hreserve => paysBack_of_least_le hfee hreserve (Nat.le_refl _),
    fun _ h => (isLeast_least hfee (Nat.le_refl _) Nat.one_pos).2 (h _ 1 (Nat.le_refl _))⟩

end PairLoan

/-! ## The callback -/

variable {W : Type} {answers : Answers Storage W Query Query.Answer} {dep : Deployment} {msg : Msg}
  {sender : Address} {amount0 amount1 amountIn feeBps repaid : U256} {data : Bytes}
  {s t : Storage × W}

theorem repayV2_eq_some (h : repayV2 amountIn feeBps = some repaid) :
    feeBps.toNat < 10000 ∧ repaid.toNat = PairLoan.repayAmount ⟨amountIn.toNat, feeBps.toNat⟩ := by
  simp only [repayV2, Option.bind_eq_bind, Option.bind_eq_some_iff] at h
  obtain ⟨product, hproduct, base, hbase, quotient, hquotient, fee, hfee, hrepaid⟩ := h
  have hone : (1 : U256).toNat = 1 := rfl
  have hwhole : (10000 : U256).toNat = 10000 := rfl
  rw [checkedMul_eq_some] at hproduct
  rw [checkedSub_eq_some, hwhole] at hbase
  obtain ⟨hpos, hquotient⟩ := checkedDiv_eq_some.mp hquotient
  rw [checkedAdd_eq_some, hone] at hfee
  rw [checkedAdd_eq_some] at hrepaid
  have hkept : base.toNat = 10000 - feeBps.toNat := by omega
  refine ⟨by omega, ?_⟩
  rw [hrepaid, hfee, hquotient, hproduct, hkept, PairLoan.repayAmount]

/-- The callback completes when its swaps do and the repayment is made after them. -/
theorem exec_uniswapV2Call :
    Exec answers (uniswapV2Call dep msg sender amount0 amount1 data) s () t ↔
      msg.sender = lenderWord data ∧ sender = dep.self ∧
        ∃ out u, Exec answers (execute dep data) s out u ∧
          ∃ repaid, repayV2 (if amount0 = 0 then amount1 else amount0) (data.wordAt 0x100) =
              some repaid ∧
            answers u (.transfer (U256.toAddress (data.wordAt 0xa0)) (lenderWord data) repaid) ()
              t := by
  constructor
  · intro h
    obtain ⟨_, _, hfirst, hrest⟩ := exec_bind.mp h
    obtain ⟨hlender, rfl⟩ := exec_require.mp hfirst
    obtain ⟨_, _, hsecond, hafter⟩ := exec_bind.mp hrest
    obtain ⟨hself, rfl⟩ := exec_require.mp hsecond
    obtain ⟨out, u, hswaps, hrepay⟩ := exec_bind.mp hafter
    obtain ⟨repaid, _, hamount, hpay⟩ := exec_bind.mp hrepay
    obtain ⟨hrepaid, rfl⟩ := exec_ofOption.mp hamount
    exact ⟨hlender, hself, out, _, hswaps, repaid, hrepaid, exec_call.mp hpay⟩
  · rintro ⟨hlender, hself, out, u, hswaps, repaid, hrepaid, hpay⟩
    refine exec_bind.mpr ⟨(), s, exec_require.mpr ⟨hlender, rfl⟩, ?_⟩
    refine exec_bind.mpr ⟨(), s, exec_require.mpr ⟨hself, rfl⟩, ?_⟩
    refine exec_bind.mpr ⟨out, u, hswaps, ?_⟩
    exact exec_bind.mpr ⟨repaid, u, exec_ofOption.mpr ⟨hrepaid, rfl⟩, exec_call.mpr hpay⟩

/-- **What `uniswapV2Call` repays is enough for every pair, and at most one unit too much.** -/
theorem uniswapV2Call_repays
    (h : Exec answers (uniswapV2Call dep msg sender amount0 amount1 data) s () t) :
    ∃ (loan : PairLoan) (repaid : U256) (u : Storage × W),
      loan = ⟨(if amount0 = 0 then amount1 else amount0).toNat, (data.wordAt 0x100).toNat⟩ ∧
      answers u (.transfer (U256.toAddress (data.wordAt 0xa0)) (lenderWord data) repaid) () t ∧
      loan.feeBps < 10000 ∧
      repaid.toNat =
        loan.borrowed + (loan.borrowed * loan.feeBps / (10000 - loan.feeBps) + 1) ∧
      (∀ reserve other, loan.borrowed ≤ reserve → loan.PaysBack reserve other repaid.toNat) ∧
      ∃ least,
        IsLeast {p | ∀ reserve other, loan.borrowed ≤ reserve → loan.PaysBack reserve other p}
          least ∧
        (∀ reserve other, loan.borrowed ≤ reserve → 0 < other →
          IsLeast {p | loan.PaysBack reserve other p} least) ∧
        repaid.toNat ≤ least + 1 := by
  obtain ⟨-, -, -, u, -, repaid, hrepaid, hpay⟩ := exec_uniswapV2Call.mp h
  obtain ⟨hfee, hvalue⟩ := repayV2_eq_some hrepaid
  refine ⟨_, repaid, u, rfl, hpay, hfee, hvalue, ?_, _, PairLoan.isLeast_least_forall hfee, ?_, ?_⟩
  · intro reserve other hreserve
    apply PairLoan.paysBack_of_least_le hfee hreserve
    rw [hvalue]
    exact PairLoan.least_le_repayAmount hfee
  · intro reserve other hreserve hother
    exact PairLoan.isLeast_least hfee hreserve hother
  · rw [hvalue]
    exact PairLoan.repayAmount_le_succ hfee

/-! ### A loan of a thousand units -/

/-- Surroundings that answer anything and change nothing. -/
def quiet : Answers Storage Unit Query Query.Answer := fun s _ _ t => t = s

/-- A loan of a thousand units of token 3 from pair 7, spent in one pool. -/
def loanData : Bytes := Bytes.ofWords [1000, 2, 7, 0, 8, 3, 5, 4, 30]

/-- One pool that gives nothing for nothing. -/
theorem exec_execute_quiet {dep : Deployment} {s : Storage × Unit} {data : Bytes}
    (hcount : packedHopCount data = 1) (htype : data.wordAt (0x80 + 0xa0 * 0 + 0x60) = 4)
    (hmin : data.wordAt 0x60 = 0) : Exec quiet (execute dep data) s 0 s := by
  have hsub : checkedSub (0 : U256) 0 = some 0 := by decide
  have hhop : Exec quiet (packedHop dep data 0 (data.wordAt 0)) s 0 s := by
    rw [packedHop, htype, if_neg (by decide), if_neg (by decide), if_neg (by decide), if_pos rfl]
    refine exec_bind.mpr ⟨0, s, exec_call.mpr rfl, ?_⟩
    refine exec_bind.mpr ⟨0, s, exec_call.mpr rfl, ?_⟩
    refine exec_bind.mpr ⟨(), s, exec_call.mpr rfl, ?_⟩
    refine exec_bind.mpr ⟨(), s, exec_call.mpr rfl, ?_⟩
    exact exec_bind.mpr ⟨0, s, exec_call.mpr rfl, exec_ofOption.mpr ⟨hsub, rfl⟩⟩
  rw [execute, hcount, hmin]
  refine exec_bind.mpr ⟨0, s, ?_, ?_⟩
  · exact exec_bind.mpr ⟨data.wordAt 0, s, exec_pure.mpr ⟨rfl, rfl⟩, hhop⟩
  · exact exec_bind.mpr ⟨(), s, exec_require.mpr ⟨by decide, rfl⟩, exec_pure.mpr ⟨rfl, rfl⟩⟩

/-- The callback of such a loan completes. -/
theorem exec_uniswapV2Call_quiet {dep : Deployment} {s : Storage × Unit} {msg : Msg}
    {amount0 repaid : U256} {data : Bytes} (hlender : msg.sender = lenderWord data)
    (hcount : packedHopCount data = 1) (htype : data.wordAt (0x80 + 0xa0 * 0 + 0x60) = 4)
    (hmin : data.wordAt 0x60 = 0) (hamount : amount0 ≠ 0)
    (hrepay : repayV2 amount0 (data.wordAt 0x100) = some repaid) :
    Exec quiet (uniswapV2Call dep msg dep.self amount0 0 data) s () s := by
  refine exec_uniswapV2Call.mpr ⟨hlender, rfl, 0, s, exec_execute_quiet hcount htype hmin,
    repaid, ?_, rfl⟩
  rw [if_neg hamount]
  exact hrepay

theorem loanData_fee : loanData.wordAt 0x100 = 30 := by decide +kernel

theorem exec_loanData (dep : Deployment) (s : Storage × Unit) :
    Exec quiet (uniswapV2Call dep ⟨7, 0, 0⟩ dep.self 1000 0 loanData) s () s := by
  have hrepay : repayV2 1000 (loanData.wordAt 0x100) = some 1004 := by
    rw [loanData_fee]
    decide +kernel
  exact exec_uniswapV2Call_quiet (by decide +kernel) (by decide +kernel) (by decide +kernel)
    (by decide +kernel) (by decide +kernel) hrepay

theorem uniswapV2Call_repays_thousand :
    ∃ repaid : U256, repaid.toNat = 1004 ∧ ∃ least,
      IsLeast {p | ∀ reserve other, 1000 ≤ reserve →
        PairLoan.PaysBack ⟨1000, 30⟩ reserve other p} least ∧ repaid.toNat ≤ least + 1 := by
  have hamount : (if (1000 : U256) = 0 then (0 : U256) else 1000) = 1000 :=
    if_neg (by decide +kernel)
  have hterms : PairLoan.mk (1000 : U256).toNat (30 : U256).toNat = ⟨1000, 30⟩ :=
    congrArg₂ PairLoan.mk (by decide +kernel) (by decide +kernel)
  -- for any deployment, so that elaboration does not run the callback
  suffices hany : ∀ dep : Deployment, ∃ repaid : U256, repaid.toNat = 1004 ∧ ∃ least,
      IsLeast {p | ∀ reserve other, 1000 ≤ reserve →
        PairLoan.PaysBack ⟨1000, 30⟩ reserve other p} least ∧ repaid.toNat ≤ least + 1 from
    hany ⟨1, 2, 3⟩
  intro dep
  obtain ⟨loan, repaid, u, hloan, -, -, hvalue, -, least, hleast, -, hnear⟩ :=
    uniswapV2Call_repays (exec_loanData dep (Storage.initial, ()))
  rw [hamount, loanData_fee, hterms] at hloan
  subst hloan
  exact ⟨repaid, hvalue, least, hleast, hnear⟩

end ArbBot.V2ArbBot
