import ArbBot.Contracts.FlashQuoter
import ArbBot.Laws.Contracts.FullMath
import ArbBot.Uniswap.SqrtPriceMath

/-!
# The analytical quote against a step of the pool

`_quoteV3Math` rearranges the formulas of a step. Where the price rises each of its floors lowers
the amount out. Where the price falls it rounds the new price down, and the pool rounds it up: a
price that is lower by one lets out more by `liquidity / 2 ^ 96`, which shows in the amount out
unless no multiple of `2 ^ 96` lies in between. So the quote is conservative in one direction, and
in the other exactly where the rounding does not show (`quoteV3Math_le_iff`).
-/

namespace ArbBot.FlashQuoter

open Lib Uniswap

/-! ## The two directions -/

/-- The quote where the price falls, from the input after the fee. -/
def fallingQuote (sqrtP liq amountAfterFee : U256) : Option U256 := do
  let numerator1 := liq <<< 96
  let product := mulDiv amountAfterFee sqrtP 1
  if product = 0 ∧ 0 < amountAfterFee ∧ 0 < sqrtP then return 0
  let denominator ← checkedAdd numerator1 product
  if denominator < numerator1 then return 0
  let sqrtPNew := mulDiv numerator1 sqrtP denominator
  if sqrtP ≤ sqrtPNew ∨ sqrtPNew < minSqrtRatio.setWidth 256 then return 0
  return (← checkedMul liq (sqrtP - sqrtPNew)) >>> 96

/-- The quote where the price rises. -/
def risingQuote (sqrtP liq amountAfterFee : U256) : Option U256 := do
  let deltaSqrtP := (amountAfterFee <<< 96) / liq
  if deltaSqrtP = 0 then return 0
  let sqrtPNew ← checkedAdd sqrtP deltaSqrtP
  if sqrtPNew ≤ sqrtP ∨ maxSqrtRatio.setWidth 256 < sqrtPNew then return 0
  let step1 := (liq <<< 96) / sqrtP
  return (← checkedMul step1 (sqrtPNew - sqrtP)) / sqrtPNew

variable {view : PoolView} {pool : Address} {amountIn out : U256} {zeroForOne : Bool}
  {fee : UInt32} {sqrtP160 : BitVec 160} {liq128 : BitVec 128}

theorem toNat_setWidth {w : Nat} (h : w ≤ 256) (x : BitVec w) :
    (x.setWidth 256).toNat = x.toNat :=
  (BitVec.toNat_setWidth 256 x).trans
    (Nat.mod_eq_of_lt (x.isLt.trans_le (Nat.pow_le_pow_right (by decide) h)))

theorem toNat_amountAfterFee {scaled : U256}
    (hscaled : checkedMul amountIn (BitVec.ofNat 256 (1000000 - fee.toNat)) = some scaled) :
    (scaled / 1000000).toNat = amountRemainingLessFee amountIn.toNat fee.toNat := by
  have hfee : 1000000 - fee.toNat < 2 ^ 256 := (Nat.sub_le _ _).trans_lt (by decide)
  rw [BitVec.toNat_udiv, checkedMul_eq_some.mp hscaled, toNat_ofNat_of_lt hfee]
  rfl

/-- A quote of a pool with liquidity and a price is that of its direction, for the input after the
fee; without an input it is zero. -/
theorem quoteV3Math_cases (hslot : view.slot0 pool = some sqrtP160)
    (hliq : view.liquidity pool = some liq128) (hfee : fee.toNat < 1000000)
    (hquote : quoteV3Math view pool amountIn zeroForOne fee = some out)
    (hsqrtP : 0 < sqrtP160.toNat) (hpos : 0 < liq128.toNat) :
    out.toNat = 0 ∧ amountRemainingLessFee amountIn.toNat fee.toNat = 0 ∨
      ∃ afterFee : U256, afterFee.toNat = amountRemainingLessFee amountIn.toNat fee.toNat ∧
        (if zeroForOne then fallingQuote (sqrtP160.setWidth 256) (liq128.setWidth 256) afterFee
          else risingQuote (sqrtP160.setWidth 256) (liq128.setWidth 256) afterFee) = some out := by
  have hne : ∀ {x : U256}, x = 0 → x.toNat = 0 := fun h => by rw [h]; rfl
  unfold quoteV3Math at hquote
  simp only [hslot, hliq, Option.bind_eq_bind, Option.bind_some,
    if_neg (Nat.not_le.mpr hfee)] at hquote
  split at hquote
  · rename_i hzero
    cases hquote
    rcases hzero with hzero | hzero | hzero
    · have := hne hzero
      rw [toNat_setWidth (by decide)] at this
      omega
    · have := hne hzero
      rw [toNat_setWidth (by decide)] at this
      omega
    · refine .inl ⟨rfl, ?_⟩
      rw [hne hzero, amountRemainingLessFee, Nat.zero_mul, Nat.zero_div]
  cases hscaled : checkedMul amountIn (BitVec.ofNat 256 (1000000 - fee.toNat)) with
  | none => rw [hscaled] at hquote; cases hquote
  | some scaled =>
    rw [hscaled] at hquote
    exact .inr ⟨scaled / 1000000, toNat_amountAfterFee hscaled, hquote⟩

/-! ## Falling price -/

/-- The new price of the quote, where the price falls. -/
def loweredPrice (sqrtP liq amount : Nat) : Nat :=
  liq * 2 ^ 96 * sqrtP / (liq * 2 ^ 96 + amount * sqrtP)

variable {sqrtP liq amount : U256}

theorem loweredPrice_le (sqrtP liq amount : Nat) : loweredPrice sqrtP liq amount ≤ sqrtP := by
  refine Nat.div_le_of_le_mul ?_
  exact Nat.mul_le_mul_right sqrtP (Nat.le_add_right _ _)

theorem loweredPrice_lt {sqrtP amount : Nat} (hsqrtP : 0 < sqrtP) (hamount : 0 < amount)
    (liq : Nat) : loweredPrice sqrtP liq amount < sqrtP := by
  have hmore : 0 < amount * sqrtP := Nat.mul_pos hamount hsqrtP
  refine (Nat.div_lt_iff_lt_mul (by omega)).mpr ?_
  rw [Nat.mul_comm sqrtP]
  exact Nat.mul_lt_mul_of_pos_right (by omega) hsqrtP

theorem toNat_numerator1 (hliq : liq.toNat < 2 ^ 128) :
    (liq <<< 96).toNat = liq.toNat * 2 ^ 96 := by
  rw [BitVec.toNat_shiftLeft, Nat.shiftLeft_eq]
  exact Nat.mod_eq_of_lt (by omega)

/-- The price the quote divides out, which rounds down. -/
theorem toNat_mulDiv_lowered (hliq : liq.toNat < 2 ^ 128) {denominator : U256}
    (hdenominator : denominator.toNat = liq.toNat * 2 ^ 96 + amount.toNat * sqrtP.toNat) :
    (mulDiv (liq <<< 96) sqrtP denominator).toNat =
      loweredPrice sqrtP.toNat liq.toNat amount.toNat := by
  have hle := loweredPrice_le sqrtP.toNat liq.toNat amount.toNat
  rw [toNat_mulDiv, toNat_numerator1 hliq, hdenominator]
  exact if_pos (hle.trans_lt sqrtP.isLt)

/-- The amount to a lower price: nothing where the price leaves the range. -/
theorem amountTo_cases {price : U256}
    (hquote : (if sqrtP ≤ price ∨ price < minSqrtRatio.setWidth 256 then some (0 : U256)
      else (checkedMul liq (sqrtP - price)).bind fun scaled => some (scaled >>> 96)) = some out) :
    out.toNat = 0 ∧ (sqrtP.toNat ≤ price.toNat ∨ price.toNat < minSqrtRatio.toNat) ∨
      minSqrtRatio.toNat ≤ price.toNat ∧ price.toNat < sqrtP.toNat ∧
        out.toNat = liq.toNat * (sqrtP.toNat - price.toNat) / 2 ^ 96 := by
  have hmin : (minSqrtRatio.setWidth 256).toNat = minSqrtRatio.toNat := toNat_setWidth (by decide) _
  split at hquote
  · rename_i hout
    cases hquote
    rw [BitVec.le_def, BitVec.lt_def, hmin] at hout
    exact .inl ⟨rfl, hout⟩
  · rename_i hin
    rw [BitVec.le_def, BitVec.lt_def, hmin] at hin
    obtain ⟨hlt, hge⟩ := not_or.mp hin
    obtain ⟨scaled, hscaled, hvalue⟩ := Option.bind_eq_some_iff.mp hquote
    cases hvalue
    refine .inr ⟨Nat.not_lt.mp hge, Nat.not_le.mp hlt, ?_⟩
    rw [toNat_ushiftRight_eq_div, checkedMul_eq_some.mp hscaled,
      BitVec.toNat_sub_of_le (BitVec.le_def.mpr (Nat.not_le.mp hlt).le)]

/-- What is quoted where the price falls: nothing, for no input, one that leaves the word, or a
price that leaves the range; else the amount to the lowered price. -/
theorem fallingQuote_cases (hliq : liq.toNat < 2 ^ 128) (hsqrtP : 0 < sqrtP.toNat)
    (hquote : fallingQuote sqrtP liq amount = some out) :
    out.toNat = 0 ∧ (amount.toNat = 0 ∨ 2 ^ 256 ≤ amount.toNat * sqrtP.toNat ∨
        loweredPrice sqrtP.toNat liq.toNat amount.toNat < minSqrtRatio.toNat) ∨
      liq.toNat * 2 ^ 96 + amount.toNat * sqrtP.toNat < 2 ^ 256 ∧
        minSqrtRatio.toNat ≤ loweredPrice sqrtP.toNat liq.toNat amount.toNat ∧
        loweredPrice sqrtP.toNat liq.toNat amount.toNat < sqrtP.toNat ∧
        out.toNat = liq.toNat *
          (sqrtP.toNat - loweredPrice sqrtP.toNat liq.toNat amount.toNat) / 2 ^ 96 := by
  have hone : (1 : U256).toNat = 1 := rfl
  have hzero : ∀ x : U256, 0 < x ↔ 0 < x.toNat := fun x => BitVec.lt_def
  unfold fallingQuote at hquote
  simp only [Option.bind_eq_bind] at hquote
  -- the product of the input and the price, or zero where it leaves the word
  have hproduct := toNat_mulDiv amount sqrtP 1
  rw [hone, Nat.div_one] at hproduct
  generalize mulDiv amount sqrtP 1 = product at hquote hproduct
  by_cases hfits : amount.toNat * sqrtP.toNat < 2 ^ 256
  swap
  · refine .inl ⟨?_, .inr (.inl (Nat.not_lt.mp hfits))⟩
    have hamount : 0 < amount.toNat := by
      refine Nat.pos_of_ne_zero fun h => hfits ?_
      rw [h, Nat.zero_mul]
      decide
    rw [if_neg hfits] at hproduct
    have hproduct' : product = 0 := BitVec.eq_of_toNat_eq hproduct
    rw [if_pos ⟨hproduct', (hzero _).mpr hamount, (hzero _).mpr hsqrtP⟩] at hquote
    cases hquote
    rfl
  rw [if_pos hfits] at hproduct
  rw [if_neg] at hquote
  swap
  · rintro ⟨hproduct', hamount, -⟩
    rw [hproduct'] at hproduct
    exact absurd hproduct (Nat.ne_of_lt (Nat.mul_pos ((hzero _).mp hamount) hsqrtP))
  obtain ⟨denominator, hsum, hquote⟩ := Option.bind_eq_some_iff.mp hquote
  have hdenominator := checkedAdd_eq_some.mp hsum
  rw [toNat_numerator1 hliq, hproduct] at hdenominator
  have hlarge : ¬ denominator < liq <<< 96 := by
    rw [BitVec.lt_def, toNat_numerator1 hliq, hdenominator]
    omega
  rw [if_neg hlarge] at hquote
  rw [← toNat_mulDiv_lowered hliq hdenominator]
  rcases amountTo_cases hquote with ⟨hout, hle | hlt⟩ | hin
  · refine .inl ⟨hout, .inl (Nat.eq_zero_of_not_pos fun hamount => ?_)⟩
    rw [toNat_mulDiv_lowered hliq hdenominator] at hle
    exact absurd (loweredPrice_lt hsqrtP hamount liq.toNat) (Nat.not_lt.mpr hle)
  · exact .inl ⟨hout, .inr (.inr hlt)⟩
  · exact .inr ⟨hdenominator ▸ denominator.isLt, hin⟩

/-- Where the price is rounded, one more unit of price shows in the amount out unless no multiple
of the scale lies in between. -/
theorem div_le_sub_div_iff {x liq scale : Nat} (hscale : 0 < scale) (h : liq ≤ x) :
    x / scale ≤ (x - liq) / scale ↔ liq ≤ x % scale := by
  have hx := Nat.div_add_mod' x scale
  rw [Nat.le_div_iff_mul_le hscale]
  omega

/-- The rounding of the lowered price is safe: it is that of the pool, or does not show. -/
def RoundsSafely (sqrtP liq amount : Nat) : Prop :=
  let price := loweredPrice sqrtP liq amount
  2 ^ 256 ≤ amount * sqrtP ∨ price < minSqrtRatio.toNat ∨
    liq * 2 ^ 96 + amount * sqrtP ∣ liq * 2 ^ 96 * sqrtP ∨ liq ≤ liq * (sqrtP - price) % 2 ^ 96

theorem falling_le_iff (hliq : liq.toNat < 2 ^ 128) (hpos : 0 < liq.toNat)
    (hsqrtP : 0 < sqrtP.toNat) (hquote : fallingQuote sqrtP liq amount = some out) :
    out.toNat ≤ getAmount1Delta
        (getNextSqrtPriceFromInput sqrtP.toNat liq.toNat amount.toNat true) sqrtP.toNat liq.toNat ↔
      RoundsSafely sqrtP.toNat liq.toNat amount.toNat := by
  rcases fallingQuote_cases hliq hsqrtP hquote with ⟨hout, hcause⟩ | ⟨hfits, hmin, hlt, hout⟩
  · refine iff_of_true (hout ▸ Nat.zero_le _) ?_
    rcases hcause with hcause | hcause | hcause
    · refine .inr (.inr (.inl ?_))
      rw [hcause, Nat.zero_mul, Nat.add_zero]
      exact Nat.dvd_mul_right _ _
    · exact .inl hcause
    · exact .inr (.inl hcause)
  have hproduct : amount.toNat * sqrtP.toNat < 2 ^ 256 := by omega
  rw [hout, RoundsSafely, getNextSqrtPriceFromInput, if_pos rfl,
    getNextSqrtPriceFromAmount0RoundingUp, if_pos ⟨hproduct, hfits⟩, divRoundingUp, getAmount1Delta]
  rw [or_iff_right (Nat.not_le.mpr hproduct), or_iff_right (Nat.not_lt.mpr hmin)]
  split <;> rename_i hdvd
  · exact iff_of_true (Nat.le_refl _) (.inl hdvd)
  · rw [or_iff_right hdvd, ← loweredPrice, ← Nat.sub_sub, Nat.mul_sub_one]
    exact div_le_sub_div_iff (by decide) (Nat.le_mul_of_pos_right _ (Nat.sub_pos_of_lt hlt))

/-! ## Rising price -/

/-- What is quoted where the price rises by no more than it does in the pool. -/
theorem risingQuote_cases (hliq : liq.toNat < 2 ^ 128)
    (hquote : risingQuote sqrtP liq amount = some out) :
    out.toNat = 0 ∨ ∃ delta ≤ amount.toNat * 2 ^ 96 / liq.toNat,
      out.toNat = liq.toNat * 2 ^ 96 / sqrtP.toNat * delta / (sqrtP.toNat + delta) := by
  unfold risingQuote at hquote
  simp only [Option.bind_eq_bind] at hquote
  split at hquote
  · cases hquote
    exact .inl rfl
  -- the shift drops what leaves the word
  have hdelta : ((amount <<< 96) / liq).toNat ≤ amount.toNat * 2 ^ 96 / liq.toNat := by
    rw [BitVec.toNat_udiv, BitVec.toNat_shiftLeft, Nat.shiftLeft_eq]
    exact Nat.div_le_div_right (Nat.mod_le _ _)
  generalize (amount <<< 96) / liq = delta at hquote hdelta
  cases hsum : checkedAdd sqrtP delta with
  | none => rw [hsum] at hquote; cases hquote
  | some price =>
  rw [hsum, Option.bind_some] at hquote
  have hprice := checkedAdd_eq_some.mp hsum
  split at hquote
  · cases hquote
    exact .inl rfl
  cases hscaled : checkedMul ((liq <<< 96) / sqrtP) (price - sqrtP) with
  | none => rw [hscaled] at hquote; cases hquote
  | some scaled =>
    rw [hscaled] at hquote
    cases hquote
    refine .inr ⟨delta.toNat, hdelta, ?_⟩
    rw [BitVec.toNat_udiv, checkedMul_eq_some.mp hscaled, BitVec.toNat_udiv,
      toNat_numerator1 hliq, BitVec.toNat_sub_of_le (BitVec.le_def.mpr (by omega)), hprice,
      Nat.add_sub_cancel_left]

/-- A share of the liquidity that grows with the price. -/
theorem share_mono {delta delta' : Nat} (h : delta ≤ delta') (value sqrtP : Nat) :
    value * delta / (sqrtP + delta) ≤ value * delta' / (sqrtP + delta') := by
  rcases Nat.eq_zero_or_pos (sqrtP + delta) with hzero | hpos
  · rw [hzero, Nat.div_zero]
    exact Nat.zero_le _
  rw [Nat.le_div_iff_mul_le (by omega)]
  have hfloor := Nat.div_mul_le_self (value * delta) (sqrtP + delta)
  have hcross : value * delta * (sqrtP + delta') ≤ value * delta' * (sqrtP + delta) := by
    have := Nat.mul_le_mul_left (value * sqrtP) h
    nlinarith
  refine Nat.le_of_mul_le_mul_right ?_ hpos
  calc value * delta / (sqrtP + delta) * (sqrtP + delta') * (sqrtP + delta)
      = value * delta / (sqrtP + delta) * (sqrtP + delta) * (sqrtP + delta') := by ring
    _ ≤ value * delta * (sqrtP + delta') := Nat.mul_le_mul_right _ hfloor
    _ ≤ value * delta' * (sqrtP + delta) := hcross

/-- Where the price rises, every floor of the quote lowers it. -/
theorem rising_le (hliq : liq.toNat < 2 ^ 128) (hsqrtP : 0 < sqrtP.toNat)
    (hquote : risingQuote sqrtP liq amount = some out) :
    out.toNat ≤ getAmount0Delta sqrtP.toNat
      (getNextSqrtPriceFromInput sqrtP.toNat liq.toNat amount.toNat false) liq.toNat := by
  rcases risingQuote_cases hliq hquote with hout | ⟨delta, hdelta, hout⟩
  · exact hout ▸ Nat.zero_le _
  rw [hout, getNextSqrtPriceFromInput, if_neg Bool.false_ne_true,
    getNextSqrtPriceFromAmount1RoundingDown, getAmount0Delta, Nat.add_sub_cancel_left,
    Nat.le_div_iff_mul_le hsqrtP]
  refine le_trans ?_ (share_mono hdelta _ _)
  -- the quotient by the old price is rounded before it is scaled
  calc _ ≤ liq.toNat * 2 ^ 96 / sqrtP.toNat * delta * sqrtP.toNat / (sqrtP.toNat + delta) := by
        rw [Nat.mul_comm, Nat.mul_comm (_ * delta)]
        exact Nat.mul_div_le_mul_div_assoc _ _ _
    _ = liq.toNat * 2 ^ 96 / sqrtP.toNat * sqrtP.toNat * delta / (sqrtP.toNat + delta) := by
        rw [Nat.mul_right_comm]
    _ ≤ liq.toNat * 2 ^ 96 * delta / (sqrtP.toNat + delta) :=
        Nat.div_le_div_right (Nat.mul_le_mul_right _ (Nat.div_mul_le_self _ _))

/-- **The quote is at most the output of a step of the pool exactly where its rounding is safe**,
which it is wherever the price rises. -/
theorem quoteV3Math_le_iff (view : PoolView) (pool : Address) (amountIn : U256) (zeroForOne : Bool)
    (fee : UInt32) (sqrtPriceX96 : BitVec 160) (liquidity : BitVec 128) (out : U256)
    (hslot : view.slot0 pool = some sqrtPriceX96) (hliq : view.liquidity pool = some liquidity)
    (hrange : minSqrtRatio ≤ sqrtPriceX96 ∧ sqrtPriceX96 < maxSqrtRatio) (hpos : 0 < liquidity)
    (hfee : fee.toNat < 1000000)
    (hquote : quoteV3Math view pool amountIn zeroForOne fee = some out) :
    out.toNat ≤ exactInputStep sqrtPriceX96.toNat liquidity.toNat amountIn.toNat fee.toNat
        zeroForOne ↔
      (zeroForOne = true → RoundsSafely sqrtPriceX96.toNat liquidity.toNat
        (amountRemainingLessFee amountIn.toNat fee.toNat)) := by
  have hsqrtP : 0 < sqrtPriceX96.toNat := by
    have hmin : 0 < minSqrtRatio.toNat := by decide
    exact hmin.trans_le (BitVec.le_def.mp hrange.1)
  have hpos' : 0 < liquidity.toNat := BitVec.lt_def.mp hpos
  have hsqrtP256 := toNat_setWidth (w := 160) (by decide) sqrtPriceX96
  have hliq256 := toNat_setWidth (w := 128) (by decide) liquidity
  unfold exactInputStep
  rcases quoteV3Math_cases hslot hliq hfee hquote hsqrtP hpos' with
    ⟨hout, hamount⟩ | ⟨afterFee, hamount, hquote⟩
  · refine iff_of_true (hout ▸ Nat.zero_le _) fun _ => .inr (.inr (.inl ?_))
    rw [hamount, Nat.zero_mul, Nat.add_zero]
    exact Nat.dvd_mul_right _ _
  rw [← hamount, ← hsqrtP256, ← hliq256]
  rw [← hsqrtP256] at hsqrtP
  rw [← hliq256] at hpos'
  have hliq128 : (liquidity.setWidth 256).toNat < 2 ^ 128 := hliq256 ▸ liquidity.isLt
  cases zeroForOne with
  | true =>
    simp only [if_true, true_imp_iff] at hquote ⊢
    exact falling_le_iff hliq128 hpos' hsqrtP hquote
  | false =>
    simp only [Bool.false_eq_true, if_false, false_imp_iff, iff_true] at hquote ⊢
    exact rising_le hliq128 hsqrtP hquote

/-! ### A price that is rounded down -/

/-- A pool at price one. -/
def evenPool (liquidity : BitVec 128) : PoolView where
  token0 _ := some 1
  token1 _ := some 2
  getReserves _ := none
  slot0 _ := some (2 ^ 96)
  liquidity _ := some liquidity
  swap _ _ _ _ := .reverted []

/-- Deep liquidity, and an input that moves the price by less than its unit: the pool pays nothing
and the quote is the amount a whole unit of price lets out. -/
theorem not_quoteV3Math_le :
    quoteV3Math (evenPool (2 ^ 120)) 9 1000000 true 500 = some 16777216 ∧
      ¬ (16777216 : U256).toNat ≤ exactInputStep (2 ^ 96) (2 ^ 120) 1000000 500 true ∧
      minSqrtRatio ≤ (2 ^ 96 : BitVec 160) ∧ (2 ^ 96 : BitVec 160) < maxSqrtRatio := by
  decide +kernel

/-- Less liquidity, where the rounding does not show. -/
theorem quoteV3Math_le_iff_even :
    (998 : U256).toNat ≤ exactInputStep (2 ^ 96 : BitVec 160).toNat (10 ^ 6 : BitVec 128).toNat
        (1000 : U256).toNat (500 : UInt32).toNat true ↔
      (true = true → RoundsSafely (2 ^ 96 : BitVec 160).toNat (10 ^ 6 : BitVec 128).toNat
        (amountRemainingLessFee (1000 : U256).toNat (500 : UInt32).toNat)) :=
  quoteV3Math_le_iff (evenPool (10 ^ 6)) 9 1000 true 500 (2 ^ 96) (10 ^ 6) 998 rfl rfl
    (by decide +kernel) (by decide) (by decide) (by decide +kernel)

end ArbBot.FlashQuoter
