import ArbBot.Laws.Calculation.SpotRate
import ArbBot.Lib.WideDivision

/-!
# Rates that pass a word

`mul_div` and `normalized_rate` divide exactly while their product fits into a word. Beyond that
they divide the high words of an operand and of the divisor, which is a different number for most
operands, and for a divisor below `2 ^ 64` leaves nothing to divide by. So the first product that
is no word is divided wrongly by every divisor but one, and for every number of decimals but zero
there is a least amount that has a wrong rate.
-/

namespace ArbBot

open Lib

/-! ## `mul_div` -/

theorem toNat_mulDiv {a b d : U256} (hd : d ≠ 0) :
    (mulDiv a b d).toNat =
      if a.toNat * b.toNat < 2 ^ 256 then a.toNat * b.toNat / d.toNat
      else if d.toNat < 2 ^ 64 then 2 ^ 256 - 1
      else a.toNat / 2 ^ 64 * b.toNat % 2 ^ 256 / (d.toNat / 2 ^ 64) := by
  have hshift : ∀ x : U256, (x >>> 64).toNat = x.toNat / 2 ^ 64 := fun x =>
    toNat_ushiftRight_eq_div x 64
  rw [mulDiv, if_neg hd]
  by_cases hfits : a.toNat * b.toNat < 2 ^ 256
  · obtain ⟨product, hproduct, hvalue⟩ := exists_checkedMul hfits
    rw [if_pos hfits, hproduct, ← hvalue]
    exact BitVec.toNat_udiv
  · have hgone : d >>> 64 = 0 ↔ d.toNat < 2 ^ 64 := by
      rw [← BitVec.toNat_inj, hshift]
      exact Nat.div_eq_zero_iff_lt (by decide)
    rw [if_neg hfits, checkedMul_eq_none (Nat.not_lt.mp hfits)]
    dsimp only
    by_cases hsmall : d.toNat < 2 ^ 64
    · rw [if_pos (hgone.mpr hsmall), if_pos hsmall]
      exact BitVec.toNat_allOnes
    · rw [if_neg (mt hgone.mp hsmall), if_neg hsmall, BitVec.toNat_udiv, BitVec.toNat_mul, hshift,
        hshift]

/-- The quotient where it is a word, else the largest word. -/
def MulDivSaturates (a b d : U256) : Prop :=
  (mulDiv a b d).toNat = satDiv (2 ^ 256) (a.toNat * b.toNat) d.toNat

theorem mulDivSaturates_of_fits {a b d : U256} (hd : d ≠ 0)
    (hfits : a.toNat * b.toNat < 2 ^ 256) : MulDivSaturates a b d := by
  rw [MulDivSaturates, toNat_mulDiv hd, if_pos hfits]
  exact (satDiv_eq_div (Nat.lt_of_le_of_lt (Nat.div_le_self _ _) hfits)).symm

/-- By a divisor below `2 ^ 64` the largest word is the answer to every product that is no word. -/
theorem mulDivSaturates_iff {a b d : U256} (hd : d ≠ 0) (hsmall : d.toNat < 2 ^ 64) :
    MulDivSaturates a b d ↔
      a.toNat * b.toNat < 2 ^ 256 ∨ (2 ^ 256 - 1) * d.toNat ≤ a.toNat * b.toNat := by
  by_cases hfits : a.toNat * b.toNat < 2 ^ 256
  · exact iff_of_true (mulDivSaturates_of_fits hd hfits) (.inl hfits)
  · rw [MulDivSaturates, toNat_mulDiv hd, if_neg hfits, if_pos hsmall, or_iff_right hfits, eq_comm]
    exact satDiv_eq_top_iff (toNat_pos hd) (by decide)

/-- The first product that is no word: one factor is shifted to nothing. -/
theorem not_mulDivSaturates_seam {d : U256} (hd : d ≠ 0) (hone : d ≠ 1) :
    ¬ MulDivSaturates (BitVec.twoPow 256 63) (BitVec.twoPow 256 193) d := by
  have hpos := toNat_pos hd
  have hlt := d.isLt
  have htwo : 2 ≤ d.toNat := by
    have hne : d.toNat ≠ 1 := fun h => hone (BitVec.eq_of_toNat_eq h)
    omega
  have hseam : (BitVec.twoPow 256 63).toNat * (BitVec.twoPow 256 193).toNat = 2 ^ 256 := by decide
  rw [MulDivSaturates, toNat_mulDiv hd, hseam, if_neg (Nat.lt_irrefl _)]
  have hquotient : 2 ^ 256 / d.toNat ≤ 2 ^ 256 / 2 := Nat.div_le_div_left htwo (by decide)
  have hsome : 0 < 2 ^ 256 / d.toNat := Nat.div_pos hlt.le hpos
  rw [satDiv_eq_div (Nat.lt_of_le_of_lt hquotient (by decide))]
  split
  · exact Nat.ne_of_gt (Nat.lt_of_le_of_lt hquotient (by decide))
  · have hgone : (BitVec.twoPow 256 63).toNat / 2 ^ 64 = 0 := by decide
    rw [hgone, Nat.zero_mul, Nat.zero_mod, Nat.zero_div]
    exact Nat.ne_of_lt hsome

/-- **How large a product `mul_div` can divide.** -/
theorem mulDivSaturates_below_iff {d : U256} (bound : Nat) (hd : d ≠ 0) :
    (∀ a b : U256, a.toNat * b.toNat < bound → MulDivSaturates a b d) ↔
      d = 1 ∨ bound ≤ 2 ^ 256 := by
  constructor
  · intro h
    by_contra hnot
    obtain ⟨hone, hbound⟩ := not_or.mp hnot
    refine not_mulDivSaturates_seam hd hone (h _ _ ?_)
    exact Nat.lt_of_le_of_lt (by decide) (Nat.not_le.mp hbound)
  · rintro (rfl | hbound) a b hlt
    · refine (mulDivSaturates_iff hd (by decide)).mpr ?_
      have hscale : (2 ^ 256 - 1) * (1 : U256).toNat = 2 ^ 256 - 1 := by decide
      rw [hscale]
      exact (Nat.lt_or_ge _ _).imp_right (Nat.sub_le_of_le_add ·.step)
    · exact mulDivSaturates_of_fits hd (hlt.trans_le hbound)

/-- Where both are met, the quotients are ordered as the operands are. -/
theorem mulDiv_le_mulDiv {a a' b b' d : U256} (h : MulDivSaturates a b d)
    (h' : MulDivSaturates a' b' d) (ha : a ≤ a') (hb : b ≤ b') :
    mulDiv a b d ≤ mulDiv a' b' d := by
  rw [BitVec.le_def, h, h']
  exact satDiv_le_satDiv (Nat.mul_le_mul ha hb)

/-! ## `normalized_rate` -/

theorem wordPow10_eq {decimals : Nat} (h : decimals ≤ 77) : wordPow10 decimals = 10 ^ decimals :=
  Nat.mod_eq_of_lt (Nat.lt_of_le_of_lt (Nat.pow_le_pow_right (by decide) h) (by decide))

/-- The rate, where it is a word. -/
def NormalizedExact (amount : U256) (decimals : UInt8) : Prop :=
  amount.toNat * 10 ^ 18 / 10 ^ decimals.toNat < 2 ^ 256 →
    (normalizedRate amount decimals).toNat = amount.toNat * 10 ^ 18 / 10 ^ decimals.toNat

/-- The first amount whose multiple by the scale is no word. -/
def firstWide : Nat := (2 ^ 256 + (10 ^ 18 - 1)) / 10 ^ 18

theorem firstWide_le_iff {amount : Nat} : firstWide ≤ amount ↔ 2 ^ 256 ≤ amount * 10 ^ 18 := by
  rw [firstWide]
  omega

/-- The first amount whose rate is wrong. Up to forty-eight decimals it is the first one that is
shifted. From there on the first shifted amounts still have the rate of `firstWide`, up to the one
whose own rate is one more, or whose shifted rate is, if that is earlier. From seventy-eight
decimals on no amount that is not shifted has a rate, but what is left of the power of ten in a word
gives it one. -/
def rateLimit (decimals : Nat) : Nat :=
  if decimals ≤ 48 then firstWide
  else if decimals ≤ 77 then
    let next := firstWide * 10 ^ 18 / 10 ^ decimals + 1
    min (next * 10 ^ (decimals - 18))
      ((next * (10 ^ decimals / 2 ^ 64) + (10 ^ 18 - 1)) / 10 ^ 18 * 2 ^ 64)
  else (wordPow10 decimals + (10 ^ 18 - 1)) / 10 ^ 18

theorem normalizedExact_of_narrow {amount : U256} {decimals : UInt8}
    (hword : decimals.toNat ≤ 77) (hfits : amount.toNat * 10 ^ 18 < 2 ^ 256) :
    NormalizedExact amount decimals := by
  intro _
  rw [toNat_normalizedRate, normalized, if_pos hfits, wordPow10_eq hword]

/-- By a power of ten below `2 ^ 64` there is no rate of an amount that is shifted. -/
theorem normalizedExact_iff {amount : U256} {decimals : UInt8} (hsmall : decimals.toNat < 20) :
    NormalizedExact amount decimals ↔
      amount.toNat * 10 ^ 18 < 2 ^ 256 ∨
      2 ^ 256 * 10 ^ decimals.toNat ≤ amount.toNat * 10 ^ 18 := by
  have hpos : 0 < 10 ^ decimals.toNat := Nat.pow_pos (by decide)
  have hword : wordPow10 decimals.toNat = 10 ^ decimals.toNat := wordPow10_eq (by omega)
  by_cases hfits : amount.toNat * 10 ^ 18 < 2 ^ 256
  · exact iff_of_true (normalizedExact_of_narrow (by omega) hfits) (.inl hfits)
  have hle : 10 ^ decimals.toNat ≤ 10 ^ 19 := Nat.pow_le_pow_right (by decide) (by omega)
  have hgone : 10 ^ decimals.toNat / 2 ^ 64 = 0 :=
    Nat.div_eq_of_lt (Nat.lt_of_le_of_lt hle (by decide))
  have hrate : 0 < amount.toNat * 10 ^ 18 / 10 ^ decimals.toNat :=
    Nat.div_pos (hle.trans ((by decide : 10 ^ 19 ≤ 2 ^ 256).trans (Nat.not_lt.mp hfits))) hpos
  rw [NormalizedExact, toNat_normalizedRate, normalized, if_neg hfits, hword, hgone, Nat.div_zero,
    imp_iff_not hrate.ne, Nat.not_lt, or_iff_right hfits, Nat.le_div_iff_mul_le hpos]

/-- The bound is met by a rate that is a word, and the rate there is another one. -/
theorem rateLimit_wrong : ∀ decimals < 256, 0 < decimals →
    rateLimit decimals < 2 ^ 256 ∧
    rateLimit decimals * 10 ^ 18 / 10 ^ decimals < 2 ^ 256 ∧
    normalized (rateLimit decimals) decimals ≠ rateLimit decimals * 10 ^ 18 / 10 ^ decimals := by
  decide +kernel

/-- The shifted rate of the first amount that is shifted is right from forty-nine decimals on. -/
theorem firstWide_right : ∀ decimals < 78, 48 < decimals →
    firstWide / 2 ^ 64 * 10 ^ 18 / (10 ^ decimals / 2 ^ 64) = firstWide * 10 ^ 18 / 10 ^ decimals ∧
    0 < 10 ^ decimals / 2 ^ 64 := by
  decide +kernel

/-- What is shifted below the bound has the rate of `firstWide`. -/
theorem normalized_of_wide {amount decimals : Nat} (hdec : 48 < decimals) (hword : decimals ≤ 77)
    (hwide : firstWide ≤ amount) (hlt : amount < rateLimit decimals) :
    amount / 2 ^ 64 * 10 ^ 18 / (10 ^ decimals / 2 ^ 64) = amount * 10 ^ 18 / 10 ^ decimals := by
  obtain ⟨hright, hpos⟩ := firstWide_right decimals (Nat.lt_succ_of_le hword) hdec
  rw [rateLimit, if_neg (Nat.not_le.mpr hdec), if_pos hword] at hlt
  obtain ⟨hexact, hshifted⟩ := Nat.lt_min.mp hlt
  have hten : 0 < 10 ^ decimals := Nat.pow_pos (by decide)
  have hsplit : 10 ^ decimals = 10 ^ (decimals - 18) * 10 ^ 18 := by
    rw [← Nat.pow_add, Nat.sub_add_cancel (by omega)]
  have hlow := Nat.div_le_div_right (c := 10 ^ decimals) (Nat.mul_le_mul_right (10 ^ 18) hwide)
  have hlow' := Nat.div_le_div_right (c := 10 ^ decimals / 2 ^ 64)
    (Nat.mul_le_mul_right (10 ^ 18) (Nat.div_le_div_right (c := 2 ^ 64) hwide))
  have hhigh : amount * 10 ^ 18 / 10 ^ decimals < firstWide * 10 ^ 18 / 10 ^ decimals + 1 := by
    rw [Nat.div_lt_iff_lt_mul hten, hsplit, ← Nat.mul_assoc]
    rw [hsplit] at hexact
    exact Nat.mul_lt_mul_of_pos_right hexact (by decide)
  have hhigh' : amount / 2 ^ 64 * 10 ^ 18 / (10 ^ decimals / 2 ^ 64) <
      firstWide * 10 ^ 18 / 10 ^ decimals + 1 := by
    rw [Nat.div_lt_iff_lt_mul hpos]
    generalize (firstWide * 10 ^ 18 / 10 ^ decimals + 1) * (10 ^ decimals / 2 ^ 64) = z
      at hshifted ⊢
    omega
  rw [hright] at hlow'
  exact (Nat.le_antisymm (Nat.le_of_lt_succ hhigh') hlow').trans
    (Nat.le_antisymm (Nat.le_of_lt_succ hhigh) hlow).symm

theorem normalizedExact_of_lt {amount : U256} {decimals : UInt8}
    (hlt : amount.toNat < rateLimit decimals.toNat) : NormalizedExact amount decimals := by
  rcases Nat.lt_or_ge amount.toNat firstWide with hnarrow | hwide
  · have hfits : amount.toNat * 10 ^ 18 < 2 ^ 256 := by
      rw [← Nat.not_le, ← firstWide_le_iff]
      exact Nat.not_le.mpr hnarrow
    by_cases hword : decimals.toNat ≤ 77
    · exact normalizedExact_of_narrow hword hfits
    · -- neither has a rate
      have hbelow : amount.toNat * 10 ^ 18 < wordPow10 decimals.toNat := by
        rw [rateLimit, if_neg (by omega), if_neg hword] at hlt
        omega
      have hlarge : 2 ^ 256 ≤ 10 ^ decimals.toNat :=
        (by decide : 2 ^ 256 ≤ 10 ^ 78).trans (Nat.pow_le_pow_right (by decide) (by omega))
      intro _
      rw [toNat_normalizedRate, normalized, if_pos hfits, Nat.div_eq_of_lt hbelow,
        Nat.div_eq_of_lt (hfits.trans_le hlarge)]
  · have hnotfits : ¬ amount.toNat * 10 ^ 18 < 2 ^ 256 :=
      Nat.not_lt.mpr (firstWide_le_iff.mp hwide)
    have hdec : 48 < decimals.toNat := by
      by_contra hsmall
      rw [rateLimit, if_pos (Nat.not_lt.mp hsmall)] at hlt
      omega
    have hword : decimals.toNat ≤ 77 := by
      by_contra hlarge
      rw [rateLimit, if_neg (by omega), if_neg hlarge] at hlt
      have hwrapped : wordPow10 decimals.toNat < 2 ^ 256 := Nat.mod_lt _ (by decide)
      omega
    intro _
    rw [toNat_normalizedRate, normalized, if_neg hnotfits, wordPow10_eq hword]
    exact normalized_of_wide hdec hword hwide hlt

/-- **How large an amount `normalized_rate` has the right rate of.** -/
theorem normalizedExact_below_iff (decimals : UInt8) (bound : Nat) :
    (∀ amount : U256, amount.toNat < bound → NormalizedExact amount decimals) ↔
      decimals = 0 ∨ bound ≤ rateLimit decimals.toNat := by
  constructor
  · intro h
    by_contra hnot
    obtain ⟨hzero, hbound⟩ := not_or.mp hnot
    have hpos : 0 < decimals.toNat := by
      refine Nat.pos_of_ne_zero fun heq => hzero ?_
      exact UInt8.toNat_inj.mp heq
    obtain ⟨hword, hrate, hwrong⟩ := rateLimit_wrong decimals.toNat decimals.toNat_lt hpos
    have hvalue : (BitVec.ofNat 256 (rateLimit decimals.toNat)).toNat = rateLimit decimals.toNat :=
      (BitVec.toNat_ofNat _ _).trans (Nat.mod_eq_of_lt hword)
    have hexact := h (BitVec.ofNat 256 (rateLimit decimals.toNat))
      (hvalue.trans_lt (Nat.not_le.mp hbound))
    rw [NormalizedExact, toNat_normalizedRate, hvalue] at hexact
    exact hwrong (hexact hrate)
  · rintro (rfl | hbound) amount hlt
    · refine (normalizedExact_iff (by decide)).mpr ?_
      have hten : 2 ^ 256 * 10 ^ (0 : UInt8).toNat = 2 ^ 256 := by decide
      rw [hten]
      exact Nat.lt_or_ge _ _
    · exact normalizedExact_of_lt (hlt.trans_le hbound)

/-- Where both are met and the larger rate is a word, the rates are ordered as the amounts are. -/
theorem normalizedRate_le_normalizedRate {amount amount' : U256} {decimals : UInt8}
    (h : NormalizedExact amount decimals) (h' : NormalizedExact amount' decimals)
    (hle : amount ≤ amount')
    (hfits : amount'.toNat * 10 ^ 18 / 10 ^ decimals.toNat < 2 ^ 256) :
    normalizedRate amount decimals ≤ normalizedRate amount' decimals := by
  have hrates : amount.toNat * 10 ^ 18 / 10 ^ decimals.toNat ≤
      amount'.toNat * 10 ^ 18 / 10 ^ decimals.toNat :=
    Nat.div_le_div_right (Nat.mul_le_mul_right _ hle)
  rw [BitVec.le_def, h (Nat.lt_of_le_of_lt hrates hfits), h' hfits]
  exact hrates

/-! ## Both -/

/-- **Up to which product and which amount the helpers are what they approximate**, for each divisor
and each number of decimals; for a small divisor and a small power of ten, for which operands. There
they are ordered as their operands. -/
theorem wideRates_iff (d : U256) (decimals : UInt8) (bound : Nat) (hd : d ≠ 0) :
    ((∀ a b : U256, a.toNat * b.toNat < bound → MulDivSaturates a b d) ↔
      d = 1 ∨ bound ≤ 2 ^ 256) ∧
    ((∀ amount : U256, amount.toNat < bound → NormalizedExact amount decimals) ↔
      decimals = 0 ∨ bound ≤ rateLimit decimals.toNat) ∧
    (d.toNat < 2 ^ 64 → ∀ a b : U256, MulDivSaturates a b d ↔
      a.toNat * b.toNat < 2 ^ 256 ∨ (2 ^ 256 - 1) * d.toNat ≤ a.toNat * b.toNat) ∧
    (decimals.toNat < 20 → ∀ amount : U256, NormalizedExact amount decimals ↔
      amount.toNat * 10 ^ 18 < 2 ^ 256 ∨
      2 ^ 256 * 10 ^ decimals.toNat ≤ amount.toNat * 10 ^ 18) ∧
    (∀ a b a' b' : U256, a ≤ a' → b ≤ b' → a'.toNat * b'.toNat < 2 ^ 256 →
      mulDiv a b d ≤ mulDiv a' b' d) ∧
    ∀ amount amount' : U256, amount ≤ amount' → amount'.toNat < rateLimit decimals.toNat →
      amount'.toNat * 10 ^ 18 / 10 ^ decimals.toNat < 2 ^ 256 →
      normalizedRate amount decimals ≤ normalizedRate amount' decimals := by
  refine ⟨mulDivSaturates_below_iff bound hd, normalizedExact_below_iff decimals bound,
    fun hsmall _ _ => mulDivSaturates_iff hd hsmall, fun hsmall _ => normalizedExact_iff hsmall,
    ?_, ?_⟩
  · intro a b a' b' ha hb hfits
    have hfits' : a.toNat * b.toNat < 2 ^ 256 := (Nat.mul_le_mul ha hb).trans_lt hfits
    exact mulDiv_le_mulDiv (mulDivSaturates_of_fits hd hfits') (mulDivSaturates_of_fits hd hfits)
      ha hb
  · intro amount amount' hle hlt hfits
    have hlt' : amount.toNat < rateLimit decimals.toNat := Nat.lt_of_le_of_lt hle hlt
    exact normalizedRate_le_normalizedRate (normalizedExact_of_lt hlt') (normalizedExact_of_lt hlt)
      hle hfits

/-- By the scale every product that is a word is divided, and not the next one; of a token of
eighteen decimals `firstWide` base units have a wrong rate, and a third of them the right one. -/
theorem wideRates_iff_eighteen :
    (∀ a b : U256, a.toNat * b.toNat < 2 ^ 256 → MulDivSaturates a b rateScale) ∧
    (¬ ∀ a b : U256, a.toNat * b.toNat < 2 ^ 256 + 1 → MulDivSaturates a b rateScale) ∧
    ¬ NormalizedExact (BitVec.ofNat 256 firstWide) 18 ∧
    NormalizedExact (BitVec.ofNat 256 (firstWide / 3)) 18 := by
  obtain ⟨hmulDiv, -, -, hrate, -, -⟩ := wideRates_iff rateScale 18 (2 ^ 256) (by decide)
  obtain ⟨hmore, -, -, -, -, -⟩ := wideRates_iff rateScale 18 (2 ^ 256 + 1) (by decide)
  refine ⟨hmulDiv.mpr (.inr (Nat.le_refl _)), ?_, ?_, ?_⟩
  · rw [hmore]
    decide +kernel
  · rw [hrate (by decide)]
    decide +kernel
  · rw [hrate (by decide)]
    decide +kernel

/-- Two rates of `2 ^ 128`, whose product is divided by the scale; and `2 ^ 200` base units of a
token of eighteen decimals. The quotient of the first is a word, but the largest word is returned;
the second is its own rate, but none is returned, and a smaller amount has one. -/
theorem not_wideRates :
    ¬ MulDivSaturates (BitVec.twoPow 256 128) (BitVec.twoPow 256 128) rateScale ∧
    ¬ NormalizedExact (BitVec.twoPow 256 200) 18 ∧
    normalizedRate (BitVec.twoPow 256 200) 18 < normalizedRate (BitVec.twoPow 256 100) 18 := by
  refine ⟨?_, ?_, ?_⟩
  · rw [MulDivSaturates]
    decide +kernel
  · rw [NormalizedExact]
    decide +kernel
  · decide +kernel

end ArbBot
