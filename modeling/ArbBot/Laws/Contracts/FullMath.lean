import ArbBot.Contracts.FullMath
import ArbBot.Lib.WideDivision

/-!
# Products of 512 bits

Both copies of `mulDiv` give the exact quotient of the product, whenever it is a word.
-/

namespace ArbBot

open Lib

namespace FullMath

variable {a b d : U256}

theorem toNat_mulmod (hd : d ≠ 0) : (mulmod a b d).toNat = a.toNat * b.toNat % d.toNat := by
  have hpos : 0 < d.toNat := BitVec.pos_iff_ne_zero d |>.mpr hd
  have hlt : a.toNat * b.toNat % d.toNat < 2 ^ 256 := (Nat.mod_lt _ hpos).trans d.isLt
  rw [mulmod, if_neg hd, BitVec.toNat_ofNat, Nat.mod_eq_of_lt hlt]

/-- The high word of the product. -/
theorem toNat_prod1 (a b : U256) : (prod1 a b).toNat = a.toNat * b.toNat / 2 ^ 256 := by
  have ha := a.isLt
  have hb := b.isLt
  have hproduct : a.toNat * b.toNat ≤ (2 ^ 256 - 1) * (2 ^ 256 - 1) :=
    Nat.mul_le_mul (by omega) (by omega)
  obtain ⟨hmm, hhigh⟩ := high_word hproduct (by decide)
  have hvalue : (mulmod a b (~~~0)).toNat = a.toNat * b.toNat % (2 ^ 256 - 1) :=
    toNat_mulmod (by decide)
  have hlow : (a * b).toNat = a.toNat * b.toNat % 2 ^ 256 := BitVec.toNat_mul ..
  rw [← hvalue, ← hlow] at hmm
  have hlt := (a * b).isLt
  have hlt' := (mulmod a b (~~~0)).isLt
  simp only [prod1, flag, BitVec.lt_def]
  generalize (mulmod a b (~~~0)) = mm at *
  generalize a * b = prod0 at *
  generalize a.toNat * b.toNat / 2 ^ 256 = high at *
  split at hmm
  · rename_i hless
    have hone : (1 : U256).toNat = 1 := rfl
    rw [if_pos hless, BitVec.toNat_sub, BitVec.toNat_sub, hone]
    omega
  · rename_i hmore
    have hzero : (0 : U256).toNat = 0 := rfl
    rw [if_neg hmore, BitVec.toNat_sub, BitVec.toNat_sub, hzero]
    omega

theorem prod1_eq_zero : prod1 a b = 0 ↔ a.toNat * b.toNat < 2 ^ 256 := by
  have hzero : prod1 a b = 0 ↔ (prod1 a b).toNat = 0 := BitVec.toNat_inj.symm
  rw [hzero, toNat_prod1, Nat.div_eq_zero_iff]
  simp

theorem prod1_lt : prod1 a b < d ↔ a.toNat * b.toNat / d.toNat < 2 ^ 256 ∧ d ≠ 0 := by
  rw [BitVec.lt_def, toNat_prod1, Nat.div_lt_iff_lt_mul (Nat.two_pow_pos 256)]
  by_cases hd : d = 0
  · subst hd
    simp
  · have hpos : 0 < d.toNat := BitVec.pos_iff_ne_zero d |>.mpr hd
    rw [Nat.div_lt_iff_lt_mul hpos, Nat.mul_comm d.toNat]
    exact ⟨fun h => ⟨h, hd⟩, fun h => h.1⟩

/-! ## The division -/

theorem invert_eq (denom : U256) (rounds : Nat) :
    invert denom rounds = newtonInverse denom ((3 * denom) ^^^ 2) rounds := by
  induction rounds with
  | zero => rfl
  | succ rounds ih => rw [invert, newtonInverse, ih]

/-- Of an odd word, the first guess is the inverse in four bits. -/
theorem sixteen_dvd_seed (hodd : Odd d.toNat) : (16 : U256) ∣ 1 - d * ((3 * d) ^^^ 2) := by
  have hnibble : ∀ x : BitVec 4, x.getLsbD 0 = true → 1 - x * ((3 * x) ^^^ 2) = 0 := by decide
  have hbit : (d.setWidth 4).getLsbD 0 = true := by
    rw [BitVec.getLsbD_setWidth, BitVec.getLsbD, Nat.testBit_zero]
    simpa using Nat.odd_iff.mp hodd
  have hlow : (1 - d * ((3 * d) ^^^ 2)).setWidth 4 = 0 := by
    rw [← hnibble _ hbit, BitVec.sub_eq_add_neg, BitVec.sub_eq_add_neg,
      BitVec.setWidth_add _ _ (by decide), BitVec.setWidth_neg_of_le (by decide),
      BitVec.setWidth_mul _ _ (by decide), BitVec.setWidth_xor, BitVec.setWidth_mul _ _ (by decide)]
    rfl
  have hmod := congrArg BitVec.toNat hlow
  rw [BitVec.toNat_setWidth] at hmod
  refine ⟨BitVec.ofNat 256 ((1 - d * ((3 * d) ^^^ 2)).toNat / 16), BitVec.eq_of_toNat_eq ?_⟩
  generalize (1 - d * ((3 * d) ^^^ 2)) = x at *
  have hlt := x.isLt
  have hzero : (0 : BitVec 4).toNat = 0 := rfl
  have hsixteen : (16 : U256).toNat = 16 := rfl
  rw [hzero] at hmod
  rw [BitVec.toNat_mul, BitVec.toNat_ofNat, hsixteen]
  omega

/-- Six rounds, and any further ones, invert an odd word. -/
theorem mul_invert (hodd : Odd d.toNat) {rounds : Nat} (hrounds : 6 ≤ rounds) :
    d * invert d rounds = 1 := by
  rw [invert_eq]
  apply mul_newtonInverse (sixteen_dvd_seed hodd)
  have hpow : (16 : U256) ^ 2 ^ 6 = 0 := by decide +kernel
  rw [← Nat.add_sub_of_le hrounds, pow_add, pow_mul, hpow, zero_pow (by simp)]

/-- Without its remainder the product is a multiple of the divisor, in two words. -/
theorem exact_words {p r : Nat} {high low rem : U256} (hr : r ≤ p) (hsmall : r < 2 ^ 256)
    (hhigh : high.toNat = p / 2 ^ 256) (hlow : low.toNat = p % 2 ^ 256) (hrem : rem.toNat = r) :
    (high - flag (low < rem)).toNat * 2 ^ 256 + (low - rem).toNat = p - r := by
  have hsplit := Nat.div_add_mod p (2 ^ 256)
  have hlt := high.isLt
  have hone : (1 : U256).toNat = 1 := rfl
  have hzero : (0 : U256).toNat = 0 := rfl
  rw [← hhigh, ← hlow] at hsplit
  unfold flag
  by_cases hless : low < rem
  · have hborrow := BitVec.lt_def.mp hless
    rw [if_pos hless, BitVec.toNat_sub, BitVec.toNat_sub, hone, hrem]
    omega
  · have hmore := BitVec.not_lt.mp hless
    rw [if_neg hless, BitVec.toNat_sub_of_le hmore, BitVec.toNat_sub, hzero, hrem]
    rw [BitVec.le_def, hrem] at hmore
    omega

/-- The factor that moves the high word down. -/
theorem toNat_shift {t : Nat} {twos : U256} (ht : t < 256) (htwos : twos.toNat = 2 ^ t) :
    ((0 - twos) / twos + 1).toNat = 2 ^ (256 - t) % 2 ^ 256 := by
  have hpos : 0 < 2 ^ t := Nat.two_pow_pos t
  have hsplit : 2 ^ 256 = 2 ^ t * 2 ^ (256 - t) := by
    rw [← pow_add, Nat.add_sub_cancel' (Nat.le_of_lt ht)]
  have hlt : 2 ^ t < 2 ^ 256 := htwos ▸ twos.isLt
  have hone : (1 : U256).toNat = 1 := rfl
  have hneg : (0 - twos).toNat = 2 ^ 256 - 2 ^ t := by
    have hzero : (0 : U256).toNat = 0 := rfl
    rw [BitVec.toNat_sub, htwos, hzero]
    omega
  have hdiv : (2 ^ 256 - 2 ^ t) / 2 ^ t + 1 = 2 ^ (256 - t) := by
    rw [hsplit, ← Nat.mul_sub_one, Nat.mul_div_cancel_left _ hpos]
    exact Nat.sub_add_cancel (Nat.two_pow_pos _)
  rw [BitVec.toNat_add, BitVec.toNat_udiv, hneg, htwos, hone, hdiv]

/-- **The division of the double word is exact** once the quotient fits. -/
theorem toNat_divide {rounds : Nat} (hrounds : 6 ≤ rounds) (hd : d ≠ 0)
    (hfits : a.toNat * b.toNat / d.toNat < 2 ^ 256) :
    (divide rounds a b d).toNat = a.toNat * b.toNat / d.toNat := by
  obtain ⟨t, m, ht, hodd, hvalue, htwos⟩ := exists_lowest_bit hd
  have hrem := toNat_mulmod (a := a) (b := b) hd
  have hexact := exact_words (Nat.mod_le _ _) (hrem ▸ BitVec.isLt _) (toNat_prod1 a b)
    (BitVec.toNat_mul a b) hrem
  have hodd' : (d / (-d &&& d)).toNat = m := by
    rw [BitVec.toNat_udiv, htwos, hvalue, Nat.mul_div_cancel_left _ (Nat.two_pow_pos t)]
  have hmultiple : a.toNat * b.toNat - a.toNat * b.toNat % d.toNat =
      2 ^ t * (m * (a.toNat * b.toNat / d.toNat)) := by
    rw [← mul_assoc, ← hvalue]
    have hsplit := Nat.div_add_mod (a.toNat * b.toNat) d.toNat
    omega
  have hneg : ∀ x : U256, 0 - x = -x := fun x => BitVec.zero_sub x
  simp only [divide, hneg]
  generalize hhigh : prod1 a b - flag (a * b < mulmod a b d) = high at *
  generalize hlow : a * b - mulmod a b d = low at *
  generalize a.toNat * b.toNat / d.toNat = q at *
  -- the shifted words are the odd part times the quotient
  have hmerged : low / (-d &&& d) ||| high * (-(-d &&& d) / (-d &&& d) + 1) =
      d / (-d &&& d) * BitVec.ofNat 256 q := by
    apply BitVec.eq_of_toNat_eq
    have hshift := toNat_shift ht htwos
    rw [hneg] at hshift
    rw [BitVec.toNat_or, BitVec.toNat_udiv, BitVec.toNat_mul, hshift, htwos, Nat.mul_mod_mod,
      shifted_words (Nat.le_of_lt ht) low.isLt, hexact, hmultiple,
      Nat.mul_div_cancel_left _ (Nat.two_pow_pos t), BitVec.toNat_mul, hodd', BitVec.toNat_ofNat,
      Nat.mod_eq_of_lt hfits]
  have hinverse : d / (-d &&& d) * invert (d / (-d &&& d)) rounds = 1 :=
    mul_invert (by rw [hodd']; exact hodd) hrounds
  rw [hmerged, mul_right_comm, hinverse, one_mul, BitVec.toNat_ofNat, Nat.mod_eq_of_lt hfits]

end FullMath

open FullMath

/-- **The bot's `mulDiv` is exact**: it gives the quotient when that is a word, and else reverts. -/
theorem V2ArbBot.mulDiv_eq_some {a b denom result : U256} :
    V2ArbBot.mulDiv a b denom = some result ↔
      0 < denom.toNat ∧ result.toNat = a.toNat * b.toNat / denom.toNat := by
  unfold V2ArbBot.mulDiv
  by_cases hdenom : denom = 0
  · rw [if_pos hdenom, hdenom]
    simp
  have hpos : 0 < denom.toNat := BitVec.pos_iff_ne_zero denom |>.mpr hdenom
  rw [if_neg hdenom]
  by_cases hshort : prod1 a b = 0
  · rw [if_pos hshort, Option.some_inj, ← BitVec.toNat_inj, BitVec.toNat_udiv, BitVec.toNat_mul,
      Nat.mod_eq_of_lt (prod1_eq_zero.mp hshort)]
    exact ⟨fun h => ⟨hpos, h.symm⟩, fun h => h.2.symm⟩
  rw [if_neg hshort]
  by_cases hfits : prod1 a b < denom
  · have hquotient := (prod1_lt.mp hfits).1
    rw [if_pos hfits, Option.some_inj, ← BitVec.toNat_inj,
      toNat_divide (Nat.le_refl 6) hdenom hquotient]
    exact ⟨fun h => ⟨hpos, h.symm⟩, fun h => h.2.symm⟩
  · rw [if_neg hfits]
    refine iff_of_false (by simp) ?_
    rintro ⟨-, hresult⟩
    exact hfits (prod1_lt.mpr ⟨hresult ▸ result.isLt, hdenom⟩)

/-- The quoter's `_mulDiv` gives zero instead. -/
theorem FlashQuoter.toNat_mulDiv (a b d : U256) :
    (FlashQuoter.mulDiv a b d).toNat =
      if a.toNat * b.toNat / d.toNat < 2 ^ 256 then a.toNat * b.toNat / d.toNat else 0 := by
  unfold FlashQuoter.mulDiv
  by_cases hd : d = 0
  · rw [if_pos hd, hd]
    simp
  rw [if_neg hd]
  by_cases hshort : prod1 a b = 0
  · have hproduct := prod1_eq_zero.mp hshort
    have hquotient := (Nat.div_le_self (a.toNat * b.toNat) d.toNat).trans_lt hproduct
    rw [if_pos hshort, if_pos hquotient, BitVec.toNat_udiv, BitVec.toNat_mul,
      Nat.mod_eq_of_lt hproduct]
  rw [if_neg hshort]
  by_cases hfits : prod1 a b < d
  · have hquotient := (prod1_lt.mp hfits).1
    rw [if_pos hfits, if_pos hquotient, toNat_divide (by decide) hd hquotient]
  · rw [if_neg hfits, if_neg fun h => hfits (prod1_lt.mpr ⟨h, hd⟩)]
    rfl

/-- A quotient that is a word, of a divisor other than zero. -/
def FullMath.Fits (a b d : U256) : Prop := d ≠ 0 ∧ a.toNat * b.toNat / d.toNat < 2 ^ 256

instance (a b d : U256) : Decidable (FullMath.Fits a b d) :=
  inferInstanceAs (Decidable (d ≠ 0 ∧ a.toNat * b.toNat / d.toNat < 2 ^ 256))

/-- The quotient as a word. -/
def FullMath.quotient (a b d : U256) : U256 := BitVec.ofNat 256 (a.toNat * b.toNat / d.toNat)

/-- **Both copies give the quotient where there is one**, and differ only in what they do where
there is none: the bot reverts, the quoter returns zero. -/
theorem mulDiv_eq_quotient (a b d : U256) :
    V2ArbBot.mulDiv a b d = (if Fits a b d then some (quotient a b d) else none) ∧
      FlashQuoter.mulDiv a b d = (if Fits a b d then quotient a b d else 0) ∧
        ∀ result, V2ArbBot.mulDiv a b d = some result → FlashQuoter.mulDiv a b d = result := by
  have hbot : V2ArbBot.mulDiv a b d = if Fits a b d then some (quotient a b d) else none := by
    by_cases hfits : Fits a b d
    · rw [if_pos hfits, V2ArbBot.mulDiv_eq_some]
      exact ⟨toNat_pos hfits.1, toNat_ofNat_of_lt hfits.2⟩
    · rw [if_neg hfits, Option.eq_none_iff_forall_ne_some]
      intro result hresult
      obtain ⟨hpos, hvalue⟩ := V2ArbBot.mulDiv_eq_some.mp hresult
      exact hfits ⟨(BitVec.pos_iff_ne_zero d).mp hpos, hvalue ▸ result.isLt⟩
  have hquoter : FlashQuoter.mulDiv a b d = if Fits a b d then quotient a b d else 0 := by
    apply BitVec.eq_of_toNat_eq
    rw [FlashQuoter.toNat_mulDiv]
    by_cases hfits : Fits a b d
    · rw [if_pos hfits, if_pos hfits.2]
      exact (toNat_ofNat_of_lt hfits.2).symm
    · rw [if_neg hfits]
      split
      · -- no divisor, and the quotient of the naturals is zero
        rename_i hlt
        have hd : d = 0 := by_contra fun hd => hfits ⟨hd, hlt⟩
        rw [hd]
        exact Nat.div_zero _
      · rfl
  refine ⟨hbot, hquoter, fun result hresult => ?_⟩
  rw [hbot] at hresult
  rw [hquoter]
  split at hresult
  · rename_i hfits
    rw [if_pos hfits]
    exact Option.some.inj hresult
  · cases hresult

end ArbBot
