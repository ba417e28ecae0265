import ArbBot.Calculation.V3
import ArbBot.Lib.BitScan

/-!
# The search for the next tick

What `find_next_initialized_tick` looks for, over any spacing and any set of ticks: the nearest
initialised tick within the word of 256 ticks where the search starts, else the last tick of that
word. And that the masks and bit scans of the code find it, in a word that shows the ticks.
-/

namespace ArbBot

namespace V3

open Lib

/-- The tick of a bit of a word. -/
def tickOf (spacing word : Int) (bit : Nat) : Int := (word * 256 + bit) * spacing

/-- The index where a search starts: the one of the tick or below it, or the one after that. -/
def startIndex (spacing : Int) (zeroForOne : Bool) (tick : Int) : Int :=
  if zeroForOne then tick / spacing else tick / spacing + 1

/-- The nearest initialised tick of the word where the search starts, at or below the tick or above
it, else the last tick of the word. -/
def nextIn (spacing : Int) (initialized : Int → Bool) (zeroForOne : Bool) (tick : Int) :
    Int × Bool :=
  let index := startIndex spacing zeroForOne tick
  let word := index / 256
  let bit := (index % 256).toNat
  if zeroForOne then
    match lastBelow (fun i => initialized (tickOf spacing word i)) bit with
    | some i => (tickOf spacing word i, true)
    | none => (tickOf spacing word 0, false)
  else
    match firstFrom (fun i => initialized (tickOf spacing word i)) (256 - bit) bit with
    | some i => (tickOf spacing word i, true)
    | none => (tickOf spacing word 255, false)

/-- What a search from a tick has to find. -/
structure IsNext (spacing : Int) (initialized : Int → Bool) (zeroForOne : Bool) (tick : Int)
    (next : Int) (flag : Bool) : Prop where
  dvd : spacing ∣ next
  side : if zeroForOne then next ≤ tick else tick < next
  flag_eq : flag = initialized next
  between : ∀ u, spacing ∣ u → (if zeroForOne then next < u ∧ u ≤ tick else tick < u ∧ u < next) →
    initialized u = false
  word : next / spacing / 256 = startIndex spacing zeroForOne tick / 256

/-! ## Multiples of the spacing -/

section

variable {spacing tick word k : Int} {initialized : Int → Bool} {next : Int} {flag : Bool}

theorem mul_le_iff_le_div (hpos : 0 < spacing) : k * spacing ≤ tick ↔ k ≤ tick / spacing :=
  (Int.le_ediv_iff_mul_le hpos).symm

theorem lt_mul_iff_div_lt (hpos : 0 < spacing) : tick < k * spacing ↔ tick / spacing + 1 ≤ k := by
  rw [← Int.ediv_lt_iff_lt_mul hpos]
  rfl

/-- An index of a word, by its bit. -/
theorem tickOf_toNat (h : word * 256 ≤ k) :
    tickOf spacing word (k - word * 256).toNat = k * spacing := by
  unfold tickOf
  congr 1
  omega

theorem dvd_tickOf (bit : Nat) : spacing ∣ tickOf spacing word bit := Int.dvd_mul_left _ _

/-- A tick of a word is in that word. -/
theorem tickOf_div (hpos : 0 < spacing) {bit : Nat} (hbit : bit < 256) :
    tickOf spacing word bit / spacing / 256 = word := by
  rw [tickOf, Int.mul_ediv_cancel _ hpos.ne']
  omega

theorem isNext_down (hpos : 0 < spacing)
    (h : nextIn spacing initialized true tick = (next, flag)) :
    IsNext spacing initialized true tick next flag := by
  unfold nextIn startIndex at h
  simp only [if_true] at h
  have hindex : ∀ k, k * spacing ≤ tick ↔ k ≤ tick / spacing := fun k => mul_le_iff_le_div hpos
  have hword : startIndex spacing true tick = tick / spacing := rfl
  generalize tick / spacing = index at h hindex hword
  split at h
  · rename_i i hfound
    obtain ⟨hle, hset, habove⟩ := lastBelow_eq_some.1 hfound
    cases h
    refine ⟨dvd_tickOf i, (hindex _).2 (by omega), hset.symm, ?_, ?_⟩
    · rintro u ⟨k, rfl⟩ ⟨hlow, hhigh⟩
      rw [Int.mul_comm spacing k] at hlow hhigh ⊢
      have hlt : index / 256 * 256 + i < k := (Int.mul_lt_mul_right hpos).1 hlow
      have hle := (hindex k).1 hhigh
      have hclear := habove (k - index / 256 * 256).toNat (by omega) (by omega)
      rwa [tickOf_toNat (by omega)] at hclear
    · rw [tickOf_div hpos (by omega), hword]
  · rename_i hnone
    rw [lastBelow_eq_none] at hnone
    cases h
    refine ⟨dvd_tickOf 0, (hindex _).2 (by omega), (hnone 0 (Nat.zero_le _)).symm, ?_, ?_⟩
    · rintro u ⟨k, rfl⟩ ⟨hlow, hhigh⟩
      rw [Int.mul_comm spacing k] at hlow hhigh ⊢
      have hlt : index / 256 * 256 + (0 : Nat) < k := (Int.mul_lt_mul_right hpos).1 hlow
      have hle := (hindex k).1 hhigh
      have hclear := hnone (k - index / 256 * 256).toNat (by omega)
      rwa [tickOf_toNat (by omega)] at hclear
    · rw [tickOf_div hpos (by omega), hword]

theorem isNext_up (hpos : 0 < spacing)
    (h : nextIn spacing initialized false tick = (next, flag)) :
    IsNext spacing initialized false tick next flag := by
  unfold nextIn startIndex at h
  simp only [Bool.false_eq_true, if_false] at h
  have hindex : ∀ k, tick < k * spacing ↔ tick / spacing + 1 ≤ k := fun k => lt_mul_iff_div_lt hpos
  have hword : startIndex spacing false tick = tick / spacing + 1 := rfl
  generalize tick / spacing + 1 = index at h hindex hword
  split at h
  · rename_i i hfound
    obtain ⟨hlow, hhigh, hset, hbelow⟩ := firstFrom_eq_some.1 hfound
    cases h
    refine ⟨dvd_tickOf i, (hindex _).2 (by omega), hset.symm, ?_, ?_⟩
    · rintro u ⟨k, rfl⟩ ⟨hafter, hbefore⟩
      rw [Int.mul_comm spacing k] at hafter hbefore ⊢
      have hlt : k < index / 256 * 256 + i := (Int.mul_lt_mul_right hpos).1 hbefore
      have hle := (hindex k).1 hafter
      have hclear := hbelow (k - index / 256 * 256).toNat (by omega) (by omega)
      rwa [tickOf_toNat (by omega)] at hclear
    · rw [tickOf_div hpos (by omega), hword]
  · rename_i hnone
    rw [firstFrom_eq_none] at hnone
    cases h
    refine ⟨dvd_tickOf 255, (hindex _).2 (by omega), (hnone 255 (by omega) (by omega)).symm, ?_, ?_⟩
    · rintro u ⟨k, rfl⟩ ⟨hafter, hbefore⟩
      rw [Int.mul_comm spacing k] at hafter hbefore ⊢
      have hlt : k < index / 256 * 256 + (255 : Nat) := (Int.mul_lt_mul_right hpos).1 hbefore
      have hle := (hindex k).1 hafter
      have hclear := hnone (k - index / 256 * 256).toNat (by omega) (by omega)
      rwa [tickOf_toNat (by omega)] at hclear
    · rw [tickOf_div hpos (by omega), hword]

/-- **What is searched for is the next tick.** -/
theorem isNext_nextIn (hpos : 0 < spacing) (initialized : Int → Bool) (zeroForOne : Bool)
    (tick : Int) :
    IsNext spacing initialized zeroForOne tick (nextIn spacing initialized zeroForOne tick).1
      (nextIn spacing initialized zeroForOne tick).2 := by
  cases zeroForOne with
  | true => exact isNext_down hpos rfl
  | false => exact isNext_up hpos rfl

end

/-- The bitmap words, as they are read, show the initialised ticks of a spacing. -/
def Stored (keccak : Keccak) (db : BlockStateDb) (address : Address) (spacing : Int)
    (initialized : Int → Bool) : Prop :=
  ∀ (word : BitVec 16) (bit : Nat), bit < 256 →
    ((db.readV3TickBitmap keccak address word).getD 0).getLsbD bit =
      initialized (tickOf spacing word.toInt bit)

/-! ## Masks -/

theorem getLsbD_searchMask_true {bit : Nat} (hbit : bit ≤ 255) (j : Nat) :
    (searchMask true bit).getLsbD j = decide (j ≤ bit) := by
  unfold searchMask
  rw [if_pos rfl]
  split
  · rename_i h
    rw [BitVec.getLsbD_allOnes, h]
    congr 1
    exact propext ⟨fun h => by omega, fun h => by omega⟩
  · have hpow : (2 : Nat) ^ (bit + 1) < 2 ^ 256 := Nat.pow_lt_pow_right (by decide) (by omega)
    have hvalue : ((1 : U256) <<< (bit + 1) - 1).toNat = 2 ^ (bit + 1) - 1 := by
      have hshift : ((1 : U256) <<< (bit + 1)).toNat = 2 ^ (bit + 1) := by
        rw [BitVec.toNat_shiftLeft, Nat.shiftLeft_eq]
        exact (Nat.mod_eq_of_lt (by simpa using hpow)).trans (Nat.one_mul _)
      rw [BitVec.toNat_sub_of_le, hshift]
      · rfl
      · rw [BitVec.le_def, hshift]
        exact Nat.one_le_two_pow
    rw [BitVec.getLsbD, hvalue, Nat.testBit_two_pow_sub_one]
    congr 1
    exact propext Nat.lt_succ_iff

theorem getLsbD_searchMask_false {bit j : Nat} (hj : j < 256) :
    (searchMask false bit).getLsbD j = decide (bit ≤ j) := by
  unfold searchMask
  rw [if_neg Bool.false_ne_true, BitVec.getLsbD_shiftLeft, BitVec.getLsbD_allOnes,
    decide_eq_true hj]
  by_cases h : j < bit
  · simp [h]
  · have hsub : j - bit < 256 := by omega
    simp [h, hsub, Nat.le_of_not_lt h]

/-! ## Where the search starts -/

section

variable {spacing tick index k : Int} {zeroForOne : Bool} {initialized : Int → Bool}
  {keccak : Keccak} {db : BlockStateDb} {address : Address}

theorem index_range (hpos : 0 < spacing) (hlow : minTick - 1 ≤ tick) (hhigh : tick ≤ maxTick) :
    -887273 ≤ tick / spacing ∧ tick / spacing ≤ 887272 := by
  unfold minTick at hlow
  unfold maxTick at hhigh
  constructor
  · rw [Int.le_ediv_iff_mul_le hpos]
    omega
  · apply Int.lt_add_one_iff.1
    rw [Int.ediv_lt_iff_lt_mul hpos]
    omega

theorem startIndex_range (hpos : 0 < spacing) (hlow : minTick - 1 ≤ tick)
    (hhigh : tick ≤ maxTick) (zeroForOne : Bool) :
    -887273 ≤ startIndex spacing zeroForOne tick ∧ startIndex spacing zeroForOne tick ≤ 887273 := by
  have hrange := index_range hpos hlow hhigh
  unfold startIndex
  split <;> omega

theorem compress_eq (hpos : 0 < spacing) (hlow : minTick - 1 ≤ tick) (hhigh : tick ≤ maxTick) :
    compress tick spacing = some (tick / spacing) := by
  have hrange := index_range hpos hlow hhigh
  have hdiv := Int.tdiv_eq_ediv (a := tick) (b := spacing)
  have hmod : tick.tmod spacing = 0 ↔ spacing ∣ tick := Int.dvd_iff_tmod_eq_zero.symm
  have hsign : spacing.sign = 1 := Int.sign_eq_one_of_pos hpos
  unfold compress
  rw [if_neg (by omega)]
  split
  · rename_i h
    have hround : ¬ (0 ≤ tick ∨ spacing ∣ tick) := by
      rw [← hmod]
      omega
    rw [if_neg hround, hsign] at hdiv
    rw [hdiv, Int.add_sub_cancel, wrapInt_of_range (by omega) (by omega) (by decide)]
  · rename_i h
    have hexact : 0 ≤ tick ∨ spacing ∣ tick := by
      rw [← hmod]
      omega
    rw [if_pos hexact, Int.add_zero] at hdiv
    rw [hdiv]

theorem searchFrom_eq (hpos : 0 < spacing) (hlow : minTick - 1 ≤ tick) (hhigh : tick ≤ maxTick)
    (zeroForOne : Bool) :
    searchFrom zeroForOne (tick / spacing) = startIndex spacing zeroForOne tick := by
  have hrange := index_range hpos hlow hhigh
  cases zeroForOne with
  | true => rfl
  | false => exact wrapInt_of_range (by omega) (by omega) (by decide)

theorem toInt_wordPos (hlow : -887273 ≤ index) (hhigh : index ≤ 887273) :
    (wordPos index).toInt = index / 256 := by
  have hshift : index >>> (8 : Nat) = index / 256 := Int.shiftRight_eq_div_pow index 8
  rw [wordPos, hshift, BitVec.toInt_ofInt]
  exact Int.bmod_eq_of_le (by omega) (by omega)

theorem bitPos_eq (index : Int) : bitPos index = (index % 256).toNat := by
  have h := Int.tmod_eq_emod (a := index) (b := 256)
  have h' := Int.tmod_eq_emod (a := index.tmod 256 + 256) (b := 256)
  unfold bitPos
  congr 1
  split at h <;> split at h' <;> omega

/-! ## The tick that is found -/

/-- The tick of an index from the word's start up to the index of the tick fits into an `i32`. -/
theorem tick_range_down (hpos : 0 < spacing) (hspacing : spacing < 2 ^ 23)
    (hlow : minTick - 1 ≤ tick) (hhigh : tick ≤ maxTick)
    (hword : tick / spacing / 256 * 256 ≤ k) (hindex : k ≤ tick / spacing) :
    wrapInt 32 (k * spacing) = k * spacing := by
  have hrange := index_range hpos hlow hhigh
  have hfloor := Int.ediv_mul_le tick hpos.ne'
  have hceil := Int.lt_ediv_add_one_mul_self tick hpos
  rw [Int.add_mul, Int.one_mul] at hceil
  have hupper : k * spacing ≤ tick / spacing * spacing := (Int.mul_le_mul_right hpos).2 hindex
  have hnear : (tick / spacing - 255) * spacing ≤ k * spacing :=
    (Int.mul_le_mul_right hpos).2 (by omega)
  rw [Int.sub_mul] at hnear
  unfold minTick at hlow
  unfold maxTick at hhigh
  refine wrapInt_of_range ?_ (by omega) (by decide)
  by_cases hsmall : spacing ≤ 2 ^ 20
  · omega
  · -- a spacing beyond all ticks leaves the indices 0 and -1
    have hbelow : -1 ≤ tick / spacing := by
      rw [Int.le_ediv_iff_mul_le hpos]
      omega
    have hfar : -256 * spacing ≤ k * spacing := (Int.mul_le_mul_right hpos).2 (by omega)
    omega

/-- And so does that of an index from the one after the tick up to the word's end. -/
theorem tick_range_up (hpos : 0 < spacing) (hspacing : spacing < 2 ^ 23)
    (hlow : minTick - 1 ≤ tick) (hhigh : tick ≤ maxTick)
    (hindex : tick / spacing + 1 ≤ k) (hword : k ≤ (tick / spacing + 1) / 256 * 256 + 255) :
    wrapInt 32 (k * spacing) = k * spacing := by
  have hrange := index_range hpos hlow hhigh
  have hfloor := Int.ediv_mul_le tick hpos.ne'
  have hceil := Int.lt_ediv_add_one_mul_self tick hpos
  have hlower : (tick / spacing + 1) * spacing ≤ k * spacing := (Int.mul_le_mul_right hpos).2 hindex
  have hnear : k * spacing ≤ (tick / spacing + 256) * spacing :=
    (Int.mul_le_mul_right hpos).2 (by omega)
  rw [Int.add_mul] at hnear
  unfold minTick at hlow
  unfold maxTick at hhigh
  refine wrapInt_of_range (by omega) ?_ (by decide)
  by_cases hsmall : spacing ≤ 2 ^ 20
  · omega
  · have habove : tick / spacing < 1 := by
      rw [Int.ediv_lt_iff_lt_mul hpos]
      omega
    have hfar : k * spacing ≤ 255 * spacing := (Int.mul_le_mul_right hpos).2 (by omega)
    omega

theorem scanWord_down (hpos : 0 < spacing) (hspacing : spacing < 2 ^ 23)
    (hlow : minTick - 1 ≤ tick) (hhigh : tick ≤ maxTick) {bits : U256}
    (hbits : ∀ bit, bit < 256 →
      bits.getLsbD bit = initialized (tickOf spacing (tick / spacing / 256) bit)) :
    scanWord true spacing (tick / spacing) bits = nextIn spacing initialized true tick := by
  obtain ⟨hleast, hmost⟩ := index_range hpos hlow hhigh
  have hbit := bitPos_eq (tick / spacing)
  have hfound := lastBelow_of_mask (n := bitPos (tick / spacing))
    (p := fun i => initialized (tickOf spacing (tick / spacing / 256) i))
    (x := bits &&& searchMask true (bitPos (tick / spacing))) fun j => by
      rw [BitVec.getLsbD_and, getLsbD_searchMask_true (by omega)]
      by_cases hj : j ≤ bitPos (tick / spacing)
      · rw [hbits j (by omega)]
      · rw [decide_eq_false hj, Bool.and_false, Bool.and_false]
  unfold scanWord nextIn startIndex
  simp only [if_true]
  rw [toInt_wordPos hleast (by omega), ← hbit, hfound]
  by_cases hzero : bits &&& searchMask true (bitPos (tick / spacing)) = 0
  · rw [if_neg (not_not_intro hzero), if_pos hzero,
      tick_range_down hpos hspacing hlow hhigh (by omega) (by omega)]
    simp only [tickOf, Int.natCast_zero, Int.add_zero]
  · rw [if_neg hzero] at hfound ⊢
    have hle := (lastBelow_eq_some.1 hfound).1
    rw [if_pos hzero, mostSignificantBit,
      tick_range_down hpos hspacing hlow hhigh (by omega) (by omega)]
    rfl

theorem scanWord_up (hpos : 0 < spacing) (hspacing : spacing < 2 ^ 23)
    (hlow : minTick - 1 ≤ tick) (hhigh : tick ≤ maxTick) {bits : U256}
    (hbits : ∀ bit, bit < 256 →
      bits.getLsbD bit = initialized (tickOf spacing ((tick / spacing + 1) / 256) bit)) :
    scanWord false spacing (tick / spacing + 1) bits = nextIn spacing initialized false tick := by
  obtain ⟨hleast, hmost⟩ := index_range hpos hlow hhigh
  have hbit := bitPos_eq (tick / spacing + 1)
  have hfound := firstFrom_of_mask (m := bitPos (tick / spacing + 1))
    (p := fun i => initialized (tickOf spacing ((tick / spacing + 1) / 256) i))
    (x := bits &&& searchMask false (bitPos (tick / spacing + 1))) (by omega) fun j hj => by
      rw [BitVec.getLsbD_and, getLsbD_searchMask_false hj, hbits j hj]
  unfold scanWord nextIn startIndex
  simp only [Bool.false_eq_true, if_false]
  rw [toInt_wordPos (by omega) (by omega), ← hbit, hfound]
  by_cases hzero : bits &&& searchMask false (bitPos (tick / spacing + 1)) = 0
  · rw [if_neg (not_not_intro hzero), if_pos hzero,
      tick_range_up hpos hspacing hlow hhigh (by omega) (by omega)]
    simp only [tickOf]
    congr 2
    omega
  · rw [if_neg hzero] at hfound ⊢
    obtain ⟨hle, hlt, -⟩ := firstFrom_eq_some.1 hfound
    rw [if_pos hzero, leastSignificantBit,
      tick_range_up hpos hspacing hlow hhigh (by omega) (by omega)]
    rfl

/-- **The search of the code is the search in exact numbers**, where the bitmap shows the ticks. -/
theorem findNextInitializedTick_eq_nextIn (hpos : 0 < spacing) (hspacing : spacing < 2 ^ 23)
    (hlow : minTick - 1 ≤ tick) (hhigh : tick ≤ maxTick)
    (hstored : Stored keccak db address spacing initialized) :
    findNextInitializedTick keccak db address tick spacing zeroForOne =
      some (nextIn spacing initialized zeroForOne tick) := by
  obtain ⟨hleast, hmost⟩ := startIndex_range hpos hlow hhigh zeroForOne
  have hbits := hstored (wordPos (startIndex spacing zeroForOne tick))
  rw [toInt_wordPos hleast hmost] at hbits
  rw [findNextInitializedTick, compress_eq hpos hlow hhigh, Option.map_some,
    searchFrom_eq hpos hlow hhigh, readWordOf]
  cases zeroForOne with
  | true => exact congrArg some (scanWord_down hpos hspacing hlow hhigh hbits)
  | false => exact congrArg some (scanWord_up hpos hspacing hlow hhigh hbits)

end

end V3

end ArbBot
