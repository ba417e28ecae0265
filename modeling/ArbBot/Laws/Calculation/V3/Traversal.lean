import ArbBot.Laws.Calculation.V3.NextTick

/-!
# Searching tick after tick

Searches that start where the last one ended meet every initialised tick, in order and once. The
spacing is one that an `int24` can hold: for larger ones, which no pool has, the last tick of a word
leaves the 32 bits of a tick.
-/

namespace ArbBot

namespace V3

open Lib

variable (keccak : Keccak) (db : BlockStateDb) (address : Address) (spacing : Int)
  (zeroForOne : Bool) (bound : Int)

/-- Where the next search starts. -/
def resume (zeroForOne : Bool) (next : Int) : Int := if zeroForOne then next - 1 else next

/-- A search from the tick would only find ticks beyond the bound. -/
def Passed (zeroForOne : Bool) (bound tick : Int) : Prop :=
  if zeroForOne then tick < bound else bound ≤ tick

instance (tick : Int) : Decidable (Passed zeroForOne bound tick) := by
  unfold Passed
  infer_instance

/-- Searches, so many at most, until the bound is passed: the initialised ticks they find. -/
def traverse : Nat → Int → Option (List Int)
  | 0, tick => if Passed zeroForOne bound tick then some [] else none
  | fuel + 1, tick =>
    if Passed zeroForOne bound tick then some []
    else do
      let (next, flag) ← findNextInitializedTick keccak db address tick spacing zeroForOne
      let rest ← traverse fuel (resume zeroForOne next)
      some (if flag then next :: rest else rest)

/-- The ticks from a tick on to the bound, each of them once, and perhaps some beyond. -/
structure Visits (initialized : Int → Bool) (tick : Int) (visited : List Int) : Prop where
  ordered : visited.Pairwise fun a b => if zeroForOne then b < a else a < b
  sound : ∀ u ∈ visited, spacing ∣ u ∧ initialized u = true ∧
    if zeroForOne then u ≤ tick else tick < u
  complete : ∀ u, spacing ∣ u → initialized u = true →
    (if zeroForOne then bound ≤ u ∧ u ≤ tick else tick < u ∧ u ≤ bound) → u ∈ visited

/-- More searches than there can be before the bound is passed. -/
def distance (zeroForOne : Bool) (bound tick : Int) : Nat :=
  if zeroForOne then (tick - bound + 1).toNat else (bound - tick).toNat

variable {keccak db address spacing zeroForOne bound} {initialized : Int → Bool} {tick next : Int}
  {flag : Bool} {rest : List Int}

theorem Visits.nil (hpassed : Passed zeroForOne bound tick) :
    Visits spacing zeroForOne bound initialized tick [] := by
  refine ⟨.nil, fun u hu => absurd hu List.not_mem_nil, fun u _ _ hbetween => ?_⟩
  unfold Passed at hpassed
  cases zeroForOne <;> simp only [if_true, Bool.false_eq_true, if_false] at hpassed hbetween <;>
    omega

/-- The tick that a search finds, with those that are visited beyond it. -/
theorem Visits.found (hdvd : spacing ∣ next) (hflag : flag = initialized next)
    (hside : if zeroForOne then next ≤ tick else tick < next)
    (hordered : rest.Pairwise fun a b => if zeroForOne then b < a else a < b)
    (hbeyond : ∀ u ∈ rest, if zeroForOne then u < next else next < u)
    (hrest : ∀ u ∈ rest, spacing ∣ u ∧ initialized u = true ∧
      if zeroForOne then u ≤ tick else tick < u)
    (hmem : ∀ u, spacing ∣ u → initialized u = true →
      (if zeroForOne then bound ≤ u ∧ u ≤ tick else tick < u ∧ u ≤ bound) →
        u = next ∨ u ∈ rest) :
    Visits spacing zeroForOne bound initialized tick (if flag then next :: rest else rest) := by
  cases flag with
  | true =>
    refine ⟨hordered.cons hbeyond, ?_, fun u hu hset hrange => ?_⟩
    · intro u hu
      rcases List.mem_cons.mp hu with rfl | hu
      · exact ⟨hdvd, hflag.symm, hside⟩
      · exact hrest u hu
    · exact List.mem_cons.mpr (hmem u hu hset hrange)
  | false =>
    refine ⟨hordered, hrest, fun u hu hset hrange => (hmem u hu hset hrange).resolve_left ?_⟩
    rintro rfl
    exact Bool.false_ne_true (hflag.trans hset)

/-- One search and those after it, downwards. -/
theorem IsNext.visits_down (hnext : IsNext spacing initialized true tick next flag)
    (hrest : Visits spacing true bound initialized (resume true next) rest) :
    Visits spacing true bound initialized tick (if flag then next :: rest else rest) := by
  obtain ⟨hdvd, hside, hflag, hbetween, -⟩ := hnext
  obtain ⟨hordered, hsound, hcomplete⟩ := hrest
  have hbelow : ∀ u ∈ rest, u < next := fun u hu => Int.lt_of_le_sub_one (hsound u hu).2.2
  have hrests : ∀ u ∈ rest, spacing ∣ u ∧ initialized u = true ∧ u ≤ tick := fun u hu =>
    ⟨(hsound u hu).1, (hsound u hu).2.1, (hbelow u hu).le.trans hside⟩
  have hmem : ∀ u, spacing ∣ u → initialized u = true → bound ≤ u ∧ u ≤ tick →
      u = next ∨ u ∈ rest := by
    intro u hu hset hrange
    rcases Int.lt_trichotomy u next with hlt | heq | hgt
    · exact .inr (hcomplete u hu hset ⟨hrange.1, Int.le_sub_one_of_lt hlt⟩)
    · exact .inl heq
    · exact absurd hset (by rw [hbetween u hu ⟨hgt, hrange.2⟩]; exact Bool.false_ne_true)
  exact .found hdvd hflag hside hordered hbelow hrests hmem

/-- And upwards. -/
theorem IsNext.visits_up (hnext : IsNext spacing initialized false tick next flag)
    (hrest : Visits spacing false bound initialized (resume false next) rest) :
    Visits spacing false bound initialized tick (if flag then next :: rest else rest) := by
  obtain ⟨hdvd, hside, hflag, hbetween, -⟩ := hnext
  obtain ⟨hordered, hsound, hcomplete⟩ := hrest
  have habove : ∀ u ∈ rest, next < u := fun u hu => (hsound u hu).2.2
  have hrests : ∀ u ∈ rest, spacing ∣ u ∧ initialized u = true ∧ tick < u := fun u hu =>
    ⟨(hsound u hu).1, (hsound u hu).2.1, Int.lt_trans hside (habove u hu)⟩
  have hmem : ∀ u, spacing ∣ u → initialized u = true → tick < u ∧ u ≤ bound →
      u = next ∨ u ∈ rest := by
    intro u hu hset hrange
    rcases Int.lt_trichotomy u next with hlt | heq | hgt
    · exact absurd hset (by rw [hbetween u hu ⟨hrange.1, hlt⟩]; exact Bool.false_ne_true)
    · exact .inl heq
    · exact .inr (hcomplete u hu hset ⟨hgt, hrange.2⟩)
  exact .found hdvd hflag hside hordered habove hrests hmem

theorem IsNext.visits (hnext : IsNext spacing initialized zeroForOne tick next flag)
    (hrest : Visits spacing zeroForOne bound initialized (resume zeroForOne next) rest) :
    Visits spacing zeroForOne bound initialized tick (if flag then next :: rest else rest) := by
  cases zeroForOne with
  | true => exact hnext.visits_down hrest
  | false => exact hnext.visits_up hrest

/-- A search brings the bound nearer. -/
theorem IsNext.distance_lt (hnext : IsNext spacing initialized zeroForOne tick next flag)
    (hpassed : ¬ Passed zeroForOne bound tick) :
    distance zeroForOne bound (resume zeroForOne next) < distance zeroForOne bound tick := by
  have hside := hnext.side
  unfold Passed at hpassed
  unfold distance resume
  cases zeroForOne <;> simp only [if_true, Bool.false_eq_true, if_false] at hpassed hside ⊢ <;>
    omega

/-- The ticks a traversal can be at. -/
def Within (zeroForOne : Bool) (tick : Int) : Prop :=
  if zeroForOne then tick ≤ maxTick else minTick ≤ tick

theorem Within.range (hwithin : Within zeroForOne tick) (hlow : minTick ≤ bound)
    (hhigh : bound ≤ maxTick) (hpassed : ¬ Passed zeroForOne bound tick) :
    minTick - 1 ≤ tick ∧ tick ≤ maxTick := by
  unfold Passed at hpassed
  unfold Within at hwithin
  cases zeroForOne <;> simp only [if_true, Bool.false_eq_true, if_false] at hpassed hwithin <;>
    omega

theorem Within.resume (hwithin : Within zeroForOne tick)
    (hnext : IsNext spacing initialized zeroForOne tick next flag) :
    Within zeroForOne (resume zeroForOne next) := by
  have hside := hnext.side
  unfold Within at hwithin ⊢
  unfold V3.resume
  cases zeroForOne <;> simp only [if_true, Bool.false_eq_true, if_false] at hwithin hside ⊢ <;>
    omega

/-- The searches from a tick on, by induction on how many there may be. -/
theorem traverse_visits (hpos : 0 < spacing) (hspacing : spacing < 2 ^ 23)
    (hstored : Stored keccak db address spacing initialized) (hlow : minTick ≤ bound)
    (hhigh : bound ≤ maxTick) {fuel : Nat} (hfuel : distance zeroForOne bound tick ≤ fuel)
    (hwithin : Within zeroForOne tick) :
    ∃ visited, traverse keccak db address spacing zeroForOne bound fuel tick = some visited ∧
      Visits spacing zeroForOne bound initialized tick visited := by
  induction fuel generalizing tick with
  | zero =>
    have hpassed : Passed zeroForOne bound tick := by
      unfold distance at hfuel
      unfold Passed
      cases zeroForOne <;> simp only [if_true, Bool.false_eq_true, if_false] at hfuel ⊢ <;> omega
    exact ⟨[], if_pos hpassed, .nil hpassed⟩
  | succ fuel ih =>
    by_cases hpassed : Passed zeroForOne bound tick
    · exact ⟨[], if_pos hpassed, .nil hpassed⟩
    · obtain ⟨hleast, hmost⟩ := hwithin.range hlow hhigh hpassed
      have hnext := isNext_nextIn hpos initialized zeroForOne tick
      have hnear := hnext.distance_lt hpassed
      obtain ⟨rest, hrest, hvisits⟩ := ih (by omega) (hwithin.resume hnext)
      refine ⟨_, ?_, hnext.visits hvisits⟩
      rw [traverse, if_neg hpassed,
        findNextInitializedTick_eq_nextIn hpos hspacing hleast hmost hstored, Option.bind_eq_bind,
        Option.bind_some]
      dsimp only
      rw [hrest]
      rfl

/-- **The tick-bitmap search**: of a spacing that fits into an `int24`, what one search finds, and
what searches find that start where the last one ended. -/
theorem findNextInitializedTick_search (hpos : 0 < spacing) (hspacing : spacing < 2 ^ 23)
    (hstored : Stored keccak db address spacing initialized) :
    (∀ zeroForOne tick, minTick ≤ tick → tick ≤ maxTick → ∃ next flag,
      findNextInitializedTick keccak db address tick spacing zeroForOne = some (next, flag) ∧
        IsNext spacing initialized zeroForOne tick next flag) ∧
    ∀ zeroForOne bound tick fuel, minTick ≤ tick → tick ≤ maxTick → minTick ≤ bound →
      bound ≤ maxTick → distance zeroForOne bound tick ≤ fuel → ∃ visited,
        traverse keccak db address spacing zeroForOne bound fuel tick = some visited ∧
          Visits spacing zeroForOne bound initialized tick visited := by
  constructor
  · intro zeroForOne tick hlow hhigh
    refine ⟨_, _, ?_, isNext_nextIn hpos initialized zeroForOne tick⟩
    exact findNextInitializedTick_eq_nextIn hpos hspacing (by omega) hhigh hstored
  · intro zeroForOne bound tick fuel hlow hhigh hfirst hlast hfuel
    have hwithin : Within zeroForOne tick := by
      unfold Within
      cases zeroForOne <;> simpa
    exact traverse_visits hpos hspacing hstored hfirst hlast hfuel hwithin

/-! ### Inputs of either kind -/

/-- A database that has loaded nothing. -/
def nothingLoaded : BlockStateDb := ⟨.empty, ∅, ∅⟩

theorem stored_nothingLoaded (keccak : Keccak) (address : Address) (spacing : Int) :
    Stored keccak nothingLoaded address spacing fun _ => false := by
  intro word bit _
  exact BitVec.getLsbD_zero

/-- A database in which every slot is one. -/
def ones : BlockStateDb := ⟨⟨fun _ => some fun _ => some 1⟩, ∅, ∅⟩

theorem stored_ones (keccak : Keccak) (address : Address) :
    Stored keccak ones address 60 fun tick => decide (15360 ∣ tick) := by
  intro word bit hbit
  have hread : (ones.readV3TickBitmap keccak address word).getD 0 = 1 := rfl
  have hone : (1 : U256).getLsbD bit = decide (bit = 0) := by simp [BitVec.getLsbD_one]
  rw [hread, hone, decide_eq_decide, tickOf]
  omega

/-- The first ticks of three words, from tick 16000 on. -/
theorem findNextInitializedTick_search_ones : ∃ visited,
    traverse (fun _ => 0) ones 0 60 true (-16000) 32001 16000 = some visited ∧
      Visits 60 true (-16000) (fun tick => decide (15360 ∣ tick)) 16000 visited :=
  (findNextInitializedTick_search (by decide) (by decide) (stored_ones _ _)).2 true (-16000) 16000
    32001 (by decide) (by decide) (by decide) (by decide) (by decide)

/-- The last tick of the word above tick 5, for a spacing of `2 ^ 30`, wraps to one below it. -/
theorem not_findNextInitializedTick_search :
    Stored (fun _ => 0) nothingLoaded 0 1073741824 (fun _ => false) ∧
    ¬ ∃ next flag, findNextInitializedTick (fun _ => 0) nothingLoaded 0 5 1073741824 false =
      some (next, flag) ∧ IsNext 1073741824 (fun _ => false) false 5 next flag := by
  refine ⟨stored_nothingLoaded _ _ _, ?_⟩
  rintro ⟨next, flag, hfound, hnext⟩
  have hwrapped : findNextInitializedTick (fun _ => 0) nothingLoaded 0 5 1073741824 false =
      some (-1073741824, false) := by decide +kernel
  rw [hwrapped] at hfound
  cases hfound
  exact absurd hnext.side (by decide)

end V3

end ArbBot
