import ArbBot.Laws.Quoter.Search

/-!
# The range of the search

Every amount the optimiser quotes is within its bounds, but for one case. When the greatest input
is between the double and the fourfold of the least, the third probe is the greatest input, and a
quarter of it, where the bracket then starts, is below the least. The search quotes an amount below
the least input exactly when it keeps going left from there for long enough.
-/

namespace ArbBot.Quoter

variable {quote : U256 → Option U256} {minInput maxInput lo hi amount : U256} {s : Probing}
  {n steps : Nat}

/-! ## Thirds -/

theorem toNat_third (h : lo ≤ hi) : ((hi - lo) / 3).toNat = (hi.toNat - lo.toNat) / 3 := by
  rw [BitVec.toNat_udiv, BitVec.toNat_sub_of_le h]
  rfl

theorem toNat_firstThird (h : lo ≤ hi) :
    (firstThird lo hi).toNat = lo.toNat + (hi.toNat - lo.toNat) / 3 := by
  have hle := BitVec.le_def.mp h
  have hlt := hi.isLt
  rw [firstThird, BitVec.toNat_add, toNat_third h, Nat.mod_eq_of_lt (by omega)]

theorem toNat_secondThird (h : lo ≤ hi) :
    (secondThird lo hi).toNat = hi.toNat - (hi.toNat - lo.toNat) / 3 := by
  have hle := BitVec.le_def.mp h
  rw [secondThird, BitVec.toNat_sub_of_le, toNat_third h]
  rw [BitVec.le_def, toNat_third h]
  omega

theorem thirds_sorted (h : lo ≤ hi) :
    lo ≤ firstThird lo hi ∧ firstThird lo hi ≤ secondThird lo hi ∧ secondThird lo hi ≤ hi := by
  have hle := BitVec.le_def.mp h
  simp only [BitVec.le_def, toNat_firstThird h, toNat_secondThird h]
  omega

/-- The amounts of a search are inside its first bracket. -/
theorem mem_brackets (n : Nat) (h : lo ≤ hi) {bracket : U256 × U256}
    (hmem : bracket ∈ brackets quote n lo hi) :
    lo ≤ bracket.1 ∧ bracket.1 ≤ bracket.2 ∧ bracket.2 ≤ hi := by
  induction n generalizing lo hi with
  | zero => exact absurd hmem List.not_mem_nil
  | succ n ih =>
    obtain ⟨hfirst, hmid, hsecond⟩ := thirds_sorted h
    unfold brackets at hmem
    split at hmem
    · exact absurd hmem List.not_mem_nil
    · rcases List.mem_cons.mp hmem with rfl | hmem
      · exact ⟨BitVec.le_refl _, h, BitVec.le_refl _⟩
      · split at hmem
        · obtain ⟨hlo, hle, hhi⟩ := ih (BitVec.le_trans hfirst hmid) hmem
          exact ⟨hlo, hle, BitVec.le_trans hhi hsecond⟩
        · obtain ⟨hlo, hle, hhi⟩ := ih (BitVec.le_trans hmid hsecond) hmem
          exact ⟨BitVec.le_trans hfirst hlo, hle, hhi⟩

theorem mem_flatMap_thirds {visited : List (U256 × U256)} :
    amount ∈ visited.flatMap thirds ↔ ∃ bracket ∈ visited,
      amount = firstThird bracket.1 bracket.2 ∨ amount = secondThird bracket.1 bracket.2 := by
  simp [thirds]

theorem mem_refined (h : lo ≤ hi) (hmem : amount ∈ (brackets quote n lo hi).flatMap thirds) :
    lo ≤ amount ∧ amount ≤ hi := by
  obtain ⟨bracket, hbracket, heq⟩ := mem_flatMap_thirds.mp hmem
  obtain ⟨hlo, hle, hhi⟩ := mem_brackets n h hbracket
  obtain ⟨hfirst, hmid, hsecond⟩ := thirds_sorted hle
  rcases heq with rfl | rfl
  · exact ⟨BitVec.le_trans hlo hfirst, BitVec.le_trans hmid (BitVec.le_trans hsecond hhi)⟩
  · exact ⟨BitVec.le_trans hlo (BitVec.le_trans hfirst hmid), BitVec.le_trans hsecond hhi⟩

/-! ## Going left -/

/-- The right end of a bracket after `j` steps to the left. -/
def narrowed (lo : U256) : Nat → U256 → U256
  | 0, hi => hi
  | j + 1, hi => narrowed lo j (secondThird lo hi)

/-- A search from `lo` that quotes an amount below `least` after going left at every step. -/
def FallsBelow (quote : U256 → Option U256) (least : U256) (n : Nat) (lo hi : U256) : Prop :=
  ∃ j, j < n ∧ lo + 1000 < narrowed lo j hi ∧ firstThird lo (narrowed lo j hi) < least ∧
    ∀ i, i < j → lo + 1000 < narrowed lo i hi ∧
      gain quote (secondThird lo (narrowed lo i hi)) <
        gain quote (firstThird lo (narrowed lo i hi))

theorem not_fallsBelow_zero {least : U256} : ¬FallsBelow quote least 0 lo hi :=
  fun ⟨_, hj, _⟩ => absurd hj (Nat.not_lt_zero _)

theorem fallsBelow_succ {least : U256} :
    FallsBelow quote least (n + 1) lo hi ↔ lo + 1000 < hi ∧ (firstThird lo hi < least ∨
      gain quote (secondThird lo hi) < gain quote (firstThird lo hi) ∧
        FallsBelow quote least n lo (secondThird lo hi)) := by
  constructor
  · rintro ⟨j, hj, hwide, hbelow, hleft⟩
    cases j with
    | zero => exact ⟨hwide, .inl hbelow⟩
    | succ j =>
      obtain ⟨hwide₀, hleft₀⟩ := hleft 0 (Nat.succ_pos j)
      refine ⟨hwide₀, .inr ⟨hleft₀, j, Nat.lt_of_succ_lt_succ hj, hwide, hbelow, ?_⟩⟩
      intro i hi
      exact hleft (i + 1) (Nat.succ_lt_succ hi)
  · rintro ⟨hwide, hbelow | ⟨hleft₀, j, hj, hwidej, hbelow, hleft⟩⟩
    · exact ⟨0, Nat.succ_pos n, hwide, hbelow, fun i hi => absurd hi (Nat.not_lt_zero i)⟩
    · refine ⟨j + 1, Nat.succ_lt_succ hj, hwidej, hbelow, ?_⟩
      intro i hi
      cases i with
      | zero => exact ⟨hwide, hleft₀⟩
      | succ i => exact hleft i (Nat.lt_of_succ_lt_succ hi)

/-- **A search stays above an amount** exactly when it does not go left for too long. -/
theorem refined_ge_iff {least : U256} (n : Nat) (h : lo ≤ hi) :
    (∀ a ∈ (brackets quote n lo hi).flatMap thirds, least ≤ a) ↔
      ¬FallsBelow quote least n lo hi := by
  induction n generalizing hi with
  | zero =>
    simp only [brackets, List.flatMap_nil, List.not_mem_nil, false_implies, implies_true, true_iff]
    exact not_fallsBelow_zero
  | succ n ih =>
    obtain ⟨hfirst, hmid, hsecond⟩ := thirds_sorted h
    rw [fallsBelow_succ, brackets]
    by_cases hwide : hi ≤ lo + 1000
    · rw [if_pos hwide]
      simp only [List.flatMap_nil, List.not_mem_nil, false_implies, implies_true, true_iff]
      intro hfalls
      exact BitVec.not_lt.mpr hwide hfalls.1
    · rw [if_neg hwide]
      have hwide' : lo + 1000 < hi := BitVec.not_le.mp hwide
      simp only [List.flatMap_cons, List.mem_append, hwide', true_and, not_or]
      by_cases hleft : gain quote (secondThird lo hi) < gain quote (firstThird lo hi)
      · simp only [hleft, if_true, true_and]
        rw [← ih (BitVec.le_trans hfirst hmid)]
        constructor
        · intro hall
          refine ⟨BitVec.not_lt.mpr (hall _ (.inl (mem_thirds_self (lo, hi)).1)), ?_⟩
          intro a ha
          exact hall a (.inr ha)
        · rintro ⟨hge, hrest⟩ a (ha | ha)
          · rcases List.mem_cons.mp ha with rfl | ha
            · exact BitVec.not_lt.mp hge
            · obtain rfl := List.mem_singleton.mp ha
              exact BitVec.le_trans (BitVec.not_lt.mp hge) hmid
          · exact hrest a ha
      · simp only [hleft, if_false, false_and, not_false_eq_true, and_true]
        constructor
        · intro hall
          exact BitVec.not_lt.mpr (hall _ (.inl (mem_thirds_self (lo, hi)).1))
        · rintro hge a (ha | ha)
          · rcases List.mem_cons.mp ha with rfl | ha
            · exact BitVec.not_lt.mp hge
            · obtain rfl := List.mem_singleton.mp ha
              exact BitVec.le_trans (BitVec.not_lt.mp hge) hmid
          · exact BitVec.le_trans (BitVec.not_lt.mp hge)
              (mem_refined (BitVec.le_trans hmid hsecond) ha).1

/-! ## Probing -/

theorem toNat_minOf (a b : U256) : (minOf a b).toNat = min a.toNat b.toNat := by
  unfold minOf
  split
  · rename_i hle
    exact (Nat.min_eq_left (BitVec.le_def.mp hle)).symm
  · rename_i hlt
    exact (Nat.min_eq_right (Nat.le_of_lt (BitVec.lt_def.mp (BitVec.not_le.mp hlt)))).symm

theorem toNat_double {word : U256} (h : word.toNat < 2 ^ 255) :
    (word * 2).toNat = word.toNat * 2 := by
  rw [BitVec.toNat_mul]
  exact Nat.mod_eq_of_lt (by change word.toNat * 2 < _; omega)

theorem toNat_quadruple {word : U256} (h : word.toNat < 2 ^ 254) :
    (word * 4).toNat = word.toNat * 4 := by
  rw [BitVec.toNat_mul]
  exact Nat.mod_eq_of_lt (by change word.toNat * 4 < _; omega)

theorem toNat_quarter (word : U256) : (word / 4).toNat = word.toNat / 4 := BitVec.toNat_udiv

theorem profit_improve (best : Best) (amount : U256) :
    (best.improve amount ((quote amount).getD 0)).profit =
      if best.profit < gain quote amount then gain quote amount else best.profit := by
  rw [Best.improve_eq]
  split <;> rfl

theorem profit_improve_of_le {best : Best} (h : best.profit ≤ gain quote amount) :
    (best.improve amount ((quote amount).getD 0)).profit = gain quote amount := by
  rw [profit_improve]
  split
  · rfl
  · rename_i hnot
    exact BitVec.le_antisymm h (BitVec.not_lt.mp hnot)

/-- What the probing phase can find, from a probe inside the bounds: the full bracket, or the
bracket a faltering probe leaves. -/
theorem probing_bracket (n : Nat) (hmax : maxInput.toNat < 2 ^ 255) (hlo : s.lo = minInput)
    (hhi : s.hi = maxInput) (hmin : minInput ≤ s.probe) (hprobe : s.probe ≤ maxInput) :
    (∀ a ∈ probed quote maxInput n s, minInput ≤ a ∧ a ≤ maxInput) ∧
    ((probing quote minInput maxInput n s).lo = minInput ∧
        (probing quote minInput maxInput n s).hi = maxInput ∨
      ∃ probe ∈ probed quote maxInput n s, (probing quote minInput maxInput n s).hi = probe ∧
        (probing quote minInput maxInput n s).lo =
          if minInput * 2 < probe then probe / 4 else minInput) := by
  induction n generalizing s with
  | zero => exact ⟨fun a ha => absurd ha List.not_mem_nil, .inl ⟨hlo, hhi⟩⟩
  | succ n ih =>
    rw [probed_succ hprobe, probing_succ hprobe]
    by_cases hstop : s.falters quote
    · simp only [hstop, true_or, if_true]
      constructor
      · intro a ha
        obtain rfl := List.mem_singleton.mp ha
        exact ⟨hmin, hprobe⟩
      · exact .inr ⟨s.probe, List.mem_cons_self, rfl, rfl⟩
    · by_cases hlast : maxInput ≤ s.probe
      · simp only [hstop, hlast, or_true, if_true, if_false]
        constructor
        · intro a ha
          obtain rfl := List.mem_singleton.mp ha
          exact ⟨hmin, hprobe⟩
        · exact .inl ⟨hlo, hhi⟩
      · simp only [hstop, hlast, or_self, if_false]
        have hprobeNat := BitVec.le_def.mp hprobe
        have hminNat := BitVec.le_def.mp hmin
        have hdouble : (s.probe * 2).toNat = s.probe.toNat * 2 := toNat_double (by omega)
        have hnextProbe : (s.next quote maxInput).probe.toNat =
            min (s.probe.toNat * 2) maxInput.toNat := by
          rw [← hdouble]
          exact toNat_minOf _ _
        obtain ⟨hamounts, hbracket⟩ := ih (s := s.next quote maxInput) hlo hhi
          (BitVec.le_def.mpr (by omega)) (BitVec.le_def.mpr (by omega))
        constructor
        · intro a ha
          rcases List.mem_cons.mp ha with rfl | ha
          · exact ⟨hmin, hprobe⟩
          · exact hamounts a ha
        · refine hbracket.imp_right ?_
          rintro ⟨probe, hmem, hfound⟩
          exact ⟨probe, List.mem_cons_of_mem _ hmem, hfound⟩

/-- Unless the greatest input is between the double and the fourfold of the least, no probe is. -/
theorem probed_gap (n : Nat) (hmax : maxInput.toNat < 2 ^ 254) (hleast : minInput ≤ maxInput)
    (hgap : maxInput ≤ minInput * 2 ∨ minInput * 4 ≤ maxInput) (hprobe : s.probe ≤ maxInput)
    (hshape : s.probe = minInput ∨ minInput * 2 ≤ s.probe ∨ s.probe = maxInput)
    (hs : s.probe ≤ minInput * 2 ∨ minInput * 4 ≤ s.probe) :
    ∀ a ∈ probed quote maxInput n s, a ≤ minInput * 2 ∨ minInput * 4 ≤ a := by
  induction n generalizing s with
  | zero =>
    intro a ha
    exact absurd ha List.not_mem_nil
  | succ n ih =>
    rw [probed_succ hprobe]
    intro a ha
    rcases List.mem_cons.mp ha with rfl | ha
    · exact hs
    · split at ha
      · exact absurd ha List.not_mem_nil
      · rename_i hgo
        have hless := BitVec.lt_def.mp (BitVec.not_le.mp (not_or.mp hgo).2)
        have hleastNat := BitVec.le_def.mp hleast
        have hdouble : (s.probe * 2).toNat = s.probe.toNat * 2 := toNat_double (by omega)
        have hdoubleMin : (minInput * 2).toNat = minInput.toNat * 2 := toNat_double (by omega)
        have hquadruple : (minInput * 4).toNat = minInput.toNat * 4 := toNat_quadruple (by omega)
        have hnextProbe : (s.next quote maxInput).probe.toNat =
            min (s.probe.toNat * 2) maxInput.toNat := by
          rw [← hdouble]
          exact toNat_minOf _ _
        simp only [← BitVec.toNat_inj, BitVec.le_def, hdoubleMin, hquadruple] at hgap hshape hs
        refine ih (s := s.next quote maxInput) (BitVec.le_def.mpr (by omega)) ?_ ?_ a ha
        · simp only [← BitVec.toNat_inj, BitVec.le_def, hdoubleMin]
          omega
        · simp only [BitVec.le_def, hdoubleMin, hquadruple]
          omega

/-- The third probe is the greatest input, and ends the probing phase. -/
structure ThirdStops (quote : U256 → Option U256) (minInput maxInput : U256) (steps : Nat) :
    Prop where
  above : minInput * 2 < maxInput
  below : maxInput < minInput * 4
  probes : 3 ≤ steps / 2
  rises : gain quote minInput ≤ gain quote (minInput * 2)
  falls : gain quote maxInput < gain quote (minInput * 2)

/-- The state before the second probe. -/
def second (quote : U256 → Option U256) (minInput maxInput : U256) : Probing :=
  (start minInput maxInput).next quote maxInput

/-- The state before the third. -/
def third (quote : U256 → Option U256) (minInput maxInput : U256) : Probing :=
  (second quote minInput maxInput).next quote maxInput

theorem not_falters_start : ¬(start minInput maxInput).falters quote :=
  fun h => BitVec.not_lt_zero h.1

theorem second_profit : (second quote minInput maxInput).best.profit = gain quote minInput :=
  profit_improve_of_le (BitVec.not_lt.mp BitVec.not_lt_zero)

theorem second_probe (h : minInput * 2 ≤ maxInput) :
    (second quote minInput maxInput).probe = minInput * 2 := if_pos h

theorem falters_of_lt (h : gain quote s.probe < s.best.profit) : s.falters quote := ⟨h, pos_of_lt h⟩

theorem third_profit (habove : minInput * 2 ≤ maxInput)
    (hrises : gain quote minInput ≤ gain quote (minInput * 2)) :
    (third quote minInput maxInput).best.profit = gain quote (minInput * 2) := by
  have hprobe : (second quote minInput maxInput).probe = minInput * 2 := second_probe habove
  rw [third, Probing.next, hprobe]
  exact profit_improve_of_le (by rw [second_profit]; exact hrises)

theorem third_probe (hsmall : minInput.toNat < 2 ^ 254) (habove : minInput * 2 < maxInput)
    (hbelow : maxInput < minInput * 4) : (third quote minInput maxInput).probe = maxInput := by
  have hprobe : (second quote minInput maxInput).probe = minInput * 2 :=
    second_probe (BitVec.le_of_lt habove)
  have hdouble : (minInput * 2).toNat = minInput.toNat * 2 := toNat_double (by omega)
  have hquadruple : (minInput * 4).toNat = minInput.toNat * 4 := toNat_quadruple (by omega)
  have haboveNat := BitVec.lt_def.mp habove
  have hbelowNat := BitVec.lt_def.mp hbelow
  apply BitVec.eq_of_toNat_eq
  rw [third, Probing.next, hprobe, toNat_minOf, toNat_double (by omega)]
  omega

section Gap

variable (hsmall : minInput.toNat < 2 ^ 254) (hmin : 0 < minInput)
  (habove : minInput * 2 < maxInput) (hbelow : maxInput < minInput * 4)

include hsmall hmin habove in
theorem probe_start (n : Nat) :
    probing quote minInput maxInput (n + 1) (start minInput maxInput) =
        probing quote minInput maxInput n (second quote minInput maxInput) ∧
      stops quote maxInput (n + 1) (start minInput maxInput) =
        stops quote maxInput n (second quote minInput maxInput) := by
  have hminNat := BitVec.lt_def.mp hmin
  have hdouble : (minInput * 2).toNat = minInput.toNat * 2 := toNat_double (by omega)
  have haboveNat := BitVec.lt_def.mp habove
  obtain ⟨hstate, -, hstops⟩ := @probe_next quote minInput maxInput (start minInput maxInput) n
    not_falters_start (BitVec.lt_def.mpr (by change minInput.toNat < _; omega))
  exact ⟨hstate, hstops⟩

include habove in
theorem probe_second (n : Nat) (hrises : gain quote minInput ≤ gain quote (minInput * 2)) :
    probing quote minInput maxInput (n + 1) (second quote minInput maxInput) =
        probing quote minInput maxInput n (third quote minInput maxInput) ∧
      stops quote maxInput (n + 1) (second quote minInput maxInput) =
        stops quote maxInput n (third quote minInput maxInput) := by
  have hprobe : (second quote minInput maxInput).probe = minInput * 2 :=
    second_probe (BitVec.le_of_lt habove)
  have hgo : ¬(second quote minInput maxInput).falters quote := by
    rintro ⟨hless, -⟩
    rw [hprobe, second_profit] at hless
    exact BitVec.not_lt.mpr hrises hless
  obtain ⟨hstate, -, hstops⟩ := probe_next (n := n) hgo
    (hprobe.symm ▸ habove)
  exact ⟨hstate, hstops⟩

include hsmall hmin in
/-- The bracket where the third probe stops. -/
theorem ThirdStops.found (h : ThirdStops quote minInput maxInput steps) :
    (found quote minInput maxInput steps).lo = maxInput / 4 ∧
      (found quote minInput maxInput steps).hi = maxInput ∧
      (found quote minInput maxInput steps).probesUsed = 3 ∧
      (found quote minInput maxInput steps).best.profit ≠ 0 ∧
      stops quote maxInput (steps / 2) (start minInput maxInput) = true := by
  obtain ⟨n, hn⟩ := Nat.exists_eq_add_of_le' h.probes
  have hthird : (third quote minInput maxInput).probe = maxInput :=
    third_probe hsmall h.above h.below
  have hprofit := third_profit (BitVec.le_of_lt h.above) h.rises
  have hfalters : (third quote minInput maxInput).falters quote := by
    apply falters_of_lt
    rw [hthird, hprofit]
    exact h.falls
  obtain ⟨hstart, hstartStops⟩ := probe_start hsmall hmin h.above (n + 2)
  obtain ⟨hsecond, hsecondStops⟩ := probe_second h.above (n + 1) h.rises
  obtain ⟨hstop, -, hstops⟩ := probe_stop (n := n)
    hfalters (by rw [hthird]; exact BitVec.le_refl _)
  have hfound : Quoter.found quote minInput maxInput steps =
      (third quote minInput maxInput).stop quote minInput := by
    rw [Quoter.found, hn, hstart, hsecond, hstop]
  rw [hfound, hn, hstartStops, hsecondStops]
  refine ⟨?_, hthird, rfl, ?_, hstops⟩
  · change (if _ < (third quote minInput maxInput).probe then _ else _) = _
    rw [hthird, if_pos h.above]
  · change ((third quote minInput maxInput).best.improve _ _).profit ≠ 0
    rw [profit_improve, hthird, hprofit, if_neg (BitVec.not_lt.mpr (BitVec.le_of_lt h.falls))]
    exact (BitVec.pos_iff_ne_zero _).mp (pos_of_lt h.falls)

include hsmall hmin habove hbelow in
/-- Between the double and the fourfold, the probing goes through three amounts. -/
theorem found_gap :
    ThirdStops quote minInput maxInput steps ∨
      (found quote minInput maxInput steps).lo = minInput ∧
        (stops quote maxInput (steps / 2) (start minInput maxInput) = true →
          (found quote minInput maxInput steps).hi = minInput * 2) := by
  have hthird : (third quote minInput maxInput).probe = maxInput :=
    third_probe hsmall habove hbelow
  unfold found
  rcases hn : steps / 2 with _ | _ | n
  · exact .inr ⟨rfl, fun h => absurd h (by simp [stops])⟩
  · obtain ⟨hstate, hstops⟩ := probe_start hsmall hmin habove 0
    rw [hstate, hstops]
    exact .inr ⟨rfl, fun h => absurd h (by simp [stops])⟩
  obtain ⟨hstate, hstops⟩ := probe_start hsmall hmin habove (n + 1)
  rw [hstate, hstops]
  by_cases hrises : gain quote minInput ≤ gain quote (minInput * 2)
  · obtain ⟨hstate, hstops⟩ := probe_second habove n hrises
    have hprofit := third_profit (BitVec.le_of_lt habove) hrises
    rw [hstate, hstops]
    cases n with
    | zero => exact .inr ⟨rfl, fun h => absurd h (by simp [stops])⟩
    | succ n =>
      by_cases hfalls : gain quote maxInput < gain quote (minInput * 2)
      · exact .inl ⟨habove, hbelow, by omega, hrises, hfalls⟩
      · have hgo : ¬(third quote minInput maxInput).falters quote := by
          rintro ⟨hless, -⟩
          rw [hthird, hprofit] at hless
          exact hfalls hless
        obtain ⟨hstate, -, hstops⟩ := probe_last (n := n) hgo hthird
        rw [hstate, hstops]
        exact .inr ⟨rfl, fun h => absurd h Bool.false_ne_true⟩
  · have hprobe : (second quote minInput maxInput).probe = minInput * 2 :=
      second_probe (BitVec.le_of_lt habove)
    have hfalters : (second quote minInput maxInput).falters quote := by
      apply falters_of_lt
      rw [hprobe, second_profit]
      exact BitVec.not_le.mp hrises
    rw [(probe_stop hfalters (hprobe ▸ BitVec.le_of_lt habove)).1]
    right
    constructor
    · change (if _ < (second quote minInput maxInput).probe then _ else _) = _
      rw [hprobe, if_neg (BitVec.lt_irrefl _)]
    · intro
      exact hprobe

end Gap

/-- Unless the third probe stops, the bracket starts inside the bounds. -/
theorem lo_found (hmax : maxInput.toNat < 2 ^ 254) (hmin : 0 < minInput)
    (hleast : minInput ≤ maxInput) (h : ¬ThirdStops quote minInput maxInput steps) :
    minInput ≤ (found quote minInput maxInput steps).lo := by
  have hleastNat := BitVec.le_def.mp hleast
  have hminNat := BitVec.lt_def.mp hmin
  have hdouble : (minInput * 2).toNat = minInput.toNat * 2 := toNat_double (by omega)
  have hquadruple : (minInput * 4).toNat = minInput.toNat * 4 := toNat_quadruple (by omega)
  by_cases hgap : maxInput ≤ minInput * 2 ∨ minInput * 4 ≤ maxInput
  · obtain ⟨-, hbracket⟩ := @probing_bracket quote minInput maxInput (start minInput maxInput)
      (steps / 2) (by omega) rfl rfl
      (BitVec.le_refl _) hleast
    rcases hbracket with ⟨hlo, -⟩ | ⟨probe, hmem, -, hlo⟩
    · rw [found, hlo]
      exact BitVec.le_refl _
    · have hprobe := probed_gap (steps / 2) hmax hleast hgap hleast (.inl rfl)
        (.inl (BitVec.le_def.mpr (by change minInput.toNat ≤ _; omega))) probe hmem
      rw [found, hlo]
      split
      · rename_i habove
        have hquarter := toNat_quarter probe
        have hfar := BitVec.le_def.mp (hprobe.resolve_left (BitVec.not_le.mpr habove))
        rw [BitVec.le_def]
        omega
      · exact BitVec.le_refl _
  · obtain ⟨habove, hbelow⟩ := not_or.mp hgap
    obtain ⟨hlo, -⟩ := (found_gap (by omega) hmin (BitVec.not_le.mp habove)
      (BitVec.not_le.mp hbelow)).resolve_left h
    rw [hlo]
    exact BitVec.le_refl _

/-! ## The result of a run -/

/-- What a run of the optimiser is to give: it quotes amounts inside the bounds only, and returns
the least input with no amount profitable, or the most profitable of the amounts quoted. -/
structure SoundRun (quote : U256 → Option U256) (minInput maxInput : U256) (steps : Nat) :
    Prop where
  range : ∀ a ∈ quotedAmounts quote minInput maxInput steps, minInput ≤ a ∧ a ≤ maxInput
  result : (optimizeInputWithDb quote minInput maxInput steps = (minInput, 0) ∧
      ∀ a ∈ quotedAmounts quote minInput maxInput steps, gain quote a = 0) ∨
    ∃ x y, optimizeInputWithDb quote minInput maxInput steps = (x, y) ∧
      minInput ≤ x ∧ x ≤ maxInput ∧ quote x = some y ∧ x < y ∧
      minInput ∈ quotedAmounts quote minInput maxInput steps ∧
      ∀ a ∈ quotedAmounts quote minInput maxInput steps, gain quote a ≤ y - x

/-- The third probe is the greatest input, between the double and the fourfold of the least, and
ends the probing; and the search then goes left from a quarter of it until a third of the bracket
is below the least input. -/
def LeavesRange (quote : U256 → Option U256) (minInput maxInput : U256) (steps : Nat) : Prop :=
  ThirdStops quote minInput maxInput steps ∧
    FallsBelow quote minInput (steps - 6) (maxInput / 4) maxInput

/-- The least input is quoted first. -/
theorem minInput_mem (hleast : minInput ≤ maxInput) (hsteps : 0 < steps / 2) :
    minInput ∈ quotedAmounts quote minInput maxInput steps := by
  obtain ⟨n, hn⟩ := Nat.exists_eq_succ_of_ne_zero (Nat.pos_iff_ne_zero.mp hsteps)
  apply List.mem_append_left
  rw [hn, probed_succ (s := start minInput maxInput) hleast]
  exact List.mem_cons_self

theorem quotedAmounts_of_no_steps (hsteps : steps / 2 = 0) :
    quotedAmounts quote minInput maxInput steps = [] := by
  rw [quotedAmounts, searched, found, hsteps]
  rfl

section

variable (hmin : 0 < minInput) (hleast : minInput ≤ maxInput) (hmax : maxInput.toNat < 2 ^ 254)

include hmin hleast hmax

/-- Inside the bounds the search keeps to them. -/
theorem searched_range {a : U256} (hlo : minInput ≤ (found quote minInput maxInput steps).lo)
    (ha : a ∈ (searched quote minInput maxInput steps).flatMap thirds) :
    minInput ≤ a ∧ a ≤ maxInput := by
  have hleastNat := BitVec.le_def.mp hleast
  have hminNat := BitVec.lt_def.mp hmin
  obtain ⟨hamounts, hbracket⟩ := @probing_bracket quote minInput maxInput
    (start minInput maxInput) (steps / 2) (by omega) rfl rfl
    (BitVec.le_refl _) hleast
  have hsorted : (found quote minInput maxInput steps).lo ≤
      minOf (found quote minInput maxInput steps).hi maxInput := by
    rw [BitVec.le_def, toNat_minOf]
    unfold found
    rcases hbracket with ⟨hlo, hhi⟩ | ⟨probe, hmem, hhi, hlo⟩
    · rw [hlo, hhi]
      omega
    · obtain ⟨hge, hle⟩ := hamounts probe hmem
      rw [BitVec.le_def] at hge hle
      rw [hlo, hhi]
      split
      · rw [toNat_quarter]
        omega
      · omega
  unfold searched at ha
  dsimp only at ha
  split at ha
  · exact absurd ha List.not_mem_nil
  · obtain ⟨hge, hle⟩ := mem_refined hsorted ha
    refine ⟨BitVec.le_trans hlo hge, BitVec.le_trans hle ?_⟩
    rw [BitVec.le_def, toNat_minOf]
    exact Nat.min_le_right _ _

/-- **The amounts quoted are inside the bounds** exactly when the search does not leave them. -/
theorem range_iff :
    (∀ a ∈ quotedAmounts quote minInput maxInput steps, minInput ≤ a ∧ a ≤ maxInput) ↔
      ¬LeavesRange quote minInput maxInput steps := by
  have hleastNat := BitVec.le_def.mp hleast
  obtain ⟨hprobed, -⟩ := @probing_bracket quote minInput maxInput (start minInput maxInput)
    (steps / 2) (by omega) rfl rfl
    (BitVec.le_refl _) hleast
  by_cases hthird : ThirdStops quote minInput maxInput steps
  · obtain ⟨hlo, hhi, hused, hprofit, -⟩ := hthird.found (by omega) hmin
    have hsearched : searched quote minInput maxInput steps =
        brackets quote (steps - 6) (maxInput / 4) maxInput := by
      rw [searched]
      simp only [hlo, hhi, hused, hprofit, if_false]
      rw [show minOf maxInput maxInput = maxInput from if_pos (BitVec.le_refl _)]
    have hquarter : maxInput / 4 ≤ maxInput := by
      rw [BitVec.le_def, toNat_quarter]
      omega
    have hiff := @refined_ge_iff quote _ _ minInput (steps - 6) hquarter
    unfold quotedAmounts LeavesRange
    rw [hsearched]
    simp only [hthird, true_and]
    rw [← hiff]
    constructor
    · intro hall a ha
      exact (hall a (List.mem_append_right _ ha)).1
    · intro hall a ha
      rcases List.mem_append.mp ha with ha | ha
      · exact hprobed a ha
      · exact ⟨hall a ha, (mem_refined hquarter ha).2⟩
  · have hlo := lo_found hmax hmin hleast hthird
    refine iff_of_true ?_ fun hleaves => hthird hleaves.1
    intro a ha
    rcases List.mem_append.mp ha with ha | ha
    · exact hprobed a ha
    · exact searched_range hmin hleast hmax hlo ha

/-- **A run is sound** exactly when the search does not leave the range. -/
theorem soundRun_iff :
    SoundRun quote minInput maxInput steps ↔ ¬LeavesRange quote minInput maxInput steps := by
  rw [← range_iff hmin hleast hmax]
  constructor
  · intro hsound
    exact hsound.range
  · intro hrange
    refine ⟨hrange, ?_⟩
    rcases optimizeInputWithDb_best quote minInput maxInput steps with
      hnone | ⟨x, y, hresult, hmem, hquote, hlt, hbest⟩
    · exact .inl hnone
    · right
      have hsteps : 0 < steps / 2 := by
        apply Nat.pos_of_ne_zero
        intro hzero
        rw [quotedAmounts_of_no_steps hzero] at hmem
        exact absurd hmem List.not_mem_nil
      exact ⟨x, y, hresult, (hrange x hmem).1, (hrange x hmem).2, hquote, hlt,
        minInput_mem hleast hsteps, hbest⟩

end

/-- What a pool with a million of one token and two of the other pays. -/
def poolQuote (amount : U256) : Option U256 := some (2000000 * amount / (1000000 + amount))

theorem soundRun_iff_poolQuote : SoundRun poolQuote 1000 1000000 20 := by
  have hstays : ¬LeavesRange poolQuote 1000 1000000 20 := fun h =>
    absurd h.1.below (by decide)
  exact (soundRun_iff (by decide) (by decide) (by decide)).mpr hstays

/-- A quote that falls with the amount, but for one peak at the double of the least input. -/
def peaked (amount : U256) : Option U256 :=
  if amount = 2000000 then some 6050000 else some 5000000

/-- The search returns an amount below the least input. -/
theorem not_soundRun_peaked :
    (0 : U256) < 1000000 ∧ (1000000 : U256) ≤ 2500000 ∧ (2500000 : U256).toNat < 2 ^ 254 ∧
      optimizeInputWithDb peaked 1000000 2500000 20 = (628211, 5000000) ∧
      ¬SoundRun peaked 1000000 2500000 20 := by
  have hresult : optimizeInputWithDb peaked 1000000 2500000 20 = (628211, 5000000) := by
    decide +kernel
  refine ⟨by decide, by decide, by decide, hresult, fun hsound => ?_⟩
  rcases hsound.result with ⟨hnone, -⟩ | ⟨x, y, heq, hge, -⟩
  · rw [hresult] at hnone
    exact absurd hnone (by decide)
  · obtain ⟨rfl, rfl⟩ := Prod.mk.inj (hresult.symm.trans heq)
    exact absurd hge (by decide)

end ArbBot.Quoter
