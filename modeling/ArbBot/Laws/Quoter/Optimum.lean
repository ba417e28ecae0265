import ArbBot.Laws.Quoter.Range

/-!
# The search and the optimum

For a profit that rises to one peak and falls after it, the bracket of the probing phase holds the
peak, and an iteration of the ternary search keeps it where the first third of the bracket is an
amount with a profit. Profits are clamped at zero, so two unprofitable thirds tie and the search
goes right. From the third probe on the first third is always profitable; a bracket that the second
probe leaves may start with an unprofitable one, and then the peak is lost. A bracket that starts
below the least input may also lose it, where an amount from below sways the search.
-/

namespace ArbBot.Quoter

variable {quote : U256 → Option U256} {minInput maxInput peak lo hi a b : U256} {s : Probing}
  {n steps : Nat}

/-- The profit at an amount, a loss included. -/
def signedProfit (quote : U256 → Option U256) (amount : U256) : Int :=
  ((quote amount).getD 0).toNat - amount.toNat

/-- **A profit with one peak** between the bounds, positive at the least input. -/
structure Unimodal (quote : U256 → Option U256) (minInput maxInput peak : U256) : Prop where
  peak_ge : minInput ≤ peak
  peak_le : peak ≤ maxInput
  rises : ∀ a b, minInput ≤ a → a < b → b ≤ peak → signedProfit quote a < signedProfit quote b
  falls : ∀ a b, peak ≤ a → a < b → b ≤ maxInput → signedProfit quote b < signedProfit quote a
  gains : 0 < signedProfit quote minInput

/-! ## Clamped profits -/

theorem toNat_gain (quote : U256 → Option U256) (amount : U256) :
    (gain quote amount).toNat = (signedProfit quote amount).toNat := by
  unfold gain profitOf signedProfit
  split
  · rename_i hlt
    have hle := BitVec.le_of_lt hlt
    rw [BitVec.toNat_sub_of_le hle]
    omega
  · rename_i hge
    have hle := BitVec.le_def.mp (BitVec.not_lt.mp hge)
    change 0 = _
    omega

theorem gain_pos_iff : 0 < gain quote a ↔ 0 < signedProfit quote a := by
  rw [BitVec.lt_def, toNat_gain]
  change 0 < _ ↔ _
  omega

namespace Unimodal

variable (h : Unimodal quote minInput maxInput peak)

include h

/-- Up to the peak every amount gains. -/
theorem gain_pos_of_le (hge : minInput ≤ a) (hle : a ≤ peak) : 0 < gain quote a := by
  rw [gain_pos_iff]
  by_cases heq : minInput = a
  · exact heq ▸ h.gains
  · have hlt : minInput < a := BitVec.lt_of_le_ne hge heq
    exact h.gains.trans (h.rises _ _ (BitVec.le_refl _) hlt hle)

/-- Below an amount that gains every amount does. -/
theorem gain_pos_below (hge : minInput ≤ a) (hle : a ≤ b) (hb : b ≤ maxInput)
    (hgain : 0 < gain quote b) : 0 < gain quote a := by
  by_cases hpeak : a ≤ peak
  · exact h.gain_pos_of_le hge hpeak
  · by_cases heq : a = b
    · exact heq ▸ hgain
    · have hlt : a < b := BitVec.lt_of_le_ne hle heq
      rw [gain_pos_iff] at hgain ⊢
      exact hgain.trans (h.falls a b (BitVec.le_of_lt (BitVec.not_le.mp hpeak)) hlt hb)

theorem below_or_gains (hle : a ≤ b) (hb : b ≤ maxInput) (hgain : 0 < gain quote b) :
    a < minInput ∨ 0 < gain quote a := by
  by_cases hbelow : a < minInput
  · exact .inl hbelow
  · exact .inr (h.gain_pos_below (BitVec.not_lt.mp hbelow) hle hb hgain)

/-- **Where the profit has fallen, the peak is behind.** -/
theorem peak_lt (hge : minInput ≤ a) (hlt : a < b) (hless : gain quote b < gain quote a) :
    peak < b := by
  apply BitVec.not_le.mp
  intro hle
  have hrise := h.rises a b hge hlt hle
  rw [BitVec.lt_def, toNat_gain, toNat_gain] at hless
  omega

/-- **Where it has not, the peak is ahead**, if there is a profit. -/
theorem lt_peak (hlt : a < b) (hb : b ≤ maxInput) (hpos : 0 < gain quote a)
    (hle : gain quote a ≤ gain quote b) : a < peak := by
  apply BitVec.not_le.mp
  intro hpeak
  have hfall := h.falls a b hpeak hlt hb
  rw [gain_pos_iff] at hpos
  rw [BitVec.le_def, toNat_gain, toNat_gain] at hle
  omega

end Unimodal

/-! ## The ternary search -/

/-- **What the ternary search keeps**: the peak is in the bracket, and the first third gains or is
below the least input. A bracket reaches below the least input only where its double gains. -/
structure Holds (quote : U256 → Option U256) (minInput maxInput peak lo hi : U256) : Prop where
  lo_le : lo ≤ peak
  le_hi : peak ≤ hi
  hi_le : hi ≤ maxInput
  third : firstThird lo hi < minInput ∨ 0 < gain quote (firstThird lo hi)
  below : lo < minInput → 2 ≤ lo.toNat ∧ minInput * 2 < maxInput ∧
    (minInput * 2).toNat = minInput.toNat * 2 ∧ 0 < gain quote (minInput * 2)

theorem Holds.sorted (h : Holds quote minInput maxInput peak lo hi) : lo ≤ hi :=
  BitVec.le_trans h.lo_le h.le_hi

theorem narrow_left (h : gain quote (secondThird lo hi) < gain quote (firstThird lo hi)) :
    narrow quote (lo, hi) = (lo, secondThird lo hi) := if_pos h

theorem narrow_right (h : ¬gain quote (secondThird lo hi) < gain quote (firstThird lo hi)) :
    narrow quote (lo, hi) = (firstThird lo hi, hi) := if_neg h

/-- The first third of the left part is not past the first third. -/
theorem firstThird_left (h : lo ≤ hi) : firstThird lo (secondThird lo hi) ≤ firstThird lo hi := by
  obtain ⟨hfirst, hmid, -⟩ := thirds_sorted h
  have hle := BitVec.le_def.mp h
  simp only [BitVec.le_def, toNat_firstThird h, toNat_firstThird (BitVec.le_trans hfirst hmid),
    toNat_secondThird h]
  omega

/-- The first third of the right part is not past the second third. -/
theorem firstThird_right (h : lo ≤ hi) : firstThird (firstThird lo hi) hi ≤ secondThird lo hi := by
  obtain ⟨-, hmid, hsecond⟩ := thirds_sorted h
  have hle := BitVec.le_def.mp h
  simp only [BitVec.le_def, toNat_firstThird (BitVec.le_trans hmid hsecond), toNat_firstThird h,
    toNat_secondThird h]
  omega

/-- From a first third inside the bounds the left part keeps the peak. -/
theorem Holds.left (hpeak : Unimodal quote minInput maxInput peak)
    (h : Holds quote minInput maxInput peak lo hi)
    (hless : gain quote (secondThird lo hi) < gain quote (firstThird lo hi))
    (hge : minInput ≤ firstThird lo hi) :
    Holds quote minInput maxInput peak lo (secondThird lo hi) := by
  obtain ⟨-, hmid, hsecond⟩ := thirds_sorted h.sorted
  have hsecondMax := BitVec.le_trans hsecond h.hi_le
  have hnext := firstThird_left h.sorted
  refine ⟨h.lo_le, ?_, hsecondMax, ?_, h.below⟩
  · have hlt : firstThird lo hi < secondThird lo hi := by
      apply BitVec.lt_of_le_ne hmid
      intro heq
      rw [heq] at hless
      exact BitVec.lt_irrefl _ hless
    exact BitVec.le_of_lt (hpeak.peak_lt hge hlt hless)
  · rcases h.third with hbelow | hgain
    · exact .inl (Std.lt_of_le_of_lt hnext hbelow)
    · exact hpeak.below_or_gains hnext (BitVec.le_trans hmid hsecondMax) hgain

/-- From a first third below the least input, which is below the peak, the right part keeps it. -/
theorem Holds.right_of_below (hpeak : Unimodal quote minInput maxInput peak)
    (h : Holds quote minInput maxInput peak lo hi) (hbelow : firstThird lo hi < minInput) :
    Holds quote minInput maxInput peak (firstThird lo hi) hi := by
  have hfirst := (thirds_sorted h.sorted).1
  obtain ⟨htwo, hdouble, hvalue, hgain⟩ := h.below (Std.lt_of_le_of_lt hfirst hbelow)
  have hfar : secondThird lo hi ≤ minInput * 2 := by
    have hle := BitVec.le_def.mp h.sorted
    rw [BitVec.lt_def, toNat_firstThird h.sorted] at hbelow
    rw [BitVec.le_def, toNat_secondThird h.sorted, hvalue]
    omega
  have hnext := BitVec.le_trans (firstThird_right h.sorted) hfar
  refine ⟨BitVec.le_of_lt (Std.lt_of_lt_of_le hbelow hpeak.peak_ge), h.le_hi, h.hi_le, ?_, ?_⟩
  · exact hpeak.below_or_gains hnext (BitVec.le_of_lt hdouble) hgain
  · intro _
    exact ⟨Nat.le_trans htwo (BitVec.le_def.mp hfirst), hdouble, hvalue, hgain⟩

/-- Equal thirds are those of a single amount. -/
theorem firstThird_eq_lo (h : lo ≤ hi) (heq : firstThird lo hi = secondThird lo hi) :
    firstThird lo hi = lo := by
  have hle := BitVec.le_def.mp h
  have hnat := congrArg BitVec.toNat heq
  rw [toNat_firstThird h, toNat_secondThird h] at hnat
  apply BitVec.eq_of_toNat_eq
  rw [toNat_firstThird h]
  omega

/-- From a first third that gains the right part keeps the peak. -/
theorem Holds.right (hpeak : Unimodal quote minInput maxInput peak)
    (h : Holds quote minInput maxInput peak lo hi)
    (hmore : gain quote (firstThird lo hi) ≤ gain quote (secondThird lo hi))
    (hge : minInput ≤ firstThird lo hi) :
    Holds quote minInput maxInput peak (firstThird lo hi) hi := by
  obtain ⟨-, hmid, hsecond⟩ := thirds_sorted h.sorted
  have hsecondMax := BitVec.le_trans hsecond h.hi_le
  have hgain := h.third.resolve_left (BitVec.not_lt.mpr hge)
  refine ⟨?_, h.le_hi, h.hi_le, ?_, fun hlt => absurd hge (BitVec.not_le.mpr hlt)⟩
  · by_cases heq : firstThird lo hi = secondThird lo hi
    · rw [firstThird_eq_lo h.sorted heq]
      exact h.lo_le
    · exact BitVec.le_of_lt (hpeak.lt_peak (BitVec.lt_of_le_ne hmid heq) hsecondMax hgain hmore)
  · exact hpeak.below_or_gains (firstThird_right h.sorted) hsecondMax
      (Std.lt_of_lt_of_le hgain hmore)

/-- An iteration that an amount below the least input sways: it is the more profitable one. -/
def Swayed (quote : U256 → Option U256) (minInput : U256) (bracket : U256 × U256) : Prop :=
  firstThird bracket.1 bracket.2 < minInput ∧
    gain quote (secondThird bracket.1 bracket.2) < gain quote (firstThird bracket.1 bracket.2)

instance (quote : U256 → Option U256) (minInput : U256) (bracket : U256 × U256) :
    Decidable (Swayed quote minInput bracket) := inferInstanceAs (Decidable (_ ∧ _))

/-- **One iteration keeps the peak**, unless it is swayed. -/
theorem Holds.narrow (hpeak : Unimodal quote minInput maxInput peak)
    (h : Holds quote minInput maxInput peak lo hi) (hstays : ¬Swayed quote minInput (lo, hi)) :
    Holds quote minInput maxInput peak (narrow quote (lo, hi)).1 (narrow quote (lo, hi)).2 := by
  by_cases hless : gain quote (secondThird lo hi) < gain quote (firstThird lo hi)
  · rw [narrow_left hless]
    exact h.left hpeak hless (BitVec.not_lt.mp fun hbelow => hstays ⟨hbelow, hless⟩)
  · rw [narrow_right hless]
    by_cases hbelow : firstThird lo hi < minInput
    · exact h.right_of_below hpeak hbelow
    · exact h.right hpeak (BitVec.not_lt.mp hless) (BitVec.not_lt.mp hbelow)

theorem brackets_succ (hwide : ¬hi ≤ lo + 1000) :
    brackets quote (n + 1) lo hi =
      (lo, hi) :: brackets quote n (narrow quote (lo, hi)).1 (narrow quote (lo, hi)).2 := by
  rw [brackets, if_neg hwide]
  by_cases hleft : gain quote (secondThird lo hi) < gain quote (firstThird lo hi)
  · rw [if_pos hleft, narrow_left hleft]
  · rw [if_neg hleft, narrow_right hleft]

/-- **A search without swayed iterations keeps the peak** after each of them. -/
theorem Holds.brackets (hpeak : Unimodal quote minInput maxInput peak) (n : Nat)
    (h : Holds quote minInput maxInput peak lo hi)
    (hstays : ∀ bracket ∈ brackets quote n lo hi, ¬Swayed quote minInput bracket) :
    ∀ bracket ∈ brackets quote n lo hi, Holds quote minInput maxInput peak
      (Quoter.narrow quote bracket).1 (Quoter.narrow quote bracket).2 := by
  induction n generalizing lo hi with
  | zero =>
    intro bracket hmem
    exact absurd hmem List.not_mem_nil
  | succ n ih =>
    by_cases hwide : hi ≤ lo + 1000
    · intro bracket hmem
      rw [Quoter.brackets, if_pos hwide] at hmem
      exact absurd hmem List.not_mem_nil
    · rw [brackets_succ hwide] at hstays ⊢
      have hfirst := h.narrow hpeak (hstays _ List.mem_cons_self)
      intro bracket hmem
      rcases List.mem_cons.mp hmem with rfl | hmem
      · exact hfirst
      · exact ih hfirst (fun bracket hmem => hstays bracket (List.mem_cons_of_mem _ hmem))
          bracket hmem

/-! ## The probing phase -/

/-- The probes that are doubled to reach the next one stay words when doubled. -/
def DoublesFit (quote : U256 → Option U256) (maxInput : U256) (n : Nat) (s : Probing) : Prop :=
  ∀ a ∈ (probed quote maxInput n s).dropLast, a.toNat < 2 ^ 255

/-- Where a probe comes from: it is the first of two, or the double of one that gained no more. -/
def Origin (quote : U256 → Option U256) (minInput prev : U256) (probes used : Nat) : Prop :=
  prev = minInput ∧ used = probes ∨
    ∃ half, minInput ≤ half ∧ prev.toNat = half.toNat * 2 ∧ gain quote half ≤ gain quote prev

/-- **The state before a probe** that doubles the best amount so far. -/
structure Climbed (quote : U256 → Option U256) (minInput maxInput prev : U256) (s : Probing) :
    Prop where
  prev_ge : minInput ≤ prev
  prev_lt : prev < maxInput
  small : prev.toNat < 2 ^ 255
  probe : s.probe = minOf (prev * 2) maxInput
  profit : s.best.profit = gain quote prev
  origin : Origin quote minInput prev 1 s.probesUsed

/-- **The state a faltering probe leaves**, after the best amount `prev`. -/
structure Stopped (quote : U256 → Option U256) (minInput maxInput prev : U256) (s : Probing) :
    Prop where
  prev_ge : minInput ≤ prev
  prev_lt : prev < maxInput
  small : prev.toNat < 2 ^ 255
  hi_eq : s.hi = minOf (prev * 2) maxInput
  lo_eq : s.lo = if minInput * 2 < s.hi then s.hi / 4 else minInput
  falls : gain quote s.hi < gain quote prev
  profit : s.best.profit ≠ 0
  origin : Origin quote minInput prev 2 s.probesUsed

theorem probed_ne_nil (h : stops quote maxInput n s = true) : probed quote maxInput n s ≠ [] := by
  cases n with
  | zero => exact absurd h Bool.false_ne_true
  | succ n =>
    by_cases hprobe : s.probe ≤ maxInput
    · rw [probed_succ hprobe]
      exact List.cons_ne_nil _ _
    · rw [stops, if_neg hprobe] at h
      exact absurd h Bool.false_ne_true

theorem DoublesFit.tail (h : DoublesFit quote maxInput (n + 1) s) (hgo : ¬s.falters quote)
    (hlt : s.probe < maxInput) (hstops : stops quote maxInput n (s.next quote maxInput) = true) :
    s.probe.toNat < 2 ^ 255 ∧ DoublesFit quote maxInput n (s.next quote maxInput) := by
  have hprobed := (@probe_next quote 0 maxInput s n hgo hlt).2.1
  rw [DoublesFit, hprobed, List.dropLast_cons_of_ne_nil (probed_ne_nil hstops)] at h
  exact ⟨h _ List.mem_cons_self, fun a ha => h a (List.mem_cons_of_mem _ ha)⟩

theorem Climbed.toNat_probe (h : Climbed quote minInput maxInput a s) :
    s.probe.toNat = min (a.toNat * 2) maxInput.toNat := by
  rw [h.probe, toNat_minOf, toNat_double h.small]

/-- A probe that neither falters nor is the greatest input leads one step up. -/
theorem Climbed.next (h : Climbed quote minInput maxInput a s) (hgo : ¬s.falters quote)
    (hlt : s.probe < maxInput) (hsmall : s.probe.toNat < 2 ^ 255) :
    Climbed quote minInput maxInput s.probe (s.next quote maxInput) := by
  have hvalue := h.toNat_probe
  have hprev := BitVec.lt_def.mp h.prev_lt
  have hge := BitVec.le_def.mp h.prev_ge
  have hltNat := BitVec.lt_def.mp hlt
  have hmore : s.best.profit ≤ gain quote s.probe := by
    apply BitVec.not_lt.mp
    intro hless
    exact hgo (falters_of_lt hless)
  refine ⟨BitVec.le_def.mpr (by omega), hlt, hsmall, rfl, profit_improve_of_le hmore, .inr ?_⟩
  exact ⟨a, h.prev_ge, by omega, h.profit ▸ hmore⟩

theorem Climbed.stop (h : Climbed quote minInput maxInput a s) (hstop : s.falters quote) :
    Stopped quote minInput maxInput a (s.stop quote minInput) where
  prev_ge := h.prev_ge
  prev_lt := h.prev_lt
  small := h.small
  hi_eq := h.probe
  lo_eq := rfl
  falls := h.profit ▸ hstop.1
  profit := by
    change (s.best.improve _ _).profit ≠ 0
    rw [profit_improve, if_neg (BitVec.not_lt.mpr (BitVec.le_of_lt hstop.1))]
    exact (BitVec.pos_iff_ne_zero _).mp hstop.2
  origin := by
    apply h.origin.imp_left
    rintro ⟨hprev, hused⟩
    exact ⟨hprev, congrArg (· + 1) hused⟩

/-- **A phase that stops** does so after climbing by doubles. -/
theorem Climbed.probing (n : Nat) (h : Climbed quote minInput maxInput a s)
    (hfit : DoublesFit quote maxInput n s) (hstops : stops quote maxInput n s = true) :
    ∃ prev, Stopped quote minInput maxInput prev (probing quote minInput maxInput n s) := by
  induction n generalizing a s with
  | zero => exact absurd hstops Bool.false_ne_true
  | succ n ih =>
    have hle : s.probe ≤ maxInput := by
      rw [BitVec.le_def, h.toNat_probe]
      exact Nat.min_le_right _ _
    by_cases hstop : s.falters quote
    · rw [(probe_stop hstop hle).1]
      exact ⟨a, h.stop hstop⟩
    · by_cases hlast : s.probe = maxInput
      · rw [(@probe_last quote minInput _ _ _ hstop hlast).2.2] at hstops
        exact absurd hstops Bool.false_ne_true
      · have hlt := BitVec.lt_of_le_ne hle hlast
        obtain ⟨hstate, -, hnext⟩ := probe_next (n := n) hstop hlt
        rw [hnext] at hstops
        obtain ⟨hsmall, hrest⟩ := hfit.tail hstop hlt hstops
        rw [hstate]
        exact ih (h.next hstop hlt hsmall) hrest hstops

theorem stopped_found (hleast : minInput ≤ maxInput)
    (hfit : DoublesFit quote maxInput (steps / 2) (start minInput maxInput))
    (hstops : stops quote maxInput (steps / 2) (start minInput maxInput) = true) :
    ∃ prev, Stopped quote minInput maxInput prev (found quote minInput maxInput steps) := by
  unfold found
  cases hn : steps / 2 with
  | zero =>
    rw [hn] at hstops
    exact absurd hstops Bool.false_ne_true
  | succ n =>
    rw [hn] at hfit hstops
    have hgo : ¬(start minInput maxInput).falters quote := not_falters_start
    by_cases hlast : (start minInput maxInput).probe = maxInput
    · rw [(@probe_last quote minInput _ _ _ hgo hlast).2.2] at hstops
      exact absurd hstops Bool.false_ne_true
    · have hlt : (start minInput maxInput).probe < maxInput := BitVec.lt_of_le_ne hleast hlast
      obtain ⟨hstate, -, hnext⟩ := probe_next (n := n) hgo hlt
      rw [hnext] at hstops
      obtain ⟨hsmall, hrest⟩ := hfit.tail hgo hlt hstops
      rw [hstate]
      have hsecond : Climbed quote minInput maxInput minInput (second quote minInput maxInput) :=
        ⟨BitVec.le_refl _, hlt, hsmall, rfl, second_profit, .inl ⟨rfl, rfl⟩⟩
      exact hsecond.probing n hrest hstops

namespace Stopped

variable {prev : U256} (h : Stopped quote minInput maxInput prev s)

include h

theorem toNat_hi : s.hi.toNat = min (prev.toNat * 2) maxInput.toNat := by
  rw [h.hi_eq, toNat_minOf, toNat_double h.small]

theorem hi_le : s.hi ≤ maxInput := by
  rw [BitVec.le_def, h.toNat_hi]
  exact Nat.min_le_right _ _

theorem prev_lt_hi : prev < s.hi := by
  have hvalue := h.toNat_hi
  have hprev := BitVec.lt_def.mp h.prev_lt
  apply BitVec.lt_of_le_ne (BitVec.le_def.mpr (by omega))
  intro heq
  exact BitVec.lt_irrefl _ (heq ▸ h.falls)

theorem toNat_double_min : (minInput * 2).toNat = minInput.toNat * 2 := by
  have hge := BitVec.le_def.mp h.prev_ge
  have hsmall := h.small
  exact toNat_double (by omega)

/-- From the third probe on, the best amount is the double of another. -/
theorem exists_half (hfar : minInput * 2 < s.hi) : ∃ half, minInput ≤ half ∧
    prev.toNat = half.toNat * 2 ∧ gain quote half ≤ gain quote prev := by
  apply h.origin.resolve_left
  rintro ⟨rfl, -⟩
  have hvalue := h.toNat_hi
  rw [BitVec.lt_def, h.toNat_double_min] at hfar
  omega

theorem min_small (hfar : minInput * 2 < s.hi) : minInput.toNat < 2 ^ 254 := by
  obtain ⟨half, hge, hhalf, -⟩ := h.exists_half hfar
  have hsmall := h.small
  rw [BitVec.le_def] at hge
  omega

/-- At the second, it is the least input. -/
theorem second_eq (hnear : ¬minInput * 2 < s.hi) : prev = minInput ∧ s.probesUsed = 2 := by
  apply h.origin.resolve_right
  rintro ⟨half, hge, hhalf, -⟩
  have hhi := BitVec.lt_def.mp h.prev_lt_hi
  rw [BitVec.le_def] at hge
  rw [BitVec.lt_def, h.toNat_double_min] at hnear
  omega

/-- **The bracket the probing leaves holds the peak.** -/
theorem peak_mem (hpeak : Unimodal quote minInput maxInput peak) : s.lo ≤ peak ∧ peak ≤ s.hi := by
  have hhi : peak < s.hi := hpeak.peak_lt h.prev_ge h.prev_lt_hi h.falls
  refine ⟨?_, BitVec.le_of_lt hhi⟩
  rw [h.lo_eq]
  split
  · rename_i hfar
    obtain ⟨half, hge, hhalf, hgain⟩ := h.exists_half hfar
    have hvalue := h.toNat_hi
    have hprevHi := BitVec.lt_def.mp h.prev_lt_hi
    have hprev := BitVec.lt_def.mp h.prev_lt
    have hgainPrev : 0 < gain quote prev := pos_of_lt h.falls
    have hhalfPrev : half < prev := by
      rw [BitVec.lt_def]
      omega
    have hbehind : half < peak := by
      apply hpeak.lt_peak hhalfPrev (BitVec.le_of_lt h.prev_lt) _ hgain
      exact hpeak.gain_pos_below hge (BitVec.le_of_lt hhalfPrev) (BitVec.le_of_lt h.prev_lt)
        hgainPrev
    have hquarter := toNat_quarter s.hi
    rw [BitVec.lt_def] at hbehind
    rw [BitVec.le_def]
    omega
  · exact hpeak.peak_ge

/-- After the third probe the first third gains. -/
theorem firstThird_le (hpeak : Unimodal quote minInput maxInput peak)
    (hfar : minInput * 2 < s.hi) : firstThird s.lo s.hi ≤ prev := by
  obtain ⟨hlo, hhi⟩ := h.peak_mem hpeak
  have hsorted := BitVec.le_trans hlo hhi
  have hvalue := h.toNat_hi
  have hquarter := toNat_quarter s.hi
  rw [← if_pos (c := minInput * 2 < s.hi) (t := s.hi / 4) (e := minInput) hfar, ← h.lo_eq]
    at hquarter
  rw [BitVec.le_def, toNat_firstThird hsorted]
  omega

/-- It gains, or is below the least input. -/
theorem third (hpeak : Unimodal quote minInput maxInput peak) (hfar : minInput * 2 < s.hi) :
    firstThird s.lo s.hi < minInput ∨ 0 < gain quote (firstThird s.lo s.hi) :=
  hpeak.below_or_gains (h.firstThird_le hpeak hfar) (BitVec.le_of_lt h.prev_lt) (pos_of_lt h.falls)

end Stopped

/-! ## The optimum of a run -/

/-- Where already the second probe stops the phase and the search goes on, the first third of the
bracket gains. -/
def SecondGains (quote : U256 → Option U256) (minInput maxInput : U256) (steps : Nat) : Prop :=
  minInput < maxInput → gain quote (minOf (minInput * 2) maxInput) < gain quote minInput →
    0 < steps - 4 → minInput + 1000 < minOf (minInput * 2) maxInput →
    0 < gain quote (firstThird minInput (minOf (minInput * 2) maxInput))

/-- A run none of whose steps goes wrong: the probes that are doubled stay words, and no iteration
is swayed by an amount below the least input. -/
structure Steady (quote : U256 → Option U256) (minInput maxInput : U256) (steps : Nat) : Prop where
  doubles : DoublesFit quote maxInput (steps / 2) (start minInput maxInput)
  stays : ∀ bracket ∈ searched quote minInput maxInput steps, ¬Swayed quote minInput bracket

/-- **The search keeps the optimum**: where the probing stops at a probe less profitable than the
best one, the optimum is in the bracket it leaves and in the bracket after every iteration. -/
def KeepsPeak (quote : U256 → Option U256) (minInput maxInput : U256) (steps : Nat)
    (peak : U256) : Prop :=
  stops quote maxInput (steps / 2) (start minInput maxInput) = true →
    ((found quote minInput maxInput steps).lo ≤ peak ∧
      peak ≤ (found quote minInput maxInput steps).hi) ∧
    ∀ bracket ∈ searched quote minInput maxInput steps,
      (narrow quote bracket).1 ≤ peak ∧ peak ≤ (narrow quote bracket).2

theorem brackets_of_mem {bracket : U256 × U256} (h : bracket ∈ brackets quote n lo hi) :
    0 < n ∧ lo + 1000 < hi := by
  cases n with
  | zero => exact absurd h List.not_mem_nil
  | succ n =>
    refine ⟨Nat.succ_pos n, BitVec.not_le.mp fun hwide => ?_⟩
    rw [brackets, if_pos hwide] at h
    exact absurd h List.not_mem_nil

/-- Inside the bounds no iteration is swayed. -/
theorem not_swayed_of_ge (hlo : minInput ≤ lo) (hle : lo ≤ hi) :
    ∀ bracket ∈ brackets quote n lo hi, ¬Swayed quote minInput bracket := by
  rintro bracket hmem ⟨hbelow, -⟩
  obtain ⟨hge, hsorted, -⟩ := mem_brackets n hle hmem
  have hfirst := (thirds_sorted hsorted).1
  exact absurd hbelow (BitVec.not_lt.mpr (BitVec.le_trans hlo (BitVec.le_trans hge hfirst)))

theorem searched_eq (hprofit : (found quote minInput maxInput steps).best.profit ≠ 0)
    (hhi : (found quote minInput maxInput steps).hi ≤ maxInput) :
    searched quote minInput maxInput steps =
      brackets quote (steps - (found quote minInput maxInput steps).probesUsed * 2)
        (found quote minInput maxInput steps).lo (found quote minInput maxInput steps).hi := by
  rw [searched]
  simp only [hprofit, if_false]
  rw [show minOf _ maxInput = _ from if_pos hhi]

/-- A phase that stops with a bracket from below the least input on stops at the third probe. -/
theorem Stopped.thirdStops {prev : U256}
    (h : Stopped quote minInput maxInput prev (found quote minInput maxInput steps))
    (hfar : minInput * 2 < (found quote minInput maxInput steps).hi)
    (hbelow : (found quote minInput maxInput steps).lo < minInput) :
    ThirdStops quote minInput maxInput steps := by
  obtain ⟨half, hge, hhalf, -⟩ := h.exists_half hfar
  have hvalue := h.toNat_hi
  have hlo := congrArg BitVec.toNat h.lo_eq
  rw [if_pos hfar, toNat_quarter] at hlo
  have hprevHi := BitVec.lt_def.mp h.prev_lt_hi
  have hprevMax := BitVec.lt_def.mp h.prev_lt
  have hfarNat := BitVec.lt_def.mp hfar
  have hbelowNat := BitVec.lt_def.mp hbelow
  rw [BitVec.le_def] at hge
  have hquadruple : (minInput * 4).toNat = minInput.toNat * 4 := toNat_quadruple (h.min_small hfar)
  -- the bracket starts at a quarter of the third probe, which is then the clamped one
  have habove : minInput * 2 < maxInput := by
    rw [BitVec.lt_def]
    omega
  have hnear : maxInput < minInput * 4 := by
    rw [BitVec.lt_def]
    omega
  refine (found_gap (h.min_small hfar) (pos_of_lt hbelow) habove hnear).resolve_right ?_
  · rintro ⟨heq, -⟩
    exact BitVec.lt_irrefl _ (heq ▸ hbelow)

/-- A second probe that is less profitable than the first stops the phase. -/
theorem second_stops (hlt : minInput < maxInput)
    (hfalls : gain quote (minOf (minInput * 2) maxInput) < gain quote minInput)
    (hprobes : 2 ≤ steps / 2) :
    found quote minInput maxInput steps = (second quote minInput maxInput).stop quote minInput ∧
      stops quote maxInput (steps / 2) (start minInput maxInput) = true := by
  have hgo : ¬(start minInput maxInput).falters quote := not_falters_start
  have hprobe : (second quote minInput maxInput).probe = minOf (minInput * 2) maxInput := rfl
  have hstop : (second quote minInput maxInput).falters quote := by
    apply falters_of_lt
    rw [second_profit]
    exact hfalls
  have hle : (second quote minInput maxInput).probe ≤ maxInput := by
    rw [hprobe, BitVec.le_def, toNat_minOf]
    exact Nat.min_le_right _ _
  obtain ⟨n, hn⟩ := Nat.exists_eq_add_of_le' hprobes
  obtain ⟨hstate, -, hnext⟩ := probe_next (n := n + 1) hgo hlt
  obtain ⟨hstate', -, hstops⟩ := probe_stop (n := n) hstop hle
  rw [found, hn]
  exact ⟨hstate.trans hstate', hnext.trans hstops⟩

section

variable (hpeak : Unimodal quote minInput maxInput peak)

include hpeak

/-- The search of a phase that the second probe stops. -/
theorem holds_second {prev : U256}
    (h : Stopped quote minInput maxInput prev (found quote minInput maxInput steps))
    (hnear : ¬minInput * 2 < (found quote minInput maxInput steps).hi)
    (hgains : SecondGains quote minInput maxInput steps) :
    ∀ bracket ∈ searched quote minInput maxInput steps,
      Holds quote minInput maxInput peak (narrow quote bracket).1 (narrow quote bracket).2 := by
  obtain ⟨rfl, hused⟩ := h.second_eq hnear
  have hmem := h.peak_mem hpeak
  have hlo := h.lo_eq
  rw [if_neg hnear] at hlo
  rw [searched_eq h.profit h.hi_le, hused]
  rw [hlo] at hmem ⊢
  intro bracket hbracket
  obtain ⟨hpos, hwide⟩ := brackets_of_mem hbracket
  have hthird := hgains h.prev_lt (h.hi_eq ▸ h.falls) hpos (h.hi_eq ▸ hwide)
  rw [← h.hi_eq] at hthird
  have hstart : Holds quote prev maxInput peak prev (found quote prev maxInput steps).hi :=
    ⟨hmem.1, hmem.2, h.hi_le, .inr hthird, fun hlt => absurd hlt (BitVec.lt_irrefl _)⟩
  exact hstart.brackets hpeak _ (not_swayed_of_ge (BitVec.le_refl _) hstart.sorted) bracket hbracket

/-- The search of a phase that the third probe stops at the greatest input. -/
theorem holds_third {prev : U256}
    (h : Stopped quote minInput maxInput prev (found quote minInput maxInput steps))
    (hmin : 0 < minInput) (hfar : minInput * 2 < (found quote minInput maxInput steps).hi)
    (hstops : ThirdStops quote minInput maxInput steps)
    (hstays : ∀ bracket ∈ searched quote minInput maxInput steps, ¬Swayed quote minInput bracket) :
    ∀ bracket ∈ searched quote minInput maxInput steps,
      Holds quote minInput maxInput peak (narrow quote bracket).1 (narrow quote bracket).2 := by
  have hpeakLo := (h.peak_mem hpeak).1
  have hthird := h.third hpeak hfar
  have hdouble := h.toNat_double_min
  obtain ⟨hlo, hhi, hused, -, -⟩ := hstops.found (h.min_small hfar) hmin
  rw [searched_eq h.profit h.hi_le, hused] at hstays ⊢
  rw [hlo, hhi] at hthird hstays ⊢
  rw [hlo] at hpeakLo
  intro bracket hbracket
  have hwide := BitVec.lt_def.mp (brackets_of_mem hbracket).2
  have hquarter := toNat_quarter maxInput
  rw [BitVec.toNat_add] at hwide
  have hstart : Holds quote minInput maxInput peak (maxInput / 4) maxInput := by
    refine ⟨hpeakLo, hpeak.peak_le, BitVec.le_refl _, hthird, fun _ => ⟨?_, hstops.above,
      hdouble, pos_of_lt hstops.falls⟩⟩
    change (_ + 1000) % _ < _ at hwide
    omega
  exact hstart.brackets hpeak _ hstays bracket hbracket

/-- The search of a phase that a later probe stops. -/
theorem holds_later {prev : U256}
    (h : Stopped quote minInput maxInput prev (found quote minInput maxInput steps))
    (hfar : minInput * 2 < (found quote minInput maxInput steps).hi)
    (hstays : ∀ bracket ∈ searched quote minInput maxInput steps, ¬Swayed quote minInput bracket) :
    ∀ bracket ∈ searched quote minInput maxInput steps,
      Holds quote minInput maxInput peak (narrow quote bracket).1 (narrow quote bracket).2 := by
  by_cases hbelow : (found quote minInput maxInput steps).lo < minInput
  · exact holds_third hpeak h (pos_of_lt hbelow) hfar (h.thirdStops hfar hbelow) hstays
  · obtain ⟨hlo, hhi⟩ := h.peak_mem hpeak
    rw [searched_eq h.profit h.hi_le]
    have hstart : Holds quote minInput maxInput peak (found quote minInput maxInput steps).lo
        (found quote minInput maxInput steps).hi :=
      ⟨hlo, hhi, h.hi_le, h.third hpeak hfar, fun hlt => absurd hlt hbelow⟩
    exact hstart.brackets hpeak _ (not_swayed_of_ge (BitVec.not_lt.mp hbelow) hstart.sorted)

/-- The first third of a bracket that the second probe leaves has to gain. -/
theorem secondGains_of_keepsPeak
    (hfit : DoublesFit quote maxInput (steps / 2) (start minInput maxInput))
    (h : KeepsPeak quote minInput maxInput steps peak) :
    SecondGains quote minInput maxInput steps := by
  intro hlt hfalls hsteps hwide
  have hprobes : 2 ≤ steps / 2 := by omega
  obtain ⟨hfound, hstopped⟩ := second_stops hlt hfalls hprobes
  obtain ⟨prev, hprev⟩ := stopped_found (BitVec.le_of_lt hlt) hfit hstopped
  obtain ⟨-, hkeeps⟩ := h hstopped
  have hnear : ¬minInput * 2 < (found quote minInput maxInput steps).hi := by
    rw [hfound]
    change ¬minInput * 2 < minOf (minInput * 2) maxInput
    rw [BitVec.lt_def, toNat_minOf]
    omega
  obtain ⟨rfl, hused⟩ := hprev.second_eq hnear
  have hlo := hprev.lo_eq
  rw [if_neg hnear] at hlo
  have hsorted : prev ≤ minOf (prev * 2) maxInput := hprev.hi_eq ▸ BitVec.le_of_lt hprev.prev_lt_hi
  obtain ⟨m, hm⟩ := Nat.exists_eq_succ_of_ne_zero (Nat.pos_iff_ne_zero.mp hsteps)
  rw [searched_eq hprev.profit hprev.hi_le, hused, hlo, hprev.hi_eq, hm,
    brackets_succ (BitVec.not_le.mpr hwide)] at hkeeps
  have hfirst := hkeeps _ List.mem_cons_self
  apply (BitVec.pos_iff_ne_zero _).mpr
  intro hzero
  have hright : ¬gain quote (secondThird prev (minOf (prev * 2) maxInput)) <
      gain quote (firstThird prev (minOf (prev * 2) maxInput)) := by
    rw [hzero]
    exact BitVec.not_lt_zero
  rw [narrow_right hright] at hfirst
  have hgain := hpeak.gain_pos_of_le (thirds_sorted hsorted).1 hfirst.1
  rw [hzero] at hgain
  exact BitVec.lt_irrefl _ hgain

end

/-- **The search keeps the optimum exactly when** a bracket that the second probe leaves starts
with a first third that gains, in every run none of whose steps goes wrong. -/
theorem keepsPeak_iff (hpeak : Unimodal quote minInput maxInput peak) :
    (Steady quote minInput maxInput steps →
      (KeepsPeak quote minInput maxInput steps peak ↔
        SecondGains quote minInput maxInput steps)) ∧
    (DoublesFit quote maxInput (steps / 2) (start minInput maxInput) →
      KeepsPeak quote minInput maxInput steps peak →
        SecondGains quote minInput maxInput steps) := by
  have hleast := BitVec.le_trans hpeak.peak_ge hpeak.peak_le
  have hgains : DoublesFit quote maxInput (steps / 2) (start minInput maxInput) →
      KeepsPeak quote minInput maxInput steps peak → SecondGains quote minInput maxInput steps :=
    fun hfit => secondGains_of_keepsPeak hpeak hfit
  refine ⟨fun hsteady => ⟨hgains hsteady.doubles, fun hsecond hstops => ?_⟩, hgains⟩
  obtain ⟨prev, hprev⟩ := stopped_found hleast hsteady.doubles hstops
  refine ⟨hprev.peak_mem hpeak, fun bracket hmem => ?_⟩
  by_cases hfar : minInput * 2 < (found quote minInput maxInput steps).hi
  · have hholds := holds_later hpeak hprev hfar hsteady.stays bracket hmem
    exact ⟨hholds.lo_le, hholds.le_hi⟩
  · have hholds := holds_second hpeak hprev hfar hsecond bracket hmem
    exact ⟨hholds.lo_le, hholds.le_hi⟩

/-! ### A hill -/

/-- The profit is the amount and 2000 more up to 18000, and falls from there on. -/
def hill (amount : U256) : Option U256 :=
  if amount.toNat ≤ 18000 then some (BitVec.ofNat 256 (2000 + 2 * amount.toNat)) else some 38000

theorem signedProfit_hill (amount : U256) : signedProfit hill amount =
    if amount.toNat ≤ 18000 then 2000 + (amount.toNat : Int) else 38000 - amount.toNat := by
  unfold signedProfit hill
  split
  · rw [Option.getD_some, BitVec.toNat_ofNat, Nat.mod_eq_of_lt (by omega)]
    omega
  · have hvalue : (38000 : U256).toNat = 38000 := by decide
    rw [Option.getD_some, hvalue]
    rfl

theorem unimodal_hill : Unimodal hill 10000 35000 18000 where
  peak_ge := by decide
  peak_le := by decide
  rises a b _ hlt hle := by
    rw [BitVec.lt_def] at hlt
    have hpeak : b.toNat ≤ 18000 := hle
    rw [signedProfit_hill, signedProfit_hill, if_pos hpeak, if_pos (by omega)]
    omega
  falls a b hge hlt _ := by
    rw [BitVec.lt_def] at hlt
    have hpeak : 18000 ≤ a.toNat := hge
    rw [signedProfit_hill, signedProfit_hill, if_neg (by omega)]
    split <;> omega
  gains := by
    rw [signedProfit_hill]
    decide

/-- The third probe stops at the greatest input, and the search starts below the least one. All of
its four iterations keep the optimum. -/
theorem keepsPeak_iff_hill :
    (searched hill 10000 35000 10).head? = some (8750, 35000) ∧
    (searched hill 10000 35000 10).length = 4 ∧ KeepsPeak hill 10000 35000 10 18000 := by
  have hprobed : (probed hill 35000 (10 / 2) (start 10000 35000)).dropLast = [10000, 20000] := by
    decide +kernel
  have hstays : (searched hill 10000 35000 10).all fun bracket => ¬Swayed hill 10000 bracket := by
    decide +kernel
  have hsteady : Steady hill 10000 35000 10 := by
    refine ⟨fun a ha => ?_, fun bracket hmem =>
      of_decide_eq_true (List.all_eq_true.mp hstays bracket hmem)⟩
    rw [hprobed] at ha
    rcases List.mem_cons.mp ha with rfl | ha
    · decide
    · obtain rfl := List.mem_singleton.mp ha
      decide
  have hrises : ¬gain hill (minOf (10000 * 2) 35000) < gain hill 10000 := by decide +kernel
  refine ⟨by decide +kernel, by decide +kernel, ?_⟩
  exact ((keepsPeak_iff unimodal_hill).1 hsteady).mpr fun _ hfalls => absurd hfalls hrises

/-! ### A constant output -/

/-- The same output for every amount: the profit falls from the least input on. -/
theorem unimodal_const {out : U256} (hleast : minInput ≤ maxInput) (hgain : minInput < out) :
    Unimodal (fun _ => some out) minInput maxInput minInput where
  peak_ge := BitVec.le_refl _
  peak_le := hleast
  rises a b hge hlt hle :=
    absurd (Std.lt_of_le_of_lt hge (Std.lt_of_lt_of_le hlt hle)) (BitVec.lt_irrefl _)
  falls a b _ hlt _ := by
    rw [BitVec.lt_def] at hlt
    simp only [signedProfit, Option.getD_some]
    omega
  gains := by
    rw [BitVec.lt_def] at hgain
    simp only [signedProfit, Option.getD_some]
    omega

/-- The second probe stops, both thirds of its bracket lose, and the search leaves the optimum, the
least input, behind. -/
theorem not_keepsPeak_const :
    Unimodal (fun _ => some 10001) 10000 1000000 10000 ∧
      ¬KeepsPeak (fun _ => some 10001) 10000 1000000 10 10000 := by
  refine ⟨unimodal_const (by decide) (by decide), fun hkeeps => ?_⟩
  have hstops : stops (fun _ => some 10001) 1000000 (10 / 2) (start 10000 1000000) = true := by
    decide +kernel
  have hsearched :
      (searched (fun _ => some 10001) 10000 1000000 10).head? = some (10000, 20000) := by
    decide +kernel
  have hbracket := (hkeeps hstops).2 _ (List.mem_of_mem_head? hsearched)
  exact absurd hbracket.1 (by decide)

end ArbBot.Quoter
