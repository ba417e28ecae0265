import ArbBot.Laws.Simulator.Accounting
import Mathlib.Data.List.Basic

/-!
# What the input optimiser asks for

The result of a run depends on the quotes of the amounts it goes through and on no other, and the
best amount is the best of them.
-/

namespace ArbBot.Quoter

variable {quote quote' : U256 → Option U256} {minInput maxInput lo hi amount : U256}
  {asked asked' : List U256} {s : Probing} {best : Best} {n steps : Nat}

/-! ## Steps of the two phases -/

theorem probing_of_lt (h : ¬s.probe ≤ maxInput) :
    probing quote minInput maxInput (n + 1) s = s := by
  rw [probing, if_neg h]

/-- The state a faltering probe leaves. -/
def Probing.stop (quote : U256 → Option U256) (minInput : U256) (s : Probing) : Probing :=
  { s with
    best := s.best.improve s.probe ((quote s.probe).getD 0)
    probesUsed := s.probesUsed + 1
    hi := s.probe
    lo := if minInput * 2 < s.probe then s.probe / 4 else minInput }

/-- The state after a probe at the greatest input. -/
def Probing.last (quote : U256 → Option U256) (s : Probing) : Probing :=
  { s with
    best := s.best.improve s.probe ((quote s.probe).getD 0)
    probesUsed := s.probesUsed + 1 }

theorem probing_succ (h : s.probe ≤ maxInput) :
    probing quote minInput maxInput (n + 1) s =
      if s.falters quote then s.stop quote minInput
      else if maxInput ≤ s.probe then s.last quote
      else probing quote minInput maxInput n (s.next quote maxInput) := by
  rw [probing, if_pos h]
  rfl

theorem probed_succ (h : s.probe ≤ maxInput) :
    probed quote maxInput (n + 1) s =
      s.probe :: if s.falters quote ∨ maxInput ≤ s.probe then []
        else probed quote maxInput n (s.next quote maxInput) := by
  rw [probed, if_pos h]

theorem stops_succ (h : s.probe ≤ maxInput) :
    stops quote maxInput (n + 1) s =
      if s.falters quote then true
      else if maxInput ≤ s.probe then false
      else stops quote maxInput n (s.next quote maxInput) := by
  rw [stops, if_pos h]

/-- A probe that neither falters nor is the greatest input. -/
theorem probe_next (hgo : ¬s.falters quote) (hlt : s.probe < maxInput) :
    probing quote minInput maxInput (n + 1) s =
        probing quote minInput maxInput n (s.next quote maxInput) ∧
      probed quote maxInput (n + 1) s =
        s.probe :: probed quote maxInput n (s.next quote maxInput) ∧
      stops quote maxInput (n + 1) s = stops quote maxInput n (s.next quote maxInput) := by
  have hle := BitVec.le_of_lt hlt
  have hnot := BitVec.not_le.mpr hlt
  rw [probing_succ hle, probed_succ hle, stops_succ hle]
  simp [hgo, hnot]

/-- A probe that falters. -/
theorem probe_stop (hstop : s.falters quote) (hle : s.probe ≤ maxInput) :
    probing quote minInput maxInput (n + 1) s = s.stop quote minInput ∧
      probed quote maxInput (n + 1) s = [s.probe] ∧ stops quote maxInput (n + 1) s = true := by
  rw [probing_succ hle, probed_succ hle, stops_succ hle]
  simp [hstop]

/-- The greatest input, where it does not falter. -/
theorem probe_last (hgo : ¬s.falters quote) (heq : s.probe = maxInput) :
    probing quote minInput maxInput (n + 1) s = s.last quote ∧
      probed quote maxInput (n + 1) s = [s.probe] ∧ stops quote maxInput (n + 1) s = false := by
  have hle : s.probe ≤ maxInput := heq ▸ BitVec.le_refl _
  have hge : maxInput ≤ s.probe := heq ▸ BitVec.le_refl _
  rw [probing_succ hle, probed_succ hle, stops_succ hle]
  simp [hgo, hge]

/-- The best after the two quotes of an iteration. -/
def Best.improveBoth (quote : U256 → Option U256) (best : Best) (bracket : U256 × U256) : Best :=
  (best.improve (firstThird bracket.1 bracket.2)
    ((quote (firstThird bracket.1 bracket.2)).getD 0)).improve
      (secondThird bracket.1 bracket.2) ((quote (secondThird bracket.1 bracket.2)).getD 0)

/-- **The ternary search keeps the best over its brackets.** -/
theorem refine_eq_foldl (n : Nat) (lo hi : U256) (best : Best) :
    refine quote n lo hi best =
      (brackets quote n lo hi).foldl (Best.improveBoth quote) best := by
  induction n generalizing lo hi best with
  | zero => rfl
  | succ n ih =>
    unfold refine brackets
    by_cases hwide : hi ≤ lo + 1000
    · rw [if_pos hwide, if_pos hwide, List.foldl_nil]
    · simp only [hwide, if_false, List.foldl_cons]
      by_cases hleft : gain quote (secondThird lo hi) < gain quote (firstThird lo hi)
      · rw [if_pos hleft, ← ih]
        exact if_pos hleft
      · rw [if_neg hleft, ← ih]
        exact if_neg hleft

/-! ## The quotes a run depends on -/

theorem gain_congr (h : quote amount = quote' amount) : gain quote amount = gain quote' amount := by
  rw [gain, gain, h]

theorem Probing.falters_congr (h : quote s.probe = quote' s.probe) :
    s.falters quote ↔ s.falters quote' := by
  rw [Probing.falters, Probing.falters, gain_congr h]

theorem probing_congr (n : Nat) (h : ∀ a ∈ probed quote maxInput n s, quote a = quote' a) :
    probing quote minInput maxInput n s = probing quote' minInput maxInput n s ∧
      probed quote maxInput n s = probed quote' maxInput n s := by
  induction n generalizing s with
  | zero => exact ⟨rfl, rfl⟩
  | succ n ih =>
    by_cases hprobe : s.probe ≤ maxInput
    · rw [probed_succ hprobe] at h ⊢
      rw [probing_succ hprobe, probing_succ hprobe, probed_succ hprobe]
      have hquote : quote s.probe = quote' s.probe := h _ List.mem_cons_self
      have hfalters := Probing.falters_congr hquote
      by_cases hstop : s.falters quote
      · simp [hstop, hfalters.mp hstop, Probing.stop, hquote]
      · have hstop' : ¬s.falters quote' := mt hfalters.mpr hstop
        by_cases hlast : maxInput ≤ s.probe
        · simp [hstop, hstop', hlast, Probing.last, hquote]
        · simp only [hstop, hstop', hlast, if_false, or_self] at h ⊢
          have hnext : s.next quote maxInput = s.next quote' maxInput := by
            simp [Probing.next, hquote]
          rw [← hnext]
          obtain ⟨hstate, hamounts⟩ := ih fun a ha => h a (List.mem_cons_of_mem _ ha)
          exact ⟨hstate, congrArg _ hamounts⟩
    · simp [probing, probed, hprobe]

theorem mem_thirds_self (bracket : U256 × U256) :
    firstThird bracket.1 bracket.2 ∈ thirds bracket ∧
      secondThird bracket.1 bracket.2 ∈ thirds bracket := by
  simp [thirds]

theorem improveBoth_congr {bracket : U256 × U256}
    (h : ∀ a ∈ thirds bracket, quote a = quote' a) (best : Best) :
    best.improveBoth quote bracket = best.improveBoth quote' bracket := by
  obtain ⟨hfirst, hsecond⟩ := mem_thirds_self bracket
  rw [Best.improveBoth, Best.improveBoth, h _ hfirst, h _ hsecond]

theorem brackets_congr (n : Nat)
    (h : ∀ a ∈ (brackets quote n lo hi).flatMap thirds, quote a = quote' a) :
    brackets quote n lo hi = brackets quote' n lo hi := by
  induction n generalizing lo hi with
  | zero => rfl
  | succ n ih =>
    unfold brackets at h ⊢
    by_cases hwide : hi ≤ lo + 1000
    · rw [if_pos hwide, if_pos hwide]
    · simp only [hwide, if_false, List.flatMap_cons, List.mem_append] at h ⊢
      have hfirst : gain quote (firstThird lo hi) = gain quote' (firstThird lo hi) :=
        gain_congr (h _ (.inl (mem_thirds_self (lo, hi)).1))
      have hsecond : gain quote (secondThird lo hi) = gain quote' (secondThird lo hi) :=
        gain_congr (h _ (.inl (mem_thirds_self (lo, hi)).2))
      rw [← hfirst, ← hsecond]
      by_cases hleft : gain quote (secondThird lo hi) < gain quote (firstThird lo hi)
      · simp only [hleft, if_true] at h ⊢
        rw [ih fun a ha => h a (.inr ha)]
      · simp only [hleft, if_false] at h ⊢
        rw [ih fun a ha => h a (.inr ha)]

theorem foldl_improveBoth_congr {visited : List (U256 × U256)}
    (h : ∀ a ∈ visited.flatMap thirds, quote a = quote' a) (best : Best) :
    visited.foldl (Best.improveBoth quote) best =
      visited.foldl (Best.improveBoth quote') best := by
  induction visited generalizing best with
  | nil => rfl
  | cons bracket visited ih =>
    simp only [List.flatMap_cons, List.mem_append] at h
    rw [List.foldl_cons, List.foldl_cons, improveBoth_congr fun a ha => h a (.inl ha)]
    apply ih
    intro a ha
    exact h a (.inr ha)

theorem optimizeInputWithDb_eq (quote : U256 → Option U256) (minInput maxInput : U256)
    (steps : Nat) :
    optimizeInputWithDb quote minInput maxInput steps =
      if (found quote minInput maxInput steps).best.profit = 0 then (minInput, 0)
      else
        let best := (searched quote minInput maxInput steps).foldl (Best.improveBoth quote)
          (found quote minInput maxInput steps).best
        (best.input, best.output) := by
  unfold optimizeInputWithDb
  by_cases hzero : (found quote minInput maxInput steps).best.profit = 0
  · rw [if_pos hzero]
    exact if_pos hzero
  · rw [if_neg hzero]
    refine (if_neg hzero).trans ?_
    simp only [refine_eq_foldl, searched, hzero, if_false]
    rfl

/-- **A run depends on the amounts it quotes and on no other.** -/
theorem optimizeInputWithDb_congr
    (h : ∀ a ∈ quotedAmounts quote minInput maxInput steps, quote a = quote' a) :
    optimizeInputWithDb quote minInput maxInput steps =
        optimizeInputWithDb quote' minInput maxInput steps ∧
      quotedAmounts quote minInput maxInput steps =
        quotedAmounts quote' minInput maxInput steps := by
  unfold quotedAmounts at h ⊢
  obtain ⟨hfound, hprobed⟩ := probing_congr _ fun a ha =>
    h a (List.mem_append_left _ ha)
  have hstate : found quote minInput maxInput steps = found quote' minInput maxInput steps := hfound
  have hsearched : searched quote minInput maxInput steps =
      searched quote' minInput maxInput steps := by
    have hall : ∀ a ∈ (searched quote minInput maxInput steps).flatMap thirds,
        quote a = quote' a := fun a ha => h a (List.mem_append_right _ ha)
    unfold searched at hall ⊢
    rw [← hstate]
    dsimp only at hall ⊢
    split
    · rfl
    · rename_i hzero
      rw [if_neg hzero] at hall
      exact brackets_congr _ hall
  constructor
  · rw [optimizeInputWithDb_eq, optimizeInputWithDb_eq, ← hstate, ← hsearched,
      foldl_improveBoth_congr fun a ha => h a (List.mem_append_right _ ha)]
  · rw [hprobed, hsearched]

/-! ## The best of the amounts asked for -/

/-- The best amount so far is the best of those asked for. -/
structure Covers (quote : U256 → Option U256) (minInput : U256) (asked : List U256)
    (best : Best) : Prop where
  bound : ∀ a ∈ asked, gain quote a ≤ best.profit
  source : best = ⟨minInput, 0, 0⟩ ∨
    best.input ∈ asked ∧ 0 < best.profit ∧ gain quote best.input = best.profit ∧
      quote best.input = some best.output

theorem covers_nil : Covers quote minInput [] ⟨minInput, 0, 0⟩ :=
  ⟨fun _ h => absurd h List.not_mem_nil, .inl rfl⟩

theorem pos_of_lt {word : U256} (h : amount < word) : 0 < word := by
  apply (BitVec.pos_iff_ne_zero _).mpr
  intro hzero
  exact BitVec.not_lt_zero (hzero ▸ h)

theorem gain_pos (h : 0 < gain quote amount) :
    ∃ out, quote amount = some out ∧ amount < out ∧ gain quote amount = out - amount := by
  unfold gain profitOf at h ⊢
  split at h
  · rename_i hlt
    rw [if_pos hlt]
    cases hquote : quote amount with
    | none =>
      rw [hquote] at hlt
      exact absurd hlt BitVec.not_lt_zero
    | some out =>
      rw [hquote] at hlt
      exact ⟨out, rfl, hlt, rfl⟩
  · exact absurd h BitVec.not_lt_zero

theorem Best.improve_eq (best : Best) (quote : U256 → Option U256) (a : U256) :
    best.improve a ((quote a).getD 0) =
      if best.profit < gain quote a then ⟨a, gain quote a, (quote a).getD 0⟩ else best := rfl

theorem Covers.improve (h : Covers quote minInput asked best) (a : U256) :
    Covers quote minInput (asked ++ [a]) (best.improve a ((quote a).getD 0)) := by
  rw [Best.improve_eq]
  by_cases hbetter : best.profit < gain quote a
  · rw [if_pos hbetter]
    have hpos : 0 < gain quote a := pos_of_lt hbetter
    constructor
    · intro b hb
      rcases List.mem_append.mp hb with hb | hb
      · exact BitVec.le_of_lt (Std.lt_of_le_of_lt (h.bound b hb) hbetter)
      · obtain rfl := List.mem_singleton.mp hb
        exact BitVec.le_refl _
    · right
      obtain ⟨out, hquote, -, -⟩ := gain_pos hpos
      refine ⟨List.mem_append_right _ List.mem_cons_self, hpos, rfl, ?_⟩
      rw [hquote, Option.getD_some]
  · rw [if_neg hbetter]
    constructor
    · intro b hb
      rcases List.mem_append.mp hb with hb | hb
      · exact h.bound b hb
      · obtain rfl := List.mem_singleton.mp hb
        exact BitVec.not_lt.mp hbetter
    · exact h.source.imp_right fun hsource => ⟨List.mem_append_left _ hsource.1, hsource.2⟩

theorem Covers.probing (n : Nat) (h : Covers quote minInput asked s.best) :
    Covers quote minInput (asked ++ probed quote maxInput n s)
      (probing quote minInput maxInput n s).best := by
  induction n generalizing s asked with
  | zero =>
    rw [probed, List.append_nil]
    exact h
  | succ n ih =>
    by_cases hprobe : s.probe ≤ maxInput
    · rw [probing_succ hprobe, probed_succ hprobe]
      by_cases hstop : s.falters quote
      · simp only [hstop, true_or, if_true]
        exact h.improve s.probe
      · by_cases hlast : maxInput ≤ s.probe
        · simp only [hstop, hlast, or_true, if_true, if_false]
          exact h.improve s.probe
        · simp only [hstop, hlast, or_self, if_false]
          rw [← List.singleton_append, ← List.append_assoc]
          exact ih (h.improve s.probe)
    · rw [probing_of_lt hprobe, probed, if_neg hprobe, List.append_nil]
      exact h

theorem Covers.foldl {visited : List (U256 × U256)} (h : Covers quote minInput asked best) :
    Covers quote minInput (asked ++ visited.flatMap thirds)
      (visited.foldl (Best.improveBoth quote) best) := by
  induction visited generalizing asked best with
  | nil =>
    rw [List.flatMap_nil, List.append_nil]
    exact h
  | cons bracket visited ih =>
    have hboth := (h.improve (firstThird bracket.1 bracket.2)).improve
      (secondThird bracket.1 bracket.2)
    rw [List.append_assoc] at hboth
    rw [List.flatMap_cons, List.foldl_cons, ← List.append_assoc]
    exact ih hboth

theorem covers_found (quote : U256 → Option U256) (minInput maxInput : U256) (steps : Nat) :
    Covers quote minInput (probed quote maxInput (steps / 2) (start minInput maxInput))
      (found quote minInput maxInput steps).best :=
  covers_nil.probing (s := start minInput maxInput) (steps / 2)

/-- **The result of a run**: nothing, with no amount profitable, or the best of the amounts. -/
theorem optimizeInputWithDb_best (quote : U256 → Option U256) (minInput maxInput : U256)
    (steps : Nat) :
    (optimizeInputWithDb quote minInput maxInput steps = (minInput, 0) ∧
      ∀ a ∈ quotedAmounts quote minInput maxInput steps, gain quote a = 0) ∨
    ∃ x y, optimizeInputWithDb quote minInput maxInput steps = (x, y) ∧
      x ∈ quotedAmounts quote minInput maxInput steps ∧ quote x = some y ∧ x < y ∧
      ∀ a ∈ quotedAmounts quote minInput maxInput steps, gain quote a ≤ y - x := by
  have hfound := covers_found quote minInput maxInput steps
  have hall : Covers quote minInput (quotedAmounts quote minInput maxInput steps) _ :=
    hfound.foldl
  rw [optimizeInputWithDb_eq]
  by_cases hzero : (found quote minInput maxInput steps).best.profit = 0
  · left
    rw [if_pos hzero]
    refine ⟨rfl, fun a ha => ?_⟩
    rw [quotedAmounts, searched] at ha
    simp only [hzero, if_true, List.flatMap_nil, List.append_nil] at ha
    have hle := hfound.bound a ha
    rw [hzero] at hle
    exact BitVec.le_zero_iff.mp hle
  · right
    rw [if_neg hzero]
    generalize (searched quote minInput maxInput steps).foldl _ _ = best at hall
    rcases hall.source with hnone | ⟨hmem, hpos, hgain, hquote⟩
    · -- what the probing found is still covered
      rcases hfound.source with hstart | ⟨hmem, hpos, hgain, -⟩
      · exact absurd (congrArg Best.profit hstart) hzero
      · have hle := hall.bound _ (List.mem_append_left _ hmem)
        rw [hgain, hnone] at hle
        exact absurd (BitVec.le_zero_iff.mp hle) hzero
    · obtain ⟨out, hout, hlt, hdiff⟩ := gain_pos (hgain ▸ hpos)
      obtain rfl : best.output = out := Option.some.inj (hquote.symm.trans hout)
      refine ⟨best.input, best.output, rfl, hmem, hquote, hlt, fun a ha => ?_⟩
      rw [← hdiff, hgain]
      exact hall.bound a ha

end ArbBot.Quoter
