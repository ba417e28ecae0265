import Mathlib.Data.Finset.Insert
import Mathlib.Data.List.Nodup
import Mathlib.Data.Set.Function

/-!
# Simple cycles of a labelled multigraph

A leg goes from a vertex to a vertex along a labelled edge. `link e u v` says that the edge
labelled `e` may be walked from `u` to `v`; parallel edges carry different labels. A **simple
cycle** through `start` is a nonempty list of legs that follow one another from `start` back to
`start`, and whose sources (the start and the vertices visited in between) are pairwise distinct.

`Closes` is the same notion read leg by leg, with the vertices visited so far as a parameter: it
is the shape a depth-first search explores. `simpleCycle_iff_closes` joins the two. The last
section carries a cycle along a vertex map and shows that a cycle of at least three legs never
walks one undirected edge twice.
-/

namespace Lib

variable {V W E : Type*}

/-- One leg of a walk: the edge `label`, taken from `src` to `dst`. -/
structure Leg (V E : Type*) where
  src : V
  label : E
  dst : V
  deriving DecidableEq, Repr

/-- The legs lead from `u` to `w`, each one starting where the one before it ends. -/
def Follows : V → List (Leg V E) → V → Prop
  | u, [], w => u = w
  | u, l :: ls, w => l.src = u ∧ Follows l.dst ls w

/-- A simple cycle through `start`. -/
structure SimpleCycle (link : E → V → V → Prop) (start : V) (legs : List (Leg V E)) : Prop where
  nonempty : legs ≠ []
  closes : Follows start legs start
  simple : (legs.map Leg.src).Nodup
  linked : ∀ l ∈ legs, link l.label l.src l.dst

/-! ## Walks, leg by leg -/

theorem Follows.head {u w : V} {legs : List (Leg V E)} (h : Follows u legs w)
    (hpos : 0 < legs.length) : legs[0].src = u := by
  cases legs with
  | nil => exact absurd hpos (Nat.lt_irrefl 0)
  | cons l ls => exact h.1

theorem Follows.next {u w : V} {legs : List (Leg V E)} (h : Follows u legs w) {i : Nat}
    (hi : i + 1 < legs.length) : legs[i].dst = legs[i + 1].src := by
  induction legs generalizing u i with
  | nil => exact absurd hi (Nat.not_lt_zero _)
  | cons l ls ih =>
    cases i with
    | zero => exact (h.2.head (Nat.lt_of_succ_lt_succ hi)).symm
    | succ i => exact ih h.2 (Nat.lt_of_succ_lt_succ hi)

theorem Follows.last {u w : V} {legs : List (Leg V E)} (h : Follows u legs w) {i : Nat}
    (hi : i < legs.length) (hlast : i + 1 = legs.length) : legs[i].dst = w := by
  induction legs generalizing u i with
  | nil => exact absurd hi (Nat.not_lt_zero _)
  | cons l ls ih =>
    cases i with
    | zero =>
      have hnil : ls = [] := List.eq_nil_of_length_eq_zero (Nat.succ.inj hlast).symm
      subst hnil
      exact h.2
    | succ i => exact ih h.2 (Nat.lt_of_succ_lt_succ hi) (Nat.succ.inj hlast)

/-- The sources are the start and the destinations before the last leg. -/
theorem Follows.sources {u w : V} : ∀ {legs : List (Leg V E)}, legs ≠ [] → Follows u legs w →
    legs.map Leg.src = u :: (legs.dropLast).map Leg.dst
  | [], hne, _ => absurd rfl hne
  | [_], _, h => congrArg (· :: []) h.1
  | l :: m :: ls, _, h => by
    have ih := Follows.sources (List.cons_ne_nil m ls) h.2
    simp only [List.map_cons, List.dropLast_cons_cons] at ih ⊢
    rw [ih, h.1]

/-- A nonempty list of legs leads from `u` to `w` exactly when its first leg starts in `u`, its
last leg ends in `w`, and its legs chain. -/
theorem follows_iff_isChain {u w : V} : ∀ {legs : List (Leg V E)}, legs ≠ [] →
    (Follows u legs w ↔ legs.head?.map Leg.src = some u ∧ legs.getLast?.map Leg.dst = some w ∧
      legs.IsChain fun a b => a.dst = b.src)
  | [], h => absurd rfl h
  | [l], _ => by simp [Follows]
  | l :: m :: ls, _ => by
    have ih := follows_iff_isChain (u := l.dst) (w := w) (List.cons_ne_nil m ls)
    rw [Follows, ih, List.isChain_cons_cons, List.getLast?_cons_cons]
    simp only [List.head?_cons, Option.map_some, Option.some.injEq]
    constructor
    · rintro ⟨hu, hm, hw, hchain⟩
      exact ⟨hu, hw, hm.symm, hchain⟩
    · rintro ⟨hu, hw, hm, hchain⟩
      exact ⟨hu, hm.symm, hw, hchain⟩

/-! ## Closing walks -/

/-- From `u`, with the vertices of `seen` used up, the legs visit fresh vertices other than
`start` and end in `start`. -/
def Closes [DecidableEq V] (link : E → V → V → Prop) (start : V) :
    V → Finset V → List (Leg V E) → Prop
  | _, _, [] => False
  | u, _, [l] => l.src = u ∧ link l.label u l.dst ∧ l.dst = start
  | u, seen, l :: m :: ls =>
    l.src = u ∧ link l.label u l.dst ∧ l.dst ≠ start ∧ l.dst ∉ seen ∧
      Closes link start l.dst (insert l.dst seen) (m :: ls)

variable [DecidableEq V]

theorem closes_cons_cons {link : E → V → V → Prop} {start u : V} {seen : Finset V}
    {l : Leg V E} {ls : List (Leg V E)} (hne : ls ≠ []) :
    Closes link start u seen (l :: ls) ↔
      l.src = u ∧ link l.label u l.dst ∧ l.dst ≠ start ∧ l.dst ∉ seen ∧
        Closes link start l.dst (insert l.dst seen) ls := by
  cases ls with
  | nil => exact absurd rfl hne
  | cons m ls => exact Iff.rfl

/-- What a closing walk is, with its vertices read off as the sources after the first leg. -/
theorem closes_iff {link : E → V → V → Prop} {start : V} :
    ∀ {legs : List (Leg V E)} {u : V} {seen : Finset V},
      Closes link start u seen legs ↔
        legs ≠ [] ∧ Follows u legs start ∧ (∀ l ∈ legs, link l.label l.src l.dst) ∧
          (legs.map Leg.src).tail.Nodup ∧
            ∀ v ∈ (legs.map Leg.src).tail, v ≠ start ∧ v ∉ seen
  | [], _, _ => by simp [Closes]
  | [l], u, seen => by
    simp only [Closes, Follows, ne_eq, List.cons_ne_nil, not_false_eq_true, true_and,
      List.mem_singleton, forall_eq, List.map_cons, List.map_nil, List.tail_cons, List.nodup_nil,
      List.not_mem_nil, false_imp_iff, implies_true, and_true]
    constructor
    · rintro ⟨rfl, hl, hd⟩
      exact ⟨⟨rfl, hd⟩, hl⟩
    · rintro ⟨⟨rfl, hd⟩, hl⟩
      exact ⟨rfl, hl, hd⟩
  | l :: m :: ls, u, seen => by
    have ih : Closes link start l.dst (insert l.dst seen) (m :: ls) ↔ _ := closes_iff
    simp only [Closes, ih, Follows, ne_eq, List.cons_ne_nil, not_false_eq_true, true_and,
      List.map_cons, List.tail_cons, List.nodup_cons]
    constructor
    · rintro ⟨rfl, hl, hstart, hseen, ⟨hm, hfollows⟩, hlinked, hnodup, hfresh⟩
      refine ⟨⟨rfl, hm, hfollows⟩, ?_, ⟨?_, hnodup⟩, ?_⟩
      · rintro k (_ | ⟨_, hk⟩)
        exacts [hl, hlinked k hk]
      · intro hmem
        exact (hfresh _ hmem).2 (Finset.mem_insert.mpr (.inl hm))
      · rintro v (_ | ⟨_, hv⟩)
        · exact ⟨hm ▸ hstart, hm ▸ hseen⟩
        · exact ⟨(hfresh v hv).1, fun h => (hfresh v hv).2 (Finset.mem_insert_of_mem h)⟩
    · rintro ⟨⟨rfl, hm, hfollows⟩, hlinked, ⟨hnot, hnodup⟩, hfresh⟩
      have hfirst := hfresh m.src List.mem_cons_self
      refine ⟨rfl, hlinked l List.mem_cons_self, hm ▸ hfirst.1, hm ▸ hfirst.2, ⟨hm, hfollows⟩,
        fun k hk => hlinked k (List.mem_cons_of_mem _ hk), hnodup, ?_⟩
      intro v hv
      have hv' := hfresh v (List.mem_cons_of_mem _ hv)
      refine ⟨hv'.1, fun hmem => ?_⟩
      rcases Finset.mem_insert.mp hmem with rfl | hmem
      · exact hnot (hm ▸ hv)
      · exact hv'.2 hmem

/-- A simple cycle through `start` is a walk from `start` that closes, with `start` used up. -/
theorem simpleCycle_iff_closes {link : E → V → V → Prop} {start : V} {legs : List (Leg V E)} :
    SimpleCycle link start legs ↔ Closes link start start {start} legs := by
  rw [closes_iff]
  cases legs with
  | nil => exact ⟨fun h => absurd rfl h.nonempty, fun h => absurd rfl h.1⟩
  | cons l ls =>
    constructor
    · intro h
      have hsrc : l.src = start := h.closes.1
      have hnodup := List.nodup_cons.mp h.simple
      refine ⟨h.nonempty, h.closes, h.linked, hnodup.2, fun v hv => ?_⟩
      have hne : v ≠ start := fun he => hnodup.1 (by rw [hsrc, ← he]; exact hv)
      exact ⟨hne, fun hmem => hne (Finset.mem_singleton.mp hmem)⟩
    · rintro ⟨hne, hfollows, hlinked, hnodup, hfresh⟩
      refine ⟨hne, hfollows, List.nodup_cons.mpr ⟨fun hmem => ?_, hnodup⟩, hlinked⟩
      exact (hfresh _ hmem).1 hfollows.1

/-! ## Carrying a cycle along a vertex map -/

/-- A leg with its ends renamed. -/
def Leg.map (f : V → W) (l : Leg V E) : Leg W E := ⟨f l.src, l.label, f l.dst⟩

omit [DecidableEq V] in
theorem Follows.map (f : V → W) : ∀ {legs : List (Leg V E)} {u w : V},
    Follows u legs w → Follows (f u) (legs.map (Leg.map f)) (f w)
  | [], _, _, h => congrArg f h
  | _ :: _, _, _, h => ⟨congrArg f h.1, Follows.map f h.2⟩

omit [DecidableEq V] in
/-- Renaming vertices by a map that keeps links and separates linked sources keeps simple
cycles. -/
theorem SimpleCycle.map {link : E → V → V → Prop} {link' : E → W → W → Prop} {start : V}
    {legs : List (Leg V E)} (h : SimpleCycle link start legs) (f : V → W)
    (hlink : ∀ e u v, link e u v → link' e (f u) (f v))
    (hinj : Set.InjOn f {u | ∃ e v, link e u v}) :
    SimpleCycle link' (f start) (legs.map (Leg.map f)) where
  nonempty := by simpa using h.nonempty
  closes := h.closes.map f
  simple := by
    have hsources : ∀ u ∈ legs.map Leg.src, ∃ e v, link e u v := by
      intro u hu
      obtain ⟨l, hl, rfl⟩ := List.mem_map.mp hu
      exact ⟨l.label, l.dst, h.linked l hl⟩
    have hmap := h.simple.map_on fun u hu v hv he => hinj (hsources u hu) (hsources v hv) he
    simpa only [List.map_map, Function.comp_def, Leg.map] using hmap
  linked := by
    intro l hl
    obtain ⟨k, hk, rfl⟩ := List.mem_map.mp hl
    exact hlink _ _ _ (h.linked k hk)

/-! ## No edge twice -/

omit [DecidableEq V] in
/-- **A simple cycle of at least three legs walks no undirected edge twice**, when a label has at
most one pair of ends. Two legs of one label share their pair of ends; distinct sources leave only
the reversed pair, and then the two legs alone already close the cycle. -/
theorem SimpleCycle.labels_nodup {link : E → V → V → Prop} {start : V} {legs : List (Leg V E)}
    (h : SimpleCycle link start legs) (hlen : 3 ≤ legs.length)
    (hends : ∀ {e u v u' v'}, link e u v → link e u' v' → (u = u' ∧ v = v') ∨ (u = v' ∧ v = u')) :
    (legs.map Leg.label).Nodup := by
  have hsrc : ∀ {i j : Nat} (hi : i < legs.length) (hj : j < legs.length),
      legs[i].src = legs[j].src → i = j := by
    intro i j hi hj he
    have hi' : i < (legs.map Leg.src).length := by rwa [List.length_map]
    have hj' : j < (legs.map Leg.src).length := by rwa [List.length_map]
    have hget : (legs.map Leg.src)[i] = (legs.map Leg.src)[j] := by
      simpa only [List.getElem_map] using he
    exact h.simple.getElem_inj_iff.mp hget
  rw [List.nodup_iff_pairwise_ne, List.pairwise_map, List.pairwise_iff_getElem]
  intro i j hi hj hij hlabel
  have hli := h.linked _ (List.getElem_mem hi)
  have hlj := h.linked _ (List.getElem_mem hj)
  rw [hlabel] at hli
  rcases hends hli hlj with ⟨hs, -⟩ | ⟨hs, hd⟩
  · exact absurd (hsrc hi hj hs) (Nat.ne_of_lt hij)
  · have hnext : i + 1 < legs.length := by omega
    have hji : i + 1 = j := hsrc hnext hj ((h.closes.next hnext).symm.trans hd)
    by_cases hmore : j + 1 < legs.length
    · have := hsrc hi hmore (hs.trans (h.closes.next hmore))
      omega
    · have hlast := h.closes.last hj (by omega)
      have hzero : legs[0].src = start := h.closes.head (by omega)
      have := hsrc hi (by omega) (hs.trans (hlast.trans hzero.symm))
      omega

end Lib
