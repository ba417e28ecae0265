import Mathlib.Data.Finset.Card
import Mathlib.Data.Finset.Union

/-!
# A scan with a cap

A scan goes through a list and keeps the first item of each new key, until it has kept so many.
It is nested: when it stops, it stops at the level of the item it has just kept, and an item of a
level above is still looked at. `reaches x y` says that `y` is looked at after a stop at `x`.

So the cap holds exactly if no item that is reached from the one at which the cap came brings a
new key (`count_scan_le_iff`). Where every item that is reached ranks below the one it is reached
from, the ranks bound what is kept beyond the cap (`count_scan_le_add`).
-/

namespace Lib

/-- The keys that are known, the number of items kept, and the item of the last stop. -/
structure Scan (α κ : Type*) where
  seen : Finset κ
  count : Nat
  stop : Option α

namespace Scan

variable {α κ : Type*}

/-- The item is looked at. -/
def Looks (reaches : α → α → Prop) (m : Scan α κ) (x : α) : Prop := ∀ y ∈ m.stop, reaches y x

theorem looks_of_stop_none {reaches : α → α → Prop} {m : Scan α κ} {x : α}
    (hstop : m.stop = none) : m.Looks reaches x := by
  intro y hy
  rw [hstop] at hy
  cases hy

theorem looks_of_stop {reaches : α → α → Prop} {m : Scan α κ} {x y : α} (hstop : m.stop = some y) :
    m.Looks reaches x ↔ reaches y x := by
  rw [Looks, hstop]
  simp only [Option.mem_def, Option.some.injEq, forall_eq']

variable [DecidableEq κ] (key : α → κ) (reaches : α → α → Prop) [DecidableRel reaches] (cap : Nat)

instance (m : Scan α κ) (x : α) : Decidable (m.Looks reaches x) :=
  inferInstanceAs (Decidable (∀ y ∈ m.stop, reaches y x))

/-- The item is kept. At the cap the scan stops there. -/
def keep (m : Scan α κ) (x : α) : Scan α κ where
  seen := insert (key x) m.seen
  count := m.count + 1
  stop := if cap ≤ m.count + 1 then some x else none

def step (m : Scan α κ) (x : α) : Scan α κ :=
  if m.Looks reaches x ∧ key x ∉ m.seen then m.keep key cap x else m

/-- The scan of a list, from the keys known before. -/
def scan (seen : Finset κ) (xs : List α) : Scan α κ :=
  xs.foldl (step key reaches cap) ⟨seen, 0, none⟩

def keys (xs : List α) : Finset κ := (xs.map key).toFinset

/-- The number of keys that are not known before. -/
def fresh (seen : Finset κ) (xs : List α) : Nat := (keys key xs \ seen).card

/-- An item with a new key is reached from the one at which the cap comes. -/
def Overruns (seen : Finset κ) (xs : List α) : Prop :=
  ∃ pre x post, xs = pre ++ x :: post ∧ fresh key seen pre + 1 = cap ∧
    key x ∉ seen ∪ keys key pre ∧
      ∃ y ∈ post, reaches x y ∧ key y ∉ insert (key x) (seen ∪ keys key pre)

variable {key reaches cap} {m : Scan α κ} {seen : Finset κ} {x : α} {xs : List α}

/-! ## One item -/

theorem step_of_looks (hlooks : m.Looks reaches x) (hnew : key x ∉ m.seen) :
    m.step key reaches cap x = m.keep key cap x := if_pos ⟨hlooks, hnew⟩

theorem step_of_mem (hknown : key x ∈ m.seen) : m.step key reaches cap x = m :=
  if_neg fun h => h.2 hknown

theorem step_of_not_looks (hskips : ¬ m.Looks reaches x) : m.step key reaches cap x = m :=
  if_neg fun h => hskips h.1

theorem count_le_step : m.count ≤ (m.step key reaches cap x).count := by
  unfold step
  split
  · exact Nat.le_succ _
  · exact Nat.le_refl _

theorem count_le_foldl : ∀ (xs : List α) (m : Scan α κ),
    m.count ≤ (xs.foldl (step key reaches cap) m).count
  | [], _ => Nat.le_refl _
  | _ :: xs, _ => count_le_step.trans (count_le_foldl xs _)

/-- An item at which the scan stops is one of the list. -/
theorem stop_foldl : ∀ (xs : List α) (m : Scan α κ) {y : α},
    (xs.foldl (step key reaches cap) m).stop = some y → m.stop = some y ∨ y ∈ xs
  | [], _, _, h => .inl h
  | x :: xs, m, y, h => by
    rcases stop_foldl xs (m.step key reaches cap x) h with hstop | hmem
    · unfold step keep at hstop
      split at hstop
      · dsimp only at hstop
        split at hstop
        · cases hstop
          exact .inr List.mem_cons_self
        · cases hstop
      · exact .inl hstop
    · exact .inr (List.mem_cons_of_mem x hmem)

/-- A scan that looks at none of the items stays as it is. -/
theorem foldl_of_not_looks : ∀ (xs : List α) (m : Scan α κ),
    (∀ x ∈ xs, ¬ m.Looks reaches x) → xs.foldl (step key reaches cap) m = m
  | [], _, _ => rfl
  | x :: xs, m, h => by
    rw [List.foldl_cons, step_of_not_looks (h x List.mem_cons_self)]
    exact foldl_of_not_looks xs m fun y hy => h y (List.mem_cons_of_mem x hy)

/-! ## Below the cap -/

theorem keys_concat (xs : List α) (x : α) : keys key (xs ++ [x]) = insert (key x) (keys key xs) := by
  ext k
  simp only [keys, List.map_append, List.map_cons, List.map_nil, List.mem_toFinset,
    List.mem_append, List.mem_singleton, Finset.mem_insert]
  exact or_comm

theorem fresh_concat_of_mem (h : key x ∈ seen ∪ keys key xs) :
    fresh key seen (xs ++ [x]) = fresh key seen xs := by
  unfold fresh
  rw [keys_concat]
  rcases Finset.mem_union.mp h with hseen | hkeys
  · rw [Finset.insert_sdiff_of_mem _ hseen]
  · rw [Finset.insert_eq_of_mem hkeys]

theorem fresh_concat_of_notMem (h : key x ∉ seen ∪ keys key xs) :
    fresh key seen (xs ++ [x]) = fresh key seen xs + 1 := by
  obtain ⟨hseen, hkeys⟩ := Finset.notMem_union.mp h
  unfold fresh
  rw [keys_concat, Finset.insert_sdiff_of_notMem _ hseen,
    Finset.card_insert_of_notMem fun hk => hkeys (Finset.mem_sdiff.mp hk).1]

/-- Below the cap a scan keeps an item for each new key. -/
theorem scan_of_fresh_lt (hlt : fresh key seen xs < cap) :
    scan key reaches cap seen xs = ⟨seen ∪ keys key xs, fresh key seen xs, none⟩ := by
  induction xs using List.reverseRecOn with
  | nil => simp [scan, keys, fresh]
  | append_singleton xs x ih =>
    have hunion : seen ∪ keys key (xs ++ [x]) = insert (key x) (seen ∪ keys key xs) := by
      rw [keys_concat, Finset.union_insert]
    rw [scan, List.foldl_concat, ← scan, hunion]
    by_cases hknown : key x ∈ seen ∪ keys key xs
    · rw [fresh_concat_of_mem hknown] at hlt ⊢
      rw [ih hlt, step_of_mem hknown, Finset.insert_eq_of_mem hknown]
    · rw [fresh_concat_of_notMem hknown] at hlt ⊢
      rw [ih (by omega), step_of_looks (looks_of_stop_none rfl) hknown, keep,
        if_neg (Nat.not_le.mpr hlt)]

/-- A list with enough new keys has an item at which the cap comes. -/
theorem exists_cap (hcap : 0 < cap) (hle : cap ≤ fresh key seen xs) :
    ∃ pre x post, xs = pre ++ x :: post ∧ fresh key seen pre + 1 = cap ∧
      key x ∉ seen ∪ keys key pre := by
  induction xs using List.reverseRecOn with
  | nil => simp [fresh, keys] at hle; omega
  | append_singleton xs x ih =>
    by_cases hbefore : cap ≤ fresh key seen xs
    · obtain ⟨pre, y, post, rfl, hy⟩ := ih hbefore
      exact ⟨pre, y, post ++ [x], by simp, hy⟩
    · have hnew : key x ∉ seen ∪ keys key xs := fun hknown => by
        rw [fresh_concat_of_mem hknown] at hle
        exact hbefore hle
      rw [fresh_concat_of_notMem hnew] at hle
      exact ⟨xs, x, [], rfl, by omega, hnew⟩

/-! ## At the cap -/

/-- Where a scan has stopped, it keeps no more exactly if no item that is reached is new. -/
theorem count_foldl_le_iff (hstop : m.stop = some x) : ∀ (xs : List α),
    (xs.foldl (step key reaches cap) m).count ≤ m.count ↔
      ∀ y ∈ xs, reaches x y → key y ∈ m.seen
  | [] => by simp
  | y :: xs => by
    rw [List.foldl_cons, List.forall_mem_cons]
    by_cases hkept : m.Looks reaches y ∧ key y ∉ m.seen
    · have hcount : m.count + 1 ≤
          (xs.foldl (step key reaches cap) (m.step key reaches cap y)).count := by
        rw [step_of_looks hkept.1 hkept.2]
        exact count_le_foldl xs (m.keep key cap y)
      have hnew : ¬ (reaches x y → key y ∈ m.seen) := fun h =>
        hkept.2 (h ((looks_of_stop hstop).mp hkept.1))
      exact iff_of_false (Nat.not_le.mpr hcount) fun h => hnew h.1
    · have hknown : reaches x y → key y ∈ m.seen := fun hreach => by
        by_contra hnew
        exact hkept ⟨(looks_of_stop hstop).mpr hreach, hnew⟩
      rw [step, if_neg hkept, count_foldl_le_iff hstop xs]
      exact (and_iff_right hknown).symm

/-- The scan from the item on at which the cap comes. -/
theorem scan_cap {pre post : List α} (hcap : fresh key seen pre + 1 = cap)
    (hnew : key x ∉ seen ∪ keys key pre) :
    scan key reaches cap seen (pre ++ x :: post) =
      post.foldl (step key reaches cap) ⟨insert (key x) (seen ∪ keys key pre), cap, some x⟩ := by
  have hlt : fresh key seen pre < cap := by omega
  have hbefore : scan key reaches cap seen pre = ⟨seen ∪ keys key pre, fresh key seen pre, none⟩ :=
    scan_of_fresh_lt hlt
  rw [scan, List.foldl_append, ← scan, hbefore, List.foldl_cons,
    step_of_looks (looks_of_stop_none rfl) hnew, keep]
  simp only [hcap, Nat.le_refl, if_true]

/-- **The cap holds exactly if nothing overruns it.** -/
theorem count_scan_le_iff (hcap : 0 < cap) :
    (scan key reaches cap seen xs).count ≤ cap ↔ ¬ Overruns key reaches cap seen xs := by
  constructor
  · rintro hle ⟨pre, x, post, rfl, hpre, hnew, y, hy, hreach, hyNew⟩
    rw [scan_cap hpre hnew] at hle
    exact hyNew ((count_foldl_le_iff rfl post).mp hle y hy hreach)
  · intro hover
    by_cases hfresh : cap ≤ fresh key seen xs
    · obtain ⟨pre, x, post, rfl, hpre, hnew⟩ := exists_cap hcap hfresh
      rw [scan_cap hpre hnew]
      refine (count_foldl_le_iff rfl post).mpr fun y hy hreach => ?_
      by_contra hyNew
      exact hover ⟨pre, x, post, rfl, hpre, hnew, y, hy, hreach, hyNew⟩
    · rw [scan_of_fresh_lt (Nat.not_le.mp hfresh)]
      exact Nat.le_of_lt (Nat.not_le.mp hfresh)

/-! ## Beyond the cap -/

/-- What bounds a scan: it goes on below the cap, and each item kept beyond it ranks lower than
the one before. -/
structure Bounded (rank : α → Nat) (cap top : Nat) (m : Scan α κ) : Prop where
  below : m.stop = none → m.count < cap
  beyond : ∀ x, m.stop = some x → m.count + rank x ≤ cap + top

variable {rank : α → Nat} {bottom top : Nat}

theorem Bounded.step (h : m.Bounded rank cap top)
    (hdown : ∀ x y, reaches x y → rank y < rank x) (hx : rank x ≤ top) :
    (m.step key reaches cap x).Bounded rank cap top := by
  unfold Scan.step
  split
  · rename_i hkept
    have hcount : m.count + 1 + rank x ≤ cap + top := by
      cases hstop : m.stop with
      | none =>
        have := h.below hstop
        omega
      | some y =>
        have := h.beyond y hstop
        have := hdown y x ((looks_of_stop hstop).mp hkept.1)
        omega
    unfold keep
    split
    · refine ⟨by simp, fun y hy => ?_⟩
      cases hy
      exact hcount
    · rename_i hlt
      exact ⟨fun _ => Nat.not_le.mp hlt, by simp⟩
  · exact h

theorem Bounded.foldl (hdown : ∀ x y, reaches x y → rank y < rank x) : ∀ (xs : List α)
    (m : Scan α κ), m.Bounded rank cap top → (∀ x ∈ xs, rank x ≤ top) →
      (xs.foldl (Scan.step key reaches cap) m).Bounded rank cap top
  | [], _, h, _ => h
  | x :: xs, _, h, hxs =>
    Bounded.foldl hdown xs _ (h.step hdown (hxs x List.mem_cons_self)) fun y hy =>
      hxs y (List.mem_cons_of_mem x hy)

/-- **Beyond the cap** a scan keeps at most one item for each rank below the top one. -/
theorem count_scan_le_add (hcap : 0 < cap) (hdown : ∀ x y, reaches x y → rank y < rank x)
    (hranks : ∀ x ∈ xs, bottom ≤ rank x ∧ rank x ≤ top) :
    (scan key reaches cap seen xs).count ≤ cap + (top - bottom) := by
  have hbounded : (scan key reaches cap seen xs).Bounded rank cap top :=
    Bounded.foldl hdown xs ⟨seen, 0, none⟩ ⟨fun _ => hcap, by simp⟩ fun x hx => (hranks x hx).2
  cases hstop : (scan key reaches cap seen xs).stop with
  | none =>
    have := hbounded.below hstop
    omega
  | some x =>
    have := hbounded.beyond x hstop
    have := hranks x ((stop_foldl xs _ hstop).resolve_left (by simp))
    omega

end Scan

end Lib
