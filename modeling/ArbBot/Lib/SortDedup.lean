import Mathlib.Data.List.Destutter
import Mathlib.Data.List.Sort

/-!
# Sorting, and dropping equal neighbours

A list is sorted, and then of neighbours with the same key only the first is kept. Every key is kept,
and it is kept once where the order keeps the entries of a key together. It does where no two entries
have the same key, and where the key is the entry itself.
-/

namespace Lib

variable {α κ : Type*} (key : α → κ) (r : α → α → Prop)

/-- The order keeps the entries of a key together: nothing of another key is between two of them. -/
def Together (xs : List α) : Prop :=
  ∀ x ∈ xs, ∀ y ∈ xs, ∀ z ∈ xs, r x z → r z y → key x = key y → key z = key x

/-- Of neighbours with the same key, the first. -/
def dedupBy [DecidableEq κ] (xs : List α) : List α := xs.destutter fun a b => key a ≠ key b

/-- Sort, and drop equal neighbours. -/
def sortDedup [DecidableEq κ] [DecidableRel r] (xs : List α) : List α :=
  dedupBy key (xs.insertionSort r)

variable {key r} {xs : List α}

/-! ## Keys that are together -/

theorem together_of_nodup_keys [Std.Antisymm r] (h : (xs.map key).Nodup) : Together key r xs := by
  intro x hx y hy z hz hxz hzy hkey
  obtain rfl : x = y := List.inj_on_of_nodup_map h hx hy hkey
  rw [antisymm_of r hxz hzy]

theorem together_id [Std.Antisymm r] : Together id r xs := by
  intro x hx y hy z hz hxz hzy hxy
  obtain rfl : x = y := hxy
  exact antisymm_of r hzy hxz

/-- A sorted list without equal neighbours has each key once, if the order keeps keys together. -/
theorem nodup_keys_of_together (hsorted : xs.Pairwise r)
    (hchain : xs.IsChain fun a b => key a ≠ key b) (htogether : Together key r xs) :
    (xs.map key).Nodup := by
  induction xs with
  | nil => exact List.nodup_nil
  | cons a xs ih =>
    have hrest := (List.pairwise_cons.mp hsorted).2
    have htail : Together key r xs := fun x hx y hy z hz =>
      htogether x (List.mem_cons_of_mem a hx) y (List.mem_cons_of_mem a hy) z
        (List.mem_cons_of_mem a hz)
    refine List.nodup_cons.mpr ⟨fun hmem => ?_, ih hrest hchain.tail htail⟩
    obtain ⟨c, hc, hca⟩ := List.mem_map.mp hmem
    cases xs with
    | nil => cases hc
    | cons b xs =>
      -- the neighbour has another key, and lies between the two entries
      have hab : r a b := (List.pairwise_cons.mp hsorted).1 b List.mem_cons_self
      have hne : key a ≠ key b := (List.isChain_cons_cons.mp hchain).1
      rcases List.mem_cons.mp hc with rfl | hc'
      · exact hne hca.symm
      · have hbc : r b c := (List.pairwise_cons.mp hrest).1 c hc'
        exact hne (htogether a List.mem_cons_self c (List.mem_cons_of_mem a hc) b
          (List.mem_cons_of_mem a List.mem_cons_self) hab hbc hca.symm).symm

/-! ## Dropping neighbours -/

variable [DecidableEq κ]

theorem dedupBy_subset {a : α} (h : a ∈ dedupBy key xs) : a ∈ xs :=
  (List.destutter_sublist _ xs).subset h

/-- Every key behind the first entry is kept. -/
theorem exists_mem_destutter' (b : α) (xs : List α) : ∀ a ∈ b :: xs,
    ∃ c ∈ xs.destutter' (fun a b => key a ≠ key b) b, key c = key a := by
  induction xs generalizing b with
  | nil => exact fun a ha => ⟨a, ha, rfl⟩
  | cons x xs ih =>
    intro a ha
    by_cases hkey : key b = key x
    · rw [List.destutter'_cons_neg _ (not_not.mpr hkey)]
      rcases List.mem_cons.mp ha with rfl | ha
      · exact ih a a List.mem_cons_self
      rcases List.mem_cons.mp ha with rfl | ha
      · exact ⟨b, List.mem_destutter' xs _ b, hkey⟩
      · exact ih b a (List.mem_cons_of_mem b ha)
    · rw [List.destutter'_cons_pos _ hkey]
      rcases List.mem_cons.mp ha with rfl | ha
      · exact ⟨a, List.mem_cons_self, rfl⟩
      · obtain ⟨c, hc, hca⟩ := ih x a ha
        exact ⟨c, List.mem_cons_of_mem b hc, hca⟩

theorem exists_mem_dedupBy {a : α} (ha : a ∈ xs) : ∃ c ∈ dedupBy key xs, key c = key a := by
  cases xs with
  | nil => cases ha
  | cons b xs => exact exists_mem_destutter' b xs a ha

/-! ## Sorting first -/

variable [DecidableRel r]

theorem mem_of_mem_sortDedup {a : α} (h : a ∈ sortDedup key r xs) : a ∈ xs :=
  (List.mem_insertionSort r).mp (dedupBy_subset h)

/-- Every key is kept. -/
theorem mem_keys_sortDedup {k : κ} : k ∈ (sortDedup key r xs).map key ↔ k ∈ xs.map key := by
  constructor
  · intro hk
    obtain ⟨a, ha, rfl⟩ := List.mem_map.mp hk
    exact List.mem_map_of_mem (mem_of_mem_sortDedup ha)
  · intro hk
    obtain ⟨a, ha, rfl⟩ := List.mem_map.mp hk
    obtain ⟨c, hc, hca⟩ : ∃ c ∈ sortDedup key r xs, key c = key a :=
      exists_mem_dedupBy ((List.mem_insertionSort r).mpr ha)
    exact hca ▸ List.mem_map_of_mem hc

/-- Where no two entries have the same key, nothing is dropped. -/
theorem mem_sortDedup_of_nodup_keys (h : (xs.map key).Nodup) {a : α} :
    a ∈ sortDedup key r xs ↔ a ∈ xs := by
  refine ⟨mem_of_mem_sortDedup, fun ha => ?_⟩
  obtain ⟨c, hc, hca⟩ := List.mem_map.mp
    (mem_keys_sortDedup (r := r).mpr (List.mem_map_of_mem (f := key) ha))
  obtain rfl : c = a := List.inj_on_of_nodup_map h (mem_of_mem_sortDedup hc) ha hca
  exact hc

theorem mem_sortDedup_id [DecidableEq α] {a : α} : a ∈ sortDedup id r xs ↔ a ∈ xs := by
  have h : a ∈ (sortDedup id r xs).map id ↔ a ∈ xs.map id := mem_keys_sortDedup
  rwa [List.map_id, List.map_id] at h

variable [Std.Total r] [IsTrans α r]

/-- **A key is kept once where the order keeps keys together.** -/
theorem nodup_keys_sortDedup (h : Together key r xs) : ((sortDedup key r xs).map key).Nodup := by
  refine nodup_keys_of_together ?_ (List.isChain_destutter _ _) fun x hx y hy z hz =>
    h x (mem_of_mem_sortDedup hx) y (mem_of_mem_sortDedup hy) z (mem_of_mem_sortDedup hz)
  exact (List.pairwise_insertionSort r xs).sublist (List.destutter_sublist _ _)

end Lib
