import ArbBot.BlockStream
import ArbBot.Lib.RecencyWindow

/-!
# The deduplication window

The set and the ring of `BlockDedup` stay in step with the log of accepted numbers: the ring holds
the last of them, read backwards from the head, and the set holds the same numbers. So a call
accepts a number exactly when it is not among the last accepted.
-/

namespace ArbBot

open Lib
open Lib.RecencyWindow (Fresh)

namespace BlockDedup

variable {dedup : BlockDedup} {log blockNumbers : List UInt64} {blockNumber : UInt64}

/-- The cell written `i` insertions before the last. -/
def cell (dedup : BlockDedup) (i : Nat) : UInt64 :=
  dedup.ring.get ⟨(dedup.head + (63 - i)) % 64, Nat.mod_lt _ (by decide)⟩

/-- **The window follows the log** of accepted numbers, newest first. -/
structure Follows (dedup : BlockDedup) (log : List UInt64) : Prop where
  cells : ∀ i, i < dedupWindow → dedup.cell i = log[i]?.getD 0
  seen : dedup.seen = (log.take dedupWindow).toFinset
  fresh : Fresh dedupWindow log
  nonzero : 0 ∉ log

/-! ## Cells -/

/-- Every position of the ring is one of the cells. -/
theorem exists_cell (dedup : BlockDedup) (slot : Fin dedupWindow) :
    ∃ i, i < dedupWindow ∧ slot.val = (dedup.head + (63 - i)) % 64 ∧
      dedup.ring.get slot = dedup.cell i := by
  have hhead : dedup.head.val < 64 := dedup.head.isLt
  have hslot : slot.val < 64 := slot.isLt
  refine ⟨(dedup.head + 63 - slot) % 64, Nat.mod_lt _ (by decide), by omega, ?_⟩
  rw [cell]
  congr 1
  apply Fin.ext
  change slot.val = (dedup.head + (63 - (dedup.head + 63 - slot) % 64)) % 64
  omega

/-- The cell under the head is the oldest. -/
theorem get_head (dedup : BlockDedup) : dedup.ring.get dedup.head = dedup.cell 63 := by
  have hhead : dedup.head.val < 64 := dedup.head.isLt
  rw [cell]
  congr 1
  apply Fin.ext
  change dedup.head.val = (dedup.head + (63 - 63)) % 64
  omega

theorem Follows.head_eq (h : Follows dedup log) : dedup.ring.get dedup.head = log[63]?.getD 0 :=
  (get_head dedup).trans (h.cells 63 (by decide))

/-! ## One call -/

theorem tryInsert_of_mem (h : blockNumber ∈ dedup.seen) :
    dedup.tryInsert blockNumber = (false, dedup) := if_pos h

theorem tryInsert_fst (dedup : BlockDedup) (blockNumber : UInt64) :
    (dedup.tryInsert blockNumber).1 = true ↔ blockNumber ∉ dedup.seen := by
  unfold tryInsert
  split <;> simp_all

theorem tryInsert_snd (h : blockNumber ∉ dedup.seen) :
    (dedup.tryInsert blockNumber).2 =
      { seen := if dedup.ring.get dedup.head ≠ 0 then
          (insert blockNumber dedup.seen).erase (dedup.ring.get dedup.head)
          else insert blockNumber dedup.seen
        ring := dedup.ring.set dedup.head blockNumber dedup.head.isLt
        head := ⟨(dedup.head + 1) % dedupWindow, Nat.mod_lt _ (Nat.succ_pos 63)⟩ } := by
  rw [tryInsert, if_neg h]
  rfl

/-- The new number is the last written cell, and the others are one further back. -/
theorem cell_tryInsert (h : blockNumber ∉ dedup.seen) {i : Nat} (hi : i < dedupWindow) :
    (dedup.tryInsert blockNumber).2.cell i =
      match i with
      | 0 => blockNumber
      | j + 1 => dedup.cell j := by
  have hhead : dedup.head.val < 64 := dedup.head.isLt
  rw [tryInsert_snd h, cell]
  have hwindow : i < 64 := hi
  have hslot : ((dedup.head + 1) % 64 + (63 - i)) % 64 < 64 := Nat.mod_lt _ (by decide)
  change (dedup.ring.set dedup.head blockNumber)[((dedup.head + 1) % 64 + (63 - i)) % 64] = _
  rw [Vector.getElem_set]
  cases i with
  | zero => exact if_pos (by omega)
  | succ j =>
    rw [if_neg (by omega)]
    change dedup.ring.get ⟨_, hslot⟩ = dedup.ring.get ⟨(dedup.head + (63 - j)) % 64, _⟩
    congr 1
    apply Fin.ext
    change ((dedup.head + 1) % 64 + (63 - (j + 1))) % 64 = (dedup.head + (63 - j)) % 64
    omega

theorem Follows.mem_seen (h : Follows dedup log) :
    blockNumber ∈ dedup.seen ↔ blockNumber ∈ log.take dedupWindow := by
  rw [h.seen, List.mem_toFinset]

/-- **An accepted number moves the window on.** -/
theorem Follows.accept (h : Follows dedup log) (hnonzero : blockNumber ≠ 0)
    (hnew : blockNumber ∉ dedup.seen) :
    Follows (dedup.tryInsert blockNumber).2 (blockNumber :: log) := by
  have hfresh : Fresh dedupWindow (blockNumber :: log) :=
    ⟨fun hmem => hnew (h.mem_seen.mpr hmem), h.fresh⟩
  constructor
  · intro i hi
    rw [cell_tryInsert hnew hi]
    cases i with
    | zero => simp
    | succ j =>
      rw [List.getElem?_cons_succ]
      exact h.cells j (by omega)
  · rw [tryInsert_snd hnew, h.head_eq, h.seen]
    cases hold : log[63]? with
    | none =>
      rw [RecencyWindow.toFinset_take_cons_of_none hold]
      simp
    | some old =>
      have holdNonzero : old ≠ 0 := by
        intro hzero
        exact h.nonzero (hzero ▸ List.mem_of_getElem? hold)
      rw [RecencyWindow.toFinset_take_cons_of_some hfresh hold]
      simp [holdNonzero]
  · exact hfresh
  · rw [List.mem_cons]
    intro hmem
    exact hmem.elim (fun heq => hnonzero heq.symm) h.nonzero

theorem follows_new : Follows new [] where
  cells i _ := by simp [cell, new, Vector.get]
  seen := by simp [new]
  fresh := RecencyWindow.fresh_nil
  nonzero := List.not_mem_nil

/-! ## Every sequence of calls -/

theorem report_of_mem (h : blockNumber ∈ dedup.seen) :
    report (dedup, log) blockNumber = (dedup, log) := by
  simp [report, tryInsert_of_mem h]

theorem report_of_not_mem (h : blockNumber ∉ dedup.seen) :
    report (dedup, log) blockNumber =
      ((dedup.tryInsert blockNumber).2, blockNumber :: log) := by
  simp [report, (tryInsert_fst dedup blockNumber).mpr h]

theorem Follows.report (h : Follows dedup log) (hnonzero : blockNumber ≠ 0) :
    Follows (report (dedup, log) blockNumber).1 (report (dedup, log) blockNumber).2 := by
  by_cases hmem : blockNumber ∈ dedup.seen
  · rw [report_of_mem hmem]
    exact h
  · rw [report_of_not_mem hmem]
    exact h.accept hnonzero hmem

theorem reports_append (blockNumbers : List UInt64) (blockNumber : UInt64) :
    reports (blockNumbers ++ [blockNumber]) =
      BlockDedup.report (reports blockNumbers) blockNumber :=
  List.foldl_concat ..

/-- The window follows the log after any reports. -/
theorem follows_reports (hnonzero : 0 ∉ blockNumbers) :
    Follows (reports blockNumbers).1 (reports blockNumbers).2 := by
  induction blockNumbers using List.reverseRecOn with
  | nil => exact follows_new
  | append_singleton blockNumbers blockNumber ih =>
    rw [List.mem_append, not_or, List.mem_singleton] at hnonzero
    rw [reports_append]
    exact (ih hnonzero.1).report (Ne.symm hnonzero.2)

/-! ## The ring and the set -/

/-- The numbers seen are the nonzero entries of the ring. -/
theorem Follows.mem_seen_iff_ring (h : Follows dedup log) :
    blockNumber ∈ dedup.seen ↔ blockNumber ≠ 0 ∧ ∃ slot, dedup.ring.get slot = blockNumber := by
  rw [h.mem_seen]
  constructor
  · intro hmem
    constructor
    · intro hzero
      exact h.nonzero (hzero ▸ List.mem_of_mem_take hmem)
    · obtain ⟨i, hi, hget⟩ := List.getElem_of_mem hmem
      rw [List.length_take] at hi
      rw [List.getElem_take] at hget
      refine ⟨⟨(dedup.head + (63 - i)) % 64, Nat.mod_lt _ (by decide)⟩, ?_⟩
      change dedup.cell i = blockNumber
      rw [h.cells i (by omega), List.getElem?_eq_getElem (by omega), Option.getD_some]
      exact hget
  · rintro ⟨hnonzero, slot, hslot⟩
    obtain ⟨i, hi, -, hcell⟩ := exists_cell dedup slot
    rw [hcell, h.cells i hi] at hslot
    cases hget : log[i]? with
    | none =>
      rw [hget] at hslot
      exact absurd hslot.symm hnonzero
    | some n =>
      rw [hget, Option.getD_some] at hslot
      apply List.mem_of_getElem? (i := i)
      rw [List.getElem?_take_of_lt hi, hget, hslot]

/-- The nonzero entries of the ring are pairwise distinct. -/
theorem Follows.ring_injective (h : Follows dedup log) {slot slot' : Fin dedupWindow}
    (hnonzero : dedup.ring.get slot ≠ 0) (heq : dedup.ring.get slot = dedup.ring.get slot') :
    slot = slot' := by
  obtain ⟨i, hi, hslot, hcell⟩ := exists_cell dedup slot
  obtain ⟨j, hj, hslot', hcell'⟩ := exists_cell dedup slot'
  rw [hcell, hcell', h.cells i hi, h.cells j hj] at heq
  rw [hcell, h.cells i hi] at hnonzero
  have hlt : i < log.length := by
    by_contra hge
    rw [List.getElem?_eq_none (Nat.not_lt.mp hge)] at hnonzero
    exact hnonzero rfl
  have hnodup : (log.take dedupWindow).Nodup :=
    h.fresh.nodup_take.sublist (RecencyWindow.take_sublist_take (Nat.le_succ _))
  have hlt' : j < log.length := by
    by_contra hge
    rw [List.getElem?_eq_none (Nat.not_lt.mp hge)] at heq
    exact hnonzero heq
  have hij : i = j := by
    apply (List.getElem?_inj (by rw [List.length_take]; omega) hnodup).mp
    rw [List.getElem?_take_of_lt hi, List.getElem?_take_of_lt hj]
    rw [List.getElem?_eq_getElem hlt, List.getElem?_eq_getElem hlt'] at heq ⊢
    exact congrArg some heq
  subst hij
  exact Fin.ext (hslot.trans hslot'.symm)

/-! ## The deduplication law -/

/-- **Gossip deduplication**: after any reports of positive block numbers, a call accepts exactly
the numbers that are not among the last accepted, the numbers seen are the nonzero entries of the
ring, those are pairwise distinct, and between two acceptances of a number at least a window of
other numbers was accepted. -/
theorem reports_dedup (hnonzero : 0 ∉ blockNumbers) :
    (∀ blockNumber, ((reports blockNumbers).1.tryInsert blockNumber).1 = true ↔
      blockNumber ∉ (reports blockNumbers).2.take dedupWindow) ∧
    (∀ blockNumber, blockNumber ∈ (reports blockNumbers).1.seen ↔
      blockNumber ≠ 0 ∧ ∃ slot, (reports blockNumbers).1.ring.get slot = blockNumber) ∧
    (∀ slot slot', (reports blockNumbers).1.ring.get slot ≠ 0 →
      (reports blockNumbers).1.ring.get slot = (reports blockNumbers).1.ring.get slot' →
      slot = slot') ∧
    ∀ blockNumber after between before,
      (reports blockNumbers).2 =
        after ++ blockNumber :: (between ++ blockNumber :: before) →
      dedupWindow ≤ (between.toFinset.erase blockNumber).card := by
  have hfollows := follows_reports hnonzero
  refine ⟨?_, ?_, ?_, ?_⟩
  · intro blockNumber
    rw [tryInsert_fst, hfollows.mem_seen]
  · intro blockNumber
    exact hfollows.mem_seen_iff_ring
  · intro slot slot'
    exact hfollows.ring_injective
  · intro blockNumber after between before hlog
    exact (hlog ▸ hfollows.fresh).le_card_between

/-- One report more than the window is long. -/
def sixtyFive : List UInt64 := (List.range 65).map fun n => UInt64.ofNat (n + 1)

/-- The first number has left the window, and is accepted again; the last is not. -/
theorem reports_dedup_sixtyFive : ((reports sixtyFive).1.tryInsert 1).1 = true ∧
    ((reports sixtyFive).1.tryInsert 65).1 ≠ true := by
  have hnonzero : 0 ∉ sixtyFive := by decide
  have hiff := (reports_dedup hnonzero).1
  refine ⟨(hiff 1).mpr (by decide +kernel), fun h => ?_⟩
  exact (hiff 65).mp h (by decide +kernel)

end BlockDedup

end ArbBot
