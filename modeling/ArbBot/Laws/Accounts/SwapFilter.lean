import ArbBot.Accounts.SwapFilter
import ArbBot.Laws.Accounts.Cells
import ArbBot.Laws.Accounts.Snapshot

/-!
# Tests of pools on one database

A test is a program over the cells of its database. A worker tests its pools one after the other on
one clone, so a later test finds what the earlier ones have committed: reserves that have moved, and
approvals that stand. What a database has loaded is no cell, so the state that accumulates in a
clone because it was fetched changes no verdict; what was committed may. As long as each test finds
the cells it reads as they were prefetched, every schedule keeps the pools that pass when each one
is tested alone.
-/

namespace ArbBot.Accounts

open Lib

section Cells

variable (keccak : Keccak) (node : Node) (evm : Evm)

/-- The program a test is over the cells. -/
def DbTest.toCells {α : Type} : DbTest α → CellProg Cell Cell.Value α
  | .done a => .pure a
  | .injectSlot address slot value next => .write (Cell.only address slot value) next.toCells
  | .evmCall dst calldata next =>
    ((evm ⟨filterAccount, dst, calldata, 0, filterGas, 0⟩).toCells keccak node filterAccount).bind
      fun result => (next (result.bind ExecutionResult.output)).toCells

/-- The program of a pool's test. -/
def poolProg (slotMap : SlotMap) (registry : RouterRegistry) (pool : RawPool) :
    CellProg Cell Cell.Value Verdict :=
  (testPoolFilterReason keccak pool slotMap registry).toCells keccak node evm

/-- The cells a pool's test reads before it has written them, when the pool is tested alone. -/
def footprint (slotMap : SlotMap) (registry : RouterRegistry) (db : BlockStateDb) (pool : RawPool) :
    List Cell :=
  (poolProg keccak node evm slotMap registry pool).reads (db.cells keccak node filterAccount)

/-- Each test finds the cells of its footprint as they were prefetched. -/
def Undisturbed (slotMap : SlotMap) (registry : RouterRegistry) (start : BlockStateDb) :
    List RawPool → BlockStateDb → Prop
  | [], _ => True
  | pool :: pools, db =>
    CellProg.AgreeOn (footprint keccak node evm slotMap registry start pool)
        (start.cells keccak node filterAccount) (db.cells keccak node filterAccount) ∧
      Undisturbed slotMap registry start pools
        ((testPoolFilterReason keccak pool slotMap registry).run keccak node evm db).2

instance decidableUndisturbed (slotMap : SlotMap) (registry : RouterRegistry)
    (start : BlockStateDb) : (pools : List RawPool) → (db : BlockStateDb) →
      Decidable (Undisturbed keccak node evm slotMap registry start pools db)
  | [], _ => .isTrue trivial
  | _ :: pools, _ =>
    have := decidableUndisturbed slotMap registry start pools
    inferInstanceAs (Decidable (_ ∧ _))

/-- The verdict on a pool that is the only one tested. -/
def verdictAlone (slotMap : SlotMap) (registry : RouterRegistry) (db : BlockStateDb)
    (pool : RawPool) : Verdict :=
  ((testPoolFilterReason keccak pool slotMap registry).run keccak node evm db).1

/-- What the filter keeps when each pool is tested alone on the prefetched database. -/
def filterAlone (pools : List RawPool) (slotMap : SlotMap) (registry : RouterRegistry)
    (addrs : List Address) : Option (List RawPool) :=
  let testable := pools.filter (isTestable slotMap)
  let untestable := pools.filter fun pool => !isTestable slotMap pool
  let db := prefetched keccak node addrs testable
  mergeResults
    (testable.map fun pool => (pool, verdictAlone keccak node evm slotMap registry db pool))
    untestable

end Cells

variable {keccak : Keccak} {node : Node} {evm : Evm} {slotMap : SlotMap}
  {registry : RouterRegistry}

/-! ## One test -/

/-- A test returns what its program returns, and leaves the cells it leaves. -/
theorem DbTest.run_cells {α : Type} (test : DbTest α) (db : BlockStateDb) :
    (test.run keccak node evm db).1 =
        ((test.toCells keccak node evm).run (db.cells keccak node filterAccount)).1 ∧
      (test.run keccak node evm db).2.cells keccak node filterAccount =
        ((test.toCells keccak node evm).run (db.cells keccak node filterAccount)).2 := by
  induction test generalizing db with
  | done a => exact ⟨rfl, rfl⟩
  | injectSlot address slot value next ih =>
    have hrest := ih (db.injectSlot keccak node address slot value)
    rw [BlockStateDb.cells_injectSlot] at hrest
    exact hrest
  | evmCall dst calldata next ih =>
    obtain ⟨hresult, hcells⟩ : (db.transactCommit keccak node filterAccount _).1 = _ ∧ _ :=
      transactCommit_cells (evm ⟨filterAccount, dst, calldata, 0, filterGas, 0⟩) db
    unfold DbTest.run DbTest.toCells
    rw [CellProg.run_bind, ← hresult, ← hcells]
    exact ih _ _

/-! ## One worker -/

theorem runWorker_eq (pools : List RawPool) (db : BlockStateDb) :
    runWorker keccak node evm slotMap registry db pools =
      CellProg.runAll (pools.map (poolProg keccak node evm slotMap registry))
        (db.cells keccak node filterAccount) := by
  induction pools generalizing db with
  | nil => rfl
  | cons pool pools ih =>
    obtain ⟨hverdict, hcells⟩ : (DbTest.run keccak node evm _ db).1 = _ ∧ _ :=
      DbTest.run_cells (testPoolFilterReason keccak pool slotMap registry) db
    unfold runWorker
    dsimp only
    rw [ih, hverdict, hcells]
    rfl

/-- The condition on the databases is the one on their cells. -/
theorem undisturbed_cells {start : BlockStateDb} {pools : List RawPool} {db : BlockStateDb}
    (h : Undisturbed keccak node evm slotMap registry start pools db) :
    CellProg.Undisturbed (start.cells keccak node filterAccount)
      (pools.map (poolProg keccak node evm slotMap registry))
      (db.cells keccak node filterAccount) := by
  induction pools generalizing db with
  | nil => trivial
  | cons pool pools ih =>
    obtain ⟨hfirst, hrest⟩ := h
    have hcells : (DbTest.run keccak node evm _ db).2.cells keccak node filterAccount = _ :=
      (DbTest.run_cells (testPoolFilterReason keccak pool slotMap registry) db).2
    have hrest := ih hrest
    rw [hcells] at hrest
    exact ⟨hfirst, hrest⟩

/-- An undisturbed worker finds on each pool what is found when that pool is tested alone. -/
theorem runWorker_of_undisturbed {start : BlockStateDb} {pools : List RawPool}
    (h : Undisturbed keccak node evm slotMap registry start pools start) :
    runWorker keccak node evm slotMap registry start pools =
      pools.map (verdictAlone keccak node evm slotMap registry start) := by
  rw [runWorker_eq, CellProg.runAll_of_undisturbed (undisturbed_cells h), List.map_map]
  apply List.map_congr_left
  intro pool _
  exact (DbTest.run_cells (testPoolFilterReason keccak pool slotMap registry) start).1.symm

/-! ## All workers -/

/-- The verdicts of workers that all find the same on a pool, with the pools they are on. -/
theorem verdicts_eq {n : Nat} {workers : List (List (Fin n))}
    {run : List (Fin n) → List Verdict} {verdict : Fin n → Verdict}
    (h : ∀ worker ∈ workers, run worker = worker.map verdict) :
    (workers.flatMap fun worker => worker.zip (run worker)) =
      workers.flatten.map fun i => (i, verdict i) := by
  rw [List.map_flatten, List.flatMap_def]
  refine congrArg List.flatten (List.map_congr_left fun worker hworker => ?_)
  have hzip := List.zip_map' (f := id) (g := verdict) (l := worker)
  rw [List.map_id] at hzip
  rw [h worker hworker]
  exact hzip

/-- A schedule looks every pool up at its verdict. -/
theorem Schedule.lookup_eq {n : Nat} (schedule : Schedule n) (verdict : Fin n → Verdict)
    (i : Fin n) :
    (schedule.workers.flatten.map fun i => (i, verdict i)).lookup i = some (verdict i) :=
  List.lookup_graph verdict (schedule.perm.mem_iff.mpr (List.mem_finRange i))

/-- The condition on a schedule: every worker's tests are undisturbed. -/
def Schedule.Undisturbed (keccak : Keccak) (node : Node) (evm : Evm) (slotMap : SlotMap)
    (registry : RouterRegistry) (start : BlockStateDb) {testable : List RawPool}
    (schedule : Schedule testable.length) : Prop :=
  ∀ worker ∈ schedule.workers,
    Accounts.Undisturbed keccak node evm slotMap registry start (worker.map testable.get) start

/-! ### Approvals that stand -/

/-- A node with code at every account but the filter's. -/
def tokenNode : Node where
  balance _ := 0
  nonce _ := 0
  code address := if address = filterAccount then [] else [0]
  storage _ _ := 0

/-- A transaction that changes the caller's account, and the slot of one other. -/
def changing (caller : Address) (sender : AccountInfo) (address : Address) (info : AccountInfo)
    (index : U256) (change : BlockStateDb.EvmStorageSlot) :
    Address → Option BlockStateDb.EvmAccount :=
  Function.update (Function.update (fun _ => none) caller (some ⟨sender, fun _ => none⟩)) address
    (some ⟨info, Function.update (fun _ => none) index (some change)⟩)

/-- A machine with a router at 20, which pays out the amount it is paid, and with tokens at every
other address, which keep the one allowance in slot 2 and reject an approval while another one
stands. -/
def strictApprovals : Evm := fun tx =>
  .basic tx.caller fun sender => .basic tx.transactTo fun info =>
    .storage tx.transactTo 2 fun allowance =>
      if tx.transactTo = 20 then
        .finish (.success (Bytes.ofWord (tx.data.wordAt 132)))
          (changing tx.caller sender tx.transactTo info 2 ⟨allowance, allowance⟩)
      else if allowance = 0 then
        .finish (.success (Bytes.ofWord 1))
          (changing tx.caller sender tx.transactTo info 2 ⟨allowance, tx.data.wordAt 36⟩)
      else
        .finish .revert (changing tx.caller sender tx.transactTo info 2 ⟨allowance, allowance⟩)

theorem changing_touched {caller address : Address} {sender info : AccountInfo} {index : U256}
    {change : BlockStateDb.EvmStorageSlot} (a : Address)
    (h : changing caller sender address info index change a ≠ none) :
    a = address ∨ a = caller := by
  unfold changing at h
  by_contra hother
  rw [not_or] at hother
  rw [Function.update_of_ne hother.1, Function.update_of_ne hother.2] at h
  exact h rfl

theorem strictApprovals_touched : strictApprovals.ChangesTouched := by
  intro tx sender info allowance
  have htouched (change : BlockStateDb.EvmStorageSlot) (a : Address)
      (h : changing tx.caller sender tx.transactTo info 2 change a ≠ none) :
      a ∈ ({tx.transactTo, tx.transactTo, tx.caller, tx.caller} : Set Address) := by
    obtain rfl | rfl := changing_touched a h
    · exact Set.mem_insert ..
    · simp
  dsimp only
  split
  · exact htouched _
  · split
    · exact htouched _
    · exact htouched _

/-- The router of the V3 pools. -/
def v3Registry : RouterRegistry where
  map protocol := if protocol = .uniswapV3 then some 20 else none
  solidlyMode := false

/-- Every token has its balances in slot 0. -/
def firstSlots : SlotMap := fun _ => some (0, .solidity)

/-- A V3 pool of two tokens. -/
def v3Pool (address token0 token1 : Address) (fee : UInt32) : RawPool :=
  ⟨address, token0, token1, 18, 18, fee, 60, .uniswapV3⟩

/-! ## The order of the tests -/

/-- An undisturbed schedule keeps what is kept when each pool is tested alone. -/
theorem filterPoolsBySwap_alone {pools : List RawPool} {addrs : List Address}
    {schedule : Schedule (pools.filter (isTestable slotMap)).length}
    (h : schedule.Undisturbed keccak node evm slotMap registry
      (prefetched keccak node addrs (pools.filter (isTestable slotMap)))) :
    filterPoolsBySwap keccak node evm pools slotMap registry addrs schedule =
      filterAlone keccak node evm pools slotMap registry addrs := by
  unfold filterPoolsBySwap filterAlone
  dsimp only
  generalize pools.filter (isTestable slotMap) = testable at schedule h ⊢
  generalize prefetched keccak node addrs testable = db at h ⊢
  have hworker : ∀ worker ∈ schedule.workers,
      runWorker keccak node evm slotMap registry db (worker.map testable.get) =
        worker.map fun i => verdictAlone keccak node evm slotMap registry db (testable.get i) :=
    fun worker hmem => (runWorker_of_undisturbed (h worker hmem)).trans List.map_map
  rw [verdicts_eq hworker]
  refine congrArg (mergeResults · _) ?_
  conv_rhs => rw [← List.map_get_finRange testable, List.map_map]
  apply List.map_congr_left
  intro i _
  rw [schedule.lookup_eq]
  rfl

/-- Two pools of different tokens, tested by one worker. -/
theorem filterPoolsBySwap_alone_apart :
    filterPoolsBySwap lengthHash tokenNode strictApprovals
        [v3Pool 30 10 11 500, v3Pool 31 12 13 3000] firstSlots v3Registry
        [30, 10, 11, 31, 12, 13, 20] ⟨[[⟨0, by decide⟩, ⟨1, by decide⟩]], by decide⟩ =
      filterAlone lengthHash tokenNode strictApprovals
        [v3Pool 30 10 11 500, v3Pool 31 12 13 3000] firstSlots v3Registry
        [30, 10, 11, 31, 12, 13, 20] := by
  apply filterPoolsBySwap_alone
  unfold Schedule.Undisturbed
  decide +kernel

/-- For every machine whose transactions change only what they touch, the verdicts depend neither on
the workers nor on the order in which they test. -/
def VerdictsIndependent : Prop :=
  ∀ (keccak : Keccak) (node : Node) (evm : Evm), evm.ChangesTouched →
    ∀ (pools : List RawPool) (slotMap : SlotMap) (registry : RouterRegistry)
      (addrs : List Address) (schedule : Schedule (pools.filter (isTestable slotMap)).length),
      IsFetchOrder addrs (pools.filter (isTestable slotMap)) registry →
        filterPoolsBySwap keccak node evm pools slotMap registry addrs schedule =
          filterAlone keccak node evm pools slotMap registry addrs

/-- Two fee tiers of one pair, tested by one worker: the approvals of the first test stand when the
second one begins, and its pool is dropped, which alone is kept. -/
theorem not_verdictsIndependent : ¬ VerdictsIndependent := by
  intro h
  let pools := [v3Pool 30 10 11 500, v3Pool 31 10 11 3000]
  let schedule : Schedule (pools.filter (isTestable firstSlots)).length :=
    ⟨[[⟨0, by decide⟩, ⟨1, by decide⟩]], by decide⟩
  have hfetch : IsFetchOrder [30, 10, 11, 31, 20] (pools.filter (isTestable firstSlots))
      v3Registry := by
    have htestable : pools.filter (isTestable firstSlots) = pools :=
      List.filter_eq_self.mpr fun _ _ => rfl
    refine ⟨by decide, fun address => ?_⟩
    rw [htestable]
    simp only [pools, v3Pool, v3Registry, List.mem_cons, List.not_mem_nil, or_false,
      exists_eq_or_imp, exists_eq_left, Option.ite_none_right_eq_some, Option.some.injEq]
    tauto
  have hverdicts := h lengthHash tokenNode strictApprovals strictApprovals_touched pools firstSlots
    v3Registry [30, 10, 11, 31, 20] schedule hfetch
  revert hverdicts
  decide +kernel

end ArbBot.Accounts
