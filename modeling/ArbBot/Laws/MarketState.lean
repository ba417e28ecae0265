import ArbBot.Laws.StateDb
import ArbBot.Lib.Cells
import ArbBot.MarketState

/-!
# A block is not applied as a whole

The price and the liquidity of a swapped pool are read by two requests, each of which may fail on
its own, and what was read is written slot by slot. Of a Pancake pool slot 4 is read, which is not
its liquidity. So a pool can be left with a new price and an old liquidity.
-/

namespace ArbBot

open Lib Tracing

/-! ## The touched pools -/

namespace Tracing

variable {tracked : Finset Address} {touched : Touched} {log : RpcLog} {logs : List RpcLog}
  {node : Node} {pool : Address}

/-- A log marks its own pool, if that is tracked, and never unmarks one. -/
theorem lookup_touchLog :
    (touchLog tracked touched log).lookup pool =
      if log.pool = some pool ∧ pool ∈ tracked then
        some (log.isV3 || (touched.lookup pool).getD false)
      else touched.lookup pool := by
  unfold touchLog
  cases hpool : log.pool with
  | none => rw [if_neg (fun h => nomatch h.1)]
  | some addr =>
    dsimp only
    by_cases hmarks : some addr = some pool ∧ pool ∈ tracked
    · obtain rfl := Option.some.inj hmarks.1
      rw [if_pos hmarks.2, if_pos hmarks, AList.lookup_insert]
      cases log.isV3 <;> cases (touched.lookup addr).getD false <;> simp
    · rw [if_neg hmarks]
      split
      · rename_i htracked
        have hne : pool ≠ addr := fun h => hmarks ⟨congrArg some h.symm, h ▸ htracked⟩
        exact AList.lookup_insert_ne hne
      · rfl

/-- A pool of the tracked ones that emitted a V3 swap. -/
def Swapped (tracked : Finset Address) (logs : List RpcLog) (pool : Address) : Prop :=
  pool ∈ tracked ∧ ∃ log ∈ logs, log.pool = some pool ∧ log.isV3 = true

theorem lookup_foldl_of_true (htrue : touched.lookup pool = some true) :
    (logs.foldl (touchLog tracked) touched).lookup pool = some true := by
  induction logs generalizing touched with
  | nil => exact htrue
  | cons log logs ih =>
    apply ih
    rw [lookup_touchLog, htrue]
    split
    · rw [Option.getD_some, Bool.or_true]
    · rfl

theorem Swapped.lookup (h : Swapped tracked logs pool) :
    (touchedPools tracked logs).lookup pool = some true := by
  obtain ⟨htracked, log, hmem, hpool, hv3⟩ := h
  obtain ⟨before, after, rfl⟩ := List.append_of_mem hmem
  rw [touchedPools, List.foldl_append, List.foldl_cons]
  apply lookup_foldl_of_true
  rw [lookup_touchLog, if_pos ⟨hpool, htracked⟩, hv3, Bool.true_or]

/-! ## What is read of them -/

namespace BlockTraceDiffs

/-- The new value of a slot. -/
def value (d : BlockTraceDiffs) (cell : Address × U256) : Option U256 :=
  (d.getAddressDiffs cell.1).bind fun slots => slots.lookup cell.2

def addCell (d : BlockTraceDiffs) (cell : Address × U256) (v : U256) : BlockTraceDiffs :=
  d.addDiff cell.1 cell.2 v

theorem readsWrites_value : ReadsWrites value addCell := by
  intro d cell v cell'
  obtain ⟨a, k⟩ := cell
  obtain ⟨a', k'⟩ := cell'
  simp only [value, getAddressDiffs, addCell, addDiff, Prod.mk.injEq]
  by_cases ha : a' = a
  · subst ha
    rw [AList.lookup_insert, Option.bind_some]
    by_cases hk : k' = k
    · rw [hk, AList.lookup_insert, if_pos ⟨rfl, rfl⟩]
    · rw [AList.lookup_insert_ne hk, if_neg fun h => hk h.2]
      cases d.diffs.lookup a' <;> rfl
  · rw [AList.lookup_insert_ne ha, if_neg fun h => ha h.1]

/-- An address with a diff is a touched one. -/
def Closed (d : BlockTraceDiffs) : Prop :=
  ∀ address slots, d.getAddressDiffs address = some slots → address ∈ d.touchedAddresses

theorem closed_new (blockNumber : UInt64) : (new blockNumber).Closed :=
  fun _ _ h => nomatch h

theorem Closed.addDiff {d : BlockTraceDiffs} (h : d.Closed) (address : Address)
    (slot newValue : U256) : (d.addDiff address slot newValue).Closed := by
  intro a slots ha
  change a ∈ d.touchedAddresses.insert address
  by_cases hsame : a = address
  · rw [hsame]
    exact List.mem_insert_self
  · apply List.mem_insert_of_mem
    rw [getAddressDiffs, BlockTraceDiffs.addDiff, AList.lookup_insert_ne hsame] at ha
    exact h a slots ha

end BlockTraceDiffs

/-- The cells a trace reads, in the order in which it stores them. -/
def readCells (node : Node) (touched : Touched) : List ((Address × U256) × U256) :=
  touched.entries.flatMap fun entry =>
    (fetch node entry.1 entry.2).map fun pair => ((entry.1, pair.1), pair.2)

theorem mem_fetch {address : Address} {isV3 : Bool} {pair : U256 × U256} :
    pair ∈ fetch node address isV3 ↔
      pair.1 ∈ keySlots isV3 ∧ getStorageAtRaw node address pair.1 = some pair.2 := by
  obtain ⟨slot, v⟩ := pair
  simp only [fetch, List.mem_filterMap, Option.map_eq_some_iff, Prod.mk.injEq]
  constructor
  · rintro ⟨key, hkey, value, hvalue, rfl, rfl⟩
    exact ⟨hkey, hvalue⟩
  · rintro ⟨hkey, hvalue⟩
    exact ⟨slot, hkey, v, hvalue, rfl, rfl⟩

theorem mem_readCells {cell : (Address × U256) × U256} :
    cell ∈ readCells node touched ↔
      ∃ isV3, touched.lookup cell.1.1 = some isV3 ∧ cell.1.2 ∈ keySlots isV3 ∧
        getStorageAtRaw node cell.1.1 cell.1.2 = some cell.2 := by
  obtain ⟨⟨a, k⟩, v⟩ := cell
  simp only [readCells, List.mem_flatMap, List.mem_map, mem_fetch, Prod.mk.injEq]
  constructor
  · rintro ⟨⟨a, isV3⟩, hmem, ⟨k, v⟩, ⟨hkey, hvalue⟩, ⟨rfl, rfl⟩, rfl⟩
    exact ⟨isV3, AList.mem_lookup_iff.2 hmem, hkey, hvalue⟩
  · rintro ⟨isV3, hlookup, hkey, hvalue⟩
    exact ⟨⟨a, isV3⟩, AList.mem_lookup_iff.1 hlookup, (k, v), ⟨hkey, hvalue⟩, ⟨rfl, rfl⟩, rfl⟩

/-- A trace stores the cells it reads. -/
theorem traceBlockDiffs_eq (blockNumber : UInt64) (tracked : Finset Address)
    (hlogs : getLogs node = .ok logs) :
    traceBlockDiffs node blockNumber tracked =
      .ok (writeAll BlockTraceDiffs.addCell
        (readCells node (touchedPools tracked logs)) (.new blockNumber)) := by
  unfold traceBlockDiffs
  rw [hlogs]
  change (if (touchedPools tracked logs).entries = [] then _ else _) = _
  split
  · rename_i hempty
    rw [readCells, hempty]
    rfl
  · rw [writeAll, readCells, List.foldl_flatMap, List.foldl_map]
    simp only [List.foldl_map]
    rfl

/-- The diffs of a swapped pool are the answers to the reads of its key slots. -/
theorem value_of_trace {blockNumber : UInt64} {diffs : BlockTraceDiffs}
    (hlogs : getLogs node = .ok logs)
    (htrace : traceBlockDiffs node blockNumber tracked = .ok diffs)
    (hswapped : Swapped tracked logs pool) (slot : U256) :
    diffs.value (pool, slot) =
      if slot ∈ keySlots true then getStorageAtRaw node pool slot else none := by
  rw [traceBlockDiffs_eq _ _ hlogs] at htrace
  cases htrace
  rw [BlockTraceDiffs.readsWrites_value.read_writeAll
    (f := fun cell => getStorageAtRaw node cell.1 cell.2) fun cell hmem =>
      (mem_readCells.1 hmem).choose_spec.2.2]
  have hiff : (pool, slot) ∈ (readCells node (touchedPools tracked logs)).map Prod.fst ↔
      slot ∈ keySlots true ∧ (getStorageAtRaw node pool slot).isSome := by
    simp only [List.mem_map, mem_readCells, Option.isSome_iff_exists]
    constructor
    · rintro ⟨⟨cell, v⟩, ⟨isV3, hlookup, hkey, hvalue⟩, rfl⟩
      rw [hswapped.lookup] at hlookup
      cases hlookup
      exact ⟨hkey, v, hvalue⟩
    · rintro ⟨hkey, v, hvalue⟩
      exact ⟨((pool, slot), v), ⟨true, hswapped.lookup, hkey, hvalue⟩, rfl⟩
  by_cases hread : slot ∈ keySlots true ∧ (getStorageAtRaw node pool slot).isSome
  · rw [if_pos (hiff.2 hread), if_pos hread.1]
  · rw [if_neg (mt hiff.1 hread)]
    split
    · rename_i hkey
      cases hvalue : getStorageAtRaw node pool slot with
      | none => rfl
      | some v => exact absurd ⟨hkey, by rw [hvalue]; rfl⟩ hread
    · rfl

theorem closed_writeAll (cells : List ((Address × U256) × U256)) {d : BlockTraceDiffs}
    (h : d.Closed) : (writeAll BlockTraceDiffs.addCell cells d).Closed := by
  induction cells generalizing d with
  | nil => exact h
  | cons cell cells ih => exact ih (h.addDiff _ _ _)

theorem closed_of_trace {blockNumber : UInt64} {diffs : BlockTraceDiffs}
    (hlogs : getLogs node = .ok logs)
    (htrace : traceBlockDiffs node blockNumber tracked = .ok diffs) : diffs.Closed := by
  rw [traceBlockDiffs_eq _ _ hlogs] at htrace
  cases htrace
  exact closed_writeAll _ (BlockTraceDiffs.closed_new _)

end Tracing

/-! ## What is written -/

namespace MarketState

open StateDb BlockStateDb

variable {db : BlockStateDb} {diffs : BlockTraceDiffs} {block : Block} {logs : List RpcLog}
  {pool : Address}

def readCell (db : BlockStateDb) (cell : Address × U256) : Option U256 := db.slot cell.1 cell.2

def writeCell (db : BlockStateDb) (cell : Address × U256) (v : U256) : BlockStateDb :=
  db.updateSlot cell.1 cell.2 v

theorem readsWrites_slot : ReadsWrites readCell writeCell := by
  intro db cell v cell'
  refine (slot_updateSlot ..).trans ?_
  simp only [Prod.ext_iff]
  rfl

theorem trackedPools_writeAll (cells : List ((Address × U256) × U256)) (db : BlockStateDb) :
    (writeAll writeCell cells db).trackedPools = db.trackedPools := by
  induction cells generalizing db with
  | nil => rfl
  | cons cell cells ih => exact ih _

theorem pancakeV3Pools_writeAll (cells : List ((Address × U256) × U256)) (db : BlockStateDb) :
    (writeAll writeCell cells db).pancakeV3Pools = db.pancakeV3Pools := by
  induction cells generalizing db with
  | nil => rfl
  | cons cell cells ih => exact ih _

/-- The cells an address has diffs for. -/
def cellsOf (diffs : BlockTraceDiffs) (address : Address) : List ((Address × U256) × U256) :=
  ((diffs.getAddressDiffs address).getD ∅).entries.map fun entry => ((address, entry.1), entry.2)

theorem mem_cellsOf {address : Address} {cell : (Address × U256) × U256} :
    cell ∈ cellsOf diffs address ↔ cell.1.1 = address ∧ diffs.value cell.1 = some cell.2 := by
  obtain ⟨⟨a, k⟩, v⟩ := cell
  simp only [cellsOf, List.mem_map, Prod.mk.injEq, BlockTraceDiffs.value]
  constructor
  · rintro ⟨entry, hmem, ⟨rfl, rfl⟩, rfl⟩
    cases hslots : diffs.getAddressDiffs address with
    | none => rw [hslots] at hmem; cases hmem
    | some slots =>
      rw [hslots] at hmem
      exact ⟨rfl, AList.mem_lookup_iff.2 hmem⟩
  · rintro ⟨rfl, hvalue⟩
    obtain ⟨slots, hslots, hlookup⟩ := Option.bind_eq_some_iff.1 hvalue
    rw [hslots]
    exact ⟨⟨k, v⟩, AList.mem_lookup_iff.1 hlookup, ⟨rfl, rfl⟩, rfl⟩

theorem applyAddress_fst (state : BlockStateDb × List Address) (address : Address) :
    (applyAddress diffs state address).1 =
      if address ∈ state.1.trackedPools then writeAll writeCell (cellsOf diffs address) state.1
      else state.1 := by
  unfold applyAddress
  split
  · rw [cellsOf, writeAll, List.foldl_map]
    cases diffs.getAddressDiffs address <;> rfl
  · rfl

/-- Applying diffs writes the cells of the tracked addresses among the touched ones. -/
theorem applyDiffs_eq (db : BlockStateDb) (diffs : BlockTraceDiffs) :
    (applyDiffs db diffs).1 =
      writeAll writeCell
        ((diffs.touchedAddresses.filter (· ∈ db.trackedPools)).flatMap (cellsOf diffs)) db := by
  unfold applyDiffs
  generalize diffs.touchedAddresses = addresses
  suffices ∀ state : BlockStateDb × List Address,
      (addresses.foldl (applyAddress diffs) state).1 =
        writeAll writeCell
          ((addresses.filter (· ∈ state.1.trackedPools)).flatMap (cellsOf diffs)) state.1 from
    this (db, [])
  induction addresses with
  | nil => exact fun _ => rfl
  | cons address addresses ih =>
    intro state
    have hstep : (applyAddress diffs state address).1 = _ := applyAddress_fst state address
    rw [List.foldl_cons, ih, hstep]
    by_cases htracked : address ∈ state.1.trackedPools
    · rw [if_pos htracked, trackedPools_writeAll, List.filter_cons,
        if_pos (decide_eq_true htracked), List.flatMap_cons, writeAll_append]
    · rw [if_neg htracked, List.filter_cons, if_neg fun h => htracked (of_decide_eq_true h)]

/-- A slot of a tracked pool, after its block. -/
theorem slot_applyDiffs (hclosed : diffs.Closed) (htracked : pool ∈ db.trackedPools)
    (slot : U256) :
    (applyDiffs db diffs).1.slot pool slot =
      (diffs.value (pool, slot)).or (db.slot pool slot) := by
  rw [applyDiffs_eq]
  refine (readsWrites_slot.read_writeAll (f := diffs.value) (fun cell hmem => ?_) db
    (pool, slot)).trans ?_
  · obtain ⟨address, -, hcell⟩ := List.mem_flatMap.1 hmem
    exact (mem_cellsOf.1 hcell).2
  · split
    · rename_i hmem
      obtain ⟨cell, hcell, heq⟩ := List.mem_map.1 hmem
      obtain ⟨address, -, hcell⟩ := List.mem_flatMap.1 hcell
      rw [← heq, (mem_cellsOf.1 hcell).2]
      rfl
    · rename_i hmem
      cases hvalue : diffs.value (pool, slot) with
      | none => rfl
      | some v =>
        obtain ⟨slots, hslots, -⟩ := Option.bind_eq_some_iff.1 hvalue
        refine absurd (List.mem_map.2 ⟨((pool, slot), v), ?_, rfl⟩) hmem
        refine List.mem_flatMap.2 ⟨pool, ?_, mem_cellsOf.2 ⟨rfl, hvalue⟩⟩
        exact List.mem_filter.2 ⟨hclosed _ _ hslots, decide_eq_true htracked⟩

/-- **A slot of a swapped pool, after its block**: slots 0 and 4 are what was read, where the read
succeeded, and all else is as it was. -/
theorem slot_processBlock (hlogs : getLogs block.node = .ok logs)
    (hswapped : Swapped db.trackedPools logs pool) (slot : U256) :
    (processBlock db block).1.slot pool slot =
      if slot ∈ keySlots true then
        (getStorageAtRaw block.node pool slot).or (db.slot pool slot)
      else db.slot pool slot := by
  obtain ⟨diffs, htrace⟩ : ∃ diffs,
      traceBlockDiffs block.node block.number db.trackedPools = .ok diffs :=
    ⟨_, traceBlockDiffs_eq _ _ hlogs⟩
  unfold processBlock
  rw [htrace]
  refine (slot_applyDiffs (closed_of_trace hlogs htrace) hswapped.1 slot).trans ?_
  rw [value_of_trace hlogs htrace hswapped]
  split <;> rfl

/-- A block whose logs cannot be fetched leaves the database as it is. -/
theorem processBlock_of_error {e : String} (hlogs : getLogs block.node = .error e) :
    processBlock db block = (db, none) := by
  unfold processBlock traceBlockDiffs
  rw [hlogs]
  rfl

theorem layout_applyDiffs (db : BlockStateDb) (diffs : BlockTraceDiffs) (pool : Address) :
    (applyDiffs db diffs).1.layout pool = db.layout pool := by
  rw [applyDiffs_eq, BlockStateDb.layout, pancakeV3Pools_writeAll]
  rfl

/-! ## Both or neither -/

/-- The price and the liquidity of a pool are the ones among the diffs. -/
def Fresh (diffs : BlockTraceDiffs) (db : BlockStateDb) (pool : Address) : Prop :=
  ∃ slot0 liquidity, diffs.value (pool, v3Slot0) = some slot0 ∧
    diffs.value (pool, (db.layout pool).liquidity) = some liquidity ∧
    db.readV3Slot0 pool = some (unpackSlot0 slot0) ∧
    db.readV3Liquidity pool = some (liquidity.setWidth 128)

/-- After a block, the price and the liquidity of a pool are both the ones its trace read, or both
what they were. -/
def Atomic (db : BlockStateDb) (block : Block) (pool : Address) : Prop :=
  let after := (processBlock db block).1
  (∃ diffs, traceBlockDiffs block.node block.number db.trackedPools = .ok diffs ∧
      Fresh diffs after pool) ∨
    after.readV3Slot0 pool = db.readV3Slot0 pool ∧
      after.readV3Liquidity pool = db.readV3Liquidity pool

/-- A value for slot 4 that no reader can tell from the old one: the slot holds it already, or
slot 5 is read before and after. -/
def Unseen (old other : Option (BitVec 128)) (new : BitVec 128) : Prop :=
  old = some new ∨
    if new = 0 then other.isSome ∧ (Positive old → other = old)
    else ¬ Positive old ∧ other = some new

/-- What the node answers about the pool is complete, or says nothing new. -/
def Settled (db : BlockStateDb) (node : Node) (pool : Address) : Prop :=
  let other := db.low128 pool v3LiquiditySlotPancake
  (pool ∉ db.pancakeV3Pools ∧ (getStorageAtRaw node pool v3Slot0).isSome ∧
      ∃ v, getStorageAtRaw node pool v3LiquiditySlot = some v ∧
        (v.setWidth 128 ≠ 0 ∨ ¬ Positive other)) ∨
    (∀ v, getStorageAtRaw node pool v3Slot0 = some v →
      db.readV3Slot0 pool = some (unpackSlot0 v)) ∧
    ∀ v, getStorageAtRaw node pool v3LiquiditySlot = some v →
      Unseen (db.low128 pool v3LiquiditySlot) other (v.setWidth 128)

theorem unseen_iff {old other : Option (BitVec 128)} {new : BitVec 128} :
    Unseen old other new ↔ pick (some new) other = pick old other := by
  unfold Unseen
  split
  · rename_i hzero
    rw [hzero, pick_zero_eq_iff]
  · rename_i hne
    rw [pick_of_positive ⟨new, rfl, hne⟩, positive_eq_pick_iff hne]

section

variable (hlogs : getLogs block.node = .ok logs) (hswapped : Swapped db.trackedPools logs pool)
include hlogs hswapped

theorem readV3Slot0_processBlock :
    (processBlock db block).1.readV3Slot0 pool =
      ((getStorageAtRaw block.node pool v3Slot0).map unpackSlot0).or (db.readV3Slot0 pool) := by
  rw [readV3Slot0_eq_map, readV3Slot0_eq_map, slot_processBlock hlogs hswapped,
    if_pos (by decide)]
  cases getStorageAtRaw block.node pool v3Slot0 <;> rfl

theorem readV3Liquidity_processBlock :
    (processBlock db block).1.readV3Liquidity pool =
      pick (((getStorageAtRaw block.node pool v3LiquiditySlot).map (BitVec.setWidth 128)).or
        (db.low128 pool v3LiquiditySlot)) (db.low128 pool v3LiquiditySlotPancake) := by
  have hfirst := slot_processBlock hlogs hswapped v3LiquiditySlot
  have hsecond := slot_processBlock hlogs hswapped v3LiquiditySlotPancake
  rw [if_pos (by decide)] at hfirst
  rw [if_neg (by decide)] at hsecond
  rw [readV3Liquidity_eq_pick, low128_congr hsecond, low128, hfirst]
  cases getStorageAtRaw block.node pool v3LiquiditySlot <;> rfl

/-- When both are what they were. -/
theorem kept_iff :
    ((processBlock db block).1.readV3Slot0 pool = db.readV3Slot0 pool ∧
        (processBlock db block).1.readV3Liquidity pool = db.readV3Liquidity pool) ↔
      (∀ v, getStorageAtRaw block.node pool v3Slot0 = some v →
        db.readV3Slot0 pool = some (unpackSlot0 v)) ∧
      ∀ v, getStorageAtRaw block.node pool v3LiquiditySlot = some v →
        Unseen (db.low128 pool v3LiquiditySlot) (db.low128 pool v3LiquiditySlotPancake)
          (v.setWidth 128) := by
  rw [readV3Slot0_processBlock hlogs hswapped, readV3Liquidity_processBlock hlogs hswapped,
    readV3Liquidity_eq_pick]
  apply and_congr
  · cases getStorageAtRaw block.node pool v3Slot0 with
    | none => simp
    | some v => simp [eq_comm]
  · cases getStorageAtRaw block.node pool v3LiquiditySlot with
    | none => simp
    | some v => simp [unseen_iff]

/-- When both are the ones the trace read: never for a Pancake pool, whose slot 5 is not read. -/
theorem fresh_iff {diffs : BlockTraceDiffs}
    (htrace : traceBlockDiffs block.node block.number db.trackedPools = .ok diffs) :
    Fresh diffs (processBlock db block).1 pool ↔
      pool ∉ db.pancakeV3Pools ∧ (getStorageAtRaw block.node pool v3Slot0).isSome ∧
        ∃ v, getStorageAtRaw block.node pool v3LiquiditySlot = some v ∧
          (v.setWidth 128 ≠ 0 ∨ ¬ Positive (db.low128 pool v3LiquiditySlotPancake)) := by
  have hlayout : (processBlock db block).1.layout pool = db.layout pool := by
    unfold processBlock
    rw [htrace]
    exact layout_applyDiffs ..
  unfold Fresh
  rw [hlayout, readV3Slot0_processBlock hlogs hswapped, readV3Liquidity_processBlock hlogs hswapped,
    value_of_trace hlogs htrace hswapped, value_of_trace hlogs htrace hswapped, if_pos (by decide)]
  -- the value that was read is returned
  have hreturned : ∀ v : U256, pick (some (v.setWidth 128))
      (db.low128 pool v3LiquiditySlotPancake) = some (v.setWidth 128) ↔
        v.setWidth 128 ≠ 0 ∨ ¬ Positive (db.low128 pool v3LiquiditySlotPancake) := fun v => by
    rw [pick_eq_first_iff, positive_some]
    simp
  unfold BlockStateDb.layout
  by_cases hpancake : pool ∈ db.pancakeV3Pools
  · rw [if_pos hpancake]
    refine iff_of_false ?_ fun h => h.1 hpancake
    rintro ⟨-, liquidity, -, hread, -⟩
    rw [show pancakeLayout.liquidity = v3LiquiditySlotPancake from rfl, if_neg (by decide)] at hread
    cases hread
  · rw [if_neg hpancake, show uniswapLayout.liquidity = v3LiquiditySlot from rfl,
      if_pos (by decide)]
    constructor
    · rintro ⟨slot0, liquidity, hslot0, hread, -, hliquidity⟩
      rw [hread] at hliquidity
      exact ⟨hpancake, by rw [hslot0]; rfl, liquidity, hread, (hreturned _).1 hliquidity⟩
    · rintro ⟨-, hslot0, liquidity, hread, hvalue⟩
      obtain ⟨slot0, hslot0⟩ := Option.isSome_iff_exists.1 hslot0
      rw [hslot0, hread]
      exact ⟨slot0, liquidity, rfl, rfl, rfl, (hreturned _).2 hvalue⟩

end

/-- **A block updates a swapped pool as a whole exactly when the answers about it are complete or
say nothing new**: both reads succeeded, the pool is not a Pancake one, and the new value of slot 4
is the one that is read, or no answer changes what is read. -/
theorem atomic_iff (hlogs : getLogs block.node = .ok logs)
    (hswapped : Swapped db.trackedPools logs pool) :
    Atomic db block pool ↔ Settled db block.node pool := by
  refine or_congr ?_ (kept_iff hlogs hswapped)
  constructor
  · rintro ⟨diffs, htrace, hfresh⟩
    exact (fresh_iff hlogs hswapped htrace).1 hfresh
  · intro h
    have htrace := traceBlockDiffs_eq block.number db.trackedPools hlogs
    exact ⟨_, htrace, (fresh_iff hlogs hswapped htrace).2 h⟩

/-! ### A new price beside an old liquidity -/

/-- One swap of pool 9. -/
def swapLogs : List RpcLog := [⟨some "0x9", [some v3SwapTopic]⟩]

/-- A node that answers with the logs, and with these values of slots 0 and 4. -/
def sampleNode (slot0 slot4 : Option String) : Node where
  logs _ := .result swapLogs
  storage _ slot := if slot = 0 then slot0 else if slot = 4 then slot4 else none

/-- Pool 9 with a price of 1 and a liquidity of 5 in both slots. -/
def sampleDb (pancakeV3Pools : Finset Address) : BlockStateDb where
  toStateDb := ((StateDb.empty.updateSlot 9 0 1).updateSlot 9 4 5).updateSlot 9 5 5
  trackedPools := {9}
  pancakeV3Pools := pancakeV3Pools

theorem swapLogs_swapped (pancakeV3Pools : Finset Address) :
    Swapped (sampleDb pancakeV3Pools).trackedPools swapLogs 9 :=
  ⟨Finset.mem_singleton_self 9, _, List.mem_singleton_self _, by decide, by decide⟩

theorem atomic_iff_complete :
    Atomic (sampleDb ∅) ⟨100, sampleNode (some "0x2") (some "0x7")⟩ 9 :=
  (atomic_iff rfl (swapLogs_swapped ∅)).2
    (.inl ⟨Finset.notMem_empty 9, by decide, 7, by decide, .inl (by decide)⟩)

/-- A Uniswap pool whose second read fails, and a Pancake pool both of whose reads succeed, are
left with the new price and the old liquidity. -/
theorem not_atomic :
    (Swapped (sampleDb ∅).trackedPools swapLogs 9 ∧
      ¬ Atomic (sampleDb ∅) ⟨100, sampleNode (some "0x2") none⟩ 9) ∧
    Swapped (sampleDb {9}).trackedPools swapLogs 9 ∧
      ¬ Atomic (sampleDb {9}) ⟨100, sampleNode (some "0x2") (some "0x0")⟩ 9 := by
  refine ⟨⟨swapLogs_swapped ∅, ?_⟩, swapLogs_swapped {9}, ?_⟩
  · rintro (⟨diffs, htrace, hfresh⟩ | hkept)
    · obtain ⟨-, -, v, hread, -⟩ := (fresh_iff rfl (swapLogs_swapped ∅) htrace).1 hfresh
      cases hread
    · exact absurd (((kept_iff rfl (swapLogs_swapped ∅)).1 hkept).1 2 (by decide)) (by decide)
  · rintro (⟨diffs, htrace, hfresh⟩ | hkept)
    · exact absurd (Finset.mem_singleton_self 9)
        ((fresh_iff rfl (swapLogs_swapped {9}) htrace).1 hfresh).1
    · exact absurd (((kept_iff rfl (swapLogs_swapped {9})).1 hkept).1 2 (by decide)) (by decide)

end MarketState

end ArbBot
