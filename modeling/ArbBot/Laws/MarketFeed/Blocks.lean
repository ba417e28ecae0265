import ArbBot.Laws.MarketState
import ArbBot.Laws.Searcher.Seed
import ArbBot.Laws.Simulator.PriceCache
import ArbBot.MarketFeed

/-!
# The shared database after a run

A slot of the shared database is the last answer the node gave for it, to a traced block that read
it or to the searcher's seed; where there was none, it is what it was at the start; and where it was
not loaded, what the first simulator to fetch it wrote back (`slot_eq_lastAnswer`). So a simulator
never undoes a block. But the seed does, where its answer comes in after the block is traced. The
message of a block names the pools it updated, each once (`message_spec`).
-/

namespace ArbBot

open Lib Tracing

namespace Tracing

variable {tracked : Finset Address} {touched : Touched} {logs : List RpcLog} {node : Node}
  {pool : Address}

theorem mem_of_lookup_touched {isV3 : Bool}
    (h : (touchedPools tracked logs).lookup pool = some isV3) : pool ∈ tracked := by
  suffices ∀ touched : Touched, (∀ isV3, touched.lookup pool = some isV3 → pool ∈ tracked) →
      ∀ isV3, (logs.foldl (touchLog tracked) touched).lookup pool = some isV3 → pool ∈ tracked from
    this ∅ (fun _ h => nomatch h) isV3 h
  clear h
  induction logs with
  | nil => exact fun _ h => h
  | cons log logs ih =>
    intro touched htouched
    apply ih
    intro isV3 hlookup
    rw [lookup_touchLog] at hlookup
    split at hlookup
    · rename_i hmarks
      exact hmarks.2
    · exact htouched isV3 hlookup

/-- What a block's trace reads of a slot: the answer for a key slot of a touched pool. -/
def answered (tracked : Finset Address) (node : Node) (cell : Address × U256) : Option U256 :=
  match getLogs node with
  | .error _ => none
  | .ok logs =>
    match (touchedPools tracked logs).lookup cell.1 with
    | none => none
    | some isV3 => if cell.2 ∈ keySlots isV3 then getStorageAtRaw node cell.1 cell.2 else none

theorem answered_of_ok (hlogs : getLogs node = .ok logs) (cell : Address × U256) :
    answered tracked node cell =
      match (touchedPools tracked logs).lookup cell.1 with
      | none => none
      | some isV3 =>
        if cell.2 ∈ keySlots isV3 then getStorageAtRaw node cell.1 cell.2 else none := by
  unfold answered
  rw [hlogs]

theorem mem_tracked_of_answered {cell : Address × U256} {v : U256}
    (h : answered tracked node cell = some v) : cell.1 ∈ tracked := by
  unfold answered at h
  split at h
  · cases h
  · split at h
    · cases h
    · exact mem_of_lookup_touched ‹_›

/-- The diffs of a block are the answers to what its trace reads. -/
theorem value_eq_answered {blockNumber : UInt64} {diffs : BlockTraceDiffs}
    (hlogs : getLogs node = .ok logs)
    (htrace : traceBlockDiffs node blockNumber tracked = .ok diffs) (cell : Address × U256) :
    diffs.value cell = answered tracked node cell := by
  rw [traceBlockDiffs_eq _ _ hlogs] at htrace
  cases htrace
  rw [BlockTraceDiffs.readsWrites_value.read_writeAll
    (f := fun cell => getStorageAtRaw node cell.1 cell.2) fun cell hmem =>
      (mem_readCells.1 hmem).choose_spec.2.2, answered_of_ok hlogs]
  have hiff : cell ∈ (readCells node (touchedPools tracked logs)).map Prod.fst ↔
      ∃ isV3, (touchedPools tracked logs).lookup cell.1 = some isV3 ∧ cell.2 ∈ keySlots isV3 ∧
        (getStorageAtRaw node cell.1 cell.2).isSome := by
    simp only [List.mem_map, mem_readCells, Option.isSome_iff_exists]
    constructor
    · rintro ⟨⟨read, v⟩, ⟨isV3, hlookup, hkey, hvalue⟩, rfl⟩
      exact ⟨isV3, hlookup, hkey, v, hvalue⟩
    · rintro ⟨isV3, hlookup, hkey, v, hvalue⟩
      exact ⟨(cell, v), ⟨isV3, hlookup, hkey, hvalue⟩, rfl⟩
  cases hlookup : (touchedPools tracked logs).lookup cell.1 with
  | none =>
    rw [if_neg]
    · rfl
    · rw [hiff]
      rintro ⟨isV3, hsome, -⟩
      rw [hlookup] at hsome
      cases hsome
  | some isV3 =>
    dsimp only
    by_cases hkey : cell.2 ∈ keySlots isV3
    · rw [if_pos hkey]
      split
      · rfl
      · rename_i hread
        cases hvalue : getStorageAtRaw node cell.1 cell.2 with
        | none => rfl
        | some v => exact absurd (hiff.2 ⟨isV3, hlookup, hkey, by rw [hvalue]; rfl⟩) hread
    · rw [if_neg hkey, if_neg]
      · rfl
      · rw [hiff]
        rintro ⟨isV3', hsome, hkey', -⟩
        obtain rfl := Option.some.inj (hlookup.symm.trans hsome)
        exact hkey hkey'

/-- The addresses of the diffs, each once, are those that have a value. -/
structure BlockTraceDiffs.Exact (d : BlockTraceDiffs) : Prop where
  nodup : d.touchedAddresses.Nodup
  mem : ∀ a, a ∈ d.touchedAddresses ↔ ∃ k, (d.value (a, k)).isSome

theorem BlockTraceDiffs.Exact.addCell {d : BlockTraceDiffs} (h : d.Exact) (cell : Address × U256)
    (v : U256) : (d.addCell cell v).Exact where
  nodup := h.nodup.insert
  mem a := by
    show a ∈ d.touchedAddresses.insert cell.1 ↔ _
    rw [List.mem_insert_iff, h.mem]
    simp only [readsWrites_value d cell v]
    constructor
    · rintro (rfl | ⟨k, hk⟩)
      · exact ⟨cell.2, by rw [if_pos rfl]; rfl⟩
      · refine ⟨k, ?_⟩
        split
        · rfl
        · exact hk
    · rintro ⟨k, hk⟩
      split at hk
      · rename_i heq
        exact .inl (congrArg Prod.fst heq)
      · exact .inr ⟨k, hk⟩

theorem BlockTraceDiffs.exact_new (blockNumber : UInt64) : (new blockNumber).Exact where
  nodup := List.nodup_nil
  mem a := by
    constructor
    · intro h
      cases h
    · rintro ⟨k, hk⟩
      cases hk

theorem exact_of_trace {blockNumber : UInt64} {diffs : BlockTraceDiffs}
    (hlogs : getLogs node = .ok logs)
    (htrace : traceBlockDiffs node blockNumber tracked = .ok diffs) : diffs.Exact := by
  rw [traceBlockDiffs_eq _ _ hlogs] at htrace
  cases htrace
  suffices ∀ (cells : List ((Address × U256) × U256)) (d : BlockTraceDiffs), d.Exact →
      (writeAll BlockTraceDiffs.addCell cells d).Exact from
    this _ _ (BlockTraceDiffs.exact_new _)
  intro cells
  induction cells with
  | nil => exact fun _ h => h
  | cons cell cells ih => exact fun d h => ih _ (h.addCell _ _)

end Tracing

/-! ## A block -/

namespace MarketState

variable {db : BlockStateDb} {diffs : BlockTraceDiffs} {block : Block} {pool : Address}

theorem applyAddress_tracked (state : BlockStateDb × List Address) (address : Address) :
    (applyAddress diffs state address).1.trackedPools = state.1.trackedPools := by
  rw [applyAddress_fst]
  split
  · exact trackedPools_writeAll _ _
  · rfl

theorem applyAddress_snd (state : BlockStateDb × List Address) (address : Address) :
    (applyAddress diffs state address).2 =
      state.2 ++ [address].filter fun a =>
        decide (a ∈ state.1.trackedPools ∧ (diffs.getAddressDiffs a).isSome) := by
  unfold applyAddress
  by_cases htracked : address ∈ state.1.trackedPools
  · cases hdiffs : diffs.getAddressDiffs address <;> simp [htracked, hdiffs]
  · simp [htracked]

/-- The updated addresses are the tracked ones with diffs, in their order. -/
theorem touched_applyDiffs (db : BlockStateDb) (diffs : BlockTraceDiffs) :
    (applyDiffs db diffs).2 = diffs.touchedAddresses.filter fun a =>
      decide (a ∈ db.trackedPools ∧ (diffs.getAddressDiffs a).isSome) := by
  unfold applyDiffs
  suffices ∀ (addresses : List Address) (state : BlockStateDb × List Address),
      (addresses.foldl (applyAddress diffs) state).2 =
        state.2 ++ addresses.filter fun a =>
          decide (a ∈ state.1.trackedPools ∧ (diffs.getAddressDiffs a).isSome) from
    this diffs.touchedAddresses (db, [])
  intro addresses
  induction addresses with
  | nil => exact fun state => (List.append_nil _).symm
  | cons address addresses ih =>
    intro state
    rw [List.foldl_cons, ih, applyAddress_tracked, applyAddress_snd, List.append_assoc,
      ← List.filter_append, List.singleton_append]

/-- A slot after a block: the answer, or what it was. -/
theorem slot_processBlock_eq (db : BlockStateDb) (block : Block) (cell : Address × U256) :
    (processBlock db block).1.slot cell.1 cell.2 =
      (answered db.trackedPools block.node cell).or (db.slot cell.1 cell.2) := by
  cases hlogs : getLogs block.node with
  | error e =>
    rw [processBlock_of_error hlogs, answered, hlogs]
    rfl
  | ok logs =>
    obtain ⟨diffs, htrace⟩ : ∃ diffs,
        traceBlockDiffs block.node block.number db.trackedPools = .ok diffs :=
      ⟨_, traceBlockDiffs_eq _ _ hlogs⟩
    have hvalue := value_eq_answered hlogs htrace cell
    unfold processBlock
    rw [htrace]
    dsimp only
    by_cases htracked : cell.1 ∈ db.trackedPools
    · rw [slot_applyDiffs (closed_of_trace hlogs htrace) htracked, hvalue]
    · have hnone : answered db.trackedPools block.node cell = none := by
        cases h : answered db.trackedPools block.node cell with
        | none => rfl
        | some v => exact absurd (mem_tracked_of_answered h) htracked
      rw [hnone, applyDiffs_eq]
      refine (readsWrites_slot.read_writeAll (f := diffs.value) (fun read hmem => ?_) db
        cell).trans (if_neg ?_)
      · obtain ⟨address, -, hread⟩ := List.mem_flatMap.1 hmem
        exact (mem_cellsOf.1 hread).2
      · intro hmem
        obtain ⟨read, hread, heq⟩ := List.mem_map.1 hmem
        obtain ⟨address, haddress, hread⟩ := List.mem_flatMap.1 hread
        have hfirst := (mem_cellsOf.1 hread).1
        rw [heq] at hfirst
        rw [hfirst] at htracked
        exact htracked (of_decide_eq_true (List.mem_filter.1 haddress).2)

/-- The message of a block, with the pools that were read, or none when nothing was. -/
theorem message_spec (db : BlockStateDb) (block : Block) :
    match (processBlock db block).2 with
    | none => ∀ cell, answered db.trackedPools block.node cell = none
    | some event => event.blockNumber = block.number ∧ event.touchedPools.Nodup ∧
        ∀ a, a ∈ event.touchedPools ↔
          ∃ k, (answered db.trackedPools block.node (a, k)).isSome := by
  cases hlogs : getLogs block.node with
  | error e =>
    rw [processBlock_of_error hlogs]
    intro cell
    rw [answered, hlogs]
  | ok logs =>
    obtain ⟨diffs, htrace⟩ : ∃ diffs,
        traceBlockDiffs block.node block.number db.trackedPools = .ok diffs :=
      ⟨_, traceBlockDiffs_eq _ _ hlogs⟩
    have hexact := exact_of_trace hlogs htrace
    have hmem : ∀ a, a ∈ (applyDiffs db diffs).2 ↔
        ∃ k, (answered db.trackedPools block.node (a, k)).isSome := by
      intro a
      simp only [← value_eq_answered hlogs htrace]
      rw [touched_applyDiffs, List.mem_filter, hexact.mem]
      refine and_iff_left_of_imp ?_
      rintro ⟨k, hk⟩
      obtain ⟨v, hv⟩ := Option.isSome_iff_exists.1 hk
      obtain ⟨slots, hslots, -⟩ := Option.bind_eq_some_iff.1 hv
      rw [value_eq_answered hlogs htrace] at hv
      exact decide_eq_true ⟨mem_tracked_of_answered hv, by rw [hslots]; rfl⟩
    unfold processBlock
    rw [htrace]
    dsimp only
    split
    · rename_i hnone
      split at hnone
      · rename_i hempty
        intro cell
        rw [hempty] at hmem
        by_contra hne
        exact List.not_mem_nil
          ((hmem cell.1).2 ⟨cell.2, Option.isSome_iff_ne_none.2 hne⟩)
      · cases hnone
    · rename_i hsome
      split at hsome
      · cases hsome
      · cases hsome
        refine ⟨rfl, ?_, hmem⟩
        rw [touched_applyDiffs]
        exact hexact.nodup.filter _

end MarketState

/-! ## Runs -/

/-- The searcher's steps leave the database alone. -/
theorem Searcher.work_db {s : Searcher} {quote : V3Quote} {w w' : Loop}
    (hwork : Work s quote w w') : w'.memory.db = w.memory.db := by
  cases hwork with
  | evaluate _ hevaluates =>
    obtain ⟨ks, e, -, -, -, rfl⟩ := hevaluates.ran
    rfl
  | _ => rfl

namespace MarketFeed

open MarketState

variable {s : Searcher} {quote : V3Quote} {capacity : Nat} {f f' : Feed}

/-- What the label's block reads of a slot, or the label's batch of the seed stores in it. -/
def Label.answer (tracked : Finset Address) (cell : Address × U256) : Label → Option U256
  | .catchUp b | .block b _ _ _ => answered tracked b.node cell
  | .seedChunk chunk service => Searcher.seedWritten (Searcher.chunkEntries service chunk) cell
  | _ => none

/-- What the label's simulator holds of a slot. -/
def Label.fetched (cell : Address × U256) : Label → Option U256
  | .writeBack sim => sim.slot cell.1 cell.2
  | _ => none

/-- The last answer about a slot. -/
def lastAnswer (tracked : Finset Address) (is : List Label) (cell : Address × U256) : Option U256 :=
  is.reverse.findSome? (Label.answer tracked cell)

/-- The first value of a slot that a simulator wrote back. -/
def firstFetched (is : List Label) (cell : Address × U256) : Option U256 :=
  is.findSome? (Label.fetched cell)

theorem lastAnswer_cons (tracked : Finset Address) (i : Label) (is : List Label)
    (cell : Address × U256) :
    lastAnswer tracked (i :: is) cell =
      (lastAnswer tracked is cell).or (i.answer tracked cell) := by
  simp [lastAnswer, List.findSome?_append]

theorem firstFetched_cons (i : Label) (is : List Label) (cell : Address × U256) :
    firstFetched (i :: is) cell = (i.fetched cell).or (firstFetched is cell) := by
  unfold firstFetched
  rw [List.findSome?_cons]
  cases i.fetched cell <;> rfl

/-- A slot after one step, and the tracked pools. -/
theorem slot_step {i : Label} (hstep : Step s quote capacity f i f') (cell : Address × U256) :
    f'.trackedPools = f.trackedPools ∧
      f'.db.slot cell.1 cell.2 = (i.answer f.trackedPools cell).or
        ((f.db.slot cell.1 cell.2).or (i.fetched cell)) := by
  cases hstep with
  | catchUp _ =>
    refine ⟨rfl, (slot_processBlock_eq f.db _ cell).trans ?_⟩
    simp [Label.answer, Label.fetched, Feed.db]
  | block _ =>
    refine ⟨rfl, (slot_processBlock_eq f.db _ cell).trans ?_⟩
    simp [Label.answer, Label.fetched, Feed.db]
  | @seedChunk _ chunk _ service _ =>
    refine ⟨rfl, (Searcher.slot_seedChunk f.loop.memory.db chunk cell).trans ?_⟩
    simp [Label.answer, Label.fetched, Feed.db]
  | seeded _ =>
    refine ⟨rfl, ?_⟩
    simp [Label.answer, Label.fetched, Feed.db, Searcher.updateRatesForPools]
  | search _ hwork =>
    refine ⟨rfl, ?_⟩
    have hdb := Searcher.work_db hwork
    simp [Label.answer, Label.fetched, Feed.db, hdb]
  | @writeBack sim =>
    refine ⟨rfl, (SimDb.slot_writeBack sim f.loop.memory.db cell.1 cell.2).trans ?_⟩
    simp [Label.answer, Label.fetched, Feed.db, Option.orElse_eq_or]
  | _ =>
    refine ⟨rfl, ?_⟩
    simp [Label.answer, Label.fetched, Feed.db]

/-- **The shared database after any run**, of whatever workers in whatever order: the last answer of
the node, to a block or to the seed, else the value at the start, else what was fetched first. -/
theorem slot_eq_lastAnswer {is : List Label} (hrun : Run (Step s quote capacity) f is f')
    (cell : Address × U256) :
    f'.db.slot cell.1 cell.2 = (lastAnswer f.trackedPools is cell).or
      ((f.db.slot cell.1 cell.2).or (firstFetched is cell)) := by
  induction hrun with
  | nil f => simp [lastAnswer, firstFetched]
  | @cons f g f' i is hstep _ ih =>
    obtain ⟨htracked, hslot⟩ := slot_step hstep cell
    rw [ih, htracked, hslot, lastAnswer_cons, firstFetched_cons]
    simp only [Option.or_assoc]

/-! ### A replayed block, a batch of the seed and a simulator -/

/-- A swap of pool 9 with a price of 2 and a liquidity of 7. -/
def sampleBlock : Block := ⟨100, sampleNode (some "0x2") (some "0x7")⟩

/-- The worker that is one block behind, with pool 9 tracked. -/
def sampleFeed : Feed :=
  .start ⟨(sampleDb ∅).toStateDb, .new, .new⟩ {9} ∅ ⟨0, 0, 0, 6, 50, 0, 0⟩ 99 (some 100)
    (fun _ => sampleBlock.node) ∅

/-- A searcher that has the reserves of pool 10 to seed. -/
def searcherTen : Searcher :=
  (Searcher.new 1).registerPoolMeta [⟨10, 1, 2, 18, 18, false, 30, 0, .uniswapV2⟩]

/-- A node that answers each read with 5. -/
def fives : Searcher.SeedService := fun chunk => some (chunk.map fun _ => some "0x5")

/-- A simulator that holds 6 in every slot. -/
def sixes : SimDb := ⟨fun _ => some fun _ => some 6⟩

def sampleLabels : List Label :=
  [.seedRates [10], .catchUp sampleBlock, .seedChunk [10] fives, .caughtUp, .writeBack sixes]

theorem sampleFeed_run : ∃ f, Run (Step searcherTen .missing 1) sampleFeed sampleLabels f := by
  have horder : ∀ pool, pool ∈ [10] ↔ (searcherTen.poolMeta pool).isSome := fun pool => by
    by_cases hpool : pool = 10
    · subst hpool
      decide
    · have hnone : searcherTen.poolMeta pool = none := if_neg hpool
      rw [hnone]
      exact iff_of_false (fun h => hpool (List.mem_singleton.mp h)) (by decide)
  exact ⟨_, .cons (.seedRates rfl horder (by decide)) <| .cons (.catchUp rfl) <|
    .cons (.seedChunk rfl) <| .cons (.caughtUp rfl) <| .cons .writeBack (.nil _)⟩

/-- The price is the block's, the reserves are the seed's, and the rest is the simulator's. -/
theorem slot_eq_lastAnswer_sampleFeed : ∃ f : Feed, f.db.slot 9 0 = some 2 ∧
    f.db.slot 10 8 = some 5 ∧ f.db.slot 10 0 = some 6 := by
  obtain ⟨f, hrun⟩ := sampleFeed_run
  refine ⟨f, (slot_eq_lastAnswer hrun (9, 0)).trans ?_, (slot_eq_lastAnswer hrun (10, 8)).trans ?_,
    (slot_eq_lastAnswer hrun (10, 0)).trans ?_⟩ <;> decide

end MarketFeed

end ArbBot
