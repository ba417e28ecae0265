import ArbBot.Laws.Addresses
import ArbBot.PoolLoader

/-!
# The pool cache read back

What the loader makes of the records the writer appends. The writer knows two version codes, the
loader eight: every pool comes back as a generic V2 pool or as a volatile Aerodrome pool. So the
cache keeps just the pools that are one of these.
-/

namespace ArbBot.PoolLoader

open Lib

/-! ## One record -/

/-- The pool that is read for one that was written. -/
def reread (p : RawPool) : RawPool :=
  { p with
    tickSpacing := if p.protocol = .aerodrome then 1 else 0
    protocol := if p.protocol = .aerodrome then .aerodrome else .uniswapV2 }

theorem addrFromField_format {record : Record} {idx : Nat} {a : Address}
    (h : record[idx]? = some (formatAddress a)) : addrFromField record idx = .ok a := by
  rw [addrFromField, h, Option.getD_some, trim_formatAddress, addressFromStr_format]

theorem numberField_ofNat {record : Record} {idx bound default n : Nat}
    (h : record[idx]? = some (Text.ofNat n)) (hn : n < bound) :
    numberField record idx bound default = n := by
  rw [numberField, h, Option.getD_some, Text.parseNat_ofNat hn, Option.getD_some]

theorem version_of_written (p : RawPool) :
    (if versionOfProtocol p.protocol = 5 then 1 else 0 : Int32) =
        (if p.protocol = .aerodrome then 1 else 0) ∧
      protocolOfVersion (versionOfProtocol p.protocol) =
        if p.protocol = .aerodrome then .aerodrome else .uniswapV2 := by
  cases p.protocol <;> exact ⟨rfl, rfl⟩

theorem poolOfRecord_recordOfPool (i : Nat) (p : RawPool) :
    poolOfRecord (recordOfPool i p) = .ok (reread p) := by
  have hversion : versionOfProtocol p.protocol < 2 ^ 8 := by cases p.protocol <;> decide
  obtain ⟨hspacing, hprotocol⟩ := version_of_written p
  have haddress : addrFromField (recordOfPool i p) 0 = .ok p.address := addrFromField_format rfl
  have htoken0 : addrFromField (recordOfPool i p) 2 = .ok p.token0 := addrFromField_format rfl
  have htoken1 : addrFromField (recordOfPool i p) 3 = .ok p.token1 := addrFromField_format rfl
  have hcode : numberField (recordOfPool i p) 1 (2 ^ 8) 2 = versionOfProtocol p.protocol :=
    numberField_ofNat rfl hversion
  have hdecimals0 : numberField (recordOfPool i p) 4 (2 ^ 8) 18 = p.decimals0.toNat :=
    numberField_ofNat rfl p.decimals0.toNat_lt
  have hdecimals1 : numberField (recordOfPool i p) 5 (2 ^ 8) 18 = p.decimals1.toNat :=
    numberField_ofNat rfl p.decimals1.toNat_lt
  have hfee : numberField (recordOfPool i p) 6 (2 ^ 32) 30 = p.fee.toNat :=
    numberField_ofNat rfl p.fee.toNat_lt
  unfold poolOfRecord
  rw [haddress, htoken0, htoken1, hcode, hdecimals0, hdecimals1, hfee]
  change Except.ok _ = _
  rw [UInt8.ofNat_toNat, UInt8.ofNat_toNat, UInt32.ofNat_toNat, hspacing, hprotocol]
  rfl

/-! ## A file -/

/-- A file the writer goes on with: missing, or with a header. -/
def HasHeader (file : CsvFile) : Prop := file ≠ some []

theorem hasHeader_append (file : CsvFile) (pools : List RawPool) (h : HasHeader file) :
    HasHeader (appendV2PoolsToCsv file pools) := by
  cases file with
  | none => exact fun heq => by cases Option.some.inj heq
  | some records =>
    cases records with
    | nil => exact absurd rfl h
    | cons header records => exact fun heq => by cases Option.some.inj heq

theorem mapM_append_ok {α β ε : Type} {f : α → Except ε β} {xs ys : List α} {as bs : List β}
    (hxs : xs.mapM f = .ok as) (hys : ys.mapM f = .ok bs) : (xs ++ ys).mapM f = .ok (as ++ bs) := by
  rw [List.mapM_append, hxs, hys]
  rfl

theorem mapM_records (pools : List RawPool) :
    (pools.mapIdx recordOfPool).mapM poolOfRecord = .ok (pools.map reread) := by
  induction pools using List.reverseRecOn with
  | nil => rfl
  | append_singleton pools p ih =>
    rw [List.mapIdx_concat, List.map_append]
    refine mapM_append_ok ih ?_
    rw [List.mapM_cons, poolOfRecord_recordOfPool]
    rfl

/-- The pools of a batch follow those that were in the file. -/
theorem load_append {file : CsvFile} {earlier : List RawPool} (hfile : HasHeader file)
    (hload : loadV2PoolsFromCsv file = .ok earlier) (pools : List RawPool) :
    loadV2PoolsFromCsv (appendV2PoolsToCsv file pools) = .ok (earlier ++ pools.map reread) := by
  have hrecords := mapM_records pools
  cases file with
  | none =>
    obtain rfl : [] = earlier := Except.ok.inj hload
    exact hrecords
  | some records =>
    cases records with
    | nil => exact absurd rfl hfile
    | cons header records => exact mapM_append_ok hload hrecords

/-! ## Many batches -/

/-- The batches are appended one after the other. -/
def appendAll (file : CsvFile) (batches : List (List RawPool)) : CsvFile :=
  batches.foldl appendV2PoolsToCsv file

theorem load_appendAll {file : CsvFile} {earlier : List RawPool} (hfile : HasHeader file)
    (hload : loadV2PoolsFromCsv file = .ok earlier) (batches : List (List RawPool)) :
    loadV2PoolsFromCsv (appendAll file batches) = .ok (earlier ++ batches.flatten.map reread) := by
  unfold appendAll
  induction batches generalizing file earlier with
  | nil =>
    rw [List.flatten_nil, List.map_nil, List.append_nil]
    exact hload
  | cons pools batches ih =>
    rw [List.foldl_cons, ih (hasHeader_append file pools hfile) (load_append hfile hload pools),
      List.flatten_cons, List.map_append, List.append_assoc]

/-- A generic V2 pool, or a volatile Aerodrome pool. -/
def Kept (p : RawPool) : Prop :=
  p.protocol = .uniswapV2 ∧ p.tickSpacing = 0 ∨ p.protocol = .aerodrome ∧ p.tickSpacing = 1

theorem reread_eq_iff (p : RawPool) : reread p = p ↔ Kept p := by
  obtain ⟨address, token0, token1, decimals0, decimals1, fee, tickSpacing, protocol⟩ := p
  unfold reread Kept
  dsimp only
  rw [RawPool.mk.injEq]
  by_cases h : protocol = .aerodrome
  · simp [h, eq_comm]
  · simp [h, eq_comm, and_comm]

/-- **The cache keeps generic V2 pools and volatile Aerodrome pools.** For every file that is missing
or has a header and loads, and every sequence of batches appended to it: the file loads as the
earlier pools followed by the appended ones exactly if each of these is a UniswapV2 pool with the
spacing 0 or an Aerodrome pool with the spacing 1. -/
theorem load_appendAll_iff (file : CsvFile) (earlier : List RawPool) (hfile : HasHeader file)
    (hload : loadV2PoolsFromCsv file = .ok earlier) (batches : List (List RawPool)) :
    loadV2PoolsFromCsv (appendAll file batches) = .ok (earlier ++ batches.flatten) ↔
      ∀ p ∈ batches.flatten, Kept p := by
  rw [load_appendAll hfile hload]
  constructor
  · intro h p hp
    have hmap := List.append_cancel_left (Except.ok.inj h)
    have hself : ∀ p ∈ batches.flatten, reread p = id p :=
      List.map_inj_left.mp (hmap.trans (List.map_id _).symm)
    exact (reread_eq_iff p).mp (hself p hp)
  · intro h
    have hself : batches.flatten.map reread = batches.flatten.map id :=
      List.map_congr_left fun p hp => (reread_eq_iff p).mpr (h p hp)
    rw [hself, List.map_id]

/-! ### Samples -/

/-- A pool of the protocol. -/
def samplePool (protocol : PoolProtocol) (tickSpacing : Int32) : RawPool :=
  ⟨0xA0, 0xA1, 0xA2, 18, 6, 25, tickSpacing, protocol⟩

/-- A PancakeSwapV2 pool comes back as a UniswapV2 pool. -/
theorem pancakeSwapV2_not_kept :
    loadV2PoolsFromCsv (appendV2PoolsToCsv none [samplePool .pancakeSwapV2 0]) =
        .ok [samplePool .uniswapV2 0] ∧
      samplePool .uniswapV2 0 ≠ samplePool .pancakeSwapV2 0 :=
  ⟨(load_append (fun h => by cases h) rfl _).trans rfl, by decide⟩

/-- A UniswapV2 pool and then a volatile Aerodrome pool, in two batches. -/
theorem load_appendAll_two :
    loadV2PoolsFromCsv (appendAll none [[samplePool .uniswapV2 0], [samplePool .aerodrome 1]]) =
      .ok ([] ++ [[samplePool .uniswapV2 0], [samplePool .aerodrome 1]].flatten) :=
  (load_appendAll_iff none [] (fun h => by cases h) rfl _).mpr fun p hp => by
    rcases List.mem_cons.mp hp with rfl | hp
    · exact .inl ⟨rfl, rfl⟩
    · obtain rfl := List.mem_singleton.mp hp
      exact .inr ⟨rfl, rfl⟩

end ArbBot.PoolLoader
