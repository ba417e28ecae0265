import ArbBot.Lib.Word
import ArbBot.PoolDiscovery
import Mathlib.Data.List.Pairwise

/-!
# What the crawler finds

The log of a created pool is decoded to the pool (`decodeLog_encodeLog`). The ranges of the rounds are
next to each other, without a gap and without an overlap, so the crawler finds the pools of the factory
in the order of their blocks, each once, less those of the ranges whose request failed; the size of the
ranges does not matter otherwise (`crawl_finds`).
-/

namespace ArbBot.PoolDiscovery

open Lib

/-! ## One log -/

/-- A pool a factory has created. -/
structure Created where
  block : UInt64
  token0 : Address
  token1 : Address
  pool : Address
  fee : UInt32
  tickSpacing : Int32
  index : U256

/-- The event of a factory: `PoolCreated` with the fee as its third indexed argument, or
`PairCreated`. -/
def encodeLog (spec : FactorySpec) (c : Created) : EventLog :=
  if spec.protocol.isV3 then
    ⟨[spec.topic, c.token0.setWidth 256, c.token1.setWidth 256, .ofNat 256 c.fee.toNat],
      Bytes.ofWords [c.tickSpacing.toBitVec.signExtend 256, c.pool.setWidth 256]⟩
  else
    ⟨[spec.topic, c.token0.setWidth 256, c.token1.setWidth 256],
      Bytes.ofWords [c.pool.setWidth 256, c.index]⟩

/-- The pool with the defaults of the crawler. -/
def poolOf (spec : FactorySpec) (c : Created) : RawPool where
  address := c.pool
  token0 := c.token0
  token1 := c.token1
  decimals0 := 18
  decimals1 := 18
  fee := if spec.protocol.isV3 then c.fee else 30
  tickSpacing := if spec.protocol.isV3 then c.tickSpacing else 0
  protocol := spec.protocol

theorem feeOfTopic_ofNat {fee : UInt32} (hfee : fee.toNat < 16777216) :
    feeOfTopic (.ofNat 256 fee.toNat) = fee := by
  have htopic : (BitVec.ofNat 256 fee.toNat).toNat = fee.toNat := by
    rw [BitVec.toNat_ofNat]
    omega
  have hlow : fee.toNat % 16777216 * 256 = fee.toNat * 256 := by
    rw [Nat.mod_eq_of_lt hfee]
  have hhigh : fee.toNat / 16777216 % 256 = 0 := by
    rw [Nat.div_eq_of_lt hfee]
  unfold feeOfTopic
  rw [htopic, hlow, hhigh]
  apply UInt32.toNat_inj.mp
  simp
  omega

theorem setWidth_tick (t : Int32) :
    Int32.ofBitVec ((t.toBitVec.signExtend 256).setWidth 32) = t := by
  have hbits : (t.toBitVec.signExtend 256).setWidth 32 = t.toBitVec := by
    ext i hi
    rw [BitVec.getElem_setWidth, BitVec.getLsbD_signExtend]
    simp [hi]
    omega
  rw [hbits, Int32.ofBitVec_toBitVec]

/-- **A log is decoded.** The fee of an event is a word of 24 bits. -/
theorem decodeLog_encodeLog (spec : FactorySpec) {c : Created} (hfee : c.fee.toNat < 16777216) :
    decodeLog (encodeLog spec c) spec = some (poolOf spec c) := by
  have hwords (w0 w1 : U256) : (Bytes.ofWords [w0, w1]).wordAt 0 = w0 ∧
      (Bytes.ofWords [w0, w1]).wordAt 32 = w1 ∧ (Bytes.ofWords [w0, w1]).length = 64 :=
    ⟨Bytes.wordAt_ofWords (i := 0) rfl, Bytes.wordAt_ofWords (i := 1) rfl,
      Bytes.length_ofWords [w0, w1]⟩
  unfold encodeLog poolOf
  cases hv3 : spec.protocol.isV3 with
  | true =>
    obtain ⟨h0, h1, hlength⟩ := hwords (c.tickSpacing.toBitVec.signExtend 256)
      (c.pool.setWidth 256)
    unfold decodeLog
    simp [hv3, h0, h1, hlength, setWidth_tick, feeOfTopic_ofNat hfee]
  | false =>
    obtain ⟨h0, -, hlength⟩ := hwords (c.pool.setWidth 256) c.index
    unfold decodeLog
    simp [hv3, h0, hlength]

/-! ## Ranges -/

/-- A list in the order of a key, cut at a value of the key. -/
theorem filter_append_filter {α : Type} (key : α → Nat) {l : List α}
    (hsorted : l.Pairwise fun a b => key a ≤ key b) (p : α → Bool) (m : Nat) :
    (l.filter fun a => p a && decide (key a ≤ m)) ++
      (l.filter fun a => p a && decide (m < key a)) = l.filter p := by
  induction l with
  | nil => rfl
  | cons a l ih =>
    obtain ⟨ha, hrest⟩ := List.pairwise_cons.mp hsorted
    by_cases hkey : key a ≤ m
    · have hnot : ¬ m < key a := by omega
      simp only [List.filter_cons, hkey, hnot, decide_true, decide_false, Bool.and_true,
        Bool.and_false, Bool.false_eq_true, if_false]
      by_cases hp : p a
      · rw [if_pos hp, if_pos hp, List.cons_append, ih hrest]
      · rw [if_neg hp, if_neg hp, ih hrest]
    · -- Nothing after `a` is left of the cut.
      have hnone : (l.filter fun a => p a && decide (key a ≤ m)) = [] := by
        refine List.filter_eq_nil_iff.mpr fun b hb => ?_
        have hab := ha b hb
        simp
        omega
      have hall : (l.filter fun a => p a && decide (m < key a)) = l.filter p := by
        refine List.filter_congr fun b hb => ?_
        have hab := ha b hb
        have hlt : m < key b := by omega
        simp [hlt]
      have hlt : m < key a := by omega
      simp only [List.filter_cons, hkey, hlt, decide_true, decide_false, Bool.and_true,
        Bool.and_false, Bool.false_eq_true, if_false, hnone, hall, List.nil_append]

/-- What the node answers to the crawler's requests: the events of the range in their order, unless
the request fails. -/
def Serves (provider : LogProvider) (spec : FactorySpec) (history : List Created)
    (answered : LogFilter → Bool) : Prop :=
  ∀ filter, filter.address = spec.address → filter.topic = spec.topic →
    provider filter = if answered filter then
      some ((history.filter fun c =>
        filter.fromBlock ≤ c.block ∧ c.block ≤ filter.toBlock).map (encodeLog spec))
    else none

/-- The range a block is in: ranges begin at multiples of their size after the factory's first
block. -/
def chunkOf (spec : FactorySpec) (toBlock chunkSize block : UInt64) : LogFilter :=
  chunkFilter spec toBlock chunkSize
    (spec.fromBlock + (block - spec.fromBlock) / chunkSize * chunkSize)

section Crawl

variable {provider : LogProvider} {spec : FactorySpec} {history : List Created}
  {answered : LogFilter → Bool} {toBlock chunkSize first : UInt64}

/-- The pools that were created from `first` on and whose range was answered. -/
def found (spec : FactorySpec) (history : List Created) (answered : LogFilter → Bool)
    (toBlock chunkSize first : UInt64) : List RawPool :=
  (history.filter fun c => first ≤ c.block ∧ c.block ≤ toBlock ∧
    answered (chunkOf spec toBlock chunkSize c.block)).map (poolOf spec)

theorem filterMap_encoded {l : List Created} (hfees : ∀ c ∈ l, c.fee.toNat < 16777216) :
    ((l.map (encodeLog spec)).filterMap fun log => decodeLog log spec) = l.map (poolOf spec) := by
  have hdecode : l.filterMap ((fun log => decodeLog log spec) ∘ encodeLog spec) =
      l.filterMap (some ∘ poolOf spec) :=
    List.filterMap_congr fun c hc => decodeLog_encodeLog spec (hfees c hc)
  rw [List.filterMap_map, hdecode, List.filterMap_eq_map]

/-- The first block of a round is a multiple of the size after the factory's first block. -/
def Aligned (spec : FactorySpec) (chunkSize first : UInt64) : Prop :=
  ∃ k, first.toNat = spec.fromBlock.toNat + k * chunkSize.toNat

/-- The last block of a round, when the sums do not wrap. -/
theorem toNat_toBlock (spec : FactorySpec) (hchunk : 0 < chunkSize.toNat)
    (hroom : toBlock.toNat + chunkSize.toNat < 2 ^ 64) (hfirst : first ≤ toBlock) :
    (chunkFilter spec toBlock chunkSize first).toBlock.toNat =
      min (first.toNat + chunkSize.toNat - 1) toBlock.toNat := by
  have hle := UInt64.le_iff_toNat_le.mp hfirst
  show (min (first + chunkSize - 1) toBlock).toNat = _
  rw [toNat_min]
  have hsum : (first + chunkSize - 1).toNat = first.toNat + chunkSize.toNat - 1 := by
    rw [UInt64.toNat_sub, UInt64.toNat_add]
    simp
    omega
  rw [hsum]

/-- The blocks of a round are in its range. -/
theorem chunkOf_eq (hchunk : 0 < chunkSize.toNat)
    (hroom : toBlock.toNat + chunkSize.toNat < 2 ^ 64) (haligned : Aligned spec chunkSize first)
    {block : UInt64} (hfirst : first ≤ block)
    (hlast : block ≤ (chunkFilter spec toBlock chunkSize first).toBlock) (hto : first ≤ toBlock) :
    chunkOf spec toBlock chunkSize block = chunkFilter spec toBlock chunkSize first := by
  obtain ⟨k, hk⟩ := haligned
  have hle := UInt64.le_iff_toNat_le.mp hfirst
  have hlast' := UInt64.le_iff_toNat_le.mp hlast
  rw [toNat_toBlock spec hchunk hroom hto] at hlast'
  have hblock := block.toNat_lt
  have hto' := UInt64.le_iff_toNat_le.mp hto
  have hquot : (block.toNat - spec.fromBlock.toNat) / chunkSize.toNat = k := by
    refine Nat.div_eq_of_lt_le ?_ ?_
    · omega
    · rw [Nat.succ_mul]
      omega
  have hstart : spec.fromBlock + (block - spec.fromBlock) / chunkSize * chunkSize = first := by
    apply UInt64.toNat_inj.mp
    have hsub : (block - spec.fromBlock).toNat = block.toNat - spec.fromBlock.toNat :=
      UInt64.toNat_sub_of_le _ _ (UInt64.le_iff_toNat_le.mpr (by omega))
    rw [UInt64.toNat_add, UInt64.toNat_mul, UInt64.toNat_div, hsub, hquot]
    have hfirstLt := first.toNat_lt
    omega
  rw [chunkOf, hstart]

/-- One round: the pools of its range, and what is left after it. -/
theorem found_step (hsorted : history.Pairwise fun c d => c.block ≤ d.block)
    (hfees : ∀ c ∈ history, c.fee.toNat < 16777216)
    (hserves : Serves provider spec history answered) (hchunk : 0 < chunkSize.toNat)
    (hroom : toBlock.toNat + chunkSize.toNat < 2 ^ 64) (haligned : Aligned spec chunkSize first)
    (hto : first ≤ toBlock) {last : UInt64}
    (hlast : (chunkFilter spec toBlock chunkSize first).toBlock = last) :
    chunkPools provider spec (chunkFilter spec toBlock chunkSize first) ++
      found spec history answered toBlock chunkSize (last + 1) =
        found spec history answered toBlock chunkSize first := by
  have hle := UInt64.le_iff_toNat_le.mp hto
  have hlastNat := toNat_toBlock spec hchunk hroom hto
  rw [hlast] at hlastNat
  have hnext : (last + 1).toNat = last.toNat + 1 := by
    rw [UInt64.toNat_add]
    simp
    omega
  let p : Created → Bool := fun c => first ≤ c.block ∧ c.block ≤ toBlock ∧
    answered (chunkOf spec toBlock chunkSize c.block)
  have hcut := filter_append_filter (fun c : Created => c.block.toNat)
    (hsorted.imp fun h => UInt64.le_iff_toNat_le.mp h) p last.toNat
  -- The part up to the last block of the range is what the request answers with.
  have hround : chunkPools provider spec (chunkFilter spec toBlock chunkSize first) =
      (history.filter fun c => p c && decide (c.block.toNat ≤ last.toNat)).map (poolOf spec) := by
    have hanswer := hserves (chunkFilter spec toBlock chunkSize first) rfl rfl
    have hchunkOf : ∀ c : Created, first ≤ c.block → c.block ≤ last →
        chunkOf spec toBlock chunkSize c.block = chunkFilter spec toBlock chunkSize first :=
      fun c hfirst hin => chunkOf_eq hchunk hroom haligned hfirst (hlast ▸ hin) hto
    unfold chunkPools
    rw [hanswer]
    by_cases hyes : answered (chunkFilter spec toBlock chunkSize first) = true
    · rw [if_pos hyes, Option.getD_some,
        filterMap_encoded fun c hc => hfees c (List.mem_filter.mp hc).1]
      congr 1
      refine List.filter_congr fun c _ => ?_
      rw [hlast]
      have hiff : (first ≤ c.block ∧ c.block ≤ last) ↔
          (p c && decide (c.block.toNat ≤ last.toNat)) = true := by
        rw [Bool.and_eq_true]
        constructor
        · rintro ⟨hfirst, hin⟩
          refine ⟨decide_eq_true ⟨hfirst, ?_, ?_⟩,
            decide_eq_true (UInt64.le_iff_toNat_le.mp hin)⟩
          · have := UInt64.le_iff_toNat_le.mp hin
            exact UInt64.le_iff_toNat_le.mpr (by omega)
          · rw [hchunkOf c hfirst hin, hyes]
        · rintro ⟨hp, hin⟩
          exact ⟨(of_decide_eq_true hp).1, UInt64.le_iff_toNat_le.mpr (of_decide_eq_true hin)⟩
      exact Bool.eq_iff_iff.mpr (decide_eq_true_iff.trans hiff)
    · rw [if_neg hyes, Option.getD_none]
      refine (congrArg (List.map (poolOf spec)) (List.filter_eq_nil_iff.mpr fun c _ hc => ?_)).symm
      obtain ⟨hp, hin⟩ := Bool.and_eq_true_iff.mp hc
      obtain ⟨hfirst, -, hanswered⟩ := of_decide_eq_true hp
      have hin' := UInt64.le_iff_toNat_le.mpr (of_decide_eq_true hin)
      rw [hchunkOf c hfirst hin'] at hanswered
      exact hyes hanswered
  have hrest : found spec history answered toBlock chunkSize (last + 1) =
      (history.filter fun c => p c && decide (last.toNat < c.block.toNat)).map (poolOf spec) := by
    unfold found
    congr 1
    refine List.filter_congr fun c _ => ?_
    have hiff : (last + 1 ≤ c.block ∧ c.block ≤ toBlock ∧
        answered (chunkOf spec toBlock chunkSize c.block) = true) ↔
        (p c && decide (last.toNat < c.block.toNat)) = true := by
      rw [Bool.and_eq_true, decide_eq_true_iff, decide_eq_true_iff, UInt64.le_iff_toNat_le, hnext,
        UInt64.le_iff_toNat_le (a := first)]
      constructor
      · rintro ⟨hafter, htoBlock, hanswered⟩
        exact ⟨⟨by omega, htoBlock, hanswered⟩, by omega⟩
      · rintro ⟨⟨-, htoBlock, hanswered⟩, hafter⟩
        exact ⟨by omega, htoBlock, hanswered⟩
    exact Bool.eq_iff_iff.mpr (decide_eq_true_iff.trans hiff)
  rw [hround, hrest, ← List.map_append, hcut]
  rfl

/-- Past the last block there is nothing left. -/
theorem found_past (hpast : ¬ first ≤ toBlock) :
    found spec history answered toBlock chunkSize first = [] := by
  unfold found
  rw [List.filter_eq_nil_iff.mpr, List.map_nil]
  intro c _ hc
  obtain ⟨hfirst, hto, -⟩ := of_decide_eq_true hc
  exact hpast (UInt64.le_trans hfirst hto)

/-- The run lemma: every round begins at a multiple of the size, or past the last block. -/
theorem crawlFrom_eq (hsorted : history.Pairwise fun c d => c.block ≤ d.block)
    (hfees : ∀ c ∈ history, c.fee.toNat < 16777216)
    (hserves : Serves provider spec history answered) (hchunk : 0 < chunkSize.toNat)
    (hroom : toBlock.toNat + chunkSize.toNat < 2 ^ 64) :
    ∀ (fuel : Nat) (first : UInt64) (pools : List RawPool),
      (Aligned spec chunkSize first ∨ ¬ first ≤ toBlock) →
      toBlock.toNat + 1 - first.toNat < fuel →
        crawlFrom provider spec toBlock chunkSize fuel first pools =
          some (pools ++ found spec history answered toBlock chunkSize first) := by
  intro fuel
  induction fuel with
  | zero => intro first pools _ hfuel; omega
  | succ fuel ih =>
    intro first pools hstart hfuel
    unfold crawlFrom
    by_cases hto : first ≤ toBlock
    · have haligned := hstart.resolve_right (not_not_intro hto)
      have hle := UInt64.le_iff_toNat_le.mp hto
      have hlastNat := toNat_toBlock spec hchunk hroom hto
      obtain ⟨last, hlast⟩ : ∃ last, (chunkFilter spec toBlock chunkSize first).toBlock = last :=
        ⟨_, rfl⟩
      have hstep := found_step hsorted hfees hserves hchunk hroom haligned hto hlast
      rw [hlast] at hlastNat
      have hnext : (last + 1).toNat = last.toNat + 1 := by
        rw [UInt64.toNat_add]
        simp
        omega
      have hnextStart : Aligned spec chunkSize (last + 1) ∨ ¬ last + 1 ≤ toBlock := by
        rcases Nat.lt_or_ge (first.toNat + chunkSize.toNat - 1) toBlock.toNat with hlt | hge
        · obtain ⟨k, hk⟩ := haligned
          refine .inl ⟨k + 1, ?_⟩
          rw [hnext, Nat.succ_mul]
          omega
        · refine .inr fun h => ?_
          have := UInt64.le_iff_toNat_le.mp h
          omega
      rw [if_pos hto]
      simp only [hlast]
      rw [ih (last + 1) _ hnextStart (by omega), List.append_assoc, hstep]
    · rw [if_neg hto, found_past hto, List.append_nil]

/-- **What the crawler finds**, in enough rounds: the pools the factory created in the blocks it was
asked for, in their order and each once, less those of ranges that were not answered. A size of zero
repeats one empty range without an end. -/
theorem crawl_finds (hsorted : history.Pairwise fun c d => c.block ≤ d.block)
    (hfees : ∀ c ∈ history, c.fee.toNat < 16777216)
    (hserves : Serves provider spec history answered)
    (hroom : toBlock.toNat + chunkSize.toNat < 2 ^ 64) :
    (0 < chunkSize → ∀ fuel, toBlock.toNat + 1 < fuel →
      crawlFactoryLogs provider spec toBlock chunkSize fuel =
        some ((history.filter fun c => spec.fromBlock ≤ c.block ∧ c.block ≤ toBlock ∧
          answered (chunkOf spec toBlock chunkSize c.block)).map (poolOf spec))) ∧
    (chunkSize = 0 → 0 < spec.fromBlock → spec.fromBlock ≤ toBlock →
      ∀ fuel, crawlFactoryLogs provider spec toBlock chunkSize fuel = none) := by
  constructor
  · intro hchunk fuel hfuel
    have hpos : 0 < chunkSize.toNat := UInt64.lt_iff_toNat_lt.mp hchunk
    have haligned : Aligned spec chunkSize spec.fromBlock := ⟨0, by omega⟩
    have hrun := crawlFrom_eq hsorted hfees hserves hpos hroom fuel spec.fromBlock []
      (.inl haligned) (by omega)
    exact hrun.trans (congrArg some (List.nil_append _))
  · rintro rfl hfirst hto fuel
    have hfirst' : 0 < spec.fromBlock.toNat := UInt64.lt_iff_toNat_lt.mp hfirst
    have hto' := UInt64.le_iff_toNat_le.mp hto
    have hsub : (spec.fromBlock + 0 - 1).toNat = spec.fromBlock.toNat - 1 := by
      rw [UInt64.toNat_sub, UInt64.toNat_add]
      simp
      omega
    -- The next round begins where this one did.
    have hsame : (chunkFilter spec toBlock 0 spec.fromBlock).toBlock + 1 = spec.fromBlock := by
      apply UInt64.toNat_inj.mp
      show (min (spec.fromBlock + 0 - 1) toBlock + 1).toNat = _
      rw [UInt64.toNat_add, toNat_min, hsub]
      simp
      omega
    have hloop : ∀ pools, crawlFrom provider spec toBlock 0 fuel spec.fromBlock pools = none := by
      induction fuel with
      | zero => intro pools; rfl
      | succ fuel ih =>
        intro pools
        unfold crawlFrom
        rw [if_pos hto]
        simp only [hsame]
        exact ih _
    exact hloop []

end Crawl

/-! ### A factory of two pools -/

/-- A V2 factory, from block 10 on. -/
def pairFactory : FactorySpec := ⟨5, .uniswapV2, 10⟩

/-- Two pairs, in the first and in the last block. -/
def twoPairs : List Created := [⟨10, 1, 2, 20, 30, 0, 1⟩, ⟨15, 1, 3, 21, 30, 0, 2⟩]

/-- A node that answers everything. -/
def pairNode : LogProvider := fun filter =>
  some ((twoPairs.filter fun c =>
    filter.fromBlock ≤ c.block ∧ c.block ≤ filter.toBlock).map (encodeLog pairFactory))

theorem crawl_finds_twoPairs :
    crawlFactoryLogs pairNode pairFactory 15 4 100 =
      some ((twoPairs.filter fun c => (10 : UInt64) ≤ c.block ∧ c.block ≤ 15 ∧ true = true).map
        (poolOf pairFactory)) := by
  have hsorted : twoPairs.Pairwise fun c d => c.block ≤ d.block := by decide
  have hserves : Serves pairNode pairFactory twoPairs fun _ => true := by
    intro filter _ _
    exact (if_pos rfl).symm
  have hroom : (15 : UInt64).toNat + (4 : UInt64).toNat < 2 ^ 64 := by decide
  exact (crawl_finds hsorted (by decide) hserves hroom).1 (by decide) 100 (by decide)

end ArbBot.PoolDiscovery
