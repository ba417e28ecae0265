import ArbBot.Laws.Accounts.Storage
import ArbBot.Laws.Calculation.V3.NextTick

/-!
# The ticks that are fetched and the ticks that are asked for

`prefetch_v3_tick_data` compresses the tick of a pool by a division that truncates, the search of a
quote by one that rounds down. Around which bitmap word the nine words are fetched, whether that is
the word a search downwards reads first, and that the ticks that are set in a loaded word are loaded
where a quote looks for them.
-/

namespace ArbBot.Accounts

open Lib V3

variable {keccak : Keccak} {node : Node}

/-! ## Slots that are fetched -/

namespace BlockStateDb

variable {db : BlockStateDb} {address a : Address} {s : U256}

theorem slot_registerPancake (pools : List V3Pool) :
    (db.registerPancake pools).slot a s = db.slot a s := rfl

theorem updateSlots_pancakeV3Pools (writes : List (Address × U256 × U256)) (db : BlockStateDb) :
    (db.updateSlots keccak writes).pancakeV3Pools = db.pancakeV3Pools := by
  induction writes generalizing db with
  | nil => rfl
  | cons write writes ih => exact ih _

/-- Cells that are fetched hold what the node has, the others what they held. -/
theorem slot_updateSlots_fetched (cells : List (Address × U256)) (db : BlockStateDb) :
    (db.updateSlots keccak (fetched node cells)).slot a s =
      if (a, s) ∈ cells then some (node.storage a s) else db.slot a s := by
  induction cells generalizing db with
  | nil => rfl
  | cons cell cells ih =>
    have hstep : db.updateSlots keccak (fetched node (cell :: cells)) =
        (db.updateSlot keccak cell.1 cell.2 (node.storage cell.1 cell.2)).updateSlots keccak
          (fetched node cells) := rfl
    rw [hstep, ih, slot_updateSlot]
    by_cases hrest : (a, s) ∈ cells
    · rw [if_pos hrest, if_pos (List.mem_cons_of_mem _ hrest)]
    · rw [if_neg hrest]
      by_cases hcell : a = cell.1 ∧ s = cell.2
      · have hhead : (a, s) = cell := Prod.ext hcell.1 hcell.2
        rw [if_pos hcell, if_pos (List.mem_cons.mpr (.inl hhead)), hcell.1, hcell.2]
      · have hmem : (a, s) ∉ cell :: cells := by
          intro hmem
          rcases List.mem_cons.mp hmem with rfl | hmem
          · exact hcell ⟨rfl, rfl⟩
          · exact hrest hmem
        rw [if_neg hcell, if_neg hmem]

/-! ## The nine words -/

/-- The nine words around one. -/
def window (word : BitVec 16) : List (BitVec 16) :=
  ([-4, -3, -2, -1, 0, 1, 2, 3, 4] : List Int).map fun offset =>
    BitVec.ofInt 16 (word.toInt + offset)

/-- Truncation and rounding down lead to one word, unless the tick is negative and no multiple, and
truncation leads to the first index of a word. -/
theorem truncated_word_eq_iff {tick spacing : Int} (hpos : 0 < spacing) :
    tick.tdiv spacing / 256 = tick / spacing / 256 ↔
      ¬ (tick < 0 ∧ ¬ spacing ∣ tick ∧ 256 ∣ tick.tdiv spacing) := by
  have hdiv := Int.tdiv_eq_ediv (a := tick) (b := spacing)
  rw [Int.sign_eq_one_of_pos hpos] at hdiv
  by_cases hexact : 0 ≤ tick ∨ spacing ∣ tick
  · rw [if_pos hexact, Int.add_zero] at hdiv
    rw [hdiv]
    refine iff_of_true rfl ?_
    rintro ⟨hneg, hdvd, -⟩
    exact hexact.elim (by omega) hdvd
  · rw [if_neg hexact] at hdiv
    obtain ⟨hneg, hdvd⟩ := not_or.mp hexact
    rw [hdiv]
    simp only [Int.not_le.mp hneg, hdvd, not_false_eq_true, true_and]
    omega

theorem window_inj {word word' : BitVec 16} : window word = window word' ↔ word = word' := by
  constructor
  · intro h
    have hmiddle := congrArg (fun words => words[4]?) h
    simpa [window] using hmiddle
  · rintro rfl
    rfl

section

variable {tick spacing : BitVec 32}

theorem tdiv_range (spacing : BitVec 32) (hlow : minTick ≤ tick.toInt)
    (hhigh : tick.toInt ≤ maxTick) :
    -887272 ≤ tick.toInt.tdiv spacing.toInt ∧ tick.toInt.tdiv spacing.toInt ≤ 887272 := by
  have habs := Int.natAbs_tdiv_le_natAbs tick.toInt spacing.toInt
  unfold minTick at hlow
  unfold maxTick at hhigh
  omega

/-- The prefetch shifts the truncated quotient. -/
theorem nearbyWords_eq (hlow : minTick ≤ tick.toInt) (hhigh : tick.toInt ≤ maxTick) :
    nearbyWords tick spacing = window (wordPos (tick.toInt.tdiv spacing.toInt)) := by
  obtain ⟨hleast, hmost⟩ := tdiv_range spacing hlow hhigh
  have hquotient : (tick.sdiv spacing).toInt = tick.toInt.tdiv spacing.toInt := by
    rw [BitVec.toInt_sdiv]
    exact Int.bmod_eq_of_le (by omega) (by omega)
  have hcentral : ((tick.sdiv spacing).sshiftRight 8).setWidth 16 =
      wordPos (tick.toInt.tdiv spacing.toInt) := by
    rw [← BitVec.signExtend_eq_setWidth_of_le _ (by decide), BitVec.signExtend,
      BitVec.toInt_sshiftRight, hquotient, wordPos]
  have hword : (wordPos (tick.toInt.tdiv spacing.toInt)).toInt =
      tick.toInt.tdiv spacing.toInt / 256 := toInt_wordPos (by omega) (by omega)
  unfold nearbyWords window
  dsimp only
  rw [hcentral]
  refine List.map_congr_left fun offset hoffset => ?_
  have hnear : -4 ≤ offset ∧ offset ≤ 4 := by
    simp only [List.mem_cons, List.not_mem_nil, or_false] at hoffset
    omega
  congr 1
  omega

/-- The words are those around the first one of a search downwards, or those around the next. -/
theorem nearbyWords_eq_iff (hlow : minTick ≤ tick.toInt) (hhigh : tick.toInt ≤ maxTick)
    (hpos : 0 < spacing.toInt) :
    nearbyWords tick spacing = window (wordPos (tick.toInt / spacing.toInt)) ↔
      ¬ (tick.toInt < 0 ∧ ¬ spacing.toInt ∣ tick.toInt ∧
        256 ∣ tick.toInt.tdiv spacing.toInt) := by
  obtain ⟨hleast, hmost⟩ := tdiv_range spacing hlow hhigh
  obtain ⟨hleast', hmost'⟩ := index_range hpos (by omega) hhigh
  rw [nearbyWords_eq hlow hhigh, window_inj, ← truncated_word_eq_iff hpos, ← BitVec.toInt_inj,
    toInt_wordPos (by omega) (by omega), toInt_wordPos (by omega) (by omega)]

end

/-! ## What is fetched of a pool -/

/-- The pool is listed once, and registered as one of the Pancake layout if it is listed so. -/
structure Listed (db : BlockStateDb) (pools : List V3Pool) (pool : V3Pool) : Prop where
  mem : pool ∈ pools
  unique : ∀ other ∈ pools, other.address = pool.address → other = pool
  registered : pool.address ∈ db.pancakeV3Pools → pool.isPancake = true
  spacing_pos : 0 < pool.tickSpacing.toInt

variable {pools : List V3Pool} {pool : V3Pool} {sqrtPrice : U256} {tick : BitVec 32}
  {word : BitVec 16}

theorem Listed.mem_pancake (h : Listed db pools pool) :
    pool.address ∈ (db.registerPancake pools).pancakeV3Pools ↔ pool.isPancake = true := by
  simp only [registerPancake, Finset.mem_union, List.mem_toFinset, List.mem_map, List.mem_filter]
  constructor
  · rintro (hold | ⟨other, ⟨hother, hflag⟩, haddress⟩)
    · exact h.registered hold
    · exact h.unique other hother haddress ▸ hflag
  · intro hflag
    exact .inr ⟨pool, ⟨h.mem, hflag⟩, rfl⟩

theorem Listed.find (h : Listed db pools pool) :
    (pools.reverse.find? fun other => other.address = pool.address) = some pool := by
  cases hfound : pools.reverse.find? fun other => other.address = pool.address with
  | none =>
    have hnone := List.find?_eq_none.mp hfound pool (List.mem_reverse.mpr h.mem)
    exact absurd (decide_eq_true rfl) hnone
  | some other =>
    have haddress : other.address = pool.address := by simpa using List.find?_some hfound
    have hother := List.mem_reverse.mp (List.mem_of_find?_eq_some hfound)
    rw [h.unique other hother haddress]

/-- The bitmap slot of a word of the pool. -/
def bitmapSlot (keccak : Keccak) (pool : V3Pool) (word : BitVec 16) : U256 :=
  v3TickBitmapSlotBase keccak word (if pool.isPancake then 7 else 6)

theorem mem_bitmapsToFetch (h : Listed db pools pool)
    (hslot0 : db.toStateDb.readV3Slot0 pool.address = some (sqrtPrice, tick)) :
    (pool.address, word, s) ∈ bitmapsToFetch keccak (db.registerPancake pools) pools ↔
      word ∈ nearbyWords tick pool.tickSpacing ∧ s = bitmapSlot keccak pool word ∧
        db.slot pool.address s = none := by
  have hslot : ∀ a, (db.registerPancake pools).toStateDb.readV3Slot0 a =
      db.toStateDb.readV3Slot0 a := fun _ => rfl
  rw [bitmapsToFetch, List.mem_flatMap]
  constructor
  · rintro ⟨other, hother, hin⟩
    split at hin
    · exact absurd hin List.not_mem_nil
    · rw [hslot] at hin
      split at hin
      · exact absurd hin List.not_mem_nil
      · rename_i hread
        obtain ⟨hmap, hmissing⟩ := List.mem_filter.mp hin
        obtain ⟨w, hw, heq⟩ := List.mem_map.mp hmap
        obtain ⟨haddress, rfl, rfl⟩ : other.address = pool.address ∧ w = word ∧
            v3TickBitmapSlotBase keccak w (if other.isPancake then 7 else 6) = s := by
          simpa using heq
        obtain rfl := h.unique other hother haddress
        rw [hslot0] at hread
        cases hread
        exact ⟨hw, rfl, Option.isNone_iff_eq_none.mp hmissing⟩
  · rintro ⟨hword, rfl, hmissing⟩
    refine ⟨pool, h.mem, ?_⟩
    rw [if_neg (Int.not_le.mpr h.spacing_pos), hslot, hslot0]
    refine List.mem_filter.mpr ⟨List.mem_map.mpr ⟨word, hword, rfl⟩, ?_⟩
    exact Option.isNone_iff_eq_none.mpr hmissing

/-- The cells that are fetched: the bitmap words, and the ticks set in them. -/
def fetchedCells (keccak : Keccak) (node : Node) (db : BlockStateDb) (pools : List V3Pool) :
    List (Address × U256) :=
  let reg := db.registerPancake pools
  let words := bitmapsToFetch keccak reg pools
  let cells := words.map fun word => (word.1, word.2.2)
  cells ++ ticksToFetch keccak node (reg.updateSlots keccak (fetched node cells)) pools words

theorem slot_prefetchV3TickData :
    (db.prefetchV3TickData keccak node pools).slot a s =
      if (a, s) ∈ fetchedCells keccak node db pools then some (node.storage a s)
      else db.slot a s := by
  have hwrites : db.tickWrites keccak node pools =
      fetched node (fetchedCells keccak node db pools) := List.map_append.symm
  rw [prefetchV3TickData, hwrites, slot_updateSlots_fetched, slot_registerPancake]

/-- Nothing that is loaded is fetched again. -/
theorem missing_of_mem_fetchedCells (h : (a, s) ∈ fetchedCells keccak node db pools) :
    db.slot a s = none := by
  rcases List.mem_append.mp h with hword | htick
  · obtain ⟨⟨pool, word, slot⟩, hmem, heq⟩ := List.mem_map.mp hword
    obtain ⟨other, -, hin⟩ := List.mem_flatMap.mp hmem
    obtain ⟨rfl, rfl⟩ : pool = a ∧ slot = s := by simpa using heq
    split at hin
    · exact absurd hin List.not_mem_nil
    · split at hin
      · exact absurd hin List.not_mem_nil
      · exact Option.isNone_iff_eq_none.mp (List.mem_filter.mp hin).2
  · obtain ⟨⟨pool, word, slot⟩, -, hin⟩ := List.mem_flatMap.mp htick
    dsimp only at hin
    split at hin
    · exact absurd hin List.not_mem_nil
    · obtain ⟨slot', hslot', heq⟩ := List.mem_map.mp hin
      obtain ⟨rfl, rfl⟩ : pool = a ∧ slot' = s := by simpa using heq
      have hmissing := Option.isNone_iff_eq_none.mp (List.mem_filter.mp hslot').2
      rw [slot_updateSlots_fetched, slot_registerPancake] at hmissing
      split at hmissing
      · cases hmissing
      · exact hmissing

theorem slot_prefetchV3TickData_of_loaded {value : U256} (h : db.slot a s = some value) :
    (db.prefetchV3TickData keccak node pools).slot a s = some value := by
  rw [slot_prefetchV3TickData, if_neg, h]
  intro hmem
  rw [missing_of_mem_fetchedCells hmem] at h
  cases h

theorem isSome_prefetchV3TickData
    (h : db.slot a s = none → (a, s) ∈ fetchedCells keccak node db pools) :
    ((db.prefetchV3TickData keccak node pools).slot a s).isSome := by
  rw [slot_prefetchV3TickData]
  split
  · rfl
  · rename_i hmem
    exact Option.isSome_iff_ne_none.mpr (mt h hmem)

/-- The tick of a bit, as the prefetch computes it in 32 bits. -/
theorem ofInt_tickOf (spacing : BitVec 32) (word : BitVec 16) (bit : Nat) :
    (word.signExtend 32 * 256 + BitVec.ofNat 32 bit) * spacing =
      BitVec.ofInt 32 (tickOf spacing.toInt word.toInt bit) := by
  rw [tickOf, BitVec.ofInt_mul, BitVec.ofInt_add, BitVec.ofInt_mul, BitVec.ofInt_toInt,
    BitVec.ofInt_natCast]
  rfl

/-- The tick slot of a tick of the pool. -/
def tickSlot (keccak : Keccak) (pool : V3Pool) (tick : BitVec 32) : U256 :=
  v3TickSlotBase keccak tick (if pool.isPancake then 6 else 5)

/-- The tick of a bit that is set in a fetched word is loaded afterwards. -/
theorem tickSlot_loaded (h : Listed db pools pool)
    (hword : (pool.address, word, s) ∈ bitmapsToFetch keccak (db.registerPancake pools) pools)
    {bit : Nat} (hbit : bit < 256) (hset : (node.storage pool.address s).getLsbD bit = true) :
    ((db.prefetchV3TickData keccak node pools).slot pool.address
      (tickSlot keccak pool
        (BitVec.ofInt 32 (tickOf pool.tickSpacing.toInt word.toInt bit)))).isSome := by
  have hbase : (if pool.address ∈ (db.registerPancake pools).pancakeV3Pools then (6 : UInt64)
      else 5) = if pool.isPancake then 6 else 5 := by
    simp only [h.mem_pancake]
  apply isSome_prefetchV3TickData
  intro hmissing
  rw [fetchedCells, List.mem_append]
  by_cases hcell : (pool.address, tickSlot keccak pool
      (BitVec.ofInt 32 (tickOf pool.tickSpacing.toInt word.toInt bit))) ∈
        (bitmapsToFetch keccak (db.registerPancake pools) pools).map fun word => (word.1, word.2.2)
  · exact .inl hcell
  · refine .inr (List.mem_flatMap.mpr ⟨_, hword, ?_⟩)
    dsimp only
    rw [h.find, updateSlots_pancakeV3Pools]
    refine List.mem_map.mpr ⟨_, List.mem_filter.mpr ⟨?_, ?_⟩, rfl⟩
    · rw [tickSlots, hbase]
      refine List.mem_map.mpr ⟨bit, List.mem_filter.mpr ⟨List.mem_range.mpr hbit, hset⟩, ?_⟩
      dsimp only
      rw [ofInt_tickOf, tickSlot]
    · rw [slot_updateSlots_fetched, if_neg hcell, slot_registerPancake, hmissing]
      rfl

/-! ## What a quote reads afterwards -/

/-- The storage with the registered pools, which the reads of a quote go by. -/
def toReads (db : BlockStateDb) : ArbBot.BlockStateDb where
  toStateDb := db.toStateDb
  trackedPools := db.trackedPools.toFinset
  pancakeV3Pools := db.pancakeV3Pools

theorem readV3TickBitmap_prefetch (h : Listed db pools pool) (word : BitVec 16) :
    (db.prefetchV3TickData keccak node pools).toReads.readV3TickBitmap keccak pool.address word =
      (db.prefetchV3TickData keccak node pools).slot pool.address (bitmapSlot keccak pool word) := by
  have hpancake : (db.prefetchV3TickData keccak node pools).pancakeV3Pools =
      (db.registerPancake pools).pancakeV3Pools := updateSlots_pancakeV3Pools _ _
  simp only [BlockStateDb.readV3TickBitmap, toReads, hpancake, h.mem_pancake, bitmapSlot]
  exact toStateDb_slot _

theorem readV3Tick_prefetch (h : Listed db pools pool) (t : BitVec 32) :
    (db.prefetchV3TickData keccak node pools).toReads.readV3Tick keccak pool.address t =
      ((db.prefetchV3TickData keccak node pools).slot pool.address
        (tickSlot keccak pool t)).map ArbBot.BlockStateDb.unpackTick := by
  have hpancake : (db.prefetchV3TickData keccak node pools).pancakeV3Pools =
      (db.registerPancake pools).pancakeV3Pools := updateSlots_pancakeV3Pools _ _
  simp only [BlockStateDb.readV3Tick, toReads, hpancake, h.mem_pancake, tickSlot]
  exact congrArg _ (toStateDb_slot _)

/-- A tick that a search reports as initialised is set in the word. -/
theorem scanWord_flagged {zeroForOne : Bool} {spacing index next : Int} {bitmap : U256}
    (h : scanWord zeroForOne spacing index bitmap = (next, true)) :
    ∃ bit, bit < 256 ∧ bitmap.getLsbD bit = true ∧
      next = wrapInt 32 (tickOf spacing (wordPos index).toInt bit) := by
  have hclear : ∀ {mask : U256} {bit : Nat}, (bitmap &&& mask).getLsbD bit = true →
      bit < 256 ∧ bitmap.getLsbD bit = true := by
    intro mask bit hbit
    refine ⟨BitVec.lt_of_getLsbD hbit, ?_⟩
    rw [BitVec.getLsbD_and, Bool.and_eq_true] at hbit
    exact hbit.1
  unfold scanWord at h
  cases zeroForOne with
  | true =>
    simp only [if_true] at h
    split at h
    · rename_i hset
      have hpos : (bitmap &&& searchMask true (bitPos index)).toNat ≠ 0 := (toNat_pos hset).ne'
      obtain ⟨hbit, hbitmap⟩ := hclear (Nat.testBit_log2 hpos)
      exact ⟨_, hbit, hbitmap, (congrArg Prod.fst h).symm⟩
    · cases congrArg Prod.snd h
  | false =>
    simp only [Bool.false_eq_true, if_false] at h
    split at h
    · rename_i hset
      obtain ⟨hbit, hbitmap⟩ := hclear (BitVec.getLsbD_true_ctz_of_ne_zero hset)
      exact ⟨_, hbit, hbitmap, (congrArg Prod.fst h).symm⟩
    · cases congrArg Prod.snd h

/-- The ticks that are set in the bitmap words of the pool are loaded with the words. A database
without bitmap words is of this kind. -/
def TicksLoaded (keccak : Keccak) (db : BlockStateDb) (pool : V3Pool) : Prop :=
  ∀ word bits bit, db.slot pool.address (bitmapSlot keccak pool word) = some bits → bit < 256 →
    bits.getLsbD bit = true →
      (db.slot pool.address (tickSlot keccak pool
        (BitVec.ofInt 32 (tickOf pool.tickSpacing.toInt word.toInt bit)))).isSome

/-- A word that is loaded after the prefetch: one of the nine, or one that was loaded before. -/
def WordKnown (keccak : Keccak) (db : BlockStateDb) (pool : V3Pool) (tick : BitVec 32)
    (word : BitVec 16) : Prop :=
  word ∈ nearbyWords tick pool.tickSpacing ∨
    (db.slot pool.address (bitmapSlot keccak pool word)).isSome

/-- The prefetch and the search of a quote agree on a pool at a tick: the nine words are those
around the first word of a search downwards, and all of them are loaded; of every loaded word the
ticks that are set are loaded; and every tick that a search reports as initialised there is loaded
where the quote looks for it. -/
structure PrefetchAgrees (keccak : Keccak) (node : Node) (db : BlockStateDb) (pools : List V3Pool)
    (pool : V3Pool) (tick : BitVec 32) : Prop where
  central : ∃ compressed, compress tick.toInt pool.tickSpacing.toInt = some compressed ∧
    nearbyWords tick pool.tickSpacing = window (wordPos (searchFrom true compressed)) ∧
    ∀ word ∈ window (wordPos (searchFrom true compressed)),
      ((db.prefetchV3TickData keccak node pools).toReads.readV3TickBitmap keccak pool.address
        word).isSome
  ticks : ∀ word bits bit, WordKnown keccak db pool tick word →
    (db.prefetchV3TickData keccak node pools).toReads.readV3TickBitmap keccak pool.address word =
      some bits → bit < 256 → bits.getLsbD bit = true →
        ((db.prefetchV3TickData keccak node pools).toReads.readV3Tick keccak pool.address
          (BitVec.ofInt 32 (tickOf pool.tickSpacing.toInt word.toInt bit))).isSome
  asked : ∀ zeroForOne start compressed next,
    compress start pool.tickSpacing.toInt = some compressed →
    WordKnown keccak db pool tick (wordPos (searchFrom zeroForOne compressed)) →
    findNextInitializedTick keccak (db.prefetchV3TickData keccak node pools).toReads pool.address
      start pool.tickSpacing.toInt zeroForOne = some (next, true) →
    minTick ≤ next → next ≤ maxTick →
      ((db.prefetchV3TickData keccak node pools).toReads.readV3Tick keccak pool.address
        (BitVec.ofInt 32 (max minTick (min next maxTick)))).isSome

theorem words_loaded (h : Listed db pools pool)
    (hslot0 : db.toStateDb.readV3Slot0 pool.address = some (sqrtPrice, tick))
    (hword : word ∈ nearbyWords tick pool.tickSpacing) :
    ((db.prefetchV3TickData keccak node pools).toReads.readV3TickBitmap keccak pool.address
      word).isSome := by
  rw [readV3TickBitmap_prefetch h]
  apply isSome_prefetchV3TickData
  intro hmissing
  have hfetch : (pool.address, word, bitmapSlot keccak pool word) ∈
      bitmapsToFetch keccak (db.registerPancake pools) pools :=
    (mem_bitmapsToFetch h hslot0).mpr ⟨hword, rfl, hmissing⟩
  exact List.mem_append.mpr (.inl (List.mem_map.mpr ⟨_, hfetch, rfl⟩))

theorem ticks_loaded (h : Listed db pools pool)
    (hslot0 : db.toStateDb.readV3Slot0 pool.address = some (sqrtPrice, tick))
    (hcached : TicksLoaded keccak db pool) (hword : WordKnown keccak db pool tick word) {bits : U256}
    (hbits : (db.prefetchV3TickData keccak node pools).toReads.readV3TickBitmap keccak pool.address
      word = some bits) {bit : Nat} (hbit : bit < 256) (hset : bits.getLsbD bit = true) :
    ((db.prefetchV3TickData keccak node pools).toReads.readV3Tick keccak pool.address
      (BitVec.ofInt 32 (tickOf pool.tickSpacing.toInt word.toInt bit))).isSome := by
  rw [readV3Tick_prefetch h, Option.isSome_map]
  rw [readV3TickBitmap_prefetch h] at hbits
  cases hbefore : db.slot pool.address (bitmapSlot keccak pool word) with
  | some value =>
    -- a word that was loaded stays as it was, and its ticks were loaded with it
    obtain rfl : value = bits :=
      Option.some.inj ((slot_prefetchV3TickData_of_loaded hbefore).symm.trans hbits)
    obtain ⟨entry, hentry⟩ := Option.isSome_iff_exists.mp (hcached word value bit hbefore hbit hset)
    rw [slot_prefetchV3TickData_of_loaded hentry]
    rfl
  | none =>
    have hnear := hword.resolve_right (by rw [hbefore]; exact Bool.false_ne_true)
    have hfetch : (pool.address, word, bitmapSlot keccak pool word) ∈
        bitmapsToFetch keccak (db.registerPancake pools) pools :=
      (mem_bitmapsToFetch h hslot0).mpr ⟨hnear, rfl, hbefore⟩
    have hcell : (pool.address, bitmapSlot keccak pool word) ∈ fetchedCells keccak node db pools :=
      List.mem_append.mpr (.inl (List.mem_map.mpr ⟨_, hfetch, rfl⟩))
    rw [slot_prefetchV3TickData, if_pos hcell] at hbits
    cases hbits
    exact tickSlot_loaded h hfetch hbit hset

theorem asked_loaded (h : Listed db pools pool)
    (hslot0 : db.toStateDb.readV3Slot0 pool.address = some (sqrtPrice, tick))
    (hcached : TicksLoaded keccak db pool) {zeroForOne : Bool} {start compressed next : Int}
    (hcompress : compress start pool.tickSpacing.toInt = some compressed)
    (hword : WordKnown keccak db pool tick (wordPos (searchFrom zeroForOne compressed)))
    (hfound : findNextInitializedTick keccak (db.prefetchV3TickData keccak node pools).toReads
      pool.address start pool.tickSpacing.toInt zeroForOne = some (next, true))
    (hlow : minTick ≤ next) (hhigh : next ≤ maxTick) :
    ((db.prefetchV3TickData keccak node pools).toReads.readV3Tick keccak pool.address
      (BitVec.ofInt 32 (max minTick (min next maxTick)))).isSome := by
  rw [findNextInitializedTick, hcompress, Option.map_some, readWordOf] at hfound
  obtain ⟨bit, hbit, hset, hnext⟩ := scanWord_flagged (Option.some.inj hfound)
  cases hbits : (db.prefetchV3TickData keccak node pools).toReads.readV3TickBitmap keccak
      pool.address (wordPos (searchFrom zeroForOne compressed)) with
  | none =>
    rw [hbits, Option.getD_none] at hset
    exact absurd hset (by simp)
  | some bits =>
    rw [hbits, Option.getD_some] at hset
    have hclamp : max minTick (min next maxTick) = next := by omega
    have hwrap : BitVec.ofInt 32 next = BitVec.ofInt 32 (tickOf pool.tickSpacing.toInt
        (wordPos (searchFrom zeroForOne compressed)).toInt bit) := by
      rw [hnext, ← BitVec.toInt_inj, BitVec.toInt_ofInt, BitVec.toInt_ofInt, wrapInt, Int.bmod_bmod]
    rw [hclamp, hwrap]
    exact ticks_loaded h hslot0 hcached hword hbits hbit hset

/-- **When the prefetch and the quote agree**, on a database whose bitmap words, if it has any, were
loaded with their ticks. -/
theorem prefetchAgrees_iff (h : Listed db pools pool)
    (hslot0 : db.toStateDb.readV3Slot0 pool.address = some (sqrtPrice, tick))
    (hcached : TicksLoaded keccak db pool)
    (hlow : minTick ≤ tick.toInt) (hhigh : tick.toInt ≤ maxTick) :
    PrefetchAgrees keccak node db pools pool tick ↔
      ¬ (tick.toInt < 0 ∧ ¬ pool.tickSpacing.toInt ∣ tick.toInt ∧
        256 ∣ tick.toInt.tdiv pool.tickSpacing.toInt) := by
  have hcompress := compress_eq h.spacing_pos (by omega : minTick - 1 ≤ tick.toInt) hhigh
  rw [← nearbyWords_eq_iff hlow hhigh h.spacing_pos]
  constructor
  · rintro ⟨⟨compressed, hfirst, hwords, -⟩, -, -⟩
    cases hcompress.symm.trans hfirst
    exact hwords
  · intro hwords
    refine ⟨⟨_, hcompress, hwords, fun word hword => ?_⟩, ?_, ?_⟩
    · exact words_loaded h hslot0 (hwords ▸ hword)
    · intro word bits bit hword hbits hbit hset
      exact ticks_loaded h hslot0 hcached hword hbits hbit hset
    · intro zeroForOne start compressed next hstart hword hfound hleast hmost
      exact asked_loaded h hslot0 hcached hstart hword hfound hleast hmost

/-! ### Two pools of spacing 60 -/

def unitPrice : U256 := 79228162514264337593543950336

/-- A pool at a tick, with nothing but its price loaded. -/
def pricedAt (tick : BitVec 24) : BlockStateDb :=
  new.updateSlot (fun _ => 1) 7 0 ((tick.setWidth 256 <<< 160) ||| unitPrice)

def sixtyPool : V3Pool := ⟨7, 60, false⟩

theorem listed_sixtyPool (tick : BitVec 24) : Listed (pricedAt tick) [sixtyPool] sixtyPool where
  mem := List.mem_singleton.mpr rfl
  unique _ hother _ := List.mem_singleton.mp hother
  registered h := absurd h (Finset.notMem_empty _)
  spacing_pos := by decide

/-- A hash that keeps the key and the base of a mapping apart. -/
def pairHash (preimage : Bytes) : U256 :=
  BitVec.ofNat 256 (2 ^ 64 * Bytes.toNat (preimage.take 32) + Bytes.toNat (preimage.drop 32))

/-- A node that has tick 120 set in word 0 of the pool. -/
def markedNode : Node :=
  ⟨fun _ => 0, fun _ => 0, fun _ => [], fun _ slot =>
    if slot = bitmapSlot pairHash sixtyPool 0 then 4
    else if slot = tickSlot pairHash sixtyPool 120 then 1000000 else 0⟩

theorem bitmapSlot_sixtyPool_ne (word : BitVec 16) : bitmapSlot pairHash sixtyPool word ≠ 0 := by
  intro hzero
  have hlength : (i256Bytes (word.signExtend 32)).length = 32 := by simp [i256Bytes]
  have hslot : (bitmapSlot pairHash sixtyPool word).toNat =
      (2 ^ 64 * Bytes.toNat (i256Bytes (word.signExtend 32)) + 6) % 2 ^ 256 := by
    rw [bitmapSlot, v3TickBitmapSlotBase, pairHash, BitVec.toNat_ofNat, List.take_left' hlength,
      List.drop_left' hlength, Bytes.toNat_ofWord]
    rfl
  rw [hzero] at hslot
  change 0 = _ at hslot
  omega

/-- A pool with nothing but its price has no bitmap word. -/
theorem ticksLoaded_pricedAt (tick : BitVec 24) :
    TicksLoaded pairHash (pricedAt tick) sixtyPool := by
  intro word bits bit hslot
  rw [pricedAt, slot_updateSlot, if_neg fun h => bitmapSlot_sixtyPool_ne word h.2] at hslot
  cases hslot

theorem prefetchAgrees_iff_atSixty :
    PrefetchAgrees pairHash markedNode (pricedAt 60) [sixtyPool] sixtyPool 60 := by
  have hslot0 : (pricedAt 60).toStateDb.readV3Slot0 sixtyPool.address = some (unitPrice, 60) := by
    decide +kernel
  exact (prefetchAgrees_iff (listed_sixtyPool 60) hslot0 (ticksLoaded_pricedAt 60) (by decide)
    (by decide)).mpr (by decide)

/-- At tick -1 the words around word 0 are fetched, and a search downwards reads word -1 first. -/
theorem not_prefetchAgrees :
    Listed (pricedAt (-1)) [sixtyPool] sixtyPool ∧
    (pricedAt (-1)).toStateDb.readV3Slot0 7 = some (unitPrice, -1) ∧
    TicksLoaded pairHash (pricedAt (-1)) sixtyPool ∧
    ¬ PrefetchAgrees pairHash markedNode (pricedAt (-1)) [sixtyPool] sixtyPool (-1) := by
  refine ⟨listed_sixtyPool (-1), by decide +kernel, ticksLoaded_pricedAt (-1), ?_⟩
  intro h
  obtain ⟨compressed, hcompressed, hwords, -⟩ := h.central
  have hfirst : compress (-1 : BitVec 32).toInt sixtyPool.tickSpacing.toInt = some (-1) := by
    decide
  cases hfirst.symm.trans hcompressed
  exact absurd hwords (by decide)

end BlockStateDb

end ArbBot.Accounts
