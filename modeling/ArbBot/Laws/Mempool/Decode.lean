import ArbBot.Mempool

/-!
# When the decoders panic

Every position the decoders compute from calldata is a sum of a bounded position and a 64-bit
word of the calldata. Where these sums fit a `usize`, the bounds of the source keep every slice in
range; where one does not, the debug build panics at the sum. `OffsetsFit` collects the sums in
the order the decoders come to them, each one under the bounds checks that stand before it, and
`decodeAnySwap_panicFree` says that it is the exact condition. The source adds the words
unchecked, so `OffsetsFit` fails on calldata any sender can choose.
-/

namespace ArbBot.Mempool

open Lib (Checked Build)
open Lib.Checked

/-! ## Reads in range -/

theorem slice_eq {b : Bytes} {start stop : Nat} (h : start ≤ stop) (hstop : stop ≤ b.len) :
    b.slice start stop = pure (b.extract start stop) := if_pos ⟨h, hstop⟩

theorem readWord_eq {b : Bytes} {pos : Nat} (h : pos + 32 ≤ b.len) :
    b.readWord pos = pure (b.word pos) := by
  have hlen := b.len_lt
  unfold Bytes.readWord
  rw [add_eq_pure (by omega), value_bind, slice_eq (by omega) h, value_bind,
    slice_eq (by omega) (by rw [Bytes.len_extract _ h]; omega), value_bind]
  rfl

theorem addressFromSlice_eq {b : Bytes} (h : b.len = 20) :
    addressFromSlice b = pure (BitVec.ofNat 160 b.toNat) := if_pos h

/-- An address read at a position in range. -/
theorem readAddress_eq {b : Bytes} {start stop : Nat} (h : start + 20 = stop)
    (hstop : stop ≤ b.len) {α : Type} (f : Address → Checked α) :
    (b.slice start stop >>= fun bytes => addressFromSlice bytes >>= f) =
      f (BitVec.ofNat 160 (b.extract start stop).toNat) := by
  rw [slice_eq (by omega) hstop, value_bind,
    addressFromSlice_eq (by rw [Bytes.len_extract _ hstop]; omega), value_bind]

/-- The selector of a call. -/
def Bytes.selector (b : Bytes) : Selector := BitVec.ofNat 32 (b.extract 0 4).toNat

theorem readSelector_eq {b : Bytes} (h : 4 ≤ b.len) : readSelector b = pure b.selector := by
  unfold readSelector
  rw [slice_eq (Nat.zero_le 4) h, value_bind]
  rfl

/-! ## V2 -/

/-- The offset of the path leaves room for the length word behind it. -/
def V2Fits (c : Bytes) : Prop :=
  ∀ w, pathWordIdx c.selector = some w →
    c.len < 4 + w * 32 + 32 ∨ 4 + c.word (4 + w * 32) + 32 < 2 ^ 64

theorem readPath_panicFree {c : Bytes} {dataStart : Nat} : ∀ {is : List Nat},
    (∀ i ∈ is, dataStart + i * 32 + 32 ≤ c.len) → PanicFree (readPath c dataStart is) True
  | [], _ => panicFree_pure _
  | i :: is, h => by
    have hlen := c.len_lt
    have hi := h i List.mem_cons_self
    rw [readPath, mul_eq_pure (by omega), value_bind, add_eq_pure (by omega), value_bind,
      add_eq_pure (by omega), value_bind, add_eq_pure (by omega), value_bind,
      noneIf_neg (by omega), value_bind, readAddress_eq rfl (by omega)]
    refine panicFree_bind (readPath_panicFree fun j hj => h j (List.mem_cons_of_mem _ hj)) ?_
    exact fun _ => panicFree_pure _

theorem decodeV2SwapPath_panicFree (c : Bytes) : PanicFree (decodeV2SwapPath c) (V2Fits c) := by
  have hlen := c.len_lt
  unfold decodeV2SwapPath
  by_cases hshort : c.len < 4
  · rw [noneIf_pos hshort, none_bind]
    exact panicFree_none.congr (iff_of_true trivial fun w _ => .inl (by omega))
  rw [noneIf_neg hshort, value_bind, readSelector_eq (by omega), value_bind]
  cases hw : pathWordIdx c.selector with
  | none => exact panicFree_none.congr (iff_of_true trivial fun w h => by rw [hw] at h; cases h)
  | some w =>
    have hfits : V2Fits c ↔ c.len < 4 + w * 32 + 32 ∨
        (4 + c.word (4 + w * 32) < 2 ^ 64 ∧ 4 + c.word (4 + w * 32) + 32 < 2 ^ 64 ∧ True) := by
      rw [and_true]
      constructor
      · intro h
        have := h w hw
        omega
      · intro h w' hw'
        rw [hw] at hw'
        cases hw'
        omega
    refine PanicFree.congr (panicFree_noneIf fun hword => ?_) hfits.symm
    rw [readWord_eq (by omega), value_bind]
    refine panicFree_add fun hstart => panicFree_add fun hdata => ?_
    refine panicFree_noneIf_true fun hhead => ?_
    rw [readWord_eq (by omega), value_bind]
    refine panicFree_noneIf_true fun hpath => ?_
    rw [mul_eq_pure (by omega), value_bind, add_eq_pure (by omega), value_bind]
    refine panicFree_noneIf_true fun hroom => ?_
    refine readPath_panicFree fun i hi => ?_
    have := List.mem_range.mp hi
    omega

/-! ## V3 -/

/-- The offset of the packed path leaves room for the length word behind it, and the length for
the bytes behind that. -/
def V3MultiFits (c : Bytes) : Prop :=
  c.len < 36 ∨ 4 + c.word 4 + 32 < 2 ^ 64 ∧
    (c.len < 4 + c.word 4 + 32 ∨ 4 + c.word 4 + 32 + c.word (4 + c.word 4) < 2 ^ 64)

theorem decodeV3SingleSwap_panicFree (c : Bytes) : PanicFree (decodeV3SingleSwap c) True := by
  unfold decodeV3SingleSwap
  refine panicFree_noneIf_true fun hlen => ?_
  rw [readAddress_eq rfl (by omega), readAddress_eq rfl (by omega)]
  exact panicFree_pure _

theorem readHops_panicFree {path : Bytes} {rounds : Nat} : ∀ {pos : Nat} {addrs : List Address},
    pos ≤ path.len → PanicFree (readHops path rounds pos addrs) True := by
  induction rounds with
  | zero => exact fun _ => panicFree_pure _
  | succ rounds ih =>
    intro pos addrs hpos
    have hlen := path.len_lt
    rw [readHops, add_eq_pure (by omega), value_bind]
    refine panicFree_ite_true (fun hhop => ?_) fun _ => panicFree_pure _
    rw [add_eq_pure (by omega), value_bind, add_eq_pure (by omega), value_bind,
      readAddress_eq rfl (by omega)]
    exact ih hhop

/-- More rounds than bytes are left change nothing. -/
theorem readHops_succ {path : Bytes} {rounds : Nat} : ∀ {pos : Nat} {addrs : List Address},
    pos ≤ path.len → path.len ≤ pos + rounds →
      readHops path (rounds + 1) pos addrs = readHops path rounds pos addrs := by
  induction rounds with
  | zero =>
    intro pos addrs hpos hrounds
    have hlen := path.len_lt
    simp only [readHops]
    rw [add_eq_pure (by omega), value_bind, if_neg (by omega)]
  | succ rounds ih =>
    intro pos addrs hpos hrounds
    have hlen := path.len_lt
    rw [readHops, readHops, add_eq_pure (by omega), value_bind, value_bind]
    by_cases hhop : pos + 23 ≤ path.len
    · rw [if_pos hhop, if_pos hhop, add_eq_pure (by omega), value_bind, value_bind,
        add_eq_pure (by omega), value_bind, value_bind, readAddress_eq rfl (by omega),
        readAddress_eq rfl (by omega)]
      exact ih (by omega) (by omega)
    · rw [if_neg hhop, if_neg hhop]

theorem decodeV3PathBytes_panicFree (path : Bytes) :
    PanicFree (decodeV3PathBytes path) True := by
  unfold decodeV3PathBytes
  refine panicFree_noneIf_true fun hlen => ?_
  rw [noneIf_neg (by omega), value_bind, readAddress_eq rfl (by omega)]
  refine panicFree_bind (readHops_panicFree (by omega)) fun addrs => ?_
  exact panicFree_ite_true (fun _ => panicFree_pure _) fun _ => panicFree_none

theorem decodeV3MultiSwap_panicFree (c : Bytes) :
    PanicFree (decodeV3MultiSwap c) (V3MultiFits c) := by
  have hlen := c.len_lt
  have hfits : (c.len < 4 + 32 ∨ (4 + c.word 4 < 2 ^ 64 ∧ 4 + c.word 4 + 32 < 2 ^ 64 ∧
      (c.len < 4 + c.word 4 + 32 ∨
        (4 + c.word 4 + 32 + c.word (4 + c.word 4) < 2 ^ 64 ∧ True)))) ↔ V3MultiFits c := by
    rw [and_true, V3MultiFits]
    omega
  refine PanicFree.congr ?_ hfits
  unfold decodeV3MultiSwap
  refine panicFree_noneIf fun hshort => ?_
  rw [readWord_eq (by omega), value_bind]
  refine panicFree_add fun hstart => panicFree_add fun hdata => panicFree_noneIf fun hhead => ?_
  rw [readWord_eq (by omega), value_bind]
  refine panicFree_add fun hstop => panicFree_noneIf_true fun hroom => ?_
  rw [slice_eq (by omega) (by omega), value_bind]
  exact decodeV3PathBytes_panicFree _

/-! ## Dispatch and multicall -/

/-- The words of a plain swap call fit. -/
def SwapFits (c : Bytes) : Prop :=
  (c.selector ∈ v3MultiSelectors → V3MultiFits c) ∧ (c.selector ∈ v2Selectors → V2Fits c)

/-- No selector belongs to two of the decoders. -/
theorem disjoint_selectors :
    (v2Selectors.all fun s => s ∉ v3SingleSelectors ∧ s ∉ v3MultiSelectors) ∧
      v3SingleSelectors.all fun s => s ∉ v3MultiSelectors := by
  decide +kernel

theorem v2_not_v3 {s : Selector} (h : s ∈ v2Selectors) :
    s ∉ v3SingleSelectors ∧ s ∉ v3MultiSelectors :=
  of_decide_eq_true (List.all_eq_true.mp disjoint_selectors.1 s h)

theorem single_not_multi {s : Selector} (h : s ∈ v3SingleSelectors) : s ∉ v3MultiSelectors :=
  of_decide_eq_true (List.all_eq_true.mp disjoint_selectors.2 s h)

/-- No multicall selector belongs to a decoder of plain swaps. -/
theorem multicall_not_swap {s : Selector} (h : s = multicallDeadline ∨ s = multicallNoDeadline) :
    s ∉ v2Selectors ∧ s ∉ v3SingleSelectors ∧ s ∉ v3MultiSelectors := by
  rcases h with rfl | rfl <;> decide +kernel

theorem decodeSubCall_panicFree (c : Bytes) :
    PanicFree (decodeSubCall c c.selector) (SwapFits c) := by
  unfold decodeSubCall
  by_cases hsingle : c.selector ∈ v3SingleSelectors
  · have hmulti := single_not_multi hsingle
    have hv2 : c.selector ∉ v2Selectors := fun h => (v2_not_v3 h).1 hsingle
    rw [if_pos hsingle]
    exact (decodeV3SingleSwap_panicFree c).congr (by simp [SwapFits, hmulti, hv2])
  rw [if_neg hsingle]
  by_cases hmulti : c.selector ∈ v3MultiSelectors
  · have hv2 : c.selector ∉ v2Selectors := fun h => (v2_not_v3 h).2 hmulti
    rw [if_pos hmulti]
    exact (decodeV3MultiSwap_panicFree c).congr (by simp [SwapFits, hmulti, hv2])
  rw [if_neg hmulti]
  by_cases hv2 : c.selector ∈ v2Selectors
  · rw [if_pos hv2]
    exact (decodeV2SwapPath_panicFree c).congr (by simp [SwapFits, hmulti, hv2])
  · rw [if_neg hv2]
    exact panicFree_none.congr (by simp [SwapFits, hmulti, hv2])

/-- The words the loop over the sub-calls reads fit, sub-call by sub-call: the offset of the
element, its length, and the words of the sub-call itself when it is decoded. -/
def SubCallsFit (c : Bytes) (arrStart : Nat) : List Nat → Prop
  | [] => True
  | i :: is =>
    let elemOffPos := arrStart + 32 + i * 32
    let elemStart := arrStart + 32 + c.word elemOffPos
    let subDataStop := elemStart + 32 + c.word elemStart
    c.len < elemOffPos + 32 ∨ elemStart < 2 ^ 64 ∧ elemStart + 32 < 2 ^ 64 ∧
      (c.len < elemStart + 32 ∨ subDataStop < 2 ^ 64 ∧
        (¬ (c.len < subDataStop ∨ c.word elemStart < 4) →
          SwapFits (c.extract (elemStart + 32) subDataStop)) ∧
        SubCallsFit c arrStart is)

theorem readSubCalls_panicFree {c : Bytes} {arrStart : Nat} (harr : arrStart + 32 ≤ c.len)
    {is : List Nat} (h : ∀ i ∈ is, i < 20) : ∀ allTokens : List Address,
      PanicFree (readSubCalls c arrStart is allTokens) (SubCallsFit c arrStart is) := by
  have hlen := c.len_lt
  induction is with
  | nil => exact fun _ => panicFree_pure _
  | cons i is ih =>
    intro allTokens
    have hi := h i List.mem_cons_self
    have hrest := ih fun j hj => h j (List.mem_cons_of_mem i hj)
    rw [readSubCalls, add_eq_pure (by omega), value_bind, mul_eq_pure (by omega), value_bind,
      add_eq_pure (by omega), value_bind, add_eq_pure (by omega), value_bind]
    refine panicFree_stop fun hword => ?_
    rw [readWord_eq (by omega), value_bind]
    refine panicFree_add fun hstart => panicFree_add fun hdata => panicFree_stop fun hhead => ?_
    rw [readWord_eq (by omega), value_bind]
    refine panicFree_add fun hstop => ?_
    refine panicFree_skip (hrest allTokens) fun hcall => ?_
    rw [slice_eq (by omega) (by omega), value_bind,
      readSelector_eq (by rw [Bytes.len_extract _ (by omega)]; omega), value_bind]
    exact panicFree_attempt (decodeSubCall_panicFree _) fun _ => hrest _

/-- The offset of the array of sub-calls leaves room for the length word behind it, and the words
of the sub-calls fit. -/
def MulticallFits (c : Bytes) : Prop :=
  ∀ w, arrayOffsetWord c.selector = some w →
    let arrStart := 4 + c.word (4 + w * 32)
    let numCalls := c.word arrStart
    c.len < 4 + w * 32 + 32 ∨ arrStart < 2 ^ 64 ∧ arrStart + 32 < 2 ^ 64 ∧
      (c.len < arrStart + 32 ∨ (numCalls = 0 ∨ 20 < numCalls) ∨
        SubCallsFit c arrStart (List.range numCalls))

theorem decodeMulticallSwaps_panicFree (c : Bytes) :
    PanicFree (decodeMulticallSwaps c) (MulticallFits c) := by
  have hlen := c.len_lt
  unfold decodeMulticallSwaps
  by_cases hshort : c.len < 4
  · rw [noneIf_pos hshort, none_bind]
    exact panicFree_none.congr (iff_of_true trivial fun w _ => .inl (by omega))
  rw [noneIf_neg hshort, value_bind, readSelector_eq (by omega), value_bind]
  cases hw : arrayOffsetWord c.selector with
  | none => exact panicFree_none.congr (iff_of_true trivial fun w h => by rw [hw] at h; cases h)
  | some w =>
    rw [show MulticallFits c ↔ _ from
      ⟨fun h => h w hw, fun h w' hw' => Option.some.inj (hw.symm.trans hw') ▸ h⟩]
    refine panicFree_noneIf fun hword => ?_
    rw [readWord_eq (by omega), value_bind]
    refine panicFree_add fun hstart => panicFree_add fun hhead => panicFree_noneIf fun hroom => ?_
    rw [readWord_eq (by omega), value_bind]
    refine panicFree_noneIf fun hcalls => ?_
    refine panicFree_bind (readSubCalls_panicFree (by omega) (fun i hi => ?_) []) fun _ =>
      panicFree_ite_true (fun _ => panicFree_none) fun _ => panicFree_pure _
    have := List.mem_range.mp hi
    omega

/-! ## Every decoder -/

/-- The sums the decoders form with the 64-bit words they read from the calldata fit a `usize`. -/
def OffsetsFit (c : Bytes) : Prop := SwapFits c ∧ MulticallFits c

/-- A call that is not a multicall has no words to read as one. -/
theorem multicallFits_of_not {c : Bytes}
    (h : ¬ (c.selector = multicallDeadline ∨ c.selector = multicallNoDeadline)) :
    MulticallFits c := by
  intro w hw
  rw [not_or] at h
  rw [arrayOffsetWord, if_neg h.1, if_neg h.2] at hw
  cases hw

/-- A multicall is no plain swap. -/
theorem swapFits_of_multicall {c : Bytes}
    (h : c.selector = multicallDeadline ∨ c.selector = multicallNoDeadline) : SwapFits c :=
  ⟨fun hm => absurd hm (multicall_not_swap h).2.2, fun hv => absurd hv (multicall_not_swap h).1⟩

/-- Too short for a word, a call has no sums to fit. -/
theorem offsetsFit_of_short {c : Bytes} (h : c.len < 4) : OffsetsFit c :=
  ⟨⟨fun _ => .inl (by omega), fun _ _ _ => .inl (by omega)⟩, fun _ _ => .inl (by omega)⟩

/-- The two dispatchers agree on plain swaps. -/
theorem decodeAnySwap_eq {c : Bytes} (h : 4 ≤ c.len) :
    decodeAnySwap c =
      if c.selector = multicallDeadline ∨ c.selector = multicallNoDeadline then
        decodeMulticallSwaps c
      else decodeSubCall c c.selector := by
  unfold decodeAnySwap decodeSubCall
  rw [noneIf_neg (by omega), value_bind, readSelector_eq h, value_bind]
  by_cases hmulti : c.selector = multicallDeadline ∨ c.selector = multicallNoDeadline
  · obtain ⟨hv2, hsingle, hv3⟩ := multicall_not_swap hmulti
    rw [if_neg hv2, if_neg hsingle, if_neg hv3, if_pos hmulti, if_pos hmulti]
  · rw [if_neg hmulti, if_neg hmulti]
    by_cases hv2 : c.selector ∈ v2Selectors
    · rw [if_pos hv2, if_neg (v2_not_v3 hv2).1, if_neg (v2_not_v3 hv2).2, if_pos hv2]
    · rw [if_neg hv2, if_neg hv2]

theorem decodeAnySwap_panicFree (c : Bytes) : PanicFree (decodeAnySwap c) (OffsetsFit c) := by
  by_cases hshort : c.len < 4
  · unfold decodeAnySwap
    rw [noneIf_pos hshort, none_bind]
    exact panicFree_none.congr (iff_of_true trivial (offsetsFit_of_short hshort))
  rw [decodeAnySwap_eq (by omega)]
  by_cases hmulti : c.selector = multicallDeadline ∨ c.selector = multicallNoDeadline
  · rw [if_pos hmulti]
    exact (decodeMulticallSwaps_panicFree c).congr
      (and_iff_right (swapFits_of_multicall hmulti)).symm
  · rw [if_neg hmulti]
    exact (decodeSubCall_panicFree c).congr
      (and_iff_left (multicallFits_of_not hmulti)).symm

/-- **The decoders are free of panics exactly where the offsets fit**: in both builds, whatever
the calldata. -/
theorem decodeAnySwap_ends_iff (c : Bytes) :
    (∀ build, (decodeAnySwap c).Ends build) ↔ OffsetsFit c :=
  (decodeAnySwap_panicFree c).iff

/-- A call of `swapExactTokensForTokens` whose path offset is `2 ^ 64 - 20`. -/
def wrappingCall : Bytes where
  bytes := [0x38, 0xed, 0x17, 0x39] ++ List.replicate 88 0 ++ List.replicate 7 0xff ++ [0xec]
  bound := by decide

/-- On 100 bytes of calldata the sum overflows in the debug build, and wraps to a slice that ends
before it starts in the release build. -/
theorem wrappingCall_panics :
    ¬ (decodeAnySwap wrappingCall).Ends .debug ∧ ¬ (decodeAnySwap wrappingCall).Ends .release := by
  have hdebug : decodeAnySwap wrappingCall .debug = .error .overflow := by rfl
  have hrelease : decodeAnySwap wrappingCall .release = .error .slice := by rfl
  constructor
  · rintro ⟨o, ho⟩
    rw [hdebug] at ho
    cases ho
  · rintro ⟨o, ho⟩
    rw [hrelease] at ho
    cases ho

end ArbBot.Mempool
