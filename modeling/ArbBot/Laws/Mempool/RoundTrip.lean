import ArbBot.Laws.Mempool.Calldata

/-!
# V2 swaps read back

The path of a V2 swap is read back from its calldata, whatever the other arguments and whatever
bytes follow, both when the swap is the call itself and when it is the one element of a multicall.
-/

namespace ArbBot.Mempool

open Lib (Checked)
open Lib.Checked Lib.Abi RouterCalls

variable {c : Bytes}

/-! ## The path -/

/-- The words of a path are read from the one with index `k` on. -/
theorem readPath_of_at {path : List Address} {dataStart : Nat}
    (h : Lib.Bytes.At c.bytes dataStart (Lib.Bytes.ofWords (path.map addressWord))) (m : Nat) :
    ∀ k, k + m = path.length →
      readPath c dataStart (List.range' k m) = pure (path.drop k) := by
  have hlen := c.len_lt
  induction m with
  | zero =>
    intro k hk
    rw [List.range'_zero, List.drop_of_length_le (by omega)]
    rfl
  | succ m ih =>
    intro k hk
    have hget : path[k]? = some path[k] := List.getElem?_eq_getElem (by omega)
    -- the word with index `k` stands 32 bytes a word behind the first
    have hword : Lib.Bytes.At c.bytes (dataStart + 32 * k)
        (Lib.Bytes.ofWord (addressWord path[k])) := by
      refine h.trans ?_
      unfold Lib.Bytes.At
      rw [Lib.Bytes.drop_ofWords, ← List.map_drop, List.drop_eq_getElem_cons (by omega),
        List.map_cons]
      exact List.prefix_append _ _
    have hstop := word_stop_le hword
    have haddress := address_of_at hword
    rw [List.range'_succ, readPath, mul_eq_pure (by omega), value_bind, add_eq_pure (by omega),
      value_bind, add_eq_pure (by omega), value_bind, add_eq_pure (by omega), value_bind,
      noneIf_neg (by omega), value_bind, readAddress_eq rfl (by omega)]
    rw [show dataStart + k * 32 + 12 = dataStart + 32 * k + 12 by omega,
      show dataStart + 32 * k + 12 + 20 = dataStart + 32 * k + 32 by omega, haddress,
      ih (k + 1) (by omega), value_bind, ← List.drop_eq_getElem_cons (by omega)]

/-- The path of a swap whose array stands at its offset. -/
theorem decodeV2SwapPath_of_at {w off : Nat} {path : List Address}
    (hselector : pathWordIdx c.selector = some w) (hshort : 4 ≤ c.len)
    (hoff : Lib.Bytes.At c.bytes (4 + 32 * w) (Lib.Bytes.ofWord (BitVec.ofNat 256 off)))
    (hpath : Lib.Bytes.At c.bytes (4 + off) (wordArray (path.map addressWord)))
    (htwo : 2 ≤ path.length) (hten : path.length ≤ 10) :
    decodeV2SwapPath c = pure path := by
  have hlen := c.len_lt
  have hcount := hpath.left
  have hwords := hpath.right
  rw [Lib.Bytes.length_ofWord] at hwords
  rw [List.length_map] at hcount
  have hoffStop := word_stop_le hoff
  have hcountStop := word_stop_le hcount
  have hwordsStop : 4 + off + 32 + 32 * path.length ≤ c.len := by
    have hlength := Lib.Bytes.length_ofWords (path.map addressWord)
    rw [List.length_map] at hlength
    have hstop := stop_le_of_at hwords (List.ne_nil_of_length_pos (by omega))
    omega
  have hoffWord := word_of_at_nat (n := off) (by omega) hoff
  have hcountWord := word_of_at_nat (n := path.length) (by omega) hcount
  unfold decodeV2SwapPath
  rw [noneIf_neg (by omega), value_bind, readSelector_eq hshort, value_bind, hselector]
  change (noneIf (c.len < 4 + w * 32 + 32) >>= _) = _
  rw [show 4 + w * 32 = 4 + 32 * w by omega, noneIf_neg (by omega), value_bind,
    readWord_eq hoffStop, value_bind, hoffWord, add_eq_pure (by omega), value_bind,
    add_eq_pure (by omega), value_bind, noneIf_neg (by omega), value_bind,
    readWord_eq hcountStop, value_bind, hcountWord, noneIf_neg (by omega), value_bind,
    mul_eq_pure (by omega), value_bind, add_eq_pure (by omega), value_bind,
    noneIf_neg (by omega), value_bind, List.range_eq_range',
    readPath_of_at hwords path.length 0 (by omega), List.drop_zero]

/-! ## The call itself -/

theorem mem_v2_of_pathWordIdx {s : Selector} {w : Nat} (h : pathWordIdx s = some w) :
    s ∈ v2Selectors := by
  unfold pathWordIdx at h
  split at h
  · rename_i heth
    subst heth
    decide
  · split at h
    · assumption
    · cases h

/-- Where the offset of the path stands, by function. -/
theorem pathArg_eq (call : V2Call) : ∃ w, pathWordIdx call.parts.1 = some w ∧
    call.parts.2[w]? = some (pathArg call.path) := by
  cases call with
  | swapExactEthForTokens amountOutMin path recipient deadline => exact ⟨1, rfl, rfl⟩
  | swapExactTokensForTokens amountIn amountOutMin path recipient deadline => exact ⟨2, rfl, rfl⟩
  | swapTokensForExactTokens amountOut amountInMax path recipient deadline => exact ⟨2, rfl, rfl⟩
  | swapExactTokensForEth amountIn amountOutMin path recipient deadline => exact ⟨2, rfl, rfl⟩
  | swapExactTokensForTokensFee amountIn amountOutMin path recipient deadline =>
    exact ⟨2, rfl, rfl⟩
  | swapExactTokensForEthFee amountIn amountOutMin path recipient deadline => exact ⟨2, rfl, rfl⟩

/-- A V2 call at the front of the calldata is dispatched to its decoder, which reads the path. -/
theorem decodeSubCall_of_at {call : V2Call} (h : Lib.Bytes.At c.bytes 0 call.encode)
    (htwo : 2 ≤ call.path.length) (hten : call.path.length ≤ 10) :
    4 ≤ c.len ∧ c.selector ∈ v2Selectors ∧ decodeSubCall c c.selector = pure call.path := by
  obtain ⟨w, hw, harg⟩ := pathArg_eq call
  obtain ⟨hselector, hshort⟩ := selector_of_at h
  obtain ⟨hoff, hpath⟩ := dynamic_of_at h harg
  rw [← hselector] at hw
  have hv2 := mem_v2_of_pathWordIdx hw
  refine ⟨hshort, hv2, ?_⟩
  unfold decodeSubCall
  rw [if_neg (v2_not_v3 hv2).1, if_neg (v2_not_v3 hv2).2, if_pos hv2]
  exact decodeV2SwapPath_of_at hw hshort hoff hpath htwo hten

/-! ## Multicalls of one element -/

/-- One sub-call at its offset is sliced out and decoded. -/
theorem readSubCalls_one {arrStart off : Nat} {data : Lib.Bytes} {tokens : List Address}
    (hoff : Lib.Bytes.At c.bytes (arrStart + 32) (Lib.Bytes.ofWord (BitVec.ofNat 256 off)))
    (hdata : Lib.Bytes.At c.bytes (arrStart + 32 + off) (byteString data))
    (hdecode : ∀ sub : Bytes, sub.bytes = data →
      4 ≤ sub.len ∧ decodeSubCall sub sub.selector = pure tokens) :
    readSubCalls c arrStart [0] [] = pure tokens := by
  have hlen := c.len_lt
  have hcount := hdata.left
  have hrest := hdata.right.left
  rw [Lib.Bytes.length_ofWord] at hrest
  have hoffStop := word_stop_le hoff
  have hcountStop := word_stop_le hcount
  -- the slice that is decoded is the data
  have hbytes : (c.extract (arrStart + 32 + off + 32)
      (arrStart + 32 + off + 32 + data.length)).bytes = data := by
    have hrange := extract_of_at hrest (i := 0) (j := data.length) (Nat.le_refl _)
    rwa [Nat.add_zero, List.drop_zero, List.take_length] at hrange
  obtain ⟨hfour, hsub⟩ := hdecode _ hbytes
  have hfour' : 4 ≤ data.length := by
    unfold Bytes.len at hfour
    rwa [hbytes] at hfour
  have hstop : arrStart + 32 + off + 32 + data.length ≤ c.len :=
    stop_le_of_at hrest (List.ne_nil_of_length_pos (by omega))
  have hoffWord := word_of_at_nat (n := off) (by omega) hoff
  have hcountWord := word_of_at_nat (n := data.length) (by omega) hcount
  rw [readSubCalls, add_eq_pure (by omega), value_bind, mul_eq_pure (by omega), value_bind,
    add_eq_pure (by omega), value_bind, add_eq_pure (by omega), value_bind,
    if_neg (by omega), Nat.zero_mul, Nat.add_zero, readWord_eq hoffStop, value_bind, hoffWord,
    add_eq_pure (by omega), value_bind, add_eq_pure (by omega), value_bind, if_neg (by omega),
    readWord_eq hcountStop, value_bind, hcountWord, add_eq_pure (by omega), value_bind,
    if_neg (by omega), slice_eq (by omega) hstop, value_bind, readSelector_eq hfour, value_bind,
    hsub]
  rfl

/-- A multicall of one call that decodes to tokens decodes to the same tokens. -/
theorem decodeMulticallSwaps_one {form : Multicall} {data : Lib.Bytes} {tokens : List Address}
    (h : Lib.Bytes.At c.bytes 0 (form.encode [data])) (htokens : tokens ≠ [])
    (hdecode : ∀ sub : Bytes, sub.bytes = data →
      4 ≤ sub.len ∧ decodeSubCall sub sub.selector = pure tokens) :
    decodeAnySwap c = pure tokens := by
  have hlen := c.len_lt
  -- the two forms differ in the selector and in the word that holds the offset
  obtain ⟨selector, args, w, hcall, hform, hw, harg⟩ : ∃ selector args w,
      Lib.Bytes.At c.bytes 0 (callData selector args) ∧
        (selector = multicallDeadline ∨ selector = multicallNoDeadline) ∧
        arrayOffsetWord selector = some w ∧
        args[w]? = some (.dynamic (byteStringArray [data])) := by
    cases form with
    | withDeadline deadline => exact ⟨_, _, 1, h, .inl rfl, rfl, rfl⟩
    | noDeadline => exact ⟨_, _, 0, h, .inr rfl, rfl, rfl⟩
  obtain ⟨rfl, hshort⟩ := selector_of_at hcall
  obtain ⟨hoff, harray⟩ := dynamic_of_at hcall harg
  have hcount := harray.left
  have helements := harray.right
  rw [Lib.Bytes.length_ofWord] at helements
  have helemOff := helements.trans (at_offset (i := 0) rfl)
  have helemData := helements.trans (at_data (i := 0) rfl)
  rw [Nat.mul_zero, Nat.add_zero] at helemOff
  have hoffStop := word_stop_le hoff
  have hcountStop := word_stop_le hcount
  have hoffWord := word_of_at_nat (n := offset args w) (by omega) hoff
  have hcountWord := word_of_at_nat (n := 1) (by omega) hcount
  rw [decodeAnySwap_eq hshort, if_pos hform]
  unfold decodeMulticallSwaps
  rw [noneIf_neg (by omega), value_bind, readSelector_eq hshort, value_bind, hw]
  change (noneIf (c.len < 4 + w * 32 + 32) >>= _) = _
  rw [show 4 + w * 32 = 4 + 32 * w by omega, noneIf_neg (by omega), value_bind,
    readWord_eq hoffStop, value_bind, hoffWord, add_eq_pure (by omega), value_bind,
    add_eq_pure (by omega), value_bind, noneIf_neg (by omega), value_bind,
    readWord_eq hcountStop, value_bind, hcountWord, noneIf_neg (by omega), value_bind,
    show List.range 1 = [0] from rfl, readSubCalls_one helemOff helemData hdecode,
    value_bind, if_neg htokens]

/-- **V2 swaps read back.** For every call of the six V2 functions with a path of 2 to 10 tokens,
and every calldata that starts with its encoding, the decoder returns the path; and so it does when
the call, with any bytes behind it, is the one element of a multicall of either form. -/
theorem decodeAnySwap_v2 (call : V2Call) (htwo : 2 ≤ call.path.length)
    (hten : call.path.length ≤ 10) (c : Bytes) (trailing : Lib.Bytes) :
    (c.bytes = call.encode ++ trailing → decodeAnySwap c = pure call.path) ∧
      ∀ (form : Multicall) (after : Lib.Bytes),
        c.bytes = form.encode [call.encode ++ after] ++ trailing →
          decodeAnySwap c = pure call.path := by
  constructor
  · intro hbytes
    have hat : Lib.Bytes.At c.bytes 0 call.encode := hbytes ▸ Lib.Bytes.at_zero _ _
    obtain ⟨hshort, hv2, hdecode⟩ := decodeSubCall_of_at hat htwo hten
    have hplain : ¬ (c.selector = multicallDeadline ∨ c.selector = multicallNoDeadline) :=
      fun hmulti => (multicall_not_swap hmulti).1 hv2
    rw [decodeAnySwap_eq hshort, if_neg hplain, hdecode]
  · intro form after hbytes
    have hat : Lib.Bytes.At c.bytes 0 (form.encode [call.encode ++ after]) :=
      hbytes ▸ Lib.Bytes.at_zero _ _
    refine decodeMulticallSwaps_one hat (List.ne_nil_of_length_pos (by omega)) fun sub hsub => ?_
    have hsubAt : Lib.Bytes.At sub.bytes 0 call.encode := hsub ▸ Lib.Bytes.at_zero _ _
    obtain ⟨hfour, -, hdecode⟩ := decodeSubCall_of_at hsubAt htwo hten
    exact ⟨hfour, hdecode⟩

/-! ### A sample -/

/-- Two tokens, swapped for at least 2. -/
def sampleSwap : V2Call := .swapExactTokensForTokens 1 2 [0xAA, 0xBB] 7 9

/-- The swap with one more byte behind it. -/
def sampleCalldata : Bytes := ⟨sampleSwap.encode ++ [0xFF], by decide +kernel⟩

/-- The swap as the element of a multicall. -/
def sampleMulticall : Bytes :=
  ⟨(Multicall.withDeadline 9).encode [sampleSwap.encode ++ []] ++ [], by decide +kernel⟩

theorem decodeAnySwap_v2_sample :
    decodeAnySwap sampleCalldata = pure [0xAA, 0xBB] ∧
      decodeAnySwap sampleMulticall = pure [0xAA, 0xBB] :=
  ⟨(decodeAnySwap_v2 sampleSwap (by decide) (by decide) sampleCalldata [0xFF]).1 rfl,
    (decodeAnySwap_v2 sampleSwap (by decide) (by decide) sampleMulticall []).2
      (.withDeadline 9) [] rfl⟩

end ArbBot.Mempool
