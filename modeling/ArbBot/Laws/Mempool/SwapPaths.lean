import ArbBot.Laws.Mempool.Decode

/-!
# The swaps of a transaction

The token paths of the swaps of a transaction, each one apart. The decoder joins the paths of the
sub-calls of a multicall; otherwise it returns just these.
-/

namespace ArbBot.Mempool

open Lib (Checked)
open Lib.Checked

/-! ## The swaps -/

/-- The loop over the sub-calls, with the paths of the swaps kept apart. -/
def readSubCallPaths (calldata : Bytes) (arrStart : Nat) :
    List Nat → List (List Address) → Checked (List (List Address))
  | [], allPaths => pure allPaths
  | i :: is, allPaths => do
    let head ← add arrStart 32
    let skipped ← mul i 32
    let elemOffPos ← add head skipped
    let elemOffStop ← add elemOffPos 32
    if calldata.len < elemOffStop then pure allPaths
    else
      let elemOffset ← calldata.readWord elemOffPos
      let elemStart ← add head elemOffset
      let subDataStart ← add elemStart 32
      if calldata.len < subDataStart then pure allPaths
      else
        let subLen ← calldata.readWord elemStart
        let subDataStop ← add subDataStart subLen
        if calldata.len < subDataStop ∨ subLen < 4 then
          readSubCallPaths calldata arrStart is allPaths
        else
          let subCall ← calldata.slice subDataStart subDataStop
          let selector ← readSelector subCall
          let tokens ← Checked.attempt (decodeSubCall subCall selector)
          readSubCallPaths calldata arrStart is (allPaths ++ tokens.toList)

/-- The start of the array of sub-calls, and their number. -/
def multicallArray (calldata : Bytes) : Checked (Nat × Nat) := do
  noneIf (calldata.len < 4)
  let selector ← readSelector calldata
  let arrayOffsetWord ← Checked.ofOption (arrayOffsetWord selector)
  let offStart := 4 + arrayOffsetWord * 32
  noneIf (calldata.len < offStart + 32)
  let offset ← calldata.readWord offStart
  let arrStart ← add 4 offset
  let head ← add arrStart 32
  noneIf (calldata.len < head)
  let numCalls ← calldata.readWord arrStart
  noneIf (numCalls = 0 ∨ 20 < numCalls)
  pure (arrStart, numCalls)

/-- The token paths of the swaps of a transaction, as they are decoded: that of the call itself, or
those of the sub-calls of a multicall. -/
def swapPaths (calldata : Bytes) : Checked (List (List Address)) := do
  noneIf (calldata.len < 4)
  let selector ← readSelector calldata
  if selector = multicallDeadline ∨ selector = multicallNoDeadline then
    let array ← multicallArray calldata
    readSubCallPaths calldata array.1 (List.range array.2) []
  else
    let tokens ← decodeSubCall calldata selector
    pure [tokens]

/-! ## The path that is decoded -/

theorem readSubCalls_flatten (c : Bytes) (arrStart : Nat) (is : List Nat) :
    ∀ allPaths, readSubCalls c arrStart is allPaths.flatten =
      (readSubCallPaths c arrStart is allPaths >>= fun paths => pure paths.flatten) := by
  induction is with
  | nil => exact fun _ => rfl
  | cons i is ih =>
    intro allPaths
    rw [readSubCalls, readSubCallPaths]
    simp only [assoc_bind, ite_bind, value_bind]
    refine congr_bind fun head => congr_bind fun skipped => congr_bind fun elemOffPos =>
      congr_bind fun elemOffStop => ?_
    refine ite_congr rfl (fun _ => rfl) fun _ => ?_
    refine congr_bind fun elemOffset => congr_bind fun elemStart => congr_bind fun subDataStart => ?_
    refine ite_congr rfl (fun _ => rfl) fun _ => ?_
    refine congr_bind fun subLen => congr_bind fun subDataStop => ?_
    refine ite_congr rfl (fun _ => ih allPaths) fun _ => ?_
    refine congr_bind fun subCall => congr_bind fun selector => congr_bind fun tokens => ?_
    rw [← ih, List.flatten_append]
    cases tokens with
    | none => rfl
    | some tokens => simp

theorem decodeMulticallSwaps_eq (c : Bytes) :
    decodeMulticallSwaps c = (multicallArray c >>= fun array =>
      readSubCallPaths c array.1 (List.range array.2) [] >>= fun paths =>
        if paths.flatten = [] then .none else pure paths.flatten) := by
  unfold decodeMulticallSwaps multicallArray
  simp only [assoc_bind]
  refine congr_bind fun _ => congr_bind fun selector => congr_bind fun word => congr_bind fun _ =>
    congr_bind fun offset => congr_bind fun arrStart => congr_bind fun head => congr_bind fun _ =>
    congr_bind fun numCalls => congr_bind fun _ => ?_
  rw [value_bind]
  have hflatten := readSubCalls_flatten c arrStart (List.range numCalls) []
  rw [List.flatten_nil] at hflatten
  rw [hflatten, assoc_bind]
  rfl

/-! ## No path is empty -/

theorem yields_readPath (c : Bytes) (dataStart : Nat) (is : List Nat) :
    Yields (readPath c dataStart is) fun path => path.length = is.length := by
  induction is with
  | nil => exact yields_pure rfl
  | cons i is ih =>
    rw [readPath]
    refine yields_of_rest fun skipped => yields_of_rest fun wordStart => yields_of_rest fun start =>
      yields_of_rest fun stop => yields_of_rest fun _ => yields_of_rest fun bytes =>
      yields_of_rest fun addr => yields_bind ih fun addrs haddrs => yields_pure ?_
    rw [List.length_cons, List.length_cons, haddrs]

theorem yields_decodeV2SwapPath (c : Bytes) : Yields (decodeV2SwapPath c) (· ≠ []) := by
  unfold decodeV2SwapPath
  refine yields_of_rest fun _ => yields_of_rest fun selector => yields_of_rest fun word =>
    yields_of_rest fun _ => yields_of_rest fun offset => yields_of_rest fun arrayStart =>
    yields_of_rest fun dataStart => yields_of_rest fun _ => yields_of_rest fun pathLen =>
    yields_noneIf fun hlen => yields_of_rest fun dataLen => yields_of_rest fun dataStop =>
    yields_of_rest fun _ => ?_
  intro build path hpath
  have hlength := yields_readPath c dataStart (List.range pathLen) build path hpath
  rw [List.length_range] at hlength
  exact List.ne_nil_of_length_pos (by omega)

theorem yields_decodeV3SingleSwap (c : Bytes) : Yields (decodeV3SingleSwap c) (· ≠ []) := by
  unfold decodeV3SingleSwap
  exact yields_of_rest fun _ => yields_of_rest fun _ => yields_of_rest fun tokenIn =>
    yields_of_rest fun _ => yields_of_rest fun tokenOut => yields_pure (List.cons_ne_nil _ _)

theorem yields_decodeV3MultiSwap (c : Bytes) : Yields (decodeV3MultiSwap c) (· ≠ []) := by
  unfold decodeV3MultiSwap
  refine yields_of_rest fun _ => yields_of_rest fun offset => yields_of_rest fun pathStart =>
    yields_of_rest fun dataStart => yields_of_rest fun _ => yields_of_rest fun pathLen =>
    yields_of_rest fun dataStop => yields_of_rest fun _ => yields_of_rest fun pathData => ?_
  unfold decodeV3PathBytes
  exact yields_of_rest fun _ => yields_of_rest fun _ => yields_of_rest fun _ =>
    yields_of_rest fun first => yields_of_rest fun addrs =>
    yields_ite (fun htwo => yields_pure (List.ne_nil_of_length_pos (by omega))) fun _ => yields_none

theorem yields_decodeSubCall (c : Bytes) (s : Selector) : Yields (decodeSubCall c s) (· ≠ []) :=
  yields_ite (fun _ => yields_decodeV3SingleSwap c) fun _ =>
    yields_ite (fun _ => yields_decodeV3MultiSwap c) fun _ =>
      yields_ite (fun _ => yields_decodeV2SwapPath c) fun _ => yields_none

theorem yields_readSubCallPaths (c : Bytes) (arrStart : Nat) (is : List Nat) :
    ∀ allPaths, (∀ path ∈ allPaths, path ≠ []) →
      Yields (readSubCallPaths c arrStart is allPaths) fun paths => ∀ path ∈ paths, path ≠ [] := by
  induction is with
  | nil => exact fun _ h => yields_pure h
  | cons i is ih =>
    intro allPaths h
    rw [readSubCallPaths]
    refine yields_of_rest fun head => yields_of_rest fun skipped => yields_of_rest fun elemOffPos =>
      yields_of_rest fun elemOffStop => yields_ite (fun _ => yields_pure h) fun _ => ?_
    refine yields_of_rest fun elemOffset => yields_of_rest fun elemStart =>
      yields_of_rest fun subDataStart => yields_ite (fun _ => yields_pure h) fun _ => ?_
    refine yields_of_rest fun subLen => yields_of_rest fun subDataStop =>
      yields_ite (fun _ => ih allPaths h) fun _ => ?_
    refine yields_of_rest fun subCall => yields_of_rest fun selector =>
      yields_bind (yields_attempt (yields_decodeSubCall subCall selector)) fun tokens htokens => ?_
    refine ih _ fun path hpath => ?_
    rcases List.mem_append.mp hpath with hpath | hpath
    · exact h path hpath
    · exact htokens path (Option.mem_toList.mp hpath)

theorem yields_swapPaths (c : Bytes) : Yields (swapPaths c) fun paths => ∀ path ∈ paths, path ≠ [] := by
  unfold swapPaths
  refine yields_of_rest fun _ => yields_of_rest fun selector => yields_ite (fun _ => ?_) fun _ => ?_
  · exact yields_of_rest fun array => yields_readSubCallPaths c array.1 _ [] (by simp)
  · exact yields_bind (yields_decodeSubCall c selector) fun tokens htokens =>
      yields_pure fun path hpath => List.mem_singleton.mp hpath ▸ htokens

/-- The decoder joins the paths of the swaps. -/
theorem decodeAnySwap_of_swapPaths {c : Bytes} {build : Lib.Build} {paths : List (List Address)}
    (h : swapPaths c build = .ok (some paths)) :
    decodeAnySwap c build =
      (if paths.flatten = [] then Checked.none else pure paths.flatten : Checked _) build := by
  by_cases hshort : c.len < 4
  · unfold swapPaths at h
    rw [noneIf_pos hshort, none_bind] at h
    cases h
  rw [decodeAnySwap_eq (by omega)]
  unfold swapPaths at h
  rw [noneIf_neg hshort, value_bind, readSelector_eq (by omega), value_bind] at h
  by_cases hmulti : c.selector = multicallDeadline ∨ c.selector = multicallNoDeadline
  · rw [if_pos hmulti] at h ⊢
    rw [decodeMulticallSwaps_eq, ← assoc_bind]
    change Checked.bind _ _ build = _
    unfold Checked.bind
    rw [h]
  · rw [if_neg hmulti] at h ⊢
    change Checked.bind _ _ build = _ at h
    unfold Checked.bind at h
    cases htokens : decodeSubCall c c.selector build with
    | error e =>
      rw [htokens] at h
      cases h
    | ok o =>
      rw [htokens] at h
      cases o with
      | none => cases h
      | some tokens =>
        obtain rfl : [tokens] = paths := Option.some.inj (Except.ok.inj h)
        have hne := yields_decodeSubCall c c.selector build tokens htokens
        rw [List.flatten_cons, List.flatten_nil, List.append_nil, if_neg hne]
        rfl

end ArbBot.Mempool
