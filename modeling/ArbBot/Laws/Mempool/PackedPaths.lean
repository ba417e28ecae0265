import ArbBot.Laws.Mempool.Calldata

/-!
# Packed paths

The decoder of packed bytes takes tokens that stand 23 bytes apart, as those of a packed path do. But
the decoder of the calls that carry one gives it other bytes: the one argument of `exactInput` is a
tuple, and the decoder takes the offset of the tuple for the offset of the path. It finds the tuple's
own first head in the place of the path's length, and the words behind it in the place of the path.
So it returns seven tokens, whatever the path, and these are the path's only where the other
arguments happen to spell them.
-/

namespace ArbBot.Mempool

open Lib (Checked)
open Lib.Checked Lib.Abi RouterCalls

/-! ## Packed bytes -/

/-- The twenty bytes at a position, as an address. -/
def tokenAt (b : Bytes) (pos : Nat) : Address :=
  BitVec.ofNat 160 (b.extract pos (pos + 20)).toNat

/-- The tokens behind the first one, as many as there is room for. -/
theorem readHops_eq {b : Bytes} {rounds : Nat} : ∀ {pos : Nat} {addrs : List Address},
    pos ≤ b.len → (b.len - pos) / 23 ≤ rounds →
      readHops b rounds pos addrs =
        pure (addrs ++ (List.range ((b.len - pos) / 23)).map fun j =>
          tokenAt b (pos + 3 + 23 * j)) := by
  have hlen := b.len_lt
  induction rounds with
  | zero =>
    intro pos addrs hpos hrounds
    rw [readHops, Nat.le_zero.mp hrounds, List.range_zero, List.map_nil, List.append_nil]
  | succ rounds ih =>
    intro pos addrs hpos hrounds
    rw [readHops, add_eq_pure (by omega), value_bind]
    by_cases hhop : pos + 23 ≤ b.len
    · obtain ⟨m, hm⟩ : ∃ m, (b.len - pos) / 23 = m + 1 := ⟨(b.len - pos) / 23 - 1, by omega⟩
      have hrest : (b.len - (pos + 3 + 20)) / 23 = m := by omega
      rw [if_pos hhop, add_eq_pure (by omega), value_bind, add_eq_pure (by omega), value_bind,
        readAddress_eq rfl (by omega), ih (by omega) (by omega), hrest, hm,
        List.range_succ_eq_map, List.map_cons, List.map_map, List.append_assoc,
        List.singleton_append]
      refine congrArg (fun tokens => (pure (addrs ++ tokenAt b (pos + 3) :: tokens) : Checked _)) ?_
      refine List.map_congr_left fun j _ => congrArg (tokenAt b) ?_
      rw [Nat.succ_eq_add_one]
      omega
    · rw [if_neg hhop, show (b.len - pos) / 23 = 0 by omega, List.range_zero, List.map_nil,
        List.append_nil]

/-- The tokens of packed bytes stand 23 bytes apart. -/
theorem decodeV3PathBytes_eq {b : Bytes} (h : 43 ≤ b.len) :
    decodeV3PathBytes b =
      pure ((List.range ((b.len - 20) / 23 + 1)).map fun k => tokenAt b (23 * k)) := by
  unfold decodeV3PathBytes
  rw [noneIf_neg (by omega), value_bind, noneIf_neg (by omega), value_bind,
    readAddress_eq rfl (by omega), readHops_eq (by omega) (by omega), value_bind]
  have htokens : [tokenAt b 0] ++ (List.range ((b.len - 20) / 23)).map (fun j =>
      tokenAt b (20 + 3 + 23 * j)) =
      (List.range ((b.len - 20) / 23 + 1)).map fun k => tokenAt b (23 * k) := by
    rw [List.range_succ_eq_map, List.map_cons, List.map_map, List.singleton_append]
    refine congrArg (List.cons _) (List.map_congr_left fun j _ => congrArg (tokenAt b) ?_)
    rw [Nat.succ_eq_add_one]
    omega
  have htwo : 2 ≤ ([tokenAt b 0] ++ (List.range ((b.len - 20) / 23)).map (fun j =>
      tokenAt b (20 + 3 + 23 * j))).length := by
    rw [List.length_append, List.length_singleton, List.length_map, List.length_range]
    omega
  exact (if_pos htwo).trans (congrArg pure htokens)

/-- A token of a byte string, from the number the string writes. -/
theorem tokenAt_eq {b : Bytes} {pos : Nat} (h : pos + 20 ≤ b.len) :
    tokenAt b pos = BitVec.ofNat 160 (b.toNat / 256 ^ (b.len - (pos + 20))) := by
  unfold tokenAt
  have hrange : (b.extract pos (pos + 20)).toNat =
      b.toNat / 256 ^ (b.len - (pos + 20)) % 256 ^ 20 := Lib.Bytes.toNat_range h
  rw [hrange]
  refine BitVec.eq_of_toNat_eq ?_
  rw [BitVec.toNat_ofNat, BitVec.toNat_ofNat, show (256 : Nat) ^ 20 = 2 ^ 160 by decide,
    Nat.mod_mod]

theorem length_pack (path : PackedPath) : path.pack.length = 20 + 23 * (path.hops.length + 1) := by
  have hhops : ∀ hops : List (BitVec 24 × Address), (hops.flatMap fun hop =>
      Lib.Bytes.digits 3 hop.1.toNat ++ Lib.Bytes.digits 20 hop.2.toNat).length =
        23 * hops.length := by
    intro hops
    induction hops with
    | nil => rfl
    | cons hop hops ih =>
      rw [List.flatMap_cons, List.length_append, List.length_append, Lib.Bytes.length_digits,
        Lib.Bytes.length_digits, ih, List.length_cons]
      omega
  rw [PackedPath.pack, List.length_append, Lib.Bytes.length_digits, hhops, List.length_cons]

/-! ## Calls with a packed path -/

/-- The five words behind the path's offset, read as one number: the other arguments, and the length
of the path. -/
def wordsBehind (path : PackedPath) (args : MultiHopArgs) : Nat :=
  (((args.recipient.toNat * 2 ^ 256 + args.deadline.toNat) * 2 ^ 256 + args.amount.toNat) * 2 ^ 256 +
    args.limit.toNat) * 2 ^ 256 + path.pack.length

/-- The path has seven tokens, and they stand 23 bytes apart in the five words. -/
def Spelled (path : PackedPath) (args : MultiHopArgs) : Prop :=
  path.tokens = (List.range 7).map fun k =>
    BitVec.ofNat 160 (wordsBehind path args / 256 ^ (140 - 23 * k))

instance (path : PackedPath) (args : MultiHopArgs) : Decidable (Spelled path args) :=
  inferInstanceAs (Decidable (_ = _))

/-- The words the tuple holds. -/
def heldWords (path : PackedPath) (args : MultiHopArgs) : List U256 :=
  [addressWord args.recipient, args.deadline, args.amount, args.limit,
    BitVec.ofNat 256 path.pack.length]

theorem encode_tuple (path : PackedPath) (args : MultiHopArgs) :
    ∃ padding, Lib.Abi.encode [.dynamic (byteString path.pack), .word (addressWord args.recipient),
        .word args.deadline, .word args.amount, .word args.limit] =
      Lib.Bytes.ofWord (BitVec.ofNat 256 160) ++
        (Lib.Bytes.ofWords (heldWords path args) ++ (path.pack ++ padding)) := by
  refine ⟨List.replicate ((32 - path.pack.length % 32) % 32) 0, ?_⟩
  simp only [Lib.Abi.encode, heads, tails, byteString, heldWords, Lib.Bytes.ofWords, Arg.tail,
    List.flatMap_cons, List.flatMap_nil, List.append_nil, List.append_assoc, List.length_cons,
    List.length_nil]

theorem toNat_heldWords {path : PackedPath} (args : MultiHopArgs)
    (hlen : path.pack.length < 2 ^ 63) :
    Lib.Bytes.toNat (Lib.Bytes.ofWords (heldWords path args)) = wordsBehind path args := by
  have haddress : (addressWord args.recipient).toNat = args.recipient.toNat := by
    have := args.recipient.isLt
    rw [addressWord, BitVec.toNat_setWidth]
    omega
  have hlength : (BitVec.ofNat 256 path.pack.length).toNat = path.pack.length := by
    rw [BitVec.toNat_ofNat]
    omega
  simp only [heldWords, Lib.Bytes.ofWords, List.flatMap_cons, List.flatMap_nil, List.append_nil,
    Lib.Bytes.toNat_append, List.length_append, Lib.Bytes.length_ofWord, Lib.Bytes.toNat_ofWord,
    haddress, hlength]
  unfold wordsBehind
  simp only [Nat.pow_add, show (256 : Nat) ^ 32 = 2 ^ 256 by decide]
  generalize (2 : Nat) ^ 256 = base
  simp only [Nat.add_mul, Nat.mul_assoc, Nat.add_assoc]

/-- What the decoder returns for a call with a packed path, whatever the path. -/
theorem decodeAnySwap_multiHop {function : MultiHop} {path : PackedPath} {args : MultiHopArgs}
    {c : Bytes} (h : Lib.Bytes.At c.bytes 0 (function.encode path args)) :
    decodeAnySwap c = pure ((List.range 7).map fun k =>
      BitVec.ofNat 160 (wordsBehind path args / 256 ^ (140 - 23 * k))) := by
  have hlen := c.len_lt
  obtain ⟨hselector, hshort⟩ := selector_of_at h
  obtain ⟨hoff, htuple⟩ := dynamic_of_at h (i := 0) rfl
  obtain ⟨padding, hparts⟩ := encode_tuple path args
  rw [hparts] at htuple
  have hfirst := htuple.left
  have hwords := htuple.right
  rw [Lib.Bytes.length_ofWord] at hwords
  have hoffset : ∀ data, offset [Arg.dynamic data] 0 = 32 := fun _ => rfl
  rw [hoffset] at hoff hfirst hwords
  have hoffStop := word_stop_le hoff
  have hfirstStop := word_stop_le hfirst
  have hoffWord := word_of_at_nat (n := 32) (by decide) hoff
  have hfirstWord := word_of_at_nat (n := 160) (by decide) hfirst
  have hlength : (Lib.Bytes.ofWords (heldWords path args)).length = 160 :=
    Lib.Bytes.length_ofWords _
  have hwordsStop := stop_le_of_at hwords.left (List.ne_nil_of_length_pos (by omega))
  rw [hlength] at hwordsStop
  have hpackStop := stop_le_of_at hwords.right.left
    (List.ne_nil_of_length_pos (by rw [length_pack]; omega))
  -- the slice the decoder takes for the path is the words the tuple holds
  have hslice := extract_of_at hwords.left (i := 0) (j := 160) (by omega)
  rw [List.drop_zero, List.take_of_length_le (by omega)] at hslice
  have hslicen : (c.extract 68 228).len = 160 := Bytes.len_extract c (by omega)
  have hnumber : (c.extract 68 228).toNat = wordsBehind path args := by
    refine Eq.trans ?_ (toNat_heldWords args ?_)
    · unfold Bytes.toNat Lib.Bytes.toNat
      rw [show (c.extract 68 228).bytes = Lib.Bytes.ofWords (heldWords path args) from hslice]
    · omega
  have hmulti : function.selector ∈ v3MultiSelectors := by cases function <;> decide
  have hplain : ¬ (c.selector = multicallDeadline ∨ c.selector = multicallNoDeadline) :=
    fun hform => (multicall_not_swap hform).2.2 (hselector ▸ hmulti)
  have hsingle : c.selector ∉ v3SingleSelectors :=
    fun hs => single_not_multi hs (hselector ▸ hmulti)
  rw [decodeAnySwap_eq hshort, if_neg hplain, decodeSubCall, if_neg hsingle,
    if_pos (hselector ▸ hmulti)]
  unfold decodeV3MultiSwap
  rw [noneIf_neg (by omega), value_bind, readWord_eq hoffStop, value_bind, hoffWord,
    add_eq_pure (by omega), value_bind, add_eq_pure (by omega), value_bind,
    noneIf_neg (by omega), value_bind, readWord_eq hfirstStop, value_bind, hfirstWord,
    add_eq_pure (by omega), value_bind, noneIf_neg (by omega), value_bind,
    slice_eq (by omega) (by omega), value_bind]
  change decodeV3PathBytes (c.extract 68 228) = _
  rw [decodeV3PathBytes_eq (by omega), hslicen]
  refine congrArg pure (List.map_congr_left fun k hk => ?_)
  have hk' : k < 7 := List.mem_range.mp hk
  rw [tokenAt_eq (by omega), hslicen, hnumber, show 160 - (23 * k + 20) = 140 - 23 * k by omega]

/-- A path that does not have seven tokens is never read back. -/
theorem not_spelled_of_length {path : PackedPath} {args : MultiHopArgs}
    (h : path.hops.length ≠ 5) : ¬ Spelled path args := by
  intro hspelled
  have hlength := congrArg List.length hspelled
  rw [List.length_map, List.length_range] at hlength
  simp only [PackedPath.tokens, List.length_cons, List.length_map] at hlength
  omega

/-- **Packed paths are read back by accident only.** For both functions with a packed path, every
path, all other arguments and any bytes behind the call: the decoder returns the tokens of the path
just when there are seven of them and the other arguments happen to spell them. -/
theorem decodeAnySwap_multiHop_iff (function : MultiHop) (path : PackedPath) (args : MultiHopArgs)
    (c : Bytes) (trailing : Lib.Bytes) (h : c.bytes = function.encode path args ++ trailing) :
    decodeAnySwap c = pure path.tokens ↔ Spelled path args := by
  rw [decodeAnySwap_multiHop (h ▸ Lib.Bytes.at_zero _ _)]
  exact value_inj.trans eq_comm

/-! ### Samples -/

/-- The other arguments of the samples. -/
def sampleArgs : MultiHopArgs := ⟨0, 0, 0, 0⟩

/-- A single hop between two tokens. -/
def oneHop : PackedPath := ⟨0xAA, (500, 0xBB), []⟩

def oneHopCalldata : Bytes := ⟨MultiHop.exactInput.encode oneHop sampleArgs ++ [], by decide +kernel⟩

/-- The two tokens of a single hop are not returned. -/
theorem oneHop_not_read : decodeAnySwap oneHopCalldata ≠ pure oneHop.tokens := by
  have hat : Lib.Bytes.At oneHopCalldata.bytes 0 (MultiHop.exactInput.encode oneHop sampleArgs) :=
    Lib.Bytes.at_zero _ _
  rw [decodeAnySwap_multiHop hat]
  exact fun heq => absurd (congrArg List.length (value_inj.mp heq)) (by decide)

/-- Six hops from the zero address to itself. -/
def sixHops : PackedPath := ⟨0, (500, 0), List.replicate 5 (500, 0)⟩

def sixHopsCalldata : Bytes :=
  ⟨MultiHop.exactOutput.encode sixHops sampleArgs ++ [], by decide +kernel⟩

theorem sixHops_read : decodeAnySwap sixHopsCalldata = pure sixHops.tokens :=
  (decodeAnySwap_multiHop_iff .exactOutput sixHops sampleArgs sixHopsCalldata [] rfl).mpr
    (by decide +kernel)

end ArbBot.Mempool
