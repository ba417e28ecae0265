import ArbBot.Laws.Mempool.Decode
import ArbBot.RouterCalls

/-!
# Reading calldata that was encoded

What the readers of the decoders return where a word, an address or a byte string of an encoded call
stands in the calldata. Whatever stands at a position is inside the slice, so no sum of a position
and a length leaves the word.
-/

namespace ArbBot.Mempool

open Lib (Checked)
open Lib.Checked Lib.Abi RouterCalls

variable {c : Bytes} {pos : Nat}

theorem extract_of_at {part : Lib.Bytes} (h : Lib.Bytes.At c.bytes pos part) {i j : Nat}
    (hj : j ≤ part.length) : (c.extract (pos + i) (pos + j)).bytes = (part.take j).drop i :=
  h.range_eq hj

theorem stop_le_of_at {part : Lib.Bytes} (h : Lib.Bytes.At c.bytes pos part) (hpart : part ≠ []) :
    pos + part.length ≤ c.len := h.stop_le hpart

theorem word_stop_le {w : U256} (h : Lib.Bytes.At c.bytes pos (Lib.Bytes.ofWord w)) :
    pos + 32 ≤ c.len := by
  have hlen := Lib.Bytes.length_ofWord w
  have hstop := stop_le_of_at h (List.ne_nil_of_length_pos (by omega))
  omega

/-- The last bytes of a word are its remainder. -/
theorem drop_ofWord (w : U256) {m n : Nat} (h : m + n = 32) :
    ((Lib.Bytes.ofWord w).take 32).drop m = Lib.Bytes.digits n w.toNat := by
  rw [List.take_of_length_le (by rw [Lib.Bytes.length_ofWord]), Lib.Bytes.ofWord, ← h,
    Lib.Bytes.digits_add, List.drop_left' (Lib.Bytes.length_digits _ _)]

/-- A word is read as its low 64 bits. -/
theorem word_of_at {w : U256} (h : Lib.Bytes.At c.bytes pos (Lib.Bytes.ofWord w)) :
    c.word pos = w.toNat % 2 ^ 64 := by
  have hbytes : ((c.extract pos (pos + 32)).extract 24 32).bytes =
      Lib.Bytes.digits 8 w.toNat := by
    have hwhole := extract_of_at h (i := 0) (j := 32) (by rw [Lib.Bytes.length_ofWord])
    rw [Nat.add_zero, List.drop_zero] at hwhole
    unfold Bytes.extract at hwhole ⊢
    dsimp only at hwhole ⊢
    rw [hwhole, List.take_take, Nat.min_self]
    exact drop_ofWord w rfl
  unfold Bytes.word Bytes.toNat
  rw [hbytes, show (2 : Nat) ^ 64 = 256 ^ 8 by decide]
  exact Lib.Bytes.toNat_digits_mod 8 w.toNat

/-- A number that fits 64 bits is read as it is. -/
theorem word_of_at_nat {n : Nat} (hn : n < 2 ^ 64)
    (h : Lib.Bytes.At c.bytes pos (Lib.Bytes.ofWord (BitVec.ofNat 256 n))) : c.word pos = n := by
  rw [word_of_at h, BitVec.toNat_ofNat]
  omega

/-- A right-aligned address is read back. -/
theorem address_of_at {a : Address}
    (h : Lib.Bytes.At c.bytes pos (Lib.Bytes.ofWord (addressWord a))) :
    BitVec.ofNat 160 (c.extract (pos + 12) (pos + 32)).toNat = a := by
  have hbytes := extract_of_at h (i := 12) (j := 32) (by rw [Lib.Bytes.length_ofWord])
  unfold Bytes.toNat
  rw [hbytes, drop_ofWord _ (show 12 + 20 = 32 by rfl)]
  refine BitVec.eq_of_toNat_eq ?_
  have hdigits := Lib.Bytes.toNat_digits_mod 20 (addressWord a).toNat
  unfold Lib.Bytes.toNat at hdigits
  rw [hdigits, BitVec.toNat_ofNat, addressWord, BitVec.toNat_setWidth]
  have := a.isLt
  omega

/-! ## Calls -/

/-- The selector of a call that stands at the front. -/
theorem selector_of_at {selector : Selector} {args : List Arg}
    (h : Lib.Bytes.At c.bytes 0 (callData selector args)) : c.selector = selector ∧ 4 ≤ c.len := by
  have hfront := h.left
  have hlen := Lib.Bytes.length_digits 4 selector.toNat
  have hstop := stop_le_of_at hfront (List.ne_nil_of_length_pos (by omega))
  refine ⟨?_, by omega⟩
  have hbytes := extract_of_at hfront (i := 0) (j := 4) (by omega)
  unfold Bytes.selector Bytes.toNat
  rw [Nat.zero_add, Nat.zero_add] at hbytes
  rw [hbytes, List.drop_zero, List.take_of_length_le (by omega)]
  refine BitVec.eq_of_toNat_eq ?_
  have hdigits := Lib.Bytes.toNat_digits_mod 4 selector.toNat
  unfold Lib.Bytes.toNat at hdigits
  rw [hdigits, BitVec.toNat_ofNat]
  have := selector.isLt
  omega

/-- The arguments of a call stand behind its selector. -/
theorem args_of_at {selector : Selector} {args : List Arg}
    (h : Lib.Bytes.At c.bytes 0 (callData selector args)) :
    Lib.Bytes.At c.bytes 4 (Lib.Abi.encode args) := by
  have hargs := h.right
  rwa [Lib.Bytes.length_digits] at hargs

/-- The head of a dynamic argument, and its data, in the calldata of a call. -/
theorem dynamic_of_at {selector : Selector} {args : List Arg} {i : Nat} {data : Lib.Bytes}
    (h : Lib.Bytes.At c.bytes 0 (callData selector args)) (harg : args[i]? = some (.dynamic data)) :
    Lib.Bytes.At c.bytes (4 + 32 * i) (Lib.Bytes.ofWord (BitVec.ofNat 256 (offset args i))) ∧
      Lib.Bytes.At c.bytes (4 + offset args i) data :=
  ⟨(args_of_at h).trans (at_offset harg), (args_of_at h).trans (at_data harg)⟩

end ArbBot.Mempool
