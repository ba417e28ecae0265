import ArbBot.Lib.Bytes
import Mathlib.Data.List.Infix

/-!
# The layout of arguments

Arguments as Solidity lays them out: a head word for each argument, and behind the heads the data of
the dynamic ones, each found through the offset in its head. An offset counts from the first head.
Layouts nest, and so do the statements about them: `At` says that a string stands at a position of
another, and is carried from an inner layout to the outer one by `At.trans`.
-/

namespace Lib

namespace Bytes

/-! ## Strings at positions -/

/-- The string `part` stands at a position. -/
def At (bytes : Bytes) (pos : Nat) (part : Bytes) : Prop := part <+: bytes.drop pos

variable {bytes part part' : Bytes} {pos pos' : Nat}

theorem at_zero (part rest : Bytes) : At (part ++ rest) 0 part := List.prefix_append part rest

theorem At.left (h : At bytes pos (part ++ part')) : At bytes pos part :=
  (List.prefix_append part part').trans h

theorem At.trans (h : At bytes pos part) (h' : At part pos' part') :
    At bytes (pos + pos') part' := by
  unfold At at h h' ⊢
  rw [← List.drop_drop]
  exact h'.trans (h.drop pos')

theorem At.right (h : At bytes pos (part ++ part')) : At bytes (pos + part.length) part' := by
  refine h.trans ?_
  unfold At
  rw [List.drop_left]

theorem At.append (h : At bytes pos part) (rest : Bytes) : At (bytes ++ rest) pos part := by
  have houter : At (bytes ++ rest) 0 bytes := at_zero bytes rest
  rw [← Nat.zero_add pos]
  exact houter.trans h

/-- What stands at a position ends inside the string. -/
theorem At.stop_le (h : At bytes pos part) (hpart : part ≠ []) :
    pos + part.length ≤ bytes.length := by
  have hle := h.length_le
  rw [List.length_drop] at hle
  have hpos := List.length_pos_of_ne_nil hpart
  omega

/-- A range of a string is the range of what stands there. -/
theorem At.range_eq (h : At bytes pos part) {i j : Nat} (hj : j ≤ part.length) :
    (bytes.take (pos + j)).drop (pos + i) = (part.take j).drop i := by
  obtain ⟨rest, hrest⟩ := h
  rw [List.drop_take, List.drop_take, ← List.drop_drop, ← hrest,
    show pos + j - (pos + i) = j - i by omega]
  by_cases hi : i ≤ part.length
  · rw [List.drop_append_of_le_length hi, List.take_append_of_le_length]
    rw [List.length_drop]
    omega
  · rw [show j - i = 0 by omega, List.take_zero, List.take_zero]

end Bytes

namespace Abi

open Bytes

/-- An argument: a word, or data the head points to. -/
inductive Arg where
  | word (word : BitVec 256)
  | dynamic (data : Bytes)

/-- What stands behind the heads. -/
def Arg.tail : Arg → Bytes
  | word _ => []
  | dynamic data => data

/-- The tails of the arguments, one after the other. -/
def tails (args : List Arg) : Bytes := args.flatMap Arg.tail

/-- The head words, when the tails start at the given offset. -/
def heads : Nat → List Arg → Bytes
  | _, [] => []
  | start, .word word :: args => ofWord word ++ heads start args
  | start, .dynamic data :: args =>
    ofWord (BitVec.ofNat 256 start) ++ heads (start + data.length) args

/-- The heads, and the tails behind them. -/
def encode (args : List Arg) : Bytes := heads (32 * args.length) args ++ tails args

/-- The offset of an argument's tail. -/
def offset (args : List Arg) (i : Nat) : Nat := 32 * args.length + (tails (args.take i)).length

/-- An array of words: its length, and the words. -/
def wordArray (words : List (BitVec 256)) : Bytes :=
  ofWord (BitVec.ofNat 256 words.length) ++ ofWords words

/-- A byte string: its length, and its bytes filled up with zeros to whole words. -/
def byteString (data : Bytes) : Bytes :=
  ofWord (BitVec.ofNat 256 data.length) ++
    (data ++ List.replicate ((32 - data.length % 32) % 32) 0)

/-- An array of byte strings: its length, and their layout behind it. -/
def byteStringArray (strings : List Bytes) : Bytes :=
  ofWord (BitVec.ofNat 256 strings.length) ++
    encode (strings.map fun data => .dynamic (byteString data))

/-! ## Where the parts stand -/

variable {args : List Arg} {i : Nat} {data : Bytes}

theorem length_heads (start : Nat) (args : List Arg) :
    (heads start args).length = 32 * args.length := by
  induction args generalizing start with
  | nil => rfl
  | cons arg args ih =>
    cases arg <;>
      rw [heads, List.length_append, length_ofWord, ih, List.length_cons] <;> omega

theorem tails_cons (arg : Arg) (args : List Arg) : tails (arg :: args) = arg.tail ++ tails args :=
  List.flatMap_cons ..

theorem at_heads_cons {first rest : Bytes} (hfirst : first.length = 32)
    (h : At rest (32 * i) data) : At (first ++ rest) (32 * (i + 1)) data := by
  have hrest : At (first ++ rest) (0 + first.length) rest :=
    At.right (List.prefix_rfl : At (first ++ rest) 0 (first ++ rest))
  have htrans := hrest.trans h
  rwa [Nat.zero_add, hfirst, Nat.add_comm, ← Nat.mul_succ] at htrans

theorem at_heads_dynamic (start : Nat) (h : args[i]? = some (.dynamic data)) :
    At (heads start args) (32 * i)
      (ofWord (BitVec.ofNat 256 (start + (tails (args.take i)).length))) := by
  induction args generalizing i start with
  | nil => cases h
  | cons arg args ih =>
    cases i with
    | zero =>
      obtain rfl := Option.some.inj h
      exact at_zero _ _
    | succ i =>
      rw [List.take_succ_cons, tails_cons, List.length_append]
      cases arg with
      | word w =>
        rw [Arg.tail, List.length_nil, Nat.zero_add]
        exact at_heads_cons (length_ofWord _) (ih start h)
      | dynamic d =>
        rw [Arg.tail, ← Nat.add_assoc]
        exact at_heads_cons (length_ofWord _) (ih _ h)

theorem at_tails (h : args[i]? = some (.dynamic data)) :
    At (tails args) (tails (args.take i)).length data := by
  induction args generalizing i with
  | nil => cases h
  | cons arg args ih =>
    cases i with
    | zero =>
      obtain rfl := Option.some.inj h
      rw [tails_cons]
      exact at_zero _ _
    | succ i =>
      rw [List.take_succ_cons, tails_cons, tails_cons, List.length_append]
      have hrest : At (arg.tail ++ tails args) (0 + arg.tail.length) (tails args) :=
        At.right (List.prefix_rfl : At (arg.tail ++ tails args) 0 (arg.tail ++ tails args))
      rw [Nat.zero_add] at hrest
      exact hrest.trans (ih h)

/-- The head of a dynamic argument is its offset. -/
theorem at_offset (h : args[i]? = some (.dynamic data)) :
    At (encode args) (32 * i) (ofWord (BitVec.ofNat 256 (offset args i))) :=
  (at_heads_dynamic _ h).append _

/-- The data of a dynamic argument stands at its offset. -/
theorem at_data (h : args[i]? = some (.dynamic data)) : At (encode args) (offset args i) data := by
  have hrest : At (encode args) (0 + (heads (32 * args.length) args).length) (tails args) :=
    At.right (List.prefix_rfl : At (encode args) 0 (encode args))
  rw [Nat.zero_add, length_heads] at hrest
  exact hrest.trans (at_tails h)

end Abi

end Lib
