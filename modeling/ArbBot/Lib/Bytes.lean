import Mathlib.Algebra.Group.Nat.Defs
import Mathlib.Data.List.Induction
import Mathlib.Tactic.Basic

/-!
# Byte strings as 32-byte words

Big-endian 256-bit words laid out one after the other. A read past the end yields zero bytes, as
calldata does; a checked read needs the whole word in range. What was written is read back.
-/

namespace Lib

abbrev Bytes := List UInt8

namespace Bytes

/-- The number a byte string writes, the highest byte first. -/
def toNat (bytes : Bytes) : Nat := bytes.foldl (fun n byte => n * 256 + byte.toNat) 0

/-- The last `n` base-256 digits of a number, the highest first. -/
def digits : Nat → Nat → Bytes
  | 0, _ => []
  | n + 1, value => digits n (value / 256) ++ [UInt8.ofNat value]

/-- The 32 bytes of a word. -/
def ofWord (word : BitVec 256) : Bytes := digits 32 word.toNat

/-- Words one after the other. -/
def ofWords (words : List (BitVec 256)) : Bytes := words.flatMap ofWord

/-- The word at a position; past the end of the string there are zero bytes. -/
def wordAt (bytes : Bytes) (pos : Nat) : BitVec 256 :=
  BitVec.ofNat 256 (toNat ((bytes.drop pos ++ List.replicate 32 0).take 32))

/-- The word at a position, when it is in range. -/
def readWord (bytes : Bytes) (pos : Nat) : Option (BitVec 256) :=
  if pos + 32 ≤ bytes.length then some (bytes.wordAt pos) else none

@[simp] theorem length_digits (n value : Nat) : (digits n value).length = n := by
  induction n generalizing value with
  | zero => rfl
  | succ n ih => simp [digits, ih]

theorem toNat_digits {n value : Nat} (h : value < 256 ^ n) : toNat (digits n value) = value := by
  induction n generalizing value with
  | zero =>
    obtain rfl : value = 0 := by simpa using h
    rfl
  | succ n ih =>
    have hdiv : value / 256 < 256 ^ n := by
      rw [Nat.div_lt_iff_lt_mul (by decide), ← Nat.pow_succ]
      exact h
    have hhead := ih hdiv
    unfold toNat at hhead ⊢
    rw [digits, List.foldl_append, hhead]
    simp only [List.foldl_cons, List.foldl_nil, UInt8.toNat_ofNat']
    omega

/-- The last digits of a number are its remainder. -/
theorem toNat_digits_mod (n value : Nat) : toNat (digits n value) = value % 256 ^ n := by
  induction n generalizing value with
  | zero => exact (Nat.mod_one value).symm
  | succ n ih =>
    have hhead := ih (value / 256)
    unfold toNat at hhead ⊢
    rw [digits, List.foldl_append, hhead, Nat.pow_succ', Nat.mod_mul]
    simp only [List.foldl_cons, List.foldl_nil, UInt8.toNat_ofNat']
    omega

/-- Digits split at any place. -/
theorem digits_add (m n value : Nat) :
    digits (m + n) value = digits m (value / 256 ^ n) ++ digits n value := by
  induction n generalizing value with
  | zero => rw [Nat.pow_zero, Nat.div_one, digits, List.append_nil, Nat.add_zero]
  | succ n ih =>
    rw [← Nat.add_assoc, digits, ih, digits, Nat.div_div_eq_div_mul, ← Nat.pow_succ',
      List.append_assoc]

theorem toNat_append (bytes rest : Bytes) :
    toNat (bytes ++ rest) = toNat bytes * 256 ^ rest.length + toNat rest := by
  induction rest using List.reverseRecOn with
  | nil => rw [List.append_nil, List.length_nil, Nat.pow_zero, Nat.mul_one, toNat, toNat,
      List.foldl_nil, Nat.add_zero]
  | append_singleton rest byte ih =>
    have hlast : ∀ b : Bytes, toNat (b ++ [byte]) = toNat b * 256 + byte.toNat := fun b => by
      rw [toNat, List.foldl_append, List.foldl_cons, List.foldl_nil, toNat]
    rw [← List.append_assoc, hlast, hlast, ih, List.length_append, List.length_singleton,
      Nat.pow_succ, Nat.add_mul, Nat.mul_assoc, Nat.add_assoc]

/-- A byte string is the digits of its number. -/
theorem digits_toNat (bytes : Bytes) : digits bytes.length (toNat bytes) = bytes := by
  induction bytes using List.reverseRecOn with
  | nil => rfl
  | append_singleton bytes byte ih =>
    have hbyte := byte.toNat_lt
    have hvalue : toNat (bytes ++ [byte]) = toNat bytes * 256 + byte.toNat := by
      rw [toNat, List.foldl_append, List.foldl_cons, List.foldl_nil, toNat]
    rw [List.length_append, List.length_singleton, digits, hvalue,
      show (toNat bytes * 256 + byte.toNat) / 256 = toNat bytes by omega, ih]
    refine congrArg (fun b => bytes ++ [b]) (UInt8.toNat_inj.mp ?_)
    rw [UInt8.toNat_ofNat']
    omega

/-- The number of a range of a string. -/
theorem toNat_range {bytes : Bytes} {pos n : Nat} (h : pos + n ≤ bytes.length) :
    toNat ((bytes.take (pos + n)).drop pos) =
      toNat bytes / 256 ^ (bytes.length - (pos + n)) % 256 ^ n := by
  have hsplit := digits_add (pos + n) (bytes.length - (pos + n)) (toNat bytes)
  rw [Nat.add_sub_cancel' h, digits_toNat, digits_add pos n] at hsplit
  have hrange : (bytes.take (pos + n)).drop pos =
      digits n (toNat bytes / 256 ^ (bytes.length - (pos + n))) := by
    refine (congrArg (fun b : Bytes => (b.take (pos + n)).drop pos) hsplit).trans ?_
    rw [List.take_left' (by simp), List.drop_left' (length_digits _ _)]
  rw [hrange, toNat_digits_mod]

@[simp] theorem length_ofWord (word : BitVec 256) : (ofWord word).length = 32 :=
  length_digits _ _

theorem toNat_ofWord (word : BitVec 256) : toNat (ofWord word) = word.toNat :=
  toNat_digits (lt_of_lt_of_eq word.isLt (by decide))

@[simp] theorem length_ofWords (words : List (BitVec 256)) :
    (ofWords words).length = 32 * words.length := by
  induction words with
  | nil => rfl
  | cons word words ih =>
    rw [ofWords, List.flatMap_cons, List.length_append, length_ofWord, ← ofWords, ih,
      List.length_cons]
    omega

theorem drop_ofWords (words : List (BitVec 256)) (i : Nat) :
    (ofWords words).drop (32 * i) = ofWords (words.drop i) := by
  induction i generalizing words with
  | zero => rfl
  | succ i ih =>
    cases words with
    | nil => simp [ofWords]
    | cons word words =>
      rw [ofWords, List.flatMap_cons, ← ofWords, List.drop_append, length_ofWord,
        List.drop_of_length_le (by rw [length_ofWord]; omega), List.nil_append,
        show 32 * (i + 1) - 32 = 32 * i by omega, ih, List.drop_succ_cons]

/-- What was written is read back. -/
theorem wordAt_ofWords {words : List (BitVec 256)} {i : Nat} {word : BitVec 256}
    (h : words[i]? = some word) : (ofWords words).wordAt (32 * i) = word := by
  obtain ⟨hi, rfl⟩ := List.getElem?_eq_some_iff.mp h
  rw [wordAt, drop_ofWords, List.drop_eq_getElem_cons hi, ofWords, List.flatMap_cons,
    List.append_assoc, List.take_append_of_le_length (by simp),
    List.take_of_length_le (by simp), toNat_ofWord, BitVec.ofNat_toNat, BitVec.setWidth_eq]

theorem readWord_ofWords {words : List (BitVec 256)} {i : Nat} {word : BitVec 256}
    (h : words[i]? = some word) : (ofWords words).readWord (32 * i) = some word := by
  have hi : i < words.length := (List.getElem?_eq_some_iff.mp h).1
  rw [readWord, if_pos (by rw [length_ofWords]; omega), wordAt_ofWords h]

end Bytes

end Lib
