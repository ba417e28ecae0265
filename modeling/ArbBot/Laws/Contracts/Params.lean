import ArbBot.Contracts.Params
import Mathlib.Data.List.Induction

/-!
# Parameters through a loan

The parameters of an arbitrage come back from the lender as the bytes the bot gave it. What decodes
is what was encoded: an array or an offset that is too long does not decode.
-/

namespace ArbBot

open Lib
open Lib.Bytes (ofWords readWord_ofWords)

namespace Abi

variable {words : List U256} {i : Nat}

theorem toNat_word {n : Nat} (h : n < 2 ^ 256) : (BitVec.ofNat 256 n).toNat = n :=
  Nat.mod_eq_of_lt h

theorem readAddress_ofWords {a : Address} (h : words[i]? = some a.toWord) :
    readAddress (ofWords words) (32 * i) = some a := by
  have hsmall : (Address.toWord a).toNat < 2 ^ 160 := by
    rw [Address.toWord, BitVec.toNat_setWidth_of_le (by decide)]
    exact a.isLt
  simp only [readAddress, readWord_ofWords h, Option.bind_eq_bind, Option.bind_some,
    if_pos hsmall, U256.toAddress_toWord]

theorem readUint8_ofWords {v : UInt8} (h : words[i]? = some (BitVec.ofNat 256 v.toNat)) :
    readUint8 (ofWords words) (32 * i) = some v := by
  have hv : v.toNat < 2 ^ 8 := v.toNat_lt
  simp only [readUint8, readWord_ofWords h, Option.bind_eq_bind, Option.bind_some,
    toNat_word (n := v.toNat) (by omega), if_pos hv, UInt8.ofNat_toNat]

theorem readUint32_ofWords {v : UInt32} (h : words[i]? = some (BitVec.ofNat 256 v.toNat)) :
    readUint32 (ofWords words) (32 * i) = some v := by
  have hv : v.toNat < 2 ^ 32 := v.toNat_lt
  simp only [readUint32, readWord_ofWords h, Option.bind_eq_bind, Option.bind_some,
    toNat_word (n := v.toNat) (by omega), if_pos hv, UInt32.ofNat_toNat]

/-- A pool hands the data of a swap back as they are. -/
theorem decodeTokenAmount_encodeTokenAmount (token : Address) (amount : U256) :
    decodeTokenAmount (encodeTokenAmount token amount) = some (token, amount) := by
  have htoken : readAddress (ofWords [token.toWord, amount]) (32 * 0) = some token :=
    readAddress_ofWords rfl
  have hamount : (ofWords [token.toWord, amount]).readWord (32 * 1) = some amount :=
    readWord_ofWords rfl
  simp only [decodeTokenAmount, encodeTokenAmount, Option.bind_eq_bind]
  rw [htoken, Option.bind_some, hamount, Option.bind_some]

/-- An offset that is read leads where it says. -/
theorem readOffset_ofWords {word : U256} {start pos : Nat} (hword : words[i]? = some word)
    (h : readOffset (ofWords words) start (32 * i) = some pos) : pos = start + word.toNat := by
  simp only [readOffset, readWord_ofWords hword, Option.bind_eq_bind, Option.bind_some] at h
  split at h
  · exact (Option.some.inj h).symm
  · cases h

/-- Elements read one by one. -/
theorem mapM_range {α : Type} {f : Nat → Option α} {xs : List α}
    (h : ∀ i x, xs[i]? = some x → f i = some x) : (List.range xs.length).mapM f = some xs := by
  induction xs using List.reverseRecOn with
  | nil => rfl
  | append_singleton xs x ih =>
    have hfirst : (List.range xs.length).mapM f = some xs := by
      refine ih fun i y hy => h i y ?_
      rw [List.getElem?_append_left (List.getElem?_eq_some_iff.mp hy).1, hy]
    have hlast : f xs.length = some x := h _ _ (by simp)
    rw [List.length_append, List.length_singleton, List.range_succ, List.mapM_append, hfirst]
    simp [hlast]

/-- An array is read back from where it stands. -/
theorem readArray_ofWords {α : Type} {read : Bytes → Nat → Option α} {encode : α → U256}
    (hread : ∀ {words : List U256} {i : Nat} {x : α}, words[i]? = some (encode x) →
      read (ofWords words) (32 * i) = some x)
    (before after : List U256) {xs : List α} (hsize : xs.length < 2 ^ 64)
    (hwords : words = before ++ encodeArray encode xs ++ after) {pos : Nat}
    (hpos : pos = 32 * before.length) : readArray read (ofWords words) pos = some xs := by
  subst hwords hpos
  have hword : (before ++ encodeArray encode xs ++ after)[before.length]? =
      some (BitVec.ofNat 256 xs.length) := by
    simp [encodeArray]
  have hlength : (BitVec.ofNat 256 xs.length).toNat = xs.length := toNat_word (by omega)
  simp only [readArray, readWord_ofWords hword, Option.bind_eq_bind, Option.bind_some, hlength]
  rw [if_pos ⟨hsize, by simp [encodeArray]; omega⟩]
  refine mapM_range fun i x hx => ?_
  rw [show 32 * before.length + 32 + 32 * i = 32 * (before.length + 1 + i) by omega]
  apply hread
  rw [List.append_assoc, List.getElem?_append_right (by omega),
    show before.length + 1 + i - before.length = i + 1 by omega]
  simp only [encodeArray, List.cons_append, List.getElem?_cons_succ]
  rw [List.getElem?_append_left (by simpa using (List.getElem?_eq_some_iff.mp hx).1),
    List.getElem?_map, hx, Option.map_some]

end Abi

namespace SwapParams

/-- Arrays of a length that the call itself can carry. -/
structure Fits (arb : SwapParams) : Prop where
  pools : arb.pools.length < 2 ^ 64
  poolVersions : arb.poolVersions.length < 2 ^ 64
  fees : arb.fees.length < 2 ^ 64

/-- The first six words: where the arrays are, and the values. -/
def headWords (arb : SwapParams) : List U256 :=
  [BitVec.ofNat 256 (32 * 6), BitVec.ofNat 256 (32 * (6 + (arb.pools.length + 1))),
    BitVec.ofNat 256 (32 * (6 + (arb.pools.length + 1) + (arb.poolVersions.length + 1))),
    arb.amountIn, arb.startToken.toWord, BitVec.ofNat 256 arb.flashLoanProvider.toNat]

def poolWords (arb : SwapParams) : List U256 := Abi.encodeArray Address.toWord arb.pools

def versionWords (arb : SwapParams) : List U256 :=
  Abi.encodeArray (fun v : UInt8 => BitVec.ofNat 256 v.toNat) arb.poolVersions

def feeWords (arb : SwapParams) : List U256 :=
  Abi.encodeArray (fun f : UInt32 => BitVec.ofNat 256 f.toNat) arb.fees

@[simp] theorem length_headWords (arb : SwapParams) : arb.headWords.length = 6 := rfl

@[simp] theorem length_poolWords (arb : SwapParams) :
    arb.poolWords.length = arb.pools.length + 1 := by
  simp [poolWords, Abi.encodeArray]

@[simp] theorem length_versionWords (arb : SwapParams) :
    arb.versionWords.length = arb.poolVersions.length + 1 := by
  simp [versionWords, Abi.encodeArray]

theorem toWords_eq (arb : SwapParams) :
    arb.toWords = arb.headWords ++ (arb.poolWords ++ (arb.versionWords ++ arb.feeWords)) := by
  simp [toWords, headWords, poolWords, versionWords, feeWords, Abi.encodeArray]

/-- A word of the head, behind other words. -/
theorem getElem?_toWords (arb : SwapParams) (before : List U256) {j : Nat} {word : U256}
    (h : arb.headWords[j]? = some word) :
    (before ++ arb.toWords)[before.length + j]? = some word := by
  have hj := (List.getElem?_eq_some_iff.mp h).1
  rw [List.getElem?_append_right (by omega), Nat.add_sub_cancel_left, toWords_eq,
    List.getElem?_append_left hj, h]

section Arrays

variable {arb : SwapParams} (hfits : arb.Fits) (before : List U256)

include hfits

theorem readArray_pools :
    Abi.readArray Abi.readAddress (ofWords (before ++ arb.toWords)) (32 * (before.length + 6)) =
      some arb.pools := by
  refine Abi.readArray_ofWords Abi.readAddress_ofWords (before ++ arb.headWords)
    (arb.versionWords ++ arb.feeWords) hfits.pools ?_ (by simp)
  simp [toWords_eq, poolWords]

theorem readArray_poolVersions :
    Abi.readArray Abi.readUint8 (ofWords (before ++ arb.toWords))
      (32 * (before.length + (6 + (arb.pools.length + 1)))) = some arb.poolVersions := by
  refine Abi.readArray_ofWords Abi.readUint8_ofWords (before ++ arb.headWords ++ arb.poolWords)
    arb.feeWords hfits.poolVersions ?_ (by simp)
  simp [toWords_eq, versionWords]

theorem readArray_fees :
    Abi.readArray Abi.readUint32 (ofWords (before ++ arb.toWords))
      (32 * (before.length + (6 + (arb.pools.length + 1) + (arb.poolVersions.length + 1)))) =
        some arb.fees := by
  refine Abi.readArray_ofWords Abi.readUint32_ofWords
    (before ++ arb.headWords ++ arb.poolWords ++ arb.versionWords) [] hfits.fees ?_ (by simp; omega)
  simp [toWords_eq, feeWords]

end Arrays

/-- What is read from where the structure stands is the structure. -/
theorem eq_of_read {arb arb' : SwapParams} (hfits : arb.Fits) {before : List U256}
    (h : read (ofWords (before ++ arb.toWords)) (32 * before.length) = some arb') : arb' = arb := by
  have hpools := hfits.pools
  have hversions := hfits.poolVersions
  have hword := @getElem?_toWords arb before
  simp only [read, Option.bind_eq_bind, Option.bind_eq_some_iff] at h
  obtain ⟨p, hp, pools, hreadPools, q, hq, versions, hreadVersions, r, hr, fees, hreadFees,
    amountIn, hamount, startToken, hstart, provider, hprovider, heq⟩ := h
  have hp' := Abi.readOffset_ofWords (hword (j := 0) rfl) hp
  have hq' := Abi.readOffset_ofWords (hword (j := 1) rfl) hq
  have hr' := Abi.readOffset_ofWords (hword (j := 2) rfl) hr
  rw [Abi.toNat_word (by omega)] at hp' hq' hr'
  rw [hp', ← Nat.mul_add, readArray_pools hfits] at hreadPools
  rw [hq', ← Nat.mul_add, readArray_poolVersions hfits] at hreadVersions
  rw [hr', ← Nat.mul_add, readArray_fees hfits] at hreadFees
  have hamount' := readWord_ofWords (hword (j := 3) rfl)
  have hstart' := Abi.readAddress_ofWords (hword (j := 4) rfl)
  have hprovider' := Abi.readUint8_ofWords (hword (j := 5) rfl)
  obtain rfl := Option.some.inj hreadPools
  obtain rfl := Option.some.inj hreadVersions
  obtain rfl := Option.some.inj hreadFees
  obtain rfl := Option.some.inj (hamount.symm.trans hamount')
  obtain rfl := Option.some.inj (hstart.symm.trans hstart')
  obtain rfl := Option.some.inj (hprovider.symm.trans hprovider')
  exact (Option.some.inj heq).symm

/-- The parameters that a loan brings back. -/
theorem eq_of_decode {arb arb' : SwapParams} (hfits : arb.Fits)
    (h : decode arb.encode = some arb') : arb' = arb := by
  simp only [decode, Option.bind_eq_bind, Option.bind_eq_some_iff] at h
  obtain ⟨pos, hpos, hread⟩ := h
  have hfirst : (32 :: arb.toWords)[0]? = some (32 : U256) := rfl
  obtain rfl : pos = 32 * [(32 : U256)].length := Abi.readOffset_ofWords hfirst hpos
  exact eq_of_read hfits hread

/-- The parameters that a pool brings back, with the pool and the start token. -/
theorem eq_of_decodeFlash {arb : SwapParams} {flashPool startToken : Address}
    {out : SwapParams × Address × Address} (hfits : arb.Fits)
    (h : decodeFlash (arb.encodeFlash flashPool startToken) = some out) :
    out = (arb, flashPool, startToken) := by
  let words : List U256 := 96 :: flashPool.toWord :: startToken.toWord :: arb.toWords
  simp only [decodeFlash, Option.bind_eq_bind, Option.bind_eq_some_iff] at h
  obtain ⟨pos, hpos, arb', hread, pool, hpool, token, htoken, heq⟩ := h
  have hfirst : words[0]? = some (96 : U256) := rfl
  have hpool' : Abi.readAddress (ofWords words) (32 * 1) = some flashPool :=
    Abi.readAddress_ofWords rfl
  have htoken' : Abi.readAddress (ofWords words) (32 * 2) = some startToken :=
    Abi.readAddress_ofWords rfl
  obtain rfl : pos = 32 * [96, flashPool.toWord, startToken.toWord].length :=
    Abi.readOffset_ofWords hfirst hpos
  obtain rfl := eq_of_read hfits hread
  obtain rfl := Option.some.inj (hpool.symm.trans hpool')
  obtain rfl := Option.some.inj (htoken.symm.trans htoken')
  exact (Option.some.inj heq).symm

end SwapParams

/-! ## What can be read -/

namespace Abi

theorem readOffset_of_lt {words : List U256} {i : Nat} {word : U256} (start : Nat)
    (hword : words[i]? = some word) (hsmall : word.toNat < 2 ^ 64) :
    readOffset (ofWords words) start (32 * i) = some (start + word.toNat) := by
  simp only [readOffset, readWord_ofWords hword, Option.bind_eq_bind, Option.bind_some,
    if_pos hsmall]

end Abi

namespace SwapParams

/-- Parameters whose arrays are all within reach of an offset. -/
def Short (arb : SwapParams) : Prop :=
  32 * (6 + (arb.pools.length + 1) + (arb.poolVersions.length + 1)) < 2 ^ 64

/-- An offset of the head leads to its array. -/
theorem readOffset_toWords (arb : SwapParams) (before : List U256) {j words : Nat}
    (hword : arb.headWords[j]? = some (BitVec.ofNat 256 (32 * words)))
    (hsmall : 32 * words < 2 ^ 64) :
    Abi.readOffset (ofWords (before ++ arb.toWords)) (32 * before.length)
      (32 * (before.length + j)) = some (32 * (before.length + words)) := by
  have htoNat : (BitVec.ofNat 256 (32 * words)).toNat = 32 * words := Abi.toNat_word (by omega)
  have hread := Abi.readOffset_of_lt (32 * before.length) (getElem?_toWords arb before hword)
    (by rw [htoNat]; exact hsmall)
  rw [hread, htoNat, Nat.mul_add]

/-- Where the structure stands it can be read. -/
theorem read_toWords {arb : SwapParams} (hfits : arb.Fits) (hshort : arb.Short)
    (before : List U256) :
    read (ofWords (before ++ arb.toWords)) (32 * before.length) = some arb := by
  have hword := @getElem?_toWords arb before
  unfold Short at hshort
  have hp := readOffset_toWords arb before (j := 0) rfl (by omega)
  have hq := readOffset_toWords arb before (j := 1) rfl (by omega)
  have hr := readOffset_toWords arb before (j := 2) rfl (by omega)
  have hamount := readWord_ofWords (hword (j := 3) rfl)
  have hstart := Abi.readAddress_ofWords (hword (j := 4) rfl)
  have hprovider := Abi.readUint8_ofWords (hword (j := 5) rfl)
  rw [Nat.mul_add 32 before.length] at hamount hstart hprovider hq hr
  have hbind {α β : Type} {o : Option α} {f : α → Option β} {a : α} {b : β} (ho : o = some a)
      (hf : f a = some b) : o >>= f = some b := Option.bind_eq_some_iff.mpr ⟨a, ho, hf⟩
  exact hbind hp <| hbind (readArray_pools hfits before) <| hbind hq <|
    hbind (readArray_poolVersions hfits before) <| hbind hr <| hbind (readArray_fees hfits before) <|
      hbind hamount <| hbind hstart <| hbind hprovider rfl

/-- What a loan brings back is what was sent. -/
theorem decode_encode {arb : SwapParams} (hfits : arb.Fits) (hshort : arb.Short) :
    decode arb.encode = some arb := by
  have hread := read_toWords hfits hshort [32]
  have hfirst : (32 :: arb.toWords)[0]? = some (32 : U256) := rfl
  have hpos : Abi.readOffset (ofWords (32 :: arb.toWords)) 0 (32 * 0) = some (0 + 32) :=
    Abi.readOffset_of_lt 0 hfirst (by decide)
  simp only [decode, encode, Option.bind_eq_bind]
  rw [show Abi.readOffset (ofWords (32 :: arb.toWords)) 0 0 = some (0 + 32) from hpos,
    Option.bind_some]
  exact hread

theorem decodeFlash_encodeFlash {arb : SwapParams} (hfits : arb.Fits) (hshort : arb.Short)
    (flashPool startToken : Address) :
    decodeFlash (arb.encodeFlash flashPool startToken) = some (arb, flashPool, startToken) := by
  have hread := read_toWords hfits hshort [96, flashPool.toWord, startToken.toWord]
  have hfirst : (96 :: flashPool.toWord :: startToken.toWord :: arb.toWords)[0]? =
    some (96 : U256) := rfl
  have hpos : Abi.readOffset (ofWords (96 :: flashPool.toWord :: startToken.toWord :: arb.toWords)) 0
      (32 * 0) = some (0 + 96) := Abi.readOffset_of_lt 0 hfirst (by decide)
  have hpool : Abi.readAddress (arb.encodeFlash flashPool startToken) (32 * 1) = some flashPool :=
    Abi.readAddress_ofWords rfl
  have htoken : Abi.readAddress (arb.encodeFlash flashPool startToken) (32 * 2) = some startToken :=
    Abi.readAddress_ofWords rfl
  have hread' : read (arb.encodeFlash flashPool startToken) (0 + 96) = some arb := hread
  simp only [decodeFlash, Option.bind_eq_bind]
  rw [show Abi.readOffset (arb.encodeFlash flashPool startToken) 0 0 = some (0 + 96) from hpos,
    Option.bind_some, hread', Option.bind_some,
    show Abi.readAddress (arb.encodeFlash flashPool startToken) 32 = some flashPool from hpool,
    Option.bind_some,
    show Abi.readAddress (arb.encodeFlash flashPool startToken) 64 = some startToken from htoken]
  rfl

end SwapParams

end ArbBot
