import ArbBot.Addresses

/-!
# Addresses read back

An address that is written is read back, and what is read does not depend on the case of the digits.
-/

namespace ArbBot

open Lib

/-! ## Round trip -/

theorem hexDigit_digitChar : ∀ n < 16, Tracing.hexDigit n.digitChar = some n.toUInt8 := by decide

theorem hexDecode_hexBytes (bytes : Bytes) : Tracing.hexDecode (bytes.flatMap hexByte) = some bytes := by
  induction bytes with
  | nil => rfl
  | cons byte bytes ih =>
    have hbyte := byte.toNat_lt
    rw [List.flatMap_cons]
    change Tracing.hexDecode ((byte.toNat / 16).digitChar :: (byte.toNat % 16).digitChar ::
      bytes.flatMap hexByte) = _
    rw [Tracing.hexDecode, hexDigit_digitChar _ (by omega), hexDigit_digitChar _ (by omega), ih]
    refine congrArg (fun b => some (b :: bytes)) (UInt8.toNat_inj.mp ?_)
    simp only [UInt8.toNat_add, UInt8.toNat_mul, Nat.toUInt8, UInt8.toNat_ofNat',
      show (16 : UInt8).toNat = 16 from rfl]
    omega

/-- **An address is read back.** -/
theorem addressFromStr_format (a : Address) : addressFromStr (formatAddress a) = some a := by
  have hbytes := hexDecode_hexBytes (Bytes.digits 20 a.toNat)
  rw [addressFromStr, formatAddress, stripHexPrefix, hbytes]
  dsimp only
  rw [if_pos (Bytes.length_digits 20 a.toNat), Bytes.toNat_digits (by have := a.isLt; omega),
    BitVec.ofNat_toNat, BitVec.setWidth_eq]

theorem formatAddress_injective {a b : Address} (h : formatAddress a = formatAddress b) : a = b :=
  Option.some.inj ((addressFromStr_format a).symm.trans ((congrArg _ h).trans
    (addressFromStr_format b)))

/-- The characters of an address. -/
theorem mem_formatAddress {a : Address} {c : Char} (h : c ∈ formatAddress a) :
    c = 'x' ∨ ∃ n < 16, c = Nat.digitChar n := by
  rcases List.mem_cons.mp h with rfl | h
  · exact .inr ⟨0, by decide, rfl⟩
  rcases List.mem_cons.mp h with rfl | h
  · exact .inl rfl
  obtain ⟨byte, -, hc⟩ := List.mem_flatMap.mp h
  have hbyte := byte.toNat_lt
  rcases List.mem_cons.mp hc with rfl | hc
  · exact .inr ⟨_, by omega, rfl⟩
  · exact .inr ⟨byte.toNat % 16, by omega, List.mem_singleton.mp hc⟩

theorem trim_formatAddress (a : Address) : Text.trim (formatAddress a) = formatAddress a := by
  have hdigits : ∀ n < 16, Text.isWhitespace (Nat.digitChar n) = false := by decide
  refine Text.trim_eq_self fun c hc => ?_
  rcases mem_formatAddress hc with rfl | ⟨n, hn, rfl⟩
  · decide
  · exact hdigits n hn

/-! ## Case -/

/-- An address has no capital letters. -/
theorem lower_formatAddress (a : Address) : Text.lower (formatAddress a) = formatAddress a := by
  have hdigits : ∀ n < 16, Text.lowerChar (Nat.digitChar n) = Nat.digitChar n := by decide
  refine (List.map_congr_left fun c hc => ?_).trans (List.map_id _)
  rcases mem_formatAddress hc with rfl | ⟨n, hn, rfl⟩
  · decide
  · exact hdigits n hn

end ArbBot
