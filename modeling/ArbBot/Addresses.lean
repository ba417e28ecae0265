import ArbBot.Lib.Text
import ArbBot.Tracing

/-!
# Addresses as texts

The two conversions of the address type: an address is written with the prefix `0x` and forty digits
in lower case, and read from forty digits of any case, with the prefix or without it.
-/

namespace ArbBot

open Lib

/-- The two digits of a byte, in lower case. -/
def hexByte (byte : UInt8) : Text := [(byte.toNat / 16).digitChar, (byte.toNat % 16).digitChar]

/-- `format!("{:?}", address)`. -/
def formatAddress (address : Address) : Text :=
  '0' :: 'x' :: (Bytes.digits 20 address.toNat).flatMap hexByte

/-- The text without the prefix `0x`. -/
def stripHexPrefix : Text → Text
  | '0' :: 'x' :: digits => digits
  | digits => digits

/-- `Address::from_str`. -/
def addressFromStr (s : Text) : Option Address :=
  match Tracing.hexDecode (stripHexPrefix s) with
  | some bytes => if bytes.length = 20 then some (BitVec.ofNat 160 (Bytes.toNat bytes)) else none
  | none => none

end ArbBot
