import ArbBot.Addresses

/-!
# The pool cache

The cache of pools without concentrated liquidity (`pool_loader.rs`): a CSV file that is appended to
when pools are discovered and loaded at the start. The file is the list of its records, with the
fields as they were written; the first record is the header. A request to the file system that fails
is left out.
-/

namespace ArbBot.PoolLoader

open Lib

/-- The fields of a record. -/
abbrev Record := List Text

/-- The file at a path, if there is one. -/
abbrev CsvFile := Option (List Record)

/-! ## Loading -/

/-- `addr_from_field`. -/
def addrFromField (record : Record) (idx : Nat) : Except Text Address :=
  let s := record[idx]?.getD "0x0000000000000000000000000000000000000000".toList
  match addressFromStr (Text.trim s) with
  | some address => .ok address
  | none =>
    .error ("parsing address field ".toList ++ Text.ofNat idx ++ ": '".toList ++ s ++ "'".toList)

/-- `rec.get(idx).unwrap_or(default).parse().unwrap_or(default)`, for a number below `bound`. -/
def numberField (record : Record) (idx bound default : Nat) : Nat :=
  (Text.parseNat bound (record[idx]?.getD (Text.ofNat default))).getD default

/-- The protocol of a version code. -/
def protocolOfVersion : Nat → PoolProtocol
  | 2 => .uniswapV2
  | 3 => .pancakeSwapV2
  | 4 => .aerodrome
  | 5 => .aerodrome
  | 10 => .balancerV2
  | 11 => .curveTwoCrypto
  | 12 => .curveTriCrypto
  | 13 => .maverickV2
  | _ => .uniswapV2

/-- The pool of a record. -/
def poolOfRecord (record : Record) : Except Text RawPool := do
  let address ← addrFromField record 0
  let version := numberField record 1 (2 ^ 8) 2
  let token0 ← addrFromField record 2
  let token1 ← addrFromField record 3
  let decimals0 := numberField record 4 (2 ^ 8) 18
  let decimals1 := numberField record 5 (2 ^ 8) 18
  let fee := numberField record 6 (2 ^ 32) 30
  pure {
    address := address
    token0 := token0
    token1 := token1
    decimals0 := UInt8.ofNat decimals0
    decimals1 := UInt8.ofNat decimals1
    fee := UInt32.ofNat fee
    tickSpacing := if version = 5 then 1 else 0
    protocol := protocolOfVersion version }

/-- `load_v2_pools_from_csv`. -/
def loadV2PoolsFromCsv : CsvFile → Except Text (List RawPool)
  | none => .ok []
  | some records => (records.drop 1).mapM poolOfRecord

/-! ## Appending -/

/-- The header of a new file. -/
def csvHeader : Record :=
  ["address".toList, "version".toList, "token0".toList, "token1".toList, "decimals0".toList,
    "decimals1".toList, "fee".toList, "block_number".toList, "timestamp".toList, "id".toList]

/-- The version code of a protocol. -/
def versionOfProtocol : PoolProtocol → Nat
  | .aerodrome => 5
  | _ => 2

/-- The record of the pool with index `i` in its batch. -/
def recordOfPool (i : Nat) (p : RawPool) : Record :=
  [formatAddress p.address, Text.ofNat (versionOfProtocol p.protocol), formatAddress p.token0,
    formatAddress p.token1, Text.ofNat p.decimals0.toNat, Text.ofNat p.decimals1.toNat,
    Text.ofNat p.fee.toNat, ['0'], ['0'], Text.ofNat i]

/-- `append_v2_pools_to_csv`. -/
def appendV2PoolsToCsv (file : CsvFile) (pools : List RawPool) : CsvFile :=
  some (file.getD [csvHeader] ++ pools.mapIdx recordOfPool)

end ArbBot.PoolLoader
