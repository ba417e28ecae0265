import ArbBot.Addresses
import ArbBot.Lib.SortDedup
import Mathlib.Data.Finset.Dedup

/-!
# The toxic-token file

The file that keeps the blacklisted tokens from one run to the next: `main` seeds it, `start_pipeline`
loads it (`ignition.rs`), and the transaction sender writes it again for every token it blacklists
(`tx_sender_pipeline.rs`). The loader and the writer read it each in its own way: as TOML, and else
line by line. What the TOML library computes is a parameter. The file is its contents, if it can be
read; a request to the file system that fails is left out.
-/

namespace ArbBot.ToxicTokens

open Lib

/-! ## TOML -/

/-- A TOML value, as far as its kind is asked for. -/
inductive TomlValue where
  | string (s : Text)
  | array (items : List TomlValue)
  | table (entries : List (Text × TomlValue))
  | other

namespace TomlValue

/-- `value.get(key)`. -/
def get (key : Text) : TomlValue → Option TomlValue
  | table entries => (entries.find? fun entry => entry.1 = key).map Prod.snd
  | _ => none

/-- `value.as_array()`. -/
def asArray : TomlValue → Option (List TomlValue)
  | array items => some items
  | _ => none

/-- `value.as_str()`. -/
def asStr : TomlValue → Option Text
  | string s => some s
  | _ => none

end TomlValue

/-- The TOML library: its parser, and how it prints an array of strings. -/
structure TomlCrate where
  fromStr : Text → Option TomlValue
  arrayToString : List Text → Text

/-- `value.get("toxic_tokens").get("addresses").as_array()`, of the value the contents parse to. -/
def TomlCrate.items (toml : TomlCrate) (contents : Text) : Option (List TomlValue) := do
  let value ← toml.fromStr contents
  let toxicTokens ← value.get "toxic_tokens".toList
  let addresses ← toxicTokens.get "addresses".toList
  addresses.asArray

/-! ## Reading -/

/-- The lines of a legacy file, without comments. -/
def legacyLines (contents : Text) : List Text :=
  ((Text.lines contents).map Text.trim).filter fun line => line ≠ [] ∧ line.head? ≠ some '#'

/-- The entries the writer goes on with: the strings of the array, or the lines if there are none. -/
def writerEntries (toml : TomlCrate) : Option Text → List Text
  | none => []
  | some contents =>
    let addresses := ((toml.items contents).getD []).filterMap TomlValue.asStr
    if addresses = [] then legacyLines contents else addresses

/-- The entries the loader goes by: the strings of the array, or the lines if there is no array. -/
def loaderEntries (toml : TomlCrate) : Option Text → List Text
  | none => []
  | some contents =>
    match toml.items contents with
    | some items => items.filterMap TomlValue.asStr
    | none => legacyLines contents

/-- The tokens `start_pipeline` loads: the entries that are addresses. -/
def loadToxicTokens (toml : TomlCrate) (toxicTokensPath : String) (file : Option Text) :
    Finset Address :=
  if toxicTokensPath = "" then ∅
  else ((loaderEntries toml file).filterMap addressFromStr).toFinset

/-! ## Writing -/

/-- The file with the entries. -/
def fileBody (toml : TomlCrate) (addresses : List Text) : Text :=
  "[toxic_tokens]\naddresses = ".toList ++ toml.arrayToString addresses ++ "\n".toList

/-- The file `main` writes when there is none. -/
def seedFile : Text := "[toxic_tokens]\naddresses = []\n".toList

/-- The entries with one more, unless it is there up to the case of letters. -/
def addEntry (addresses : List Text) (tokenStr : Text) : List Text :=
  if addresses.any fun a => Text.lower a = Text.lower tokenStr then addresses
  else sortDedup Text.lower (· ≤ ·) (addresses ++ [tokenStr])

/-- `persist_toxic_token_file`. -/
def persistToxicTokenFile (toml : TomlCrate) (toxicTokensPath : String) (file : Option Text)
    (token : Address) : Option Text :=
  if toxicTokensPath = "" then file
  else some (fileBody toml (addEntry (writerEntries toml file) (formatAddress token)))

/-- The check of the simulators: a step of the path names a blacklisted token. -/
def hasToxic (blacklistedTokens : Finset Address) (path : SwapPath) : Bool :=
  path.steps.any fun step =>
    decide (step.tokenIn ∈ blacklistedTokens) || decide (step.tokenOut ∈ blacklistedTokens)

end ArbBot.ToxicTokens
