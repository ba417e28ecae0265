import ArbBot.Ignition
import ArbBot.ToxicTokens

/-!
# The transaction sender and its file

The worker of `TxSender` with what it leaves on disk: a token that it blacklists and that was not
blacklisted before goes into the toxic-token file, and at the start the file fills the blacklist. A
round does to the worker what it does there.
-/

namespace ArbBot.TxSender

open Lib ToxicTokens

/-- The toxic-token file: its path, and the library it is read and written with. -/
structure ToxicFile where
  toml : TomlCrate
  path : String

/-- `persist_toxic_token_file`. -/
def ToxicFile.persist (f : ToxicFile) (file : Option Text) (token : Address) : Option Text :=
  persistToxicTokenFile f.toml f.path file token

/-- The state `start_pipeline` starts the worker in: the blacklist of paths is empty, that of tokens
is loaded. -/
def startTxSender (keys : Keyring) (p : Ignition.PipelineConfig) (logInfo : Bool) (f : ToxicFile)
    (file : Option Text) (count head : Option UInt64) : Option State :=
  start keys (Ignition.txSenderConfig p logInfo) count head ∅ (loadToxicTokens f.toml f.path file)

/-- The worker beside its file. -/
structure Filed where
  worker : Worker
  file : Option Text

/-- The strike of one token: `bt.insert(tok)` is true for a new one, and then the file is written. -/
def strikeTokenFiled (f : ToxicFile) (c : Config) (instant : Bool) (s : Filed) (token : Address) :
    Filed :=
  let w := strikeToken c instant s.worker token
  { worker := w
    file :=
      if token ∈ w.blacklistedTokens ∧ token ∉ s.worker.blacklistedTokens then f.persist s.file token
      else s.file }

/-- The strike of a path itself. -/
def strikeHash (c : Config) (instant : Bool) (w : Worker) (hash : UInt64) : Worker :=
  let count := strike c instant (w.strikeCounts hash)
  { w with
    strikeCounts := fun h => if h = hash then count else w.strikeCounts h
    blacklistedPaths :=
      if c.strikeThreshold ≤ count then insert hash w.blacklistedPaths else w.blacklistedPaths }

/-- The strike of a failed path and of the tokens of its steps. -/
def strikePathFiled (f : ToxicFile) (c : Config) (instant : Bool) (s : Filed) (path : SwapPath) :
    Filed :=
  (path.steps.flatMap fun step => [step.tokenIn, step.tokenOut]).foldl (strikeTokenFiled f c instant)
    { s with worker := strikeHash c instant s.worker path.hash }

/-- What the loop does with the result of a send. -/
def recordResultFiled (f : ToxicFile) (c : Config) (s : Filed) (valid : ValidPath) :
    Except String String → Filed
  | .ok _ => s
  | .error e =>
    if Mentions e "preflight eth_call reverted" then
      if Mentions e "repay insufficient" ∨
          Mentions e "726570617920696e73756666696369656e74" then s
      else strikePathFiled f c (decide (Mentions e "INSTANT_BLACKLIST")) s valid.arb.path
    else s

/-- The state of the worker beside the sequencer and the file. -/
structure FiledState where
  state : State
  file : Option Text

/-- One round of the loop of `run`. -/
def roundFiled (f : ToxicFile) (keys : Keyring) (c : Config) (s : FiledState) (valid : ValidPath)
    (a : Answers) : Option FiledState :=
  if valid.netProfit < c.minSubmitProfitWei then some s
  else
    let w := refreshHead s.state.worker a
    if isStale c w valid then some { s with state := { s.state with worker := w } }
    else
      (buildAndSend keys c a w.nonce valid).map fun sent =>
        let filed := recordResultFiled f c ⟨{ w with nonce := sent.nonce }, s.file⟩ valid sent.result
        { state := ⟨filed.worker, s.state.accepted + sent.accepted⟩
          file := filed.file }

/-- The rounds as steps. -/
def StepFiled (f : ToxicFile) (keys : Keyring) (c : Config) (s : FiledState)
    (i : ValidPath × Answers) (s' : FiledState) : Prop :=
  roundFiled f keys c s i.1 i.2 = some s'

end ArbBot.TxSender
