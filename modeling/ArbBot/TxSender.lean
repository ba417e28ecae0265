import ArbBot.GasStation
import ArbBot.PipelineEvents
import Mathlib.Data.Finset.Insert
import Mathlib.Data.List.Infix

/-!
# The transaction sender

`TxSenderWorker` of `tx_sender_pipeline.rs`: the nonce counter, the choice of a flash-loan
provider by preflight, signing, submission, and the strike counts behind the two blacklists. The
node, the sequencer, the signer and the clock answer through `Answers`, one record per path
received; what the key library computes is the parameter `Keyring`. A panic of the source is
`none`, and ends the worker.

The sequencer's own view of a submission is part of its answer: a request may fail after the
transaction was taken. The log file of opportunities and the persisted token file are left out.
-/

namespace ArbBot.TxSender

open Lib

/-- The fields of `TxSenderConfig` the worker reads, with the token set it was built with. -/
structure Config where
  botAddress : Address
  signerKey : String
  chainId : UInt64
  maxGasLimit : UInt64
  profitShareBps : UInt64
  minSubmitProfitWei : U256
  maxStaleBlocks : UInt64
  strikeThreshold : UInt32
  dryRun : Bool
  flashLoanProvider : UInt8
  startTokens : Finset Address
  /-- Whether messages of level `info` are formatted. -/
  logInfo : Bool

/-- What the key library computes. Its conversion to a secret key takes 32 bytes. -/
structure Keyring where
  hexDecode : String → Except String (List UInt8)
  fromBytes : List UInt8 → Except String Address

/-- `SecretKey::from_bytes(bytes.into())` and the address of its signer; another length than 32
bytes panics. -/
def Keyring.secretKey (k : Keyring) (bytes : List UInt8) : Option (Except String Address) :=
  if bytes.length = 32 then some (k.fromBytes bytes) else none

/-- The `SwapParams` the bot contract is called with. -/
structure SwapParams where
  quoter : QuoterParams
  flashLoanProvider : UInt8

/-- The transaction that is signed. -/
structure TransactionRequest where
  toAddress : Address
  nonce : UInt64
  gasLimit : UInt64
  chainId : UInt64
  maxFeePerGas : UInt64
  maxPriorityFeePerGas : UInt64
  input : SwapParams

/-! ## Answers -/

/-- The fields read from a JSON-RPC answer, and its text. -/
structure RpcAnswer where
  error : Option String
  result : Option String
  text : String

/-- What became of a request. -/
inductive Reply where
  | requestFailed (e : String)
  | notJson (e : String)
  | answer (a : RpcAnswer)

/-- What became of a submission. The sequencer answers with a transaction hash exactly when it
accepts; when no answer was read it may have done either. -/
inductive Submission where
  | answer (a : RpcAnswer)
  | requestFailed (e : String) (taken : Bool)
  | notJson (e : String) (taken : Bool)

/-- The sequencer accepted the transaction. -/
def Submission.accepted : Submission → Bool
  | .answer a => a.result.isSome
  | .requestFailed _ taken => taken
  | .notJson _ taken => taken

/-- What the surroundings answer while one path is handled. -/
structure Answers where
  /-- The chain head, when more than a second has passed since it was last read. -/
  head : Option (Option UInt64)
  gasStation : GasStation
  skipPreflight : Bool
  /-- The reply to the preflight of each provider's calldata. -/
  preflight : UInt8 → Reply
  signing : TransactionRequest → Except String (List UInt8)
  submission : Submission

/-! ## State -/

/-- The state of the worker. -/
structure Worker where
  nonce : UInt64
  cachedHead : UInt64
  strikeCounts : UInt64 → UInt32
  tokenStrikeCounts : Address → UInt32
  blacklistedPaths : Finset UInt64
  blacklistedTokens : Finset Address

/-- The worker beside the sequencer, which has accepted `accepted` of its transactions. -/
structure State where
  worker : Worker
  accepted : Nat

/-- `seed_nonce_from_rpc`, on the counter's initial value. `count` is the transaction count of the
signer, when the node's address parses and it answers. -/
def seedNonceFromRpc (keys : Keyring) (c : Config) (count : Option UInt64) : Option UInt64 :=
  if c.signerKey = "" then some 0
  else
    match keys.hexDecode c.signerKey with
    | .error _ => some 0
    | .ok bytes =>
      match keys.secretKey bytes with
      | none => none
      | some (.error _) => some 0
      | some (.ok _) => some (count.getD 0)

/-- The state `run` enters its loop in. The blacklists are shared and already filled. -/
def start (keys : Keyring) (c : Config) (count head : Option UInt64) (paths : Finset UInt64)
    (tokens : Finset Address) : Option State :=
  (seedNonceFromRpc keys c count).map fun nonce =>
    ⟨⟨nonce, head.getD 0, fun _ => 0, fun _ => 0, paths, tokens⟩, 0⟩

/-! ## Texts -/

/-- `e.contains(text)`. -/
def Mentions (e text : String) : Prop := text.toList <:+: e.toList

instance (e text : String) : Decidable (Mentions e text) :=
  inferInstanceAs (Decidable (text.toList <:+: e.toList))

/-- `is_instant_blacklist_error`. -/
def isInstantBlacklistError (e : String) : Bool :=
  decide (Mentions e "\"data\":\"0x\"") || decide (Mentions e "5446" ∧ ¬ Mentions e "repay")

/-! ## Sending -/

/-- `preflight_eth_call`, up to the reply. -/
def preflightEthCall (keys : Keyring) (c : Config) (reply : Reply) :
    Option (Except String Unit) :=
  match keys.hexDecode c.signerKey with
  | .error e => some (.error ("preflight: bad key hex: " ++ e))
  | .ok bytes =>
    match keys.secretKey bytes with
    | none => none
    | some (.error e) => some (.error ("preflight: bad key: " ++ e))
    | some (.ok _) => some <|
      match reply with
      | .requestFailed e => .error ("preflight eth_call request failed: " ++ e)
      | .notJson e => .error ("preflight eth_call JSON parse failed: " ++ e)
      | .answer a =>
        match a.error, a.result with
        | some err, _ => .error ("preflight eth_call reverted: " ++ err)
        | none, some result =>
          if "0x08c379a2".toList <+: result.toList then
            .error ("preflight eth_call reverted (Error selector in result): " ++ result)
          else .ok ()
        | none, none => .error ("preflight eth_call: unexpected response: " ++ a.text)

/-- `encode_calldata_with_provider`. -/
def encodeCalldataWithProvider (valid : ValidPath) (provider : UInt8) : SwapParams :=
  ⟨valid.arb.path.toQuoterParams valid.amountIn, provider⟩

/-- How the loop over the providers ends: with a result, or with calldata to build and submit. -/
inductive Choice where
  | stop (result : Except String String)
  | send (calldata : SwapParams)

/-- The loop over the providers. Its message about a fallback cuts the error text after 120 bytes,
which panics inside a character. -/
def tryProviders (keys : Keyring) (c : Config) (a : Answers) (valid : ValidPath) :
    List UInt8 → String → Option Choice
  | [], lastErr => some (.stop (.error ("preflight eth_call reverted: " ++ lastErr)))
  | provider :: rest, _ =>
    let calldata := encodeCalldataWithProvider valid provider
    if c.dryRun then some (.stop (.ok "0x_dry_run"))
    else if a.skipPreflight then some (.send calldata)
    else
      match preflightEthCall keys c (a.preflight provider) with
      | none => none
      | some (.ok ()) => some (.send calldata)
      | some (.error e) =>
        if isInstantBlacklistError e then
          some (.stop (.error ("preflight eth_call reverted: INSTANT_BLACKLIST " ++ e)))
        else if rest = [] then some (.stop (.error ("preflight eth_call reverted: " ++ e)))
        else if c.logInfo ∧ ¬ (String.Pos.Raw.mk (min e.utf8ByteSize 120)).isValid e then none
        else tryProviders keys c a valid rest e

/-- The providers in the order they are tried: the primary one, then Aave. -/
def providers (c : Config) : List UInt8 :=
  if c.flashLoanProvider ≠ 0 then [c.flashLoanProvider, 0] else [0]

/-- The maximum fee and the priority fee per gas of `build_and_send`. -/
def fees (c : Config) (g : GasStation) (valid : ValidPath) : Option (UInt64 × UInt64) := do
  let baseFee ← g.predictNextBaseFee
  let profit := UInt64.ofNat (min valid.netProfit.toNat (2 ^ 64 - 1))
  let bid := g.calcPriorityFee profit valid.arb.gasEstimate c.profitShareBps
  let minEffective : UInt64 := 5000000
  let priorityFee :=
    if saturatingAdd baseFee bid < minEffective then saturatingSub minEffective baseFee else bid
  some (saturatingMul (saturatingAdd baseFee priorityFee) 2, priorityFee)

/-- The checks of `build_raw_tx` before it takes a nonce: a key that can sign. -/
def importKey (keys : Keyring) (c : Config) : Option (Except String Address) :=
  if c.signerKey = "" then
    some (.error "No signer key configured — set signer_key in PipelineConfig")
  else
    match keys.hexDecode c.signerKey with
    | .error e => some (.error ("Invalid signer_key hex: " ++ e))
    | .ok bytes =>
      match keys.secretKey bytes with
      | none => none
      | some (.error e) => some (.error ("Invalid secret key bytes: " ++ e))
      | some (.ok signer) => some (.ok signer)

/-- The EIP-1559 transaction of `build_raw_tx`. -/
def transactionRequest (c : Config) (nonce : UInt64) (calldata : SwapParams)
    (maxFeePerGas maxPriorityFee : UInt64) : TransactionRequest where
  toAddress := c.botAddress
  nonce := nonce
  gasLimit := c.maxGasLimit
  chainId := c.chainId
  maxFeePerGas := maxFeePerGas
  maxPriorityFeePerGas := maxPriorityFee
  input := calldata

/-- The outcome of `build_raw_tx`: the counter it leaves and the encoded transaction. -/
structure Built where
  nonce : UInt64
  encoded : Except String (List UInt8)

/-- `build_raw_tx`. The counter is advanced before the transaction is signed. -/
def buildRawTx (keys : Keyring) (c : Config) (a : Answers) (nonce : UInt64) (calldata : SwapParams)
    (maxFeePerGas maxPriorityFee : UInt64) : Option Built :=
  (importKey keys c).map fun
    | .error e => ⟨nonce, .error e⟩
    | .ok _ =>
      match a.signing (transactionRequest c nonce calldata maxFeePerGas maxPriorityFee) with
      | .error e => ⟨nonce + 1, .error ("Transaction signing failed: " ++ e)⟩
      | .ok encoded => ⟨nonce + 1, .ok encoded⟩

/-- `submit_raw_tx`, as the worker sees it. -/
def submitRawTx : Submission → Except String String
  | .requestFailed e _ => .error ("Sequencer request failed: " ++ e)
  | .notJson e _ => .error ("JSON parse failed: " ++ e)
  | .answer a =>
    match a.result with
    | some result => .ok result
    | none => .error ("eth_sendRawTransaction failed: " ++ a.error.getD "")

/-- The outcome of `build_and_send`: the counter it leaves, the transactions the sequencer
accepted meanwhile, and the result. -/
structure Sent where
  nonce : UInt64
  accepted : Nat
  result : Except String String

/-- `build_and_send`. -/
def buildAndSend (keys : Keyring) (c : Config) (a : Answers) (nonce : UInt64)
    (valid : ValidPath) : Option Sent := do
  let (maxFeePerGas, priorityFee) ← fees c a.gasStation valid
  match ← tryProviders keys c a valid (providers c) "" with
  | .stop result => some ⟨nonce, 0, result⟩
  | .send calldata =>
    let built ← buildRawTx keys c a nonce calldata maxFeePerGas priorityFee
    match built.encoded with
    | .error e => some ⟨built.nonce, 0, .error e⟩
    | .ok _ => some ⟨built.nonce, a.submission.accepted.toNat, submitRawTx a.submission⟩

/-! ## The loop -/

/-- One more strike, or all of them at once. Counts are 32-bit words and wrap. -/
def strike (c : Config) (instant : Bool) (count : UInt32) : UInt32 :=
  if instant then c.strikeThreshold else count + 1

/-- The strike of one token of a failed path. -/
def strikeToken (c : Config) (instant : Bool) (w : Worker) (token : Address) : Worker :=
  if token ∈ c.startTokens then w
  else
    let count := strike c instant (w.tokenStrikeCounts token)
    { w with
      tokenStrikeCounts := fun t => if t = token then count else w.tokenStrikeCounts t
      blacklistedTokens :=
        if c.strikeThreshold ≤ count then insert token w.blacklistedTokens
        else w.blacklistedTokens }

/-- The strike of a failed path and of the tokens of its steps. -/
def strikePath (c : Config) (instant : Bool) (w : Worker) (path : SwapPath) : Worker :=
  let count := strike c instant (w.strikeCounts path.hash)
  let w' : Worker :=
    { w with
      strikeCounts := fun h => if h = path.hash then count else w.strikeCounts h
      blacklistedPaths :=
        if c.strikeThreshold ≤ count then insert path.hash w.blacklistedPaths
        else w.blacklistedPaths }
  (path.steps.flatMap fun step => [step.tokenIn, step.tokenOut]).foldl (strikeToken c instant) w'

/-- What the loop does with the result of a send. The second text of a marginal arb is the first
one in hexadecimal. -/
def recordResult (c : Config) (w : Worker) (valid : ValidPath) : Except String String → Worker
  | .ok _ => w
  | .error e =>
    if Mentions e "preflight eth_call reverted" then
      if Mentions e "repay insufficient" ∨
          Mentions e "726570617920696e73756666696369656e74" then w
      else strikePath c (decide (Mentions e "INSTANT_BLACKLIST")) w valid.arb.path
    else w

/-- The chain head the loop goes by, after a refresh that may not have been due or may fail. -/
def refreshHead (w : Worker) (a : Answers) : Worker :=
  match a.head with
  | some (some head) => { w with cachedHead := head }
  | _ => w

/-- The path is too old to send. The sum wraps as the release build's does. -/
def isStale (c : Config) (w : Worker) (valid : ValidPath) : Prop :=
  0 < w.cachedHead ∧ valid.arb.blockNumber + c.maxStaleBlocks < w.cachedHead

instance (c : Config) (w : Worker) (valid : ValidPath) : Decidable (isStale c w valid) :=
  inferInstanceAs (Decidable (_ ∧ _))

/-- One round of the loop of `run`, for the path received and the answers it meets. -/
def round (keys : Keyring) (c : Config) (s : State) (valid : ValidPath) (a : Answers) :
    Option State :=
  if valid.netProfit < c.minSubmitProfitWei then some s
  else
    let w := refreshHead s.worker a
    if isStale c w valid then some { s with worker := w }
    else
      (buildAndSend keys c a w.nonce valid).map fun sent =>
        { worker := recordResult c { w with nonce := sent.nonce } valid sent.result
          accepted := s.accepted + sent.accepted }

/-- The rounds of the loop as steps, labelled with the path and the answers. -/
def Step (keys : Keyring) (c : Config) (s : State) (i : ValidPath × Answers) (s' : State) : Prop :=
  round keys c s i.1 i.2 = some s'

end ArbBot.TxSender
