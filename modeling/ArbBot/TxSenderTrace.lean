import ArbBot.TxSender

/-!
# What a send does on the way

`build_and_send` with the record of what it does: the providers it comes to, the transactions it
signs and those it submits, in order. The record is there also where the call panics.
-/

namespace ArbBot.TxSender

/-- One thing `build_and_send` does. -/
inductive Event where
  | tried (provider : UInt8)
  | signs (tx : TransactionRequest)
  | submits (encoded : List UInt8)

namespace Event

/-- The provider of an event, if it is the try of one. -/
def provider? : Event → Option UInt8
  | tried provider => some provider
  | _ => none

def isSigning : Event → Bool
  | signs _ => true
  | _ => false

def isSubmission : Event → Bool
  | submits _ => true
  | _ => false

end Event

/-- The loop over the providers, with its record. -/
def tryProvidersTraced (keys : Keyring) (c : Config) (a : Answers) (valid : ValidPath) :
    List UInt8 → String → List Event × Option Choice
  | [], lastErr => ([], some (.stop (.error ("preflight eth_call reverted: " ++ lastErr))))
  | provider :: rest, _ =>
    let calldata := encodeCalldataWithProvider valid provider
    if c.dryRun then ([.tried provider], some (.stop (.ok "0x_dry_run")))
    else if a.skipPreflight then ([.tried provider], some (.send calldata))
    else
      match preflightEthCall keys c (a.preflight provider) with
      | none => ([.tried provider], none)
      | some (.ok ()) => ([.tried provider], some (.send calldata))
      | some (.error e) =>
        if isInstantBlacklistError e then
          ([.tried provider],
            some (.stop (.error ("preflight eth_call reverted: INSTANT_BLACKLIST " ++ e))))
        else if rest = [] then
          ([.tried provider], some (.stop (.error ("preflight eth_call reverted: " ++ e))))
        else if c.logInfo ∧ ¬ (String.Pos.Raw.mk (min e.utf8ByteSize 120)).isValid e then
          ([.tried provider], none)
        else
          let (events, choice) := tryProvidersTraced keys c a valid rest e
          (.tried provider :: events, choice)

/-- `build_and_send`, with its record. -/
def buildAndSendTraced (keys : Keyring) (c : Config) (a : Answers) (nonce : UInt64)
    (valid : ValidPath) : List Event × Option Sent :=
  match fees c a.gasStation valid with
  | none => ([], none)
  | some (maxFeePerGas, priorityFee) =>
    match tryProvidersTraced keys c a valid (providers c) "" with
    | (events, none) => (events, none)
    | (events, some (.stop result)) => (events, some ⟨nonce, 0, result⟩)
    | (events, some (.send calldata)) =>
      match importKey keys c with
      | none => (events, none)
      | some (.error e) => (events, some ⟨nonce, 0, .error e⟩)
      | some (.ok _) =>
        let tx := transactionRequest c nonce calldata maxFeePerGas priorityFee
        match a.signing tx with
        | .error e =>
          (events ++ [.signs tx],
            some ⟨nonce + 1, 0, .error ("Transaction signing failed: " ++ e)⟩)
        | .ok encoded =>
          (events ++ [.signs tx, .submits encoded],
            some ⟨nonce + 1, a.submission.accepted.toNat, submitRawTx a.submission⟩)

end ArbBot.TxSender
