import ArbBot.Lib.Abi
import ArbBot.Mempool

/-!
# Router calls as they are sent

The calls of the routers, with the calldata Solidity encodes for them. This is what the decoders of
`mempool.rs` are measured against; nothing here is taken from the decoders but the selectors.
-/

namespace ArbBot.RouterCalls

open Lib Lib.Abi

/-- An address as a word. -/
def addressWord (address : Address) : U256 := address.setWidth 256

/-- A selector, and the arguments behind it. -/
def callData (selector : Mempool.Selector) (args : List Arg) : Bytes :=
  Bytes.digits 4 selector.toNat ++ encode args

/-! ## V2 -/

/-- The swap functions of the V2 routers. -/
inductive V2Call where
  | swapExactTokensForTokens (amountIn amountOutMin : U256) (path : List Address)
    (recipient : Address) (deadline : U256)
  | swapTokensForExactTokens (amountOut amountInMax : U256) (path : List Address)
    (recipient : Address) (deadline : U256)
  | swapExactEthForTokens (amountOutMin : U256) (path : List Address)
    (recipient : Address) (deadline : U256)
  | swapExactTokensForEth (amountIn amountOutMin : U256) (path : List Address)
    (recipient : Address) (deadline : U256)
  | swapExactTokensForTokensFee (amountIn amountOutMin : U256) (path : List Address)
    (recipient : Address) (deadline : U256)
  | swapExactTokensForEthFee (amountIn amountOutMin : U256) (path : List Address)
    (recipient : Address) (deadline : U256)

/-- The tokens of the path. -/
def V2Call.path : V2Call → List Address
  | .swapExactTokensForTokens _ _ path _ _ | .swapTokensForExactTokens _ _ path _ _
  | .swapExactEthForTokens _ path _ _ | .swapExactTokensForEth _ _ path _ _
  | .swapExactTokensForTokensFee _ _ path _ _ | .swapExactTokensForEthFee _ _ path _ _ => path

/-- An `address[]`. -/
def pathArg (path : List Address) : Arg := .dynamic (wordArray (path.map addressWord))

/-- The arguments of a function that takes two amounts before the path. -/
def twoAmounts (amount limit : U256) (path : List Address) (recipient : Address) (deadline : U256) :
    List Arg :=
  [.word amount, .word limit, pathArg path, .word (addressWord recipient), .word deadline]

/-- The selector and the arguments of a call. -/
def V2Call.parts : V2Call → Mempool.Selector × List Arg
  | .swapExactTokensForTokens amountIn amountOutMin path recipient deadline =>
    (Mempool.swapExactTokensForTokens, twoAmounts amountIn amountOutMin path recipient deadline)
  | .swapTokensForExactTokens amountOut amountInMax path recipient deadline =>
    (Mempool.swapTokensForExactTokens, twoAmounts amountOut amountInMax path recipient deadline)
  | .swapExactEthForTokens amountOutMin path recipient deadline =>
    (Mempool.swapExactEthForTokens,
      [.word amountOutMin, pathArg path, .word (addressWord recipient), .word deadline])
  | .swapExactTokensForEth amountIn amountOutMin path recipient deadline =>
    (Mempool.swapExactTokensForEth, twoAmounts amountIn amountOutMin path recipient deadline)
  | .swapExactTokensForTokensFee amountIn amountOutMin path recipient deadline =>
    (Mempool.swapExactTokensForTokensFee, twoAmounts amountIn amountOutMin path recipient deadline)
  | .swapExactTokensForEthFee amountIn amountOutMin path recipient deadline =>
    (Mempool.swapExactTokensForEthFee, twoAmounts amountIn amountOutMin path recipient deadline)

/-- The calldata of a call. -/
def V2Call.encode (call : V2Call) : Bytes := callData call.parts.1 call.parts.2

/-! ## Multicalls -/

/-- The two forms of `multicall`. -/
inductive Multicall where
  | withDeadline (deadline : U256)
  | noDeadline

/-- The calldata of a multicall of the given calls. -/
def Multicall.encode (form : Multicall) (calls : List Bytes) : Bytes :=
  match form with
  | .withDeadline deadline =>
    callData Mempool.multicallDeadline [.word deadline, .dynamic (byteStringArray calls)]
  | .noDeadline => callData Mempool.multicallNoDeadline [.dynamic (byteStringArray calls)]

/-! ## V3 -/

/-- A path of one hop or more: the first token, and for each hop its fee and its next token. -/
structure PackedPath where
  first : Address
  hop : BitVec 24 × Address
  hops : List (BitVec 24 × Address)

/-- The tokens of the path. -/
def PackedPath.tokens (path : PackedPath) : List Address :=
  path.first :: path.hop.2 :: path.hops.map Prod.snd

/-- The packed bytes of a path: 20 for a token, 3 for a fee. -/
def PackedPath.pack (path : PackedPath) : Bytes :=
  Bytes.digits 20 path.first.toNat ++ (path.hop :: path.hops).flatMap fun hop =>
    Bytes.digits 3 hop.1.toNat ++ Bytes.digits 20 hop.2.toNat

/-- The functions that take a packed path. -/
inductive MultiHop where
  | exactInput
  | exactOutput

def MultiHop.selector : MultiHop → Mempool.Selector
  | exactInput => Mempool.exactInput
  | exactOutput => Mempool.exactOutput

/-- The arguments beside the path: for `exactInput` the amount in and the least amount out, for
`exactOutput` the amount out and the largest amount in. -/
structure MultiHopArgs where
  recipient : Address
  deadline : U256
  amount : U256
  limit : U256

/-- The calldata of a call: its one argument is a tuple, dynamic since it holds the path. -/
def MultiHop.encode (function : MultiHop) (path : PackedPath) (args : MultiHopArgs) : Bytes :=
  callData function.selector
    [.dynamic (Abi.encode [.dynamic (byteString path.pack), .word (addressWord args.recipient),
      .word args.deadline, .word args.amount, .word args.limit])]

end ArbBot.RouterCalls
