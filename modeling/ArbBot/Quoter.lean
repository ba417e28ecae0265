import ArbBot.SwapTypes

/-!
# The input optimiser

`optimize_input_with_db` of `quoter_revm.rs`: exponential probing for a bracket, then a ternary
search inside it. What a run of the quoter contract returns for an amount is the parameter
`quote`. Sums and products of amounts wrap.
-/

namespace ArbBot.Quoter

/-- `if out > amount { out - amount } else { 0 }`. -/
def profitOf (amount out : U256) : U256 := if amount < out then out - amount else 0

/-- `a.min(b)`. -/
def minOf (a b : U256) : U256 := if a ≤ b then a else b

/-- The best amount so far, with its profit and its quote. -/
structure Best where
  input : U256
  profit : U256
  output : U256

/-- What is tried replaces the best when its profit is higher. -/
def Best.improve (best : Best) (amount out : U256) : Best :=
  if best.profit < profitOf amount out then ⟨amount, profitOf amount out, out⟩ else best

/-- The state of the probing phase. -/
structure Probing where
  best : Best
  probe : U256
  lo : U256
  hi : U256
  probesUsed : Nat

/-- The probing phase, with `n` probes left. -/
def probing (quote : U256 → Option U256) (minInput maxInput : U256) : Nat → Probing → Probing
  | 0, s => s
  | n + 1, s =>
    if s.probe ≤ maxInput then
      let out := (quote s.probe).getD 0
      let profit := profitOf s.probe out
      let s' := { s with best := s.best.improve s.probe out, probesUsed := s.probesUsed + 1 }
      if profit < s.best.profit ∧ 0 < s.best.profit then
        { s' with
          hi := s.probe
          lo := if minInput * 2 < s.probe then s.probe / 4 else minInput }
      else if maxInput ≤ s.probe then s'
      else probing quote minInput maxInput n { s' with probe := minOf (s.probe * 2) maxInput }
    else s

/-- The ternary search, with `n` steps left. -/
def refine (quote : U256 → Option U256) : Nat → U256 → U256 → Best → Best
  | 0, _, _, best => best
  | n + 1, lo, hi, best =>
    if hi ≤ lo + 1000 then best
    else
      let mid1 := lo + (hi - lo) / 3
      let mid2 := hi - (hi - lo) / 3
      let out1 := (quote mid1).getD 0
      let out2 := (quote mid2).getD 0
      let best' := (best.improve mid1 out1).improve mid2 out2
      if profitOf mid2 out2 < profitOf mid1 out1 then refine quote n lo mid2 best'
      else refine quote n mid1 hi best'

/-- `optimize_input_with_db`: the amount to send in, and its quote. -/
def optimizeInputWithDb (quote : U256 → Option U256) (minInput maxInput : U256) (steps : Nat) :
    U256 × U256 :=
  let s := probing quote minInput maxInput (steps / 2) ⟨⟨minInput, 0, 0⟩, minInput, minInput,
    maxInput, 0⟩
  if s.best.profit = 0 then (minInput, 0)
  else
    let best := refine quote (steps - s.probesUsed * 2) s.lo (minOf s.hi maxInput) s.best
    (best.input, best.output)

/-! ## What a run goes through -/

/-- The profit at an amount, none where the quote reverts. -/
def gain (quote : U256 → Option U256) (amount : U256) : U256 :=
  profitOf amount ((quote amount).getD 0)

/-- The probe is less profitable than the best one, which ends the probing phase. -/
def Probing.falters (quote : U256 → Option U256) (s : Probing) : Prop :=
  gain quote s.probe < s.best.profit ∧ 0 < s.best.profit

instance (quote : U256 → Option U256) (s : Probing) : Decidable (s.falters quote) :=
  inferInstanceAs (Decidable (_ ∧ _))

/-- The state after a probe that does not end the phase. -/
def Probing.next (quote : U256 → Option U256) (maxInput : U256) (s : Probing) : Probing :=
  { s with
    best := s.best.improve s.probe ((quote s.probe).getD 0)
    probesUsed := s.probesUsed + 1
    probe := minOf (s.probe * 2) maxInput }

/-- The amounts quoted by the probing phase. -/
def probed (quote : U256 → Option U256) (maxInput : U256) : Nat → Probing → List U256
  | 0, _ => []
  | n + 1, s =>
    if s.probe ≤ maxInput then
      s.probe ::
        if s.falters quote ∨ maxInput ≤ s.probe then []
        else probed quote maxInput n (s.next quote maxInput)
    else []

/-- Whether the probing phase ends at a probe less profitable than the best one. -/
def stops (quote : U256 → Option U256) (maxInput : U256) : Nat → Probing → Bool
  | 0, _ => false
  | n + 1, s =>
    if s.probe ≤ maxInput then
      if s.falters quote then true
      else if maxInput ≤ s.probe then false
      else stops quote maxInput n (s.next quote maxInput)
    else false

/-- The two inner thirds of a bracket. -/
def firstThird (lo hi : U256) : U256 := lo + (hi - lo) / 3

def secondThird (lo hi : U256) : U256 := hi - (hi - lo) / 3

/-- The brackets the ternary search holds before each of its iterations. -/
def brackets (quote : U256 → Option U256) : Nat → U256 → U256 → List (U256 × U256)
  | 0, _, _ => []
  | n + 1, lo, hi =>
    if hi ≤ lo + 1000 then []
    else
      (lo, hi) ::
        if gain quote (secondThird lo hi) < gain quote (firstThird lo hi) then
          brackets quote n lo (secondThird lo hi)
        else brackets quote n (firstThird lo hi) hi

/-- The bracket one iteration leaves. -/
def narrow (quote : U256 → Option U256) (bracket : U256 × U256) : U256 × U256 :=
  let mid1 := firstThird bracket.1 bracket.2
  let mid2 := secondThird bracket.1 bracket.2
  if gain quote mid2 < gain quote mid1 then (bracket.1, mid2) else (mid1, bracket.2)

/-- The amounts one iteration quotes. -/
def thirds (bracket : U256 × U256) : List U256 :=
  [firstThird bracket.1 bracket.2, secondThird bracket.1 bracket.2]

/-- The state the optimiser starts from. -/
def start (minInput maxInput : U256) : Probing :=
  ⟨⟨minInput, 0, 0⟩, minInput, minInput, maxInput, 0⟩

/-- The state after the probing phase. -/
def found (quote : U256 → Option U256) (minInput maxInput : U256) (steps : Nat) : Probing :=
  probing quote minInput maxInput (steps / 2) (start minInput maxInput)

/-- The brackets of the ternary search of a whole run. -/
def searched (quote : U256 → Option U256) (minInput maxInput : U256) (steps : Nat) :
    List (U256 × U256) :=
  let s := found quote minInput maxInput steps
  if s.best.profit = 0 then []
  else brackets quote (steps - s.probesUsed * 2) s.lo (minOf s.hi maxInput)

/-- Every amount a run quotes. -/
def quotedAmounts (quote : U256 → Option U256) (minInput maxInput : U256) (steps : Nat) :
    List U256 :=
  probed quote maxInput (steps / 2) (start minInput maxInput) ++
    (searched quote minInput maxInput steps).flatMap thirds

end ArbBot.Quoter
