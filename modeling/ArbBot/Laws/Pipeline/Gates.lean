import ArbBot.Laws.Pipeline.Accounting
import ArbBot.Laws.TxSender.PathStrikes

/-!
# After a path is turned down

The blacklists and the newest block only grow, so what one of these checks turns down it turns down
from then on. A simulator that is past the check does not come back to it. So from the moment on at
which a kind of path is turned down, the sender takes no more of them than are queued for it and
than there are simulators past the check with one in hand (`taken_le_of_turnedDown`). The check of
the chain head is another matter: a node may report an older head than before.
-/

namespace ArbBot

open Lib

/-! ## What only grows -/

/-- A round adds to the blacklists and takes nothing away. -/
theorem TxSender.blacklists_grow {keys : Keyring} {c : Config} {s t : State}
    {i : ValidPath × Answers} (hstep : Step keys c s i t) :
    s.worker.blacklistedPaths ⊆ t.worker.blacklistedPaths ∧
      s.worker.blacklistedTokens ⊆ t.worker.blacklistedTokens := by
  obtain ⟨nonce, head, hquiet | ⟨send, -, -, hworker⟩⟩ := step_sendOf hstep
  · rw [hquiet.2]
    exact ⟨Finset.Subset.refl _, Finset.Subset.refl _⟩
  · rw [hworker]
    by_cases hcounted : Counted send.result
    · rw [recordResult_of_counted hcounted]
      constructor
      · intro h hold
        exact strikePath_mem.mpr (.inl hold)
      · intro token hold
        exact strikeTokens_mem_mono hold
    · rw [recordResult_of_not_counted hcounted]
      exact ⟨Finset.Subset.refl _, Finset.Subset.refl _⟩

/-- The searcher raises the newest block and never lowers it. -/
theorem Searcher.sharedLatestBlock_mono {s : Searcher} {quote : V3Quote} {w w' : Loop} {i : Label}
    (hstep : LoopStep s quote w i w') : w.sharedLatestBlock ≤ w'.sharedLatestBlock := by
  cases hstep with
  | work hwork =>
    cases hwork with
    | preDrainEnd => exact le_max_word _ _
    | _ => exact UInt64.le_refl _
  | _ => exact UInt64.le_refl _

namespace Pipeline

variable {n : Nat} {p : Setup} {s t : System n}

/-- What the checks of age and of the blacklists go by, apart from the chain head. -/
structure Stricter (s t : System n) : Prop where
  latest : s.loop.sharedLatestBlock ≤ t.loop.sharedLatestBlock
  paths : s.sender.worker.blacklistedPaths ⊆ t.sender.worker.blacklistedPaths
  tokens : s.sender.worker.blacklistedTokens ⊆ t.sender.worker.blacklistedTokens

theorem Stricter.of_eq (hlatest : s.loop.sharedLatestBlock ≤ t.loop.sharedLatestBlock)
    (hworker : t.sender = s.sender) : Stricter s t := by
  refine ⟨hlatest, ?_, ?_⟩ <;> rw [hworker]

theorem Stricter.step {i : Label n} (hstep : Step p s i t) : Stricter s t := by
  cases hstep with
  | search _ hloop => exact .of_eq (Searcher.sharedLatestBlock_mono hloop) rfl
  | simulate hsim =>
    cases hsim with
    | observe => exact .of_eq (le_max_word _ _) rfl
    | _ => exact .of_eq (UInt64.le_refl _) rfl
  | send hsend =>
    cases hsend with
    | handle _ _ hround =>
      obtain ⟨hpaths, htokens⟩ := TxSender.blacklists_grow hround
      exact ⟨UInt64.le_refl _, hpaths, htokens⟩
    | _ => exact .of_eq (UInt64.le_refl _) rfl
  | _ => exact .of_eq (UInt64.le_refl _) rfl

/-- Every simulator's check turns every such path down. -/
def TurnedDown (p : Setup) (check : Check) (P : ArbPath → Prop) (s : System n) : Prop :=
  ∀ arb, P arb → ∀ k, TurnsDown p s k arb check

theorem TurnedDown.mono {check : Check} {P : ArbPath → Prop} (hhead : check ≠ .head)
    (h : TurnedDown p check P s) (hst : Stricter s t) : TurnedDown p check P t := by
  intro arb harb k
  have hs := h arb harb k
  cases check with
  | head => exact absurd rfl hhead
  | latest => exact UInt64.lt_of_lt_of_le hs hst.latest
  | paths => exact hst.paths hs
  | tokens =>
    obtain ⟨step, hmem, hstep⟩ := hs
    exact ⟨step, hmem, hstep.imp (fun h => hst.tokens h) fun h => hst.tokens h⟩

/-! ## Past a check -/

/-- The place of a check in their order. -/
def Check.rank : Check → Nat
  | head => 0
  | latest => 1
  | paths => 2
  | tokens => 3

/-- The path of a simulator that is past the check. -/
def Pc.past? (check : Check) : Pc → Option ArbPath
  | waiting | received _ | stopped => none
  | checking next arb => if check.rank < next.rank then some arb else none
  | checked arb | simulating arb _ | optimized arb _ _ => some arb
  | sending valid => some valid.arb

section

variable (check : Check) (P : ArbPath → Prop) [DecidablePred P]

/-- One for a simulator that is past the check with such a path in hand. -/
def Pc.leak (pc : Pc) : Nat := (pc.past? check).toList.countP fun arb => P arb

/-- Such paths among what the simulators found. -/
def countOf (valids : List ValidPath) : Nat := valids.countP fun valid => P valid.arb

/-- Such paths past the check: with the simulators, queued for the sender, or taken by it. -/
def System.exposed (s : System n) : Nat :=
  countOf P s.taken + countOf P s.valids + s.load (Pc.leak check P)

end

section

variable {check : Check} {P : ArbPath → Prop} [DecidablePred P]

theorem countOf_append (valids valids' : List ValidPath) :
    countOf P (valids ++ valids') = countOf P valids + countOf P valids' :=
  List.countP_append

theorem Pc.leak_le_one (pc : Pc) : pc.leak check P ≤ 1 := by
  refine (List.countP_le_length).trans ?_
  cases pc.past? check <;> simp

theorem Pc.leak_of_past_eq {pc pc' : Pc} (h : pc'.past? check = pc.past? check) :
    pc'.leak check P = pc.leak check P := by
  unfold Pc.leak
  rw [h]

/-- A path that passes a check is past this one only if it was before, or is not of the kind. -/
theorem Check.leak_pass {arb : ArbPath} {next : Check} (hdown : next = check → ¬ P arb) :
    (next.pass arb).leak check P ≤ (Pc.checking next arb).leak check P := by
  by_cases heq : next = check
  · subst heq
    have hnot := hdown rfl
    cases next <;> simp [Check.pass, Pc.leak, Pc.past?, Check.rank, hnot]
  · refine le_of_eq (Pc.leak_of_past_eq ?_)
    cases check <;> cases next <;> first | exact absurd rfl heq | rfl

/-- A step of one simulator that takes no path past the check, and leaves the sender alone. -/
theorem exposed_le_of_leak {k : Fin n} {w : SimWorker}
    (hworkers : t.workers = Function.update s.workers k w)
    (hleak : w.pc.leak check P ≤ (s.workers k).pc.leak check P) (htaken : t.taken = s.taken)
    (hvalids : t.valids = s.valids) : t.exposed check P ≤ s.exposed check P := by
  obtain ⟨rest, hs, ht⟩ := load_update (Pc.leak check P) s k
  unfold System.exposed
  rw [ht t w hworkers, hs, htaken, hvalids]
  omega

theorem exposed_of_same (hworkers : t.workers = s.workers) (htaken : t.taken = s.taken)
    (hvalids : t.valids = s.valids) : t.exposed check P = s.exposed check P := by
  unfold System.exposed System.load
  rw [hworkers, htaken, hvalids]

/-- While such paths are turned down, no step of a simulator takes one past the check. -/
theorem exposed_simStep {k : Fin n} (hdown : TurnedDown p check P s) (hstep : SimStep p s k t) :
    t.exposed check P ≤ s.exposed check P := by
  cases hstep with
  | recv => exact exposed_le_of_leak rfl (Nat.zero_le _) rfl rfl
  | recvClosed => exact exposed_le_of_leak rfl (Nat.zero_le _) rfl rfl
  | observe =>
    refine exposed_le_of_leak rfl ?_ rfl rfl
    simp [Pc.leak, Pc.past?, Check.rank]
  | turnDown => exact exposed_le_of_leak rfl (Nat.zero_le _) rfl rfl
  | @pass arb next hpc hnot =>
    refine exposed_le_of_leak rfl ?_ rfl rfl
    rw [hpc]
    refine Check.leak_pass fun heq hP => ?_
    subst heq
    exact hnot (hdown arb hP k)
  | verify => exact exposed_le_of_leak rfl (Nat.zero_le _) rfl rfl
  | snapshot hpc _ =>
    refine exposed_le_of_leak rfl (le_of_eq ?_) rfl rfl
    rw [hpc]
    rfl
  | unviable => exact exposed_le_of_leak rfl (Nat.zero_le _) rfl rfl
  | writeBack hpc _ =>
    refine exposed_le_of_leak rfl (le_of_eq ?_) rfl rfl
    rw [hpc]
    rfl
  | unprofitable => exact exposed_le_of_leak rfl (Nat.zero_le _) rfl rfl
  | @found arb _ _ valid hpc hfound =>
    refine exposed_le_of_leak rfl (le_of_eq ?_) rfl rfl
    rw [hpc]
    refine Pc.leak_of_past_eq ?_
    show some valid.arb = some arb
    rw [Simulator.simulateAndOptimize_arb hfound]
  | @send valid hpc _ _ =>
    -- the path moves from the simulator to the end of the channel
    obtain ⟨rest, hs, ht⟩ := load_update (Pc.leak check P) s k
    unfold System.exposed
    rw [ht _ { s.workers k with pc := .waiting } rfl, hs, hpc]
    show countOf P s.taken + countOf P (s.valids ++ [valid]) + (0 + rest) ≤ _
    rw [countOf_append]
    have hsame : countOf P [valid] = (Pc.sending valid).leak check P := by
      simp [countOf, Pc.leak, Pc.past?, List.countP_singleton]
    omega
  | sendClosed => exact exposed_le_of_leak rfl (Nat.zero_le _) rfl rfl

theorem exposed_step {i : Label n} (hdown : TurnedDown p check P s) (hstep : Step p s i t) :
    t.exposed check P ≤ s.exposed check P := by
  cases hstep with
  | simulate hsim => exact exposed_simStep hdown hsim
  | send hsend =>
    cases hsend with
    | @take valid rest _ hvalids =>
      -- the path moves from the head of the channel to the taken ones
      unfold System.exposed
      rw [hvalids]
      show countOf P (s.taken ++ [valid]) + countOf P rest + s.load _ ≤
        countOf P s.taken + countOf P ([valid] ++ rest) + s.load _
      rw [countOf_append, countOf_append]
      omega
    | _ => exact le_of_eq (exposed_of_same rfl rfl rfl)
  | _ => exact le_of_eq (exposed_of_same rfl rfl rfl)

/-! ## Runs -/

theorem exposed_run {is : List (Label n)} (hhead : check ≠ .head)
    (hdown : TurnedDown p check P s) (hrun : Run (Step p) s is t) :
    t.exposed check P ≤ s.exposed check P := by
  let inv : System n → Prop := fun t =>
    TurnedDown p check P t ∧ t.exposed check P ≤ s.exposed check P
  have hkeep (r : System n) (i : Label n) (r' : System n) (h : inv r) (hstep : Step p r i r') :
      inv r' :=
    ⟨h.1.mono hhead (.step hstep), (exposed_step h.1 hstep).trans h.2⟩
  have hstart : inv s := ⟨hdown, le_refl _⟩
  have hend : inv t := hrun.invariant hkeep hstart
  exact hend.2

theorem load_leak_le (s : System n) : s.load (Pc.leak check P) ≤ n := by
  have h := load_le (f := fun w : SimWorker => w.pc.leak check P) s.workers fun w =>
    w.pc.leak_le_one
  rwa [Fintype.card_fin, Nat.mul_one] at h

/-- **What is turned down stays out.** From the moment on at which the age check of the newest
block or a check of a blacklist turns a kind of path down, the sender takes no more of them than
are queued for it and than there are simulators past the check with one in hand. -/
theorem taken_le_of_turnedDown {is : List (Label n)} (hhead : check ≠ .head)
    (hdown : TurnedDown p check P s) (hrun : Run (Step p) s is t) :
    countOf P t.taken ≤ countOf P s.taken + countOf P s.valids + s.load (Pc.leak check P) ∧
      s.load (Pc.leak check P) ≤ n := by
  refine ⟨?_, load_leak_le s⟩
  have h := exposed_run hhead hdown hrun
  unfold System.exposed at h
  omega

/-! ### A blacklisted path -/

/-- The path of hash 77 is in the channel, and blacklisted. -/
def sampleBlacklisted : System 1 :=
  { System.start doubling (fun _ => 0) ⟨0, 0, 0, 6, 50, 0, 0⟩
      ⟨⟨7, 0, fun _ => 0, fun _ => 0, {77}, ∅⟩, 0⟩ with
    arbs := [foundArb]
    queued := [foundArb] }

theorem turnedDown_sampleBlacklisted :
    TurnedDown sampleSetup .paths (fun arb => arb.path.hash = 77) sampleBlacklisted :=
  fun _ harb _ => Finset.mem_singleton.mpr harb

theorem sampleBlacklisted_run :
    ∃ t, Run (Step sampleSetup) sampleBlacklisted (List.replicate 5 (.simulate 0)) t ∧
      t.outcomes = [(foundArb, .skipped)] := by
  have hsameHead : (none : Option UInt64).isSome → foundArb.blockNumber ≠ 0 := nofun
  refine ⟨_, .cons (.simulate (.recv rfl rfl)) <| .cons (.simulate (.observe rfl hsameHead)) <|
    .cons (.simulate (.pass rfl ?_)) <| .cons (.simulate (.pass rfl ?_)) <|
    .cons (.simulate (.turnDown rfl ?_)) (.nil _), rfl⟩
  · intro h
    have hhead : (0 : UInt64) < 0 := h.1
    exact absurd hhead (by decide)
  · intro h
    have hlatest : (5 : UInt64) + 3 < max 0 5 := h
    exact absurd hlatest (by decide)
  · exact Finset.mem_singleton_self _

theorem taken_le_of_turnedDown_oneHop :
    ∃ t : System 1, t.outcomes = [(foundArb, .skipped)] ∧
      countOf (fun arb => arb.path.hash = 77) t.taken ≤
          countOf (fun arb => arb.path.hash = 77) sampleBlacklisted.taken +
            countOf (fun arb => arb.path.hash = 77) sampleBlacklisted.valids +
            sampleBlacklisted.load (Pc.leak .paths fun arb => arb.path.hash = 77) ∧
      sampleBlacklisted.load (Pc.leak .paths fun arb => arb.path.hash = 77) ≤ 1 :=
  let ⟨t, hrun, houtcomes⟩ := sampleBlacklisted_run
  ⟨t, houtcomes, taken_le_of_turnedDown nofun turnedDown_sampleBlacklisted hrun⟩

end

end Pipeline

end ArbBot
