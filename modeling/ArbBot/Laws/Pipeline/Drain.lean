import ArbBot.Laws.Pipeline.Accounting

/-!
# The pipeline drains

Left to themselves, the simulators and the sender come to rest: every step of theirs takes from a
measure that counts what is queued and how far each path in hand has to go (`work_step`), so no run
of them is longer than it, and where no step of theirs is left nothing is in a channel or in hand
(`drained_of_stuck`). No worker waits for another that waits for it: the searcher never waits for
room in its channel, and the sender never waits for the simulators while something is queued for it.
-/

namespace ArbBot.Pipeline

open Lib

variable {n : Nat} {p : Setup} {s t : System n}

/-- A step of a simulator or of the sender. -/
def Label.Inner : Label n → Prop
  | .simulate _ | .send => True
  | .search _ | .block _ _ _ => False

/-- The steps of the simulators and the sender. -/
def InnerStep (p : Setup) : System n → Label n → System n → Prop :=
  Guarded (fun _ i => i.Inner) (Step p)

/-! ## The measure -/

/-- How far the check is from the simulation. -/
@[simp] def Check.togo : Check → Nat
  | head => 11
  | latest => 10
  | paths => 9
  | tokens => 8

/-- How many steps of the pipeline a simulator's path can still take, with the two of the sender. -/
@[simp] def Pc.togo : Pc → Nat
  | stopped => 0
  | waiting => 1
  | sending _ => 4
  | optimized _ _ _ => 5
  | simulating _ _ => 6
  | checked _ => 7
  | checking check _ => check.togo
  | received _ => 12

@[simp] def SenderPc.togo : SenderPc → Nat
  | stopped => 0
  | idle => 1
  | handling _ => 2

/-- What is left to do for the simulators and the sender. -/
def System.work (s : System n) : Nat :=
  12 * s.arbs.length + s.load Pc.togo + 2 * s.valids.length + s.senderPc.togo

theorem Check.togo_pass (check : Check) (arb : ArbPath) :
    (check.pass arb).togo < check.togo := by
  cases check <;> simp [Check.pass]

theorem Check.one_lt_togo (check : Check) : 1 < check.togo := by
  cases check <;> decide

/-- A step of one simulator that leaves the channels and the sender alone. -/
theorem work_lt_of_togo {k : Fin n} {w : SimWorker}
    (hworkers : t.workers = Function.update s.workers k w) {pc : Pc} (hpc : (s.workers k).pc = pc)
    (htogo : w.pc.togo < pc.togo) (harbs : t.arbs = s.arbs) (hvalids : t.valids = s.valids)
    (hsender : t.senderPc = s.senderPc) : t.work < s.work := by
  obtain ⟨rest, hs, ht⟩ := load_update Pc.togo s k
  unfold System.work
  rw [ht t w hworkers, hs, hpc, harbs, hvalids, hsender]
  omega

theorem work_simStep {k : Fin n} (hstep : SimStep p s k t) : t.work < s.work := by
  cases hstep with
  | @recv arb rest hpc harbs =>
    obtain ⟨load, hs, ht⟩ := load_update Pc.togo s k
    unfold System.work
    rw [ht _ { s.workers k with pc := .received arb } rfl, hs, hpc, harbs, List.length_cons]
    show 12 * rest.length + (12 + load) + 2 * s.valids.length + s.senderPc.togo <
      12 * (rest.length + 1) + (1 + load) + 2 * s.valids.length + s.senderPc.togo
    omega
  | recvClosed hpc _ _ => exact work_lt_of_togo rfl hpc (by simp) rfl rfl rfl
  | observe hpc _ => exact work_lt_of_togo rfl hpc (by simp) rfl rfl rfl
  | @turnDown arb check hpc _ =>
    exact work_lt_of_togo rfl hpc check.one_lt_togo rfl rfl rfl
  | @pass arb check hpc _ =>
    exact work_lt_of_togo rfl hpc (check.togo_pass arb) rfl rfl rfl
  | verify hpc _ => exact work_lt_of_togo rfl hpc (by simp) rfl rfl rfl
  | snapshot hpc _ => exact work_lt_of_togo rfl hpc (by simp) rfl rfl rfl
  | unviable hpc _ => exact work_lt_of_togo rfl hpc (by simp) rfl rfl rfl
  | writeBack hpc _ => exact work_lt_of_togo rfl hpc (by simp) rfl rfl rfl
  | unprofitable hpc _ => exact work_lt_of_togo rfl hpc (by simp) rfl rfl rfl
  | found hpc _ => exact work_lt_of_togo rfl hpc (by simp) rfl rfl rfl
  | @send valid hpc _ _ =>
    obtain ⟨load, hs, ht⟩ := load_update Pc.togo s k
    unfold System.work
    rw [ht _ { s.workers k with pc := .waiting } rfl, hs, hpc]
    show 12 * s.arbs.length + (1 + load) + 2 * (s.valids ++ [valid]).length + s.senderPc.togo <
      12 * s.arbs.length + (4 + load) + 2 * s.valids.length + s.senderPc.togo
    rw [List.length_append, List.length_singleton]
    omega
  | sendClosed hpc _ => exact work_lt_of_togo rfl hpc (by simp) rfl rfl rfl

theorem work_senderStep (hstep : SenderStep p s t) : t.work < s.work := by
  unfold System.work
  cases hstep with
  | @take valid rest hpc hvalids =>
    rw [hpc, hvalids, List.length_cons]
    show 12 * s.arbs.length + s.load Pc.togo + 2 * rest.length + 2 <
      12 * s.arbs.length + s.load Pc.togo + 2 * (rest.length + 1) + 1
    omega
  | handle hpc _ _ =>
    rw [hpc]
    exact Nat.lt_succ_self _
  | panic hpc _ _ =>
    rw [hpc]
    exact Nat.lt_add_of_pos_right Nat.two_pos
  | closed hpc _ _ =>
    rw [hpc]
    exact Nat.lt_succ_self _

/-- Every step of a simulator or of the sender leaves less to do. -/
theorem work_step {i : Label n} (hstep : InnerStep p s i t) : t.work < s.work := by
  obtain ⟨hinner, hstep⟩ := hstep
  cases hstep with
  | search _ _ | offer _ _ _ | drop _ _ _ | offerClosed _ _ | block => exact hinner.elim
  | simulate hsim => exact work_simStep hsim
  | send hsend => exact work_senderStep hsend

theorem Pc.togo_le (pc : Pc) : pc.togo ≤ 12 := by
  cases pc with
  | checking check _ => cases check <;> simp
  | _ => simp

/-- What is left to do is bounded by what is queued and by the number of simulators. -/
theorem work_le (s : System n) :
    s.work ≤ 12 * (s.arbs.length + n) + 2 * (s.valids.length + 1) := by
  have hload : s.load Pc.togo ≤ n * 12 := by
    have h := load_le (f := fun w : SimWorker => w.pc.togo) s.workers fun w => w.pc.togo_le
    rwa [Fintype.card_fin] at h
  have hsender : s.senderPc.togo ≤ 2 := by
    cases s.senderPc <;> simp
  unfold System.work
  omega

/-! ## Rest -/

/-- Nothing is in a channel or in hand that a worker could go on with; and once the searcher has
stopped, everything has. -/
structure Drained (s : System n) : Prop where
  workers : ∀ k, (s.workers k).pc = .waiting ∨ (s.workers k).pc = .stopped
  arbs : s.arbs = [] ∨ s.AllStopped
  sender : s.senderPc = .idle ∧ s.valids = [] ∨ s.senderPc = .stopped
  shutdown : s.loop.pc = .stopped → s.AllStopped ∧ s.senderPc = .stopped

/-- A simulator with a path in hand has a step, unless it waits for room behind a live sender. -/
theorem exists_simStep {k : Fin n} (hwaiting : (s.workers k).pc ≠ .waiting)
    (hstopped : (s.workers k).pc ≠ .stopped)
    (hroom : ∀ valid, (s.workers k).pc = .sending valid →
      s.senderPc = .stopped ∨ s.valids.length < p.channelBuffer) : ∃ t, SimStep p s k t := by
  cases hpc : (s.workers k).pc with
  | waiting => exact absurd hpc hwaiting
  | received arb =>
    have hsameHead : (none : Option UInt64).isSome → arb.blockNumber ≠ (s.workers k).currentBlock :=
      nofun
    exact ⟨_, .observe hpc hsameHead⟩
  | checking check arb =>
    by_cases hdown : TurnsDown p s k arb check
    · exact ⟨_, .turnDown hpc hdown⟩
    · exact ⟨_, .pass hpc hdown⟩
  | checked arb =>
    cases hmode : p.simMode with
    | true => exact ⟨_, .verify hpc hmode⟩
    | false => exact ⟨_, .snapshot hpc hmode⟩
  | simulating arb snapshot =>
    -- whatever the virtual machine answers; here it answers nothing
    have hnot : ¬ Viable p ⟨fun _ => none, [], fun _ _ => 0⟩ := by
      rintro ⟨out, hout, -⟩
      cases hout
    exact ⟨_, .unviable hpc hnot⟩
  | optimized arb snapshot revm =>
    cases hresult : Simulator.simulateAndOptimize (s.simulator p) revm (fun _ => s.loop.memory.db)
        snapshot arb with
    | none => exact ⟨_, .unprofitable hpc hresult⟩
    | some valid => exact ⟨_, .found hpc hresult⟩
  | sending valid =>
    by_cases hsender : s.senderPc = .stopped
    · exact ⟨_, .sendClosed hpc hsender⟩
    · exact ⟨_, .send hpc hsender ((hroom valid hpc).resolve_left hsender)⟩
  | stopped => exact absurd hpc hstopped

/-- The sender has a step while it handles a path, or something is queued for it. -/
theorem exists_senderStep (hstopped : s.senderPc ≠ .stopped)
    (hbusy : s.senderPc = .idle → s.valids ≠ []) : ∃ t, SenderStep p s t := by
  cases hpc : s.senderPc with
  | idle =>
    cases hvalids : s.valids with
    | nil => exact absurd hvalids (hbusy hpc)
    | cons valid rest => exact ⟨_, .take hpc hvalids⟩
  | handling valid =>
    let a : TxSender.Answers :=
      ⟨none, s.gasStation, false, fun _ => .requestFailed "", fun _ => .error "",
        .requestFailed "" false⟩
    cases hround : TxSender.round p.keys p.sender s.sender valid a with
    | none => exact ⟨_, .panic (a := a) hpc rfl hround⟩
    | some sender => exact ⟨_, .handle (a := a) hpc rfl hround⟩
  | stopped => exact absurd hpc hstopped

/-- Where no simulator and not the sender has a step left, the pipeline is drained. -/
theorem drained_of_stuck (hbuffer : 0 < p.channelBuffer)
    (hstuck : ∀ i t, ¬ InnerStep p s i t) : Drained s := by
  have hsim : ∀ k t, ¬ SimStep p s k t := fun k t h => hstuck (.simulate k) t ⟨trivial, .simulate h⟩
  have hsend : ∀ t, ¬ SenderStep p s t := fun t h => hstuck .send t ⟨trivial, .send h⟩
  have hsender : s.senderPc = .idle ∧ s.valids = [] ∨ s.senderPc = .stopped := by
    by_contra hnot
    push Not at hnot
    obtain ⟨t, ht⟩ := exists_senderStep (p := p) hnot.2 hnot.1
    exact hsend t ht
  have hworkers : ∀ k, (s.workers k).pc = .waiting ∨ (s.workers k).pc = .stopped := by
    intro k
    by_contra hnot
    push Not at hnot
    obtain ⟨t, ht⟩ := exists_simStep (p := p) hnot.1 hnot.2 fun valid _ => by
      rcases hsender with ⟨-, hvalids⟩ | hstopped
      · right
        rw [hvalids]
        exact hbuffer
      · exact .inl hstopped
    exact hsim k t ht
  have harbs : s.arbs = [] ∨ s.AllStopped := by
    cases harbs : s.arbs with
    | nil => exact .inl rfl
    | cons arb rest =>
      right
      intro k
      rcases hworkers k with hwaiting | hstopped
      · exact absurd (SimStep.recv hwaiting harbs) (hsim k _)
      · exact hstopped
  refine ⟨hworkers, harbs, hsender, fun hloop => ?_⟩
  have hall : s.AllStopped := by
    intro k
    rcases hworkers k with hwaiting | hstopped
    · rcases harbs with hempty | hall
      · exact absurd (SimStep.recvClosed hwaiting hempty hloop) (hsim k _)
      · exact hall k
    · exact hstopped
  refine ⟨hall, ?_⟩
  rcases hsender with ⟨hidle, hvalids⟩ | hstopped
  · exact absurd (SenderStep.closed hidle hvalids hall) (hsend _)
  · exact hstopped

/-- **The pipeline drains.** From any state, the simulators and the sender alone make no more steps
than are left to do, whatever their order and their answers; where they can make no more, the
pipeline is drained; and some run of them gets there. -/
theorem drains (hbuffer : 0 < p.channelBuffer) (s : System n) :
    (∀ is t, Run (InnerStep p) s is t →
      is.length ≤ 12 * (s.arbs.length + n) + 2 * (s.valids.length + 1) ∧
        ((∀ i u, ¬ InnerStep p t i u) → Drained t)) ∧
      ∃ is t, Run (InnerStep p) s is t ∧ Drained t := by
  have hdec : ∀ s i t, InnerStep p s i t → System.work t < System.work (n := n) s :=
    fun _ _ _ hstep => work_step hstep
  refine ⟨fun is t hrun => ⟨?_, drained_of_stuck hbuffer⟩, ?_⟩
  · have hlength := hrun.length_add_le hdec
    exact (Nat.le_add_right _ _).trans (hlength.trans (work_le s))
  · obtain ⟨is, t, hrun, hstuck⟩ := Run.exists_stuck hdec s
    exact ⟨is, t, hrun, drained_of_stuck hbuffer hstuck⟩

/-- The path of the sample in the channel, and one simulator. -/
def queuedStart : System 1 := { sampleStart with arbs := [foundArb] }

theorem drains_queued :
    (∀ is t, Run (InnerStep sampleSetup) queuedStart is t →
      is.length ≤ 12 * (1 + 1) + 2 * (0 + 1) ∧
        ((∀ i u, ¬ InnerStep sampleSetup t i u) → Drained t)) ∧
      ∃ is t, Run (InnerStep sampleSetup) queuedStart is t ∧ Drained t :=
  drains Nat.zero_lt_one queuedStart

end ArbBot.Pipeline
