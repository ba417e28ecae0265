import ArbBot.Gossip
import ArbBot.Laws.BlockStream
import ArbBot.Lib.Word
import ArbBot.Lib.Workers
import Mathlib.Algebra.Order.Group.Multiset
import Mathlib.Tactic.Abel

/-!
# No gossiped block is lost

Every number an endpoint reports is accepted from one endpoint, and every accepted block is sent as
it was reported, or in the hand of one task that is about to send it, or lost because no receiver is
left; and no number is accepted again before a window of others was (`gossip_run`). Each task waits
as long as its failures say.
-/

namespace ArbBot.Gossip

open Lib

variable {n : Nat} {g g' : State n}

/-- The block a task is about to send, as a collection of one or none. -/
def Pc.held : Pc → Multiset NewBlock
  | first block => {block}
  | _ => 0

/-- What the tasks are about to send together. -/
def State.held (g : State n) : Multiset NewBlock :=
  load (fun e : Endpoint => e.pc.held) g.endpoints

/-- The wait after so many failures in a row. -/
def backoffOf (waits : Nat) : Nat := min (500 * 2 ^ waits) 30000

/-- What holds of the gossip in every state it reaches. -/
structure Multiplexed (g : State n) : Prop where
  window : g.dedup.Follows (g.accepted.map NewBlock.blockNumber)
  complete : ∀ header ∈ g.reported, header.number ∈ g.accepted.map NewBlock.blockNumber
  sound : ∀ block ∈ g.accepted, ∃ header ∈ g.reported, block = header.newBlock
  hands : (g.accepted : Multiset NewBlock) = g.sent + g.lost + g.held
  live : g.closed = false → g.lost = []
  backoff : ∀ k, (g.endpoints k).backoffMs.toNat = backoffOf (g.endpoints k).waits

/-! ## Steps -/

theorem backoffOf_succ {backoffMs : UInt64} {waits : Nat}
    (h : backoffMs.toNat = backoffOf waits) :
    (min (backoffMs * 2) maxBackoffMs).toNat = backoffOf (waits + 1) := by
  have hmax : maxBackoffMs.toNat = 30000 := rfl
  have htwo : (2 : UInt64).toNat = 2 := rfl
  unfold backoffOf at h ⊢
  have hlt : min (500 * 2 ^ waits) 30000 * 2 < 2 ^ 64 := by omega
  rw [toNat_min, UInt64.toNat_mul, hmax, htwo, h, Nat.mod_eq_of_lt hlt, Nat.pow_succ]
  omega

/-- The waits of the other tasks are what they were. -/
theorem backoff_update {k : Fin n} {e : Endpoint} (h : Multiplexed g)
    (he : e.backoffMs.toNat = backoffOf e.waits) :
    ∀ j, (Function.update g.endpoints k e j).backoffMs.toNat =
      backoffOf (Function.update g.endpoints k e j).waits := by
  intro j
  by_cases hj : j = k
  · subst hj
    rw [Function.update_self]
    exact he
  · rw [Function.update_of_ne hj]
    exact h.backoff j

/-- A task moves and has no block in its hand before or after. -/
theorem Multiplexed.idle (h : Multiplexed g) {k : Fin n} {e : Endpoint}
    (hbefore : (g.endpoints k).pc.held = 0) (hafter : e.pc.held = 0)
    (hbackoff : e.backoffMs.toNat = backoffOf e.waits) :
    Multiplexed { g with endpoints := Function.update g.endpoints k e } where
  window := h.window
  complete := h.complete
  sound := h.sound
  hands := by
    rw [h.hands]
    congr 1
    exact (load_update_of_eq (f := fun e : Endpoint => e.pc.held)
      (hafter.trans hbefore.symm)).symm
  live := h.live
  backoff := backoff_update h hbackoff

/-- The hands after a task has put its block away. -/
theorem held_put {k : Fin n} {block : NewBlock} {pc : Pc}
    (hbefore : (g.endpoints k).pc = .first block) (hafter : pc.held = 0) :
    g.held = {block} + (g.move k pc).held := by
  obtain ⟨rest, hs, ht⟩ := load_update (fun e : Endpoint => e.pc.held) g.endpoints k
  unfold State.held State.move
  rw [hs, ht, hbefore]
  show {block} + rest = {block} + (pc.held + rest)
  rw [hafter, zero_add]

/-- A block that has gone from the hand to a list. -/
theorem snoc_add_comm (blocks others : List NewBlock) (block : NewBlock)
    (rest : Multiset NewBlock) :
    (blocks : Multiset NewBlock) + others + ({block} + rest) =
      ((blocks ++ [block] : List NewBlock) : Multiset NewBlock) + others + rest := by
  rw [← Multiset.coe_add, Multiset.coe_singleton]
  abel

theorem Multiplexed.start : Multiplexed (State.start (n := n)) where
  window := BlockDedup.follows_new
  complete := nofun
  sound := nofun
  hands := by
    show (0 : Multiset NewBlock) = 0 + 0 + State.held _
    rw [zero_add, zero_add]
    exact (load_eq_zero fun _ => rfl).symm
  live _ := rfl
  backoff _ := rfl

/-- The number of a report is that of a block. -/
def Label.Positive : Label n → Prop
  | .report _ header => header.number ≠ 0
  | _ => True

/-- Every step keeps it, one case for each. -/
theorem Multiplexed.step (h : Multiplexed g) {i : Label n} (hpositive : i.Positive)
    (hstep : Step g i g') : Multiplexed g' := by
  have hkeep := h.backoff
  cases hstep with
  | connectFailed hpc => exact h.idle (by rw [hpc]; rfl) rfl (hkeep _)
  | connected hpc => exact h.idle (by rw [hpc]; rfl) rfl (hkeep _)
  | subscribeFailed hpc => exact h.idle (by rw [hpc]; rfl) rfl (hkeep _)
  | subscribed hpc => exact h.idle (by rw [hpc]; rfl) rfl rfl
  | @duplicate k header hpc hseen =>
    have hmem : header.number ∈ g.accepted.map NewBlock.blockNumber := by
      have hin : header.number ∈ g.dedup.seen := by
        by_contra hnot
        rw [(BlockDedup.tryInsert_fst g.dedup header.number).mpr hnot] at hseen
        cases hseen
      exact List.mem_of_mem_take (h.window.mem_seen.mp hin)
    refine ⟨h.window, ?_, ?_, h.hands, h.live, hkeep⟩
    · intro other hother
      rcases List.mem_append.mp hother with hold | hnew
      · exact h.complete other hold
      · obtain rfl := List.mem_singleton.mp hnew
        exact hmem
    · intro block hblock
      obtain ⟨other, hother, hsame⟩ := h.sound block hblock
      exact ⟨other, List.mem_append_left _ hother, hsame⟩
  | @first k header hpc hnew =>
    have hout : header.number ∉ g.dedup.seen :=
      (BlockDedup.tryInsert_fst g.dedup header.number).mp hnew
    refine ⟨h.window.accept hpositive hout, ?_, ?_, ?_, h.live, backoff_update h (hkeep k)⟩
    · intro other hother
      rcases List.mem_append.mp hother with hold | hlast
      · exact List.mem_cons_of_mem _ (h.complete other hold)
      · obtain rfl := List.mem_singleton.mp hlast
        exact List.mem_cons_self
    · intro block hblock
      rcases List.mem_cons.mp hblock with rfl | hold
      · exact ⟨header, List.mem_append_right _ (List.mem_singleton_self _), rfl⟩
      · obtain ⟨other, hother, hsame⟩ := h.sound block hold
        exact ⟨other, List.mem_append_left _ hother, hsame⟩
    · obtain ⟨rest, hs, ht⟩ := load_update (fun e : Endpoint => e.pc.held) g.endpoints k
      show ((header.newBlock :: g.accepted : List NewBlock) : Multiset NewBlock) =
        g.sent + g.lost + load _ (Function.update g.endpoints k _)
      rw [ht, ← Multiset.cons_coe, h.hands, State.held, hs, hpc, ← Multiset.singleton_add]
      show {header.newBlock} + (↑g.sent + ↑g.lost + (0 + rest)) =
        ↑g.sent + ↑g.lost + ({header.newBlock} + rest)
      abel
  | @send k block hpc hopen =>
    refine ⟨h.window, h.complete, h.sound, ?_, h.live, backoff_update h (hkeep k)⟩
    refine h.hands.trans ?_
    have hheld := held_put hpc (rfl : Pc.streaming.held = 0)
    rw [hheld]
    exact snoc_add_comm g.sent g.lost block _
  | @sendClosed k block hpc hclosed =>
    refine ⟨h.window, h.complete, h.sound, ?_, fun hopen => ?_, backoff_update h (hkeep k)⟩
    · refine h.hands.trans ?_
      have hheld := held_put hpc (rfl : Pc.stopped.held = 0)
      rw [hheld, add_comm (g.sent : Multiset NewBlock)]
      refine (snoc_add_comm g.lost g.sent block _).trans ?_
      rw [add_comm (_ : Multiset NewBlock) (g.sent : Multiset NewBlock)]
      rfl
    · exact absurd (hopen.symm.trans hclosed) Bool.false_ne_true
  | streamEnded hpc => exact h.idle (by rw [hpc]; rfl) rfl (hkeep _)
  | woken hpc => exact h.idle (by rw [hpc]; rfl) rfl (backoffOf_succ (hkeep _))
  | close => exact ⟨h.window, h.complete, h.sound, h.hands, nofun, hkeep⟩

/-! ## Runs -/

/-- **The gossip over any run**: every reported number is accepted, from one report and unaltered;
accepted blocks are sent, in hand, or lost once no receiver is left; and a number comes back only
after a window of others. So no block is sent more often than it was accepted, and while a receiver
is left and no task has one in hand, every reported number was sent. -/
theorem gossip_run {is : List (Label n)}
    (hrun : Run (Guarded (fun _ i => Label.Positive i) Step) State.start is g) :
    Multiplexed g ∧ (g.sent : Multiset NewBlock) ≤ (g.accepted : Multiset NewBlock) ∧
      (g.closed = false → g.held = 0 → ∀ header ∈ g.reported,
        ∃ block ∈ g.sent, block.blockNumber = header.number) := by
  have h : Multiplexed g :=
    hrun.invariant (fun _ _ _ h hstep => h.step hstep.1 hstep.2) .start
  refine ⟨h, ?_, fun hopen hheld header hheader => ?_⟩
  · rw [h.hands, add_assoc]
    exact Multiset.le_add_right _ _
  · have hsent : (g.accepted : Multiset NewBlock) = g.sent := by
      rw [h.hands, h.live hopen, hheld, Multiset.coe_nil, add_zero, add_zero]
    obtain ⟨block, hblock, hnumber⟩ := List.mem_map.mp (h.complete header hheader)
    exact ⟨block, (Multiset.coe_eq_coe.mp hsent).mem_iff.mp hblock, hnumber⟩

/-- Two endpoints report block 7, and the second one to do so loses. -/
theorem twoEndpoints_run :
    ∃ g : State 2, Run (Guarded (fun _ i => Label.Positive i) Step) .start
      [.move 0, .move 1, .move 0, .move 1, .report 0 ⟨7, none, 0, 0, 0⟩,
        .report 1 ⟨7, none, 0, 0, 0⟩, .move 0] g ∧ g.sent = [⟨7, 0, 0, 0, 0⟩] := by
  have hseven : (7 : UInt64) ≠ 0 := by decide
  refine ⟨_, .cons ⟨trivial, .connected rfl⟩ <| .cons ⟨trivial, .connected rfl⟩ <|
    .cons ⟨trivial, .subscribed rfl⟩ <| .cons ⟨trivial, .subscribed rfl⟩ <|
    .cons ⟨hseven, .first rfl rfl⟩ <| .cons ⟨hseven, .duplicate rfl rfl⟩ <|
    .cons ⟨trivial, .send rfl rfl⟩ (.nil _), rfl⟩

theorem gossip_run_twoEndpoints :
    ∃ g : State 2, g.sent = [⟨7, 0, 0, 0, 0⟩] ∧
      Multiplexed g ∧ (g.sent : Multiset NewBlock) ≤ (g.accepted : Multiset NewBlock) ∧
      (g.closed = false → g.held = 0 → ∀ header ∈ g.reported,
        ∃ block ∈ g.sent, block.blockNumber = header.number) := by
  obtain ⟨g, hrun, hsent⟩ := twoEndpoints_run
  exact ⟨g, hsent, gossip_run hrun⟩

end ArbBot.Gossip
