import ArbBot.Accounts.Workers
import ArbBot.Laws.Accounts.Storage
import ArbBot.Lib.Fill

/-!
# Write-back loses no update

Each slot of the shared database is a cell: an update, an injection or a commit writes it, and a
write-back offers it the value of the worker's copy. The history of a slot over a run is the list of
these events, and the slot is what the history leaves of it. So however old the copies are that the
workers write back, a value that was written stays until the next one is written.
-/

namespace ArbBot.Accounts

open Lib

variable {keccak : Keccak} {ι : Type} [DecidableEq ι]

/-! ## Events -/

/-- The value a write puts in a slot: none when it leaves the slot alone. A commit writes the slots
that have changed, of the accounts that are not empty. -/
def Write.written (keccak : Keccak) (address : Address) (index : U256) : Write → Option U256
  | .updateSlot a slot value => if address = a ∧ index = slot then some value else none
  | .injectSlot _ a slot value => if address = a ∧ index = slot then some value else none
  | .commit changes =>
    (changes address).bind fun change =>
      if change.IsEmpty keccak then none else change.written index

/-- What a step does to a slot of the shared database. -/
def System.events (keccak : Keccak) (s : System ι) (address : Address) (index : U256) :
    Step ι Write → List (CellEvent U256)
  | .shared op => (op.written keccak address index).toList.map .write
  | .writeBack worker =>
    ((s.copies worker).bind fun sim => sim.slot address index).toList.map .offer
  | _ => []

/-- The events of a slot over a run. -/
def System.history (keccak : Keccak) (address : Address) (index : U256) :
    System ι → List (Step ι Write) → List (CellEvent U256)
  | _, [] => []
  | s, i :: steps => s.events keccak address index i ++
      System.history keccak address index (s.step keccak (Write.perform keccak) i) steps

theorem slot_injectSlot (db : BlockStateDb) (node : Node) (a address : Address)
    (slot value index : U256) :
    (db.injectSlot keccak node a slot value).slot address index =
      if address = a ∧ index = slot then some value else db.slot address index := by
  unfold BlockStateDb.slot BlockStateDb.injectSlot
  by_cases ha : address = a
  · subst ha
    rw [BlockStateDb.set_self, Option.bind_some, Account.write_storage]
    by_cases hs : index = slot
    · rw [if_pos hs, if_pos ⟨rfl, hs⟩]
    · rw [if_neg hs, if_neg fun h => hs h.2]
      cases db.accounts address <;> rfl
  · rw [BlockStateDb.set_of_ne ha, if_neg fun h => ha h.1]

theorem slot_commit (db : BlockStateDb) (changes : Address → Option BlockStateDb.EvmAccount)
    (address : Address) (index : U256) :
    (db.commit keccak changes).slot address index =
      (((changes address).bind fun change =>
        if change.IsEmpty keccak then none else change.written index) <|>
          db.slot address index) := by
  unfold BlockStateDb.slot BlockStateDb.commit
  dsimp only
  cases changes address with
  | none => rfl
  | some change =>
    dsimp only [Option.bind_some]
    by_cases hempty : change.IsEmpty keccak
    · rw [if_pos hempty, if_pos hempty]
      rfl
    · rw [if_neg hempty, if_neg hempty]
      cases db.accounts address <;> rfl

/-- A write puts its value in the slots it names and leaves the others alone. -/
theorem slot_perform (db : BlockStateDb) (op : Write) (address : Address) (index : U256) :
    (op.perform keccak db).slot address index =
      (op.written keccak address index <|> db.slot address index) := by
  cases op with
  | updateSlot a slot value =>
    refine (BlockStateDb.slot_updateSlot slot value address index).trans ?_
    dsimp only [Write.written]
    split <;> rfl
  | injectSlot node a slot value =>
    refine (slot_injectSlot db node a address slot value index).trans ?_
    dsimp only [Write.written]
    split <;> rfl
  | commit changes => exact slot_commit db changes address index

/-- A write-back fills the slots that are not loaded. -/
theorem slot_writeBack (sim : SimDb) (db : BlockStateDb) (address : Address) (index : U256) :
    (sim.writeBack db).slot address index =
      (db.slot address index <|> sim.slot address index) := by
  unfold BlockStateDb.slot SimDb.slot SimDb.writeBack
  dsimp only
  cases sim.accounts address with
  | none => cases (db.accounts address).bind fun account => account.storage index <;> rfl
  | some account => cases db.accounts address <;> rfl

/-- The step lemma: a slot is what the step's events make of it. -/
theorem slot_step (s : System ι) (i : Step ι Write) (address : Address) (index : U256) :
    (s.step keccak (Write.perform keccak) i).db.slot address index =
      (s.events keccak address index i).foldl CellEvent.apply (s.db.slot address index) := by
  cases i with
  | shared op =>
    refine (slot_perform s.db op address index).trans ?_
    dsimp only [System.events]
    cases op.written keccak address index <;> rfl
  | snapshot worker => rfl
  | basic worker node a => rfl
  | storage worker node a k => rfl
  | writeBack worker =>
    dsimp only [System.step, System.events]
    cases s.copies worker with
    | none => rfl
    | some sim =>
      refine (slot_writeBack sim s.db address index).trans ?_
      dsimp only [Option.bind_some]
      cases sim.slot address index with
      | none => cases s.db.slot address index <;> rfl
      | some value => rfl

/-- The run lemma. -/
theorem slot_run (s : System ι) (steps : List (Step ι Write)) (address : Address) (index : U256) :
    (s.run keccak (Write.perform keccak) steps).db.slot address index =
      (System.history keccak address index s steps).foldl CellEvent.apply
        (s.db.slot address index) := by
  induction steps generalizing s with
  | nil => rfl
  | cons i steps ih =>
    rw [System.history, List.foldl_append, ← slot_step]
    exact ih _

/-! ## Records -/

/-- The second database has every loaded slot of the first with its value, and the records of the
first up to codes that were missing. -/
structure FillsIn (db db' : BlockStateDb) : Prop where
  slots : ∀ address index value, db.slot address index = some value →
    db'.slot address index = some value
  records : ∀ address account, db.accounts address = some account →
    ∃ account', db'.accounts address = some account' ∧
      (account'.info = account.info ∨ account.info.code = none ∧ ∃ code codeHash,
        account'.info = { account.info with code := some code, codeHash := codeHash })

theorem mergeInfo_cases (entry fetched : AccountInfo) :
    SimDb.mergeInfo entry fetched = entry ∨ entry.code = none ∧ ∃ code codeHash,
      SimDb.mergeInfo entry fetched = { entry with code := some code, codeHash := codeHash } := by
  unfold SimDb.mergeInfo
  split
  · rename_i h
    obtain ⟨code, hcode⟩ := Option.isSome_iff_exists.mp h.1
    exact .inr ⟨Option.isNone_iff_eq_none.mp h.2, code, fetched.codeHash, by rw [hcode]⟩
  · exact .inl rfl

theorem fillsIn_writeBack (sim : SimDb) (db : BlockStateDb) : FillsIn db (sim.writeBack db) := by
  constructor
  · intro address index value hslot
    rw [slot_writeBack, hslot]
    rfl
  · intro address account haccount
    unfold SimDb.writeBack
    dsimp only
    cases sim.accounts address with
    | none => exact ⟨account, haccount, .inl rfl⟩
    | some fetched =>
      rw [haccount]
      exact ⟨_, rfl, mergeInfo_cases account.info fetched.info⟩

theorem FillsIn.refl (db : BlockStateDb) : FillsIn db db :=
  ⟨fun _ _ _ h => h, fun _ account h => ⟨account, h, .inl rfl⟩⟩

/-- A copy without anything of its own changes nothing. -/
theorem writeBack_snapshot (db : BlockStateDb) : (SimDb.snapshot db).writeBack db = db := by
  unfold SimDb.writeBack SimDb.snapshot
  refine congrArg (fun accounts => { db with accounts := accounts }) (funext fun address => ?_)
  dsimp only
  cases haccount : db.accounts address with
  | none => rfl
  | some account =>
    dsimp only [Option.getD_some]
    refine congrArg some (congrArg₂ Account.mk ?_ (funext fun index => ?_))
    · rw [SimDb.mergeInfo, if_neg]
      rintro ⟨hsome, hnone⟩
      rw [Option.isNone_iff_eq_none.mp hnone] at hsome
      cases hsome
    · cases account.storage index <;> rfl

/-- **No write-back takes the place of an update.** For any workers, any system and any order of the
steps: every slot has the value of the last update, injection or commit to it; without one, what it
had at first; and without that, the first value written back. A write-back changes no loaded slot and
fills in missing codes only, and right after the snapshot it changes nothing. -/
theorem writeBack_keeps_updates (keccak : Keccak) (s : System ι) :
    (∀ steps address index,
      (s.run keccak (Write.perform keccak) steps).db.slot address index =
        (CellEvent.lastWrite (System.history keccak address index s steps) <|>
          (s.db.slot address index <|>
            CellEvent.firstOffer (System.history keccak address index s steps)))) ∧
    (∀ steps worker,
      FillsIn (s.run keccak (Write.perform keccak) steps).db
        (s.run keccak (Write.perform keccak) (steps ++ [.writeBack worker])).db) ∧
    ∀ steps worker,
      (s.run keccak (Write.perform keccak) (steps ++ [.snapshot worker, .writeBack worker])).db =
        (s.run keccak (Write.perform keccak) steps).db := by
  refine ⟨fun steps address index => ?_, fun steps worker => ?_, fun steps worker => ?_⟩
  · rw [slot_run, CellEvent.foldl_apply]
  · rw [System.run, System.run, List.foldl_append, List.foldl_cons, List.foldl_nil]
    generalize steps.foldl (System.step keccak (Write.perform keccak)) s = t
    dsimp only [System.step]
    cases t.copies worker with
    | none => exact .refl t.db
    | some sim => exact fillsIn_writeBack sim t.db
  · rw [System.run, System.run, List.foldl_append, List.foldl_cons, List.foldl_cons,
      List.foldl_nil]
    generalize steps.foldl (System.step keccak (Write.perform keccak)) s = t
    dsimp only [System.step]
    rw [Function.update_self]
    exact writeBack_snapshot t.db

end ArbBot.Accounts
