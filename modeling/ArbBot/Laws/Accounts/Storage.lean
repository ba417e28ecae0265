import ArbBot.Accounts.SimDb
import ArbBot.SimDb

/-!
# The storage of the accounts

Without the records, the two databases are the storage databases the price reads and the write-back
are stated over: each operation on the accounts does to their storage what the operation of the
same name does there.
-/

namespace ArbBot.Accounts

open Lib

variable {keccak : Keccak} {node : Node}

@[simp] theorem Account.write_info (account : Account) (slot value : U256) :
    (account.write slot value).info = account.info := rfl

theorem Account.write_storage (account : Account) (slot value s : U256) :
    (account.write slot value).storage s = if s = slot then some value else account.storage s :=
  Function.update_apply ..

namespace BlockStateDb

variable {db : BlockStateDb} {address : Address}

theorem toStateDb_slot (index : U256) : db.toStateDb.slot address index = db.slot address index := by
  unfold StateDb.slot slot
  dsimp only [toStateDb]
  cases db.accounts address <;> rfl

@[simp] theorem set_self (account : Account) :
    (db.set address account).accounts address = some account := Function.update_self ..

theorem set_of_ne {a : Address} (h : a ≠ address) (account : Account) :
    (db.set address account).accounts a = db.accounts a := Function.update_of_ne h ..

/-- A written slot reads back, in the storage and in the accounts alike. -/
theorem toStateDb_updateSlot (index value : U256) :
    (db.updateSlot keccak address index value).toStateDb =
      db.toStateDb.updateSlot address index value := by
  unfold toStateDb StateDb.updateSlot
  congr
  funext a
  by_cases ha : a = address
  · subst ha
    rw [if_pos rfl, updateSlot, set_self]
    refine congrArg some (funext fun s => ?_)
    rw [Account.write_storage]
    dsimp only
    cases db.accounts a <;> rfl
  · rw [if_neg ha, updateSlot, set_of_ne ha]

theorem slot_updateSlot (index value : U256) (a : Address) (s : U256) :
    (db.updateSlot keccak address index value).slot a s =
      if a = address ∧ s = index then some value else db.slot a s := by
  unfold slot updateSlot
  by_cases ha : a = address
  · subst ha
    rw [set_self, Option.bind_some, Account.write_storage]
    by_cases hs : s = index
    · rw [if_pos hs, if_pos ⟨rfl, hs⟩]
    · rw [if_neg hs, if_neg fun h => hs h.2]
      cases db.accounts a <;> rfl
  · rw [set_of_ne ha, if_neg fun h => ha h.1]

/-- Writes of slots change no record; an account they create has the default one. -/
theorem updateSlots_accounts (writes : List (Address × U256 × U256)) (db : BlockStateDb) :
    ((db.updateSlots keccak writes).accounts address).map Account.info =
      if address ∈ writes.map Prod.fst then
        some (((db.accounts address).map Account.info).getD (defaultInfo keccak))
      else (db.accounts address).map Account.info := by
  induction writes generalizing db with
  | nil => rfl
  | cons write writes ih =>
    rw [updateSlots, List.foldl_cons, ← updateSlots, ih, List.map_cons]
    by_cases hwrite : address = write.1
    · subst hwrite
      have hinfo : ((db.updateSlot keccak write.1 write.2.1 write.2.2).accounts write.1).map
          Account.info = some (((db.accounts write.1).map Account.info).getD
            (defaultInfo keccak)) := by
        rw [updateSlot, set_self]
        cases db.accounts write.1 <;> rfl
      rw [hinfo, if_pos (List.mem_cons_self ..)]
      split <;> rfl
    · have hsame : (db.updateSlot keccak write.1 write.2.1 write.2.2).accounts address =
          db.accounts address := set_of_ne hwrite _
      rw [hsame]
      refine if_congr ?_ rfl rfl
      rw [List.mem_cons, or_iff_right hwrite]

end BlockStateDb

namespace SimDb

variable {sim : SimDb} {address : Address}

/-- The copy's storage. -/
def toStorage (sim : SimDb) : ArbBot.SimDb :=
  ⟨fun address => (sim.accounts address).map Account.storage⟩

theorem toStorage_snapshot (db : BlockStateDb) :
    (snapshot db).toStorage = ArbBot.SimDb.snapshot db.toStateDb := rfl

theorem toStorage_slot (index : U256) : sim.toStorage.slot address index = sim.slot address index := by
  unfold ArbBot.SimDb.slot slot
  dsimp only [toStorage]
  cases sim.accounts address <;> rfl

@[simp] theorem set_self (account : Account) :
    (sim.set address account).accounts address = some account := Function.update_self ..

theorem set_of_ne {a : Address} (h : a ≠ address) (account : Account) :
    (sim.set address account).accounts a = sim.accounts a := Function.update_of_ne h ..

theorem toStorage_basic :
    (sim.basic keccak node address).2.toStorage = sim.toStorage.basic address := by
  unfold toStorage ArbBot.SimDb.basic
  congr
  funext a
  by_cases ha : a = address
  · subst ha
    rw [if_pos rfl, basic]
    cases haccount : sim.accounts a with
    | none =>
      dsimp only
      rw [set_self, haccount]
      rfl
    | some account =>
      dsimp only
      split
      · rw [set_self, haccount]
        rfl
      · rw [haccount]
        rfl
  · rw [if_neg ha, basic]
    cases sim.accounts address with
    | none => rw [set_of_ne ha]
    | some account =>
      dsimp only
      split
      · rw [set_of_ne ha]
      · rfl

theorem toStorage_storage (index : U256) :
    sim.toStorage.storage node.storage address index =
      ((sim.storage keccak node address index).1,
        (sim.storage keccak node address index).2.toStorage) := by
  unfold ArbBot.SimDb.storage storage
  rw [toStorage_slot]
  cases sim.slot address index with
  | some value => rfl
  | none =>
    refine Prod.ext rfl ?_
    dsimp only [toStorage]
    congr
    funext a
    by_cases ha : a = address
    · subst ha
      rw [if_pos rfl, set_self]
      refine congrArg some (funext fun s => ?_)
      rw [Account.write_storage]
      cases sim.accounts a <;> rfl
    · rw [if_neg ha, set_of_ne ha]

/-- The merge of the accounts merges their storage. -/
theorem toStateDb_writeBack (db : BlockStateDb) :
    (sim.writeBack db).toStateDb = sim.toStorage.writeBack db.toStateDb := by
  unfold BlockStateDb.toStateDb ArbBot.SimDb.writeBack writeBack toStorage
  congr
  funext a
  dsimp only
  cases sim.accounts a with
  | none => rfl
  | some account => cases db.accounts a <;> rfl

end SimDb

end ArbBot.Accounts
