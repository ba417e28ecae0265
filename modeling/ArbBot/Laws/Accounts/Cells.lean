import ArbBot.Accounts.Evm
import ArbBot.Laws.Accounts.Storage
import ArbBot.Laws.Accounts.WriteBack
import ArbBot.Lib.Footprint

/-!
# The database as a store of cells

What a transaction can find out about a database: the record of each account, and the value of each
slot, loaded or not. Loading changes neither, an injection changes one slot, and a commit changes
the cells of the accounts it names. So a transaction is a program over these cells, and the
database it leaves has the cells that program leaves.
-/

namespace ArbBot.Accounts

open Lib

/-- What a database is asked for. -/
inductive Cell where
  | record (address : Address)
  | slot (address : Address) (index : U256)

/-- What is in a cell. -/
abbrev Cell.Value : Cell → Type
  | .record _ => AccountInfo
  | .slot _ _ => U256

instance : (cell : Cell) → DecidableEq cell.Value
  | .record _ => inferInstanceAs (DecidableEq AccountInfo)
  | .slot _ _ => inferInstanceAs (DecidableEq U256)

/-- One slot, and the value to write to it. -/
def Cell.only (address : Address) (index value : U256) : (cell : Cell) → Option cell.Value
  | .record _ => none
  | .slot a i => if a = address ∧ i = index then some value else none

variable (keccak : Keccak) (node : Node)

/-- The record with its code, which a stub lacks. -/
def completed (address : Address) (info : AccountInfo) : AccountInfo :=
  if info.IsStub keccak ∧ node.code address ≠ [] then
    { info with codeHash := keccak (node.code address), code := some (node.code address) }
  else info

namespace BlockStateDb

/-- The cells of a database, as the transactions of a caller find them. -/
def cells (caller : Address) (db : BlockStateDb) : (cell : Cell) → cell.Value
  | .record address => shown caller address (db.basic keccak node address).1
  | .slot address index => (db.slot address index).getD (node.storage address index)

/-- What a commit writes. -/
def committed (caller : Address) (changes : Address → Option EvmAccount) :
    (cell : Cell) → Option cell.Value
  | .record address =>
    (changes address).bind fun change =>
      if address ≠ caller ∧ change.IsEmpty keccak then none
      else some (shown caller address (completed keccak node address change.info))
  | .slot address index =>
    (changes address).bind fun change =>
      if address ≠ caller ∧ change.IsEmpty keccak then none else change.written index

end BlockStateDb

/-- The program a transaction is over the cells. -/
def Execution.toCells (caller : Address) :
    Execution → CellProg Cell Cell.Value (Option ExecutionResult)
  | .basic address next => .read (.record address) fun info => (next info).toCells caller
  | .storage address index next => .read (.slot address index) fun value =>
      (next value).toCells caller
  | .reject => .pure none
  | .finish result changes =>
    .write (BlockStateDb.committed keccak node caller changes) (.pure (some result))

variable {keccak node} {db : BlockStateDb} {caller address : Address}

/-! ## Records -/

theorem completed_completed (info : AccountInfo) :
    completed keccak node address (completed keccak node address info) =
      completed keccak node address info := by
  unfold completed
  by_cases h : info.IsStub keccak ∧ node.code address ≠ []
  · have hfilled : ¬ AccountInfo.IsStub keccak
        { info with codeHash := keccak (node.code address), code := some (node.code address) } :=
      fun hstub => nomatch hstub.1
    rw [if_pos h, if_neg fun hcompleted => hfilled hcompleted.1]
  · rw [if_neg h, if_neg h]

theorem completed_fetch :
    completed keccak node address (BlockStateDb.fetchAccountBlocking keccak node address) =
      BlockStateDb.fetchAccountBlocking keccak node address := by
  unfold completed
  refine if_neg fun ⟨hstub, hcode⟩ => ?_
  have hnone := hstub.1
  simp only [BlockStateDb.fetchAccountBlocking, if_neg hcode] at hnone
  cases hnone

/-- The nonce of the caller is not looked at. -/
theorem shown_completed_nonce (info : AccountInfo) (nonce : UInt64) :
    shown caller caller (completed keccak node caller { info with nonce := nonce }) =
      shown caller caller (completed keccak node caller info) := by
  unfold shown completed AccountInfo.IsStub
  rw [if_pos rfl, if_pos rfl]
  split <;> rfl

theorem countUp_ne_zero (nonce : UInt64) : countUp nonce ≠ 0 := by
  unfold countUp
  split
  next h => simp [h]
  next h =>
    intro hzero
    apply h
    have hsub : nonce = 0 - 1 := by rw [← hzero]; simp
    exact hsub

namespace BlockStateDb

/-- What a database knows of an account, or the node's answer. -/
def known (keccak : Keccak) (node : Node) (db : BlockStateDb) (address : Address) : AccountInfo :=
  ((db.accounts address).map Account.info).getD (fetchAccountBlocking keccak node address)

/-- The record `basic` returns. -/
theorem basic_info :
    (db.basic keccak node address).1 =
      completed keccak node address (db.known keccak node address) := by
  unfold basic known
  cases db.accounts address with
  | none => exact completed_fetch.symm
  | some account =>
    dsimp only [Option.map_some, Option.getD_some]
    unfold completed
    by_cases hstub : account.info.IsStub keccak
    · by_cases hcode : node.code address = []
      · rw [if_pos hstub, if_pos hcode, if_neg fun h => h.2 hcode]
      · rw [if_pos hstub, if_neg hcode, if_pos ⟨hstub, hcode⟩]
    · rw [if_neg hstub, if_neg fun h => hstub h.1]

/-- The database `basic` leaves. -/
theorem basic_accounts :
    (db.basic keccak node address).2.accounts =
      Function.update db.accounts address
        (some ⟨(db.basic keccak node address).1, fun index => db.slot address index⟩) := by
  unfold basic slot
  cases haccount : db.accounts address with
  | none => rfl
  | some account =>
    dsimp only [Option.bind_some]
    by_cases hstub : account.info.IsStub keccak
    · by_cases hcode : node.code address = []
      · rw [if_pos hstub, if_pos hcode, ← haccount, Function.update_eq_self]
      · rw [if_pos hstub, if_neg hcode]
        rfl
    · rw [if_neg hstub, ← haccount, Function.update_eq_self]

/-- Two databases with the same knowledge of the records and the same slots have the same cells. -/
theorem cells_congr {db' : BlockStateDb}
    (hrecord : ∀ a, completed keccak node a (db'.known keccak node a) =
      completed keccak node a (db.known keccak node a))
    (hslot : ∀ a index, (db'.slot a index).getD (node.storage a index) =
      (db.slot a index).getD (node.storage a index)) :
    db'.cells keccak node caller = db.cells keccak node caller := by
  funext cell
  cases cell with
  | record a =>
    unfold cells
    dsimp only
    rw [basic_info, basic_info, hrecord]
  | slot a index => exact hslot a index

/-- Loading an account changes no cell. -/
theorem cells_basic :
    (db.basic keccak node address).2.cells keccak node caller = db.cells keccak node caller := by
  have haccounts : (db.basic keccak node address).2.accounts = _ := basic_accounts
  apply cells_congr
  · intro a
    unfold known
    rw [haccounts]
    by_cases ha : a = address
    · subst ha
      rw [Function.update_self, Option.map_some, Option.getD_some, basic_info, completed_completed]
      rfl
    · rw [Function.update_of_ne ha]
  · intro a index
    unfold slot
    rw [haccounts]
    by_cases ha : a = address
    · subst ha
      rw [Function.update_self, Option.bind_some]
      rfl
    · rw [Function.update_of_ne ha]

/-- Nor does loading a slot of an account that is loaded. -/
theorem cells_storage (h : (db.accounts address).isSome) (index : U256) :
    (db.storage keccak node address index).2.cells keccak node caller =
      db.cells keccak node caller := by
  unfold storage
  cases hslot : db.slot address index with
  | some value => rfl
  | none =>
    obtain ⟨account, haccount⟩ := Option.isSome_iff_exists.mp h
    apply cells_congr
    · intro a
      refine congrArg (completed keccak node a) ?_
      unfold known updateSlot
      by_cases ha : a = address
      · subst ha
        rw [set_self, haccount]
        rfl
      · rw [set_of_ne ha]
    · intro a i
      dsimp only
      rw [slot_updateSlot]
      split
      next hcell =>
        rw [hcell.1, hcell.2, hslot]
        rfl
      next => rfl

theorem storage_value (index : U256) :
    (db.storage keccak node address index).1 =
      (db.slot address index).getD (node.storage address index) := by
  unfold storage
  cases db.slot address index <;> rfl

/-- A slot that is loaded with its account has the value of its cell. -/
theorem storage_cells (index : U256) :
    ((db.basic keccak node address).2.storage keccak node address index).1 =
        db.cells keccak node caller (.slot address index) ∧
      ((db.basic keccak node address).2.storage keccak node address index).2.cells keccak node
          caller = db.cells keccak node caller := by
  have hloaded : ((db.basic keccak node address).2.accounts address).isSome := by
    rw [basic_accounts, Function.update_self]
    rfl
  constructor
  · rw [storage_value]
    exact congrFun cells_basic (.slot address index)
  · rw [cells_storage hloaded, cells_basic]

/-- An injection changes its slot and no other cell. -/
theorem cells_injectSlot (index value : U256) :
    (db.injectSlot keccak node address index value).cells keccak node caller =
      CellProg.overwrite (db.cells keccak node caller) (Cell.only address index value) := by
  funext cell
  cases cell with
  | record a =>
    have hknown : (db.injectSlot keccak node address index value).known keccak node a =
        db.known keccak node a := by
      unfold known injectSlot
      by_cases ha : a = address
      · subst ha
        rw [set_self]
        cases db.accounts a <;> rfl
      · rw [set_of_ne ha]
    unfold cells
    dsimp only
    rw [basic_info, hknown, ← basic_info]
    rfl
  | slot a i =>
    unfold cells CellProg.overwrite Cell.only
    dsimp only
    rw [slot_injectSlot]
    split <;> rfl

/-! ### Commits -/

theorem known_commit (changes : Address → Option EvmAccount) (a : Address) :
    (db.commit keccak changes).known keccak node a =
      ((changes a).bind fun change =>
        if change.IsEmpty keccak then none else some change.info).getD
          (db.known keccak node a) := by
  unfold known commit
  dsimp only
  cases changes a with
  | none => rfl
  | some change =>
    dsimp only [Option.bind_some]
    by_cases hempty : change.IsEmpty keccak
    · rw [if_pos hempty, if_pos hempty]
      rfl
    · rw [if_neg hempty, if_neg hempty]
      rfl

/-- The account of the caller is never empty, for its nonce is not zero. -/
theorem isEmpty_counted (nonce : UInt64) (a : Address) (change : EvmAccount) :
    (counted caller nonce a change).IsEmpty keccak ↔ a ≠ caller ∧ change.IsEmpty keccak := by
  unfold counted
  by_cases ha : a = caller
  · rw [if_pos ha]
    exact iff_of_false (fun h => countUp_ne_zero nonce h.2.2) fun h => h.1 ha
  · rw [if_neg ha]
    exact (and_iff_right ha).symm

/-- What is taken from the accounts that are not empty. -/
theorem bind_countNonce {β : Type} (nonce : UInt64) (changes : Address → Option EvmAccount)
    (a : Address) (f : EvmAccount → Option β) :
    ((countNonce caller nonce changes a).bind fun change =>
        if change.IsEmpty keccak then none else f change) =
      (changes a).bind fun change =>
        if a ≠ caller ∧ change.IsEmpty keccak then none else f (counted caller nonce a change) := by
  unfold countNonce
  cases changes a with
  | none => rfl
  | some change =>
    dsimp only [Option.map_some, Option.bind_some]
    exact if_congr (isEmpty_counted nonce a change) rfl rfl

theorem shown_counted (nonce : UInt64) (a : Address) (change : EvmAccount) :
    shown caller a (completed keccak node a (counted caller nonce a change).info) =
      shown caller a (completed keccak node a change.info) := by
  unfold counted
  by_cases ha : a = caller
  · subst ha
    rw [if_pos rfl]
    exact shown_completed_nonce change.info _
  · rw [if_neg ha]

theorem written_counted (nonce : UInt64) (a : Address) (change : EvmAccount) (index : U256) :
    (counted caller nonce a change).written index = change.written index := by
  unfold counted
  split <;> rfl

/-- A commit changes the cells it writes. -/
theorem cells_commit (nonce : UInt64) (changes : Address → Option EvmAccount) :
    (db.commit keccak (countNonce caller nonce changes)).cells keccak node caller =
      CellProg.overwrite (db.cells keccak node caller)
        (committed keccak node caller changes) := by
  funext cell
  cases cell with
  | record a =>
    unfold cells CellProg.overwrite committed
    dsimp only
    rw [basic_info, known_commit, bind_countNonce, basic_info]
    cases changes a with
    | none => rfl
    | some change =>
      dsimp only [Option.bind_some]
      by_cases hempty : a ≠ caller ∧ change.IsEmpty keccak
      · rw [if_pos hempty, if_pos hempty]
        rfl
      · rw [if_neg hempty, if_neg hempty]
        exact shown_counted nonce a change
  | slot a index =>
    unfold cells CellProg.overwrite committed
    dsimp only
    rw [slot_commit, bind_countNonce]
    simp only [written_counted]
    cases (changes a).bind fun change =>
      if a ≠ caller ∧ change.IsEmpty keccak then none else change.written index <;> rfl

end BlockStateDb

/-! ## Transactions -/

/-- A transaction returns what its program returns, and leaves the cells it leaves. -/
theorem transactCommit_cells (execution : Execution) (db : BlockStateDb) :
    (db.transactCommit keccak node caller execution).1 =
        ((execution.toCells keccak node caller).run (db.cells keccak node caller)).1 ∧
      (db.transactCommit keccak node caller execution).2.cells keccak node caller =
        ((execution.toCells keccak node caller).run (db.cells keccak node caller)).2 := by
  induction execution generalizing db with
  | basic address next ih =>
    have hrest := ih (shown caller address (db.basic keccak node address).1)
      (db.basic keccak node address).2
    rw [BlockStateDb.cells_basic] at hrest
    exact hrest
  | storage address index next ih =>
    obtain ⟨hvalue, hcells⟩ : _ = db.cells keccak node caller (.slot address index) ∧ _ :=
      BlockStateDb.storage_cells index
    have hrest := ih ((db.basic keccak node address).2.storage keccak node address index).1
      ((db.basic keccak node address).2.storage keccak node address index).2
    rw [hcells] at hrest
    unfold BlockStateDb.transactCommit Execution.toCells CellProg.run
    rw [← hvalue]
    exact hrest
  | reject => exact ⟨rfl, rfl⟩
  | finish result changes =>
    refine ⟨rfl, ?_⟩
    unfold BlockStateDb.transactCommit
    dsimp only
    rw [BlockStateDb.cells_commit, BlockStateDb.cells_basic]
    rfl

end ArbBot.Accounts
