import ArbBot.Accounts.Database
import ArbBot.Laws.Accounts.Storage
import Mathlib.Data.List.Dedup

/-!
# Snapshots answer like their database

A snapshot starts with the accounts of the database, and stays equal to it as long as each call
meets a condition on the database before it. The condition names the records the two fetch
differently: an absent account and a stub need two bytes of code on chain, and a stub's balance and
nonce have to be the node's, since the copy takes these over too. Accounts that share a hash have
to share the code. A call that does not meet it can be answered differently.
-/

namespace ArbBot.Accounts

open Lib

variable {keccak : Keccak} {node : Node} {db : BlockStateDb}

/-- The record of an account is fetched alike: an absent account has two bytes of code on chain,
and so has a stub, whose balance and nonce are the node's. -/
def RecordAlike (keccak : Keccak) (node : Node) (db : BlockStateDb) (address : Address) : Prop :=
  match db.accounts address with
  | none => 2 ≤ (node.code address).length
  | some account => account.info.IsStub keccak →
      2 ≤ (node.code address).length ∧ account.info.balance = node.balance address ∧
        account.info.nonce = node.nonce address

/-- The accounts with the hash of a code share the code. -/
def CodeAlike (keccak : Keccak) (db : BlockStateDb) (codeHash : U256) : Prop :=
  codeHash = 0 ∨ codeHash = keccakEmpty keccak ∨
    ∀ a b account account', db.accounts a = some account → db.accounts b = some account' →
      account.info.codeHash = codeHash → account'.info.codeHash = codeHash →
        account.info.code.getD [] = account'.info.code.getD []

/-- The condition on a call, in the state before it. -/
def Alike (keccak : Keccak) (node : Node) (db : BlockStateDb) : Call → Prop
  | .basic address => RecordAlike keccak node db address
  | .storage _ _ => True
  | .codeByHash codeHash => CodeAlike keccak db codeHash

/-- Every call meets its condition in the state the calls before it leave. -/
def AllAlike (keccak : Keccak) (node : Node) : BlockStateDb → List Call → Prop
  | _, [] => True
  | db, call :: calls => Alike keccak node db call ∧
      AllAlike keccak node ((BlockStateDb.database keccak node).answer [] db call).2 calls

/-! ## Records -/

theorem fetch_eq_iff {address : Address} :
    SimDb.fetchAccountRpc keccak node address =
        BlockStateDb.fetchAccountBlocking keccak node address ↔
      2 ≤ (node.code address).length := by
  unfold SimDb.fetchAccountRpc BlockStateDb.fetchAccountBlocking
  cases node.code address with
  | nil => simp
  | cons byte rest =>
    cases rest with
    | nil => simp
    | cons byte' rest => simp

theorem snapshot_set (address : Address) (account : Account) :
    (SimDb.snapshot db).set address account = SimDb.snapshot (db.set address account) := rfl

/-- The copy takes over the fetched record where the database fills in the code alone. -/
theorem stub_eq_iff {address : Address} {info : AccountInfo} (hcode : node.code address ≠ []) :
    SimDb.fetchAccountRpc keccak node address =
        { info with
          codeHash := keccak (node.code address)
          code := some (node.code address) } ↔
      2 ≤ (node.code address).length ∧ info.balance = node.balance address ∧
        info.nonce = node.nonce address := by
  unfold SimDb.fetchAccountRpc
  rw [AccountInfo.mk.injEq]
  cases hbytes : node.code address with
  | nil => exact absurd hbytes hcode
  | cons byte rest =>
    cases rest with
    | nil => simp
    | cons byte' rest => simp [eq_comm]

theorem basic_eq_iff {address : Address} :
    (db.basic keccak node address).1 = ((SimDb.snapshot db).basic keccak node address).1 ↔
      RecordAlike keccak node db address := by
  have hsame : (SimDb.snapshot db).accounts address = db.accounts address := rfl
  unfold RecordAlike BlockStateDb.basic SimDb.basic
  rw [hsame]
  cases db.accounts address with
  | none =>
    dsimp only
    exact eq_comm.trans fetch_eq_iff
  | some account =>
    dsimp only
    by_cases hstub : account.info.IsStub keccak
    · rw [if_pos hstub, if_pos hstub]
      by_cases hcode : node.code address = []
      · rw [if_pos hcode]
        refine iff_of_false (fun h => ?_) fun h => ?_
        · have hmissing : (SimDb.fetchAccountRpc keccak node address).code = none :=
            (congrArg AccountInfo.code h).symm.trans hstub.1
          simp [SimDb.fetchAccountRpc, hcode] at hmissing
        · have := (h hstub).1
          rw [hcode] at this
          cases this
      · rw [if_neg hcode]
        exact eq_comm.trans ((stub_eq_iff hcode).trans ⟨fun hsame _ => hsame, fun h => h hstub⟩)
    · rw [if_neg hstub, if_neg hstub]
      exact iff_of_true rfl fun h => absurd h hstub

/-- After a call that meets its condition the copy is a snapshot of the database again. -/
theorem snapshot_basic {address : Address} (h : RecordAlike keccak node db address) :
    ((SimDb.snapshot db).basic keccak node address).2 =
      SimDb.snapshot (db.basic keccak node address).2 := by
  have hsame : (SimDb.snapshot db).accounts address = db.accounts address := rfl
  unfold RecordAlike at h
  unfold BlockStateDb.basic SimDb.basic
  rw [hsame]
  cases haccount : db.accounts address with
  | none =>
    rw [haccount] at h
    dsimp only
    rw [fetch_eq_iff.mpr h, snapshot_set]
  | some account =>
    rw [haccount] at h
    dsimp only at h ⊢
    by_cases hstub : account.info.IsStub keccak
    · have hlen := (h hstub).1
      have hcode : node.code address ≠ [] := by
        intro hnil
        rw [hnil] at hlen
        cases hlen
      rw [if_pos hstub, if_pos hstub, if_neg hcode]
      dsimp only
      rw [(stub_eq_iff hcode).mpr (h hstub), snapshot_set]
    · rw [if_neg hstub, if_neg hstub]

theorem snapshot_storage (address : Address) (index : U256) :
    (SimDb.snapshot db).storage keccak node address index =
      ((db.storage keccak node address index).1,
        SimDb.snapshot (db.storage keccak node address index).2) := by
  have hsame : (SimDb.snapshot db).slot address index = db.slot address index := rfl
  unfold BlockStateDb.storage SimDb.storage
  rw [hsame]
  cases db.slot address index <;> rfl

/-! ## Codes -/

theorem exists_order (accounts : Address → Option Account) : ∃ order, IsOrder order accounts := by
  let every := (List.range (2 ^ 160)).map (BitVec.ofNat 160)
  have hevery : ∀ address, address ∈ every := fun address =>
    List.mem_map.mpr ⟨address.toNat, List.mem_range.mpr address.isLt, BitVec.ofNat_toNat 160 address⟩
  refine ⟨every.dedup.filter fun address => (accounts address).isSome,
    (List.nodup_dedup every).filter _, fun address => ?_⟩
  rw [List.mem_filter, List.mem_dedup]
  exact and_iff_right (hevery address)

/-- Any account can come first. -/
theorem exists_order_first {accounts : Address → Option Account} {a : Address} {account : Account}
    (ha : accounts a = some account) : ∃ order, IsOrder (a :: order) accounts := by
  obtain ⟨order, hnodup, hmem⟩ := exists_order accounts
  refine ⟨order.erase a, List.nodup_cons.mpr ⟨hnodup.not_mem_erase, hnodup.erase a⟩, fun b => ?_⟩
  by_cases hb : b = a
  · subst hb
    exact iff_of_true (List.mem_cons_self ..) (by rw [ha]; rfl)
  · rw [List.mem_cons, or_iff_right hb, List.mem_erase_of_ne hb, hmem]

/-- The first account with the hash decides. -/
theorem codeByHash_first {accounts : Address → Option Account} {a : Address} {account : Account}
    {order : List Address} {codeHash : U256} (ha : accounts a = some account)
    (hhash : account.info.codeHash = codeHash)
    (hreal : ¬ (codeHash = 0 ∨ codeHash = keccakEmpty keccak)) :
    codeByHash keccak (a :: order) accounts codeHash = account.info.code.getD [] := by
  unfold codeByHash
  rw [if_neg hreal, List.filterMap_cons_some ha, List.find?_cons_of_pos (by simpa using hhash)]

/-- Whatever the order, the code found is that of an account with the hash, or empty when there is
none. -/
theorem codeByHash_cases {accounts : Address → Option Account} {order : List Address}
    {codeHash : U256} (horder : IsOrder order accounts)
    (hreal : ¬ (codeHash = 0 ∨ codeHash = keccakEmpty keccak)) :
    (∃ a account, accounts a = some account ∧ account.info.codeHash = codeHash ∧
        codeByHash keccak order accounts codeHash = account.info.code.getD []) ∨
      (∀ a account, accounts a = some account → account.info.codeHash ≠ codeHash) ∧
        codeByHash keccak order accounts codeHash = [] := by
  unfold codeByHash
  rw [if_neg hreal]
  cases hfind : (order.filterMap accounts).find? fun account =>
      account.info.codeHash = codeHash with
  | some account =>
    obtain ⟨a, -, ha⟩ := List.mem_filterMap.mp (List.mem_of_find?_eq_some hfind)
    have hhash := List.find?_some hfind
    exact .inl ⟨a, account, ha, by simpa using hhash, rfl⟩
  | none =>
    refine .inr ⟨fun a account ha hhash => ?_, rfl⟩
    have hmem : account ∈ order.filterMap accounts :=
      List.mem_filterMap.mpr ⟨a, (horder.mem a).mpr (by rw [ha]; rfl), ha⟩
    have hnot := List.find?_eq_none.mp hfind account hmem
    exact hnot (by simpa using hhash)

theorem codeByHash_eq {order order' : List Address} {codeHash : U256}
    (horder : IsOrder order db.accounts) (horder' : IsOrder order' db.accounts)
    (h : CodeAlike keccak db codeHash) :
    codeByHash keccak order db.accounts codeHash =
      codeByHash keccak order' db.accounts codeHash := by
  by_cases hreal : codeHash = 0 ∨ codeHash = keccakEmpty keccak
  · unfold codeByHash
    rw [if_pos hreal, if_pos hreal]
  · have hshared := (h.resolve_left fun hz => hreal (.inl hz)).resolve_left fun he => hreal (.inr he)
    rcases codeByHash_cases horder hreal with ⟨a, account, ha, hhash, hcode⟩ | ⟨hnone, hcode⟩
    · rcases codeByHash_cases horder' hreal with ⟨b, account', hb, hhash', hcode'⟩ | ⟨hnone', -⟩
      · rw [hcode, hcode']
        exact hshared a b account account' ha hb hhash hhash'
      · exact absurd hhash (hnone' a account ha)
    · rcases codeByHash_cases horder' hreal with ⟨b, account', hb, hhash', -⟩ | ⟨-, hcode'⟩
      · exact absurd hhash' (hnone b account' hb)
      · rw [hcode, hcode']

/-! ## Sequences of calls -/

/-- The state a call leaves does not depend on the order of the accounts. -/
theorem answer_state (order : List Address) (call : Call) :
    ((BlockStateDb.database keccak node).answer order db call).2 =
      ((BlockStateDb.database keccak node).answer [] db call).2 := by
  cases call <;> rfl

/-- A call that meets its condition is answered alike, and leaves a snapshot again. -/
theorem Alike.answer {call : Call} {order order' : List Address} (h : Alike keccak node db call)
    (horder : IsOrder order db.accounts) (horder' : IsOrder order' db.accounts) :
    (SimDb.database keccak node).answer order' (SimDb.snapshot db) call =
      (((BlockStateDb.database keccak node).answer order db call).1,
        SimDb.snapshot ((BlockStateDb.database keccak node).answer order db call).2) := by
  cases call with
  | basic address =>
    exact Prod.ext (congrArg Answer.info (basic_eq_iff.mpr h).symm) (snapshot_basic h)
  | storage address index =>
    have hstorage : (SimDb.snapshot db).storage keccak node address index = _ :=
      snapshot_storage address index
    have hvalue := congrArg Prod.fst hstorage
    have hstate := congrArg Prod.snd hstorage
    exact Prod.ext (congrArg Answer.value hvalue) hstate
  | codeByHash codeHash =>
    exact Prod.ext (congrArg Answer.code (codeByHash_eq horder' horder h)) rfl

/-- A call that does not meet its condition can be answered differently. -/
theorem exists_different {call : Call} (h : ¬ Alike keccak node db call) :
    ∃ order order', IsOrder order db.accounts ∧ IsOrder order' db.accounts ∧
      ((BlockStateDb.database keccak node).answer order db call).1 ≠
        ((SimDb.database keccak node).answer order' (SimDb.snapshot db) call).1 := by
  obtain ⟨order, horder⟩ := exists_order db.accounts
  cases call with
  | basic address =>
    exact ⟨order, order, horder, horder, fun hsame => h (basic_eq_iff.mp (Answer.info.inj hsame))⟩
  | storage address index => exact absurd trivial h
  | codeByHash codeHash =>
    unfold Alike CodeAlike at h
    push Not at h
    obtain ⟨hzero, hempty, a, b, account, account', ha, hb, hhash, hhash', hdiffer⟩ := h
    have hreal : ¬ (codeHash = 0 ∨ codeHash = keccakEmpty keccak) := not_or.mpr ⟨hzero, hempty⟩
    obtain ⟨rest, hrest⟩ := exists_order_first ha
    obtain ⟨rest', hrest'⟩ := exists_order_first hb
    refine ⟨a :: rest, b :: rest', hrest, hrest', fun hsame => hdiffer ?_⟩
    have hcodes := Answer.code.inj hsame
    rw [codeByHash_first ha hhash hreal] at hcodes
    exact hcodes.trans (codeByHash_first hb hhash' hreal)

/-- Every sequence of calls has answers. -/
theorem exists_answers {σ : Type} (d : Database σ) (calls : List Call) (s : σ) :
    ∃ answers, d.Answers s calls answers := by
  induction calls generalizing s with
  | nil => exact ⟨[], .nil s⟩
  | cons call calls ih =>
    obtain ⟨order, horder⟩ := exists_order (d.accounts s)
    obtain ⟨answers, hanswers⟩ := ih (d.answer order s call).2
    exact ⟨_, .cons horder hanswers⟩

/-- **A snapshot answers a sequence of calls like its database, in whatever order the maps are gone
through, if and only if every call meets the condition in the state before it**: an account that is
asked for is present with its code, or it has two bytes of code on chain and, if present, the
node's balance and nonce; and accounts with the hash of a code that is asked for share it. -/
theorem snapshot_answers_iff (keccak : Keccak) (node : Node) (db : BlockStateDb)
    (calls : List Call) :
    (∀ answers answers', (BlockStateDb.database keccak node).Answers db calls answers →
        (SimDb.database keccak node).Answers (SimDb.snapshot db) calls answers' →
          answers = answers') ↔
      AllAlike keccak node db calls := by
  induction calls generalizing db with
  | nil =>
    refine iff_of_true (fun answers answers' h h' => ?_) trivial
    cases h
    cases h'
    rfl
  | cons call calls ih =>
    constructor
    · intro hsame
      have hcall : Alike keccak node db call := by
        by_contra hnot
        obtain ⟨order, order', horder, horder', hne⟩ := exists_different hnot
        obtain ⟨answers, hanswers⟩ := exists_answers (BlockStateDb.database keccak node) calls
          ((BlockStateDb.database keccak node).answer order db call).2
        obtain ⟨answers', hanswers'⟩ := exists_answers (SimDb.database keccak node) calls
          ((SimDb.database keccak node).answer order' (SimDb.snapshot db) call).2
        have heq := hsame _ _ (.cons horder hanswers) (.cons horder' hanswers')
        exact hne (List.cons.inj heq).1
      refine ⟨hcall, (ih _).mp fun answers answers' h h' => ?_⟩
      obtain ⟨order, horder⟩ := exists_order db.accounts
      have hanswer := hcall.answer horder horder
      rw [← answer_state order] at h h'
      have hrest : (SimDb.database keccak node).Answers
          ((SimDb.database keccak node).answer order (SimDb.snapshot db) call).2 calls answers' := by
        rw [hanswer]
        exact h'
      exact (List.cons.inj (hsame _ _ (.cons horder h) (.cons horder hrest))).2
    · rintro ⟨hcall, hcalls⟩ answers answers' h h'
      cases h with
      | @cons _ _ _ rest order horder hrest =>
      cases h' with
      | @cons _ _ _ rest' order' horder' hrest' =>
      have hanswer := hcall.answer horder horder'
      rw [hanswer] at hrest' ⊢
      refine congrArg₂ List.cons rfl ((ih _).mpr hcalls rest rest' ?_ ?_)
      · rw [← answer_state order]
        exact hrest
      · rw [← answer_state order]
        exact hrest'

/-! ### The caller's ether -/

/-- Nothing is on chain. -/
def emptyChain : Node := ⟨fun _ => 0, fun _ => 0, fun _ => [], fun _ _ => 0⟩

/-- A hash that tells lengths apart. -/
def lengthHash : Keccak := fun bytes => BitVec.ofNat 256 (bytes.length + 1)

/-- The database has the caller that was deployed with 1000 ether; in a snapshot the same caller
has none. -/
theorem caller_without_ether :
    ∃ db answers answers', deployInto lengthHash (some [0x60, 0x01]) .new = some db ∧
      (BlockStateDb.database lengthHash emptyChain).Answers db [.basic callerAddress] answers ∧
        (SimDb.database lengthHash emptyChain).Answers (SimDb.snapshot db)
          [.basic callerAddress] answers' ∧ answers ≠ answers' := by
  obtain ⟨db, hdb⟩ : ∃ db, deployInto lengthHash (some [0x60, 0x01]) .new = some db := ⟨_, rfl⟩
  obtain ⟨order, horder⟩ := exists_order db.accounts
  refine ⟨db, _, _, hdb, .cons horder (.nil _), .cons horder (.nil _), fun hsame => ?_⟩
  have hinfo := Answer.info.inj (List.cons.inj hsame).1
  cases hdb
  exact absurd (congrArg AccountInfo.balance hinfo) (by decide)

end ArbBot.Accounts
