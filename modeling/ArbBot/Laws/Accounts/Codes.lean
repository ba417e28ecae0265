import ArbBot.Accounts.Workers
import ArbBot.Laws.Accounts.Snapshot
import ArbBot.Lib.Runs

/-!
# Contracts keep their code

A record of a contract is sound when it shows the contract's code with its hash, or is a stub, whose
code is fetched on demand. The default record is neither, since its code is there and empty, so an
account that comes into the map with a slot and nothing else passes for an externally owned account
from then on: no later fetch, prefetch or merge repairs it. As long as no slot is written to the
contract before its record is known, every record of it stays sound, in the shared database and in
all copies. A copy cannot fetch a code of one byte, so two are needed for the copies.
-/

namespace ArbBot.Accounts

open Lib

variable {keccak : Keccak} {a : Address} {c : Bytes}

/-- The record shows the code. -/
structure Shows (keccak : Keccak) (c : Bytes) (info : AccountInfo) : Prop where
  code : info.code = some c
  codeHash : info.codeHash = keccak c

/-- The record shows the code, or its code is still to be fetched. -/
def Sound (keccak : Keccak) (c : Bytes) (info : AccountInfo) : Prop :=
  Shows keccak c info ∨ info.IsStub keccak

/-- The record of the address, if there is one. -/
def infoAt (accounts : Address → Option Account) (a : Address) : Option AccountInfo :=
  (accounts a).map Account.info

/-- The record of the address is sound, if there is one. -/
def SoundAt (keccak : Keccak) (c : Bytes) (accounts : Address → Option Account) (a : Address) :
    Prop :=
  ∀ info, infoAt accounts a = some info → Sound keccak c info

theorem infoAt_set_self (db : BlockStateDb) (account : Account) :
    infoAt (db.set a account).accounts a = some account.info := by
  rw [infoAt, BlockStateDb.set_self, Option.map_some]

theorem infoAt_set_of_ne {b : Address} (h : a ≠ b) (db : BlockStateDb) (account : Account) :
    infoAt (db.set b account).accounts a = infoAt db.accounts a := by
  rw [infoAt, BlockStateDb.set_of_ne h, infoAt]

theorem SoundAt.congr {accounts accounts' : Address → Option Account}
    (h : infoAt accounts' a = infoAt accounts a) :
    SoundAt keccak c accounts' a ↔ SoundAt keccak c accounts a := by
  rw [SoundAt, h, SoundAt]

theorem soundAt_of_some {accounts : Address → Option Account} {info : AccountInfo}
    (h : infoAt accounts a = some info) : SoundAt keccak c accounts a ↔ Sound keccak c info :=
  ⟨fun hsound => hsound info h, fun hsound _ hinfo => Option.some.inj (h.symm.trans hinfo) ▸ hsound⟩

/-- The default record is not sound for a contract. -/
theorem not_sound_default (hc : c ≠ []) : ¬ Sound keccak c (defaultInfo keccak) := by
  rintro (hshows | hstub)
  · exact hc (Option.some.inj hshows.code).symm
  · cases hstub.1

/-! ## What is asked for -/

/-- `basic` shows the code, on a database whose node knows it, exactly when the record is sound. -/
theorem shows_basic_iff (hc : c ≠ []) {db : BlockStateDb} {node : Node} (hnode : node.code a = c) :
    Shows keccak c (db.basic keccak node a).1 ↔ SoundAt keccak c db.accounts a := by
  unfold SoundAt infoAt BlockStateDb.basic
  cases db.accounts a with
  | none =>
    refine iff_of_true ⟨?_, ?_⟩ nofun
    · simp only [BlockStateDb.fetchAccountBlocking, hnode, if_neg hc]
    · simp only [BlockStateDb.fetchAccountBlocking, hnode, if_neg hc]
  | some account =>
    simp only [Option.map_some, Option.some.injEq, forall_eq']
    by_cases hstub : account.info.IsStub keccak
    · rw [if_pos hstub, hnode, if_neg hc]
      exact iff_of_true ⟨rfl, rfl⟩ (.inr hstub)
    · rw [if_neg hstub]
      exact (or_iff_left hstub).symm

/-- The same of a copy, for a code of two bytes or more. -/
theorem shows_basic_sim_iff (hlen : 2 ≤ c.length) {sim : SimDb} {node : Node}
    (hnode : node.code a = c) :
    Shows keccak c (sim.basic keccak node a).1 ↔ SoundAt keccak c sim.accounts a := by
  have hfetch : Shows keccak c (SimDb.fetchAccountRpc keccak node a) := by
    unfold SimDb.fetchAccountRpc
    rw [hnode]
    exact ⟨if_pos hlen, if_pos hlen⟩
  unfold SoundAt infoAt SimDb.basic
  cases sim.accounts a with
  | none => exact iff_of_true hfetch nofun
  | some account =>
    simp only [Option.map_some, Option.some.injEq, forall_eq']
    by_cases hstub : account.info.IsStub keccak
    · rw [if_pos hstub]
      exact iff_of_true hfetch (.inr hstub)
    · rw [if_neg hstub]
      exact (or_iff_left hstub).symm

/-- A copy cannot see a code of one byte. -/
theorem two_le_of_shows {node : Node} (hc : c ≠ []) (hnode : node.code a = c)
    (h : Shows keccak c (SimDb.fetchAccountRpc keccak node a)) : 2 ≤ c.length := by
  have hcode := h.code
  unfold SimDb.fetchAccountRpc at hcode
  rw [hnode] at hcode
  by_contra hshort
  exact hc (Option.some.inj ((if_neg hshort).symm.trans hcode)).symm

/-! ## Records that come into the map -/

/-- The slots an operation writes to the database it meets. -/
def Upkeep.slotWrites (keccak : Keccak) (db : BlockStateDb) :
    Upkeep → List (Address × U256 × U256)
  | .updateSlot address slot value => [(address, slot, value)]
  | .storage node address index =>
    if (db.slot address index).isSome then [] else [(address, index, node.storage address index)]
  | .applyStateDiffs diffs => db.diffWrites diffs
  | .prefetchTokenSlots node => db.tokenWrites node
  | .prefetchV3Slots node => db.v3Writes node
  | .prefetchV3TickData node pools => db.tickWrites keccak node pools
  | _ => []

/-- Slots that are written change no record, and bring a default one where there is none. -/
theorem infoAt_updateSlots (db : BlockStateDb) (writes : List (Address × U256 × U256)) :
    infoAt (db.updateSlots keccak writes).accounts a =
      if a ∈ writes.map Prod.fst then some ((infoAt db.accounts a).getD (defaultInfo keccak))
      else infoAt db.accounts a :=
  BlockStateDb.updateSlots_accounts writes db

/-- Where records are sound, writing slots keeps them so unless it brings in the default one. -/
theorem soundAt_updateSlots_iff (hc : c ≠ []) {db : BlockStateDb}
    {writes : List (Address × U256 × U256)} (h : SoundAt keccak c db.accounts a) :
    SoundAt keccak c (db.updateSlots keccak writes).accounts a ↔
      (a ∈ writes.map Prod.fst → (infoAt db.accounts a).isSome) := by
  by_cases hwrites : a ∈ writes.map Prod.fst
  · have hinfo : infoAt (db.updateSlots keccak writes).accounts a = _ :=
      infoAt_updateSlots db writes
    rw [if_pos hwrites] at hinfo
    rw [soundAt_of_some hinfo, forall_prop_of_true hwrites]
    cases hrecord : infoAt db.accounts a with
    | none => exact iff_of_false (not_sound_default hc) nofun
    | some info => exact iff_of_true (h info hrecord) rfl
  · have hinfo : infoAt (db.updateSlots keccak writes).accounts a = _ :=
      infoAt_updateSlots db writes
    rw [if_neg hwrites] at hinfo
    exact iff_of_true ((SoundAt.congr hinfo).mpr h) fun hmem => absurd hmem hwrites

theorem soundAt_updateSlot_iff (hc : c ≠ []) {db : BlockStateDb} (b : Address) (slot value : U256)
    (h : SoundAt keccak c db.accounts a) :
    SoundAt keccak c (db.updateSlot keccak b slot value).accounts a ↔
      (a ∈ [b] → (infoAt db.accounts a).isSome) := by
  have hwrites : ∀ writes, SoundAt keccak c (db.updateSlots keccak writes).accounts a ↔
      (a ∈ writes.map Prod.fst → (infoAt db.accounts a).isSome) :=
    fun _ => soundAt_updateSlots_iff hc h
  exact hwrites [(b, slot, value)]

theorem soundAt_basic (hc : c ≠ []) {db : BlockStateDb} {node : Node} (hnode : node.code a = c)
    (b : Address) (h : SoundAt keccak c db.accounts a) :
    SoundAt keccak c (db.basic keccak node b).2.accounts a := by
  by_cases hb : a = b
  · subst hb
    have hshows := (shows_basic_iff hc hnode).mpr h
    unfold BlockStateDb.basic at hshows ⊢
    cases haccount : db.accounts a with
    | none =>
      rw [haccount] at hshows
      exact (soundAt_of_some (infoAt_set_self db _)).mpr (.inl hshows)
    | some account =>
      rw [haccount] at hshows
      dsimp only at hshows ⊢
      by_cases hstub : account.info.IsStub keccak
      · rw [if_pos hstub, hnode, if_neg hc] at hshows ⊢
        exact (soundAt_of_some (infoAt_set_self db _)).mpr (.inl hshows)
      · rw [if_neg hstub]
        exact h
  · refine (SoundAt.congr ?_).mpr h
    unfold BlockStateDb.basic
    cases db.accounts b with
    | none => exact infoAt_set_of_ne hb db _
    | some account =>
      dsimp only
      split
      · split
        · rfl
        · exact infoAt_set_of_ne hb db _
      · rfl

theorem soundAt_prefetchPoolCodes (hc : c ≠ []) {db : BlockStateDb} {node : Node}
    (hnode : node.code a = c) (h : SoundAt keccak c db.accounts a) :
    SoundAt keccak c (db.prefetchPoolCodes keccak node).accounts a := by
  unfold BlockStateDb.prefetchPoolCodes
  generalize db.needsCode = pools
  induction pools generalizing db with
  | nil => exact h
  | cons pool pools ih =>
    rw [List.foldl_cons]
    apply ih
    unfold BlockStateDb.storeCode
    by_cases hpool : a = pool
    · subst hpool
      dsimp only
      rw [hnode, if_neg hc]
      exact (soundAt_of_some (infoAt_set_self db _)).mpr (.inl ⟨rfl, rfl⟩)
    · dsimp only
      split
      · exact h
      · exact (SoundAt.congr (infoAt_set_of_ne hpool db _)).mpr h

/-! ## Copies and merges -/

theorem soundAt_sim_basic (hlen : 2 ≤ c.length) {sim : SimDb} {node : Node}
    (hnode : node.code a = c) (b : Address) (h : SoundAt keccak c sim.accounts a) :
    SoundAt keccak c (sim.basic keccak node b).2.accounts a := by
  by_cases hb : a = b
  · subst hb
    have hshows := (shows_basic_sim_iff hlen hnode).mpr h
    unfold SimDb.basic at hshows ⊢
    cases haccount : sim.accounts a with
    | none =>
      rw [haccount] at hshows
      exact (soundAt_of_some (congrArg (Option.map Account.info) (SimDb.set_self _))).mpr
        (.inl hshows)
    | some account =>
      rw [haccount] at hshows
      dsimp only at hshows ⊢
      by_cases hstub : account.info.IsStub keccak
      · rw [if_pos hstub] at hshows ⊢
        exact (soundAt_of_some (congrArg (Option.map Account.info) (SimDb.set_self _))).mpr
          (.inl hshows)
      · rw [if_neg hstub]
        exact h
  · refine (SoundAt.congr ?_).mpr h
    unfold SimDb.basic
    cases sim.accounts b with
    | none => exact congrArg (Option.map Account.info) (SimDb.set_of_ne hb _)
    | some account =>
      dsimp only
      split
      · exact congrArg (Option.map Account.info) (SimDb.set_of_ne hb _)
      · rfl

/-- A slot the copy fetches brings the default record where there is none. -/
theorem soundAt_sim_storage_iff (hc : c ≠ []) {sim : SimDb} {node : Node} (b : Address)
    (index : U256) (h : SoundAt keccak c sim.accounts a) :
    SoundAt keccak c (sim.storage keccak node b index).2.accounts a ↔
      (b = a → (infoAt sim.accounts a).isSome) := by
  unfold SimDb.storage
  cases hslot : sim.slot b index with
  | some value =>
    refine iff_of_true h fun hb => ?_
    subst hb
    obtain ⟨account, haccount, -⟩ := Option.bind_eq_some_iff.mp hslot
    rw [infoAt, haccount]
    rfl
  | none =>
    dsimp only
    by_cases hb : b = a
    · subst hb
      rw [soundAt_of_some (congrArg (Option.map Account.info) (SimDb.set_self _)),
        forall_prop_of_true rfl, Account.write_info]
      unfold SoundAt infoAt at h
      unfold infoAt
      cases haccount : sim.accounts b with
      | none => exact iff_of_false (not_sound_default hc) nofun
      | some account =>
        rw [haccount] at h
        exact iff_of_true (h account.info rfl) rfl
    · refine iff_of_true ((SoundAt.congr ?_).mpr h) fun h' => absurd h' hb
      exact congrArg (Option.map Account.info) (SimDb.set_of_ne (Ne.symm hb) _)

/-- The merge of sound records is sound. -/
theorem Sound.merge {entry fetched : AccountInfo} (hentry : Sound keccak c entry)
    (hfetched : Sound keccak c fetched) : Sound keccak c (SimDb.mergeInfo entry fetched) := by
  unfold SimDb.mergeInfo
  split
  · rename_i h
    have hshows : Shows keccak c fetched := by
      refine hfetched.resolve_right fun hstub => ?_
      rw [hstub.1] at h
      cases h.1
    exact .inl ⟨hshows.code, hshows.codeHash⟩
  · exact hentry

theorem soundAt_writeBack {sim : SimDb} {db : BlockStateDb}
    (hsim : SoundAt keccak c sim.accounts a) (hdb : SoundAt keccak c db.accounts a) :
    SoundAt keccak c (sim.writeBack db).accounts a := by
  unfold SoundAt infoAt at hsim hdb ⊢
  unfold SimDb.writeBack
  dsimp only
  cases haccount : sim.accounts a with
  | none => exact hdb
  | some account =>
    have hfetched := hsim account.info (by rw [haccount, Option.map_some])
    intro info hinfo
    rw [Option.map_some] at hinfo
    obtain rfl := Option.some.inj hinfo
    cases hentry : db.accounts a with
    | none => exact hfetched.merge hfetched
    | some entry => exact (hdb entry.info (by rw [hentry, Option.map_some])).merge hfetched

/-! ## Steps and runs -/

variable {ι : Type} [DecidableEq ι]

/-- The node of an operation has the code at the address. -/
def Upkeep.CodeAt (a : Address) (c : Bytes) : Upkeep → Prop
  | .storage node _ _ | .basic node _ | .prefetchPoolCodes node | .prefetchTokenSlots node
  | .prefetchV3Slots node | .prefetchV3TickData node _ => node.code a = c
  | _ => True

/-- The node of a step has the code at the address. -/
def Step.CodeAt (a : Address) (c : Bytes) : Step ι Upkeep → Prop
  | .shared op => op.CodeAt a c
  | .basic _ node _ | .storage _ node _ _ => node.code a = c
  | _ => True

/-- A step injects a record at the address. -/
def Step.Injects (a : Address) : Step ι Upkeep → Prop
  | .shared (.injectAccount address _) => address = a
  | _ => False

/-- A step of the system while the chain has the code at the address and nothing is injected
there. -/
def Deployed (keccak : Keccak) (a : Address) (c : Bytes) (s : System ι) (i : Step ι Upkeep)
    (t : System ι) : Prop :=
  s.step keccak (Upkeep.perform keccak) i = t ∧ i.CodeAt a c ∧ ¬ i.Injects a

/-- The step writes no slot of the address before its record is known. -/
def Known (keccak : Keccak) (a : Address) (s : System ι) : Step ι Upkeep → Prop
  | .shared op => a ∈ (op.slotWrites keccak s.db).map Prod.fst → (infoAt s.db.accounts a).isSome
  | .storage worker _ address _ => ∀ sim, s.copies worker = some sim → address = a →
      (infoAt sim.accounts a).isSome
  | _ => True

/-- Whoever asks for the account is shown the code: the shared database, a snapshot of it, and
every copy. -/
structure ShowsCode (keccak : Keccak) (a : Address) (c : Bytes) (s : System ι) : Prop where
  shared : ∀ node : Node, node.code a = c → Shows keccak c (s.db.basic keccak node a).1
  snapshot : ∀ node : Node, node.code a = c →
    Shows keccak c ((SimDb.snapshot s.db).basic keccak node a).1
  copies : ∀ worker sim (node : Node), s.copies worker = some sim → node.code a = c →
    Shows keccak c (sim.basic keccak node a).1

/-- Every record of the address is sound. -/
structure AllSound (keccak : Keccak) (a : Address) (c : Bytes) (s : System ι) : Prop where
  shared : SoundAt keccak c s.db.accounts a
  copies : ∀ worker sim, s.copies worker = some sim → SoundAt keccak c sim.accounts a

/-- A node that has the code. -/
def codeNode (c : Bytes) : Node := ⟨fun _ => 0, fun _ => 0, fun _ => c, fun _ _ => 0⟩

omit [DecidableEq ι] in
theorem showsCode_iff (hlen : 2 ≤ c.length) {s : System ι} :
    ShowsCode keccak a c s ↔ AllSound keccak a c s := by
  have hc : c ≠ [] := List.ne_nil_of_length_pos (Nat.lt_of_succ_lt hlen)
  constructor
  · intro h
    exact ⟨(shows_basic_iff hc rfl).mp (h.shared (codeNode c) rfl), fun worker sim hsim =>
      (shows_basic_sim_iff hlen rfl).mp (h.copies worker sim (codeNode c) hsim rfl)⟩
  · intro h
    exact ⟨fun node hnode => (shows_basic_iff hc hnode).mpr h.shared,
      fun node hnode => (shows_basic_sim_iff hlen hnode).mpr h.shared,
      fun worker sim node hsim hnode =>
        (shows_basic_sim_iff hlen hnode).mpr (h.copies worker sim hsim)⟩

/-- What holds of every copy after one of them has changed. -/
theorem forall_modifyCopy {P : SimDb → Prop} {s : System ι} {worker : ι} {f : SimDb → SimDb} :
    (∀ w sim, (s.modifyCopy worker f).copies w = some sim → P sim) ↔
      (∀ sim, s.copies worker = some sim → P (f sim)) ∧
        ∀ w, w ≠ worker → ∀ sim, s.copies w = some sim → P sim := by
  unfold System.modifyCopy
  dsimp only
  constructor
  · intro h
    refine ⟨fun sim hsim => h worker (f sim) ?_, fun w hw sim hsim => h w sim ?_⟩
    · rw [Function.update_self, hsim, Option.map_some]
    · rwa [Function.update_of_ne hw]
  · rintro ⟨hself, hother⟩ w sim hsim
    by_cases hw : w = worker
    · subst hw
      rw [Function.update_self] at hsim
      obtain ⟨before, hbefore, rfl⟩ := Option.map_eq_some_iff.mp hsim
      exact hself before hbefore
    · rw [Function.update_of_ne hw] at hsim
      exact hother w hw sim hsim

/-- An operation is a batch of slots that are written, or keeps the records sound. -/
theorem soundAt_perform_iff (hc : c ≠ []) {db : BlockStateDb} {op : Upkeep}
    (hnode : op.CodeAt a c) (hinject : ∀ info, op ≠ .injectAccount a info)
    (h : SoundAt keccak c db.accounts a) :
    SoundAt keccak c (op.perform keccak db).accounts a ↔
      (a ∈ (op.slotWrites keccak db).map Prod.fst → (infoAt db.accounts a).isSome) := by
  cases op with
  | trackPool pool => exact iff_of_true h nofun
  | injectAccount address info =>
    have hne : a ≠ address := fun heq => hinject info (heq ▸ rfl)
    exact iff_of_true ((SoundAt.congr (infoAt_set_of_ne hne db _)).mpr h) nofun
  | updateSlot address slot value =>
    exact soundAt_updateSlot_iff hc address slot value h
  | storage node address index =>
    dsimp only [Upkeep.perform, Upkeep.slotWrites]
    unfold BlockStateDb.storage
    cases db.slot address index with
    | some value => exact iff_of_true h nofun
    | none =>
      exact soundAt_updateSlot_iff hc address index (node.storage address index) h
  | basic node address => exact iff_of_true (soundAt_basic hc hnode address h) nofun
  | applyStateDiffs diffs => exact soundAt_updateSlots_iff hc h
  | prefetchPoolCodes node => exact iff_of_true (soundAt_prefetchPoolCodes hc hnode h) nofun
  | prefetchTokenSlots node => exact soundAt_updateSlots_iff hc h
  | prefetchV3Slots node => exact soundAt_updateSlots_iff hc h
  | prefetchV3TickData node pools =>
    have hregister : SoundAt keccak c (db.registerPancake pools).accounts a := h
    exact soundAt_updateSlots_iff hc hregister

/-- The step lemma: sound records stay sound exactly when no slot is written before the record is
known. -/
theorem allSound_step_iff (hlen : 2 ≤ c.length) {s t : System ι} {i : Step ι Upkeep}
    (h : AllSound keccak a c s) (hstep : Deployed keccak a c s i t) :
    AllSound keccak a c t ↔ Known keccak a s i := by
  have hc : c ≠ [] := List.ne_nil_of_length_pos (Nat.lt_of_succ_lt hlen)
  obtain ⟨rfl, hnode, hinject⟩ := hstep
  cases i with
  | shared op =>
    have hop := soundAt_perform_iff hc hnode
      (fun info heq => hinject (by rw [heq]; rfl)) h.shared
    exact ⟨fun ht => hop.mp ht.shared, fun hknown => ⟨hop.mpr hknown, h.copies⟩⟩
  | snapshot worker =>
    refine iff_of_true ⟨h.shared, fun w sim hsim => ?_⟩ trivial
    dsimp only [System.step] at hsim
    by_cases hw : w = worker
    · subst hw
      rw [Function.update_self] at hsim
      obtain rfl := Option.some.inj hsim
      exact h.shared
    · rw [Function.update_of_ne hw] at hsim
      exact h.copies w sim hsim
  | basic worker node address =>
    refine iff_of_true ⟨h.shared, forall_modifyCopy.mpr ⟨fun sim hsim => ?_, fun w _ => h.copies w⟩⟩
      trivial
    exact soundAt_sim_basic hlen hnode address (h.copies worker sim hsim)
  | storage worker node address index =>
    have hiff : ∀ sim, s.copies worker = some sim →
        (SoundAt keccak c (sim.storage keccak node address index).2.accounts a ↔
          (address = a → (infoAt sim.accounts a).isSome)) :=
      fun sim hsim => soundAt_sim_storage_iff hc address index (h.copies worker sim hsim)
    constructor
    · intro ht sim hsim
      exact (hiff sim hsim).mp ((forall_modifyCopy.mp ht.copies).1 sim hsim)
    · intro hknown
      refine ⟨h.shared, forall_modifyCopy.mpr ⟨fun sim hsim => ?_, fun w _ => h.copies w⟩⟩
      exact (hiff sim hsim).mpr (hknown sim hsim)
  | writeBack worker =>
    refine iff_of_true ?_ trivial
    dsimp only [System.step]
    cases hsim : s.copies worker with
    | none => exact h
    | some sim => exact ⟨soundAt_writeBack (h.copies worker sim hsim) h.shared, h.copies⟩

/-- An empty database and no copies. -/
def System.start : System ι := ⟨.new, fun _ => none⟩

omit [DecidableEq ι] in
theorem allSound_start : AllSound keccak a c (System.start : System ι) := by
  constructor
  · intro info hinfo
    cases hinfo
  · intro worker sim hsim
    cases hsim

/-- **Over a whole run, a contract is shown with its code in every state reached if and only if its
code has two bytes or more and no step writes one of its slots before its record is known.** -/
theorem showsCode_iff_known (hc : c ≠ []) {steps : List (Step ι Upkeep)} {s : System ι}
    (hrun : Run (Deployed keccak a c) System.start steps s) :
    (∀ js t, js <+: steps → Run (Deployed keccak a c) System.start js t →
        ShowsCode keccak a c t) ↔
      2 ≤ c.length ∧ Run (Guarded (Known keccak a) (Deployed keccak a c)) System.start steps s := by
  by_cases hlen : 2 ≤ c.length
  · simp only [showsCode_iff hlen, and_iff_right hlen]
    refine hrun.forall_prefix_iff (fun hstep hstep' => hstep.1.symm.trans hstep'.1)
      (fun h hstep => allSound_step_iff hlen h hstep) allSound_start
  · refine iff_of_false (fun h => hlen ?_) fun h => hlen h.1
    have hstart := h [] System.start (List.nil_prefix) (.nil _)
    exact two_le_of_shows hc rfl (hstart.snapshot (codeNode c) rfl)

/-! ### A slot before the record -/

/-- The code of the contract at address 5. -/
def sampleCode : Bytes := [0x60, 0x01]

/-- A slot of the contract is updated before anyone asks for the account. -/
def slotFirst : Step Unit Upkeep := .shared (.updateSlot 5 8 1)

/-- From then on the contract passes for an account without code. -/
theorem contract_without_code :
    ∃ s, Run (Deployed lengthHash 5 sampleCode) System.start [slotFirst] s ∧
      ¬ ShowsCode lengthHash 5 sampleCode s := by
  refine ⟨_, .cons ⟨rfl, trivial, id⟩ (.nil _), fun h => ?_⟩
  have hcode := (h.shared (codeNode sampleCode) rfl).code
  exact absurd hcode (by decide)

/-- The account is asked for. -/
def recordFirst : Step Unit Upkeep := .shared (.basic (codeNode sampleCode) 5)

/-- Asked for before its slot is updated, the account keeps its code. -/
theorem showsCode_iff_known_recordFirst :
    ∃ s, Run (Deployed lengthHash 5 sampleCode) System.start [recordFirst, slotFirst] s ∧
      ∀ js t, js <+: [recordFirst, slotFirst] →
        Run (Deployed lengthHash 5 sampleCode) System.start js t →
          ShowsCode lengthHash 5 sampleCode t := by
  have hrecord : ∀ s, Deployed lengthHash 5 sampleCode s recordFirst
      (s.step lengthHash (Upkeep.perform lengthHash) recordFirst) := fun _ => ⟨rfl, rfl, id⟩
  have hslot : ∀ s, Deployed lengthHash 5 sampleCode s slotFirst
      (s.step lengthHash (Upkeep.perform lengthHash) slotFirst) := fun _ => ⟨rfl, trivial, id⟩
  have hrun : Run (Deployed lengthHash 5 sampleCode) System.start [recordFirst, slotFirst] _ :=
    .cons (hrecord _) (.cons (hslot _) (.nil _))
  refine ⟨_, hrun, (showsCode_iff_known (by decide) hrun).mpr ?_⟩
  exact ⟨by decide, .cons ⟨nofun, hrecord _⟩ (.cons ⟨fun _ => rfl, hslot _⟩ (.nil _))⟩

end ArbBot.Accounts
