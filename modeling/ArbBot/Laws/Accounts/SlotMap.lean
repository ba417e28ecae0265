import ArbBot.Accounts.SlotMap
import ArbBot.Laws.Addresses
import ArbBot.Lib.FirstMatch
import Mathlib.Data.List.Find

/-!
# The slots that are found

Against a node that answers every request of a batch once, in some order, the slot map of the swap
filter holds, for each token, the first candidate whose word is the balance of the first pool that
trades the token (`constructSlotMap_eq_some_iff`): neither the order of the answers nor the order in
which the tokens' tasks end matters.
-/

namespace ArbBot.Accounts

open Lib

/-! ## What the node holds -/

/-- What the node answers to calls, and the words of its storage. -/
structure NodeState where
  call : Address → Bytes → U256
  storage : Address → U256 → U256

namespace NodeState

def word (s : NodeState) : NodeCall → U256
  | .ethCall dst data => s.call dst data
  | .getStorageAt address slot => s.storage address slot

def balanceOf (s : NodeState) (token holder : Address) : U256 := s.call token (balanceOfData holder)

/-- An answer to a request: its id, with the word as a text. -/
def Answers (s : NodeState) (request : BatchRequest) (answer : BatchAnswer) : Prop :=
  answer.id = some request.id ∧ answer.word = s.word request.call

/-- The service answers every request of a batch once, in some order. -/
def Served (s : NodeState) (service : BatchService) : Prop :=
  ∀ batch, ∃ answers results, List.Forall₂ s.Answers batch answers ∧ results.Perm answers ∧
    service batch = some results

end NodeState

variable {keccak : Keccak} {service : BatchService} {s : NodeState} {pools : List RawPool}

/-! ## One batch -/

theorem ids_of_answers {batch : List BatchRequest} {answers : List BatchAnswer}
    (h : List.Forall₂ s.Answers batch answers) :
    answers.map BatchAnswer.id = batch.map fun request => some request.id := by
  induction h with
  | nil => rfl
  | cons hanswer _ ih => rw [List.map_cons, List.map_cons, ih, hanswer.1]

theorem exists_answer {batch : List BatchRequest} {answers : List BatchAnswer}
    (h : List.Forall₂ s.Answers batch answers) {request : BatchRequest} (hrequest : request ∈ batch) :
    ∃ answer ∈ answers, s.Answers request answer := by
  induction h with
  | nil => exact absurd hrequest List.not_mem_nil
  | @cons first answer batch answers hanswer _ ih =>
    rcases List.mem_cons.mp hrequest with rfl | hrequest
    · exact ⟨answer, List.mem_cons_self, hanswer⟩
    · obtain ⟨answer, hmem, hother⟩ := ih hrequest
      exact ⟨answer, List.mem_cons_of_mem _ hmem, hother⟩

/-- The answer that is looked up under the id of a request is the one to the request. -/
theorem answerFor_request {batch : List BatchRequest} {answers results : List BatchAnswer}
    (h : List.Forall₂ s.Answers batch answers) (hperm : results.Perm answers)
    (hids : (batch.map BatchRequest.id).Nodup) {request : BatchRequest}
    (hrequest : request ∈ batch) :
    ∃ answer, answerFor results request.id = some answer ∧ answer.word = s.word request.call := by
  obtain ⟨answer, hmem, hid, hword⟩ := exists_answer h hrequest
  have hnodup : (answers.map BatchAnswer.id).Nodup := by
    rw [ids_of_answers h]
    have hsome := hids.map (Option.some_injective UInt64)
    rwa [List.map_map] at hsome
  refine ⟨answer, ?_, hword⟩
  refine find?_eq_some_of_unique (List.mem_reverse.mpr (hperm.mem_iff.mpr hmem)) ?_ ?_
  · exact decide_eq_true hid
  · intro other hother hsame
    have hin : other ∈ answers := hperm.mem_iff.mp (List.mem_reverse.mp hother)
    exact List.inj_on_of_nodup_map hnodup hin hmem ((of_decide_eq_true hsame).trans hid.symm)

/-! ## The probes -/

/-- The order of the candidates: by index, and Solidity's layout before Vyper's. -/
def Earlier (c d : UInt64 × SlotLayout) : Prop :=
  c.1 < d.1 ∨ c.1 = d.1 ∧ c.2 = .solidity ∧ d.2 = .vyper

/-- The slot is the first candidate that holds the balance, which is not zero. -/
structure FirstSlot (keccak : Keccak) (s : NodeState) (token holder : Address)
    (slot : UInt64 × SlotLayout) : Prop where
  held : s.balanceOf token holder ≠ 0
  index : slot.1 < 24
  stored : s.storage token (computeSlot keccak holder slot.1 slot.2) = s.balanceOf token holder
  first : ∀ other, Earlier other slot →
    s.storage token (computeSlot keccak holder other.1 other.2) ≠ s.balanceOf token holder

theorem nodup_ids_slotBatch (keccak : Keccak) (token holder : Address) :
    ((slotBatch keccak token holder).map BatchRequest.id).Nodup := by
  have hids : ((0 : UInt64) :: slotProbes.map SlotProbe.id).Nodup := by decide
  unfold slotBatch
  rw [List.map_cons, List.map_map]
  exact hids

instance (c d : UInt64 × SlotLayout) : Decidable (Earlier c d) :=
  inferInstanceAs (Decidable (_ ∨ _))

/-- The candidate of a probe. -/
def SlotProbe.slot (probe : SlotProbe) : UInt64 × SlotLayout := (probe.slotIdx, probe.layout)

theorem slotProbes_ordered :
    slotProbes.Pairwise fun probe other => Earlier probe.slot other.slot := by
  decide +kernel

theorem slotIdx_lt : ∀ probe ∈ slotProbes, probe.slotIdx < 24 := by
  decide +kernel

theorem exists_probe {slot : UInt64 × SlotLayout} (hindex : slot.1 < 24) :
    ∃ probe ∈ slotProbes, probe.slot = slot := by
  obtain ⟨i, layout⟩ := slot
  have hrange : i.toNat ∈ List.range 24 := List.mem_range.mpr (UInt64.lt_iff_toNat_lt.mp hindex)
  have hidx : UInt64.ofNat i.toNat = i := UInt64.ofNat_toNat
  cases layout with
  | solidity =>
    refine ⟨⟨.ofNat (2 * i.toNat + 1), .ofNat i.toNat, .solidity⟩, ?_, ?_⟩
    · exact List.mem_flatMap.mpr ⟨i.toNat, hrange, List.mem_cons_self⟩
    · rw [SlotProbe.slot, hidx]
  | vyper =>
    refine ⟨⟨.ofNat (2 * i.toNat + 2), .ofNat i.toNat, .vyper⟩, ?_, ?_⟩
    · refine List.mem_flatMap.mpr ⟨i.toNat, hrange, ?_⟩
      exact List.mem_cons_of_mem _ List.mem_cons_self
    · rw [SlotProbe.slot, hidx]

instance earlier_asymm :
    Std.Asymm fun probe other : SlotProbe => Earlier probe.slot other.slot where
  asymm probe other h h' := by
    rcases h with hlt | ⟨heq, hsolidity, hvyper⟩
    · rcases h' with hlt' | ⟨heq', -, -⟩
      · exact UInt64.lt_asymm hlt hlt'
      · rw [heq'] at hlt
        exact UInt64.lt_irrefl _ hlt
    · rcases h' with hlt' | ⟨-, hsolidity', -⟩
      · rw [heq] at hlt'
        exact UInt64.lt_irrefl _ hlt'
      · exact absurd (hvyper.symm.trans hsolidity') (by decide)

/-- What one batch comes to. -/
theorem findBalanceSlot_eq_some_iff (hserved : s.Served service) {token holder : Address}
    {slot : UInt64 × SlotLayout} :
    findBalanceSlot keccak service token holder = some slot ↔
      FirstSlot keccak s token holder slot := by
  obtain ⟨answers, results, hanswers, hperm, hresults⟩ := hserved (slotBatch keccak token holder)
  have hids := nodup_ids_slotBatch keccak token holder
  -- The answer under id 0 is the balance, and the one under a probe's id is its word.
  obtain ⟨balance, hbalance, hword⟩ :=
    answerFor_request hanswers hperm hids List.mem_cons_self
  have hprobe : ∀ probe ∈ slotProbes,
      ((answerFor results probe.id).any fun answer =>
          decide (answer.word = s.balanceOf token holder)) =
        decide (s.storage token (computeSlot keccak holder probe.slotIdx probe.layout) =
          s.balanceOf token holder) := by
    intro probe hmem
    have hrequest := List.mem_cons_of_mem ⟨0, .ethCall token (balanceOfData holder)⟩
      (List.mem_map_of_mem (f := fun probe : SlotProbe => (⟨probe.id, .getStorageAt token
        (computeSlot keccak holder probe.slotIdx probe.layout)⟩ : BatchRequest)) hmem)
    obtain ⟨answer, hanswer, hstored⟩ := answerFor_request hanswers hperm hids hrequest
    rw [show answerFor results probe.id = some answer from hanswer, Option.any_some, hstored]
    rfl
  have hactual : ((answerFor results 0).map BatchAnswer.word).getD 0 = s.balanceOf token holder := by
    rw [show answerFor results 0 = some balance from hbalance]
    exact hword
  unfold findBalanceSlot
  rw [hresults]
  show (matchProbe results).bind (fun probe => some probe.slot) = some slot ↔ _
  unfold matchProbe
  simp only [hactual]
  rw [List.find?_congr hprobe]
  by_cases hzero : s.balanceOf token holder = 0
  · rw [if_pos hzero]
    exact iff_of_false (by simp) fun h => h.held hzero
  rw [if_neg hzero, Option.bind_eq_some_iff]
  constructor
  · rintro ⟨probe, hfind, hslot⟩
    obtain ⟨hmem, hstored, hleast⟩ := (find?_eq_some_iff_least slotProbes_ordered).mp hfind
    rw [← Option.some.inj hslot]
    refine ⟨hzero, slotIdx_lt probe hmem, of_decide_eq_true hstored, fun other hearlier => ?_⟩
    have hindex : other.1 < 24 := by
      rcases hearlier with hlt | ⟨heq, -, -⟩
      · exact UInt64.lt_trans hlt (slotIdx_lt probe hmem)
      · exact heq ▸ slotIdx_lt probe hmem
    obtain ⟨otherProbe, hother, rfl⟩ := exists_probe hindex
    exact of_decide_eq_false (hleast otherProbe hother hearlier)
  · intro h
    obtain ⟨probe, hmem, rfl⟩ := exists_probe h.index
    refine ⟨probe, (find?_eq_some_iff_least slotProbes_ordered).mpr ⟨hmem, ?_, ?_⟩, rfl⟩
    · exact decide_eq_true h.stored
    · intro other _ hearlier
      exact decide_eq_false (h.first _ hearlier)

/-! ## The slot map -/

/-- The pool whose balance is asked for: the first that trades the token. -/
def firstPool (pools : List RawPool) (token : Address) : Option RawPool :=
  pools.find? fun pool => pool.token0 = token ∨ pool.token1 = token

theorem orInsert_apply (holders : Address → Option Address) (token holder t : Address) :
    orInsert holders token holder t = (holders t).or (if token = t then some holder else none) := by
  unfold orInsert
  by_cases ht : t = token
  · subst ht
    rw [if_pos rfl, if_pos rfl]
    cases holders t <;> rfl
  · rw [if_neg ht, if_neg (Ne.symm ht), Option.or_none]

theorem tokenHolders_eq (pools : List RawPool) (token : Address) :
    tokenHolders pools token = (firstPool pools token).map RawPool.address := by
  have hfold : ∀ holders : Address → Option Address,
      pools.foldl (fun holders pool =>
        orInsert (orInsert holders pool.token0 pool.address) pool.token1 pool.address) holders token =
        (holders token).or ((firstPool pools token).map RawPool.address) := by
    induction pools with
    | nil => intro holders; exact Option.or_none.symm
    | cons pool pools ih =>
      intro holders
      rw [List.foldl_cons, ih, orInsert_apply, orInsert_apply, Option.or_assoc, Option.or_assoc]
      unfold firstPool
      rw [List.find?_cons]
      by_cases h0 : pool.token0 = token
      · simp [h0]
      · by_cases h1 : pool.token1 = token
        · simp [h0, h1]
        · simp [h0, h1]
  exact (hfold _).trans (Option.none_or)

theorem joinTask_self (slotMap : SlotMap) (token : Address) :
    joinTask keccak service pools slotMap token token =
      ((tokenHolders pools token).bind (findBalanceSlot keccak service token)).or
        (slotMap token) := by
  unfold joinTask
  cases (tokenHolders pools token).bind (findBalanceSlot keccak service token) with
  | none => rfl
  | some slot => exact if_pos rfl

theorem joinTask_of_ne (slotMap : SlotMap) {token t : Address} (hne : t ≠ token) :
    joinTask keccak service pools slotMap token t = slotMap t := by
  unfold joinTask
  cases (tokenHolders pools token).bind (findBalanceSlot keccak service token) with
  | none => rfl
  | some slot => exact if_neg hne

theorem joinTasks_of_notMem {joined : List Address} {token : Address} (hnot : token ∉ joined)
    (slotMap : SlotMap) :
    joined.foldl (joinTask keccak service pools) slotMap token = slotMap token := by
  induction joined generalizing slotMap with
  | nil => rfl
  | cons t joined ih =>
    obtain ⟨hne, hrest⟩ := not_or.mp (mt List.mem_cons.mpr hnot)
    rw [List.foldl_cons, ih hrest, joinTask_of_ne _ hne]

theorem constructSlotMap_apply {joined : List Address} (hjoin : IsJoinOrder joined pools)
    (token : Address) :
    constructSlotMap keccak service pools joined token =
      (tokenHolders pools token).bind (findBalanceSlot keccak service token) := by
  have hmem := hjoin.mem token
  unfold constructSlotMap
  by_cases htoken : token ∈ joined
  · obtain ⟨before, after, rfl⟩ := List.append_of_mem htoken
    -- No other task of the list is the token's.
    have hapart := hjoin.nodup
    rw [List.nodup_append] at hapart
    obtain ⟨-, hafter, hbefore⟩ := hapart
    have hnotBefore : token ∉ before := fun hin => hbefore token hin token List.mem_cons_self rfl
    rw [List.foldl_append, List.foldl_cons, joinTasks_of_notMem (List.nodup_cons.mp hafter).1,
      joinTask_self, joinTasks_of_notMem hnotBefore, Option.or_none]
  · have hnone : tokenHolders pools token = none :=
      Option.not_isSome_iff_eq_none.mp (mt hmem.mpr htoken)
    rw [joinTasks_of_notMem htoken, hnone]
    rfl

/-- **The slots that are found.** The map has, for each token of the pools, the first candidate that
holds the balance of the first pool that trades the token, and no slot where there is none. -/
theorem constructSlotMap_eq_some_iff {joined : List Address} (hserved : s.Served service)
    (hjoin : IsJoinOrder joined pools) {token : Address} {slot : UInt64 × SlotLayout} :
    constructSlotMap keccak service pools joined token = some slot ↔
      ∃ pool, firstPool pools token = some pool ∧
        FirstSlot keccak s token pool.address slot := by
  rw [constructSlotMap_apply hjoin, tokenHolders_eq, Option.bind_eq_some_iff]
  constructor
  · rintro ⟨holder, hholder, hslot⟩
    obtain ⟨pool, hpool, rfl⟩ := Option.map_eq_some_iff.mp hholder
    exact ⟨pool, hpool, (findBalanceSlot_eq_some_iff hserved).mp hslot⟩
  · rintro ⟨pool, hpool, hfirst⟩
    refine ⟨pool.address, Option.map_eq_some_iff.mpr ⟨pool, hpool, rfl⟩, ?_⟩
    exact (findBalanceSlot_eq_some_iff hserved).mpr hfirst

/-! ### A node -/

/-- A word as the node writes it. -/
def wordText (word : U256) : String :=
  String.ofList ('0' :: 'x' :: (Bytes.ofWord word).flatMap hexByte)

theorem trimPrefix_hexBytes (bytes : Bytes) :
    Tracing.trimPrefix (bytes.flatMap hexByte) = bytes.flatMap hexByte := by
  have hdigits : ∀ n < 16, Nat.digitChar n ≠ 'x' := by decide
  cases bytes with
  | nil => rfl
  | cons byte bytes =>
    show Tracing.trimPrefix ((byte.toNat / 16).digitChar :: (byte.toNat % 16).digitChar ::
      bytes.flatMap hexByte) = _
    unfold Tracing.trimPrefix
    split
    · rename_i rest heq
      have hx := (List.cons.inj (List.cons.inj heq).2).1
      exact absurd hx (hdigits _ (Nat.mod_lt _ (by decide)))
    · rfl

theorem length_hexBytes (bytes : Bytes) : (bytes.flatMap hexByte).length = 2 * bytes.length := by
  induction bytes with
  | nil => rfl
  | cons byte bytes ih =>
    rw [List.flatMap_cons, List.length_append, ih, List.length_cons]
    show 2 + 2 * bytes.length = _
    omega

theorem parseBytes_hexBytes (bytes : Bytes) :
    Tracing.parseBytes bytes.length (String.ofList ('0' :: 'x' :: bytes.flatMap hexByte)) =
      some bytes := by
  have htrim : Tracing.trimPrefix (String.ofList ('0' :: 'x' :: bytes.flatMap hexByte)).toList =
      bytes.flatMap hexByte := by
    rw [String.toList_ofList]
    exact trimPrefix_hexBytes bytes
  have hpad : List.replicate (2 * bytes.length - (bytes.flatMap hexByte).length) '0' ++
      bytes.flatMap hexByte = bytes.flatMap hexByte := by
    rw [length_hexBytes, Nat.sub_self, List.replicate_zero, List.nil_append]
  unfold Tracing.parseBytes
  simp only [htrim, hpad, hexDecode_hexBytes]
  exact if_pos rfl

theorem parseU256_wordText (word : U256) : Tracing.parseU256 (wordText word) = some word := by
  have hbytes := parseBytes_hexBytes (Bytes.ofWord word)
  rw [Bytes.length_ofWord] at hbytes
  rw [Tracing.parseU256, wordText, hbytes, Option.map_some, Bytes.toNat_ofWord,
    BitVec.ofNat_toNat, BitVec.setWidth_eq]

/-- A node that answers from the end of the batch to its start. -/
def backwards (s : NodeState) : BatchService := fun batch =>
  some (batch.map fun request => ⟨some request.id, some (wordText (s.word request.call))⟩).reverse

theorem served_backwards (s : NodeState) : s.Served (backwards s) := by
  intro batch
  refine ⟨_, _, ?_, (List.reverse_perm _), rfl⟩
  induction batch with
  | nil => exact .nil
  | cons request batch ih =>
    refine .cons ⟨rfl, ?_⟩ ih
    show ((some (wordText (s.word request.call))).bind Tracing.parseU256).getD 0 = _
    rw [Option.bind_some, parseU256_wordText, Option.getD_some]

/-- A pool of the tokens 1 and 2. -/
def tradedOnce : RawPool := ⟨9, 1, 2, 18, 18, 30, 0, .uniswapV2⟩

theorem isJoinOrder_tradedOnce : IsJoinOrder [2, 1] [tradedOnce] where
  nodup := by decide
  mem token := by
    rw [tokenHolders_eq, Option.isSome_map, firstPool, List.find?_isSome, List.mem_cons,
      List.mem_singleton]
    constructor
    · intro htoken
      refine ⟨tradedOnce, List.mem_singleton.mpr rfl, decide_eq_true ?_⟩
      exact htoken.symm.imp Eq.symm Eq.symm
    · rintro ⟨pool, hpool, htoken⟩
      rw [List.mem_singleton.mp hpool] at htoken
      exact (of_decide_eq_true htoken).symm.imp Eq.symm Eq.symm

/-- The balance is in every slot, and the first candidate is taken. -/
theorem constructSlotMap_eq_some_iff_tradedOnce :
    constructSlotMap (fun bytes => .ofNat 256 bytes.length)
      (backwards ⟨fun _ _ => 7, fun _ _ => 7⟩) [tradedOnce] [2, 1] 2 = some (0, .solidity) := by
  refine (constructSlotMap_eq_some_iff (served_backwards _) isJoinOrder_tradedOnce).mpr
    ⟨tradedOnce, by decide, ?_⟩
  exact
    { held := by decide
      index := by decide
      stored := rfl
      first := by
        rintro ⟨slot, layout⟩ (hlt | ⟨-, -, hvyper⟩)
        · exact absurd (UInt64.lt_iff_toNat_lt.mp hlt) (Nat.not_lt_zero _)
        · cases hvyper }

end ArbBot.Accounts
