import ArbBot.CalcCache
import ArbBot.Lib.Runs

/-!
# Invalidation under concurrency

Every entry is listed in the index under its pool, or an invalidation in progress still removes it:
this is what lets an invalidation find all entries of a pool. Three interleavings lose it: an
insertion whose pool is invalidated between its two calls, one that is in progress when a `clear`
empties the index, and one that stores its entry between the two calls of a `clear`. In runs
without them it holds throughout.
-/

namespace ArbBot.CalcCache

open Lib

variable {ι : Type} [DecidableEq ι] {s t : System ι} {i j : ι} {c : Call ι} {calls : List (Call ι)}
  {cache : CalcCache} {key key' : CacheKey} {keys : List CacheKey} {value : CacheValue}
  {pool : Address} {doing : Doing}

/-- The index lists the key under its own pool. -/
def Listed (cache : CalcCache) (key : CacheKey) : Prop :=
  key ∈ (cache.poolKeys key.pool).getD []

/-- An invalidation in progress still removes the key. -/
def System.Pending (s : System ι) (key : CacheKey) : Prop := ∃ i, key ∈ (s.doing i).pending

/-- **Every entry can be found**: it is listed, or an invalidation has it already. -/
def System.Covered (s : System ι) : Prop :=
  ∀ key, s.cache.map key ≠ none → Listed s.cache key ∨ s.Pending key

/-- The calls that no other thread is in the way of: no pool is invalidated and no index emptied
between the two calls of an insertion into it, and nothing is stored between the two of a `clear`. -/
def System.Apart (s : System ι) : Call ι → Prop
  | .store _ => ∀ j, s.doing j ≠ .clearing
  | .take _ pool => ∀ j key value, s.doing j = .inserting key value → key.pool ≠ pool
  | .clearIndex _ => ∀ j key value, s.doing j ≠ .inserting key value
  | _ => True

/-- **The state between calls**: every entry can be found, a key whose entry is about to be stored
is listed, and there are no entries while the index is about to be emptied. -/
structure System.Kept (s : System ι) : Prop where
  covered : s.Covered
  inserting : ∀ j key value, s.doing j = .inserting key value → Listed s.cache key
  clearing : ∀ j, s.doing j = .clearing → ∀ key, s.cache.map key = none

/-! ## The maps -/

theorem listed_pushKey : Listed (cache.pushKey key') key ↔ key = key' ∨ Listed cache key := by
  unfold Listed pushKey
  by_cases hpool : key.pool = key'.pool
  · rw [hpool]
    simp [or_comm]
  · have hne : key ≠ key' := fun heq => hpool (congrArg CacheKey.pool heq)
    simp [hpool, hne]

theorem listed_takeKeys :
    Listed (cache.takeKeys pool) key ↔ key.pool ≠ pool ∧ Listed cache key := by
  unfold Listed takeKeys
  by_cases hpool : key.pool = pool
  · simp [hpool]
  · simp [hpool]

@[simp] theorem listed_store : Listed (cache.store key' value) key ↔ Listed cache key := Iff.rfl

@[simp] theorem listed_drop : Listed (cache.drop key') key ↔ Listed cache key := Iff.rfl

@[simp] theorem not_listed_clearIndex : ¬Listed cache.clearIndex key := List.not_mem_nil

theorem map_store : (cache.store key' value).map key ≠ none ↔
    key = key' ∨ cache.map key ≠ none := by
  by_cases heq : key = key'
  · simp [store, heq]
  · simp [store, heq]

theorem map_drop : (cache.drop key').map key ≠ none ↔ key ≠ key' ∧ cache.map key ≠ none := by
  by_cases heq : key = key'
  · simp [drop, heq]
  · simp [drop, heq]

theorem map_retainFresh {block : UInt64} (h : (cache.retainFresh block).map key ≠ none) :
    cache.map key ≠ none := by
  intro hnone
  exact h (by simp [retainFresh, hnone])

/-! ## Threads -/

@[simp] theorem pending_loop : (Doing.loop keys).pending = keys := by
  cases keys <;> rfl

@[simp] theorem System.set_cache : (s.set i cache doing).cache = cache := rfl

@[simp] theorem System.set_doing_self : (s.set i cache doing).doing i = doing :=
  Function.update_self ..

theorem System.set_doing_of_ne (h : j ≠ i) : (s.set i cache doing).doing j = s.doing j :=
  Function.update_of_ne h ..

/-- What is pending after a call of a thread that removed nothing before. -/
theorem System.pending_set (h : (s.doing i).pending = []) :
    (s.set i cache doing).Pending key ↔ key ∈ doing.pending ∨ s.Pending key := by
  constructor
  · rintro ⟨j, hj⟩
    by_cases hij : j = i
    · subst hij
      rw [System.set_doing_self] at hj
      exact .inl hj
    · right
      refine ⟨j, ?_⟩
      rwa [System.set_doing_of_ne hij] at hj
  · rintro (hnew | ⟨j, hj⟩)
    · exact ⟨i, by rwa [System.set_doing_self]⟩
    · have hij : j ≠ i := by
        rintro rfl
        rw [h] at hj
        exact absurd hj List.not_mem_nil
      refine ⟨j, ?_⟩
      rwa [System.set_doing_of_ne hij]

/-- A thread that removes nothing changes nothing about that with its last call. -/
theorem System.pending_idle (h : (s.doing i).pending = []) :
    (s.set i cache .idle).Pending key ↔ s.Pending key := by
  rw [System.pending_set h]
  simp [Doing.pending]

/-- A removal leaves the other keys pending. -/
theorem System.pending_removed (h : s.doing i = .removing key' keys) (hpending : s.Pending key)
    (hne : key ≠ key') : (s.set i cache (.loop keys)).Pending key := by
  obtain ⟨j, hj⟩ := hpending
  by_cases hij : j = i
  · subst hij
    rw [h] at hj
    refine ⟨j, ?_⟩
    rw [System.set_doing_self, pending_loop]
    exact (List.mem_cons.mp hj).resolve_left hne
  · refine ⟨j, ?_⟩
    rwa [System.set_doing_of_ne hij]

omit [DecidableEq ι] in
theorem System.Quiet.not_pending (h : s.Quiet) : ¬s.Pending key := by
  rintro ⟨i, hi⟩
  rw [h i] at hi
  exact absurd hi List.not_mem_nil

/-! ## Calls -/

/-- **What a call does**, by the operation its thread is in. -/
theorem System.call_eq_some (h : s.call c = some t) :
    match c with
    | .push i key value => s.doing i = .idle ∧
        t = s.set i (s.cache.pushKey key) (.inserting key value)
    | .store i => ∃ key value, s.doing i = .inserting key value ∧
        t = s.set i (s.cache.store key value) .idle
    | .take i pool => s.doing i = .idle ∧
        t = s.set i (s.cache.takeKeys pool) (.loop ((s.cache.poolKeys pool).getD []))
    | .drop i => ∃ key keys, s.doing i = .removing key keys ∧
        t = s.set i (s.cache.drop key) (.loop keys)
    | .clearMap i => s.doing i = .idle ∧ t = s.set i s.cache.clearMap .clearing
    | .clearIndex i => s.doing i = .clearing ∧ t = s.set i s.cache.clearIndex .idle
    | .retain i block => s.doing i = .idle ∧ t = s.set i (s.cache.retainFresh block) .idle := by
  cases c with
  | push i key value =>
    cases hdoing : s.doing i <;> simp [System.call, hdoing] at h
    exact ⟨hdoing, h.symm⟩
  | store i =>
    cases hdoing : s.doing i <;> simp [System.call, hdoing] at h
    exact ⟨_, _, hdoing, h.symm⟩
  | take i pool =>
    cases hdoing : s.doing i <;> simp [System.call, hdoing] at h
    exact ⟨hdoing, h.symm⟩
  | drop i =>
    cases hdoing : s.doing i <;> simp [System.call, hdoing] at h
    exact ⟨_, _, hdoing, h.symm⟩
  | clearMap i =>
    cases hdoing : s.doing i <;> simp [System.call, hdoing] at h
    exact ⟨hdoing, h.symm⟩
  | clearIndex i =>
    cases hdoing : s.doing i <;> simp [System.call, hdoing] at h
    exact ⟨hdoing, h.symm⟩
  | retain i block =>
    cases hdoing : s.doing i <;> simp [System.call, hdoing] at h
    exact ⟨hdoing, h.symm⟩

/-- What a thread does is what the call left it with, or what it did. -/
theorem System.doing_set {d : Doing} (h : (s.set i cache doing).doing j = d) :
    doing = d ∨ s.doing j = d := by
  by_cases hij : j = i
  · subst hij
    rw [System.set_doing_self] at h
    exact .inl h
  · rw [System.set_doing_of_ne hij] at h
    exact .inr h

theorem loop_ne_inserting : Doing.loop keys ≠ .inserting key value := by
  cases keys <;> simp [Doing.loop]

theorem loop_ne_clearing : Doing.loop keys ≠ .clearing := by
  cases keys <;> simp [Doing.loop]

/-- A call that moves its thread on to nothing but removals, stores nothing and takes no key that is
about to be stored from the index, keeps the state if it loses no entry. -/
theorem System.Kept.set (hs : s.Kept) (hcovered : (s.set i cache doing).Covered)
    (hinserting : ∀ key value, doing ≠ .inserting key value) (hclearing : doing ≠ .clearing)
    (hlisted : ∀ j key value, s.doing j = .inserting key value → Listed cache key)
    (hmap : ∀ key, s.cache.map key = none → cache.map key = none) :
    (s.set i cache doing).Kept where
  covered := hcovered
  inserting j key value hdoing :=
    hlisted j key value ((System.doing_set hdoing).resolve_left (hinserting key value))
  clearing j hdoing key :=
    hmap key (hs.clearing j ((System.doing_set hdoing).resolve_left hclearing) key)

/-- **One call keeps the state**, when no other thread is in its way. -/
theorem System.Kept.call (hs : s.Kept) (h : s.Step c t) (hapart : s.Apart c) : t.Kept := by
  have hcall := System.call_eq_some h
  cases c with
  | push i new value =>
    obtain ⟨hidle, rfl⟩ := hcall
    refine ⟨fun key hkey => ?_, fun j key value' hdoing => ?_, fun j hdoing => ?_⟩
    · rw [System.set_cache, listed_pushKey, System.pending_set (congrArg Doing.pending hidle)]
      exact (hs.covered key hkey).imp .inr .inr
    · refine listed_pushKey.mpr ((System.doing_set hdoing).imp (fun hnew => ?_) fun hold => ?_)
      · exact (Doing.inserting.inj hnew).1.symm
      · exact hs.inserting j key value' hold
    · exact hs.clearing j ((System.doing_set hdoing).resolve_left fun heq => nomatch heq)
  | store i =>
    obtain ⟨new, value, hdoing, rfl⟩ := hcall
    refine ⟨fun key hkey => ?_, fun j key value' hstill => ?_, fun j hclearing => ?_⟩
    · rw [System.pending_idle (congrArg Doing.pending hdoing)]
      rcases map_store.mp hkey with rfl | hold
      · exact .inl (hs.inserting i key value hdoing)
      · exact hs.covered key hold
    · exact hs.inserting j key value'
        ((System.doing_set hstill).resolve_left fun heq => nomatch heq)
    · exact absurd ((System.doing_set hclearing).resolve_left fun heq => nomatch heq) (hapart j)
  | take i pool =>
    obtain ⟨hidle, rfl⟩ := hcall
    refine hs.set (fun key hkey => ?_) (fun _ _ => loop_ne_inserting) loop_ne_clearing
      (fun j key value hdoing => ?_) fun _ => id
    · rw [System.set_cache, listed_takeKeys, System.pending_set (congrArg Doing.pending hidle),
        pending_loop]
      rcases hs.covered key hkey with hlisted | hpending
      · by_cases hpool : key.pool = pool
        · exact .inr (.inl (hpool ▸ hlisted))
        · exact .inl ⟨hpool, hlisted⟩
      · exact .inr (.inr hpending)
    · exact listed_takeKeys.mpr ⟨hapart j key value hdoing, hs.inserting j key value hdoing⟩
  | drop i =>
    obtain ⟨removed, keys, hdoing, rfl⟩ := hcall
    refine hs.set (fun key hkey => ?_) (fun _ _ => loop_ne_inserting) loop_ne_clearing
      hs.inserting fun key hnone => of_not_not fun hkey => (map_drop.mp hkey).2 hnone
    obtain ⟨hne, hold⟩ := map_drop.mp hkey
    exact (hs.covered key hold).imp id fun hpending => System.pending_removed hdoing hpending hne
  | clearMap i =>
    obtain ⟨hidle, rfl⟩ := hcall
    refine ⟨fun key hkey => absurd rfl hkey, fun j key value hdoing => ?_, fun _ _ _ => rfl⟩
    exact hs.inserting j key value ((System.doing_set hdoing).resolve_left fun heq => nomatch heq)
  | clearIndex i =>
    obtain ⟨hclearing, rfl⟩ := hcall
    have hempty := hs.clearing i hclearing
    refine ⟨fun key hkey => absurd (hempty key) hkey, fun j key value hdoing => ?_,
      fun _ _ key => hempty key⟩
    exact absurd ((System.doing_set hdoing).resolve_left fun heq => nomatch heq)
      (hapart j key value)
  | retain i block =>
    obtain ⟨hidle, rfl⟩ := hcall
    refine hs.set (fun key hkey => ?_) (fun _ _ heq => nomatch heq) (fun heq => nomatch heq)
      hs.inserting fun key hnone => of_not_not fun hkey => map_retainFresh hkey hnone
    rw [System.pending_idle (congrArg Doing.pending hidle)]
    exact hs.covered key (map_retainFresh hkey)

omit [DecidableEq ι] in
theorem System.kept_start : (System.start : System ι).Kept where
  covered _ hkey := absurd rfl hkey
  inserting _ _ _ heq := nomatch heq
  clearing _ _ _ := rfl

/-! ## Runs -/

theorem kept_of_apart
    (h : Run (Guarded System.Apart System.Step) (System.start : System ι) calls s) : s.Kept :=
  h.invariant (fun _ _ _ hs hstep => hs.call hstep.2 hstep.1) System.kept_start

/-- The removals of a thread, one after the other. -/
theorem drops_run (keys : List CacheKey) (s : System ι) (cache : CalcCache) :
    Run System.Step (s.set i cache (.loop keys)) (List.replicate keys.length (.drop i))
      (s.set i (keys.foldl CalcCache.drop cache) .idle) := by
  induction keys generalizing cache with
  | nil => exact .nil _
  | cons key keys ih =>
    refine .cons (t := s.set i (cache.drop key) (.loop keys)) ?_ (ih _)
    simp [System.Step, System.call, Doing.loop, System.set]

/-- **An invalidation on its own**, call by call, is the operation of the cache. -/
theorem invalidate_run (hidle : s.doing i = .idle) (pool : Address) :
    Run System.Step s
      (.take i pool :: List.replicate ((s.cache.poolKeys pool).getD []).length (.drop i))
      { s with cache := s.cache.invalidatePool pool } := by
  have htake : s.Step (.take i pool)
      (s.set i (s.cache.takeKeys pool) (.loop ((s.cache.poolKeys pool).getD []))) := by
    simp [System.Step, System.call, hidle]
  have hend : s.set i (((s.cache.poolKeys pool).getD []).foldl CalcCache.drop
      (s.cache.takeKeys pool)) .idle = { s with cache := s.cache.invalidatePool pool } := by
    have hdoing : Function.update s.doing i .idle = s.doing := by
      rw [← hidle, Function.update_eq_self]
    rw [System.set, hdoing, invalidatePool]
    cases hkeys : s.cache.poolKeys pool with
    | none =>
      have hindex : Function.update s.cache.poolKeys pool none = s.cache.poolKeys := by
        rw [← hkeys, Function.update_eq_self]
      simp [takeKeys, hindex]
    | some keys => rfl
  rw [← hend]
  exact .cons htake (drops_run _ s _)

theorem map_foldl_drop (keys : List CacheKey) (cache : CalcCache) :
    (keys.foldl CalcCache.drop cache).map key ≠ none ↔ key ∉ keys ∧ cache.map key ≠ none := by
  induction keys generalizing cache with
  | nil => simp
  | cons removed keys ih =>
    rw [List.foldl_cons, ih, map_drop, List.mem_cons, not_or]
    tauto

/-- An invalidation removes every listed entry of the pool. -/
theorem invalidatePool_complete (hlisted : ∀ key, cache.map key ≠ none → Listed cache key)
    (hpool : key.pool = pool) : (cache.invalidatePool pool).map key = none := by
  by_contra hkey
  unfold invalidatePool at hkey
  cases hkeys : cache.poolKeys pool with
  | none =>
    rw [hkeys] at hkey
    have hmem := hlisted key hkey
    rw [Listed, hpool, hkeys] at hmem
    exact absurd hmem List.not_mem_nil
  | some keys =>
    rw [hkeys] at hkey
    obtain ⟨hnot, hold⟩ := (map_foldl_drop keys _).mp hkey
    have hmem := hlisted key hold
    rw [Listed, hpool, hkeys] at hmem
    exact hnot hmem

/-- **Invalidation is complete** in every run whose calls keep apart: whenever no operation is in
progress, every entry is listed under its own pool, and an invalidation that then runs on its own
removes every entry of its pool. -/
theorem invalidation_complete
    (h : Run (Guarded System.Apart System.Step) (System.start : System ι) calls s)
    (hquiet : s.Quiet) :
    (∀ key, s.cache.map key ≠ none → Listed s.cache key) ∧
      ∀ (i : ι) (pool : Address), ∃ t,
        Run System.Step s
          (.take i pool :: List.replicate ((s.cache.poolKeys pool).getD []).length (.drop i)) t ∧
        t.Quiet ∧ t.cache = s.cache.invalidatePool pool ∧
        ∀ key, key.pool = pool → t.cache.map key = none := by
  have hlisted : ∀ key, s.cache.map key ≠ none → Listed s.cache key := by
    intro key hkey
    exact ((kept_of_apart h).covered key hkey).resolve_right hquiet.not_pending
  refine ⟨hlisted, fun i pool => ⟨_, invalidate_run (hquiet i) pool, hquiet, rfl, ?_⟩⟩
  intro key hpool
  exact invalidatePool_complete hlisted hpool

/-- Two threads insert into two pools side by side, and one of them invalidates its pool between the
two calls of an insertion of the other. The entries that are left can be invalidated. -/
theorem invalidation_complete_example :
    ∃ s : System Bool, s.cache.map ⟨1, 100, true⟩ = some ⟨99, 1⟩ ∧
      s.cache.map ⟨1, 200, true⟩ = some ⟨198, 1⟩ ∧ s.cache.map ⟨2, 100, false⟩ = none ∧
      ∃ t, Run System.Step s [.take true 1, .drop true, .drop true] t ∧ t.Quiet ∧
        t.cache.map ⟨1, 100, true⟩ = none ∧ t.cache.map ⟨1, 200, true⟩ = none := by
  have hrun : ∃ s : System Bool, s.Quiet ∧ s.cache.map ⟨1, 100, true⟩ = some ⟨99, 1⟩ ∧
      s.cache.map ⟨1, 200, true⟩ = some ⟨198, 1⟩ ∧ s.cache.map ⟨2, 100, false⟩ = none ∧
      ((s.cache.poolKeys 1).getD []).length = 2 ∧
      Run (Guarded System.Apart System.Step) System.start
        [.push false ⟨1, 100, true⟩ ⟨99, 1⟩, .push true ⟨2, 100, false⟩ ⟨97, 1⟩, .store false,
          .store true, .push false ⟨1, 200, true⟩ ⟨198, 1⟩, .take true 2, .store false,
          .drop true] s := by
    refine ⟨_, ?_, rfl, rfl, rfl, rfl, .cons ⟨trivial, rfl⟩ (.cons ⟨trivial, rfl⟩ (.cons ⟨?_, rfl⟩
      (.cons ⟨?_, rfl⟩ (.cons ⟨trivial, rfl⟩ (.cons ⟨?_, rfl⟩ (.cons ⟨?_, rfl⟩
        (.cons ⟨trivial, rfl⟩ (.nil _))))))))⟩
    · intro j
      cases j <;> rfl
    · intro j
      cases j <;> exact fun heq => nomatch heq
    · intro j
      cases j <;> exact fun heq => nomatch heq
    · intro j key value hdoing
      cases j with
      | false =>
        obtain ⟨rfl, -⟩ := Doing.inserting.inj hdoing
        decide
      | true => cases hdoing
    · intro j
      cases j <;> exact fun heq => nomatch heq
  obtain ⟨s, hquiet, hfirst, hsecond, hgone, hlength, hrun⟩ := hrun
  obtain ⟨t, hinvalidate, hquiet', -, hcomplete⟩ := (invalidation_complete hrun hquiet).2 true 1
  rw [hlength] at hinvalidate
  exact ⟨s, hfirst, hsecond, hgone, t, hinvalidate, hquiet', hcomplete _ rfl, hcomplete _ rfl⟩

/-- An invalidation between the two calls of an insertion leaves an entry that no index names. -/
theorem entry_lost :
    ∃ s : System Bool, Run System.Step System.start
        [.push false ⟨1, 100, true⟩ ⟨99, 1⟩, .take true 1, .drop true, .store false] s ∧
      s.Quiet ∧ s.cache.map ⟨1, 100, true⟩ ≠ none ∧ ¬Listed s.cache ⟨1, 100, true⟩ ∧
      (s.cache.invalidatePool 1).map ⟨1, 100, true⟩ = some ⟨99, 1⟩ := by
  refine ⟨_, .cons rfl (.cons rfl (.cons rfl (.cons rfl (.nil _)))), ?_, ?_, ?_, ?_⟩
  · intro i
    cases i <;> rfl
  · exact Option.some_ne_none _
  · exact List.not_mem_nil
  · rfl

end ArbBot.CalcCache
