import ArbBot.Lib.FirstMatch
import ArbBot.Startup
import Mathlib.Data.List.Perm.Basic

/-!
# The router registry

The registry is filled in the order of a hash map. It is the same for every order if and only if no
two entries route one protocol to different addresses, as the keys `aerodrome` and `solidly` can, and
keys that differ in the case of letters. Where Aerodrome's pools have a router, which calldata they are
tested with depends on no order, and not on whose address was kept (`buildRouterRegistry_perm_iff`).
-/

namespace ArbBot.Startup

open Lib Accounts

/-! ## Entries -/

/-- What an entry inserts. -/
def routeOf (entry : Text × Text) : Option (PoolProtocol × Address) := do
  let protocol ← routerProtocol (Text.lower entry.1)
  let addr ← addressFromStr entry.2
  return (protocol, addr)

/-- The address an entry inserts for the protocol. -/
def routeTo (protocol : PoolProtocol) (entry : Text × Text) : Option Address :=
  (routeOf entry).bind fun route => if protocol = route.1 then some route.2 else none

theorem routeTo_eq_some {protocol : PoolProtocol} {entry : Text × Text} {addr : Address} :
    routeTo protocol entry = some addr ↔ routeOf entry = some (protocol, addr) := by
  unfold routeTo
  cases routeOf entry with
  | none => simp
  | some route =>
    obtain ⟨p, a⟩ := route
    rw [Option.bind_some]
    by_cases hp : protocol = p
    · subst hp
      simp
    · simp [hp, Ne.symm hp]

/-- The registry with the flag an entry sets. -/
def flagged (registry : RouterRegistry) (entry : Text × Text) : RouterRegistry :=
  { registry with solidlyMode := registry.solidlyMode || isSolidly (Text.lower entry.1) }

theorem addRouter_eq (registry : RouterRegistry) (entry : Text × Text) :
    addRouter registry entry =
      match routeOf entry with
      | some (protocol, addr) => insertRouter (flagged registry entry) protocol addr
      | none => flagged registry entry := by
  have hflag : (if isSolidly (Text.lower entry.1) then { registry with solidlyMode := true }
      else registry) = flagged registry entry := by
    unfold flagged
    cases isSolidly (Text.lower entry.1) with
    | false => simp
    | true => simp
  simp only [addRouter, routeOf, hflag]
  cases routerProtocol (Text.lower entry.1) with
  | none => rfl
  | some protocol =>
    cases addressFromStr entry.2 with
    | none => rfl
    | some addr => rfl

theorem map_addRouter (registry : RouterRegistry) (entry : Text × Text) (protocol : PoolProtocol) :
    (addRouter registry entry).map protocol =
      (routeTo protocol entry).or (registry.map protocol) := by
  rw [addRouter_eq, routeTo]
  cases routeOf entry with
  | none => rfl
  | some route =>
    show (if protocol = route.1 then some route.2 else registry.map protocol) =
      (if protocol = route.1 then some route.2 else none).or (registry.map protocol)
    by_cases hp : protocol = route.1
    · rw [if_pos hp, if_pos hp]
      rfl
    · rw [if_neg hp, if_neg hp]
      rfl

theorem solidlyMode_addRouter (registry : RouterRegistry) (entry : Text × Text) :
    (addRouter registry entry).solidlyMode =
      (registry.solidlyMode || isSolidly (Text.lower entry.1)) := by
  rw [addRouter_eq]
  cases routeOf entry with
  | none => rfl
  | some route => rfl

/-! ## The registry -/

/-- The last entry that routes a protocol decides. -/
theorem map_buildRouterRegistry (entries : List (Text × Text)) (protocol : PoolProtocol) :
    (buildRouterRegistry entries).map protocol =
      entries.reverse.findSome? (routeTo protocol) := by
  have hfold : ∀ registry : RouterRegistry,
      (entries.foldl addRouter registry).map protocol =
        (entries.reverse.findSome? (routeTo protocol)).or (registry.map protocol) := by
    induction entries with
    | nil => intro registry; rfl
    | cons entry entries ih =>
      intro registry
      rw [List.foldl_cons, ih, map_addRouter, List.reverse_cons, List.findSome?_append,
        List.findSome?_singleton, Option.or_assoc]
  exact (hfold _).trans Option.or_none

theorem solidlyMode_buildRouterRegistry (entries : List (Text × Text)) :
    (buildRouterRegistry entries).solidlyMode =
      entries.any fun entry => isSolidly (Text.lower entry.1) := by
  have hfold : ∀ registry : RouterRegistry, (entries.foldl addRouter registry).solidlyMode =
      (registry.solidlyMode || entries.any fun entry => isSolidly (Text.lower entry.1)) := by
    induction entries with
    | nil => intro registry; exact (Bool.or_false _).symm
    | cons entry entries ih =>
      intro registry
      rw [List.foldl_cons, ih, solidlyMode_addRouter, List.any_cons, Bool.or_assoc]
  exact (hfold _).trans (Bool.false_or _)

/-- No two entries route one protocol to different addresses. -/
def RoutesAgree (entries : List (Text × Text)) : Prop :=
  ∀ entry ∈ entries, ∀ entry' ∈ entries, ∀ protocol addr addr',
    routeOf entry = some (protocol, addr) → routeOf entry' = some (protocol, addr') → addr = addr'

/-- An entry that comes last is the one that is kept. -/
theorem map_of_last {entries : List (Text × Text)} {entry : Text × Text} {protocol : PoolProtocol}
    {addr : Address} (hroute : routeOf entry = some (protocol, addr)) :
    (buildRouterRegistry (entries ++ [entry])).map protocol = some addr := by
  rw [map_buildRouterRegistry, List.reverse_append, List.reverse_singleton,
    List.singleton_append, List.findSome?_cons, routeTo_eq_some.mpr hroute]

/-- A `solidly` key sets the flag in whatever place it comes. -/
theorem solidlyMode_of_perm {entries entries' : List (Text × Text)}
    (hperm : entries'.Perm entries) :
    (buildRouterRegistry entries').solidlyMode =
      entries.any fun entry => isSolidly (Text.lower entry.1) := by
  rw [solidlyMode_buildRouterRegistry]
  exact hperm.any_eq

/-- **The registry and the order of its entries.** The routers are the same in every order exactly
where no two entries disagree. Aerodrome's pools are tested at the router that is registered for them,
if there is one, and in every order with Solidly's calldata as soon as there is a `solidly` key,
whether or not its address is one. -/
theorem buildRouterRegistry_perm_iff (entries : List (Text × Text)) :
    ((∀ entries', entries'.Perm entries →
        (buildRouterRegistry entries').map = (buildRouterRegistry entries).map) ↔
      RoutesAgree entries) ∧
    ∀ entries', entries'.Perm entries →
      ((buildRouterRegistry entries').solidlyMode = true ↔
        ∃ entry ∈ entries, isSolidly (Text.lower entry.1) = true) ∧
      ∀ tickSpacing, protocolToRouter .aerodrome tickSpacing (buildRouterRegistry entries') =
        ((buildRouterRegistry entries').map .aerodrome).map fun router =>
          (router, if entries.any fun entry => isSolidly (Text.lower entry.1)
            then .solidly (tickSpacing == 0) else .aerodrome (tickSpacing == 0)) := by
  refine ⟨⟨fun hsame entry hentry entry' hentry' protocol addr addr' hroute hroute' => ?_,
    fun hagree entries' hperm => ?_⟩, fun entries' hperm => ⟨?_, fun tickSpacing => ?_⟩⟩
  · have hlast : ∀ e ∈ entries, ∀ a, routeOf e = some (protocol, a) →
        (buildRouterRegistry entries).map protocol = some a := by
      intro e he a ha
      have hperm : (entries.erase e ++ [e]).Perm entries :=
        (List.perm_append_singleton e _).trans (List.perm_cons_erase he).symm
      rw [← hsame _ hperm]
      exact map_of_last ha
    exact Option.some.inj ((hlast entry hentry addr hroute).symm.trans
      (hlast entry' hentry' addr' hroute'))
  · funext protocol
    rw [map_buildRouterRegistry, map_buildRouterRegistry]
    have hreverse : entries'.reverse.Perm entries.reverse :=
      (List.reverse_perm entries').trans (hperm.trans (List.reverse_perm entries).symm)
    refine findSome?_eq_of_perm hreverse fun x hx y hy b c hb hc => ?_
    have hin : ∀ z ∈ entries'.reverse, z ∈ entries := fun z hz =>
      hperm.mem_iff.mp (List.mem_reverse.mp hz)
    exact hagree x (hin x hx) y (hin y hy) protocol b c (routeTo_eq_some.mp hb)
      (routeTo_eq_some.mp hc)
  · rw [solidlyMode_of_perm hperm, List.any_eq_true]
  · unfold protocolToRouter
    dsimp only
    rw [solidlyMode_of_perm hperm]
    cases (buildRouterRegistry entries').map .aerodrome with
    | none => split <;> rfl
    | some router => split <;> rfl

end ArbBot.Startup
