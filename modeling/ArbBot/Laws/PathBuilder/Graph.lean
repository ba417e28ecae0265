import ArbBot.PathBuilder
import Mathlib.Data.List.Forall2

/-!
# The token graph represents the pool list

The loop over the pools adds one edge per pool, between the nodes of its two tokens, with the
pool's index as weight; nodes are only ever appended, so an edge keeps its ends. From this the
links of the graph are exactly the links of the pool list, read through the node map
(`NodeLink.poolLink`, `PoolLink.nodeLink`), and the enumeration of a node's edges lists exactly
the links that leave it (`mem_order_edges`).
-/

namespace ArbBot.PathBuilder

open Lib

/-- Pool `i` of the list trades `a` against `b`, in either direction. -/
def PoolLink (pools : List RawPool) (i : Nat) (a b : Address) : Prop :=
  ∃ pool, pools[i]? = some pool ∧
    ((pool.token0 = a ∧ pool.token1 = b) ∨ (pool.token0 = b ∧ pool.token1 = a))

/-- The edge of weight `i` joins the nodes `u` and `v`. -/
def NodeLink (g : TokenGraph) (i u v : Nat) : Prop :=
  ∃ edge ∈ g.edges, edge.weight = i ∧
    ((edge.source = u ∧ edge.target = v) ∨ (edge.source = v ∧ edge.target = u))

theorem PoolLink.symm {pools : List RawPool} {i : Nat} {a b : Address}
    (h : PoolLink pools i a b) : PoolLink pools i b a := by
  obtain ⟨pool, hp, hends⟩ := h
  exact ⟨pool, hp, hends.symm⟩

/-- A pool has one unordered pair of tokens. -/
theorem PoolLink.ends {pools : List RawPool} {i : Nat} {a b a' b' : Address}
    (h : PoolLink pools i a b) (h' : PoolLink pools i a' b') :
    (a = a' ∧ b = b') ∨ (a = b' ∧ b = a') := by
  obtain ⟨pool, hp, hends⟩ := h
  obtain ⟨pool', hp', hends'⟩ := h'
  rw [hp] at hp'
  cases hp'
  rcases hends with ⟨rfl, rfl⟩ | ⟨rfl, rfl⟩ <;> rcases hends' with ⟨rfl, rfl⟩ | ⟨rfl, rfl⟩ <;> simp

/-! ## Building the graph -/

namespace TokenGraph

/-- An entry of a list keeps its place when the list is extended. -/
theorem getElem?_of_prefix {α : Type} {xs ys : List α} {i : Nat} {a : α} (hpre : xs <+: ys)
    (h : xs[i]? = some a) : ys[i]? = some a := by
  obtain ⟨hi, rfl⟩ := List.getElem?_eq_some_iff.mp h
  exact List.prefix_iff_getElem?.mp hpre i hi

/-- `edge` stands for the pool of a pair from `zipIdx`. -/
def EdgeOf (g : TokenGraph) (entry : RawPool × Nat) (edge : Edge) : Prop :=
  edge.weight = entry.2 ∧ g.nodes[edge.source]? = some entry.1.token0 ∧
    g.nodes[edge.target]? = some entry.1.token1

theorem EdgeOf.mono {g g' : TokenGraph} (hpre : g.nodes <+: g'.nodes) {entry : RawPool × Nat}
    {edge : Edge} (h : g.EdgeOf entry edge) : g'.EdgeOf entry edge :=
  ⟨h.1, getElem?_of_prefix hpre h.2.1, getElem?_of_prefix hpre h.2.2⟩

/-- Looking a token up appends at most one node and leaves the edges alone. -/
theorem entry_spec (g : TokenGraph) (token : Address) :
    g.nodes <+: (g.entry token).1.nodes ∧ (g.entry token).1.edges = g.edges ∧
      (g.entry token).1.nodes[(g.entry token).2]? = some token := by
  unfold entry
  split
  · rename_i n hn
    exact ⟨List.prefix_refl _, rfl, (g.agree token n).mp hn⟩
  · exact ⟨List.prefix_append _ _, rfl, List.getElem?_concat_length⟩

theorem addPool_spec (g : TokenGraph) (i : Nat) (pool : RawPool) :
    g.nodes <+: (g.addPool i pool).nodes ∧
      ∃ edge, (g.addPool i pool).edges = g.edges ++ [edge] ∧
        (g.addPool i pool).EdgeOf (pool, i) edge := by
  obtain ⟨hpre0, hedges0, hnode0⟩ := g.entry_spec pool.token0
  obtain ⟨hpre1, hedges1, hnode1⟩ := (g.entry pool.token0).1.entry_spec pool.token1
  refine ⟨hpre0.trans hpre1, ⟨_, _, i⟩, ?_, rfl, getElem?_of_prefix hpre1 hnode0, hnode1⟩
  simp only [addPool, addEdge, hedges1, hedges0]

theorem addPools_spec (pools : List RawPool) : ∀ (done : List RawPool) (g : TokenGraph),
    List.Forall₂ g.EdgeOf done.zipIdx g.edges →
      List.Forall₂ (g.addPools done.length pools).EdgeOf (done ++ pools).zipIdx
        (g.addPools done.length pools).edges := by
  induction pools with
  | nil => intro done g h; simpa only [addPools, List.append_nil] using h
  | cons pool pools ih =>
    intro done g h
    obtain ⟨hpre, edge, hedges, hedge⟩ := g.addPool_spec done.length pool
    have hdone : List.Forall₂ (g.addPool done.length pool).EdgeOf (done ++ [pool]).zipIdx
        (g.addPool done.length pool).edges := by
      rw [List.zipIdx_append, hedges]
      refine List.rel_append (h.imp fun _ _ => EdgeOf.mono hpre) (.cons ?_ .nil)
      simpa only [Nat.zero_add] using hedge
    have := ih (done ++ [pool]) _ hdone
    simpa only [addPools, List.length_append, List.length_singleton, List.append_assoc,
      List.singleton_append] using this

end TokenGraph

/-- The graph has one edge per pool, in the order of the list. -/
theorem edges_buildGraph (pools : List RawPool) :
    List.Forall₂ (buildGraph pools).EdgeOf pools.zipIdx (buildGraph pools).edges :=
  TokenGraph.addPools_spec pools [] TokenGraph.empty .nil

/-- Every edge stands for the pool its weight names. -/
theorem mem_edges_buildGraph {pools : List RawPool} {edge : Edge}
    (h : edge ∈ (buildGraph pools).edges) :
    ∃ pool, pools[edge.weight]? = some pool ∧
      (buildGraph pools).nodes[edge.source]? = some pool.token0 ∧
      (buildGraph pools).nodes[edge.target]? = some pool.token1 := by
  obtain ⟨⟨pool, i⟩, hmem, hw, hs, ht⟩ : ∃ entry ∈ pools.zipIdx, (buildGraph pools).EdgeOf entry edge := by
    obtain ⟨k, hk, rfl⟩ := List.getElem_of_mem h
    have hlen := (edges_buildGraph pools).length_eq
    have hget := (edges_buildGraph pools).get (hlen ▸ hk) hk
    exact ⟨_, List.getElem_mem _, hget⟩
  refine ⟨pool, ?_, hs, ht⟩
  rw [hw]
  exact List.mk_mem_zipIdx_iff_getElem?.mp hmem

/-- Every pool has its edge. -/
theorem exists_edge {pools : List RawPool} {i : Nat} {pool : RawPool}
    (h : pools[i]? = some pool) :
    ∃ edge ∈ (buildGraph pools).edges, (buildGraph pools).EdgeOf (pool, i) edge := by
  obtain ⟨k, hk, hget⟩ := List.getElem_of_mem (List.mk_mem_zipIdx_iff_getElem?.mpr h)
  have hlen := (edges_buildGraph pools).length_eq
  have hrel := (edges_buildGraph pools).get hk (hlen ▸ hk)
  rw [List.get_eq_getElem, hget] at hrel
  exact ⟨_, List.getElem_mem _, hrel⟩

/-! ## Tokens and nodes -/

namespace TokenGraph

/-- The node of a token; tokens outside the graph share node 0. -/
def node (g : TokenGraph) (token : Address) : Nat := (g.nodeMap token).getD 0

theorem token_of_getElem? {g : TokenGraph} {n : Nat} {t : Address} (h : g.nodes[n]? = some t) :
    g.token n = t := by
  simp only [token, List.getD_eq_getElem?_getD, h, Option.getD_some]

theorem node_of_getElem? {g : TokenGraph} {n : Nat} {t : Address} (h : g.nodes[n]? = some t) :
    g.node t = n := by
  simp only [node, (g.agree t n).mpr h, Option.getD_some]

end TokenGraph

/-- The ends of a linked edge are nodes of the graph, and its pool trades their tokens. -/
theorem NodeLink.poolLink {pools : List RawPool} {i u v : Nat}
    (h : NodeLink (buildGraph pools) i u v) :
    ∃ a b, (buildGraph pools).nodes[u]? = some a ∧ (buildGraph pools).nodes[v]? = some b ∧
      PoolLink pools i a b := by
  obtain ⟨edge, hmem, rfl, hends⟩ := h
  obtain ⟨pool, hp, hs, ht⟩ := mem_edges_buildGraph hmem
  rcases hends with ⟨rfl, rfl⟩ | ⟨rfl, rfl⟩
  · exact ⟨_, _, hs, ht, pool, hp, .inl ⟨rfl, rfl⟩⟩
  · exact ⟨_, _, ht, hs, pool, hp, .inr ⟨rfl, rfl⟩⟩

/-- A pool's link is the link of its edge between the nodes of its tokens. -/
theorem PoolLink.nodeLink {pools : List RawPool} {i : Nat} {a b : Address}
    (h : PoolLink pools i a b) :
    (buildGraph pools).nodes[(buildGraph pools).node a]? = some a ∧
      (buildGraph pools).nodes[(buildGraph pools).node b]? = some b ∧
      NodeLink (buildGraph pools) i ((buildGraph pools).node a) ((buildGraph pools).node b) := by
  obtain ⟨pool, hp, hends⟩ := h
  obtain ⟨edge, hmem, hw, hs, ht⟩ := exists_edge hp
  rcases hends with ⟨rfl, rfl⟩ | ⟨rfl, rfl⟩
  · rw [TokenGraph.node_of_getElem? hs, TokenGraph.node_of_getElem? ht]
    exact ⟨hs, ht, edge, hmem, hw, .inl ⟨rfl, rfl⟩⟩
  · rw [TokenGraph.node_of_getElem? hs, TokenGraph.node_of_getElem? ht]
    exact ⟨ht, hs, edge, hmem, hw, .inr ⟨rfl, rfl⟩⟩

/-! ## Incident edges -/

theorem Edge.neighbour_eq_iff {edge : Edge} {u v : Nat}
    (hinc : edge.source = u ∨ edge.target = u) :
    edge.neighbour u = v ↔
      (edge.source = u ∧ edge.target = v) ∨ (edge.source = v ∧ edge.target = u) := by
  unfold Edge.neighbour
  split
  · rename_i hs
    constructor
    · exact fun ht => .inl ⟨hs, ht⟩
    · rintro (⟨-, ht⟩ | ⟨hv, ht⟩)
      exacts [ht, ht.trans (hs.symm.trans hv)]
  · rename_i hs
    constructor
    · exact fun hv => .inr ⟨hv, hinc.resolve_left hs⟩
    · rintro (⟨hu, -⟩ | ⟨hv, -⟩)
      exacts [absurd hu hs, hv]

/-- The edges enumerated at a node, with the neighbour each one leads to, are the links that
leave the node. -/
theorem mem_order_edges {g : TokenGraph} (order : EdgeOrder g) {u v i : Nat} :
    (∃ edge ∈ order.edges u, edge.weight = i ∧ edge.neighbour u = v) ↔ NodeLink g i u v := by
  have hmem : ∀ edge, edge ∈ order.edges u ↔
      edge ∈ g.edges ∧ (edge.source = u ∨ edge.target = u) := fun edge => by
    rw [(order.incident u).mem_iff, List.mem_filter, decide_eq_true_iff]
  constructor
  · rintro ⟨edge, he, hw, hn⟩
    obtain ⟨hedge, hinc⟩ := (hmem edge).mp he
    exact ⟨edge, hedge, hw, (Edge.neighbour_eq_iff hinc).mp hn⟩
  · rintro ⟨edge, hedge, hw, hends⟩
    have hinc : edge.source = u ∨ edge.target = u := hends.imp And.left And.right
    exact ⟨edge, (hmem edge).mpr ⟨hedge, hinc⟩, hw, (Edge.neighbour_eq_iff hinc).mpr hends⟩

/-- Every edge has a weight of its own. -/
theorem nodup_weights_buildGraph (pools : List RawPool) :
    ((buildGraph pools).edges.map Edge.weight).Nodup := by
  have hweights : ∀ {entries : List (RawPool × Nat)} {edges : List Edge},
      List.Forall₂ (buildGraph pools).EdgeOf entries edges →
        edges.map Edge.weight = entries.map Prod.snd := by
    intro entries edges h
    induction h with
    | nil => rfl
    | cons hedge _ ih => rw [List.map_cons, List.map_cons, hedge.1, ih]
  rw [hweights (edges_buildGraph pools), List.zipIdx_map_snd]
  exact List.nodup_range'

theorem EdgeOrder.nodup_weights {pools : List RawPool} (order : EdgeOrder (buildGraph pools))
    (node : Nat) : ((order.edges node).map Edge.weight).Nodup := by
  refine ((order.incident node).map Edge.weight).nodup_iff.mpr ?_
  exact (nodup_weights_buildGraph pools).sublist (List.filter_sublist.map Edge.weight)

end ArbBot.PathBuilder
