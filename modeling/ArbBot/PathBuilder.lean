import ArbBot.Lib.Cycle
import ArbBot.SwapTypes
import Mathlib.Data.Finset.Basic

/-!
# The path builder

`path_builder.rs`: tokens are the nodes of an undirected graph, pools its edges, and a recursive
depth-first search from each start token emits the cycles that close back to it. The search
threads the caller's mutable state (the path stack, the visited set, the paths emitted so far,
their hashes and the counter of the current start token) and restores the stack and the visited
set after each descent, as the source does.

The order in which petgraph enumerates the edges of a node is not fixed here: `EdgeOrder` is any
enumeration that lists exactly the incident edges.
-/

namespace ArbBot.PathBuilder

/-- An edge of the token graph; its weight is the index of a pool. -/
structure Edge where
  source : Nat
  target : Nat
  weight : Nat
  deriving DecidableEq

/-- The end of `edge` that is not `node`. -/
def Edge.neighbour (edge : Edge) (node : Nat) : Nat :=
  if edge.source = node then edge.target else edge.source

/-- The token graph under construction: node weights, the map from tokens to nodes, and the
edges. The map is the inverse of the node weights. -/
structure TokenGraph where
  nodes : List Address
  nodeMap : Address → Option Nat
  edges : List Edge
  agree : ∀ t n, nodeMap t = some n ↔ nodes[n]? = some t

namespace TokenGraph

/-- `UnGraph::new_undirected` with an empty node map. -/
def empty : TokenGraph := ⟨[], fun _ => none, [], by simp⟩

/-- A fresh token appended to the node weights is mapped to its own index. -/
theorem agree_snoc {nodes : List Address} {nodeMap : Address → Option Nat} {token : Address}
    (agree : ∀ t n, nodeMap t = some n ↔ nodes[n]? = some t) (fresh : nodeMap token = none)
    (t : Address) (n : Nat) :
    (if t = token then some nodes.length else nodeMap t) = some n ↔
      (nodes ++ [token])[n]? = some t := by
  rcases Nat.lt_trichotomy n nodes.length with hn | rfl | hn
  · rw [List.getElem?_append_left hn, ← agree]
    by_cases ht : t = token
    · subst ht
      simp only [if_pos, fresh, Option.some.injEq, reduceCtorEq, iff_false]
      exact Nat.ne_of_gt hn
    · rw [if_neg ht]
  · rw [List.getElem?_concat_length, Option.some.injEq]
    by_cases ht : t = token
    · simp only [ht, if_pos]
    · rw [if_neg ht, agree, List.getElem?_eq_none (Nat.le_refl _)]
      simp only [reduceCtorEq, false_iff]
      exact fun he => ht he.symm
  · have hout : (nodes ++ [token])[n]? = none := List.getElem?_eq_none (by simp; omega)
    rw [hout]
    by_cases ht : t = token
    · simp only [ht, if_pos, Option.some.injEq, reduceCtorEq, iff_false]
      exact Nat.ne_of_lt hn
    · rw [if_neg ht, agree, List.getElem?_eq_none (Nat.le_of_lt hn)]

/-- `graph.add_node(token)`, recorded in the node map under its token. -/
def addNode (g : TokenGraph) (token : Address) (fresh : g.nodeMap token = none) : TokenGraph where
  nodes := g.nodes ++ [token]
  nodeMap t := if t = token then some g.nodes.length else g.nodeMap t
  edges := g.edges
  agree := agree_snoc g.agree fresh

/-- `node_map.entry(token).or_insert_with(...)`: the token's node, added when missing. -/
def entry (g : TokenGraph) (token : Address) : TokenGraph × Nat :=
  match h : g.nodeMap token with
  | some n => (g, n)
  | none => (g.addNode token h, g.nodes.length)

/-- `graph.add_edge(n0, n1, i)`. -/
def addEdge (g : TokenGraph) (n0 n1 : Nat) (i : Nat) : TokenGraph :=
  { g with edges := g.edges ++ [⟨n0, n1, i⟩] }

/-- One round of the loop over the pools. -/
def addPool (g : TokenGraph) (i : Nat) (pool : RawPool) : TokenGraph :=
  let (g, n0) := g.entry pool.token0
  let (g, n1) := g.entry pool.token1
  g.addEdge n0 n1 i

/-- The loop over the pools from index `i` on. -/
def addPools (g : TokenGraph) : Nat → List RawPool → TokenGraph
  | _, [] => g
  | i, pool :: pools => (g.addPool i pool).addPools (i + 1) pools

/-- `graph[node]`: the token of a node. -/
def token (g : TokenGraph) (node : Nat) : Address := g.nodes.getD node 0

end TokenGraph

/-- The undirected token graph of a pool list. -/
def buildGraph (pools : List RawPool) : TokenGraph := TokenGraph.empty.addPools 0 pools

/-- An enumeration of the edges of each node: any order of exactly the incident ones. -/
structure EdgeOrder (g : TokenGraph) where
  edges : Nat → List Edge
  incident : ∀ n, (edges n).Perm (g.edges.filter fun e => e.source = n ∨ e.target = n)

/-- The edges of each node in the order they were added. -/
def EdgeOrder.insertion (g : TokenGraph) : EdgeOrder g where
  edges n := g.edges.filter fun e => e.source = n ∨ e.target = n
  incident _ := .refl _

/-- The order petgraph enumerates them in: those added from the node, then those added to it, the
newest first. -/
def EdgeOrder.newestFirst (g : TokenGraph) : EdgeOrder g where
  edges n := (g.edges.filter fun e => e.source = n).reverse ++
    (g.edges.filter fun e => e.source ≠ n ∧ e.target = n).reverse
  incident n := by
    have hsplit := List.filter_append_perm (fun e : Edge => decide (e.source = n))
      (g.edges.filter fun e => e.source = n ∨ e.target = n)
    rw [List.filter_filter, List.filter_filter] at hsplit
    refine .trans (.append (List.reverse_perm _) (List.reverse_perm _)) (.trans (.of_eq ?_) hsplit)
    congr 1 <;> refine List.filter_congr fun e _ => ?_ <;> by_cases h : e.source = n <;> simp [h]

/-- An entry `(from, pool_idx, to)` of the path stack: a leg between nodes, labelled with the
index of a pool. -/
abbrev Hop := Lib.Leg Nat Nat

/-- The arguments of the search that do not change. -/
structure Search where
  pools : List RawPool
  graph : TokenGraph
  order : EdgeOrder graph
  hasher : StepHasher
  startNode : Nat
  maxHops : Nat
  maxPathsPerToken : Nat

/-- The state the search mutates. -/
structure Dfs where
  currentPath : List Hop
  visited : Finset Nat
  allPaths : List SwapPath
  seenHashes : Finset UInt64
  count : Nat

namespace Search

/-- The step a hop stands for: its pool's address, protocol and fee between the hop's tokens. -/
def step (s : Search) (hop : Hop) : Option SwapStep :=
  s.pools[hop.label]?.map fun pool =>
    { poolAddress := pool.address
      tokenIn := s.graph.token hop.src
      tokenOut := s.graph.token hop.dst
      protocol := pool.protocol
      fee := pool.fee }

/-- `build_swap_path`: the stack and the closing edge as a path. An edge's weight is always the
index of a pool, so the lookups that panic in the source are never out of range
(`mem_edges_buildGraph`). -/
def buildSwapPath (s : Search) (currentPath : List Hop) (closing : Hop) : SwapPath :=
  SwapPath.new s.hasher ((currentPath ++ [closing]).filterMap s.step)

/-- `seen_hashes.insert(path.hash)` succeeded: the path is pushed and counted. -/
def push (d : Dfs) (path : SwapPath) : Dfs :=
  { d with
    allPaths := d.allPaths ++ [path]
    seenHashes := insert path.hash d.seenHashes
    count := d.count + 1 }

/-- The stack and the visited set on the way into `hop.dst`. -/
def enter (d : Dfs) (hop : Hop) : Dfs :=
  { d with
    currentPath := d.currentPath ++ [hop]
    visited := insert hop.dst d.visited }

/-- `current_path.pop()` and `visited.remove(&next_node)` on the way back. -/
def leave (d : Dfs) (node : Nat) : Dfs :=
  { d with
    currentPath := d.currentPath.dropLast
    visited := d.visited.erase node }

/-- The loop over the edges of `currentNode`; `descend` is the recursive call. Once the counter
reaches the cap after a push, the loop returns. -/
def edgeLoop (s : Search) (descend : Nat → Dfs → Dfs) (currentNode : Nat) :
    List Edge → Dfs → Dfs
  | [], d => d
  | edge :: rest, d =>
    let nextNode := edge.neighbour currentNode
    let hop : Hop := ⟨currentNode, edge.weight, nextNode⟩
    if nextNode = s.startNode then
      if 2 ≤ d.currentPath.length then
        let path := s.buildSwapPath d.currentPath hop
        if path.hash ∈ d.seenHashes then s.edgeLoop descend currentNode rest d
        else if s.maxPathsPerToken ≤ (push d path).count then push d path
        else s.edgeLoop descend currentNode rest (push d path)
      else s.edgeLoop descend currentNode rest d
    else if nextNode ∉ d.visited ∧ d.currentPath.length < s.maxHops then
      s.edgeLoop descend currentNode rest (leave (descend nextNode (enter d hop)) nextNode)
    else s.edgeLoop descend currentNode rest d

/-- `find_cycles`. A descent happens only while the stack is shorter than `maxHops`, so the depth
`maxHops + 1` the caller passes is never used up (`findCycles_explores`). -/
def findCycles (s : Search) : Nat → Nat → Dfs → Dfs
  | 0, _, d => d
  | depth + 1, currentNode, d =>
    if s.maxPathsPerToken ≤ d.count then d
    else s.edgeLoop (s.findCycles depth) currentNode (s.order.edges currentNode) d

end Search

/-- The arguments of `build_arb_paths` that are the same for every start token, with the edge
order and the hash function it runs under. -/
structure Builder where
  pools : List RawPool
  order : EdgeOrder (buildGraph pools)
  hasher : StepHasher
  maxHops : Nat
  maxPathsPerToken : Nat

namespace Builder

/-- The search from one start node. -/
def search (b : Builder) (startNode : Nat) : Search where
  pools := b.pools
  graph := buildGraph b.pools
  order := b.order
  hasher := b.hasher
  startNode := startNode
  maxHops := b.maxHops
  maxPathsPerToken := b.maxPathsPerToken

/-- The paths emitted so far and their hashes, which all start tokens share. -/
structure Emitted where
  allPaths : List SwapPath
  seenHashes : Finset UInt64

/-- One round of the loop over the start tokens; a token no pool trades is skipped. The second
component is the counter at the end of the round. -/
def round (b : Builder) (e : Emitted) (startToken : Address) : Emitted × Nat :=
  match (buildGraph b.pools).nodeMap startToken with
  | none => (e, 0)
  | some startNode =>
    let d := (b.search startNode).findCycles (b.maxHops + 1) startNode
      ⟨[], {startNode}, e.allPaths, e.seenHashes, 0⟩
    (⟨d.allPaths, d.seenHashes⟩, d.count)

/-- The loop over the start tokens. -/
def rounds (b : Builder) (e : Emitted) (startTokens : List Address) : Emitted :=
  startTokens.foldl (fun e t => (b.round e t).1) e

/-- `build_arb_paths`. -/
def buildArbPaths (b : Builder) (startTokens : List Address) : List SwapPath :=
  (b.rounds ⟨[], ∅⟩ startTokens).allPaths

end Builder

end ArbBot.PathBuilder
