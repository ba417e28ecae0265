import ArbBot.Laws.PathBuilder.Graph

/-!
# What the depth-first search emits

`walks` lists, in the order of the search, the closing walks below a node: the search without its
counter, its cap and its hash set. `Emits ws d d'` relates the search to such a list: the stack
and the visited set are restored, the new paths are some of the walks of `ws` in order, the hash
set goes on tracking the paths, and when the counter ends below the cap every walk of `ws` has
its hash in the set. One lemma per thing the loop can do composes to `findCycles_explores`, and
`mem_walks` reads the list off the graph.

The bound on the new paths is one-sided: after a descent has reached the cap, the loops it
returns into may each push one more path. Nothing here says that the cap is respected.
-/

namespace ArbBot.PathBuilder

open Lib

namespace Search

variable (s : Search)

/-- The path of a list of hops. -/
def pathOf (hops : List Hop) : SwapPath := SwapPath.new s.hasher (hops.filterMap s.step)

theorem buildSwapPath_eq (path : List Hop) (hop : Hop) :
    s.buildSwapPath path hop = s.pathOf (path ++ [hop]) := rfl

/-- The closing walks one edge of `node` leads to; `deeper` lists those below the neighbour. -/
def branch (deeper : Nat → List Hop → Finset Nat → List (List Hop)) (node : Nat)
    (path : List Hop) (visited : Finset Nat) (edge : Edge) : List (List Hop) :=
  let next := edge.neighbour node
  let hop : Hop := ⟨node, edge.weight, next⟩
  if next = s.startNode then if 2 ≤ path.length then [path ++ [hop]] else []
  else if next ∉ visited ∧ path.length < s.maxHops then
    deeper next (path ++ [hop]) (insert next visited)
  else []

/-- The closing walks below `node`, in the order of the search. -/
def walks : Nat → Nat → List Hop → Finset Nat → List (List Hop)
  | 0, _, _, _ => []
  | depth + 1, node, path, visited =>
    (s.order.edges node).flatMap (s.branch (walks depth) node path visited)

/-! ## The emission relation -/

/-- The hash set holds exactly the hashes of the paths, and no two paths share one. -/
structure Tracks (paths : List SwapPath) (seen : Finset UInt64) : Prop where
  mem : ∀ h, h ∈ seen ↔ h ∈ paths.map SwapPath.hash
  nodup : (paths.map SwapPath.hash).Nodup

/-- The search went from `d` to `d'` over the closing walks `ws`. -/
structure Emits (ws : List (List Hop)) (d d' : Dfs) : Prop where
  stack : d'.currentPath = d.currentPath
  visited : d'.visited = d.visited
  grows : ∃ new, new.Sublist (ws.map s.pathOf) ∧ d'.allPaths = d.allPaths ++ new ∧
    d'.count = d.count + new.length
  seen : d.seenHashes ⊆ d'.seenHashes
  tracks : Tracks d.allPaths d.seenHashes → Tracks d'.allPaths d'.seenHashes
  complete : d'.count < s.maxPathsPerToken → ∀ w ∈ ws, (s.pathOf w).hash ∈ d'.seenHashes

namespace Emits

variable {s} {ws ws' : List (List Hop)} {d d' d'' : Dfs}

theorem count_le (h : Emits s ws d d') : d.count ≤ d'.count := by
  obtain ⟨new, -, -, hc⟩ := h.grows
  omega

/-- Nothing explored, nothing changed. -/
theorem refl (d : Dfs) : Emits s [] d d where
  stack := rfl
  visited := rfl
  grows := ⟨[], List.nil_sublist _, (List.append_nil _).symm, rfl⟩
  seen := Finset.Subset.refl _
  tracks := id
  complete := fun _ _ hw => absurd hw List.not_mem_nil

theorem trans (h : Emits s ws d d') (h' : Emits s ws' d' d'') : Emits s (ws ++ ws') d d'' where
  stack := h'.stack.trans h.stack
  visited := h'.visited.trans h.visited
  grows := by
    obtain ⟨new, hsub, hall, hc⟩ := h.grows
    obtain ⟨new', hsub', hall', hc'⟩ := h'.grows
    refine ⟨new ++ new', ?_, ?_, ?_⟩
    · rw [List.map_append]
      exact hsub.append hsub'
    · rw [hall', hall, List.append_assoc]
    · rw [hc', hc, List.length_append, Nat.add_assoc]
  seen := h.seen.trans h'.seen
  tracks := fun ht => h'.tracks (h.tracks ht)
  complete := by
    intro hlt w hw
    rcases List.mem_append.mp hw with hw | hw
    · exact h'.seen (h.complete (Nat.lt_of_le_of_lt h'.count_le hlt) w hw)
    · exact h'.complete hlt w hw

/-- At the cap, whatever was left unexplored does not matter. -/
theorem capped (h : Emits s ws d d') (hcap : s.maxPathsPerToken ≤ d'.count)
    (rest : List (List Hop)) : Emits s (ws ++ rest) d d' :=
  { h with
    grows := by
      obtain ⟨new, hsub, hall, hc⟩ := h.grows
      refine ⟨new, ?_, hall, hc⟩
      rw [List.map_append]
      exact hsub.trans (List.sublist_append_left _ _)
    complete := fun hlt => absurd hlt (Nat.not_lt_of_le hcap) }

/-- A walk whose hash is known is not emitted again. -/
theorem known {w : List Hop} (hw : (s.pathOf w).hash ∈ d.seenHashes) : Emits s [w] d d :=
  { refl (s := s) d with
    grows := ⟨[], List.nil_sublist _, (List.append_nil _).symm, rfl⟩
    complete := fun _ _ hw' => List.mem_singleton.mp hw' ▸ hw }

/-- A walk whose hash is new is pushed. -/
theorem pushed {w : List Hop} (hw : (s.pathOf w).hash ∉ d.seenHashes) :
    Emits s [w] d (push d (s.pathOf w)) where
  stack := rfl
  visited := rfl
  grows := ⟨[s.pathOf w], List.Sublist.refl _, rfl, rfl⟩
  seen := Finset.subset_insert _ _
  tracks := by
    intro ht
    have hnot : (s.pathOf w).hash ∉ d.allPaths.map SwapPath.hash := fun h => hw ((ht.mem _).mpr h)
    refine ⟨fun h => ?_, ?_⟩
    · simp only [push, Finset.mem_insert, ht.mem, List.map_append, List.map_cons, List.map_nil,
        List.mem_append, List.mem_singleton]
      exact or_comm
    · simp only [push, List.map_append, List.map_cons, List.map_nil]
      exact ht.nodup.append (List.nodup_singleton _)
        (List.disjoint_singleton.mpr hnot)
  complete := fun _ w' hw' => List.mem_singleton.mp hw' ▸ Finset.mem_insert_self _ _

/-- A descent into `hop`, undone on the way back. -/
theorem descended {hop : Hop} (hfresh : hop.dst ∉ d.visited) (h : Emits s ws (enter d hop) d') :
    Emits s ws d (leave d' hop.dst) where
  stack := by
    rw [leave, h.stack]
    exact List.dropLast_concat
  visited := by
    rw [leave, h.visited]
    exact Finset.erase_insert hfresh
  grows := h.grows
  seen := h.seen
  tracks := h.tracks
  complete := h.complete

end Emits

/-! ## The search explores the walks -/

variable {s}

/-- One pass over the edges of a node, when the recursive call explores `deeper`. -/
theorem edgeLoop_explores {descend : Nat → Dfs → Dfs}
    {deeper : Nat → List Hop → Finset Nat → List (List Hop)}
    (hdescend : ∀ node d, Emits s (deeper node d.currentPath d.visited) d (descend node d))
    (node : Nat) (path : List Hop) (visited : Finset Nat) :
    ∀ (edges : List Edge) (d : Dfs), d.currentPath = path → d.visited = visited →
      Emits s (edges.flatMap (s.branch deeper node path visited)) d
        (s.edgeLoop descend node edges d) := by
  intro edges
  induction edges with
  | nil => intro d _ _; exact .refl d
  | cons edge rest ih =>
    intro d hpath hvisited
    -- `first` explores the branch of `edge`; the loop goes on from the state it leaves
    have go {ws : List (List Hop)} {d' : Dfs} (first : Emits s ws d d') :
        Emits s (ws ++ rest.flatMap (s.branch deeper node path visited)) d
          (s.edgeLoop descend node rest d') :=
      first.trans (ih d' (first.stack.trans hpath) (first.visited.trans hvisited))
    simp only [List.flatMap_cons, edgeLoop, branch, hpath, hvisited, buildSwapPath_eq]
    split
    · split
      · split
        · rename_i hknown
          exact go (.known hknown)
        · rename_i hnew
          split
          · rename_i hcap
            exact (Emits.pushed hnew).capped hcap _
          · exact go (.pushed hnew)
      · exact go (.refl d)
    · split
      · rename_i hstart hopen
        have hbelow := hdescend (edge.neighbour node)
          (enter d ⟨node, edge.weight, edge.neighbour node⟩)
        have hfresh : edge.neighbour node ∉ d.visited := by rw [hvisited]; exact hopen.1
        have hback := hbelow.descended hfresh
        simp only [enter, hpath, hvisited] at hback ⊢
        exact go hback
      · exact go (.refl d)

/-- **The search explores exactly the closing walks below its node**: it emits some of them, in
order, and all of them up to their hashes when the counter stays below the cap. -/
theorem findCycles_explores (depth : Nat) : ∀ (node : Nat) (d : Dfs),
    Emits s (s.walks depth node d.currentPath d.visited) d (s.findCycles depth node d) := by
  induction depth with
  | zero => intro node d; exact .refl d
  | succ depth ih =>
    intro node d
    unfold findCycles walks
    split
    · rename_i hcap
      exact (Emits.refl d).capped hcap _
    · exact edgeLoop_explores ih node d.currentPath d.visited _ d rfl rfl

/-! ## Which walks there are -/

/-- **The closing walks below a node**, read off the graph: the stack, then a walk through fresh
nodes back to the start, of at least three and at most `maxHops + 1` hops. The descent is guarded
by the length of the stack alone and the closing hop is added outside it, so the longest walk has
one hop more than `maxHops`. -/
theorem mem_walks {depth : Nat} : ∀ {node : Nat} {path : List Hop} {visited : Finset Nat}
    {w : List Hop}, path.length ≤ s.maxHops → s.maxHops + 1 ≤ depth + path.length →
      (w ∈ s.walks depth node path visited ↔
        ∃ suffix, w = path ++ suffix ∧
          Closes (NodeLink s.graph) s.startNode node visited suffix ∧
            3 ≤ w.length ∧ w.length ≤ s.maxHops + 1) := by
  induction depth with
  | zero => intro node path visited w hle hdepth; omega
  | succ depth ih =>
    intro node path visited w hle hdepth
    simp only [walks, List.mem_flatMap]
    constructor
    · rintro ⟨edge, hedge, hw⟩
      have hlink := (mem_order_edges s.order).mp ⟨edge, hedge, rfl, rfl⟩
      simp only [branch] at hw
      split at hw
      · rename_i hstart
        split at hw
        · rename_i hlen
          obtain rfl := List.mem_singleton.mp hw
          refine ⟨_, rfl, ⟨rfl, hlink, hstart⟩, ?_⟩
          simp only [List.length_append, List.length_singleton]
          omega
        · exact absurd hw List.not_mem_nil
      · rename_i hstart
        split at hw
        · rename_i hopen
          obtain ⟨suffix, rfl, hcloses, hlen⟩ := (ih (by simp; omega) (by simp; omega)).mp hw
          have hne : suffix ≠ [] := (closes_iff.mp hcloses).1
          refine ⟨⟨node, edge.weight, edge.neighbour node⟩ :: suffix, by simp, ?_, hlen⟩
          exact (closes_cons_cons hne).mpr ⟨rfl, hlink, hstart, hopen.1, hcloses⟩
        · exact absurd hw List.not_mem_nil
    · rintro ⟨suffix, rfl, hcloses, hlen⟩
      cases suffix with
      | nil => exact hcloses.elim
      | cons hop rest =>
        obtain ⟨src, label, dst⟩ := hop
        cases rest with
        | nil =>
          obtain ⟨rfl, hlink, rfl⟩ := hcloses
          obtain ⟨edge, hedge, rfl, hnext⟩ := (mem_order_edges s.order).mpr hlink
          have hlong : 2 ≤ path.length := by simpa using hlen.1
          refine ⟨edge, hedge, ?_⟩
          simp only [branch, hnext, if_pos, if_pos hlong, List.mem_singleton]
        | cons m ls =>
          obtain ⟨rfl, hlink, hstart, hfresh, hrest⟩ := hcloses
          obtain ⟨edge, hedge, rfl, hnext⟩ := (mem_order_edges s.order).mpr hlink
          have hshort : path.length < s.maxHops := by
            simp only [List.length_append, List.length_cons] at hlen
            omega
          refine ⟨edge, hedge, ?_⟩
          simp only [branch, hnext, if_neg hstart]
          rw [if_pos ⟨hfresh, hshort⟩]
          refine (ih (by simp; omega) (by simp; omega)).mpr ⟨m :: ls, by simp, hrest, ?_⟩
          simpa using hlen

/-- At the top of the search the closing walks are the simple cycles through the start node of
three to `maxHops + 1` hops. -/
theorem mem_walks_top {w : List Hop} :
    w ∈ s.walks (s.maxHops + 1) s.startNode [] {s.startNode} ↔
      SimpleCycle (NodeLink s.graph) s.startNode w ∧ 3 ≤ w.length ∧
        w.length ≤ s.maxHops + 1 := by
  rw [mem_walks (Nat.zero_le _) (Nat.le_refl _), simpleCycle_iff_closes]
  simp

end Search

end ArbBot.PathBuilder
