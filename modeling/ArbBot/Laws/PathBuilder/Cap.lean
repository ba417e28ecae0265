import ArbBot.Laws.PathBuilder.Emission
import ArbBot.Lib.CappedScan

/-!
# The cap of a start token

A call of the search looks at the cap when it is entered and after each path it pushes. When a
descent comes back with the cap reached, the loop it comes back to does not look, and goes on: its
own closing edges still push a path each time their hash is new, until one does. So a round is a
capped scan of the closing walks, in which a stop at a walk leaves those of the loops above it
(`findCycles_scans`), and it keeps to the cap exactly if none of these is new (`keepsCap_iff`).
The loops above the last push are at most `maxHops - 2` (`round_emits_le`).
-/

namespace ArbBot.PathBuilder

open Lib

namespace Search

/-- The loop that closes the second walk is one of those the search comes back to from the first:
its stack is shorter, and a beginning of the other one. -/
def Reaches (w w' : List Hop) : Prop :=
  w'.length < w.length ∧ w'.dropLast <+: w.dropLast

instance : DecidableRel Reaches := fun w w' =>
  inferInstanceAs (Decidable (w'.length < w.length ∧ w'.dropLast <+: w.dropLast))

variable (s : Search)

/-- The hash of the path of a walk. -/
def hashOf (w : List Hop) : UInt64 := (s.pathOf w).hash

/-- The scan so far and the state of the search are at one. -/
structure Matches (m : Scan (List Hop) UInt64) (d : Dfs) : Prop where
  seen : m.seen = d.seenHashes
  count : m.count = d.count
  going : m.stop = none → d.count < s.maxPathsPerToken
  stopped : ∀ w, m.stop = some w → s.maxPathsPerToken ≤ d.count

/-- The loop at `path` is not one of those the search comes back to from where the scan stopped. -/
def Apart (path : List Hop) (m : Scan (List Hop) UInt64) : Prop :=
  ∀ w, m.stop = some w → ¬ path <+: w.dropLast

variable {s} {m : Scan (List Hop) UInt64} {d : Dfs} {path : List Hop} {w w' : List Hop}

abbrev scanStep (s : Search) : Scan (List Hop) UInt64 → List Hop → Scan (List Hop) UInt64 :=
  Scan.step s.hashOf Reaches s.maxPathsPerToken

/-- A walk of a loop that is apart from the stop is not looked at. -/
theorem Apart.not_looks (h : Apart path m) {x : List Hop} (hstop : m.stop = some x)
    (hw : path <+: w.dropLast) : ¬ m.Looks Reaches w := fun hlooks =>
  h x hstop (hw.trans ((Scan.looks_of_stop hstop).mp hlooks).2)

/-- Both go on from a push. -/
theorem Matches.push (h : Matches s m d) (w : List Hop) :
    Matches s (m.keep s.hashOf s.maxPathsPerToken w) (push d (s.pathOf w)) where
  seen := by
    rw [Scan.keep, h.seen]
    rfl
  count := by
    rw [Scan.keep, h.count]
    rfl
  going := by
    intro hnone
    simp only [Scan.keep, h.count, ite_eq_right_iff, reduceCtorEq, imp_false] at hnone
    exact Nat.not_le.mp hnone
  stopped := by
    intro y hy
    simp only [Scan.keep, h.count, Option.ite_none_right_eq_some] at hy
    exact hy.1

theorem Matches.enter (h : Matches s m d) (hop : Hop) : Matches s m (enter d hop) :=
  ⟨h.seen, h.count, h.going, h.stopped⟩

theorem Matches.leave (h : Matches s m d) (node : Nat) : Matches s m (leave d node) :=
  ⟨h.seen, h.count, h.going, h.stopped⟩

/-! ## The walks of a loop -/

/-- The hop an edge of a node stands for. -/
abbrev hopOf (node : Nat) (edge : Edge) : Hop := ⟨node, edge.weight, edge.neighbour node⟩

variable {deeper : Nat → List Hop → Finset Nat → List (List Hop)} {node : Nat}
  {visited : Finset Nat}

/-- The walks of a loop begin with its stack. -/
theorem prefix_of_mem_branch
    (hdeeper : ∀ node path visited, ∀ w ∈ deeper node path visited, path <+: w.dropLast)
    {edge : Edge} (hw : w ∈ s.branch deeper node path visited edge) : path <+: w.dropLast := by
  simp only [branch] at hw
  split at hw
  · split at hw
    · obtain rfl := List.mem_singleton.mp hw
      rw [List.dropLast_concat]
    · cases hw
  · split at hw
    · exact (List.prefix_append _ _).trans (hdeeper _ _ _ w hw)
    · cases hw

/-- They are longer than the stack. -/
theorem length_of_mem_branch
    (hdeeper : ∀ node path visited, ∀ w ∈ deeper node path visited, path <+: w.dropLast)
    {edge : Edge} (hpath : path ≠ []) (hw : w ∈ s.branch deeper node path visited edge) :
    path.length + 1 ≤ w.length := by
  have hpos := List.length_pos_of_ne_nil hpath
  have hlen := (prefix_of_mem_branch hdeeper hw).length_le
  rw [List.length_dropLast] at hlen
  omega

theorem prefix_of_mem_walks : ∀ (depth : Nat) (node : Nat) (path : List Hop)
    (visited : Finset Nat), ∀ w ∈ s.walks depth node path visited, path <+: w.dropLast
  | 0, _, _, _, _, hw => by cases hw
  | depth + 1, _, _, _, _, hw => by
    obtain ⟨edge, -, hw⟩ := List.mem_flatMap.mp hw
    exact prefix_of_mem_branch (prefix_of_mem_walks depth) hw

/-- A loop at `path` with these edges left: where the scan has stopped, it was below an edge that
is done. -/
def ComesBack (node : Nat) (path : List Hop) (edges : List Edge) (m : Scan (List Hop) UInt64) :
    Prop :=
  ∀ w, m.stop = some w → path.length + 1 < w.length ∧ path <+: w.dropLast ∧
    ∀ edge ∈ edges, ¬ path ++ [hopOf node edge] <+: w.dropLast

variable {edge : Edge} {rest : List Edge}

theorem ComesBack.tail (h : ComesBack node path (edge :: rest) m) : ComesBack node path rest m :=
  fun w hw =>
    let ⟨hlen, hpre, hdone⟩ := h w hw
    ⟨hlen, hpre, fun e he => hdone e (List.mem_cons_of_mem edge he)⟩

/-- A closing walk of the loop is looked at. -/
theorem ComesBack.looks (h : ComesBack node path (edge :: rest) m) :
    m.Looks Reaches (path ++ [hopOf node edge]) := by
  intro w hw
  obtain ⟨hlen, hpre, -⟩ := h w hw
  exact ⟨by simpa using hlen, by rwa [List.dropLast_concat]⟩

/-- A stop below an edge is not below one of the others. -/
theorem comesBack_of_below (hnodup : ((edge :: rest).map Edge.weight).Nodup)
    (hbelow : path ++ [hopOf node edge] <+: w.dropLast) :
    path.length + 1 < w.length ∧ path <+: w.dropLast ∧
      ∀ e ∈ rest, ¬ path ++ [hopOf node e] <+: w.dropLast := by
  have hlen := hbelow.length_le
  simp only [List.length_append, List.length_singleton, List.length_dropLast] at hlen
  refine ⟨by omega, (List.prefix_append _ _).trans hbelow, fun e he hother => ?_⟩
  have heq := List.prefix_of_prefix_length_le hbelow hother (by simp)
  have hhop := (List.append_inj (heq.eq_of_length (by simp)) rfl).2
  have hweight : edge.weight = e.weight := congrArg Leg.label (List.singleton_inj.mp hhop)
  exact (List.nodup_cons.mp hnodup).1 (hweight ▸ List.mem_map_of_mem he)

/-- After a stop, walks that are not shorter are not looked at. -/
theorem foldl_of_cap (hcap : s.maxPathsPerToken ≤ m.count + 1) {ws : List (List Hop)}
    (hws : ∀ w' ∈ ws, w.length ≤ w'.length) :
    ws.foldl s.scanStep (m.keep s.hashOf s.maxPathsPerToken w) =
      m.keep s.hashOf s.maxPathsPerToken w := by
  have hstop : (m.keep s.hashOf s.maxPathsPerToken w).stop = some w := if_pos hcap
  refine Scan.foldl_of_not_looks ws _ fun w' hw' hlooks => ?_
  exact Nat.not_lt.mpr (hws w' hw') ((Scan.looks_of_stop hstop).mp hlooks).1

/-- **One pass over the edges of a node** is a scan of its walks, when the recursive call is. -/
theorem edgeLoop_scans {descend : Nat → Dfs → Dfs}
    (hrestores : ∀ node d, Emits s (deeper node d.currentPath d.visited) d (descend node d))
    (hdeeper : ∀ node path visited, ∀ w ∈ deeper node path visited, path <+: w.dropLast)
    (hdescend : ∀ node d m, Matches s m d → Apart d.currentPath m →
      Matches s ((deeper node d.currentPath d.visited).foldl s.scanStep m) (descend node d))
    (node : Nat) (path : List Hop) (visited : Finset Nat) :
    ∀ (edges : List Edge) (d : Dfs) (m : Scan (List Hop) UInt64),
      d.currentPath = path → d.visited = visited → (edges.map Edge.weight).Nodup →
        Matches s m d → ComesBack node path edges m →
          Matches s ((edges.flatMap (s.branch deeper node path visited)).foldl s.scanStep m)
            (s.edgeLoop descend node edges d) := by
  intro edges
  induction edges with
  | nil => intro d m _ _ _ hmatches _; exact hmatches
  | cons edge rest ih =>
    intro d m hpath hvisited hnodup hmatches hback
    have hrest := hnodup.of_cons
    simp only [List.flatMap_cons, List.foldl_append, edgeLoop, branch, hpath, hvisited,
      buildSwapPath_eq]
    split
    · split
      · rename_i hlong
        rw [List.foldl_cons, List.foldl_nil]
        split
        · rename_i hknown
          rw [← hmatches.seen] at hknown
          rw [scanStep, Scan.step_of_mem hknown]
          exact ih d m hpath hvisited hrest hmatches hback.tail
        · rename_i hnew
          rw [← hmatches.seen] at hnew
          have hpushed := hmatches.push (path ++ [hopOf node edge])
          rw [scanStep, Scan.step_of_looks hback.looks hnew]
          split
          · rename_i hcap
            rw [foldl_of_cap (by rw [hmatches.count]; exact hcap) fun w hw => ?_]
            · exact hpushed
            · obtain ⟨e, -, hw⟩ := List.mem_flatMap.mp hw
              rw [List.length_append, List.length_singleton]
              exact length_of_mem_branch hdeeper (List.ne_nil_of_length_pos (by omega)) hw
          · rename_i hbelow
            exact ih _ _ hpath hvisited hrest hpushed fun w hw =>
              absurd (hpushed.stopped w hw) hbelow
      · exact ih d m hpath hvisited hrest hmatches hback.tail
    · split
      · rename_i hstart hopen
        have hfresh : edge.neighbour node ∉ d.visited := by rw [hvisited]; exact hopen.1
        have hrestored := (hrestores (edge.neighbour node) (enter d (hopOf node edge))).descended
          hfresh
        have hbelow := (hdescend (edge.neighbour node) (enter d (hopOf node edge)) m
          (hmatches.enter _) (by
            intro w hw
            rw [enter, hpath]
            exact (hback w hw).2.2 edge List.mem_cons_self)).leave (edge.neighbour node)
        simp only [enter, hpath, hvisited] at hrestored hbelow ⊢
        refine ih _ _ (hrestored.stack.trans hpath) (hrestored.visited.trans hvisited) hrest
          hbelow fun w hw => ?_
        rcases Scan.stop_foldl _ _ hw with hold | hmem
        · exact hback.tail w hold
        · exact comesBack_of_below hnodup (hdeeper _ _ _ w hmem)
      · exact ih d m hpath hvisited hrest hmatches hback.tail

/-- **The search is a scan** of the closing walks below its node. -/
theorem findCycles_scans (hweights : ∀ node, ((s.order.edges node).map Edge.weight).Nodup)
    (depth : Nat) : ∀ (node : Nat) (d : Dfs) (m : Scan (List Hop) UInt64), Matches s m d →
      Apart d.currentPath m →
        Matches s ((s.walks depth node d.currentPath d.visited).foldl s.scanStep m)
          (s.findCycles depth node d) := by
  induction depth with
  | zero => intro node d m hmatches _; exact hmatches
  | succ depth ih =>
    intro node d m hmatches hapart
    rw [findCycles]
    split
    · rename_i hcap
      cases hstop : m.stop with
      | none => exact absurd (hmatches.going hstop) (Nat.not_lt.mpr hcap)
      | some x =>
        rw [Scan.foldl_of_not_looks _ m fun w hw =>
          hapart.not_looks hstop (prefix_of_mem_walks _ _ _ _ w hw)]
        exact hmatches
    · rename_i hbelow
      exact edgeLoop_scans (findCycles_explores depth) (prefix_of_mem_walks depth) ih node
        d.currentPath d.visited _ d m rfl rfl (hweights node) hmatches fun w hw =>
          absurd (hmatches.stopped w hw) hbelow

end Search

namespace Builder

open Search (Reaches)

variable (b : Builder)

/-- The closing walks of a round, in the order of the search. -/
def roundWalks (startNode : Nat) : List (List Hop) :=
  (b.search startNode).walks (b.maxHops + 1) startNode [] {startNode}

/-- A walk with a new hash closes in a loop that the search comes back to from the walk with
which the round comes to its cap. -/
def Overruns (e : Emitted) (startNode : Nat) : Prop :=
  Scan.Overruns (b.search startNode).hashOf Reaches b.maxPathsPerToken e.seenHashes
    (b.roundWalks startNode)

/-- No round emits more than the cap. -/
def KeepsCap (startTokens : List Address) : Prop :=
  ∀ pre token post, startTokens = pre ++ token :: post →
    let e := b.rounds ⟨[], ∅⟩ pre
    (b.round e token).1.allPaths.length ≤ e.allPaths.length + b.maxPathsPerToken

/-- No round overruns its cap. -/
def NoneOverruns (startTokens : List Address) : Prop :=
  ∀ pre token post, startTokens = pre ++ token :: post →
    ∀ startNode, (buildGraph b.pools).nodeMap token = some startNode →
      ¬ b.Overruns (b.rounds ⟨[], ∅⟩ pre) startNode

variable {b} {e : Emitted} {token : Address} {startNode : Nat}

theorem length_round (e : Emitted) (token : Address) :
    (b.round e token).1.allPaths.length = e.allPaths.length + (b.round e token).2 := by
  obtain ⟨new, hall, hcount, -⟩ := (b.round_spec e token).grows
  rw [hall, List.length_append, hcount]

/-- A round without a cap to keep emits nothing. -/
theorem round_of_cap_zero (hcap : b.maxPathsPerToken = 0) : (b.round e token).2 = 0 := by
  unfold round
  split
  · rfl
  · simp only [Search.findCycles, search, hcap, Nat.le_refl, if_true]

theorem round_eq_scan (hcap : 0 < b.maxPathsPerToken)
    (hnode : (buildGraph b.pools).nodeMap token = some startNode) :
    (b.round e token).2 = (Scan.scan (b.search startNode).hashOf Reaches b.maxPathsPerToken
      e.seenHashes (b.roundWalks startNode)).count := by
  have hmatches := Search.findCycles_scans (s := b.search startNode)
    (fun node => EdgeOrder.nodup_weights b.order node) (b.maxHops + 1) startNode
    ⟨[], {startNode}, e.allPaths, e.seenHashes, 0⟩ ⟨e.seenHashes, 0, none⟩
    ⟨rfl, rfl, fun _ => hcap, by simp⟩ (by simp [Search.Apart])
  unfold round
  rw [hnode]
  exact hmatches.count.symm

theorem round_le_iff (hnode : (buildGraph b.pools).nodeMap token = some startNode) :
    (b.round e token).2 ≤ b.maxPathsPerToken ↔ ¬ b.Overruns e startNode := by
  rcases Nat.eq_zero_or_pos b.maxPathsPerToken with hzero | hcap
  · rw [round_of_cap_zero hzero, hzero]
    refine iff_of_true (Nat.le_refl 0) ?_
    rintro ⟨pre, w, post, -, hpre, -⟩
    rw [hzero] at hpre
    cases hpre
  · rw [round_eq_scan hcap hnode]
    exact Scan.count_scan_le_iff hcap

/-- **How far a round goes beyond its cap**: by one path for each stack the search can come back
to. -/
theorem round_emits_le (e : Emitted) (token : Address) :
    (b.round e token).2 ≤ b.maxPathsPerToken + (b.maxHops - 2) := by
  cases hnode : (buildGraph b.pools).nodeMap token with
  | none => simp [round, hnode]
  | some startNode =>
    rcases Nat.eq_zero_or_pos b.maxPathsPerToken with hzero | hcap
    · rw [round_of_cap_zero hzero]
      exact Nat.zero_le _
    · rw [round_eq_scan hcap hnode]
      have hlength : ∀ w ∈ b.roundWalks startNode, 3 ≤ w.length ∧ w.length ≤ b.maxHops + 1 :=
        fun w hw => (Search.mem_walks_top.mp hw).2
      exact (Scan.count_scan_le_add hcap (fun _ _ hreach => hreach.1) hlength).trans
        (Nat.add_le_add_left (Nat.le_of_eq (Nat.add_sub_add_right b.maxHops 1 2)) _)

/-- **The cap is kept exactly where nothing overruns it.** -/
theorem keepsCap_iff (b : Builder) (startTokens : List Address) :
    b.KeepsCap startTokens ↔ b.NoneOverruns startTokens := by
  refine forall_congr' fun pre => forall_congr' fun token => forall_congr' fun post =>
    forall_congr' fun _ => ?_
  dsimp only
  rw [length_round, Nat.add_le_add_iff_left]
  cases hnode : (buildGraph b.pools).nodeMap token with
  | none => simp [round, hnode]
  | some startNode =>
    rw [round_le_iff hnode]
    constructor
    · rintro hover _ hsome
      cases hsome
      exact hover
    · exact fun hover => hover startNode rfl

/-- A square with a diagonal, searched in petgraph's order, and a cap of one path. -/
def square : Builder where
  pools := [pairPool 10 1 2, pairPool 11 2 3, pairPool 14 3 1, pairPool 12 3 4, pairPool 13 4 1]
  order := .newestFirst _
  hasher steps := UInt64.ofNat steps.length
  maxHops := 3
  maxPathsPerToken := 1

/-- The way around the square reaches the cap, and the triangle of the loop above is emitted as
well. -/
theorem not_keepsCap_square : ¬ square.KeepsCap [1] := by
  intro hkeeps
  have hround := hkeeps [] 1 [] rfl
  revert hround
  decide +kernel

end Builder

end ArbBot.PathBuilder
