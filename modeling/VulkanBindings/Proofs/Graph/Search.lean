import Mathlib.Algebra.BigOperators.Fin
import VulkanBindings.Proofs.Graph.Visits

/-! The search that keeps a stack of paths makes the visits of the post-order. A path that is
expanded lies below the paths that extend it; when it is on top again all of those are visited, so
that nothing is left to visit and it is collected. -/

set_option autoImplicit false

namespace VulkanBindings.Graph

variable {g : Graph}

def EdgesInRange (g : Graph) : Prop :=
  ∀ node ∈ g.nodes, ∀ parent ∈ node.parents, parent < g.size

instance (g : Graph) : Decidable g.EdgesInRange :=
  inferInstanceAs (Decidable (∀ node ∈ g.nodes, ∀ parent ∈ node.parents, parent < g.size))

theorem EdgesInRange.lt_size (edges : g.EdgesInRange) {child parent : NodeId}
    (edge : parent ∈ g.parents child) : parent < g.size := by
  obtain ⟨node, found, parent⟩ := exists_of_mem_parents edge
  exact edges node (Array.mem_of_getElem? found) _ parent

theorem Visits.unvisited_eq_nil {collected between : List Path} {current : NodeId} {before : Path}
    (parents : Visits g collected
      ((g.unvisited collected (current :: before)).map (· :: current :: before)) between) :
    g.unvisited between (current :: before) = [] := by
  refine List.eq_nil_iff_forall_not_mem.2 fun id mem => ?_
  obtain ⟨edge, unseen, off⟩ := mem_unvisited.1 mem
  have seen : isCollected between id := by
    cases earlier : isCollected collected id with
    | true => exact parents.isCollected_of_isCollected earlier
    | false =>
      have before := mem_unvisited.2 ⟨edge, earlier, off⟩
      exact parents.isCollected_of_mem (List.mem_map_of_mem before)
  rw [seen] at unseen
  cases unseen

-- How many paths the nodes that are not collected can still put on the stack: each node one for
-- itself and one for each parent. With the paths on the stack it bounds the steps to come.
def pending (g : Graph) (collected : List Path) : Nat :=
  ∑ id ∈ Finset.range g.size, if isCollected collected id then 0 else (g.parents id).length + 1

theorem pending_concat {collected : List Path} {current : NodeId} (before : Path)
    (inRange : current < g.size) (fresh : isCollected collected current = false) :
    g.pending (collected ++ [current :: before]) + ((g.parents current).length + 1) =
      g.pending collected := by
  have mem : current ∈ Finset.range g.size := Finset.mem_range.2 inRange
  unfold pending
  rw [← Finset.sum_erase_add _ _ mem, ← Finset.sum_erase_add (Finset.range g.size) _ mem]
  have same : ∀ id ∈ (Finset.range g.size).erase current,
      (if isCollected (collected ++ [current :: before]) id then 0 else (g.parents id).length + 1) =
        if isCollected collected id then 0 else (g.parents id).length + 1 := by
    intro id mem
    have other : current ≠ id := (Finset.ne_of_mem_erase mem).symm
    simp [other]
  rw [Finset.sum_congr rfl same]
  simp [fresh]

theorem searchBound_eq (g : Graph) (starts : List NodeId) :
    g.searchBound starts = starts.length + g.pending [] := by
  have nodes (nodes : List GraphNode) (n : Nat) :
      nodes.foldr (fun node n => node.parents.length + 1 + n) n =
        n + (nodes.map (·.parents.length + 1)).sum := by
    induction nodes with
    | nil => rfl
    | cons node nodes ih => simp only [List.foldr_cons, List.map_cons, List.sum_cons, ih]; omega
  have parents (i : Fin g.nodes.toList.length) :
      (g.parents i).length + 1 = g.nodes.toList[i].parents.length + 1 := by
    simp [parents, node?]
  unfold searchBound pending
  rw [nodes, Finset.sum_range]
  congr 1
  rw [← List.ofFn_getElem_eq_map, List.sum_ofFn]
  exact (Finset.sum_congr rfl fun i _ => parents i).symm

namespace Search

theorem run_of_stack_eq_nil {s : Search} (empty : s.stack = []) (n : Nat) : s.run g n = s := by
  cases n with
  | zero => rfl
  | succ n => simp [run, empty]

theorem run_succ {s : Search} {path : Path} {rest : List Path} (stack : s.stack = path :: rest)
    (n : Nat) : s.run g (n + 1) = (s.step g).run g n := by
  simp [run, stack]

structure Matches (g : Graph) (s : Search) (collected : List Path) : Prop where
  paths : s.collected = collected.reverse
  size : s.tracked.size = g.size
  tracked : ∀ id < g.size, s.isTracked id = isCollected collected id

variable {s : Search} {collected rest : List Path} {current : NodeId} {before : Path}

theorem Matches.step_of_collected (state : s.Matches g collected)
    (stack : s.stack = (current :: before) :: rest) (inRange : current < g.size)
    (seen : isCollected collected current) : s.step g = { s with stack := rest } := by
  have tracked := (state.tracked current inRange).trans seen
  unfold step
  rw [stack]
  exact if_pos tracked

theorem Matches.step_of_not_collected (state : s.Matches g collected) (edges : g.EdgesInRange)
    (stack : s.stack = (current :: before) :: rest) (inRange : current < g.size)
    (fresh : isCollected collected current = false) :
    s.step g =
      if g.unvisited collected (current :: before) = [] then
        ⟨rest, (current :: before) :: s.collected, s.tracked.setIfInBounds current true⟩
      else { s with
        stack := (g.unvisited collected (current :: before)).map (· :: current :: before) ++
          s.stack } := by
  have untracked := (state.tracked current inRange).trans fresh
  have remaining : g.sort ((g.followed current).filter fun id =>
      !s.isTracked id && !(current :: before).contains id) =
      g.unvisited collected (current :: before) := by
    rw [sort_eq_inSiblingOrder, unvisited]
    congr 1
    refine List.filter_congr fun id mem => ?_
    rw [state.tracked id (edges.lt_size (mem_followed.1 mem).2)]
  unfold step
  rw [stack]
  simp only [untracked, Bool.false_eq_true, if_false, ← remaining]
  congr 1
  rw [List.isEmpty_iff, ← List.length_eq_zero_iff, ← List.length_eq_zero_iff, sort, length_sortBy]

theorem Matches.collect (state : s.Matches g collected) (rest : List Path) :
    Matches g ⟨rest, (current :: before) :: s.collected, s.tracked.setIfInBounds current true⟩
      (collected ++ [current :: before]) where
  paths := by simp [state.paths]
  size := by simp [state.size]
  tracked id inRange := by
    have tracked := state.tracked id inRange
    unfold isTracked at tracked ⊢
    rw [isCollected_append, isCollected_singleton, ← tracked, Array.getElem?_setIfInBounds]
    by_cases same : current = id <;> simp [same, state.size, inRange]

-- In `n` steps the search comes from one state to the other, however many it may take after.
def Leads (g : Graph) (s : Search) (n : Nat) (s' : Search) : Prop :=
  ∀ m, s.run g (m + n) = s'.run g m

theorem Leads.refl (s : Search) : s.Leads g 0 s := fun _ => rfl

theorem Leads.head {path : Path} {s' : Search} {n : Nat} (stack : s.stack = path :: rest)
    (later : (s.step g).Leads g n s') : s.Leads g (n + 1) s' := by
  intro m
  rw [← Nat.add_assoc, run_succ stack, later]

theorem Leads.trans {s' s'' : Search} {n n' : Nat} (first : s.Leads g n s')
    (later : s'.Leads g n' s'') : s.Leads g (n' + n) s'' := by
  intro m
  rw [← Nat.add_assoc, first, later]

/-- Where visits lead, the search comes to, and it takes no more steps than there are paths on
the stack or still to be put there. -/
theorem leads_of_visits (edges : g.EdgesInRange) {collected paths after : List Path}
    (visits : Visits g collected paths after)
    (inRange : ∀ path ∈ paths, ∀ id ∈ path.head?, id < g.size) {s : Search} {rest : List Path}
    (state : s.Matches g collected) (stack : s.stack = paths ++ rest) :
    ∃ n s', s.Leads g n s' ∧ Matches g s' after ∧ s'.stack = rest ∧
      n + g.pending after ≤ paths.length + g.pending collected := by
  induction visits generalizing s rest with
  | done => exact ⟨0, s, .refl s, state, stack, by simp⟩
  | @skip collected paths after current before seen later ih =>
    obtain ⟨head, tail⟩ := List.forall_mem_cons.1 inRange
    have step := state.step_of_collected stack (head current rfl) seen
    obtain ⟨n, s', leads, state', stack', bound⟩ :=
      ih tail (s := { s with stack := paths ++ rest }) ⟨state.1, state.2, state.3⟩ rfl
    refine ⟨n + 1, s', .head stack (step ▸ leads), state', stack', ?_⟩
    rw [List.length_cons]
    omega
  | @collect collected between paths after current before fresh parents later ihParents ihLater =>
    obtain ⟨head, tail⟩ := List.forall_mem_cons.1 inRange
    have currentInRange := head current rfl
    have freshBetween := parents.isCollected_eq_false List.mem_cons_self fresh
    have spent := g.pending_concat before currentInRange freshBetween
    -- Once the parents are visited the path is collected.
    have finish {s : Search} (state : s.Matches g between)
        (stack : s.stack = ((current :: before) :: paths) ++ rest) :
        ∃ n s', s.Leads g n s' ∧ Matches g s' after ∧ s'.stack = rest ∧
          n + g.pending after ≤ 1 + paths.length + g.pending (between ++ [current :: before]) := by
      have step := state.step_of_not_collected edges stack currentInRange freshBetween
      rw [if_pos parents.unvisited_eq_nil] at step
      obtain ⟨n, s', leads, state', stack', bound⟩ :=
        ihLater tail (state.collect (paths ++ rest)) rfl
      exact ⟨n + 1, s', .head stack (step ▸ leads), state', stack', by omega⟩
    by_cases leaf : g.unvisited collected (current :: before) = []
    · rw [leaf] at parents
      cases parents
      obtain ⟨n, s', leads, state', stack', bound⟩ := finish state stack
      exact ⟨n, s', leads, state', stack', by rw [List.length_cons]; omega⟩
    · have step := state.step_of_not_collected edges stack currentInRange fresh
      rw [if_neg leaf] at step
      have parentsInRange : ∀ path ∈
          (g.unvisited collected (current :: before)).map (· :: current :: before),
          ∀ id ∈ path.head?, id < g.size := by
        intro path mem id last
        obtain ⟨parent, unseen, rfl⟩ := List.mem_map.1 mem
        cases last
        exact edges.lt_size (mem_unvisited.1 unseen).1.2
      obtain ⟨n, s', leads, state', stack', bound⟩ := ihParents parentsInRange
        (s := { s with stack := _ ++ s.stack }) ⟨state.1, state.2, state.3⟩ rfl
      obtain ⟨n', s'', leads', state'', stack'', bound'⟩ := finish state' (stack'.trans stack)
      refine ⟨n' + n + 1, s'', .head stack (step ▸ leads.trans leads'), state'', stack'', ?_⟩
      have few := g.length_unvisited_le collected current before
      rw [List.length_map] at bound
      rw [List.length_cons]
      omega

theorem start_matches (g : Graph) (starts : List NodeId) : (start g starts).Matches g [] where
  paths := rfl
  size := by simp [start]
  tracked id inRange := by simp [start, isTracked, isCollected, inRange]

/-- The search ends within its bound, and what it has collected is where the visits of its starts
lead. -/
theorem run_start (edges : g.EdgesInRange) {starts : List NodeId}
    (inRange : ∀ id ∈ starts, id < g.size) {after : List Path}
    (visits : Visits g [] ((g.inSiblingOrder starts).map ([·])) after) :
    ((start g starts).run g (g.searchBound starts)).stack = [] ∧
      ((start g starts).run g (g.searchBound starts)).Matches g after := by
  have startsInRange : ∀ path ∈ (g.inSiblingOrder starts).map ([·]),
      ∀ id ∈ path.head?, id < g.size := by
    intro path mem id last
    obtain ⟨id', known, rfl⟩ := List.mem_map.1 mem
    cases last
    exact inRange id (mem_inSiblingOrder.1 known)
  have stack : (start g starts).stack = (g.inSiblingOrder starts).map ([·]) ++ [] := by
    rw [List.append_nil, ← sort_eq_inSiblingOrder]
    rfl
  obtain ⟨n, s', leads, state, empty, bound⟩ :=
    leads_of_visits edges visits startsInRange (start_matches g starts) stack
  have enough : n ≤ g.searchBound starts := by
    rw [searchBound_eq]
    simp only [List.length_map, inSiblingOrder, List.length_mergeSort] at bound
    omega
  have ends : (start g starts).run g (g.searchBound starts) = s' := by
    rw [← Nat.sub_add_cancel enough, leads, run_of_stack_eq_nil empty]
  rw [ends]
  exact ⟨empty, state⟩

end Search

theorem Visits.depthFirst_eq (edges : g.EdgesInRange) {starts : List NodeId}
    (inRange : ∀ id ∈ starts, id < g.size) {after : List Path}
    (visits : Visits g [] ((g.inSiblingOrder starts).map ([·])) after) :
    g.depthFirst starts = after := by
  unfold depthFirst
  rw [(Search.run_start edges inRange visits).2.paths, List.reverse_reverse]

theorem visits_depthFirst (edges : g.EdgesInRange) {starts : List NodeId}
    (inRange : ∀ id ∈ starts, id < g.size) :
    Visits g [] ((g.inSiblingOrder starts).map ([·])) (g.depthFirst starts) := by
  have visits := Visits.postOrder g starts
  rw [visits.depthFirst_eq edges inRange]
  exact visits

def mutualStructs : Graph where
  nodes := #[⟨.virtual "API Constants", [], []⟩,
    ⟨.type { name := "VkFront", category := .struct }, [2, 3], []⟩,
    ⟨.type { name := "VkBack", category := .struct }, [3, 1], []⟩,
    ⟨.type { name := "VkSide", category := .enum }, [4], []⟩,
    ⟨.value { name := "VK_SIDE_FRONT" }, [], []⟩,
    ⟨.command { proto := { name := "vkTurn" } }, [1, 3, 2], []⟩]
  dictionary := {}
  enabled := []

/-- The search with a stack of paths collects what the recursion collects, in the same order. -/
theorem depthFirst_eq_postOrder (g : Graph) (starts : List NodeId) (edges : g.EdgesInRange)
    (inRange : ∀ id ∈ starts, id < g.size) : g.depthFirst starts = g.postOrder starts :=
  (Visits.postOrder g starts).depthFirst_eq edges inRange

theorem postOrder_mutualStructs :
    mutualStructs.EdgesInRange ∧ (∀ id ∈ [5, 2, 5], id < mutualStructs.size) ∧
      mutualStructs.postOrder [5, 2, 5] = [[3, 2], [1, 2], [2], [5]] :=
  ⟨by decide, by decide,
    (depthFirst_eq_postOrder mutualStructs [5, 2, 5] (by decide) (by decide)).symm.trans
      (by decide)⟩

end VulkanBindings.Graph
