import VulkanBindings.Proofs.Graph.Contribution
import VulkanBindings.Proofs.Graph.Dependencies

/-! The order of emission before and after applications. The values that they add are leaves, so
the search of the larger graph passes through them and is otherwise that of the smaller one. -/

set_option autoImplicit false

namespace VulkanBindings.Graph

variable {g after : Graph}

/-- A graph with more nodes than another, none of which has parents. Between the nodes of both the
edges are the same. -/
structure GainsLeaves (g after : Graph) : Prop where
  lookup : ∀ name, after.lookup name = g.lookup name
  elements : ∀ id < g.size, after.element? id = g.element? id
  parents : ∀ id, (after.parents id).filter (· < g.size) = g.parents id
  leaves : ∀ id, g.size ≤ id → after.parents id = []

theorem WellFormed.gainsLeaves (h : g.WellFormed) (applications : List Application) :
    GainsLeaves g (g.applyAll applications).value := by
  have steps := Additions.applyAll g applications
  have gains := h.gainsValues steps
  have old (id : NodeId) : (g.parents id).filter (· < g.size) = g.parents id :=
    List.filter_eq_self.2 fun parent edge => by simpa using ((h.parents id).2 parent edge).1
  refine ⟨gains.lookup, gains.elements, fun id => ?_, fun id new => ?_⟩
  · by_cases isBlock : g.HasKind id .block
    · obtain ⟨added, gained⟩ := h.gained_applyAll applications isBlock
      have beyond : added.filter (· < g.size) = [] :=
        List.filter_eq_nil_iff.2 fun parent mem => by simpa using gained.new parent mem
      rw [gained.parents, List.filter_append, old, beyond, List.append_nil]
    · rw [gains.otherParents id isBlock, old]
  · by_cases inside : id < (g.applyAll applications).value.size
    · exact ((h.additions steps).2.added id new inside).parentless
    · exact parents_eq_nil (Nat.not_lt.1 inside)

def restrict (g : Graph) (paths : List Path) : List Path :=
  paths.filter fun path => path.head?.any (· < g.size)

@[simp] theorem restrict_nil (g : Graph) : g.restrict [] = [] := rfl

theorem restrict_append (paths rest : List Path) :
    g.restrict (paths ++ rest) = g.restrict paths ++ g.restrict rest :=
  List.filter_append ..

theorem restrict_cons_of_lt {current : NodeId} (inside : current < g.size) (before : Path)
    (rest : List Path) :
    g.restrict ((current :: before) :: rest) = (current :: before) :: g.restrict rest :=
  List.filter_cons_of_pos (by simpa using inside)

theorem restrict_cons_of_le {current : NodeId} (new : g.size ≤ current) (before : Path)
    (rest : List Path) : g.restrict ((current :: before) :: rest) = g.restrict rest :=
  List.filter_cons_of_neg (by simpa using new)

theorem restrict_map (ids : List NodeId) (before : Path) :
    g.restrict (ids.map (· :: before)) = (ids.filter (· < g.size)).map (· :: before) := by
  unfold restrict
  rw [List.filter_map]
  rfl

theorem heads_restrict (paths : List Path) :
    (g.restrict paths).filterMap List.head? = (paths.filterMap List.head?).filter (· < g.size) := by
  unfold restrict
  rw [List.filterMap_filter, List.filter_filterMap]
  congr 1
  funext path
  cases path.head? <;> rfl

theorem isCollected_restrict {id : NodeId} (inside : id < g.size) (collected : List Path) :
    isCollected (g.restrict collected) id = isCollected collected id := by
  unfold isCollected restrict
  rw [List.any_filter]
  congr 1
  funext path
  cases path with
  | nil => rfl
  | cons current before =>
    by_cases same : current = id
    · simp [same, inside]
    · simp [same]

namespace GainsLeaves

variable (h : GainsLeaves g after)

include h

theorem orderOf {id : NodeId} (inside : id < g.size) : after.orderOf id = g.orderOf id := by
  unfold Graph.orderOf
  rw [h.elements id inside]

theorem filter_inSiblingOrder (ids : List NodeId) :
    (after.inSiblingOrder ids).filter (· < g.size) =
      g.inSiblingOrder (ids.filter (· < g.size)) := by
  rw [← sort_eq_inSiblingOrder, ← sort_eq_inSiblingOrder]
  unfold sort
  rw [filter_sortBy]
  exact sortBy_congr fun id mem => h.orderOf (by simpa using (List.mem_filter.1 mem).2)

theorem filter_followed {id : NodeId} (inside : id < g.size) :
    (after.followed id).filter (· < g.size) = g.followed id := by
  unfold followed
  rw [h.elements id inside]
  split
  · rfl
  · exact h.parents id

/-- At a node of the smaller graph, the visits go on to what they go on to there and to leaves. -/
theorem filter_unvisited {current : NodeId} (inside : current < g.size) (before : Path)
    (collected : List Path) :
    (after.unvisited collected (current :: before)).filter (· < g.size) =
      g.unvisited (g.restrict collected) (current :: before) := by
  simp only [unvisited]
  rw [h.filter_inSiblingOrder, ← h.filter_followed inside, List.filter_filter, List.filter_filter]
  congr 1
  refine List.filter_congr fun id _ => ?_
  by_cases old : id < g.size
  · simp [old, isCollected_restrict old]
  · simp [old]

theorem unvisited_leaf {current : NodeId} (new : g.size ≤ current) (before : Path)
    (collected : List Path) : after.unvisited collected (current :: before) = [] := by
  refine List.eq_nil_iff_forall_not_mem.2 fun id mem => ?_
  have edge := (mem_unvisited.1 mem).1.2
  rw [h.leaves current new] at edge
  cases edge

theorem restrict_visits {collected paths final : List Path}
    (visits : Visits after collected paths final) :
    Visits g (g.restrict collected) (g.restrict paths) (g.restrict final) := by
  induction visits with
  | done => exact .done
  | @skip collected rest final current before seen later ih =>
    by_cases inside : current < g.size
    · rw [restrict_cons_of_lt inside]
      exact .skip (by rwa [isCollected_restrict inside]) ih
    · rwa [restrict_cons_of_le (Nat.not_lt.1 inside)]
  | @collect collected between rest final current before fresh parents later ihParents ihLater =>
    rw [restrict_append] at ihLater
    by_cases inside : current < g.size
    · rw [restrict_map, h.filter_unvisited inside] at ihParents
      rw [restrict_cons_of_lt inside] at ihLater ⊢
      exact .collect (by rwa [isCollected_restrict inside]) ihParents ihLater
    · -- A leaf is collected at once, and that is not seen in the smaller graph.
      have new := Nat.not_lt.1 inside
      rw [h.unvisited_leaf new] at parents
      cases parents
      rw [restrict_cons_of_le new] at ihLater ⊢
      rwa [restrict_nil, List.append_nil] at ihLater

theorem restrict_depthFirst (edges : g.EdgesInRange) (edges' : after.EdgesInRange)
    (grows : g.size ≤ after.size) {starts : List NodeId} (inRange : ∀ id ∈ starts, id < g.size) :
    g.restrict (after.depthFirst starts) = g.depthFirst starts := by
  have visits := h.restrict_visits
    (visits_depthFirst edges' fun id mem => Nat.lt_of_lt_of_le (inRange id mem) grows)
  have all : starts.filter (· < g.size) = starts :=
    List.filter_eq_self.2 fun id mem => by simpa using inRange id mem
  rw [restrict_map, h.filter_inSiblingOrder, all] at visits
  exact (visits.depthFirst_eq edges inRange).symm

end GainsLeaves

/-- Whatever is applied to a registry's graph, the nodes that it has before are emitted in the order
in which they were emitted before, and no others of them. -/
theorem emissionOrder_applyAll {r : Registry} {enabled : List String}
    (accepted : (build r enabled).run.value = .ok g) (applications : List Application)
    (names : List String) :
    ((g.applyAll applications).value.emissionOrder names).value.filter (· < g.size) =
      (g.emissionOrder names).value := by
  have wellFormed := wellFormed_of_build accepted
  have leaves := wellFormed.gainsLeaves applications
  have same : names.filterMap (g.applyAll applications).value.lookup = names.filterMap g.lookup :=
    List.filterMap_congr fun name _ => leaves.lookup name
  rw [value_emissionOrder, value_emissionOrder, same, ← heads_restrict,
    leaves.restrict_depthFirst (edgesInRange_applyAll accepted []) (edgesInRange_applyAll accepted _)
      (Additions.applyAll g applications).grows.size_le
      fun id mem => ?_]
  obtain ⟨name, -, known⟩ := List.mem_filterMap.1 mem
  exact (wellFormed.names name id known).1

-- A bitmask is not terminal, so that its block is searched, and with it the value that is added.
def oarTypes : List TypeDecl := [
  { name := "VkMoves", category := .bitmask },
  { name := "VkOar", category := .struct, members := [{ name := "moves", typeName := "VkMoves" }] }]

def moveAhead : EnumValue := { name := "VK_MOVE_AHEAD_BIT", bitPos := some 0 }

def moveAstern : EnumValue := { name := "VK_MOVE_ASTERN_BIT", bitPos := some 1 }

def oarExtension : Extension where
  name := "VK_KHR_oar"
  number := 1
  require := [{ types := ["VkOar"]
                enums := [{ element := moveAstern, extends? := some "VkMoves" }] }]

def oarRegistry : Registry where
  types := oarTypes
  enums := [{ name := "VkMoves", kind := .bitmask, values := [moveAhead] }]
  extensions := [oarExtension]

def oarGraph : Graph where
  nodes := #[⟨.virtual "API Constants", [], []⟩,
    ⟨.type oarTypes[0], [6], []⟩,
    ⟨.type oarTypes[1], [1], []⟩,
    ⟨.value moveAhead, [], []⟩,
    ⟨.extension oarExtension, [2, 1, 5], []⟩,
    ⟨.value moveAstern, [], []⟩,
    ⟨.block ⟨"VkMoves", .bitmask, none, none⟩, [3], []⟩]
  dictionary := ((((∅ : Std.TreeMap String NodeId).insert "VkMoves" 1).insert "VkOar" 2).insert
    "VK_MOVE_AHEAD_BIT" 3).insert "VK_KHR_oar" 4 |>.insert "VK_MOVE_ASTERN_BIT" 5
  enabled := ["VK_KHR_oar"]

theorem oarGraph_order :
    (build oarRegistry ["VK_KHR_oar"]).run.value = .ok oarGraph ∧
      ((oarGraph.applyAll [.extension "VK_KHR_oar"]).value.emissionOrder ["VK_KHR_oar"]).value =
        [3, 7, 6, 1, 2, 5, 4] ∧
      (oarGraph.emissionOrder ["VK_KHR_oar"]).value = [3, 6, 1, 2, 5, 4] := by
  have accepted : (build oarRegistry ["VK_KHR_oar"]).run.value = .ok oarGraph := rfl
  have later : ((oarGraph.applyAll [.extension "VK_KHR_oar"]).value.emissionOrder
      ["VK_KHR_oar"]).value = [3, 7, 6, 1, 2, 5, 4] := by decide +kernel
  have same := emissionOrder_applyAll accepted [.extension "VK_KHR_oar"] ["VK_KHR_oar"]
  rw [later] at same
  exact ⟨accepted, later, same.symm⟩

end VulkanBindings.Graph
