import VulkanBindings.Graph.Build
import VulkanBindings.Proofs.Graph.Search

/-! What is emitted, and in which order: everything that the starts depend on, each node once and
after all that it depends on, unless it depends on itself through others. -/

set_option autoImplicit false

namespace VulkanBindings.Graph

variable {g : Graph}

/-- A path from one of the starts, each time to a parent of a node that is not terminal, and over
no node twice. -/
structure IsSearchPath (g : Graph) (starts : List NodeId) (path : Path) : Prop where
  begins : ∃ start ∈ starts, path.getLast? = some start
  steps : path.IsChain fun parent child => g.DependsOn child parent
  simple : path.Nodup

theorem IsSearchPath.extend {starts : List NodeId} {current id : NodeId} {before : Path}
    (path : g.IsSearchPath starts (current :: before)) (edge : g.DependsOn current id)
    (off : id ∉ current :: before) : g.IsSearchPath starts (id :: current :: before) where
  begins := by simpa using path.begins
  steps := .cons_cons edge path.steps
  simple := List.nodup_cons.2 ⟨off, path.simple⟩

theorem IsSearchPath.transGen {starts : List NodeId} {current id : NodeId} {before : Path}
    (path : g.IsSearchPath starts (current :: before)) (mem : id ∈ before) :
    Relation.TransGen g.DependsOn id current := by
  have steps := path.steps
  clear path
  induction before generalizing current with
  | nil => cases mem
  | cons next before ih =>
    obtain ⟨edge, rest⟩ := List.isChain_cons_cons.1 steps
    rcases List.mem_cons.1 mem with rfl | mem
    · exact .single edge
    · exact (ih mem rest).tail edge

/-- What the starts depend on, directly or through others, and the starts themselves. -/
def Reachable (g : Graph) (starts : List NodeId) (id : NodeId) : Prop :=
  ∃ start ∈ starts, Relation.ReflTransGen g.DependsOn start id

theorem IsSearchPath.reachable {starts : List NodeId} {current : NodeId} {before : Path}
    (path : g.IsSearchPath starts (current :: before)) : g.Reachable starts current := by
  obtain ⟨start, mem, last⟩ := path.begins
  refine ⟨start, mem, ?_⟩
  rcases List.mem_cons.1 (List.mem_of_getLast? last) with rfl | within
  · exact .refl
  · exact (path.transGen within).to_reflTransGen

/-- Every path comes after those of all nodes that its last node depends on, but for the nodes
that it leads over. -/
def DependenciesFirst (g : Graph) (collected : List Path) : Prop :=
  ∀ earlier current before, earlier ++ [current :: before] <+: collected →
    ∀ id, g.DependsOn current id → isCollected earlier id ∨ id ∈ current :: before

namespace Visits

variable {collected paths after : List Path} {starts : List NodeId}

theorem isSearchPath (visits : Visits g [] ((g.inSiblingOrder starts).map ([·])) after)
    {path : Path} (mem : path ∈ after) : g.IsSearchPath starts path := by
  obtain ⟨new, rfl, all⟩ := visits.forall_new (P := g.IsSearchPath starts)
    (fun _ _ path _ edge off => path.extend edge off)
    (by
      intro path mem
      obtain ⟨start, known, rfl⟩ := List.mem_map.1 mem
      exact ⟨⟨start, mem_inSiblingOrder.1 known, rfl⟩, .singleton start, List.nodup_singleton start⟩)
  exact all path mem

theorem dependenciesFirst (visits : Visits g collected paths after)
    (ordered : g.DependenciesFirst collected) : g.DependenciesFirst after := by
  induction visits with
  | done => exact ordered
  | skip seen later ih => exact ih ordered
  | @collect collected between rest after current before fresh parents later ihParents ihLater =>
    refine ihLater fun earlier head tail isPrefix id edge => ?_
    rcases List.prefix_concat_iff.1 isPrefix with same | isPrefix
    · obtain ⟨rfl, last⟩ := List.append_inj' same rfl
      cases last
      by_cases on : id ∈ current :: before
      · exact .inr on
      · -- A dependency off the path is collected already or visited as one of the parents.
        left
        cases seen : isCollected earlier id with
        | true => rfl
        | false =>
          have unvisited := mem_unvisited.2 ⟨edge, seen, on⟩
          rw [parents.unvisited_eq_nil] at unvisited
          cases unvisited
    · exact ihParents ordered earlier head tail isPrefix id edge

theorem isCollected_or_mem {earlier later : List Path} {current id : NodeId} {before : Path}
    (visits : Visits g [] paths (earlier ++ (current :: before) :: later))
    (edge : g.DependsOn current id) : isCollected earlier id ∨ id ∈ current :: before := by
  have empty : g.DependenciesFirst [] := fun _ _ _ isPrefix => by simp at isPrefix
  exact visits.dependenciesFirst empty earlier current before ⟨later, by simp⟩ id edge

-- The nodes that a collected path leads over are collected in the end, but for those that the
-- visited path led over before. A path from a start led over nothing before, so in the end all of
-- them are collected.
theorem isCollected_of_mem_path (visits : Visits g collected paths after) {path : Path}
    (mem : path ∈ after) (new : path ∉ collected) {id : NodeId} (on : id ∈ path) :
    isCollected after id ∨ ∃ visited ∈ paths, id ∈ visited.tail := by
  induction visits with
  | done => exact absurd mem new
  | skip seen later ih =>
    rcases ih mem new with collected | ⟨visited, mem, on⟩
    · exact .inl collected
    · exact .inr ⟨visited, List.mem_cons_of_mem _ mem, on⟩
  | @collect collected between rest after current before fresh parents later ihParents ihLater =>
    have ofCurrent (on : id ∈ current :: before) :
        isCollected after id ∨ ∃ visited ∈ (current :: before) :: rest, id ∈ visited.tail := by
      rcases List.mem_cons.1 on with rfl | on
      · exact .inl (later.isCollected_of_isCollected (by simp))
      · exact .inr ⟨_, List.mem_cons_self, on⟩
    by_cases early : path ∈ between ++ [current :: before]
    · rcases List.mem_append.1 early with early | last
      · rcases ihParents early new with seen | ⟨visited, mem, on⟩
        · exact .inl (later.isCollected_of_isCollected (by simp [seen]))
        · obtain ⟨parent, -, rfl⟩ := List.mem_map.1 mem
          exact ofCurrent on
      · exact ofCurrent (List.mem_singleton.1 last ▸ on)
    · rcases ihLater mem early with seen | ⟨visited, mem, on⟩
      · exact .inl seen
      · exact .inr ⟨visited, List.mem_cons_of_mem _ mem, on⟩

theorem nodup_heads (visits : Visits g collected paths after)
    (distinct : (collected.filterMap List.head?).Nodup) : (after.filterMap List.head?).Nodup := by
  induction visits with
  | done => exact distinct
  | skip seen later ih => exact ih distinct
  | @collect collected between rest after current before fresh parents later ihParents ihLater =>
    refine ihLater ?_
    rw [List.filterMap_append]
    refine List.nodup_append.2 ⟨ihParents distinct, List.nodup_singleton current, ?_⟩
    intro id mem other last same
    cases List.mem_singleton.1 last
    cases same
    obtain ⟨path, memPath, head⟩ := List.mem_filterMap.1 mem
    have seen : isCollected between current := isCollected_iff.2 ⟨path, memPath, head⟩
    rw [parents.isCollected_eq_false List.mem_cons_self fresh] at seen
    cases seen

theorem isCollected_iff_reachable
    (visits : Visits g [] ((g.inSiblingOrder starts).map ([·])) after) {id : NodeId} :
    isCollected after id ↔ g.Reachable starts id := by
  constructor
  · intro seen
    obtain ⟨path, mem, head⟩ := isCollected_iff.1 seen
    cases path with
    | nil => cases head
    | cons current before =>
      cases head
      exact (visits.isSearchPath mem).reachable
  · rintro ⟨start, mem, reach⟩
    induction reach with
    | refl => exact visits.isCollected_of_mem (List.mem_map_of_mem (mem_inSiblingOrder.2 mem))
    | @tail child parent _ edge ih =>
      obtain ⟨path, memPath, head⟩ := isCollected_iff.1 ih
      cases path with
      | nil => cases head
      | cons current before =>
        cases head
        obtain ⟨earlier, later, rfl⟩ := List.append_of_mem memPath
        rcases visits.isCollected_or_mem edge with seen | on
        · rw [isCollected_append, seen, Bool.true_or]
        · rcases visits.isCollected_of_mem_path memPath (List.not_mem_nil) on with
            seen | ⟨visited, mem, on⟩
          · exact seen
          · obtain ⟨start, -, rfl⟩ := List.mem_map.1 mem
            cases on

end Visits

/-- The search collects what can be reached from the starts, and each node once. -/
theorem depthFirst_collects_reachable (g : Graph) (starts : List NodeId) (edges : g.EdgesInRange)
    (inRange : ∀ id ∈ starts, id < g.size) :
    (∀ path ∈ g.depthFirst starts, path ≠ []) ∧
      ((g.depthFirst starts).filterMap List.head?).Nodup ∧
      ∀ id, id ∈ (g.depthFirst starts).filterMap List.head? ↔ g.Reachable starts id := by
  have visits := visits_depthFirst edges inRange
  refine ⟨fun path mem empty => ?_, visits.nodup_heads List.nodup_nil, fun id => ?_⟩
  · obtain ⟨start, -, last⟩ := (visits.isSearchPath mem).begins
    rw [empty] at last
    cases last
  · rw [List.mem_filterMap, ← isCollected_iff]
    exact visits.isCollected_iff_reachable

-- The terminal type is reached and its value is not.
theorem reachable_mutualStructs :
    mutualStructs.EdgesInRange ∧ (∀ id ∈ [5, 2, 5], id < mutualStructs.size) ∧
      mutualStructs.Reachable [5, 2, 5] 3 ∧ ¬mutualStructs.Reachable [5, 2, 5] 4 := by
  have edges : mutualStructs.EdgesInRange := by decide
  have inRange : ∀ id ∈ [5, 2, 5], id < mutualStructs.size := by decide
  obtain ⟨-, -, reachable⟩ := depthFirst_collects_reachable mutualStructs [5, 2, 5] edges inRange
  exact ⟨edges, inRange, (reachable 3).1 (by decide), fun value => by
    have collected := (reachable 4).2 value
    revert collected
    decide⟩

theorem value_knownStarts (g : Graph) (names : List String) :
    (g.knownStarts names).value = names.filterMap g.lookup := by
  unfold knownStarts
  rw [Logged.value_bind, Logged.value_pure, Logged.value_mapM, List.filterMap_map]
  congr 1
  funext name
  cases known : g.lookup name <;> simp [known]

theorem value_emissionOrder (g : Graph) (names : List String) :
    (g.emissionOrder names).value =
      (g.depthFirst (names.filterMap g.lookup)).filterMap List.head? := by
  rw [← value_knownStarts]
  rfl

theorem depthFirst_dependency (edges : g.EdgesInRange) {starts : List NodeId}
    (inRange : ∀ id ∈ starts, id < g.size) {earlier later : List Path} {current id : NodeId}
    {before : Path} (collected : g.depthFirst starts = earlier ++ (current :: before) :: later)
    (edge : g.DependsOn current id) (other : id ≠ current) :
    isCollected earlier id ∨ id ∈ before ∧ Relation.TransGen g.DependsOn id current := by
  have visits := visits_depthFirst edges inRange
  rw [collected] at visits
  rcases visits.isCollected_or_mem edge with seen | on
  · exact .inl seen
  · have on := (List.mem_cons.1 on).resolve_left other
    have path := visits.isSearchPath (List.mem_append_right earlier List.mem_cons_self)
    exact .inr ⟨on, path.transGen on⟩

theorem emissionOrder_dependency (edges : g.EdgesInRange)
    (acyclic : ∀ id, ¬Relation.TransGen g.DependsOn id id) {names : List String}
    (known : ∀ name ∈ names, ∀ id, g.lookup name = some id → id < g.size)
    {earlier later : List NodeId} {current id : NodeId}
    (order : (g.emissionOrder names).value = earlier ++ current :: later)
    (edge : g.DependsOn current id) : id ∈ earlier := by
  have inRange : ∀ start ∈ names.filterMap g.lookup, start < g.size := by
    intro start mem
    obtain ⟨name, mem, found⟩ := List.mem_filterMap.1 mem
    exact known name mem start found
  rw [value_emissionOrder] at order
  obtain ⟨first, rest, whole, rfl, tail⟩ := List.filterMap_eq_append_iff.1 order
  obtain ⟨skipped, path, last, rfl, headless, head, rfl⟩ := List.filterMap_eq_cons_iff.1 tail
  cases path with
  | nil => cases head
  | cons current' before =>
    cases head
    have collected : g.depthFirst (names.filterMap g.lookup) =
        (first ++ skipped) ++ (current :: before) :: last := by simp [whole]
    have other : id ≠ current := by
      rintro rfl
      exact acyclic id (.single edge)
    rcases depthFirst_dependency edges inRange collected edge other with seen | ⟨-, cycle⟩
    · obtain ⟨path, mem, head⟩ := isCollected_iff.1 seen
      rcases List.mem_append.1 mem with mem | mem
      · exact List.mem_filterMap.2 ⟨path, mem, head⟩
      · rw [headless path mem] at head
        cases head
    · exact absurd (cycle.tail edge) (acyclic id)

theorem acyclic_of_lt (earlier : ∀ child < g.size, ∀ parent ∈ g.followed child, parent < child)
    (id : NodeId) : ¬Relation.TransGen g.DependsOn id id := by
  have lt {child parent : NodeId} (edge : g.DependsOn child parent) : parent < child := by
    obtain ⟨node, found, -⟩ := exists_of_mem_parents edge.2
    exact earlier child (lt_size_of_node? found) parent (mem_followed.2 edge)
  have falls {first last : NodeId} (edges : Relation.TransGen g.DependsOn first last) :
      last < first := by
    induction edges with
    | single edge => exact lt edge
    | tail _ edge ih => exact Nat.lt_trans (lt edge) ih
  exact fun cycle => Nat.lt_irrefl id (falls cycle)

/-- A node is collected with a path from a start, and after each node that it depends on, unless
that lies on the path, and then the two depend on each other. Where nothing depends on itself all
is emitted after what it depends on. -/
theorem depthFirst_dependencies_first (g : Graph) (edges : g.EdgesInRange) :
    (∀ starts, (∀ id ∈ starts, id < g.size) →
      (∀ path ∈ g.depthFirst starts, g.IsSearchPath starts path) ∧
      ∀ earlier current before later,
        g.depthFirst starts = earlier ++ (current :: before) :: later →
        ∀ id, g.DependsOn current id → id ≠ current →
          (∃ path ∈ earlier, path.head? = some id) ∨
            id ∈ before ∧ Relation.TransGen g.DependsOn id current) ∧
    ((∀ id, ¬Relation.TransGen g.DependsOn id id) →
      ∀ names, (∀ name ∈ names, ∀ id, g.lookup name = some id → id < g.size) →
        ∀ earlier current later, (g.emissionOrder names).value = earlier ++ current :: later →
          ∀ id, g.DependsOn current id → id ∈ earlier) := by
  constructor
  · intro starts inRange
    refine ⟨fun path mem => (visits_depthFirst edges inRange).isSearchPath mem, ?_⟩
    intro earlier current before later collected id edge other
    rw [← isCollected_iff]
    exact depthFirst_dependency edges inRange collected edge other
  · intro acyclic names known earlier current later order id edge
    exact emissionOrder_dependency edges acyclic known order edge

def sideRegistry : Registry where
  types := [{ name := "VkSide", category := .enum, requires := some "VkFront" },
    { name := "VkFront", category := .struct }]
  features := [{ name := "VK_VERSION_1_0", require := [{ types := ["VkFront", "VkSide"] }] }]

def sideGraph : Graph where
  nodes := #[⟨.virtual "API Constants", [], []⟩,
    ⟨.type { name := "VkSide", category := .enum, requires := some "VkFront" }, [2], []⟩,
    ⟨.type { name := "VkFront", category := .struct }, [], []⟩,
    ⟨.feature { name := "VK_VERSION_1_0", require := [{ types := ["VkFront", "VkSide"] }] },
      [2, 1], []⟩]
  dictionary := (((∅ : Std.TreeMap String NodeId).insert "VkSide" 1).insert "VkFront" 2).insert
    "VK_VERSION_1_0" 3
  enabled := ["VK_VERSION_1_0"]

-- Of two structures that hold each other the one collected first is not after the other; a
-- feature comes after its types.
theorem dependencies_first_samples :
    mutualStructs.EdgesInRange ∧ (∀ id ∈ [5, 2, 5], id < mutualStructs.size) ∧
      Relation.TransGen mutualStructs.DependsOn 2 1 ∧
    sideGraph.EdgesInRange ∧ (∀ id, ¬Relation.TransGen sideGraph.DependsOn id id) ∧
      (∀ name ∈ ["VK_VERSION_1_0"], ∀ id, sideGraph.lookup name = some id → id < sideGraph.size) ∧
      sideGraph.DependsOn 3 2 ∧ 2 ∈ [1, 2] := by
  have edges : mutualStructs.EdgesInRange := by decide
  have inRange : ∀ id ∈ [5, 2, 5], id < mutualStructs.size := by decide
  have holds : mutualStructs.DependsOn 1 2 := mem_followed.1 (by decide)
  have cycle := ((depthFirst_dependencies_first mutualStructs edges).1 [5, 2, 5] inRange).2
    [[3, 2]] 1 [2] [[2], [5]] (by decide) 2 holds (by decide)
  have sideEdges : sideGraph.EdgesInRange := by decide
  have acyclic : ∀ id, ¬Relation.TransGen sideGraph.DependsOn id id :=
    acyclic_of_lt (by decide)
  have known : ∀ name ∈ ["VK_VERSION_1_0"], ∀ id,
      sideGraph.lookup name = some id → id < sideGraph.size := by
    have found : sideGraph.lookup "VK_VERSION_1_0" = some 3 := by decide +kernel
    simp only [List.mem_singleton, forall_eq, found, Option.some.injEq]
    rintro id rfl
    decide
  have requires : sideGraph.DependsOn 3 2 := mem_followed.1 (by decide)
  have first := (depthFirst_dependencies_first sideGraph sideEdges).2 acyclic ["VK_VERSION_1_0"]
    known [1, 2] 3 [] (by decide +kernel) 2 requires
  refine ⟨edges, inRange, ?_, sideEdges, acyclic, known, requires, first⟩
  rcases cycle with ⟨path, mem, head⟩ | ⟨-, cycle⟩
  · rw [List.mem_singleton.1 mem] at head
    cases head
  · exact cycle

/-- A terminal type is not held back for what it names: here one comes before the structure that
it requires. -/
theorem terminal_before_parent :
    (build sideRegistry ["VK_VERSION_1_0"]).run.value = .ok sideGraph ∧ sideGraph.EdgesInRange ∧
      (∀ id, ¬Relation.TransGen sideGraph.DependsOn id id) ∧
      ¬∀ earlier current later,
        (sideGraph.emissionOrder ["VK_VERSION_1_0"]).value = earlier ++ current :: later →
          ∀ id ∈ sideGraph.parents current, id ∈ earlier := by
  refine ⟨rfl, by decide, acyclic_of_lt (by decide), fun all => ?_⟩
  have order : (sideGraph.emissionOrder ["VK_VERSION_1_0"]).value = [] ++ 1 :: [2, 3] := by
    decide +kernel
  exact List.not_mem_nil (all [] 1 [2, 3] order 2 (by decide))

end VulkanBindings.Graph
