import VulkanBindings.Proofs.Graph.Application
import VulkanBindings.Proofs.Graph.Linked
import VulkanBindings.Proofs.Graph.Search

/-! What holds of a registry's graph, whatever features and extensions are applied to it: it is
well formed, and the nodes beyond those of the registry are values that belong to one block. -/

set_option autoImplicit false

namespace VulkanBindings.Graph

variable {g : Graph}

/-- A coherent graph where each enum block is part of one node, and each of its values has a name
of its own. -/
structure WellFormed (g : Graph) : Prop extends Coherent g where
  blocks : ∀ block, g.HasKind block .block →
    (∀ name, g.lookup name ≠ some block) ∧ ∃ owner, g.IsOwnedBy block owner
  values : ∀ block, g.HasKind block .block → ((g.valuesOf block).map g.name?).Nodup

theorem Linked.wellFormed (h : g.Linked) : g.WellFormed where
  toCoherent := h.toCoherent
  blocks block has :=
    ⟨fun name known => (h.names name block known).2.2.1 has, h.blocks block has⟩
  values block _ := by
    refine List.Nodup.map_on ?_ ((h.parents block).1.filter _)
    -- The values that linking puts into a block are all in the dictionary.
    have defined : ∀ id ∈ g.valuesOf block, ∃ name, g.lookup name = some id := fun id mem => by
      obtain ⟨edge, isValue⟩ := mem_parentsOfKind.1 mem
      rcases h.origin block id edge with known | isBlock
      · exact known
      · cases isValue.unique isBlock
    intro first mem second mem' same
    obtain ⟨name, known⟩ := defined first mem
    obtain ⟨name', known'⟩ := defined second mem'
    rw [(h.names name first known).2.1, (h.names name' second known').2.1] at same
    cases same
    cases known.symm.trans known'
    rfl

/-- A value that is part of one enum block and that nothing else leads to. -/
structure IsAddedValue (g : Graph) (id : NodeId) : Prop where
  isValue : g.HasKind id .value
  unnamed : ∀ name, g.lookup name ≠ some id
  parentless : g.parents id = []
  owned : ∃ block, g.HasKind block .block ∧ g.IsOwnedBy id block

/-- All nodes that a graph has beyond another are added values. -/
structure Applied (base g : Graph) : Prop where
  grows : base.size ≤ g.size
  added : ∀ id, base.size ≤ id → id < g.size → g.IsAddedValue id

section Addition

variable {after base : Graph}

theorem Coherent.name?_attach (h : g.Coherent) (owner : NodeId) (element : Element)
    {id child : NodeId} (edge : id ∈ g.parents child) :
    (g.attach owner element).name? id = g.name? id := by
  rw [name?, element?_attach, if_neg (h.ne_size edge), name?]

theorem Coherent.parentsOfKind_attach (h : g.Coherent) {owner : NodeId} (inside : owner < g.size)
    (element : Element) (kind : NodeKind) (id : NodeId) :
    (g.attach owner element).parentsOfKind kind id =
      if id = owner ∧ element.kind = kind then g.parentsOfKind kind id ++ [g.size]
      else g.parentsOfKind kind id := by
  unfold parentsOfKind
  rw [h.parents_attach inside]
  simp only [element?_attach]
  have old : ∀ parent ∈ g.parents id,
      (if parent = g.size then some element else g.element? parent).any (·.kind = kind) =
        (g.element? parent).any (·.kind = kind) := fun parent edge => by
    rw [if_neg (h.ne_size edge)]
  by_cases same : id = owner
  · rw [if_pos same, List.filter_append, List.filter_congr old]
    by_cases is : element.kind = kind <;> simp [same, is]
  · rw [if_neg same, List.filter_congr old, if_neg fun both => same both.1]

theorem Coherent.valuesOf_attach (h : g.Coherent) {block : NodeId} (inside : block < g.size)
    (v : EnumValue) (id : NodeId) :
    (g.attach block (.value v)).valuesOf id =
      if id = block then g.valuesOf id ++ [g.size] else g.valuesOf id := by
  unfold valuesOf
  rw [h.parentsOfKind_attach inside]
  simp [Element.kind]

theorem WellFormed.addition (h : g.WellFormed) (step : Addition g after) : after.WellFormed := by
  obtain @⟨block, v, isBlock, new⟩ := step
  have wasBlock {n : NodeId} (has : (g.attach block (.value v)).HasKind n .block) :
      g.HasKind n .block := by
    rcases (hasKind_attach _ _).1 has with ⟨-, isValue⟩ | has
    · cases isValue
    · exact has
  refine ⟨h.toCoherent.attach _ _, fun n has => ?_, fun n has => ?_⟩
  · obtain ⟨unnamed, owner, owned⟩ := h.blocks n (wasBlock has)
    refine ⟨fun name => ?_, owner, owned.attach (wasBlock has).lt_size _⟩
    rw [lookup_attach]
    exact unnamed name
  · have old : ∀ id ∈ g.valuesOf n, (g.attach block (.value v)).name? id = g.name? id :=
      fun id mem => h.toCoherent.name?_attach _ _ (mem_parentsOfKind.1 mem).1
    rw [h.valuesOf_attach isBlock.lt_size]
    split
    · next same =>
      subst same
      have last : (g.attach n (.value v)).name? g.size = some v.name := by
        rw [name?, element?_attach, if_pos rfl]
        rfl
      rw [List.map_append, List.map_congr_left old, List.map_singleton, last,
        ← List.concat_eq_append]
      refine (h.values n isBlock).concat fun mem => ?_
      obtain ⟨id, mem, same⟩ := List.mem_map.1 mem
      exact new id mem same
    · rw [List.map_congr_left old]
      exact h.values n (wasBlock has)

theorem Applied.addition (applied : Applied base g) (h : g.WellFormed) (step : Addition g after) :
    Applied base after := by
  obtain @⟨block, v, isBlock, new⟩ := step
  have stays {id : NodeId} {kind : NodeKind} (has : g.HasKind id kind) :
      (g.attach block (.value v)).HasKind id kind :=
    (hasKind_attach _ _).2 (.inr has)
  refine ⟨?_, fun id beyond inside => ?_⟩
  · rw [size_attach]
    exact Nat.le_succ_of_le applied.grows
  · rw [size_attach] at inside
    rcases Nat.lt_succ_iff_lt_or_eq.1 inside with before | rfl
    · obtain ⟨isValue, unnamed, parentless, owner, ownerBlock, owned⟩ := applied.added id beyond before
      have apart : id ≠ block := fun same => by cases (same ▸ isValue).unique isBlock
      refine ⟨stays isValue, fun name => ?_, ?_, owner, stays ownerBlock, owned.attach before _⟩
      · rw [lookup_attach]
        exact unnamed name
      · rw [h.parents_attach isBlock.lt_size, if_neg apart]
        exact parentless
    · refine ⟨(hasKind_attach _ _).2 (.inl ⟨rfl, rfl⟩), fun name known => ?_, ?_, block,
        stays isBlock, h.isOwnedBy_attach isBlock.lt_size _⟩
      · rw [lookup_attach] at known
        exact Nat.lt_irrefl _ (h.names name _ known).1
      · rw [h.parents_attach isBlock.lt_size, if_neg (Nat.ne_of_gt isBlock.lt_size)]
        exact parents_eq_nil (Nat.le_refl _)

theorem WellFormed.additions (h : g.WellFormed) (steps : Additions g after) :
    after.WellFormed ∧ Applied g after := by
  induction steps with
  | refl => exact ⟨h, Nat.le_refl _, fun id beyond inside => absurd inside (Nat.not_lt.2 beyond)⟩
  | tail _ step ih => exact ⟨ih.1.addition step, ih.2.addition ih.1 step⟩

end Addition

theorem wellFormed_of_build {r : Registry} {enabled : List String}
    (accepted : (build r enabled).run.value = .ok g) : g.WellFormed := by
  obtain ⟨named, defined, rfl⟩ := exists_definitions_of_build accepted
  have linked := (named_of_definitions defined).linked enabled
  exact (linked.steps (LinkSteps.linkRegistry _ r)).wellFormed

theorem edgesInRange_applyAll {r : Registry} {enabled : List String}
    (accepted : (build r enabled).run.value = .ok g) (applications : List Application) :
    (g.applyAll applications).value.EdgesInRange := by
  have wellFormed := (wellFormed_of_build accepted).additions (Additions.applyAll g applications)
  intro node mem parent edge
  obtain ⟨id, found⟩ := Array.mem_iff_getElem?.1 mem
  have known : (g.applyAll applications).value.parents id = node.parents := by
    simp [parents, node?, found]
  exact ((wellFormed.1.parents id).2 parent (known ▸ edge)).1

/-- What a registry's graph starts with holds after all applications, and they add nothing but
values. -/
theorem wellFormed_applyAll {r : Registry} {enabled : List String}
    (accepted : (build r enabled).run.value = .ok g) (applications : List Application) :
    (g.applyAll applications).value.WellFormed ∧ Applied g (g.applyAll applications).value :=
  (wellFormed_of_build accepted).additions (Additions.applyAll g applications)

-- An extension that adds a value to an enum type, and one that the type has already.
def turnBack : Extension where
  name := "VK_KHR_turn_back"
  number := 7
  require := [{ enums := [
    { element := { name := "VK_TURN_BACK" }, extends? := some "VkTurn", offset := some 1 },
    { element := { name := "VK_TURN_LEFT", value := some "0" }, extends? := some "VkTurn" }] }]

def turnRegistry : Registry where
  types := [{ name := "VkTurn", category := .enum }]
  enums := [{
    name := "VkTurn"
    kind := .enum
    values := [{ name := "VK_TURN_LEFT", value := some "0" }] }]
  extensions := [turnBack]

def turnGraph : Graph where
  nodes := #[⟨.virtual "API Constants", [], []⟩,
    ⟨.type { name := "VkTurn", category := .enum }, [5], []⟩,
    ⟨.value { name := "VK_TURN_LEFT", value := some "0" }, [], []⟩,
    ⟨.extension turnBack, [1, 4, 2], []⟩,
    ⟨.value { name := "VK_TURN_BACK" }, [], []⟩,
    ⟨.block ⟨"VkTurn", .enum, none, none⟩, [2], []⟩]
  dictionary := ((((∅ : Std.TreeMap String NodeId).insert "VkTurn" 1).insert "VK_TURN_LEFT" 2).insert
    "VK_KHR_turn_back" 3).insert "VK_TURN_BACK" 4
  enabled := []

theorem wellFormed_turnGraph :
    (build turnRegistry []).run.value = .ok turnGraph ∧
      let applied := (turnGraph.applyAll [.extension "VK_KHR_turn_back", .feature "VK_VERSION_9_9",
        .extension "VK_KHR_turn_back"]).value
      applied.valuesOf 5 = [2, 6] ∧ applied.WellFormed ∧ applied.IsAddedValue 6 := by
  have accepted : (build turnRegistry []).run.value = .ok turnGraph := rfl
  obtain ⟨wellFormed, applied⟩ := wellFormed_applyAll accepted [.extension "VK_KHR_turn_back",
    .feature "VK_VERSION_9_9", .extension "VK_KHR_turn_back"]
  exact ⟨accepted, by decide +kernel, wellFormed, applied.added 6 (by decide) (by decide +kernel)⟩

end VulkanBindings.Graph
