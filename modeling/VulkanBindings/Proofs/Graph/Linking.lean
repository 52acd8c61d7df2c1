import VulkanBindings.Proofs.Graph.Changes
import VulkanBindings.Proofs.Graph.Definitions

/-! How a registry's graph comes about: by definitions of names, and then by linking steps, each
of which adds an edge to a defined node, notes a name that nothing defines, or adds an enum block
with its owner. -/

set_option autoImplicit false

namespace VulkanBindings.Graph

variable {g : Graph}

/-- Everything that linking does to a graph in one step. -/
inductive LinkStep (g : Graph) : Graph → Prop where
  | edge (child : NodeId) {name : String} {parent : NodeId} (known : g.lookup name = some parent) :
      LinkStep g (g.addParent child parent)
  | missing (child : NodeId) {name : String} (nonempty : name ≠ "")
      (unknown : g.lookup name = none) : LinkStep g (g.addMissing child name)
  | block (b : EnumBlock) :
      LinkStep g (g.attach ((g.lookup b.name).getD constants) (.block b.info))

abbrev LinkSteps : Graph → Graph → Prop := Relation.ReflTransGen LinkStep

theorem LinkSteps.link (g : Graph) (child : NodeId) (name : String) :
    LinkSteps g (g.link child name) := by
  simp only [Graph.link]
  split
  · exact .refl
  · next nonempty =>
    cases known : g.lookup (Text.trim name) with
    | none => exact .single (.missing child (fun empty => nonempty (by simp [empty])) known)
    | some parent => exact .single (.edge child known)

inductive NamedLink (g : Graph) : Graph → Prop where
  | link {name : String} {child : NodeId} (known : g.lookup name = some child) (target : String) :
      NamedLink g (g.link child target)

/-- Any number of links of named nodes. All linking comes down to these but for enum blocks. -/
abbrev NamedLinks : Graph → Graph → Prop := Relation.ReflTransGen NamedLink

@[simp] theorem lookup_link (g : Graph) (child : NodeId) (target name : String) :
    (g.link child target).lookup name = g.lookup name := by
  simp only [Graph.link]
  split
  · rfl
  · split <;> simp

@[simp] theorem element?_link (g : Graph) (child : NodeId) (target : String) (id : NodeId) :
    (g.link child target).element? id = g.element? id := by
  simp only [Graph.link]
  split
  · rfl
  · split <;> simp

theorem mem_parents_link {child id parent : NodeId} {target : String} :
    parent ∈ (g.link child target).parents id ↔ parent ∈ g.parents id ∨
      id = child ∧ child < g.size ∧ child ≠ parent ∧ Text.trim target ≠ "" ∧
        g.lookup (Text.trim target) = some parent := by
  simp only [Graph.link]
  split
  · next empty => simp [String.isEmpty_iff.1 empty]
  · next nonempty =>
    rw [String.isEmpty_iff] at nonempty
    cases known : g.lookup (Text.trim target) with
    | none => simp
    | some other =>
      have same : some other = some parent ↔ parent = other := by simp [eq_comm]
      simp only [mem_parents_addParent, nonempty, same, ne_eq, not_false_eq_true, true_and]
      grind

theorem linkRequire_eq_linkAll (g : Graph) (id : NodeId) (blocks : List RequireBlock) :
    g.linkRequire id blocks =
      g.linkAll id ((blocks.filter fun b => g.isSatisfied b.depends).flatMap (·.references)) := by
  unfold linkRequire linkAll
  rw [List.foldl_flatMap]

namespace NamedLinks

theorem linkSteps {after : Graph} (links : NamedLinks g after) : LinkSteps g after := by
  induction links with
  | refl => exact .refl
  | tail _ step ih =>
    obtain ⟨known, target⟩ := step
    exact ih.trans (LinkSteps.link _ _ target)

theorem linkAll {name : String} {child : NodeId} (known : g.lookup name = some child)
    (targets : List String) : NamedLinks g (g.linkAll child targets) := by
  induction targets generalizing g with
  | nil => exact .refl
  | cons target rest ih => exact .head (.link known target) (ih (by rwa [lookup_link]))

theorem lookup {after : Graph} (links : NamedLinks g after) (name : String) :
    after.lookup name = g.lookup name := by
  induction links with
  | refl => rfl
  | tail _ step ih =>
    obtain ⟨-, target⟩ := step
    rw [lookup_link, ih]

theorem linkType (g : Graph) (t : TypeDecl) : NamedLinks g (g.linkType t) := by
  unfold Graph.linkType
  split
  · next known => exact linkAll known _
  · exact .refl

theorem linkCommand (g : Graph) (c : Command) : NamedLinks g (g.linkCommand c) := by
  unfold Graph.linkCommand
  split
  · next known => exact linkAll known _
  · exact .refl

theorem linkFeature (g : Graph) (f : Feature) : NamedLinks g (g.linkFeature f) := by
  unfold Graph.linkFeature
  split
  · next known =>
    rw [linkRequire_eq_linkAll]
    exact linkAll known _
  · exact .refl

theorem linkDepends {name : String} {id : NodeId} (known : g.lookup name = some id)
    (depends : String) : NamedLinks g (g.linkDepends id depends).value := by
  unfold Graph.linkDepends
  split
  · exact linkAll known _
  · exact .refl

theorem linkExtension (g : Graph) (e : Extension) : NamedLinks g (g.linkExtension e).value := by
  unfold Graph.linkExtension
  split
  · exact .refl
  · next id known =>
    rw [linkRequire_eq_linkAll]
    dsimp only
    have required := linkAll known
      ((e.require.filter fun b => g.isSatisfied b.depends).flatMap (·.references))
    have guarded := required.trans
      (linkAll ((lookup required e.name).trans known) e.platform.toList)
    split
    · exact guarded.trans (linkDepends ((lookup guarded e.name).trans known) _)
    · exact guarded

end NamedLinks

theorem LinkSteps.linkValue (block : NodeId) (g : Graph) (v : EnumValue) :
    LinkSteps g (linkValue block g v) := by
  unfold Graph.linkValue
  refine (link g block v.name).trans ?_
  dsimp only
  split
  · exact link _ _ _
  · exact .refl

theorem LinkSteps.linkBlock (g : Graph) (b : EnumBlock) : LinkSteps g (g.linkBlock b) :=
  .head (.block b) (steps_foldl (linkValue g.size) b.values _)

def linkRegistry (g : Graph) (r : Registry) : Graph :=
  let g := r.types.foldl linkType g
  let g := r.enums.foldl linkBlock g
  let g := r.commands.foldl linkCommand g
  let g := r.features.foldl linkFeature g
  r.extensions.foldl (fun g e => (g.linkExtension e).value) g

-- Enum blocks are added between two runs of links of named nodes.
theorem exists_linkBlocks (g : Graph) (r : Registry) :
    ∃ typed, NamedLinks g typed ∧
      NamedLinks (r.enums.foldl Graph.linkBlock typed) (g.linkRegistry r) :=
  ⟨r.types.foldl linkType g, steps_foldl NamedLinks.linkType r.types g,
    (steps_foldl NamedLinks.linkCommand r.commands _).trans <|
      (steps_foldl NamedLinks.linkFeature r.features _).trans
        (steps_foldl NamedLinks.linkExtension r.extensions _)⟩

theorem LinkSteps.linkRegistry (g : Graph) (r : Registry) : LinkSteps g (g.linkRegistry r) := by
  obtain ⟨typed, before, after⟩ := exists_linkBlocks g r
  exact (NamedLinks.linkSteps before).trans
    ((steps_foldl linkBlock r.enums typed).trans (NamedLinks.linkSteps after))

/-- Only a name that is defined in two ways keeps a registry from being a graph. -/
theorem value_build (r : Registry) (enabled : List String) :
    (build r enabled).run.value =
      (r.definitions.foldlM define empty).run.value.map fun named =>
        linkRegistry { named with enabled } r := by
  unfold build
  rw [Logged.value_run_bind, value_ofDefinitions]
  cases (r.definitions.foldlM define empty).run.value with
  | error e => rfl
  | ok named =>
    change Except.ok (List.foldlM linkExtension _ r.extensions).value = _
    rw [Logged.value_foldlM]
    rfl

theorem exists_definitions_of_build {r : Registry} {enabled : List String}
    (accepted : (build r enabled).run.value = .ok g) :
    ∃ named, (r.definitions.foldlM define empty).run.value = .ok named ∧
      g = linkRegistry { named with enabled } r := by
  rw [value_build] at accepted
  cases defined : (r.definitions.foldlM define empty).run.value with
  | error e =>
    rw [defined] at accepted
    cases accepted
  | ok named =>
    rw [defined] at accepted
    cases accepted
    exact ⟨named, rfl, rfl⟩

end VulkanBindings.Graph
