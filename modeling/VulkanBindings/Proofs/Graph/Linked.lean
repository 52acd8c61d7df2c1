import VulkanBindings.Proofs.Graph.Coherent
import VulkanBindings.Proofs.Graph.Linking

/-! What holds of a graph while it is built. The definitions leave a graph without edges; each
linking step keeps enum blocks with one owner, and leads to what has a name. -/

set_option autoImplicit false

namespace VulkanBindings.Graph

variable {g : Graph}

structure Named (g : Graph) : Prop extends Coherent g where
  edgeless : ∀ id, g.parents id = []
  complete : ∀ id, g.missing id = []
  blockless : ∀ id, ¬g.HasKind id .block

theorem named_empty : Named empty where
  constants := rfl
  names name id known := by
    have unknown : empty.lookup name = none := Std.TreeMap.getElem?_emptyc
    rw [unknown] at known
    cases known
  parents id := by
    cases id <;> simp [parents, node?, empty]
  missing id := by
    cases id <;> simp [missing, node?, empty]
  edgeless id := by
    cases id <;> simp [parents, node?, empty]
  complete id := by
    cases id <;> simp [missing, node?, empty]
  blockless id has := by
    have first : id < 1 := has.lt_size
    obtain rfl : id = 0 := Nat.lt_one_iff.1 first
    cases has.unique ⟨_, rfl, rfl⟩

theorem Named.enter (h : g.Named) {element : Element} (notBlock : element.kind ≠ .block)
    (notVirtual : element.kind ≠ .virtual) : (g.enter element).Named where
  constants := (h.toCoherent.push element).constants
  names name id known := by
    rw [lookup_enter] at known
    split at known
    · next named =>
      cases known
      have absent {kind : NodeKind} : ¬g.HasKind g.size kind := fun has =>
        Nat.lt_irrefl g.size has.lt_size
      refine ⟨?_, ?_, ?_, ?_⟩
      · rw [size_enter]
        exact Nat.lt_succ_self g.size
      · rw [name?, element?_enter, if_pos rfl, Option.map_some, named]
      · simp [hasKind_enter, notBlock, absent]
      · simp [hasKind_enter, notVirtual, absent]
    · exact (h.toCoherent.push element).names name id known
  parents id := (h.toCoherent.push element).parents id
  missing id := by
    rw [missing_enter, h.complete id]
    simp
  edgeless id := (parents_enter element id).trans (h.edgeless id)
  complete id := (missing_enter element id).trans (h.complete id)
  blockless id has := by
    rcases (hasKind_enter element).1 has with ⟨-, isBlock⟩ | has
    · exact notBlock isBlock
    · exact h.blockless id has

theorem Named.withEnabled (h : g.Named) (enabled : List String) : Named { g with enabled } :=
  ⟨⟨h.constants, h.names, h.parents, h.missing⟩, h.edgeless, h.complete, h.blockless⟩

theorem kind_of_mem_definitions {r : Registry} {element : Element} (mem : element ∈ r.definitions) :
    element.kind ≠ .block ∧ element.kind ≠ .virtual := by
  unfold Registry.definitions RequireBlock.definitions at mem
  simp only [List.mem_append, List.mem_map, List.mem_flatMap, List.mem_cons] at mem
  rcases mem with ((((⟨_, -, rfl⟩ | ⟨_, -, rfl⟩) | ⟨_, -, rfl⟩) | ⟨_, -, rfl⟩) |
    ⟨_, -, rfl | ⟨_, -, rfl⟩⟩) | ⟨_, -, rfl | ⟨_, -, rfl⟩⟩ <;> simp [Element.kind]

theorem named_of_definitions {r : Registry} {named : Graph}
    (ok : (r.definitions.foldlM define empty).run.value = .ok named) : named.Named := by
  refine Logged.of_foldlM_eq_ok (fun g element mem after h ok => ?_) named_empty ok
  rcases (define_eq_ok element).1 ok with ⟨-, rfl⟩ | ⟨_, -, -, rfl⟩
  · obtain ⟨notBlock, notVirtual⟩ := kind_of_mem_definitions mem
    exact h.enter notBlock notVirtual
  · exact h

/-- A graph while it is linked. What is a parent has a name or is an enum block, so that two values
of one block never share their name. -/
structure Linked (g : Graph) : Prop extends Coherent g where
  blocks : ∀ block, g.HasKind block .block → ∃ owner, g.IsOwnedBy block owner
  origin : ∀ child, ∀ parent ∈ g.parents child,
    (∃ name, g.lookup name = some parent) ∨ g.HasKind parent .block

theorem Named.linked (h : g.Named) (enabled : List String) : Linked { g with enabled } where
  constants := h.constants
  names := h.names
  parents := h.parents
  missing := h.missing
  blocks block has := absurd has (h.blockless block)
  origin child parent mem := by
    change parent ∈ g.parents child at mem
    rw [h.edgeless child] at mem
    cases mem

theorem Linked.step (h : g.Linked) {after : Graph} (step : LinkStep g after) : after.Linked := by
  cases step with
  | @edge child name parent known =>
    obtain ⟨inside, -, notBlock, -⟩ := h.names name parent known
    refine ⟨h.toCoherent.addParent child inside, fun block has => ?_, fun n other mem => ?_⟩
    · rw [hasKind_addParent] at has
      obtain ⟨owner, owned⟩ := h.blocks block has
      exact ⟨owner, owned.addParent fun same => notBlock (same ▸ has)⟩
    · simp only [lookup_addParent, hasKind_addParent]
      rcases (mem_parents_addParent child parent).1 mem with mem | ⟨-, -, -, rfl⟩
      · exact h.origin n other mem
      · exact .inl ⟨name, known⟩
  | @missing child name nonempty unknown =>
    refine ⟨h.toCoherent.addMissing child nonempty unknown, fun block has => ?_, fun n other mem => ?_⟩
    · rw [hasKind_addMissing] at has
      obtain ⟨owner, owned⟩ := h.blocks block has
      exact ⟨owner, fun n => by rw [parents_addMissing]; exact owned n⟩
    · rw [parents_addMissing] at mem
      simpa using h.origin n other mem
  | block b =>
    -- A block has one owner from the start: the node of its name, or else that of the constants.
    have inside : (g.lookup b.name).getD Graph.constants < g.size := by
      cases known : g.lookup b.name with
      | none => exact h.constants_lt_size
      | some type => exact (h.names b.name type known).1
    refine ⟨h.toCoherent.attach _ _, fun block has => ?_, fun n other mem => ?_⟩
    · rcases (hasKind_attach _ _).1 has with ⟨rfl, -⟩ | has
      · exact ⟨_, h.toCoherent.isOwnedBy_attach inside _⟩
      · obtain ⟨owner, owned⟩ := h.blocks block has
        exact ⟨owner, owned.attach has.lt_size _⟩
    · simp only [lookup_attach, hasKind_attach]
      rcases (mem_parents_attach _ _).1 mem with mem | ⟨-, -, -, rfl⟩
      · rcases h.origin n other mem with known | has
        · exact .inl known
        · exact .inr (.inr has)
      · exact .inr (.inl ⟨rfl, rfl⟩)

theorem Linked.steps (h : g.Linked) {after : Graph} (steps : LinkSteps g after) : after.Linked := by
  induction steps with
  | refl => exact h
  | tail _ step ih => exact ih.step step

end VulkanBindings.Graph
