import Mathlib.Logic.Relation
import Std.Data.TreeMap.Lemmas
import VulkanBindings.Graph.Apply

/-! What each change of a graph does to its elements, names, parents and missing names. -/

set_option autoImplicit false

namespace VulkanBindings.Graph

variable {g : Graph}

def missing (g : Graph) (id : NodeId) : List String := ((g.node? id).map (·.missing)).getD []

def name? (g : Graph) (id : NodeId) : Option String := (g.element? id).map (·.name)

def HasKind (g : Graph) (id : NodeId) (kind : NodeKind) : Prop :=
  ∃ e, g.element? id = some e ∧ e.kind = kind

theorem lt_size_of_element? {id : NodeId} {e : Element} (found : g.element? id = some e) :
    id < g.size := by
  obtain ⟨node, found, -⟩ := Option.map_eq_some_iff.1 found
  exact lt_size_of_node? found

theorem not_lt_size_of_node? {id : NodeId} (absent : g.node? id = none) : ¬id < g.size :=
  Nat.not_lt.2 (Array.getElem?_eq_none_iff.1 absent)

theorem HasKind.unique {id : NodeId} {kind kind' : NodeKind} (has : g.HasKind id kind)
    (has' : g.HasKind id kind') : kind = kind' := by
  obtain ⟨e, found, rfl⟩ := has
  obtain ⟨e', found', rfl⟩ := has'
  cases found.symm.trans found'
  rfl

theorem HasKind.lt_size {id : NodeId} {kind : NodeKind} (has : g.HasKind id kind) : id < g.size :=
  let ⟨_, found, _⟩ := has
  lt_size_of_element? found

theorem mem_parentsOfKind {kind : NodeKind} {id parent : NodeId} :
    parent ∈ g.parentsOfKind kind id ↔ parent ∈ g.parents id ∧ g.HasKind parent kind := by
  unfold parentsOfKind HasKind
  rw [List.mem_filter]
  cases g.element? parent <;> simp

theorem parents_eq_nil {child : NodeId} (outside : g.size ≤ child) : g.parents child = [] := by
  have absent : g.node? child = none := Array.getElem?_eq_none outside
  simp [parents, absent]

@[simp] theorem lookup_push (element : Element) (name : String) :
    (g.push element).lookup name = g.lookup name := rfl

@[simp] theorem parents_push (element : Element) (id : NodeId) :
    (g.push element).parents id = g.parents id := by
  by_cases last : id = g.nodes.size <;>
    simp [parents, node?, push, Array.getElem?_push, last]

@[simp] theorem missing_push (element : Element) (id : NodeId) :
    (g.push element).missing id = g.missing id := by
  by_cases last : id = g.nodes.size <;>
    simp [missing, node?, push, Array.getElem?_push, last]

theorem hasKind_push {element : Element} {id : NodeId} {kind : NodeKind} :
    (g.push element).HasKind id kind ↔
      id = g.size ∧ element.kind = kind ∨ g.HasKind id kind := by
  unfold HasKind
  rw [element?_push]
  by_cases last : id = g.size
  · have absent : g.element? id = none := by
      cases found : g.element? id with
      | none => rfl
      | some e => exact absurd (last ▸ lt_size_of_element? found) (Nat.lt_irrefl g.size)
    simp [last, last ▸ absent]
  · simp [last]

-- What a definition does to a graph, if it is not refused.
def enter (g : Graph) (element : Element) : Graph :=
  { g.push element with dictionary := g.dictionary.insert element.name g.size }

section Enter

variable (element : Element)

theorem lookup_enter (name : String) :
    (g.enter element).lookup name = if element.name = name then some g.size else g.lookup name := by
  unfold lookup enter
  rw [Std.TreeMap.getElem?_insert]
  simp only [Std.compare_eq_iff_eq]

@[simp] theorem size_enter : (g.enter element).size = g.size + 1 := g.size_push element

theorem element?_enter (id : NodeId) :
    (g.enter element).element? id = if id = g.size then some element else g.element? id :=
  g.element?_push element id

theorem hasKind_enter {id : NodeId} {kind : NodeKind} :
    (g.enter element).HasKind id kind ↔ id = g.size ∧ element.kind = kind ∨ g.HasKind id kind :=
  hasKind_push

@[simp] theorem parents_enter (id : NodeId) : (g.enter element).parents id = g.parents id :=
  parents_push element id

@[simp] theorem missing_enter (id : NodeId) : (g.enter element).missing id = g.missing id :=
  missing_push element id

theorem define_eq_ok {after : Graph} :
    (g.define element).run.value = .ok after ↔
      g.lookup element.name = none ∧ after = g.enter element ∨
        ∃ id, g.lookup element.name = some id ∧
          (g.element? id).any (·.sameDefinition element) ∧ after = g := by
  unfold define
  cases known : g.lookup element.name with
  | none =>
    change Except.ok (g.enter element) = .ok after ↔ _
    constructor
    · rintro ⟨⟩
      exact .inl ⟨rfl, rfl⟩
    · rintro (⟨-, rfl⟩ | ⟨id, found, -⟩)
      · rfl
      · cases found
  | some id =>
    dsimp only
    by_cases same : (g.element? id).any (·.sameDefinition element)
    · rw [if_pos same]
      change Except.ok g = .ok after ↔ _
      constructor
      · rintro ⟨⟩
        exact .inr ⟨id, rfl, same, rfl⟩
      · rintro (⟨unknown, -⟩ | ⟨_, -, -, rfl⟩)
        · cases unknown
        · rfl
    · rw [if_neg same]
      change Except.error _ = .ok after ↔ _
      constructor
      · rintro ⟨⟩
      · rintro (⟨unknown, -⟩ | ⟨_, found, same', -⟩)
        · cases unknown
        · cases found
          exact absurd same' same

end Enter

theorem node?_modify (id : NodeId) (f : GraphNode → GraphNode) (other : NodeId) :
    (g.modify id f).node? other = if id = other then (g.node? other).map f else g.node? other :=
  Array.getElem?_modify

section Parent

variable (child parent : NodeId)

@[simp] theorem lookup_addParent (name : String) :
    (g.addParent child parent).lookup name = g.lookup name := by
  unfold addParent
  split <;> rfl

@[simp] theorem element?_addParent (id : NodeId) :
    (g.addParent child parent).element? id = g.element? id := by
  unfold addParent element?
  split
  · rfl
  · rw [node?_modify]
    cases g.node? id <;> split <;> simp [apply_ite]

@[simp] theorem missing_addParent (id : NodeId) :
    (g.addParent child parent).missing id = g.missing id := by
  unfold addParent missing
  split
  · rfl
  · rw [node?_modify]
    cases g.node? id <;> split <;> simp [apply_ite]

@[simp] theorem hasKind_addParent {id : NodeId} {kind : NodeKind} :
    (g.addParent child parent).HasKind id kind ↔ g.HasKind id kind := by
  simp [HasKind]

theorem parents_addParent (id : NodeId) :
    (g.addParent child parent).parents id =
      if id = child ∧ child < g.size ∧ child ≠ parent ∧ parent ∉ g.parents child then
        g.parents id ++ [parent]
      else g.parents id := by
  by_cases same : child = parent
  · simp [addParent, same]
  · unfold addParent parents
    rw [if_neg same, node?_modify]
    by_cases other : child = id
    · subst other
      cases found : g.node? child with
      | none => simp [not_lt_size_of_node? found]
      | some node =>
        by_cases known : parent ∈ node.parents <;>
          simp [lt_size_of_node? found, same, known]
    · simp [other, Ne.symm other]

theorem mem_parents_addParent {id other : NodeId} :
    other ∈ (g.addParent child parent).parents id ↔
      other ∈ g.parents id ∨ id = child ∧ child < g.size ∧ child ≠ parent ∧ other = parent := by
  rw [parents_addParent]
  split
  · next added =>
    obtain ⟨rfl, inside, apart, -⟩ := added
    simp [inside, apart]
  · next kept =>
    constructor
    · exact .inl
    · rintro (mem | ⟨rfl, inside, apart, rfl⟩)
      · exact mem
      · exact Classical.byContradiction fun absent => kept ⟨rfl, inside, apart, absent⟩

end Parent

def attach (g : Graph) (owner : NodeId) (element : Element) : Graph :=
  (g.push element).addParent owner g.size

section Attach

variable (owner : NodeId) (element : Element)

@[simp] theorem size_attach : (g.attach owner element).size = g.size + 1 := by
  unfold attach
  rw [size_addParent, size_push]

@[simp] theorem lookup_attach (name : String) :
    (g.attach owner element).lookup name = g.lookup name := by
  unfold attach
  rw [lookup_addParent, lookup_push]

theorem element?_attach (id : NodeId) :
    (g.attach owner element).element? id = if id = g.size then some element else g.element? id := by
  unfold attach
  rw [element?_addParent, element?_push]

@[simp] theorem hasKind_attach {id : NodeId} {kind : NodeKind} :
    (g.attach owner element).HasKind id kind ↔
      id = g.size ∧ element.kind = kind ∨ g.HasKind id kind := by
  unfold attach
  rw [hasKind_addParent, hasKind_push]

theorem mem_parents_attach {id other : NodeId} :
    other ∈ (g.attach owner element).parents id ↔
      other ∈ g.parents id ∨ id = owner ∧ owner < g.size + 1 ∧ owner ≠ g.size ∧ other = g.size := by
  unfold attach
  rw [mem_parents_addParent, parents_push, size_push]

end Attach

section Missing

variable (child : NodeId) (name : String)

@[simp] theorem lookup_addMissing (other : String) :
    (g.addMissing child name).lookup other = g.lookup other := rfl

@[simp] theorem element?_addMissing (id : NodeId) :
    (g.addMissing child name).element? id = g.element? id := by
  unfold addMissing element?
  rw [node?_modify]
  cases g.node? id <;> split <;> simp [apply_ite]

@[simp] theorem hasKind_addMissing {id : NodeId} {kind : NodeKind} :
    (g.addMissing child name).HasKind id kind ↔ g.HasKind id kind := by
  simp [HasKind]

@[simp] theorem parents_addMissing (id : NodeId) :
    (g.addMissing child name).parents id = g.parents id := by
  unfold addMissing parents
  rw [node?_modify]
  cases g.node? id <;> split <;> simp [apply_ite]

theorem missing_addMissing (id : NodeId) :
    (g.addMissing child name).missing id =
      if id = child ∧ child < g.size ∧ name ∉ g.missing child then g.missing id ++ [name]
      else g.missing id := by
  unfold addMissing missing
  rw [node?_modify]
  by_cases other : child = id
  · subst other
    cases found : g.node? child with
    | none => simp [not_lt_size_of_node? found]
    | some node =>
      by_cases known : name ∈ node.missing <;> simp [lt_size_of_node? found, known]
  · simp [other, Ne.symm other]

end Missing

-- Runs of single steps compose along a fold, with the step relation as a parameter: both
-- linking and applying are such folds.
theorem steps_foldl {Step : Graph → Graph → Prop} {α : Type} {f : Graph → α → Graph}
    (each : ∀ g a, Relation.ReflTransGen Step g (f g a)) (xs : List α) (g : Graph) :
    Relation.ReflTransGen Step g (xs.foldl f g) := by
  induction xs generalizing g with
  | nil => exact .refl
  | cons a xs ih => exact (each g a).trans (ih (f g a))

end VulkanBindings.Graph
