import Mathlib.Data.List.Nodup
import VulkanBindings.Proofs.Graph.Changes

/-! Graphs whose ids and names lead to nodes that are there. Each change keeps a graph coherent
that adds no edge to a node that is missing and notes no name that is defined. -/

set_option autoImplicit false

namespace VulkanBindings.Graph

variable {g : Graph}

/-- Ids and names lead to nodes that are there, and what is listed is listed once. -/
structure Coherent (g : Graph) : Prop where
  constants : g.element? constants = some (.virtual "API Constants")
  names : ∀ name id, g.lookup name = some id →
    id < g.size ∧ g.name? id = some name ∧ ¬g.HasKind id .block ∧ ¬g.HasKind id .virtual
  parents : ∀ id, (g.parents id).Nodup ∧ ∀ parent ∈ g.parents id, parent < g.size ∧ parent ≠ id
  missing : ∀ id, (g.missing id).Nodup ∧ ∀ name ∈ g.missing id, name ≠ "" ∧ g.lookup name = none

namespace Coherent

theorem constants_lt_size (h : g.Coherent) : Graph.constants < g.size :=
  lt_size_of_element? h.constants

theorem ne_size (h : g.Coherent) {child parent : NodeId} (edge : parent ∈ g.parents child) :
    parent ≠ g.size :=
  Nat.ne_of_lt ((h.parents child).2 parent edge).1

theorem push (h : g.Coherent) (element : Element) : (g.push element).Coherent where
  constants := by
    rw [element?_push, if_neg (Nat.ne_of_lt h.constants_lt_size), h.constants]
  names name id known := by
    obtain ⟨inside, named, notBlock, notVirtual⟩ := h.names name id known
    have old : id ≠ g.size := Nat.ne_of_lt inside
    refine ⟨?_, ?_, ?_, ?_⟩
    · rw [size_push]
      exact Nat.lt_succ_of_lt inside
    · rw [name?, element?_push, if_neg old]
      exact named
    · simp [hasKind_push, old, notBlock]
    · simp [hasKind_push, old, notVirtual]
  parents id := by
    rw [parents_push, size_push]
    obtain ⟨distinct, inside⟩ := h.parents id
    exact ⟨distinct, fun parent mem => ⟨Nat.lt_succ_of_lt (inside parent mem).1, (inside parent mem).2⟩⟩
  missing id := by
    rw [missing_push]
    exact h.missing id

theorem addParent (h : g.Coherent) (child : NodeId) {parent : NodeId} (inside : parent < g.size) :
    (g.addParent child parent).Coherent where
  constants := by rw [element?_addParent, h.constants]
  names name id known := by
    rw [lookup_addParent] at known
    simpa [name?] using h.names name id known
  parents id := by
    obtain ⟨distinct, old⟩ := h.parents id
    rw [parents_addParent, size_addParent]
    split
    · next added =>
      obtain ⟨rfl, -, apart, fresh⟩ := added
      refine ⟨?_, fun other mem => ?_⟩
      · simpa using distinct.concat fresh
      · rcases List.mem_append.1 mem with mem | last
        · exact old other mem
        · cases List.mem_singleton.1 last
          exact ⟨inside, apart.symm⟩
    · exact ⟨distinct, old⟩
  missing id := by
    simpa using h.missing id

theorem addMissing (h : g.Coherent) (child : NodeId) {name : String} (nonempty : name ≠ "")
    (unknown : g.lookup name = none) : (g.addMissing child name).Coherent where
  constants := by rw [element?_addMissing, h.constants]
  names other id known := by
    rw [lookup_addMissing] at known
    simpa [name?] using h.names other id known
  parents id := by
    simpa using h.parents id
  missing id := by
    obtain ⟨distinct, old⟩ := h.missing id
    rw [missing_addMissing]
    split
    · next added =>
      obtain ⟨rfl, -, fresh⟩ := added
      refine ⟨?_, fun other mem => ?_⟩
      · simpa using distinct.concat fresh
      · rw [lookup_addMissing]
        rcases List.mem_append.1 mem with mem | last
        · exact old other mem
        · cases List.mem_singleton.1 last
          exact ⟨nonempty, unknown⟩
    · simpa using And.intro distinct old

theorem attach (h : g.Coherent) (owner : NodeId) (element : Element) :
    (g.attach owner element).Coherent :=
  (h.push element).addParent owner (by simp)

theorem parents_attach (h : g.Coherent) {owner : NodeId} (inside : owner < g.size)
    (element : Element) (id : NodeId) :
    (g.attach owner element).parents id =
      if id = owner then g.parents id ++ [g.size] else g.parents id := by
  have fresh : g.size ∉ g.parents owner := fun edge => h.ne_size edge rfl
  have apart : owner ≠ g.size := Nat.ne_of_lt inside
  simp only [Graph.attach, parents_addParent, parents_push, size_push]
  simp only [fresh, apart, Nat.lt_succ_of_lt inside, ne_eq, not_false_eq_true, and_true]

end Coherent

def IsOwnedBy (g : Graph) (id owner : NodeId) : Prop :=
  ∀ child, id ∈ g.parents child ↔ child = owner

theorem IsOwnedBy.addParent {id owner child parent : NodeId} (owned : g.IsOwnedBy id owner)
    (other : id ≠ parent) : (g.addParent child parent).IsOwnedBy id owner := by
  intro n
  rw [mem_parents_addParent, ← owned n]
  simp [other]

theorem IsOwnedBy.attach {id owner other : NodeId} (owned : g.IsOwnedBy id owner)
    (old : id < g.size) (element : Element) : (g.attach other element).IsOwnedBy id owner := by
  intro child
  rw [mem_parents_attach, ← owned child]
  simp [Nat.ne_of_lt old]

-- No edge leads to an id before its node is made.
theorem Coherent.isOwnedBy_attach (h : g.Coherent) {owner : NodeId} (inside : owner < g.size)
    (element : Element) : (g.attach owner element).IsOwnedBy g.size owner := by
  intro child
  have unused : g.size ∉ g.parents child := fun edge => h.ne_size edge rfl
  rw [h.parents_attach inside]
  split <;> simp_all

end VulkanBindings.Graph
