import Mathlib.Data.Finset.Card
import Mathlib.Data.Prod.Lex
import VulkanBindings.Graph.Order

/-! The post-order of a graph, by recursion: a path is collected after the paths to those parents
of its last node that are neither collected nor on it. -/

set_option autoImplicit false

namespace VulkanBindings.Graph

variable {g : Graph}

/-- A node depends on its parents, unless it is terminal: what a terminal node names is part of
it. -/
def DependsOn (g : Graph) (child parent : NodeId) : Prop :=
  (g.element? child).any (·.isTerminal) = false ∧ parent ∈ g.parents child

theorem mem_followed {child parent : NodeId} :
    parent ∈ g.followed child ↔ g.DependsOn child parent := by
  unfold followed DependsOn
  cases (g.element? child).any (·.isTerminal) <;> simp

def siblingKey (g : Graph) (id : NodeId) : Nat ×ₗ Nat :=
  match g.element? id with
  | none => toLex (0, 0)
  | some e => toLex (e.kind.rank, e.type?.elim 0 (·.category.rank))

-- A merge sort is stable: nodes of one key stay in the order they had.
def inSiblingOrder (g : Graph) (ids : List NodeId) : List NodeId :=
  ids.mergeSort fun a b => g.siblingKey a ≤ g.siblingKey b

theorem orderOf_le_orderOf {a b : NodeId} :
    g.orderOf a ≤ g.orderOf b ↔ g.siblingKey a ≤ g.siblingKey b := by
  -- A category's rank has one digit, so a kind and a category make one number.
  have digit (t : Option TypeDecl) : t.elim 0 (·.category.rank) < 10 := by
    cases t with
    | none => decide
    | some t => exact t.category.rank_lt
  unfold orderOf siblingKey
  cases ea : g.element? a with
  | none => cases eb : g.element? b <;> simp [Prod.Lex.toLex_le_toLex]; omega
  | some x =>
    have := digit x.type?
    cases eb : g.element? b with
    | none => simp only [Option.elim, Element.order, Prod.Lex.toLex_le_toLex]; omega
    | some y =>
      have := digit y.type?
      simp only [Option.elim_some, Element.order, Prod.Lex.toLex_le_toLex]
      omega

theorem sort_eq_inSiblingOrder (ids : List NodeId) : g.sort ids = g.inSiblingOrder ids := by
  unfold sort inSiblingOrder
  rw [sortBy_eq_mergeSort]
  congr 1
  funext a b
  exact decide_eq_decide.2 orderOf_le_orderOf

@[simp] theorem mem_inSiblingOrder {ids : List NodeId} {id : NodeId} :
    id ∈ g.inSiblingOrder ids ↔ id ∈ ids :=
  List.mem_mergeSort

def isCollected (collected : List Path) (id : NodeId) : Bool :=
  collected.any (·.head? = some id)

theorem isCollected_iff {collected : List Path} {id : NodeId} :
    isCollected collected id ↔ ∃ path ∈ collected, path.head? = some id := by
  simp [isCollected]

@[simp] theorem isCollected_append {first rest : List Path} {id : NodeId} :
    isCollected (first ++ rest) id = (isCollected first id || isCollected rest id) :=
  List.any_append

@[simp] theorem isCollected_singleton {current id : NodeId} {before : Path} :
    isCollected [current :: before] id = decide (current = id) := by
  simp [isCollected]

/-- The nodes that a visit of a path goes on to: what its last node depends on, but for those
nodes that are collected or on the path. -/
def unvisited (g : Graph) (collected : List Path) : Path → List NodeId
  | [] => []
  | current :: before => g.inSiblingOrder <| (g.followed current).filter fun id =>
    !isCollected collected id && !(current :: before).contains id

theorem mem_unvisited {collected : List Path} {current id : NodeId} {before : Path} :
    id ∈ g.unvisited collected (current :: before) ↔
      g.DependsOn current id ∧ isCollected collected id = false ∧ id ∉ current :: before := by
  unfold unvisited
  rw [mem_inSiblingOrder, List.mem_filter, mem_followed]
  simp

theorem length_unvisited_le (collected : List Path) (current : NodeId) (before : Path) :
    (g.unvisited collected (current :: before)).length ≤ (g.parents current).length := by
  unfold unvisited inSiblingOrder
  rw [List.length_mergeSort]
  refine Nat.le_trans (List.length_filter_le _ _) ?_
  unfold followed
  split <;> simp

-- The nodes that edges lead to and that are not on a path. A path grows by one of them, so the
-- recursion of the visits ends on every graph, also where edges lead out of it.
def offPath (g : Graph) (path : Path) : Finset NodeId :=
  (g.nodes.toList.flatMap (·.parents)).toFinset \ path.toFinset

theorem card_offPath_lt {path : Path} {child id : NodeId} (edge : g.DependsOn child id)
    (off : id ∉ path) : (g.offPath (id :: path)).card < (g.offPath path).card := by
  have target : id ∈ g.nodes.toList.flatMap (·.parents) := by
    obtain ⟨node, found, parent⟩ := exists_of_mem_parents edge.2
    exact List.mem_flatMap.2 ⟨node, Array.mem_toList_iff.2 (Array.mem_of_getElem? found), parent⟩
  refine Finset.card_lt_card ((Finset.ssubset_iff_of_subset ?_).2 ⟨id, ?_, ?_⟩)
  · intro other mem
    simp only [offPath, Finset.mem_sdiff, List.mem_toFinset, List.mem_cons, not_or] at mem ⊢
    exact ⟨mem.1, mem.2.2⟩
  · simp [offPath, target, off]
  · simp [offPath]

def visit (g : Graph) (collected : List Path) (path : Path) : List Path :=
  match path with
  | [] => collected
  | current :: before =>
    if isCollected collected current then collected
    else
      (g.unvisited collected (current :: before)).attach.foldl
        (fun collected id => visit g collected (id.1 :: current :: before)) collected ++
        [current :: before]
termination_by (g.offPath path).card
decreasing_by
  obtain ⟨edge, -, off⟩ := mem_unvisited.1 id.2
  exact card_offPath_lt edge off

theorem visit_of_collected {collected : List Path} {current : NodeId} {before : Path}
    (seen : isCollected collected current) :
    g.visit collected (current :: before) = collected := by
  rw [visit, if_pos seen]

theorem visit_of_not_collected {collected : List Path} {current : NodeId} {before : Path}
    (fresh : isCollected collected current = false) :
    g.visit collected (current :: before) =
      (g.unvisited collected (current :: before)).foldl
        (fun collected id => g.visit collected (id :: current :: before)) collected ++
        [current :: before] := by
  rw [visit, if_neg (by simp [fresh])]
  congr 1
  exact List.foldl_attach (f := fun collected id => g.visit collected (id :: current :: before))

/-- The paths to what the starts depend on, each after those of the parents of its last node. -/
def postOrder (g : Graph) (starts : List NodeId) : List Path :=
  (g.inSiblingOrder starts).foldl (fun collected start => g.visit collected [start]) []

end VulkanBindings.Graph
