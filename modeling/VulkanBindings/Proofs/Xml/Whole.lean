import VulkanBindings.Proofs.Xml.Comparison
import VulkanBindings.Proofs.Xml.Delivery

/-! Reading to the end. A value that is read of a node takes everything below it, and depends on
nothing but what can be read there: another node of which at least as much can be read gives the same
value. -/

set_option autoImplicit false

namespace VulkanBindings.Xml

/-- A value that the first result has is that of the second one too, and shows the fact. -/
def Kept (fact : Prop) {α : Type} (x y : Except Error α) : Prop :=
  ∀ a, x = .ok a → fact ∧ y = .ok a

namespace Kept

variable {fact also : Prop} {α β : Type} {x y : Except Error α}

theorem refl (x : Except Error α) : Kept True x x := fun _ found => ⟨trivial, found⟩

theorem error (e : Error) (y : Except Error α) : Kept fact (.error e) y := nofun

theorem mono (kept : Kept fact x y) (implies : fact → also) : Kept also x y :=
  fun a found => (kept a found).imp_left implies

theorem bind {f g : α → Except Error β} (first : Kept fact x y)
    (later : ∀ a, Kept also (f a) (g a)) : Kept (fact ∧ also) (x >>= f) (y >>= g) := by
  intro b found
  cases x with
  | error e => cases found
  | ok a =>
    obtain ⟨shown, rfl⟩ := first a rfl
    obtain ⟨more, same⟩ := later a b found
    exact ⟨⟨shown, more⟩, same⟩

end Kept

/-- Entries of which at least as much can be read as of others, one by one, up to where those cannot
be read on. The bytes after an element may be others. -/
inductive EntriesKept : List (String × Node) → Ending → List (String × Node) → Ending → Prop
  | ended (left left' : Nat) : EntriesKept [] (.ok left) [] (.ok left')
  | broken (failure : Error) (entries : List (String × Node)) (ending : Ending) :
    EntriesKept [] (.error failure) entries ending
  | leaf (name : String) {value value' : Leaf} {rest rest' : List (String × Node)}
    {ending ending' : Ending} (texts : Kept True value.text value'.text)
    (others : EntriesKept rest ending rest' ending') :
    EntriesKept ((name, .leaf value) :: rest) ending ((name, .leaf value') :: rest') ending'
  | element (name : String) {bare bare' : Bool} (tags : bare = true → bare' = true)
    {entries entries' rest rest' : List (String × Node)} {inner inner' ending ending' : Ending}
    (contents : EntriesKept entries inner entries' inner')
    (others : EntriesKept rest ending rest' ending') :
    EntriesKept ((name, .element bare entries inner) :: rest) ending
      ((name, .element bare' entries' inner') :: rest') ending'

inductive Node.KeptBy : Node → Node → Prop
  | leaf {value value' : Leaf} (texts : Kept True value.text value'.text) :
    Node.KeptBy (.leaf value) (.leaf value')
  | element {bare bare' : Bool} (tags : bare = true → bare' = true)
    {entries entries' : List (String × Node)} {ending ending' : Ending}
    (contents : EntriesKept entries ending entries' ending') :
    Node.KeptBy (.element bare entries ending) (.element bare' entries' ending')

theorem EntriesKept.cons {name : String} {node : Node} {rest entries : List (String × Node)}
    {ending ending' : Ending} (contents : EntriesKept ((name, node) :: rest) ending entries ending') :
    ∃ node' rest', entries = (name, node') :: rest' ∧ node.KeptBy node' ∧
      EntriesKept rest ending rest' ending' := by
  cases contents with
  | leaf _ texts others => exact ⟨_, _, rfl, .leaf texts, others⟩
  | element _ tags contents others => exact ⟨_, _, rfl, .element tags contents, others⟩

theorem Node.KeptBy.entry {node node' : Node} (nodes : node.KeptBy node') (name : String)
    {rest rest' : List (String × Node)} {ending ending' : Ending}
    (others : EntriesKept rest ending rest' ending') :
    EntriesKept ((name, node) :: rest) ending ((name, node') :: rest') ending' := by
  cases nodes with
  | leaf texts => exact .leaf name texts others
  | element tags contents => exact .element name tags contents others

mutual

theorem Node.KeptBy.refl : ∀ node : Node, node.KeptBy node
  | .leaf value => .leaf (.refl value.text)
  | .element _ entries ending => .element id (EntriesKept.refl entries ending)

theorem EntriesKept.refl : ∀ (entries : List (String × Node)) (ending : Ending),
    EntriesKept entries ending entries ending
  | [], .ok left => .ended left left
  | [], .error failure => .broken failure [] (.error failure)
  | (name, node) :: rest, ending => (Node.KeptBy.refl node).entry name (EntriesKept.refl rest ending)

end

def Kept.comparison : Comparison where
  agree fact _ x y := Kept fact x y
  refl := .refl
  mono := .mono
  shows kept := fun a found => ⟨⟨a, found⟩, (kept a found).2⟩
  error e := .error e _
  bind := .bind
  alike := Node.KeptBy
  contents := EntriesKept
  leaf nodes := by
    cases nodes with
    | leaf texts => exact ⟨_, rfl, texts, fun _ _ => .error _ _⟩
  element {bare _ _ _} nodes := by
    cases nodes with
    | element tags contents =>
      refine ⟨_, _, _, rfl, contents, ?_⟩
      cases bare with
      | false => exact .inr ⟨rfl, .error _⟩
      | true => exact .inl (tags rfl)
  nil contents := by
    cases contents with
    | ended left left' => exact .inr ⟨rfl, .inr ⟨left, left', rfl, rfl⟩⟩
    | broken failure => exact .inl ⟨failure, rfl, .error failure⟩
  cons := EntriesKept.cons

mutual

def Tree.node : Tree → Node
  | .text value => .leaf (.body (.ok value))
  | .element entries => .element true (nodesOf entries) (.ok 0)

def nodesOf : List (String × Tree) → List (String × Node)
  | [] => []
  | (name, tree) :: rest => (name, tree.node) :: nodesOf rest

end

mutual

/-- Whatever a reader gives for a node depends on nothing but its tree. -/
theorem Node.keptBy_tree : ∀ (node : Node) {tree : Tree}, node.tree = .ok tree → node.KeptBy tree.node
  | .leaf value, tree, read => by
    rw [Node.tree] at read
    obtain ⟨text, found, read⟩ := exists_of_bind_eq_ok read
    cases read
    exact .leaf (found ▸ .refl _)
  | .element bare entries ending, tree, read => by
    rw [Node.tree_element] at read
    obtain ⟨trees, found, rfl⟩ := exists_of_map_eq_ok read
    exact .element (fun _ => rfl) (entriesKept_trees entries found)

theorem entriesKept_trees : ∀ (entries : List (String × Node)) {ending : Ending}
    {trees : List (String × Tree)}, treesUpTo entries ending = .ok trees →
      EntriesKept entries ending (nodesOf trees) (.ok 0)
  | [], ending, trees, read => by
    obtain ⟨left, rfl⟩ := isWholeUpTo_nil.1 ⟨trees, read⟩
    cases read
    exact .ended left 0
  | (name, node) :: rest, ending, trees, read => by
    rw [treesUpTo_cons] at read
    obtain ⟨tree, first, read⟩ := exists_of_bind_eq_ok read
    obtain ⟨others, later, read⟩ := exists_of_bind_eq_ok read
    cases read
    exact (node.keptBy_tree first).entry name (entriesKept_trees rest later)

end

end VulkanBindings.Xml
