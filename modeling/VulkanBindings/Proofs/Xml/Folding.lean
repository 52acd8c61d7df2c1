import VulkanBindings.Proofs.Xml.ReadBack
import VulkanBindings.Proofs.Xml.Writer

/-! What the readers of an element make of it, from what its tree is. A reader that goes through the
entries one by one is followed from state to state. -/

set_option autoImplicit false

namespace VulkanBindings.Xml

/-- Every node with this tree is read as this value. -/
def Reads {α : Type} (read : Node → Except Error α) (tree : Tree) (a : α) : Prop :=
  ∀ node, node.tree = .ok tree → read node = .ok a

/-- Nodes with these trees take a reader from the one state to the other. -/
def Folds {σ : Type} (step : σ → String → Node → Except Error σ) (entries : List (String × Tree))
    (s s' : σ) : Prop :=
  ∀ nodes, treesOf nodes = .ok entries → nodes.foldlM (fun s e => step s e.1 e.2) s = .ok s'

structure Slot (σ α : Type) where
  get : σ → α
  set : σ → α → σ
  set_get : ∀ s, set s (get s) = s := by intros; rfl
  get_set : ∀ s a, get (set s a) = a := by intros; rfl
  set_set : ∀ s a b, set (set s a) b = set s b := by intros; rfl

theorem Slot.set_of_get {σ α : Type} {slot : Slot σ α} {s : σ} {a : α} (found : slot.get s = a) :
    slot.set s a = s :=
  found ▸ slot.set_get s

section Leaves

variable {node : Node} {text : String}

theorem exists_leaf_of_tree (read : node.tree = .ok (.text text)) :
    ∃ value, node = .leaf value ∧ value.text = .ok text := by
  cases node with
  | leaf value =>
    cases found : value.text <;> rw [Node.tree, found] at read <;> cases read
    exact ⟨value, rfl, found⟩
  | element bare entries ending =>
    cases trees : treesOf entries <;> rw [Node.tree, trees] at read
    · cases read
    · cases ending <;> cases read

theorem reads_text (text : String) : Reads Node.text (.text text) text := by
  intro node read
  obtain ⟨value, rfl, found⟩ := exists_leaf_of_tree read
  rwa [Node.text]

theorem reads_comment (text : String) : Reads Node.comment (.text text) (.attribute text) := by
  intro node read
  obtain ⟨value, rfl, found⟩ := exists_leaf_of_tree read
  rw [Node.comment, found]
  rfl

theorem word32?_toString {n : Nat} (small : n < 2 ^ 32) : Text.word32? (toString n).toList = some n := by
  rw [Text.word32?, Nat.toString_eq_ofList_toDigits, String.toList_ofList,
    (Reference.numeral_toDigits n).natural?_eq (by decide)]
  exact Option.filter_eq_some_iff.2 ⟨rfl, by simpa using small⟩

theorem reads_number {n : Nat} (small : n < 2 ^ 32) : Reads Node.number (.text (toString n)) n := by
  intro node read
  rw [Node.number, reads_text _ node read]
  dsimp only [bind, Except.bind]
  rw [word32?_toString small]
  rfl

end Leaves

theorem entriesOf_append (pieces more : List Piece) :
    entriesOf (pieces ++ more) = entriesOf pieces ++ entriesOf more := by
  induction pieces with
  | nil => rfl
  | cons piece pieces ih => rw [List.cons_append, entriesOf, entriesOf, ih, List.cons_append]

section Fold

variable {σ : Type} {step : σ → String → Node → Except Error σ} {s s' : σ}

theorem Content.fold_eq (step : σ → String → Node → Except Error σ) (s : σ) (c : Content) :
    c.fold step s = do
      let s ← c.entries.foldlM (fun s e => step s e.1 e.2) s
      let _ ← c.ending
      return s := by
  unfold Content.fold Content.foldChoices
  induction c.entries generalizing s with
  | nil => rfl
  | cons entry rest ih =>
    rw [Content.foldChoices.go, List.foldlM_cons]
    cases step s entry.1 entry.2 with
    | error e => rfl
    | ok s => exact ih s

namespace Folds

variable {name : String} {tree : Tree} {entries others : List (String × Tree)} {s'' : σ}

theorem nil : Folds step [] s s := by
  intro nodes read
  cases nodes with
  | nil => rfl
  | cons entry nodes =>
    obtain ⟨_, _, -, -, same⟩ := exists_of_treesOf_cons read
    cases same

theorem cons (first : Reads (step s name) tree s') (rest : Folds step entries s' s'') :
    Folds step ((name, tree) :: entries) s s'' := by
  intro nodes read
  cases nodes with
  | nil => cases read
  | cons entry nodes =>
    obtain ⟨_, _, here, later, same⟩ := exists_of_treesOf_cons read
    cases same
    rw [List.foldlM_cons, first entry.2 here]
    exact rest nodes later

theorem append (first : Folds step entries s s') (rest : Folds step others s' s'') :
    Folds step (entries ++ others) s s'' := by
  intro nodes read
  obtain ⟨nodes, more, rfl, here, later⟩ := exists_of_treesOf_append read
  rw [List.foldlM_append, first nodes here]
  exact rest more later

section Fields

variable {rest : List (String × Option String)} {value : Option String} {n : Option Nat}

theorem field (absent : value = none → s = s')
    (reads : ∀ text ∈ value, Reads (step s name) (.text text) s')
    (others : Folds step (attributeEntries (present rest)) s' s'') :
    Folds step (attributeEntries (present ((name, value) :: rest))) s s'' := by
  cases value with
  | none => exact absent rfl ▸ others
  | some text => exact .cons (reads text rfl) others

theorem text (slot : Slot σ (Option String)) (free : slot.get s = none)
    (reads : ∀ s node, step s name node = do return slot.set s (some (← node.text)))
    (others : Folds step (attributeEntries (present rest)) (slot.set s value) s') :
    Folds step (attributeEntries (present ((name, value) :: rest))) s s' := by
  refine field (by rintro rfl; exact (slot.set_of_get free).symm) ?_ others
  rintro text rfl node tree
  rw [reads, reads_text text node tree]
  rfl

theorem given {text : String} (slot : Slot σ String)
    (reads : ∀ s node, step s name node = do return slot.set s (← node.text))
    (others : Folds step (attributeEntries (present rest)) (slot.set s text) s') :
    Folds step (attributeEntries (present ((name, some text) :: rest))) s s' := by
  refine field (by simp) ?_ others
  rintro _ ⟨⟩ node tree
  rw [reads, reads_text text node tree]
  rfl

theorem comment (slot : Slot σ (Option String)) (keep : Option String → Comment → Option String)
    (keeps : ∀ text, keep none (.attribute text) = some text) (free : slot.get s = none)
    (reads : ∀ s node, step s name node = do return slot.set s (keep (slot.get s) (← node.comment)))
    (others : Folds step (attributeEntries (present rest)) (slot.set s value) s') :
    Folds step (attributeEntries (present ((name, value) :: rest))) s s' := by
  refine field (by rintro rfl; exact (slot.set_of_get free).symm) ?_ others
  rintro text rfl node tree
  rw [reads, free, reads_comment text node tree, ← keeps text]
  rfl

theorem once (slot : Slot σ (Option String)) (free : slot.get s = none)
    (reads : ∀ s node, step s name node = do return slot.set s (← Xml.once name (slot.get s) node.text))
    (others : Folds step (attributeEntries (present rest)) (slot.set s value) s') :
    Folds step (attributeEntries (present ((name, value) :: rest))) s s' := by
  refine field (by rintro rfl; exact (slot.set_of_get free).symm) ?_ others
  rintro text rfl node tree
  rw [reads, free, reads_text text node tree]
  rfl

theorem flag {b : Bool} (slot : Slot σ Bool) (free : slot.get s = false)
    (reads : ∀ s node, step s name node = do return slot.set s ((← node.text) = "true"))
    (others : Folds step (attributeEntries (present rest)) (slot.set s b) s') :
    Folds step (attributeEntries (present ((name, if b then some "true" else none) :: rest))) s s' := by
  cases b with
  | false => exact field (fun _ => (slot.set_of_get free).symm) (by simp) others
  | true =>
    refine field (by simp) ?_ others
    rintro _ ⟨⟩ node tree
    rw [reads, reads_text "true" node tree]
    rfl

theorem number (slot : Slot σ (Option Nat)) (free : slot.get s = none) (small : ∀ k ∈ n, k < 2 ^ 32)
    (reads : ∀ s node, step s name node = do return slot.set s (some (← node.number)))
    (others : Folds step (attributeEntries (present rest)) (slot.set s n) s') :
    Folds step (attributeEntries (present ((name, n.map toString) :: rest))) s s' := by
  refine field (by simpa using by rintro rfl; exact (slot.set_of_get free).symm) ?_ others
  simp only [Option.mem_map]
  rintro _ ⟨k, rfl, rfl⟩ node tree
  rw [reads, reads_number (small k rfl) node tree]
  rfl

theorem onceNumber (slot : Slot σ (Option Nat)) (free : slot.get s = none)
    (small : ∀ k ∈ n, k < 2 ^ 32)
    (reads : ∀ s node, step s name node = do return slot.set s (← Xml.once name (slot.get s) node.number))
    (others : Folds step (attributeEntries (present rest)) (slot.set s n) s') :
    Folds step (attributeEntries (present ((name, n.map toString) :: rest))) s s' := by
  refine field (by simpa using by rintro rfl; exact (slot.set_of_get free).symm) ?_ others
  simp only [Option.mem_map]
  rintro _ ⟨k, rfl, rfl⟩ node tree
  rw [reads, free, reads_number (small k rfl) node tree]
  rfl

end Fields

theorem children {α : Type} {items : List α} {piece : α → Piece} {read : Node → Except Error α}
    (slot : Slot σ (List α)) (free : slot.get s = [])
    (reads : ∀ a ∈ items, Reads read (piece a).entry.2 a)
    (adds : ∀ s a node,
      step s (piece a).entry.1 node = do return slot.set s (slot.get s ++ [← read node])) :
    Folds step (entriesOf (items.map piece)) s (slot.set s items) := by
  suffices further : ∀ s, Folds step (entriesOf (items.map piece)) s (slot.set s (slot.get s ++ items)) by
    simpa [free] using further s
  clear free
  induction items with
  | nil => simpa [entriesOf, slot.set_get] using fun _ => nil
  | cons a items ih =>
    intro s
    have first : Reads (step s (piece a).entry.1) (piece a).entry.2 (slot.set s (slot.get s ++ [a])) := by
      intro node tree
      rw [adds, reads a List.mem_cons_self node tree]
      rfl
    have later := ih (fun a mem => reads a (List.mem_cons_of_mem _ mem)) (slot.set s (slot.get s ++ [a]))
    rw [slot.get_set, slot.set_set, List.append_assoc] at later
    exact .cons first later

theorem reads (folds : Folds step entries s s') : Reads (Node.fold step s) (.element entries) s' := by
  intro node read
  obtain ⟨bare, nodes, left, rfl, trees⟩ := exists_of_tree_element read
  rw [Node.fold, Node.content]
  dsimp only [bind, Except.bind]
  rw [Content.fold_eq, folds nodes trees]
  rfl

end Folds

theorem Reads.element {s'' : σ} {name : String} {attributes : List (String × String)} {body : List Piece}
    (own : Folds step (attributeEntries attributes) s s') (inside : Folds step (entriesOf body) s' s'') :
    Reads (Node.fold step s) (Piece.element name attributes body).entry.2 s'' := by
  rw [Piece.entry]
  exact (own.append inside).reads

theorem reads_children {α : Type} {wanted name : String} {items : List α} {piece : α → Piece}
    {read : Node → Except Error α} (called : ∀ a, (piece a).entry.1 = wanted)
    (reads : ∀ a ∈ items, Reads read (piece a).entry.2 a) :
    Reads (Node.children wanted read) (Piece.element name [] (items.map piece)).entry.2 items := by
  unfold Node.children
  refine .element .nil (.children (.mk (fun found : List α => found) fun _ v => v) rfl reads ?_)
  exact fun _ a _ => if_pos (called a)

end Fold

end VulkanBindings.Xml
