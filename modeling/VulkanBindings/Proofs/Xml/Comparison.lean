import VulkanBindings.Xml.Fold

/-! What two readings of one kind have in common, stated for all readers that are made of the basic
ones. Nodes are compared entry by entry, results by what becomes of them; a reader of elements is
compared once, whatever the comparison is. -/

set_option autoImplicit false

namespace VulkanBindings.Xml

def treesUpTo (entries : List (String × Node)) (ending : Ending) :
    Except Error (List (String × Tree)) := do
  let trees ← treesOf entries
  let _ ← ending
  return trees

theorem treesUpTo_cons (name : String) (node : Node) (rest : List (String × Node)) (ending : Ending) :
    treesUpTo ((name, node) :: rest) ending = do
      let tree ← node.tree
      let trees ← treesUpTo rest ending
      return (name, tree) :: trees := by
  simp [treesUpTo, treesOf]

theorem Node.tree_element (bare : Bool) (entries : List (String × Node)) (ending : Ending) :
    (Node.element bare entries ending).tree = Tree.element <$> treesUpTo entries ending := by
  simp [Node.tree, treesUpTo]

theorem textAmong_cons (found : Option String) (name : String) (node : Node)
    (rest : List (String × Node)) (ending : Ending) :
    textAmong found ((name, node) :: rest) ending =
      if name = textName then
        match found with
        | some _ => .error (.duplicateField textName)
        | none => node.text >>= fun text => textAmong (some text) rest ending
      else node.tree >>= fun _ => textAmong found rest ending :=
  textAmong.eq_def ..

def Node.IsWhole (node : Node) : Prop := ∃ tree, node.tree = .ok tree

def IsWholeUpTo (entries : List (String × Node)) (ending : Ending) : Prop :=
  ∃ trees, treesUpTo entries ending = .ok trees

section Whole

variable {name : String} {node : Node} {bare : Bool} {entries rest : List (String × Node)}
  {ending : Ending}

theorem exists_ok_bind {α β : Type} {x : Except Error α} {f : α → Except Error β} :
    (∃ b, x >>= f = .ok b) ↔ ∃ a, x = .ok a ∧ ∃ b, f a = .ok b := by
  cases x with
  | error e => simp [bind, Except.bind]
  | ok a => simp [bind, Except.bind]

theorem exists_ok_map {α β : Type} {x : Except Error α} {f : α → β} :
    (∃ b, f <$> x = .ok b) ↔ ∃ a, x = .ok a := by
  cases x with
  | error e => simp [Functor.map, Except.map]
  | ok a => simp [Functor.map, Except.map]

theorem isWholeUpTo_nil : IsWholeUpTo [] ending ↔ ∃ left, ending = .ok left := by
  unfold IsWholeUpTo treesUpTo
  simp [treesOf, exists_ok_map]

theorem isWholeUpTo_cons :
    IsWholeUpTo ((name, node) :: rest) ending ↔ node.IsWhole ∧ IsWholeUpTo rest ending := by
  unfold IsWholeUpTo Node.IsWhole
  rw [treesUpTo_cons]
  simp [exists_ok_bind, exists_ok_map]

theorem IsWholeUpTo.ends (whole : IsWholeUpTo entries ending) : ∃ left, ending = .ok left := by
  induction entries with
  | nil => exact isWholeUpTo_nil.1 whole
  | cons entry rest ih => exact ih (isWholeUpTo_cons.1 whole).2

theorem isWhole_element : (Node.element bare entries ending).IsWhole ↔ IsWholeUpTo entries ending := by
  unfold IsWholeUpTo Node.IsWhole
  rw [Node.tree_element, exists_ok_map]

theorem isWhole_leaf {value : Leaf} : (Node.leaf value).IsWhole ↔ ∃ text, value.text = .ok text := by
  unfold Node.IsWhole
  rw [Node.tree]
  simp [exists_ok_map]

end Whole

/-- A way to compare results. A value of the first one may tell a fact besides. -/
structure Agreement where
  agree : Prop → ∀ {α : Type}, Except Error α → Except Error α → Prop
  refl : ∀ {α : Type} (x : Except Error α), agree True x x
  mono : ∀ {fact also : Prop} {α : Type} {x y : Except Error α}, agree fact x y → (fact → also) →
    agree also x y
  shows : ∀ {fact : Prop} {α : Type} {x y : Except Error α}, agree fact x y →
    agree (∃ a, x = .ok a) x y
  error : ∀ {fact : Prop} {α : Type} (e : Error), agree fact (.error e : Except Error α) (.error e)
  bind : ∀ {fact also : Prop} {α β : Type} {x y : Except Error α} {f g : α → Except Error β},
    agree fact x y → (∀ a, agree also (f a) (g a)) → agree (fact ∧ also) (x >>= f) (y >>= g)

/-- Where the first reading fails in this way the other one may go on. -/
def Agreement.Leaves (a : Agreement) (e : Error) : Prop :=
  ∀ {fact : Prop} {α : Type} (y : Except Error α), a.agree fact (.error e) y

namespace Agreement

variable {a : Agreement} {fact : Prop} {α β : Type} {x y : Except Error α}

theorem next (a : Agreement) (agrees : a.agree fact x y) (f : α → Except Error β) :
    a.agree fact (x >>= f) (y >>= f) :=
  a.mono (a.bind agrees fun b => a.refl (f b)) And.left

theorem map (agrees : a.agree fact x y) (f : α → β) : a.agree fact (f <$> x) (f <$> y) := by
  rw [map_eq_pure_bind, map_eq_pure_bind]
  exact a.next agrees _

end Agreement

def Leaf.refusal : Leaf → Error
  | .unquoted e => e
  | value => .misplaced value.place

theorem Node.content_leaf (value : Leaf) : (Node.leaf value).content = .error value.refusal := by
  cases value <;> rfl

/-- A way to compare nodes, and what is read of those that are alike. -/
structure Comparison extends Agreement where
  alike : Node → Node → Prop
  contents : List (String × Node) → Ending → List (String × Node) → Ending → Prop
  leaf : ∀ {value : Leaf} {node : Node}, alike (.leaf value) node → ∃ value', node = .leaf value' ∧
    agree True value.text value'.text ∧
    ∀ (fact : Prop) (α : Type), agree fact (.error value.refusal : Except Error α) (.error value'.refusal)
  element : ∀ {bare : Bool} {entries : List (String × Node)} {ending : Ending} {node : Node},
    alike (.element bare entries ending) node → ∃ bare' entries' ending',
      node = .element bare' entries' ending' ∧ contents entries ending entries' ending' ∧
      (bare' = bare ∨ bare = false ∧ toAgreement.Leaves (.misplaced (.tag false)))
  nil : ∀ {entries : List (String × Node)} {ending ending' : Ending},
    contents [] ending entries ending' → (∃ e, ending = .error e ∧ toAgreement.Leaves e) ∨
      entries = [] ∧ (ending' = ending ∨ ∃ left left', ending = .ok left ∧ ending' = .ok left')
  cons : ∀ {name : String} {node : Node} {rest entries : List (String × Node)} {ending ending' : Ending},
    contents ((name, node) :: rest) ending entries ending' → ∃ node' rest',
      entries = (name, node') :: rest' ∧ alike node node' ∧ contents rest ending rest' ending'

namespace Comparison

variable {c : Comparison} {σ α β : Type} {node node' : Node} {entries entries' : List (String × Node)}
  {ending ending' : Ending}

theorem atEnd {x y : Except Error α} (contents : c.contents [] ending entries ending')
    (same : entries = [] → y = ending' >>= fun _ => x) :
    c.agree (IsWholeUpTo [] ending) (ending >>= fun _ => x) y := by
  obtain ⟨e, rfl, leaves⟩ | ⟨rfl, ends⟩ := c.nil contents
  · exact leaves y
  rw [same rfl]
  obtain rfl | ⟨left, left', rfl, rfl⟩ := ends
  · cases ending' with
    | error e => exact c.error e
    | ok left => exact c.mono (c.refl x) fun _ => isWholeUpTo_nil.2 ⟨left, rfl⟩
  · exact c.mono (c.refl x) fun _ => isWholeUpTo_nil.2 ⟨left, rfl⟩

mutual

theorem tree (c : Comparison) {node node' : Node} (nodes : c.alike node node') :
    c.agree node.IsWhole node.tree node'.tree := by
  match node, nodes with
  | .leaf value, nodes =>
    obtain ⟨value', rfl, texts, -⟩ := c.leaf nodes
    rw [Node.tree, Node.tree]
    exact c.shows (c.next texts _)
  | .element bare entries ending, nodes =>
    obtain ⟨bare', entries', ending', rfl, contents, -⟩ := c.element nodes
    rw [Node.tree_element, Node.tree_element, isWhole_element]
    exact Agreement.map (treesUpTo c contents) _

theorem treesUpTo (c : Comparison) {entries entries' : List (String × Node)} {ending ending' : Ending}
    (contents : c.contents entries ending entries' ending') :
    c.agree (IsWholeUpTo entries ending) (Xml.treesUpTo entries ending)
      (Xml.treesUpTo entries' ending') := by
  match entries, contents with
  | [], contents => exact atEnd contents fun same => same ▸ rfl
  | (name, node) :: rest, contents =>
    obtain ⟨node', rest', rfl, nodes, others⟩ := c.cons contents
    rw [treesUpTo_cons, treesUpTo_cons, isWholeUpTo_cons]
    exact c.bind (tree c nodes) fun _ => c.next (treesUpTo c others) _

end

theorem skip (c : Comparison) (nodes : c.alike node node') : c.agree node.IsWhole node.skip node'.skip :=
  c.next (c.tree nodes) _

theorem treesThen (contents : c.contents entries ending entries' ending')
    (f : List (String × Tree) → Except Error α) :
    c.agree (IsWholeUpTo entries ending) (treesOf entries >>= fun trees => ending >>= fun _ => f trees)
      (treesOf entries' >>= fun trees => ending' >>= fun _ => f trees) := by
  have trees := c.next (c.treesUpTo contents) f
  simpa [Xml.treesUpTo] using trees

mutual

theorem text (c : Comparison) {node node' : Node} (nodes : c.alike node node') :
    c.agree node.IsWhole node.text node'.text := by
  match node, nodes with
  | .leaf value, nodes =>
    obtain ⟨value', rfl, texts, -⟩ := c.leaf nodes
    rw [Node.text, Node.text, isWhole_leaf]
    exact c.shows texts
  | .element bare entries ending, nodes =>
    obtain ⟨bare', entries', ending', rfl, contents, rfl | ⟨rfl, leaves⟩⟩ := c.element nodes
    · cases bare' with
      | false => exact c.error _
      | true =>
        rw [Node.text, Node.text, isWhole_element]
        exact textAmong c none contents
    · exact leaves _

theorem textAmong (c : Comparison) (found : Option String) {entries entries' : List (String × Node)}
    {ending ending' : Ending} (contents : c.contents entries ending entries' ending') :
    c.agree (IsWholeUpTo entries ending) (Xml.textAmong found entries ending)
      (Xml.textAmong found entries' ending') := by
  match entries, contents with
  | [], contents =>
    rw [Xml.textAmong.eq_def]
    refine atEnd contents fun same => ?_
    subst same
    rw [Xml.textAmong.eq_def]
  | (name, node) :: rest, contents =>
    obtain ⟨node', rest', rfl, nodes, others⟩ := c.cons contents
    rw [textAmong_cons, textAmong_cons, isWholeUpTo_cons]
    split
    · cases found with
      | some text => exact c.error _
      | none => exact c.bind (text c nodes) fun _ => textAmong c _ others
    · exact c.bind (tree c nodes) fun _ => textAmong c _ others

end

theorem content (nodes : c.alike node node') {f g : Content → Except Error α}
    (inner : ∀ {entries entries' : List (String × Node)} {ending ending' : Ending},
      c.contents entries ending entries' ending' →
        c.agree (IsWholeUpTo entries ending) (f ⟨entries, ending⟩) (g ⟨entries', ending'⟩)) :
    c.agree node.IsWhole (node.content >>= f) (node'.content >>= g) := by
  cases node with
  | leaf value =>
    obtain ⟨value', rfl, -, refusals⟩ := c.leaf nodes
    rw [Node.content_leaf, Node.content_leaf]
    exact refusals _ α
  | element bare entries ending =>
    obtain ⟨bare', entries', ending', rfl, contents, -⟩ := c.element nodes
    rw [isWhole_element]
    exact inner contents

theorem contentThen (c : Comparison) {x y : Except Error α} (nodes : c.alike node node')
    (agrees : c.agree node.IsWhole x y) :
    c.agree node.IsWhole (node.content >>= fun _ => x) (node'.content >>= fun _ => y) := by
  cases node with
  | leaf value =>
    obtain ⟨value', rfl, -, refusals⟩ := c.leaf nodes
    rw [Node.content_leaf, Node.content_leaf]
    exact refusals _ α
  | element bare entries ending =>
    obtain ⟨bare', entries', ending', rfl, -⟩ := c.element nodes
    exact agrees

theorem bodyText (c : Comparison) (nodes : c.alike node node') :
    c.agree node.IsWhole node.bodyText node'.bodyText :=
  content nodes fun contents => c.textAmong none contents

theorem comment (c : Comparison) (nodes : c.alike node node') :
    c.agree node.IsWhole node.comment node'.comment := by
  cases node with
  | leaf value =>
    obtain ⟨value', rfl, texts, -⟩ := c.leaf nodes
    rw [isWhole_leaf]
    exact Agreement.map (c.shows texts) _
  | element bare entries ending =>
    obtain ⟨bare', entries', ending', rfl, contents, -⟩ := c.element nodes
    rw [isWhole_element, Node.comment, Node.comment]
    exact treesThen contents _

theorem choice (c : Comparison) (chosen : String → σ) (nodes : c.alike node node') :
    c.agree node.IsWhole (node.choice chosen) (node'.choice chosen) := by
  cases node with
  | leaf value =>
    obtain ⟨value', rfl, texts, -⟩ := c.leaf nodes
    rw [isWhole_leaf]
    exact c.next (c.shows texts) _
  | element bare entries ending =>
    have skipped := c.next (c.skip nodes) fun _ => .ok (Step.choose chosen)
    obtain ⟨bare', entries', ending', rfl, -⟩ := c.element nodes
    exact skipped

/-- A step of a reader that takes nodes whole and gives on nodes that are alike what agrees. -/
def Steady (c : Comparison) (step : σ → String → Node → Except Error α) : Prop :=
  ∀ state name {node node' : Node}, c.alike node node' →
    c.agree node.IsWhole (step state name node) (step state name node')

theorem foldChoices_go {step : σ → String → Node → Except Error (Step σ)} (steady : c.Steady step)
    (d d' : Content) (contents : c.contents entries d.ending entries' d'.ending) (state : σ) :
    c.agree (IsWholeUpTo entries d.ending) (Content.foldChoices.go step d state entries)
      (Content.foldChoices.go step d' state entries') := by
  -- A choice takes two entries at once, so the induction is on how many are left.
  obtain ⟨n, bound⟩ : ∃ n, entries.length < n := ⟨_, Nat.lt_succ_self _⟩
  induction n generalizing entries entries' state with
  | zero => exact absurd bound (Nat.not_lt_zero _)
  | succ n ih =>
    cases entries with
    | nil => exact atEnd contents fun same => same ▸ rfl
    | cons entry rest =>
      obtain ⟨name, node⟩ := entry
      obtain ⟨node', rest', rfl, nodes, others⟩ := c.cons contents
      rw [Content.foldChoices.go, Content.foldChoices.go, isWholeUpTo_cons]
      refine c.bind (steady state name nodes) fun taken => ?_
      cases taken with
      | next state => exact ih others state (Nat.lt_of_succ_lt_succ bound)
      | choose chosen =>
        cases rest with
        | nil => exact atEnd others fun same => same ▸ rfl
        | cons entry rest =>
          obtain ⟨name, node⟩ := entry
          obtain ⟨node', rest', rfl, nodes, others⟩ := c.cons others
          rw [isWholeUpTo_cons]
          refine c.bind (c.skip nodes) fun _ => ih others _ ?_
          exact Nat.lt_of_succ_lt (Nat.lt_of_succ_lt_succ bound)

theorem foldChoices {step : σ → String → Node → Except Error (Step σ)} (steady : c.Steady step)
    (contents : c.contents entries ending entries' ending') (state : σ) :
    c.agree (IsWholeUpTo entries ending) (Content.foldChoices step state ⟨entries, ending⟩)
      (Content.foldChoices step state ⟨entries', ending'⟩) :=
  foldChoices_go steady ⟨entries, ending⟩ ⟨entries', ending'⟩ contents state

theorem once (name : String) (found : Option α) {fact : Prop} {read read' : Except Error α}
    (reads : c.agree fact read read') :
    c.agree fact (Xml.once name found read) (Xml.once name found read') := by
  cases found with
  | some a => exact c.error _
  | none => exact Agreement.map reads _

end Comparison

end VulkanBindings.Xml
