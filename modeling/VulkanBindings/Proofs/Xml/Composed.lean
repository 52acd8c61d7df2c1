import VulkanBindings.Proofs.Xml.Failures

/-! Readers that are composed of the basic ones. What is known of the basic readers and goes through their
composition is known of all of them: they compare as nodes do, and they fail for a reason of their own
or where the tree of the node breaks. -/

set_option autoImplicit false

namespace VulkanBindings.Xml

variable {α β σ : Type}

def Error.IsOwn : Error → Prop
  | .misplaced _ | .missingChoice | .unreadableComment | .unnamedCommand | .missingField _
  | .duplicateField _ | .unreadable .. => True
  | _ => False

theorem required_failsOnly (name : String) (found : Option α) :
    FailsOnly Error.IsOwn (required name found) := by
  cases found with
  | some a => exact .ok a
  | none => exact .of_kind trivial

/-- Two readings, each of its own node, that one reader gives. Readers are composed of the basic ones, and
what they make of what they have read fails only with errors of their own. -/
inductive Composed : ∀ {α : Type}, Node → Node → Except Error α → Except Error α → Prop
  | skip (node node' : Node) : Composed node node' node.skip node'.skip
  | text (node node' : Node) : Composed node node' node.text node'.text
  | bodyText (node node' : Node) : Composed node node' node.bodyText node'.bodyText
  | comment (node node' : Node) : Composed node node' node.comment node'.comment
  | choice {σ : Type} (chosen : String → σ) (node node' : Node) :
    Composed node node' (node.choice chosen) (node'.choice chosen)
  | refuse {α : Type} {e : Error} (own : e.IsOwn) (node node' : Node) :
    Composed node node' (.error e : Except Error α) (.error e)
  | next {α β : Type} {node node' : Node} {x y : Except Error α} {f : α → Except Error β}
    (reads : Composed node node' x y) (own : ∀ a, FailsOnly Error.IsOwn (f a)) :
    Composed node node' (x >>= f) (y >>= f)
  | choices {σ : Type} {step : σ → String → Node → Except Error (Step σ)}
    (steps : ∀ state name child child',
      Composed child child' (step state name child) (step state name child'))
    (state : σ) (node node' : Node) :
    Composed node node' (node.content >>= fun content => content.foldChoices step state)
      (node'.content >>= fun content => content.foldChoices step state)

def IsComposed (read : Node → Except Error α) : Prop :=
  ∀ node node', Composed node node' (read node) (read node')

namespace Composed

variable {node node' : Node} {x y : Except Error α}

theorem map (reads : Composed node node' x y) (f : α → β) : Composed node node' (f <$> x) (f <$> y) := by
  rw [map_eq_pure_bind, map_eq_pure_bind]
  exact .next reads fun _ => .ok _

theorem once (name : String) (found : Option α) (reads : Composed node node' x y) :
    Composed node node' (Xml.once name found x) (Xml.once name found y) := by
  cases found with
  | some a => exact .refuse (by trivial) node node'
  | none => exact reads.map _

theorem number (node node' : Node) : Composed node node' node.number node'.number := by
  refine .next (.text node node') fun text => ?_
  split
  · exact .ok _
  · exact .of_kind trivial

/-- A reader compares as the basic readers do. -/
theorem agrees (c : Comparison) (composed : Composed node node' x y) (nodes : c.alike node node') :
    c.agree node.IsWhole x y := by
  induction composed with
  | skip => exact c.skip nodes
  | text => exact c.text nodes
  | bodyText => exact c.bodyText nodes
  | comment => exact c.comment nodes
  | choice chosen => exact c.choice chosen nodes
  | refuse => exact c.error _
  | next _ _ ih => exact c.next (ih nodes) _
  | choices _ state _ _ ih =>
    exact Comparison.content nodes fun contents =>
      Comparison.foldChoices (fun state name _ _ children => ih state name _ _ children) contents state

end Composed

namespace IsComposed

theorem choices {step : σ → String → Node → Except Error (Step σ)}
    (steps : ∀ state name, IsComposed (step state name)) (state : σ) {f : σ → Except Error α}
    (own : ∀ state, FailsOnly Error.IsOwn (f state)) :
    IsComposed fun node => node.content >>= fun content => content.foldChoices step state >>= f := by
  intro node node'
  dsimp only
  rw [← bind_assoc, ← bind_assoc]
  exact .next (.choices steps state node node') own

theorem fold {step : σ → String → Node → Except Error σ} (steps : ∀ state name, IsComposed (step state name))
    (state : σ) : IsComposed (Node.fold step state) :=
  Composed.choices (fun state name child child' => (steps state name child child').map _) state

theorem children {read : Node → Except Error α} (reads : IsComposed read) (wanted : String) :
    IsComposed (Node.children wanted read) := by
  refine fold (fun found name child child' => ?_) []
  split
  · exact .next (reads child child') fun _ => .ok _
  · exact .next (.skip child child') fun _ => .ok _

end IsComposed

/-- A reading of a node, against the tree of the node or what is read of that: it comes to an end only if
that does, and it fails for a reason of its own or where that does. -/
structure Follows (read : Except Error α) (whole : Except Error β) : Prop where
  ok : ∀ a, read = .ok a → ∃ b, whole = .ok b
  error : ∀ e, read = .error e → e.IsOwn ∨ whole = .error e

namespace Follows

variable {γ δ : Type} {read : Except Error α} {whole : Except Error β}

theorem refl (read : Except Error α) : Follows read read := ⟨fun a same => ⟨a, same⟩, fun _ => .inr⟩

theorem own {e : Error} (own : e.IsOwn) (whole : Except Error β) :
    Follows (.error e : Except Error α) whole where
  ok := nofun
  error _ same := by
    cases same
    exact .inl own

theorem failed (e : Error) : Follows (.error e : Except Error α) (.error e : Except Error β) where
  ok := nofun
  error _ same := by
    cases same
    exact .inr rfl

theorem bind {f : α → Except Error γ} {g : β → Except Error δ} (follows : Follows read whole)
    (later : ∀ a b, Follows (f a) (g b)) : Follows (read >>= f) (whole >>= g) := by
  cases read with
  | error e =>
    obtain own | rfl := follows.error e rfl
    · exact .own own _
    · exact .failed e
  | ok a =>
    obtain ⟨b, rfl⟩ := follows.ok a rfl
    exact later a b

theorem next {f : α → Except Error γ} (follows : Follows read whole)
    (own : ∀ a, FailsOnly Error.IsOwn (f a)) : Follows (read >>= f) whole := by
  cases read with
  | error e =>
    obtain own | rfl := follows.error e rfl
    · exact .own own _
    · exact .failed e
  | ok a =>
    obtain ⟨b, rfl⟩ := follows.ok a rfl
    exact ⟨fun _ _ => ⟨b, rfl⟩, fun e failed => .inl ((own a).error e failed)⟩

theorem map_right (follows : Follows read whole) (g : β → δ) : Follows read (g <$> whole) where
  ok a same := by
    obtain ⟨b, rfl⟩ := follows.ok a same
    exact ⟨g b, rfl⟩
  error e failed := by
    obtain own | rfl := follows.error e failed
    · exact .inl own
    · exact .inr rfl

end Follows

section Basic

variable {bare : Bool} {entries : List (String × Node)} {ending : Ending}

theorem follows_end {x : Except Error α} (own : FailsOnly Error.IsOwn x) (ending : Ending) :
    Follows (ending >>= fun _ => x) (treesUpTo [] ending) := by
  have trees : treesUpTo [] ending = (fun _ => []) <$> ending := by simp [treesUpTo, treesOf]
  rw [trees]
  exact ((Follows.refl ending).next fun _ => own).map_right _

theorem follows_cons {read : Except Error α} {f : α → Except Error β} {name : String} {node : Node}
    {rest : List (String × Node)} (first : Follows read node.tree)
    (later : ∀ a, Follows (f a) (treesUpTo rest ending)) :
    Follows (read >>= f) (treesUpTo ((name, node) :: rest) ending) := by
  rw [treesUpTo_cons]
  refine first.bind fun a tree => ?_
  rw [← map_eq_pure_bind]
  exact (later a).map_right _

theorem Node.skip_follows (node : Node) : Follows node.skip node.tree :=
  (Follows.refl node.tree).next fun _ => .ok _

theorem follows_leaf {read : Except Error α} {value : Leaf} (follows : Follows read value.text) :
    Follows read (Node.leaf value).tree :=
  follows.map_right _

theorem follows_element {read : Except Error α} (follows : Follows read (treesUpTo entries ending)) :
    Follows read (Node.element bare entries ending).tree := by
  rw [Node.tree_element]
  exact follows.map_right _

mutual

theorem Node.text_follows : ∀ node : Node, Follows node.text node.tree
  | .leaf value => follows_leaf (.refl _)
  | .element false _ _ => .own (by trivial) _
  | .element true entries ending => by
    rw [Node.text]
    exact follows_element (textAmong_follows none entries ending)

theorem textAmong_follows : ∀ (found : Option String) (entries : List (String × Node)) (ending : Ending),
    Follows (textAmong found entries ending) (treesUpTo entries ending)
  | found, [], ending => by
    rw [textAmong.eq_def]
    refine follows_end ?_ ending
    cases found with
    | some text => exact .ok text
    | none => exact .of_kind trivial
  | found, (name, node) :: rest, ending => by
    rw [textAmong_cons]
    split
    · cases found with
      | some text => exact .own (by trivial) _
      | none => exact follows_cons (Node.text_follows node) fun text => textAmong_follows _ rest ending
    · exact follows_cons (.refl _) fun _ => textAmong_follows found rest ending

end

theorem Node.content_follows {f : Content → Except Error α}
    (inner : ∀ entries ending, Follows (f ⟨entries, ending⟩) (treesUpTo entries ending)) (node : Node) :
    Follows (node.content >>= f) node.tree := by
  cases node with
  | leaf value =>
    obtain _ | e | _ := value
    · exact .own (by trivial) _
    · exact .failed e
    · exact .own (by trivial) _
  | element bare entries ending => exact follows_element (inner entries ending)

theorem follows_treesThen {f : List (String × Tree) → Except Error α}
    (own : ∀ trees, FailsOnly Error.IsOwn (f trees)) (entries : List (String × Node)) (ending : Ending) :
    Follows (treesOf entries >>= fun trees => ending >>= fun _ => f trees) (treesUpTo entries ending) := by
  have trees := (Follows.refl (treesUpTo entries ending)).next own
  simpa [treesUpTo] using trees

theorem Node.comment_follows (node : Node) : Follows node.comment node.tree := by
  cases node with
  | leaf value => exact follows_leaf ((Follows.refl _).next fun _ => .ok _)
  | element bare entries ending =>
    refine follows_element (follows_treesThen (fun trees => ?_) entries ending)
    split
    · exact .ok _
    · exact .of_kind trivial

theorem Node.choice_follows (chosen : String → σ) (node : Node) : Follows (node.choice chosen) node.tree := by
  cases node with
  | leaf value => exact follows_leaf ((Follows.refl _).next fun _ => .ok _)
  | element bare entries ending => exact (Node.skip_follows _).next fun _ => .ok _

theorem foldChoices_follows {step : σ → String → Node → Except Error (Step σ)}
    (steps : ∀ state name child, Follows (step state name child) child.tree) (c : Content) (state : σ)
    (entries : List (String × Node)) :
    Follows (Content.foldChoices.go step c state entries) (treesUpTo entries c.ending) := by
  -- A choice takes two entries at once, so the induction is on how many are left.
  obtain ⟨n, bound⟩ : ∃ n, entries.length < n := ⟨_, Nat.lt_succ_self _⟩
  induction n generalizing entries state with
  | zero => exact absurd bound (Nat.not_lt_zero _)
  | succ n ih =>
    cases entries with
    | nil => exact follows_end (.ok state) _
    | cons entry rest =>
      obtain ⟨name, node⟩ := entry
      rw [Content.foldChoices.go]
      refine follows_cons (steps state name node) fun taken => ?_
      cases taken with
      | next state => exact ih state rest (Nat.lt_of_succ_lt_succ bound)
      | choose chosen =>
        cases rest with
        | nil => exact follows_end (.of_kind (by trivial)) _
        | cons entry rest =>
          obtain ⟨name, node⟩ := entry
          exact follows_cons (Node.skip_follows node) fun _ =>
            ih _ rest (Nat.lt_of_succ_lt (Nat.lt_of_succ_lt_succ bound))

/-- A reader fails for a reason of its own or where the tree of its node breaks. -/
theorem Composed.follows {node node' : Node} {x y : Except Error α} (composed : Composed node node' x y) :
    Follows x node.tree := by
  induction composed with
  | skip node => exact node.skip_follows
  | text node => exact node.text_follows
  | bodyText node => exact Node.content_follows (textAmong_follows none) node
  | comment node => exact node.comment_follows
  | choice chosen node => exact node.choice_follows chosen
  | refuse own => exact .own own _
  | next _ own ih => exact ih.next own
  | choices _ state node _ ih =>
    exact Node.content_follows
      (fun entries ending => foldChoices_follows (fun state name child => ih state name child child)
        ⟨entries, ending⟩ state entries) node

theorem IsComposed.follows {read : Node → Except Error α} (reads : IsComposed read) (node : Node) :
    Follows (read node) node.tree :=
  (reads node node).follows

end Basic

end VulkanBindings.Xml
