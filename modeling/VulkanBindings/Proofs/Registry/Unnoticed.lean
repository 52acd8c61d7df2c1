import VulkanBindings.Proofs.Registry.Attributes

/-! What is not noticed where a registry is read: attributes in another order, and entries that the reader
of their element does not know. Elements that differ in nothing else are read as the same. -/

set_option autoImplicit false

namespace VulkanBindings.Registry

open Xml (Node Tree Content Ending Error Step Kept textName textAmong textAmong_cons treesUpTo treesUpTo_cons
  isWhole_element exists_of_bind_eq_ok exists_of_map_eq_ok)
open Kind (Shuffled SameFor Said attributeEntry awaited go_cons go_attributes)

/-- The kind of the element that is open, by the names of the open elements, the innermost first. Whatever
the root is called, a registry is read of it. -/
def kindOf : List String → Option Kind
  | [] => none
  | [_] => some .registry
  | name :: top :: outer => (kindOf (top :: outer)).bind (·.child name)

theorem kindOf_cons {name : String} {stack : List String} (inside : stack ≠ []) :
    kindOf (name :: stack) = (kindOf stack).bind (·.child name) := by
  cases stack with
  | nil => exact absurd rfl inside
  | cons top outer => rfl

/-- Entries of an element of this kind that its reader does not tell apart. At their begin attributes may
come in another order; entries that it does not know may be there if there may be more of them. -/
inductive Unnoticed (adds : Prop) : Bool → Option Kind → List (String × Node) → Ending →
    List (String × Node) → Ending → Prop
  | ended (first : Bool) (kind : Option Kind) (left left' : Nat) :
    Unnoticed adds first kind [] (.ok left) [] (.ok left')
  | same (first : Bool) (kind : Option Kind) (entries : List (String × Node)) (ending : Ending) :
    Unnoticed adds first kind entries ending entries ending
  | leaf {first : Bool} {kind : Option Kind} (name : String) (value : Xml.Leaf)
    {rest rest' : List (String × Node)} {ending ending' : Ending}
    (others : Unnoticed adds false kind rest ending rest' ending') :
    Unnoticed adds first kind ((name, .leaf value) :: rest) ending ((name, .leaf value) :: rest') ending'
  | element {first : Bool} {kind : Option Kind} (name : String) {bare bare' : Bool}
    (tags : kind.bind (·.child name) = none → bare = bare')
    {inner inner' rest rest' : List (String × Node)} {within within' ending ending' : Ending}
    (contents : Unnoticed adds true (kind.bind (·.child name)) inner within inner' within')
    (others : Unnoticed adds false kind rest ending rest' ending') :
    Unnoticed adds first kind ((name, .element bare inner within) :: rest) ending
      ((name, .element bare' inner' within') :: rest') ending'
  | added {first : Bool} {kind : Option Kind} {k : Kind} {name : String} {node : Node}
    {rest rest' : List (String × Node)} {ending ending' : Ending} (allowed : adds) (isKind : kind = some k)
    (unknown : name ∉ k.known) (whole : node.IsWhole)
    (others : Unnoticed adds false kind rest ending rest' ending') :
    Unnoticed adds first kind rest ending ((name, node) :: rest') ending'
  | shuffled {kind : Option Kind} {fields fields' : List (String × String)}
    (shuffled : Shuffled kind fields fields') (more : List (String × Node)) (ending : Ending) :
    Unnoticed adds true kind (fields.map attributeEntry ++ more) ending
      (fields'.map attributeEntry ++ more) ending

mutual

/-- Wherever below the node a choice may be an element or an attribute, it is none but the latter. -/
def ChoicesGiven (kind : Option Kind) : Node → Prop
  | .leaf _ => True
  | .element _ entries _ => ChoicesGivenAmong kind entries

def ChoicesGivenAmong (kind : Option Kind) : List (String × Node) → Prop
  | [] => True
  | (name, node) :: rest =>
    (kind.bind (·.choice) = some name → ∃ value, node = .leaf value) ∧
      ChoicesGiven (kind.bind (·.child name)) node ∧ ChoicesGivenAmong kind rest

end

section Texts

variable {name : String} {tree : Tree} {trees : List (String × Tree)}

def text? : Tree → Option String
  | .text text => some text
  | .element _ => none

def textsAmong (trees : List (String × Tree)) : List (Option String) :=
  (trees.filter (·.1 = textName)).map (text? ·.2)

theorem textsAmong_cons : textsAmong ((name, tree) :: trees) =
    if name = textName then text? tree :: textsAmong trees else textsAmong trees := by
  unfold textsAmong
  by_cases called : name = textName <;> simp [called]

def commentAmong (trees : List (String × Tree)) : Except Error Xml.Comment :=
  match trees.filter (·.1 = textName) with
  | [(_, .text text)] => .ok (.element text)
  | _ => .error .unreadableComment

theorem comment_element {bare : Bool} {entries : List (String × Node)} {ending : Ending}
    {comment : Xml.Comment} : (Node.element bare entries ending).comment = .ok comment ↔
      ∃ trees text, treesUpTo entries ending = .ok trees ∧ textsAmong trees = [some text] ∧
        comment = .element text := by
  have reads : (Node.element bare entries ending).comment = treesUpTo entries ending >>= commentAmong := by
    rw [treesUpTo, bind_assoc]
    simp only [bind_assoc, pure_bind]
    rfl
  rw [reads]
  constructor
  · intro found
    obtain ⟨trees, read, found⟩ := exists_of_bind_eq_ok found
    unfold commentAmong at found
    split at found
    · next one =>
      cases found
      exact ⟨trees, _, read, by rw [textsAmong, one]; rfl, rfl⟩
    · cases found
  · rintro ⟨trees, text, read, one, rfl⟩
    obtain ⟨⟨name, tree⟩, only, same⟩ := List.map_eq_singleton_iff.1 one
    rw [read]
    cases tree with
    | element entries => cases same
    | text said =>
      cases same
      simp only [bind, Except.bind, commentAmong, only]

def attributeTree (field : String × String) : String × Tree := (field.1, .text field.2)

variable {fields : List (String × String)} {more : List (String × Node)} {ending : Ending}

theorem treesUpTo_attributes : treesUpTo (fields.map attributeEntry ++ more) ending =
    (fields.map attributeTree ++ ·) <$> treesUpTo more ending := by
  induction fields with
  | nil => simp
  | cons field fields ih =>
    rw [List.map_cons, List.cons_append, attributeEntry, treesUpTo_cons, ih]
    cases treesUpTo more ending <;> rfl

theorem textsAmong_attributes (plain : ∀ field ∈ fields, field.1 ≠ textName) :
    textsAmong (fields.map attributeTree ++ trees) = textsAmong trees := by
  induction fields with
  | nil => rfl
  | cons field fields ih =>
    obtain ⟨here, others⟩ := List.forall_mem_cons.1 plain
    rw [List.map_cons, List.cons_append, attributeTree, textsAmong_cons, if_neg here, ih others]

theorem textAmong_attributes (plain : ∀ field ∈ fields, field.1 ≠ textName) (found : Option String) :
    textAmong found (fields.map attributeEntry ++ more) ending = textAmong found more ending := by
  induction fields with
  | nil => rfl
  | cons field fields ih =>
    obtain ⟨here, others⟩ := List.forall_mem_cons.1 plain
    rw [List.map_cons, List.cons_append, attributeEntry, textAmong_cons, if_neg here]
    exact ih others

end Texts

section Folds

variable {σ : Type} (step : σ → String → Node → Except Error (Step σ)) {d d' : Content}

theorem go_eq_of_ending (same : d.ending = d'.ending) (entries : List (String × Node)) :
    (∀ s, Content.foldChoices.go step d s entries = Content.foldChoices.go step d' s entries) ∧
      ∀ chosen, awaited step d chosen entries = awaited step d' chosen entries := by
  induction entries with
  | nil => simp only [Content.foldChoices.go, awaited, same, implies_true, and_self]
  | cons entry rest ih =>
    refine ⟨fun s => ?_, fun chosen => ?_⟩
    · rw [go_cons, go_cons]
      congr 1
      funext taken
      cases taken with
      | next s => exact ih.1 s
      | choose chosen => exact ih.2 chosen
    · rw [awaited, awaited, ih.1]

end Folds

namespace Unnoticed

variable {adds : Prop} {first : Bool} {kind : Option Kind} {entries entries' : List (String × Node)}
  {ending ending' : Ending}

/-- If all of the one can be read, so can all of the other; the texts among it are the same where texts are
asked for. -/
theorem exists_trees (unnoticed : Unnoticed adds first kind entries ending entries' ending')
    {trees : List (String × Tree)} (read : treesUpTo entries ending = .ok trees) :
    ∃ trees', treesUpTo entries' ending' = .ok trees' ∧
      (kind = none → textsAmong trees' = textsAmong trees) := by
  induction unnoticed generalizing trees with
  | ended =>
    cases read
    exact ⟨[], rfl, fun _ => rfl⟩
  | same => exact ⟨trees, read, fun _ => rfl⟩
  | leaf name value others ih =>
    rw [treesUpTo_cons] at read
    obtain ⟨tree, here, read⟩ := exists_of_bind_eq_ok read
    obtain ⟨rest, later, read⟩ := exists_of_bind_eq_ok read
    cases read
    obtain ⟨rest', later', texts⟩ := ih later
    refine ⟨(name, tree) :: rest', ?_, fun none => ?_⟩
    · rw [treesUpTo_cons, here, later']
      rfl
    · rw [textsAmong_cons, textsAmong_cons, texts none]
  | element name tags contents others inner ih =>
    rw [treesUpTo_cons, Node.tree_element] at read
    obtain ⟨tree, whole, read⟩ := exists_of_bind_eq_ok read
    obtain ⟨within, here, rfl⟩ := exists_of_map_eq_ok whole
    obtain ⟨rest, later, read⟩ := exists_of_bind_eq_ok read
    cases read
    obtain ⟨within', here', -⟩ := inner here
    obtain ⟨rest', later', texts⟩ := ih later
    refine ⟨(name, .element within') :: rest', ?_, fun none => ?_⟩
    · rw [treesUpTo_cons, Node.tree_element, here', later']
      rfl
    · rw [textsAmong_cons, textsAmong_cons, texts none]
      rfl
  | @added _ _ _ name _ _ _ _ _ allowed isKind unknown whole others ih =>
    obtain ⟨rest', later', -⟩ := ih read
    obtain ⟨tree, here⟩ := whole
    refine ⟨(name, tree) :: rest', ?_, fun none => ?_⟩
    · rw [treesUpTo_cons, here, later']
      rfl
    · rw [none] at isKind
      cases isKind
  | shuffled shuffled more ending =>
    rw [treesUpTo_attributes] at read ⊢
    obtain ⟨rest, later, rfl⟩ := exists_of_map_eq_ok read
    refine ⟨_, by rw [later]; rfl, fun none => ?_⟩
    rw [textsAmong_attributes shuffled.plain,
      textsAmong_attributes fun field mem => shuffled.plain field (shuffled.perm.mem_iff.2 mem)]

theorem isWhole {bare bare' : Bool} (unnoticed : Unnoticed adds first kind entries ending entries' ending')
    (whole : (Node.element bare entries ending).IsWhole) : (Node.element bare' entries' ending').IsWhole := by
  obtain ⟨trees, read⟩ := isWhole_element.1 whole
  obtain ⟨trees', read', -⟩ := unnoticed.exists_trees read
  exact isWhole_element.2 ⟨trees', read'⟩

theorem text_kept (unnoticed : Unnoticed adds first kind entries ending entries' ending')
    (none : kind = none) (found : Option String) :
    Kept True (textAmong found entries ending) (textAmong found entries' ending') := by
  induction unnoticed generalizing found with
  | ended => exact .refl _
  | same => exact .refl _
  | leaf name value others ih =>
    rw [textAmong_cons, textAmong_cons]
    split
    · cases found with
      | some text => exact .refl _
      | none => exact (Kept.bind (.refl _) fun text => ih none (some text)).mono fun _ => trivial
    · exact (Kept.bind (.refl _) fun _ => ih none found).mono fun _ => trivial
  | @element first kind name bare bare' tags inner inner' rest rest' within within' _ _ contents others
      inside ih =>
    -- Where texts are read no kind is known, so both have the same tags and the text within is kept too.
    have noKind : kind.bind (·.child name) = Option.none := by rw [none]; rfl
    rw [textAmong_cons, textAmong_cons]
    split
    · cases found with
      | some text => exact .refl _
      | none =>
        have texts : Kept True (Node.element bare inner within).text
            (Node.element bare' inner' within').text := by
          rw [← tags noKind]
          cases bare with
          | false => exact .error _ _
          | true => exact inside noKind Option.none
        exact (Kept.bind texts fun text => ih none (some text)).mono fun _ => trivial
    · -- What is no text must still be whole, for it is passed over.
      intro text read
      obtain ⟨tree, whole, read⟩ := exists_of_bind_eq_ok read
      obtain ⟨tree', whole'⟩ : (Node.element bare' inner' within').IsWhole := contents.isWhole ⟨tree, whole⟩
      rw [whole']
      exact ih none found text read
  | added allowed isKind =>
    rw [none] at isKind
    cases isKind
  | shuffled shuffled more ending =>
    rw [textAmong_attributes shuffled.plain,
      textAmong_attributes fun field mem => shuffled.plain field (shuffled.perm.mem_iff.2 mem)]
    exact .refl _

theorem skip_kept {bare bare' : Bool}
    (unnoticed : Unnoticed adds first kind entries ending entries' ending') :
    Kept True (Node.element bare entries ending).skip (Node.element bare' entries' ending').skip := by
  intro done read
  obtain ⟨tree, whole, -⟩ := exists_of_bind_eq_ok read
  obtain ⟨tree', whole'⟩ : (Node.element bare' entries' ending').IsWhole := unnoticed.isWhole ⟨tree, whole⟩
  refine ⟨trivial, ?_⟩
  rw [Node.skip, whole']
  rfl

theorem sameFor {bare bare' : Bool} (unnoticed : Unnoticed adds first kind entries ending entries' ending')
    (tags : kind = none → bare = bare') (reads : ∀ k, kind = some k →
      Kept True (k.read (.element bare entries ending)) (k.read (.element bare' entries' ending'))) :
    SameFor kind (.element bare entries ending) (.element bare' entries' ending') := by
  cases kind with
  | some k => exact ⟨unnoticed.skip_kept, reads k rfl⟩
  | none =>
    obtain rfl := tags rfl
    refine ⟨unnoticed.skip_kept, ?_, unnoticed.text_kept rfl none, ?_, fun chosen => ?_⟩
    · cases bare with
      | false => exact .error _ _
      | true => exact unnoticed.text_kept rfl none
    · intro comment read
      obtain ⟨trees, text, all, one, rfl⟩ := comment_element.1 read
      obtain ⟨trees', all', texts⟩ := unnoticed.exists_trees all
      exact ⟨trivial, comment_element.2 ⟨trees', text, all', (texts rfl).trans one, rfl⟩⟩
    · exact Kind.then_kept unnoticed.skip_kept _

/-- A reader comes through both of them with the same. -/
theorem go_kept (unnoticed : Unnoticed adds first kind entries ending entries' ending') :
    ∀ k, kind = some k → ∀ d d' : Content, d.ending = ending → d'.ending = ending' →
      (∀ s, (adds → ChoicesGivenAmong kind entries) →
        Kept True (Content.foldChoices.go k.step d s entries) (Content.foldChoices.go k.step d' s entries')) ∧
      (first = false → ¬adds → ∀ chosen,
        Kept True (awaited k.step d chosen entries) (awaited k.step d' chosen entries')) := by
  -- The second part is about a reader that waits for the name of what it has chosen. It passes over all else.
  induction unnoticed with
  | ended first kind left left' =>
    intro k isKind d d' ends ends'
    simp only [Content.foldChoices.go, awaited, ends, ends']
    exact ⟨fun s _ => .refl _, fun _ _ _ => .error _ _⟩
  | same first kind entries ending =>
    intro k isKind d d' ends ends'
    obtain ⟨goes, waits⟩ := go_eq_of_ending k.step (ends.trans ends'.symm) entries
    exact ⟨fun s _ => goes s ▸ .refl _, fun _ _ chosen => waits chosen ▸ .refl _⟩
  | leaf name value others ih =>
    intro k isKind d d' ends ends'
    obtain ⟨goes, -⟩ := ih k isKind d d' ends ends'
    refine ⟨fun s given => ?_, fun _ sole chosen => ?_⟩
    · rw [go_cons, go_cons]
      intro a read
      obtain ⟨r, taken, read⟩ := exists_of_bind_eq_ok read
      rw [taken]
      cases r with
      | next s => exact goes s (fun add => (given add).2.2) a read
      | choose chosen =>
        obtain ⟨-, _, _, _, same⟩ := Kind.element_of_choose taken
        cases same
    · rw [awaited, awaited]
      exact (Kept.bind (.refl _) fun _ => goes _ fun add => absurd add sole).mono fun _ => trivial
  | @element first kind name bare bare' tags inner inner' rest rest' within within' _ _ contents others
      inside ih =>
    intro k isKind d d' ends ends'
    obtain ⟨goes, waits⟩ := ih k isKind d d' ends ends'
    subst isKind
    have same (given : adds → ChoicesGivenAmong (k.child name) inner) :
        SameFor (k.child name) (.element bare inner within) (.element bare' inner' within') :=
      contents.sameFor tags fun k' isKind' =>
        (inside k' isKind' ⟨inner, within⟩ ⟨inner', within'⟩ rfl rfl).1 k'.start given
    refine ⟨fun s given => ?_, fun _ sole chosen => ?_⟩
    · rw [go_cons, go_cons]
      intro a read
      obtain ⟨r, taken, read⟩ := exists_of_bind_eq_ok read
      rw [(Kind.step_kept k s (same fun add => (given add).2.1) r taken).2]
      cases r with
      | next s => exact goes s (fun add => (given add).2.2) a read
      | choose chosen =>
        -- A choice is made by an element. Where something may be added, an attribute makes it instead.
        have choice := (Kind.element_of_choose taken).1
        refine waits rfl (fun add => ?_) chosen a read
        obtain ⟨value, leaf⟩ := (given add).1 choice
        cases leaf
    · rw [awaited, awaited]
      refine (Kept.bind contents.skip_kept fun _ => goes _ fun add => absurd add sole).mono fun _ => trivial
  | @added first kind k' name node rest rest' _ _ allowed isKind' unknown whole others ih =>
    intro k isKind d d' ends ends'
    obtain ⟨goes, -⟩ := ih k isKind d d' ends ends'
    obtain rfl : k' = k := Option.some.inj (isKind'.symm.trans isKind)
    refine ⟨fun s given a read => ?_, fun _ sole => absurd allowed sole⟩
    obtain ⟨tree, all⟩ := whole
    rw [go_cons, Kind.step_unknown k' unknown, passed, Node.skip, all]
    exact goes s given a read
  | @shuffled kind fields fields' shuffled more ending =>
    intro k isKind d d' ends ends'
    subst isKind
    refine ⟨fun s _ a read => ?_, fun sole => absurd sole (by decide)⟩
    -- The attributes are put in any order, and all else goes on from the same state.
    obtain ⟨s', all, read⟩ := go_attributes.1 read
    rw [(go_eq_of_ending k.step (ends.trans ends'.symm) more).1] at read
    exact ⟨trivial, go_attributes.2 ⟨s', (shuffled.putAll_eq s) ▸ all, read⟩⟩

theorem read_kept {k : Kind} {bare bare' : Bool}
    (unnoticed : Unnoticed adds first (some k) entries ending entries' ending')
    (given : adds → ChoicesGivenAmong (some k) entries) :
    Kept True (k.read (.element bare entries ending)) (k.read (.element bare' entries' ending')) :=
  (unnoticed.go_kept k rfl ⟨entries, ending⟩ ⟨entries', ending'⟩ rfl rfl).1 k.start given

end Unnoticed

end VulkanBindings.Registry
