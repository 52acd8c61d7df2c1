import VulkanBindings.Proofs.Xml.Blocks
import VulkanBindings.Proofs.Xml.Reading
import VulkanBindings.Proofs.Xml.Steps

/-! A document that renders an element is read as that element, however it is written down. -/

set_option autoImplicit false

namespace VulkanBindings.Xml

open Text (isBlank)
open Text.Utf8 (bytes)

section Trees

variable {name : String} {node : Node} {nodes more : List (String × Node)} {tree : Tree}
  {trees others : List (String × Tree)}

theorem treesOf_cons (first : node.tree = .ok tree) (rest : treesOf nodes = .ok trees) :
    treesOf ((name, node) :: nodes) = .ok ((name, tree) :: trees) := by
  rw [treesOf, first, rest]
  rfl

theorem exists_of_treesOf_cons (read : treesOf ((name, node) :: nodes) = .ok trees) :
    ∃ tree others, node.tree = .ok tree ∧ treesOf nodes = .ok others ∧ trees = (name, tree) :: others := by
  rw [treesOf] at read
  cases first : node.tree with
  | error e => rw [first] at read; cases read
  | ok tree =>
    cases rest : treesOf nodes with
    | error e => rw [first, rest] at read; cases read
    | ok others =>
      rw [first, rest] at read
      cases read
      exact ⟨tree, others, rfl, rfl, rfl⟩

theorem treesOf_append (first : treesOf nodes = .ok trees) (later : treesOf more = .ok others) :
    treesOf (nodes ++ more) = .ok (trees ++ others) := by
  induction nodes generalizing trees with
  | nil =>
    cases first
    exact later
  | cons entry nodes ih =>
    obtain ⟨tree, found, here, rest, rfl⟩ := exists_of_treesOf_cons first
    exact treesOf_cons here (ih rest)

theorem exists_of_treesOf_append (read : treesOf nodes = .ok (trees ++ others)) :
    ∃ front back, nodes = front ++ back ∧ treesOf front = .ok trees ∧ treesOf back = .ok others := by
  induction trees generalizing nodes with
  | nil => exact ⟨[], nodes, rfl, rfl, read⟩
  | cons entry trees ih =>
    cases nodes with
    | nil => cases read
    | cons first nodes =>
      obtain ⟨_, _, here, rest, same⟩ := exists_of_treesOf_cons read
      cases same
      obtain ⟨front, back, rfl, found, later⟩ := ih rest
      exact ⟨first :: front, back, rfl, treesOf_cons here found, later⟩

theorem exists_of_treesOf_singleton (read : treesOf nodes = .ok [(name, tree)]) :
    ∃ node, nodes = [(name, node)] ∧ node.tree = .ok tree := by
  cases nodes with
  | nil => cases read
  | cons entry nodes =>
    obtain ⟨tree', others, here, rest, same⟩ := exists_of_treesOf_cons read
    cases same
    cases nodes with
    | nil => exact ⟨entry.2, rfl, here⟩
    | cons entry nodes =>
      obtain ⟨_, _, -, -, same⟩ := exists_of_treesOf_cons rest
      cases same

theorem exists_of_tree_element {entries : List (String × Tree)}
    (tree : node.tree = .ok (.element entries)) :
    ∃ bare nodes left, node = .element bare nodes (.ok left) ∧ treesOf nodes = .ok entries := by
  cases node with
  | leaf value => cases found : value.text <;> rw [Node.tree, found] at tree <;> cases tree
  | element bare nodes ending =>
    cases trees : treesOf nodes with
    | error e => rw [Node.tree, trees] at tree; cases tree
    | ok entries' =>
      rw [Node.tree, trees] at tree
      cases ending with
      | error e => cases tree
      | ok left => cases tree; exact ⟨bare, nodes, left, rfl, trees⟩

theorem exists_content_of_tree {entries : List (String × Tree)} (read : node.tree = .ok (.element entries)) :
    ∃ c, node.content = .ok c := by
  obtain ⟨bare, nodes, left, rfl, -⟩ := exists_of_tree_element read
  exact ⟨_, rfl⟩

end Trees

/-- Whatever comes after them, the events put entries before it. -/
def Shows (events : List Event) (entries : List (String × Tree)) : Prop :=
  ∃ nodes, treesOf nodes = .ok entries ∧ ∀ failure (rests : Rests),
    events.foldr (Rests.before failure) rests =
      { rests with here := { rests.here with entries := nodes ++ rests.here.entries } }

namespace Shows

variable {events more : List Event} {entries others : List (String × Tree)}

theorem nil : Shows [] [] := ⟨[], rfl, fun _ _ => rfl⟩

theorem append (first : Shows events entries) (later : Shows more others) :
    Shows (events ++ more) (entries ++ others) := by
  obtain ⟨nodes, trees, adds⟩ := first
  obtain ⟨nodes', trees', adds'⟩ := later
  refine ⟨nodes ++ nodes', treesOf_append trees trees', fun failure rests => ?_⟩
  rw [List.foldr_append, adds', adds, List.append_assoc]

theorem leaf (name : String) (value : Leaf) {text : String} (reads : value.text = .ok text) :
    Shows [.leaf name value] [(name, .text text)] :=
  ⟨[(name, .leaf value)], by rw [treesOf, treesOf, Node.tree, reads]; rfl, fun _ _ => rfl⟩

theorem element (name : String) (bare : Bool) (left : Nat) (inner : Shows events entries) :
    Shows (.opened name bare :: (events ++ [.closed left])) [(name, .element entries)] := by
  obtain ⟨nodes, trees, adds⟩ := inner
  refine ⟨[(name, .element bare nodes (.ok left))], ?_, fun failure rests => ?_⟩
  · rw [treesOf, treesOf, Node.tree, trees]
    rfl
  · rw [List.foldr_cons, List.foldr_append, adds]
    simp [Rests.before, Content.cons]

end Shows

theorem Spaces.isBlank {spaces : List Char} (blank : Spaces spaces) : ∀ c ∈ spaces, isBlank c :=
  fun c mem => (blank c mem).isBlank

section Tags

variable {name : String} {attributes : List (String × String)} {inner : List Char}

theorem InTag.scans (inTag : InTag False attributes inner) :
    ∃ events spaces, Shows events (attributeEntries attributes) ∧ Spaces spaces ∧
      ∀ stack after, Scans ⟨true, stack, inner ++ after⟩ events ⟨true, stack, spaces ++ after⟩ := by
  induction inTag with
  | @done spaces blank => exact ⟨[], spaces, .nil, blank, fun _ _ => .refl _⟩
  | @cons name value rest before left right written more separate isName plain equals spells trimmed
      others ih =>
    obtain ⟨events, spaces, shown, blank, scans⟩ := ih
    have visible : ∀ c ∈ name.toList.head?, isBlank c = false := fun c head =>
      visible_of_part (isName.parts c (List.mem_of_mem_head? head))
        fun same => plain not_false (same ▸ head)
    have meant : Scanner.meant written = value := by
      rw [meant_eq spells trimmed, String.ofList_toList]
    refine ⟨_, spaces, (Shows.leaf name (.attribute (.ok value)) rfl).append shown, blank,
      fun stack after => ?_⟩
    have first := Scans.ofAttribute stack (more ++ after) separate.isBlank isName visible equals
      (spells.not_mem (.inr rfl))
    rw [meant, String.ofList_toList] at first
    simpa using first.trans (scans stack after)

theorem InTag.of_cons {c : Char} (inTag : InTag False attributes (c :: inner)) (space : IsSpace c) :
    InTag False attributes inner := by
  generalize written : c :: inner = text at inTag
  cases inTag with
  | done blank =>
    subst written
    exact .done (List.forall_mem_cons.1 blank).2
  | @cons name _ _ before _ _ _ _ separate isName plain equals spells trimmed others =>
    cases before with
    | nil =>
      generalize name.toList = chars at written isName
      cases isName with
      | mk start parts =>
        obtain ⟨rfl, -⟩ := List.cons.inj written
        exact absurd space (ne_of_part ((IsName.mk start parts).parts _ List.mem_cons_self)).2.2.2.2.2
    | cons d before =>
      obtain ⟨rfl, rfl⟩ := List.cons.inj written
      exact .cons (List.forall_mem_cons.1 separate).2 isName plain equals spells trimmed others

theorem InTag.of_nil (inTag : InTag False attributes []) : attributes = [] := by
  generalize written : [] = text at inTag
  cases inTag with
  | done => rfl
  | cons => simp at written

theorem ne_of_isSpace {c : Char} (space : IsSpace c) : c ≠ '>' ∧ c ≠ '/' := by
  constructor <;> (rintro rfl; exact absurd space (by decide))

theorem InTag.scans_tag {c : Char} (inTag : InTag False attributes inner) (isName : IsName name.toList)
    (space : IsSpace c) :
    ∃ events spaces, Shows events (attributeEntries attributes) ∧ Spaces spaces ∧
      ∀ lead stack after, Spaces lead →
        Scans ⟨false, stack, lead ++ '<' :: (name.toList ++ c :: (inner ++ after))⟩
          (.opened name false :: events) ⟨true, name :: stack, spaces ++ after⟩ := by
  obtain ⟨events, spaces, shown, blank, scans⟩ := inTag.scans
  refine ⟨events, spaces, shown, blank, fun lead stack after blankLead => ?_⟩
  have opening := Scans.ofOpening stack (inner ++ after) blankLead.isBlank isName (.inl space)
  have ⟨notEnd, notSlash⟩ := ne_of_isSpace space
  simp only [notEnd, notSlash, String.ofList_toList, decide_false, ne_eq, not_false_eq_true,
    decide_true, if_false] at opening
  exact opening.trans (scans _ _)

theorem IsTag.scans_content (tag : IsTag False name attributes inner) :
    ∃ events bare, Shows events (attributeEntries attributes) ∧ ∀ lead stack after, Spaces lead →
      Scans ⟨false, stack, lead ++ '<' :: (name.toList ++ inner ++ '>' :: after)⟩
        (.opened name bare :: events) ⟨false, name :: stack, after⟩ := by
  obtain ⟨isName, inTag, apart⟩ := tag
  cases inner with
  | nil =>
    cases inTag.of_nil
    refine ⟨[], true, .nil, fun lead stack after blank => ?_⟩
    have opening := Scans.ofOpening stack after blank.isBlank isName (.inr (.inl rfl))
    rw [String.ofList_toList] at opening
    simpa using opening
  | cons c inner =>
    have space : IsSpace c := apart c rfl
    obtain ⟨events, spaces, shown, blank, scans⟩ := (inTag.of_cons space).scans_tag isName space
    refine ⟨events, false, shown, fun lead stack after blankLead => ?_⟩
    have ending := Scans.ofTagEnd (name :: stack) after blank.isBlank
    simpa using (scans lead stack _ blankLead).trans ending

theorem IsTag.scans_closed (tag : IsTag False name attributes inner) :
    ∃ events, Shows events (attributeEntries attributes) ∧ ∀ lead stack after, Spaces lead →
      Scans ⟨false, stack, lead ++ '<' :: (name.toList ++ inner ++ '/' :: '>' :: after)⟩
        (.opened name false :: (events ++ [.closed (bytes after).length])) ⟨false, stack, after⟩ := by
  obtain ⟨isName, inTag, apart⟩ := tag
  cases inner with
  | nil =>
    cases inTag.of_nil
    refine ⟨[], .nil, fun lead stack after blank => ?_⟩
    have opening := Scans.ofOpening stack ('>' :: after) blank.isBlank isName (.inr (.inr rfl))
    rw [String.ofList_toList] at opening
    have ending := Scans.ofSelfClosing (name :: stack) after (List.forall_mem_nil _)
    simpa using opening.trans ending
  | cons c inner =>
    have space : IsSpace c := apart c rfl
    obtain ⟨events, spaces, shown, blank, scans⟩ := (inTag.of_cons space).scans_tag isName space
    refine ⟨events, shown, fun lead stack after blankLead => ?_⟩
    have ending := Scans.ofSelfClosing (name :: stack) after blank.isBlank
    simpa using (scans lead stack _ blankLead).trans ending

end Tags

/-- What is scanned of a text between tags, before the bracket of a tag. The white space at its end
may be left to be read. -/
def ScansAs (entries : List (String × Tree)) (written : List Char) : Prop :=
  ∀ lead stack after, Spaces lead → ∃ events spaces, Shows events entries ∧ Spaces spaces ∧
    Scans ⟨false, stack, lead ++ written ++ '<' :: after⟩ events ⟨false, stack, spaces ++ '<' :: after⟩

def ScansElement (entry : String × Tree) (written : List Char) : Prop :=
  ∀ lead stack after, Spaces lead → ∃ events, Shows events [entry] ∧
    Scans ⟨false, stack, lead ++ written ++ after⟩ events ⟨false, stack, after⟩

section Elements

variable {name : String} {attributes : List (String × String)} {inner : List Char}

theorem IsTag.scansElement_closed (tag : IsTag False name attributes inner) :
    ScansElement (Piece.element name attributes []).entry ('<' :: name.toList ++ inner ++ ['/', '>']) := by
  obtain ⟨events, shown, scans⟩ := tag.scans_closed
  intro lead stack after blank
  have entry : (Piece.element name attributes []).entry =
      (name, .element (attributeEntries attributes)) := by
    simp [Piece.entry, entriesOf]
  rw [entry]
  exact ⟨_, shown.element name false (bytes after).length, by simpa using scans lead stack after blank⟩

theorem IsTag.scansElement {body : List Piece} {lead written closing : List Char}
    (tag : IsTag False name attributes inner) (blank : Spaces lead) (plain : spaceMark ∉ name.toList)
    (blanks : Spaces closing) (content : ScansAs (entriesOf body) written) :
    ScansElement (Piece.element name attributes body).entry
      ('<' :: name.toList ++ inner ++ '>' :: lead ++ written ++
        '<' :: '/' :: name.toList ++ closing ++ ['>']) := by
  obtain ⟨events, bare, shown, scans⟩ := tag.scans_content
  intro before stack after blankBefore
  obtain ⟨events', spaces, shown', blankAfter, scans'⟩ := content lead (name :: stack)
    ('/' :: (name.toList ++ closing ++ '>' :: after)) blank
  have visible : ∀ c ∈ name.toList, isBlank c = false := fun c mem =>
    visible_of_part (tag.isName.parts c mem) fun same => plain (same ▸ mem)
  refine ⟨_, (shown.append shown').element name bare (bytes after).length, ?_⟩
  have opening := scans before stack (lead ++ written ++ '<' :: '/' ::
    (name.toList ++ closing ++ '>' :: after)) blankBefore
  have ending := Scans.ofClosing stack after blankAfter.isBlank tag.isName visible blanks.isBlank
  rw [String.ofList_toList] at ending
  simpa using opening.trans (scans'.trans ending)

end Elements

theorem Writes.exists_less {rest : List Piece} {more : List Char} (writes : Writes False rest more)
    (apart : ∀ next ∈ rest.head?, next.isText = false) (after : List Char) :
    ∃ tail, more ++ '<' :: after = '<' :: tail := by
  cases writes with
  | nil => exact ⟨after, rfl⟩
  | text => exact absurd (apart _ rfl) (by simp [Piece.isText])
  | selfClosed => simp
  | closed => simp

theorem ScansElement.cons {entry : String × Tree} {entries : List (String × Tree)}
    {written spaces more : List Char} (first : ScansElement entry written) (blank : Spaces spaces)
    (rest : ScansAs entries more) : ScansAs (entry :: entries) (written ++ spaces ++ more) := by
  intro lead stack after blankLead
  obtain ⟨events, shown, scans⟩ := first lead stack (spaces ++ more ++ '<' :: after) blankLead
  obtain ⟨events', left, shown', blankLeft, scans'⟩ := rest spaces stack after blank
  exact ⟨_, left, shown.append shown', blankLeft, by simpa using scans.trans scans'⟩

theorem Writes.scansAs {pieces : List Piece} {written : List Char} (writes : Writes False pieces written) :
    ScansAs (entriesOf pieces) written := by
  induction writes with
  | nil => exact fun lead stack after blank => ⟨[], lead, .nil, blank, by simpa using .refl _⟩
  | @text value rest written spaces more filled spells trimmed blank apart others ih =>
    intro lead stack after blankLead
    obtain ⟨tail, following⟩ := others.exists_less apart after
    obtain ⟨events, left, shown, blankLeft, scans⟩ := ih [] stack after (List.forall_mem_nil _)
    have nonempty : value.toList ≠ [] := by simpa using filled
    obtain ⟨first, more', rfl⟩ := List.exists_cons_of_ne_nil (spells.ne_nil nonempty)
    have notLess := spells.not_mem (.inl rfl)
    have none : '<' ∉ more' ++ spaces := by
      have apart : '<' ∉ spaces := fun mem => absurd (blank _ mem) (by decide)
      simp_all
    have reads := Scans.ofText stack tail blankLead.isBlank (trimmed.first first rfl)
      (fun same => notLess (same ▸ List.mem_cons_self)) none
    have meant : Scanner.meant (first :: (more' ++ spaces)) = value := by
      rw [← List.cons_append, meant_append spells trimmed blank.isBlank, String.ofList_toList]
    rw [meant] at reads
    rw [entriesOf]
    refine ⟨_, left, (Shows.leaf textName (.body (.ok value)) rfl).append shown, blankLeft, ?_⟩
    rw [List.nil_append, following] at scans
    simpa [following] using reads.trans scans
  | selfClosed tag blank others ih =>
    rw [entriesOf]
    simpa using tag.scansElement_closed.cons blank ih
  | closed tag blank within plain blanks others inside ih =>
    rw [entriesOf]
    simpa using (tag.scansElement blank (plain not_false) blanks.1 inside).cons blanks.2 ih

theorem Writes.exists_root {name : String} {attributes : List (String × String)} {body : List Piece}
    {written : List Char} (writes : Writes False [.element name attributes body] written) :
    ∃ front after, written = '<' :: (front ++ after) ∧
      ScansElement (Piece.element name attributes body).entry ('<' :: front) := by
  cases writes with
  | @selfClosed _ _ _ _ spaces _ tag blank others =>
    cases others
    exact ⟨_, spaces, by simp, tag.scansElement_closed⟩
  | @closed _ _ _ _ _ _ _ _ spaces _ tag blank within plain blanks others =>
    cases others
    exact ⟨_, spaces, by simp, tag.scansElement blank (plain not_false) blanks.1 within.scansAs⟩

theorem ScansElement.exists_root {name : String} {tree : Tree} {lead written after : List Char}
    {input : Input} (scans : ScansElement (name, tree) written) (blank : Spaces lead)
    (delivers : Input.Delivers False input (lead ++ written ++ after)) :
    ∃ node, (Content.ofInput input).root = .ok node ∧ node.tree = .ok tree := by
  obtain ⟨events, ⟨nodes, trees, adds⟩, scans⟩ := scans lead [] after blank
  obtain ⟨later, reads, -⟩ := scans input delivers
  obtain ⟨rest, collected⟩ := reads.collect_eq (Nat.lt_succ_self _)
  obtain ⟨node, rfl, read⟩ := exists_of_treesOf_singleton trees
  refine ⟨node, ?_, read⟩
  have found : Events.ofInput input = ⟨events ++ rest.list, rest.failure⟩ := collected
  rw [Content.ofInput, found, Content.ofEvents, List.foldr_append, adds]
  rfl

theorem unmarkedText_rendered {mark lead rest : List Char} (marks : mark = [] ∨ mark = ['\uFEFF'])
    (blank : Spaces lead) : Input.unmarkedText (mark ++ (lead ++ '<' :: rest)) = lead ++ '<' :: rest := by
  obtain rfl | rfl := marks
  · refine Input.unmarkedText_eq_self ?_
    cases lead with
    | nil => simp
    | cons c lead =>
      have space := blank c List.mem_cons_self
      rintro ⟨⟩
      exact absurd space (by decide)
  · rfl

theorem exists_root_of_renders {name document : String} {attributes : List (String × String)}
    {body : List Piece} (renders : Renders False (.element name attributes body) document) :
    ∃ node, (delivered document none).root = .ok node ∧
      node.tree = .ok (.element (attributeEntries attributes ++ entriesOf body)) := by
  obtain ⟨mark, lead, written, marks, blank, writes, whole⟩ := renders
  obtain ⟨front, after, rfl, scans⟩ := writes.exists_root
  have delivers := Input.ofBytes_delivers document.toList
  rw [← Text.Utf8.encode_eq_bytes, whole, List.append_assoc, unmarkedText_rendered marks blank]
    at delivers
  exact scans.exists_root blank (by simpa using delivers)

/-- A document that renders an element is read as the entries of that element, in their order. -/
theorem readDocument_renders {name document : String} {attributes : List (String × String)}
    {body : List Piece} (renders : Renders False (.element name attributes body) document) :
    Shape.any.readDocument (delivered document none) =
      .ok (.tree (.element (attributeEntries attributes ++ entriesOf body))) := by
  obtain ⟨node, root, tree⟩ := exists_root_of_renders renders
  obtain ⟨c, content⟩ := exists_content_of_tree tree
  rw [Shape.readDocument_any, root]
  dsimp only [bind, Except.bind]
  rw [content]
  dsimp only
  rw [tree]
  rfl

def letter : String := "\uFEFF <a x = \"&amp;\">&#x3c; <b/></a >"

theorem letter_renders :
    Renders False (.element "a" [("x", "&")] [.text "<", .element "b" [] []]) letter := by
  have isName : IsName ['a'] ∧ IsName ['b'] ∧ IsName ['x'] :=
    ⟨.mk (by decide) (List.forall_mem_nil _), .mk (by decide) (List.forall_mem_nil _),
      .mk (by decide) (List.forall_mem_nil _)⟩
  have number : Reference.Numeral 16 ['3', 'c'] '<'.toNat :=
    .more (.one (⟨by decide, .inl rfl⟩ : Reference.IsDigit 16 '3' 3))
      (⟨by decide, .inl rfl⟩ : Reference.IsDigit 16 'c' 12)
  have less : Spells '<' ['<'] ['&', '#', 'x', '3', 'c', ';'] := .reference (.hexadecimal number) .nil
  have ampersand : Spells '"' ['&'] ['&', 'a', 'm', 'p', ';'] :=
    .reference (.predefined (.head _ : ("amp", '&') ∈ Reference.predefined)) .nil
  have trimmed (name : List Char) : IsTrimmed ('&' :: name ++ [';']) :=
    ⟨by rintro _ ⟨⟩; rfl, by rw [List.getLast?_concat]; rintro _ ⟨⟩; rfl⟩
  have blank : Spaces [' '] ∧ Spaces [] := by decide
  have inTag : InTag False [("x", "&")] _ :=
    .cons blank.1 isName.2.2 (by decide) ⟨blank.1, blank.1⟩ ampersand (trimmed ['a', 'm', 'p'])
      (.done blank.2)
  have child : Writes False [.element "b" [] []] _ :=
    .selfClosed ⟨isName.2.1, .done blank.2, nofun⟩ blank.2 .nil
  have body : Writes False [.text "<", .element "b" [] []] _ :=
    .text (by decide) less (trimmed ['#', 'x', '3', 'c']) blank.1 (by rintro _ ⟨⟩; rfl) child
  have tag : IsTag False "a" [("x", "&")] _ := ⟨isName.1, inTag, by rintro _ ⟨⟩; decide⟩
  exact ⟨_, [' '], _, .inr rfl, blank.1, .closed tag blank.2 body (by decide) ⟨blank.1, blank.2⟩ .nil, rfl⟩

theorem letter_read :
    Renders False (.element "a" [("x", "&")] [.text "<", .element "b" [] []]) letter ∧
      Shape.any.readDocument (delivered letter none) = .ok (.tree (.element
        [("x", .text "&"), (textName, .text "<"), ("b", .element [])])) :=
  ⟨letter_renders, readDocument_renders letter_renders⟩

-- White space is passed over in a closing tag and before the name of an attribute, the mark too.
theorem marked_not_read :
    (Renders True (.element "a\u1680" [] []) "<a\u1680></a\u1680>" ∧
      Shape.any.readDocument (delivered "<a\u1680></a\u1680>" none) =
        .error (.closingTag "a" (some "a\u1680"))) ∧
    (Renders True (.element "a" [("\u1680b", "1")] []) "<a \u1680b=\"1\"/>" ∧
      Shape.any.readDocument (delivered "<a \u1680b=\"1\"/>" none) =
        .ok (.tree (.element [("b", .text "1")]))) := by
  have blank : Spaces [' '] ∧ Spaces [] := by decide
  have closed : IsTag True "a\u1680" [] [] :=
    ⟨.mk (by decide) (List.forall_mem_singleton.2 (by decide)), .done blank.2, nofun⟩
  have value : Spells '"' ['1'] ['1'] := .plain (by decide) (by decide) .nil
  have trimmed : IsTrimmed ['1'] := ⟨by rintro _ ⟨⟩; rfl, by rintro _ ⟨⟩; rfl⟩
  have inTag : InTag True [("\u1680b", "1")] _ :=
    .cons blank.1 (.mk (by decide) (List.forall_mem_singleton.2 (by decide))) (by decide)
      ⟨blank.2, blank.2⟩ value trimmed (.done blank.2)
  have selfClosed : IsTag True "a" [("\u1680b", "1")] _ :=
    ⟨.mk (by decide) (List.forall_mem_nil _), inTag, by rintro _ ⟨⟩; decide⟩
  exact ⟨⟨⟨_, [], _, .inl rfl, blank.2, .closed closed blank.2 .nil (by decide) ⟨blank.2, blank.2⟩ .nil,
      rfl⟩, rfl⟩,
    ⟨⟨_, [], _, .inl rfl, blank.2, .selfClosed selfClosed blank.2 .nil, rfl⟩, rfl⟩⟩

end VulkanBindings.Xml
