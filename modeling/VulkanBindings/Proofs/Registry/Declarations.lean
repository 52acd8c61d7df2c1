import VulkanBindings.Proofs.Xml.Folding
import VulkanBindings.Registry.Reader
import VulkanBindings.Spelling.Glossary

/-! Members of structures and parameters of commands are declared alike: texts, a type, a name and
names of constants, in any order. Two readers read them, and only that of members keeps the
constants. -/

set_option autoImplicit false

namespace VulkanBindings

open Xml (Node Tree Piece Error Content IsWord Spaces Writes Renders required present attributeEntries
  entriesOf treesOf textName)

section Declarations

inductive Part where
  | text (value : String)
  | type (value : String)
  | name (value : String)
  | constant (value : String)
  deriving DecidableEq, Repr

structure Declaration where
  len : Option String := none
  parts : List Part
  deriving DecidableEq, Repr

def bodyOf (text : String) : List Piece := if text = "" then [] else [.text text]

def Part.piece : Part → Piece
  | .text value => .text value
  | .type value => .element "type" [] (bodyOf value)
  | .name value => .element "name" [] (bodyOf value)
  | .constant value => .element "enum" [] (bodyOf value)

def Declaration.piece (tag : String) (d : Declaration) : Piece :=
  .element tag (present [("len", d.len)]) (d.parts.map Part.piece)

/-- What members and parameters have in common. -/
structure Described where
  name : String
  typeName : String
  len : Option String
  raw : String
  deriving DecidableEq, Repr

def Member.described (m : Member) : Described := ⟨m.name, m.typeName, m.len, m.raw⟩

def Parameter.described (p : Parameter) : Described := ⟨p.name, p.typeName, p.len, p.raw⟩

namespace Part

def typeName? : Part → Option String
  | .type value => some value
  | _ => none

def name? : Part → Option String
  | .name value => some value
  | _ => none

def isConstant : Part → Bool
  | .constant _ => true
  | _ => false

def shown (keepsConstants : Bool) : Part → String
  | .text value => value
  | .constant value => if keepsConstants then value else ""
  | _ => ""

/-- The part is an element whose text is looked for, and it has none. -/
def isHollow (keepsConstants : Bool) : Part → Bool
  | .text _ => false
  | .type value | .name value => value = ""
  | .constant value => keepsConstants && value = ""

end Part

/-- What is read of a declaration: the last type and the last name, and the texts in their order,
those of constants among them if they are kept. -/
def Declaration.read (keepsConstants : Bool) (d : Declaration) : Except Error Described :=
  if d.parts.any (·.isHollow keepsConstants) then .error (.missingField textName)
  else do
    let name ← required "name" (d.parts.filterMap Part.name?).getLast?
    return {
      name, len := d.len
      typeName := (d.parts.filterMap Part.typeName?).getLast?.getD ""
      raw := String.join (d.parts.map (·.shown keepsConstants)) }

end Declarations

section Readers

structure Seen where
  name : Option String := none
  typeName : String := ""
  len : Option String := none
  raw : String := ""

def filled (text : String) : Except Error String :=
  if text = "" then .error (.missingField textName) else .ok text

def Part.add (keepsConstants : Bool) (s : Seen) (part : Part) : Seen where
  name := part.name?.or s.name
  typeName := part.typeName?.getD s.typeName
  len := s.len
  raw := s.raw ++ part.shown keepsConstants

section Added

variable (keepsConstants : Bool) (s : Seen) (value : String)

@[simp]
theorem Part.add_type : (Part.type value).add keepsConstants s = { s with typeName := value } := by
  simp [Part.add, Part.name?, Part.typeName?, Part.shown]

@[simp]
theorem Part.add_name : (Part.name value).add keepsConstants s = { s with name := some value } := by
  simp [Part.add, Part.name?, Part.typeName?, Part.shown]

@[simp]
theorem Part.add_constant : (Part.constant value).add keepsConstants s =
    { s with raw := s.raw ++ if keepsConstants then value else "" } := rfl

end Added

def Part.read (keepsConstants : Bool) (s : Seen) (part : Part) : Except Error Seen :=
  if part.isHollow keepsConstants then .error (.missingField textName)
  else .ok (part.add keepsConstants s)

theorem bodyText_eq {node : Node} {text : String}
    (tree : node.tree = .ok (.element (entriesOf (bodyOf text)))) : node.bodyText = filled text := by
  obtain ⟨bare, nodes, left, rfl, trees⟩ := Xml.exists_of_tree_element tree
  change Xml.textAmong none nodes (.ok left) = filled text
  unfold bodyOf at trees
  unfold filled
  split
  · next empty =>
    rw [if_pos empty] at trees
    cases nodes with
    | nil => rfl
    | cons entry nodes =>
      obtain ⟨_, _, -, -, same⟩ := Xml.exists_of_treesOf_cons trees
      cases same
  · next some =>
    rw [if_neg some] at trees
    obtain ⟨leaf, rfl, here⟩ := Xml.exists_of_treesOf_singleton trees
    rw [Xml.textAmong_cons, if_pos rfl]
    dsimp only
    rw [Xml.reads_text text leaf here]
    rfl

section Fold

variable {σ : Type} {step : σ → String → Node → Except Error σ} {view : σ → Seen} {keepsConstants : Bool}

theorem view_foldlM (reads : ∀ s (part : Part) node, node.tree = .ok part.piece.entry.2 →
      view <$> step s part.piece.entry.1 node = part.read keepsConstants (view s))
    {parts : List Part} {nodes : List (String × Node)}
    (trees : treesOf nodes = .ok (entriesOf (parts.map Part.piece))) (s : σ) :
    view <$> nodes.foldlM (fun s e => step s e.1 e.2) s =
      parts.foldlM (fun s part => part.read keepsConstants s) (view s) := by
  induction parts generalizing nodes s with
  | nil =>
    cases nodes with
    | nil => rfl
    | cons entry nodes =>
      obtain ⟨_, _, -, -, same⟩ := Xml.exists_of_treesOf_cons trees
      cases same
  | cons part parts ih =>
    cases nodes with
    | nil => cases trees
    | cons entry nodes =>
      obtain ⟨tree, others, first, rest, same⟩ := Xml.exists_of_treesOf_cons trees
      obtain ⟨called, rfl⟩ := List.cons.inj same
      have here := reads s part entry.2 (by rw [called]; exact first)
      rw [called] at here
      rw [List.foldlM_cons, List.foldlM_cons, ← here]
      cases step s entry.1 entry.2 with
      | error e => rfl
      | ok s => exact ih rest s

theorem view_fold (reads : ∀ s (part : Part) node, node.tree = .ok part.piece.entry.2 →
      view <$> step s part.piece.entry.1 node = part.read keepsConstants (view s))
    (readsLen : ∀ s node text, node.tree = .ok (.text text) →
      view <$> step s "len" node = .ok { view s with len := some text })
    {d : Declaration} {tag : String} {node : Node} (tree : node.tree = .ok (d.piece tag).entry.2) {s : σ}
    (fresh : view s = {}) :
    view <$> node.fold step s =
      d.parts.foldlM (fun s part => part.read keepsConstants s) { len := d.len } := by
  obtain ⟨bare, nodes, left, rfl, trees⟩ := Xml.exists_of_tree_element tree
  obtain ⟨front, back, rfl, first, rest⟩ := Xml.exists_of_treesOf_append trees
  have whole : (Node.element bare (front ++ back) (.ok left)).fold step s =
      (front ++ back).foldlM (fun s e => step s e.1 e.2) s := by
    change Content.fold step s ⟨front ++ back, .ok left⟩ = _
    rw [Xml.Content.fold_eq]
    cases (front ++ back).foldlM (fun s e => step s e.1 e.2) s <;> rfl
  rw [whole, List.foldlM_append]
  cases len : d.len with
  | none =>
    rw [len] at first
    cases front with
    | nil => exact (view_foldlM reads rest s).trans (by rw [fresh])
    | cons entry front =>
      obtain ⟨_, _, -, -, same⟩ := Xml.exists_of_treesOf_cons first
      cases same
  | some text =>
    rw [len] at first
    obtain ⟨leaf, rfl, here⟩ := Xml.exists_of_treesOf_singleton first
    obtain ⟨s', found, seen⟩ := Xml.exists_of_map_eq_ok (readsLen s leaf text here)
    rw [List.foldlM_cons, found]
    exact (view_foldlM reads rest s').trans (by rw [← seen, fresh])

end Fold

theorem read_parts (keepsConstants : Bool) (parts : List Part) (s : Seen) :
    parts.foldlM (fun s part => part.read keepsConstants s) s =
      if parts.any (·.isHollow keepsConstants) then .error (.missingField textName)
      else .ok {
        s with
        name := (parts.filterMap Part.name?).getLast?.or s.name
        typeName := (parts.filterMap Part.typeName?).getLast?.getD s.typeName
        raw := s.raw ++ String.join (parts.map (·.shown keepsConstants)) } := by
  induction parts generalizing s with
  | nil => simp [pure, Except.pure]
  | cons part parts ih =>
    rw [List.foldlM_cons, Part.read, List.any_cons]
    cases part.isHollow keepsConstants with
    | true => rfl
    | false =>
      change List.foldlM _ (part.add keepsConstants s) parts = _
      simpa [Part.add, String.append_assoc, Option.or_assoc] using ih (part.add keepsConstants s)

def Seen.finish (s : Seen) : Except Error Described := do
  return ⟨← required "name" s.name, s.typeName, s.len, s.raw⟩

theorem finish_parts (keepsConstants : Bool) (d : Declaration) :
    (d.parts.foldlM (fun s part => part.read keepsConstants s) { len := d.len } >>= Seen.finish) =
      d.read keepsConstants := by
  rw [read_parts, Declaration.read]
  split
  · rfl
  · change Seen.finish _ = _
    simp [Seen.finish]

def Member.seen (s : Option String × Member) : Seen := ⟨s.1, s.2.typeName, s.2.len, s.2.raw⟩

def Parameter.seen (s : Option String × Parameter) : Seen := ⟨s.1, s.2.typeName, s.2.len, s.2.raw⟩

theorem Part.read_filled {σ : Type} {view : σ → Seen} {f : String → σ} {keepsConstants : Bool} {s : Seen}
    {part : Part} {value : String} (looksFor : part.isHollow keepsConstants = decide (value = ""))
    (adds : view (f value) = part.add keepsConstants s) :
    view <$> (filled value >>= fun text => pure (f text)) = part.read keepsConstants s := by
  rw [Part.read, looksFor, filled]
  by_cases empty : value = ""
  · simp [empty]
  · simp [empty, adds]

theorem Member.read_part (s : Option String × Member) (part : Part) (node : Node)
    (tree : node.tree = .ok part.piece.entry.2) :
    Member.seen <$> Member.step s part.piece.entry.1 node = part.read true (Member.seen s) := by
  cases part with
  | text value =>
    have text : node.text = .ok value := Xml.reads_text value node tree
    change Member.seen <$> Member.step s "$value" node = _
    rw [Member.step, text]
    rfl
  | type value =>
    change Member.seen <$> Member.step s "type" node = _
    rw [Member.step, bodyText_eq tree]
    exact Part.read_filled rfl (by simp [Member.seen])
  | name value =>
    change Member.seen <$> Member.step s "name" node = _
    rw [Member.step, bodyText_eq tree]
    exact Part.read_filled rfl (by simp [Member.seen])
  | constant value =>
    change Member.seen <$> Member.step s "enum" node = _
    rw [Member.step, bodyText_eq tree]
    exact Part.read_filled rfl (by simp [Member.seen])

theorem Parameter.read_part (s : Option String × Parameter) (part : Part) (node : Node)
    (tree : node.tree = .ok part.piece.entry.2) :
    Parameter.seen <$> Parameter.step s part.piece.entry.1 node = part.read false (Parameter.seen s) := by
  cases part with
  | text value =>
    have text : node.text = .ok value := Xml.reads_text value node tree
    change Parameter.seen <$> Parameter.step s "$value" node = _
    rw [Parameter.step, text]
    rfl
  | type value =>
    change Parameter.seen <$> Parameter.step s "type" node = _
    rw [Parameter.step, bodyText_eq tree]
    exact Part.read_filled rfl (by simp [Parameter.seen])
  | name value =>
    change Parameter.seen <$> Parameter.step s "name" node = _
    rw [Parameter.step, bodyText_eq tree]
    exact Part.read_filled rfl (by simp [Parameter.seen])
  | constant value =>
    -- The element is passed over.
    change Parameter.seen <$> passed s node = _
    rw [passed, Node.skip, tree]
    simp [Part.read, Part.isHollow]

theorem Member.described_ofNode {d : Declaration} {tag : String} {node : Node}
    (tree : node.tree = .ok (d.piece tag).entry.2) :
    Member.described <$> Member.ofNode node = d.read true := by
  have readsLen (s : Option String × Member) (node : Node) (text : String)
      (tree : node.tree = .ok (.text text)) :
      Member.seen <$> Member.step s "len" node = .ok { Member.seen s with len := some text } := by
    rw [Member.step, Xml.reads_text text node tree]
    rfl
  have seen : Member.seen <$> node.fold Member.step (none, {}) = _ :=
    view_fold Member.read_part readsLen tree rfl
  rw [← finish_parts, ← seen, Member.ofNode]
  cases node.fold Member.step (none, {}) with
  | error e => rfl
  | ok s => obtain ⟨_ | name, m⟩ := s <;> rfl

theorem Parameter.described_ofNode {d : Declaration} {tag : String} {node : Node}
    (tree : node.tree = .ok (d.piece tag).entry.2) :
    Parameter.described <$> Parameter.ofNode node = d.read false := by
  have readsLen (s : Option String × Parameter) (node : Node) (text : String)
      (tree : node.tree = .ok (.text text)) :
      Parameter.seen <$> Parameter.step s "len" node = .ok { Parameter.seen s with len := some text } := by
    rw [Parameter.step, Xml.reads_text text node tree]
    rfl
  have seen : Parameter.seen <$> node.fold Parameter.step (none, {}) = _ :=
    view_fold Parameter.read_part readsLen tree rfl
  rw [← finish_parts, ← seen, Parameter.ofNode]
  cases node.fold Parameter.step (none, {}) with
  | error e => rfl
  | ok s => obtain ⟨_ | name, p⟩ := s <;> rfl

end Readers

section Agreement

variable {d : Declaration} {parts : List Part} {x y : Described}

theorem read_without_constants (none : ∀ part ∈ d.parts, part.isConstant = false) :
    d.read true = d.read false := by
  have same (part : Part) (mem : part ∈ d.parts) :
      part.isHollow true = part.isHollow false ∧ part.shown true = part.shown false := by
    have other := none part mem
    cases part with
    | constant value => cases other
    | _ => exact ⟨rfl, rfl⟩
  have hollow : d.parts.any (·.isHollow true) = d.parts.any (·.isHollow false) := by
    rw [Bool.eq_iff_iff, List.any_eq_true, List.any_eq_true]
    exact exists_congr fun part => and_congr_right fun mem => by rw [(same part mem).1]
  have shown : d.parts.map (·.shown true) = d.parts.map (·.shown false) :=
    List.map_congr_left fun part mem => (same part mem).2
  rw [Declaration.read, Declaration.read, hollow, shown]

theorem exists_of_read_eq_ok {keepsConstants : Bool} (read : d.read keepsConstants = .ok x) :
    (∀ part ∈ d.parts, part.isHollow keepsConstants = false) ∧
      ∃ name, (d.parts.filterMap Part.name?).getLast? = some name ∧
        x = ⟨name, (d.parts.filterMap Part.typeName?).getLast?.getD "", d.len,
          String.join (d.parts.map (·.shown keepsConstants))⟩ := by
  unfold Declaration.read at read
  split at read
  · cases read
  · next solid =>
    obtain ⟨name, found, same⟩ := Xml.exists_of_bind_eq_ok read
    cases same
    refine ⟨by simpa using solid, name, ?_, rfl⟩
    unfold required at found
    split at found <;> cases found
    assumption

theorem Part.length_shown {part : Part} (solid : part.isHollow true = false) :
    (part.shown false).length + (if part.isConstant then 1 else 0) ≤ (part.shown true).length := by
  cases part with
  | constant value =>
    have long : value.length ≠ 0 := by simpa [Part.isHollow] using solid
    exact Nat.pos_of_ne_zero long
  | _ => exact Nat.le_refl _

/-- Every constant that is there makes a difference. -/
theorem length_shown (solid : ∀ part ∈ parts, part.isHollow true = false) :
    (String.join (parts.map (·.shown false))).length + parts.countP (·.isConstant) ≤
      (String.join (parts.map (·.shown true))).length := by
  induction parts with
  | nil => exact Nat.le_refl _
  | cons part parts ih =>
    obtain ⟨here, later⟩ := List.forall_mem_cons.1 solid
    have first := Part.length_shown here
    have rest := ih later
    rw [List.map_cons, List.map_cons, String.join_cons, String.join_cons, String.length_append,
      String.length_append, List.countP_cons]
    omega

theorem shown_eq_iff (solid : ∀ part ∈ parts, part.isHollow true = false) :
    String.join (parts.map (·.shown true)) = String.join (parts.map (·.shown false)) ↔
      ∀ part ∈ parts, part.isConstant = false := by
  constructor
  · intro same
    have length := length_shown solid
    rw [same] at length
    have none : parts.countP (·.isConstant) = 0 := by omega
    simpa using List.countP_eq_zero.1 none
  · intro none
    refine congrArg String.join (List.map_congr_left fun part mem => ?_)
    have other := none part mem
    cases part with
    | constant value => cases other
    | _ => rfl

/-- A member and a parameter that are declared alike are read alike, but for the constants among the
texts: those of a member are kept, and those of a parameter are not. Without constants they are the
same and have the same type. -/
theorem declarations_read_alike (d : Declaration) {tag tag' : String} {node node' : Node}
    (member : node.tree = .ok (d.piece tag).entry.2)
    (parameter : node'.tree = .ok (d.piece tag').entry.2) :
    Member.described <$> Member.ofNode node = d.read true ∧
      Parameter.described <$> Parameter.ofNode node' = d.read false ∧
      ((∀ part ∈ d.parts, part.isConstant = false) →
        Member.described <$> Member.ofNode node = Parameter.described <$> Parameter.ofNode node') ∧
      ∀ m p, Member.ofNode node = .ok m → Parameter.ofNode node' = .ok p →
        m.name = p.name ∧ m.typeName = p.typeName ∧ m.len = p.len ∧
        (m.raw = p.raw ↔ ∀ part ∈ d.parts, part.isConstant = false) ∧
        ((∀ part ∈ d.parts, part.isConstant = false) → ∀ glossary : Glossary,
          glossary.memberType m.typeName m.len m.raw = glossary.memberType p.typeName p.len p.raw) := by
  have readMember := Member.described_ofNode member
  have readParameter := Parameter.described_ofNode parameter
  refine ⟨readMember, readParameter, fun none => ?_, fun m p found found' => ?_⟩
  · rw [readMember, readParameter, read_without_constants none]
  · rw [found] at readMember
    rw [found'] at readParameter
    obtain ⟨solid, name, last, same⟩ := exists_of_read_eq_ok readMember.symm
    obtain ⟨-, name', last', same'⟩ := exists_of_read_eq_ok readParameter.symm
    obtain rfl : name = name' := Option.some.inj (last.symm.trans last')
    cases m
    cases p
    cases same
    cases same'
    have raws := shown_eq_iff solid
    exact ⟨rfl, rfl, rfl, raws, fun none glossary => congrArg (glossary.memberType _ _) (raws.2 none)⟩

theorem Declaration.exists_tree {d : Declaration} {tag document : String}
    (renders : Renders False (d.piece tag) document) :
    ∃ node, (Xml.delivered document none).root = .ok node ∧ node.tree = .ok (d.piece tag).entry.2 :=
  Xml.exists_root_of_renders renders

def sails : Declaration :=
  ⟨some "sailCount", [.text "const", .type "VkSail", .text "*", .name "pSails"]⟩

def sailsMember : String :=
  "<member len=\"sailCount\">const <type>VkSail</type>* <name>pSails</name></member>"

def sailsParameter : String :=
  "<param len=\"sailCount\">const <type>VkSail</type>* <name>pSails</name></param>"

theorem sails_rendered : Renders False (sails.piece "member") sailsMember ∧
    Renders False (sails.piece "param") sailsParameter := by
  have blank : Spaces [' '] ∧ Spaces [] := by decide
  have name : Writes False [.element "name" [] [.text "pSails"]] _ :=
    .tagged (by decide) nofun (.texted (by decide) blank.2 nofun .nil) .nil
  have star : Writes False (.text "*" :: _) _ :=
    .texted (by decide) blank.1 (by rintro _ ⟨⟩; rfl) name
  have type : Writes False (.element "type" [] [.text "VkSail"] :: _) _ :=
    .tagged (by decide) nofun (.texted (by decide) blank.2 nofun .nil) star
  have body : Writes False (sails.parts.map Part.piece) _ :=
    .texted (by decide) blank.1 (by rintro _ ⟨⟩; rfl) type
  have len : ∀ field ∈ [("len", "sailCount")], IsWord field.1 := by decide
  exact ⟨⟨[], [], _, .inl rfl, blank.2, .tagged (by decide) len body .nil, by decide +kernel⟩,
    ⟨[], [], _, .inl rfl, blank.2, .tagged (by decide) len body .nil, by decide +kernel⟩⟩

theorem sails_read_alike :
    ∃ node node', (Xml.delivered sailsMember none).root = .ok node ∧
      (Xml.delivered sailsParameter none).root = .ok node' ∧
      Member.described <$> Member.ofNode node = .ok ⟨"pSails", "VkSail", "sailCount", "const*"⟩ ∧
      Parameter.described <$> Parameter.ofNode node' = .ok ⟨"pSails", "VkSail", "sailCount", "const*"⟩ := by
  obtain ⟨node, root, member⟩ := Declaration.exists_tree sails_rendered.1
  obtain ⟨node', root', parameter⟩ := Declaration.exists_tree sails_rendered.2
  have alike := declarations_read_alike sails member parameter
  exact ⟨node, node', root, root', alike.1, alike.2.1⟩

def hold : Declaration :=
  ⟨none, [.type "uint32_t", .name "hold", .text "[", .constant "VK_HOLD_SIZE", .text "]"]⟩

def holdText : String :=
  "<param><type>uint32_t</type><name>hold</name>[<enum>VK_HOLD_SIZE</enum>]</param>"

theorem hold_rendered : Renders False (hold.piece "param") holdText := by
  have blank : Spaces [] := List.forall_mem_nil _
  have closing : Writes False [.text "]"] _ := .texted (by decide) blank nofun .nil
  have size : Writes False (.element "enum" [] [.text "VK_HOLD_SIZE"] :: _) _ :=
    .tagged (by decide) nofun (.texted (by decide) blank nofun .nil) closing
  have opening : Writes False (.text "[" :: _) _ :=
    .texted (by decide) blank (by rintro _ ⟨⟩; rfl) size
  have name : Writes False (.element "name" [] [.text "hold"] :: _) _ :=
    .tagged (by decide) nofun (.texted (by decide) blank nofun .nil) opening
  have body : Writes False (hold.parts.map Part.piece) _ :=
    .tagged (by decide) nofun (.texted (by decide) blank nofun .nil) name
  exact ⟨[], [], _, .inl rfl, blank, .tagged (by decide) nofun body .nil, by decide +kernel⟩

theorem hold_not_alike :
    ((Xml.delivered holdText none).root >>= Node.tree) = .ok (hold.piece "param").entry.2 ∧
      ((Xml.delivered holdText none).root >>= fun node => Member.described <$> Member.ofNode node) =
        .ok ⟨"hold", "uint32_t", none, "[VK_HOLD_SIZE]"⟩ ∧
      ((Xml.delivered holdText none).root >>= fun node => Parameter.described <$> Parameter.ofNode node) =
        .ok ⟨"hold", "uint32_t", none, "[]"⟩ ∧
      (Glossary.ofScalars []).memberType "uint32_t" none "[VK_HOLD_SIZE]" ≠
        (Glossary.ofScalars []).memberType "uint32_t" none "[]" := by
  obtain ⟨node, root, tree⟩ := Declaration.exists_tree hold_rendered
  refine ⟨?_, by decide +kernel, by decide +kernel, by decide +kernel⟩
  rw [root]
  exact tree

end Agreement

end VulkanBindings
