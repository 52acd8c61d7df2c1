import VulkanBindings.Proofs.Registry.Blocks
import VulkanBindings.Proofs.Registry.Extent
import VulkanBindings.Proofs.Xml.Walks

/-! What is kept of the texts in declarations: those of an element itself, one after the other, and
nothing of what stands in its children. -/

set_option autoImplicit false

namespace VulkanBindings

open Xml (Node Piece Adds Walks Error textName)

section Steps

variable {name : String} {node : Node}

theorem Member.adds {s s' : Option String × Member} (taken : step s name node = .ok s')
    (plain : name = "enum" → ∃ value, node = .leaf value) :
    Adds (· ++ ·) textName Node.text name node s.2.raw s'.2.raw := by
  unfold step at taken
  dsimp only at taken
  split at taken
  case h_4 =>
    obtain ⟨value, rfl⟩ := plain rfl
    obtain ⟨text, found, -⟩ := Xml.exists_of_bind_eq_ok taken
    exact absurd found (Xml.bodyText_leaf value text)
  all_goals
    obtain ⟨b, found, same⟩ := Xml.exists_of_bind_eq_ok taken
    cases same
    first
      | exact .same (by decide)
      | exact .more found
      | exact .same ‹name = "$value" → False›

theorem TypeDecl.category_of_choose {s : Option String × TypeDecl}
    {chosen : String → Option String × TypeDecl}
    (taken : step s name node = .ok (.choose chosen)) :
    name = "category" ∧ ∀ value, node ≠ .leaf value := by
  unfold step at taken
  dsimp only at taken
  split at taken
  case h_2 =>
    refine ⟨rfl, fun value same => ?_⟩
    subst same
    obtain ⟨text, -, same⟩ := Xml.exists_of_bind_eq_ok taken
    cases same
  case h_15 =>
    obtain ⟨_, -, same⟩ := Xml.exists_of_map_eq_ok taken
    cases same
  all_goals
    obtain ⟨_, -, same⟩ := Xml.exists_of_bind_eq_ok taken
    cases same

theorem TypeDecl.adds {s s' : Option String × TypeDecl} (taken : step s name node = .ok (.next s')) :
    Adds (· ++ ·) textName Node.text name node s.2.raw s'.2.raw ∧
      Adds (· ++ [·]) "type" Node.bodyText name node s.2.typeTags s'.2.typeTags ∧
      Adds (· ++ [·]) "member" Member.ofNode name node s.2.members s'.2.members := by
  unfold step at taken
  dsimp only at taken
  split at taken
  case h_2 =>
    cases node with
    | leaf value =>
      obtain ⟨text, -, same⟩ := Xml.exists_of_bind_eq_ok taken
      cases same
      exact ⟨.same (by decide), .same (by decide), .same (by decide)⟩
    | element bare entries ending =>
      obtain ⟨_, -, same⟩ := Xml.exists_of_bind_eq_ok taken
      cases same
  case h_15 =>
    obtain ⟨_, passes, same⟩ := Xml.exists_of_map_eq_ok taken
    obtain ⟨_, -, rest⟩ := Xml.exists_of_bind_eq_ok passes
    cases same
    cases rest
    exact ⟨.same ‹name = "$value" → False›, .same ‹name = "type" → False›, .same ‹name = "member" → False›⟩
  all_goals
    obtain ⟨b, found, same⟩ := Xml.exists_of_bind_eq_ok taken
    cases same
    refine ⟨?_, ?_, ?_⟩ <;> first | exact .same (by decide) | exact .more found

theorem Prototype.adds {s s' : Option String × Prototype} (taken : step s name node = .ok s') :
    Adds (· ++ ·) textName Node.text name node s.2.raw s'.2.raw := by
  unfold step at taken
  dsimp only at taken
  split at taken
  all_goals
    obtain ⟨b, found, same⟩ := Xml.exists_of_bind_eq_ok taken
    cases same
    first
      | exact .same (by decide)
      | exact .more found
      | exact .same ‹name = "$value" → False›

theorem Parameter.adds {s s' : Option String × Parameter} (taken : step s name node = .ok s') :
    Adds (· ++ ·) textName Node.text name node s.2.raw s'.2.raw := by
  unfold step at taken
  dsimp only at taken
  split at taken
  all_goals
    obtain ⟨b, found, same⟩ := Xml.exists_of_bind_eq_ok taken
    cases same
    first
      | exact .same (by decide)
      | exact .more found
      | exact .same ‹name = "$value" → False›

theorem Command.adds {s s' : Option Prototype × Command} (taken : step s name node = .ok s') :
    Adds (fun _ proto => some proto) "proto" Prototype.ofNode name node s.1 s'.1 ∧
      Adds (· ++ [·]) "param" Parameter.ofNode name node s.2.params s'.2.params := by
  unfold step at taken
  dsimp only at taken
  split at taken
  case h_9 =>
    obtain ⟨_, -, same⟩ := Xml.exists_of_bind_eq_ok taken
    cases same
    exact ⟨.same ‹name = "proto" → False›, .same ‹name = "param" → False›⟩
  all_goals
    obtain ⟨b, found, same⟩ := Xml.exists_of_bind_eq_ok taken
    cases same
    refine ⟨?_, ?_⟩ <;> first | exact .same (by decide) | exact .more found

theorem Registry.adds {r r' : Registry} (taken : step r name node = .ok r') :
    Adds (· ++ ·) "types" (Node.children "type" TypeDecl.ofNode) name node r.types r'.types ∧
      Adds (· ++ ·) "commands" (Node.children "command" Command.ofNode) name node r.commands
        r'.commands := by
  unfold step at taken
  split at taken
  case h_8 =>
    obtain ⟨_, -, same⟩ := Xml.exists_of_bind_eq_ok taken
    cases same
    exact ⟨.same ‹name = "types" → False›, .same ‹name = "commands" → False›⟩
  all_goals
    obtain ⟨b, found, same⟩ := Xml.exists_of_bind_eq_ok taken
    cases same
    refine ⟨?_, ?_⟩ <;> first | exact .same (by decide) | exact .more found

end Steps

section Kept

/-- What a type keeps of its declaration: its own texts, the types that it names, and members that keep
their own texts, as long as no constant is among them. -/
structure TypeDecl.Keeps (piece : Piece) (t : TypeDecl) : Prop where
  raw : t.raw = piece.ownText
  typeTags : t.typeTags = (piece.children "type").map Piece.ownText
  members : List.Forall₂ (fun piece (m : Member) => piece.children "enum" = [] → m.raw = piece.ownText)
    (piece.children "member") t.members

/-- What a command keeps of its declaration: the own texts of the last prototype and of all parameters. -/
structure Command.Keeps (piece : Piece) (c : Command) : Prop where
  proto : ∀ proto ∈ (piece.children "proto").getLast?, c.proto.raw = proto.ownText
  params : List.Forall₂ (fun piece (p : Parameter) => p.raw = piece.ownText) (piece.children "param") c.params

variable {piece : Piece}

section Leaves

variable (value : Xml.Leaf)

theorem Member.ofNode_leaf (m : Member) : ofNode (.leaf value) ≠ .ok m := by cases value <;> nofun

theorem TypeDecl.ofNode_leaf (t : TypeDecl) : ofNode (.leaf value) ≠ .ok t := by cases value <;> nofun

theorem Prototype.ofNode_leaf (p : Prototype) : ofNode (.leaf value) ≠ .ok p := by cases value <;> nofun

theorem Parameter.ofNode_leaf (p : Parameter) : ofNode (.leaf value) ≠ .ok p := by cases value <;> nofun

theorem Command.ofNode_leaf (c : Command) : ofNode (.leaf value) ≠ .ok c := by cases value <;> nofun

end Leaves

theorem Member.keeps_raw {m : Member} (named : piece.IsNamed) (found : piece.ReadAs ofNode m)
    (plain : piece.children "enum" = []) : m.raw = piece.ownText := by
  obtain ⟨bare, nodes, left, trees, found⟩ := found.exists_element (ofNode_leaf · m)
  obtain ⟨⟨given, m'⟩, walk, found⟩ := Xml.exists_of_bind_eq_ok found
  obtain ⟨_, -, same⟩ := Xml.exists_of_bind_eq_ok found
  cases same
  exact (Walks.of_fold trees walk).ownText (fun s => s.2.raw) named rfl
    fun s name node s' mem taken => adds taken fun isEnum => by
      subst isEnum
      exact Xml.exists_leaf trees plain (by decide) mem

theorem Prototype.keeps_raw {p : Prototype} (named : piece.IsNamed) (found : piece.ReadAs ofNode p) :
    p.raw = piece.ownText := by
  obtain ⟨bare, nodes, left, trees, found⟩ := found.exists_element (ofNode_leaf · p)
  obtain ⟨⟨given, p'⟩, walk, found⟩ := Xml.exists_of_bind_eq_ok found
  obtain ⟨_, -, same⟩ := Xml.exists_of_bind_eq_ok found
  cases same
  exact (Walks.of_fold trees walk).ownText (fun s => s.2.raw) named rfl fun _ _ _ _ _ taken => adds taken

theorem Parameter.keeps_raw {p : Parameter} (named : piece.IsNamed) (found : piece.ReadAs ofNode p) :
    p.raw = piece.ownText := by
  obtain ⟨bare, nodes, left, trees, found⟩ := found.exists_element (ofNode_leaf · p)
  obtain ⟨⟨given, p'⟩, walk, found⟩ := Xml.exists_of_bind_eq_ok found
  obtain ⟨_, -, same⟩ := Xml.exists_of_bind_eq_ok found
  cases same
  exact (Walks.of_fold trees walk).ownText (fun s => s.2.raw) named rfl fun _ _ _ _ _ taken => adds taken

theorem TypeDecl.keeps {t : TypeDecl} (named : piece.IsNamed) (found : piece.ReadAs ofNode t)
    (plain : piece.children "category" = []) : Keeps piece t := by
  obtain ⟨bare, nodes, left, trees, found⟩ := found.exists_element (ofNode_leaf · t)
  obtain ⟨content, inner, found⟩ := Xml.exists_of_bind_eq_ok found
  cases inner
  obtain ⟨⟨given, t'⟩, walk, found⟩ := Xml.exists_of_bind_eq_ok found
  obtain ⟨_, -, same⟩ := Xml.exists_of_bind_eq_ok found
  cases same
  have walks : Walks (fun s name node s' => step s name node = .ok (.next s')) piece nodes
      (none, {}) (given, t') := by
    refine ⟨trees, .of_foldChoices (fun s name node taken mem here => ?_) walk⟩
    cases taken with
    | next s' => exact ⟨s', rfl, here⟩
    | choose chosen =>
      obtain ⟨rfl, notLeaf⟩ := category_of_choose here
      obtain ⟨value, leaf⟩ := Xml.exists_leaf trees plain (by decide) mem
      exact absurd leaf (notLeaf value)
  have raw := walks.ownText (fun s => s.2.raw) named rfl fun _ _ _ _ _ taken => (adds taken).1
  have tags := walks.each_child (fun s => s.2.typeTags) named rfl
    (fun _ _ _ _ taken => (adds taken).2.1) Xml.bodyText_leaf (by decide)
    fun isNamed found => (isNamed.ownText_eq found).symm
  have members := walks.each_child (fun s => s.2.members) named rfl
    (fun _ _ _ _ taken => (adds taken).2.2) Member.ofNode_leaf (by decide) Member.keeps_raw
  rw [← List.forall₂_map_left_iff, List.forall₂_eq_eq_eq] at tags
  exact { raw, typeTags := tags.symm, members }

theorem Command.keeps {c : Command} (named : piece.IsNamed) (found : piece.ReadAs ofNode c) :
    Keeps piece c := by
  obtain ⟨bare, nodes, left, trees, found⟩ := found.exists_element (ofNode_leaf · c)
  obtain ⟨⟨proto, c'⟩, walk, found⟩ := Xml.exists_of_bind_eq_ok found
  have walks := Walks.of_fold trees walk
  have last := walks.last_child Prod.fst named rfl (fun _ _ _ _ taken => (adds taken).1)
    Prototype.ofNode_leaf (by decide) Prototype.keeps_raw
  have params := walks.each_child (fun s => s.2.params) named rfl
    (fun _ _ _ _ taken => (adds taken).2) Parameter.ofNode_leaf (by decide) Parameter.keeps_raw
  cases proto with
  | some p =>
    cases found
    refine ⟨fun child mem => ?_, params⟩
    rw [Option.mem_def.1 mem] at last
    cases last with
    | some raw => exact raw
  | none =>
    dsimp only at found
    split at found <;> cases found
    refine ⟨fun child mem => ?_, params⟩
    rw [Option.mem_def.1 mem] at last
    cases last

/-- What a registry keeps of a document: all declarations of types without an element for their category,
and all those of commands. -/
structure Registry.Keeps (root : Piece) (r : Registry) : Prop where
  types : List.Forall₂ (fun piece t => piece.children "category" = [] → TypeDecl.Keeps piece t)
    ((root.children "types").flatMap (·.children "type")) r.types
  commands : List.Forall₂ Command.Keeps ((root.children "commands").flatMap (·.children "command"))
    r.commands

theorem Registry.keeps {r : Registry} (named : piece.IsNamed)
    (found : piece.ReadAs (Node.fold step {}) r) : Keeps piece r := by
  obtain ⟨bare, nodes, left, trees, found⟩ := found.exists_element fun value => by cases value <;> nofun
  have walks := Walks.of_fold trees found
  exact {
    types := walks.each_grandchild types named rfl
      (fun _ _ _ _ taken => (adds taken).1) (by decide) TypeDecl.ofNode_leaf (by decide) TypeDecl.keeps
    commands := walks.each_grandchild commands named rfl
      (fun _ _ _ _ taken => (adds taken).2) (by decide) Command.ofNode_leaf (by decide) Command.keeps }

/-- A registry keeps of every declaration in its document its own texts, in their order and as they are
meant, and nothing of the tags, attributes and bodies of its children. -/
theorem Registry.keeps_ownTexts {name document : String} {attributes : List (String × String)}
    {body : List Piece} {size : Option Nat} {r : Registry} (large : ∀ n ∈ size, 4 ≤ n)
    (isDocument : Xml.IsDocument False (.element name attributes body) document)
    (found : ofDocument (Xml.delivered document size) = .ok r) :
    Keeps (.element name attributes body) r := by
  have whole : ofDocument (Xml.delivered document none) = .ok r := by
    cases size with
    | none => exact found
    | some n =>
      have alike := ofDocument_alike (Xml.delivered_alike document (large n rfl))
      rw [found] at alike
      generalize ofDocument (Xml.delivered document none) = read at alike ⊢
      cases alike with
      | ok same => rw [same]
  obtain ⟨_, node, last, root, reads⟩ := ofDocument_takesRoot.exists_readsElement whole
  have tree := isDocument.tree reads
  have taken : node.fold step {} = .ok r := by
    change ((Xml.delivered document none).root >>= fun node => node.fold step {}) = .ok r at whole
    rwa [show (Xml.delivered document none).root = .ok node from root] at whole
  exact keeps isDocument.isNamed ⟨node, tree, taken⟩

end Kept

section Documents

open Xml (Markup Labels IsDocument IsWord)

section Tags

variable {marked : Prop} {pieces : List Piece} {more : List Char}

theorem Xml.Markup.bare {name : String} {body : List Piece} {written : List Char} (word : IsWord name)
    (within : Markup marked body written) (others : Markup marked pieces more) :
    Markup marked (.element name [] body :: pieces)
      ('<' :: name.toList ++ '>' :: written ++ '<' :: '/' :: name.toList ++ '>' :: more) := by
  simpa using Markup.closed [] word.isName .none within (List.forall_mem_nil _) others

theorem Xml.Markup.letter {name : String} (word : IsWord name) (c : Char) (visible : Text.isBlank c = false)
    (notLess : c ≠ '<') (others : Markup marked pieces more) :
    Markup marked (.element name [] [.text (Xml.Scanner.meant [c])] :: pieces)
      ('<' :: name.toList ++ '>' :: ([c] ++ []) ++ '<' :: '/' :: name.toList ++ '>' :: more) :=
  .bare word (.text [c] ⟨c, by simp, visible⟩ (by simpa using notLess.symm) (by simp) .nil) others

end Tags

def knots : String :=
  "<r><types><type>int <type>k</type><name>K</name> &amp;</type></types><commands><command><proto>* " ++
    "<name>f</name></proto><param a=\">\">*<x>*</x><!--*-->[]<name>x</name></param></command></commands></r>"

def knotted : Piece :=
  .element "r" [] [
    .element "types" [] [.element "type" [] [.text "int", .element "type" [] [.text "k"],
      .element "name" [] [.text "K"], .text "&"]],
    .element "commands" [] [.element "command" [] [
      .element "proto" [] [.text "*", .element "name" [] [.text "f"]],
      .element "param" [("a", ">")] [.text "*", .element "x" [] [.text "*"], .text "[]",
        .element "name" [] [.text "x"]]]]]

theorem knots_isDocument : IsDocument False knotted knots := by
  have type : Markup False [.element "type" [] [.text "int", .element "type" [] [.text "k"],
      .element "name" [] [.text "K"], .text "&"]] _ :=
    .bare (by decide) (.text ['i', 'n', 't', ' '] ⟨'i', by decide, rfl⟩ (by decide) (by simp)
      (.letter (by decide) 'k' rfl (by decide) (.letter (by decide) 'K' rfl (by decide)
        (.text [' ', '&', 'a', 'm', 'p', ';'] ⟨'&', by decide, rfl⟩ (by decide) (by simp) .nil)))) .nil
  have labels : Labels False [("a", ">")] _ :=
    .some ' ' (by decide) (.assign "a" [] [] [] ['>'] (by decide) (IsWord.isName (by decide)) (by decide)
      (by decide) (.inl rfl) (by decide) (.done [] (by decide)))
  have param : Markup False [.element "param" [("a", ">")] [.text "*", .element "x" [] [.text "*"],
      .text "[]", .element "name" [] [.text "x"]]] _ :=
    .closed [] (IsWord.isName (by decide)) labels
      (.text ['*'] ⟨'*', by decide, rfl⟩ (by decide) (by simp) (.letter (by decide) '*' rfl (by decide)
        (.remark (.comment ['*']) (by decide) (by decide)
          (.text ['[', ']'] ⟨'[', by decide, rfl⟩ (by decide) (by simp)
            (.letter (by decide) 'x' rfl (by decide) .nil))))) (by decide) .nil
  have command : Markup False [.element "command" [] [
      .element "proto" [] [.text "*", .element "name" [] [.text "f"]], _]] _ :=
    .bare (by decide) (.bare (by decide) (.text ['*', ' '] ⟨'*', by decide, rfl⟩ (by decide) (by simp)
      (.letter (by decide) 'f' rfl (by decide) .nil)) param) .nil
  have spelled : knots.toList = _ :=
    String.toList_append.trans (congrArg₂ (· ++ ·) String.toList_ofList String.toList_ofList)
  exact ⟨[], _, .inl rfl, .bare (by decide) (.bare (by decide) type
    (.bare (by decide) command .nil)) .nil, spelled⟩

def knotsRead : Registry where
  types := [{ name := "K", typeTags := ["k"], raw := "int&" }]
  commands := [{ proto := { name := "f", raw := "*" }, params := [{ name := "x", raw := "*[]" }] }]

theorem knots_kept : (∀ n ∈ some 16, 4 ≤ n) ∧ IsDocument False knotted knots ∧
    Registry.ofDocument (Xml.delivered knots (some 16)) = .ok knotsRead ∧
    Registry.Keeps knotted knotsRead := by
  have large : ∀ n ∈ some 16, 4 ≤ n := by rintro _ ⟨⟩; decide
  have found : Registry.ofDocument (Xml.delivered knots (some 16)) = .ok knotsRead := by decide +kernel
  exact ⟨large, knots_isDocument, found, Registry.keeps_ownTexts large knots_isDocument found⟩

def tangle : String :=
  "<r><commands><command><proto><name>f</name></proto>" ++
    "<param \u1680=\"a =\" b=\">*\"><name>x</name></param></command></commands></r>"

def tangledParameter : Piece :=
  .element "param" [("\u1680", "a ="), ("b", ">*")] [.element "name" [] [.text "x"]]

def tangled : Piece :=
  .element "r" [] [.element "commands" [] [.element "command" [] [
    .element "proto" [] [.element "name" [] [.text "f"]], tangledParameter]]]

def tangleRead : Registry where
  commands := [{ proto := { name := "f" }, params := [{ name := "x", raw := "*\">" }] }]

theorem tangle_isDocument : IsDocument True tangled tangle := by
  have labels : Labels True [("\u1680", "a ="), ("b", ">*")] _ :=
    .some ' ' (by decide) (.assign "\u1680" [] [] [] ['a', ' ', '='] (by decide)
      (.mk (by decide) (List.forall_mem_nil _)) (by decide) (by decide) (.inl rfl) (by decide)
      (.assign "b" [' '] [] [] ['>', '*'] (by decide) (IsWord.isName (by decide)) (by decide) (by decide)
        (.inl rfl) (by decide) (.done [] (by decide))))
  have param : Markup True [tangledParameter] _ :=
    .closed [] (IsWord.isName (by decide)) labels (.letter (by decide) 'x' rfl (by decide) .nil)
      (by decide) .nil
  have command : Markup True [.element "command" [] [
      .element "proto" [] [.element "name" [] [.text "f"]], tangledParameter]] _ :=
    .bare (by decide) (.bare (by decide) (.letter (by decide) 'f' rfl (by decide) .nil) param) .nil
  have spelled : tangle.toList = _ :=
    String.toList_append.trans (congrArg₂ (· ++ ·) String.toList_ofList String.toList_ofList)
  exact ⟨[], _, .inl rfl, .bare (by decide) (.bare (by decide) command .nil) .nil, spelled⟩

/-- Behind an attribute whose name begins with a space mark, a value can get into the texts. -/
theorem tangle_not_kept : IsDocument True tangled tangle ∧
    Registry.ofDocument (Xml.delivered tangle none) = .ok tangleRead ∧
    tangledParameter.ownText = "" ∧ ¬Registry.Keeps tangled tangleRead := by
  refine ⟨tangle_isDocument, by decide +kernel, by decide, fun keeps => ?_⟩
  obtain _ | ⟨command, -⟩ := keeps.commands
  obtain _ | ⟨raw, -⟩ := command.params
  exact absurd raw (by decide)

end Documents

end VulkanBindings
