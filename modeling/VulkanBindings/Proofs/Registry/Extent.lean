import VulkanBindings.Proofs.Registry.Comparison
import VulkanBindings.Proofs.Xml.Prefix
import VulkanBindings.Proofs.Xml.Reading

/-! How much of a document is read. A document that comes at once is read up to the end of its root, be
it as whatever it says or as a registry: no byte after that is looked at, and none before can be left
out. What is read depends on the tree of entries alone. -/

set_option autoImplicit false

namespace VulkanBindings

namespace Xml

variable {α : Type}

/-- A reader that takes the root of a document whole, and gives what depends on nothing but that which
can be read of it. -/
structure TakesRoot (read : Content → Except Error α) : Prop where
  element : ∀ {c : Content} {a : α}, read c = .ok a →
    ∃ bare entries ending, c.root = .ok (.element bare entries ending)
  kept : ∀ {c c' : Content} {node node' : Node}, c.root = .ok node → c'.root = .ok node' →
    node.KeptBy node' → Kept node.IsWhole (read c) (read c')

theorem TakesRoot.of_eq {read : Content → Except Error α} {f : Node → Content → Except Error α}
    (reads : ∀ c, read c = c.root >>= fun node => node.content >>= f node)
    (kept : ∀ {node node' : Node}, node.KeptBy node' →
      Kept node.IsWhole (node.content >>= f node) (node'.content >>= f node')) : TakesRoot read where
  element {c a} found := by
    rw [reads] at found
    obtain ⟨node, root, found⟩ := exists_of_bind_eq_ok found
    obtain ⟨content, inner, -⟩ := exists_of_bind_eq_ok found
    cases node with
    | leaf value => obtain _ | _ | _ := value <;> cases inner
    | element bare entries ending => exact ⟨_, _, _, root⟩
  kept {c c' node node'} root root' nodes := by
    rw [reads, reads, root, root']
    exact kept nodes

namespace Shape

theorem any_takesRoot : TakesRoot any.readDocument :=
  .of_eq readDocument_any fun nodes =>
    Kept.comparison.contentThen nodes (Agreement.map (Kept.comparison.tree nodes) Value.tree)

theorem readDocument_ignored (c : Content) : ignored.readDocument c =
    c.root >>= fun node => node.content >>= fun _ => (fun _ => Value.ignored) <$> node.skip := by
  rw [readDocument, read]
  obtain ⟨_ | ⟨⟨name, node⟩, rest⟩, ending⟩ := c
  · cases ending <;> rfl
  · simp [ignoredValue, Read.descend, Read.value, Cursor.start]
    rfl

theorem ignored_takesRoot : TakesRoot ignored.readDocument :=
  .of_eq readDocument_ignored fun nodes =>
    Kept.comparison.contentThen nodes (Agreement.map (Kept.comparison.skip nodes) _)

theorem exists_of_readDocument_any {c : Content} {value : Value} (found : any.readDocument c = .ok value) :
    ∃ node tree, c.root = .ok node ∧ node.tree = .ok tree ∧ value = .tree tree := by
  rw [readDocument_any] at found
  obtain ⟨node, root, found⟩ := exists_of_bind_eq_ok found
  obtain ⟨-, -, found⟩ := exists_of_bind_eq_ok found
  obtain ⟨tree, read, rfl⟩ := exists_of_map_eq_ok found
  exact ⟨node, tree, root, read, rfl⟩

end Shape

end Xml

namespace Registry

open Xml (Kept TakesRoot)

theorem ofDocument_takesRoot : TakesRoot ofDocument :=
  .of_eq (fun _ => rfl) (ofRoot_agrees (c := Kept.comparison))

end Registry

namespace Xml

/-- The root of the document ends with its first `n` bytes. -/
def EndsAfter (n : Nat) (document : List UInt8) : Prop :=
  ∃ bare entries left, (received document none).root = .ok (.element bare entries (.ok left)) ∧
    n + left = document.length

/-- The reader takes the first `n` bytes of a document: whatever comes after them it gives the same, and
it fails on fewer of them. -/
structure StopsAfter {α : Type} (read : Content → Except Error α) (n : Nat) (document : List UInt8) :
    Prop where
  ends : EndsAfter n document
  again : ∀ tail, read (received (document.take n ++ tail) none) = read (received document none) ∧
    EndsAfter n (document.take n ++ tail)
  short : ∀ m < n, ∃ e, read (received (document.take m) none) = .error e

theorem EndsAfter.unique {n m : Nat} {document : List UInt8} (ends : EndsAfter n document)
    (ends' : EndsAfter m document) : n = m := by
  obtain ⟨_, _, left, root, length⟩ := ends
  obtain ⟨_, _, left', root', length'⟩ := ends'
  rw [root] at root'
  cases root'
  omega

namespace TakesRoot

variable {α : Type} {read : Content → Except Error α} {document : List UInt8} {a : α}

theorem exists_readsElement (takes : TakesRoot read) {input : Input} (found : read (.ofInput input) = .ok a) :
    ∃ name node last, (Content.ofInput input).root = .ok node ∧
      ReadsElement Scanner.step (.start input) name node last := by
  obtain ⟨bare, entries, ending, root⟩ := takes.element found
  have whole := (takes.kept root root (.refl _) a found).1
  obtain ⟨name, last, reads⟩ := Content.exists_readsElement root (isWhole_element.1 whole)
  exact ⟨name, _, last, root, reads⟩

theorem exists_endsAfter (takes : TakesRoot read) (found : read (received document none) = .ok a) :
    ∃ n, EndsAfter n document ∧ ∀ tail, read (received (document.take n ++ tail) none) = .ok a ∧
      EndsAfter n (document.take n ++ tail) := by
  obtain ⟨name, node, last, root, reads⟩ := takes.exists_readsElement found
  obtain ⟨mark, body, rfl, text, again⟩ := Input.exists_mark document
  obtain ⟨front, rest, rfl, long, ends, goesOn⟩ := reads.exists_front text
  have alike (tail : List UInt8) : read (received (mark ++ (front ++ tail)) none) = .ok a ∧
      EndsAfter (mark.length + front.length) (mark ++ (front ++ tail)) := by
    obtain ⟨node', reads', kept⟩ := goesOn tail
    have root' : (received (mark ++ (front ++ tail)) none).root = .ok node' := by
      rw [received, again front rest tail rfl (Input.mark_of_long long)]
      exact Content.root_of_readsElement reads'
    obtain ⟨-, -, bare, entries, rfl⟩ := reads'.ends
    refine ⟨(takes.kept root root' kept a found).2, bare, entries, tail.length, root', ?_⟩
    rw [List.length_append, List.length_append, Nat.add_assoc]
  have taken : (mark ++ (front ++ rest)).take (mark.length + front.length) = mark ++ front := by
    rw [← List.append_assoc, List.take_left' (List.length_append ..)]
  refine ⟨_, (alike rest).2, fun tail => ?_⟩
  rw [taken, List.append_assoc]
  exact alike tail

theorem exists_stopsAfter (takes : TakesRoot read) (found : read (received document none) = .ok a) :
    ∃ n, StopsAfter read n document := by
  obtain ⟨n, ends, again⟩ := takes.exists_endsAfter found
  refine ⟨n, ends, fun tail => found ▸ again tail, fun m few => ?_⟩
  cases short : read (received (document.take m) none) with
  | error e => exact ⟨e, rfl⟩
  | ok a' =>
    -- The root would end within these bytes, and so it would in the whole document.
    obtain ⟨k, ends', again'⟩ := takes.exists_endsAfter short
    have within : k ≤ m := by
      obtain ⟨_, _, left, -, length⟩ := ends'
      rw [List.length_take] at length
      omega
    have whole := (again' ((document.take m).drop k ++ document.drop m)).2
    rw [← List.append_assoc, List.take_append_drop, List.take_append_drop] at whole
    exact absurd (ends.unique whole) (by omega)

theorem exists_tree (takes : TakesRoot read) {c : Content} (found : read c = .ok a) :
    ∃ tree, Shape.any.readDocument c = .ok (.tree tree) := by
  obtain ⟨bare, entries, ending, root⟩ := takes.element found
  obtain ⟨tree, whole⟩ := (takes.kept root root (.refl _) a found).1
  refine ⟨tree, ?_⟩
  rw [Shape.readDocument_any, root]
  dsimp only [bind, Except.bind, Node.content]
  rw [whole]
  rfl

/-- Documents with the same tree are read alike, if they can be read. -/
theorem eq_of_tree (takes : TakesRoot read) {c c' : Content} {b : α} {value : Value}
    (found : read c = .ok a) (found' : read c' = .ok b)
    (told : Shape.any.readDocument c = .ok value) (told' : Shape.any.readDocument c' = .ok value) :
    a = b := by
  obtain ⟨node, tree, root, whole, rfl⟩ := Shape.exists_of_readDocument_any told
  obtain ⟨node', tree', root', whole', same⟩ := Shape.exists_of_readDocument_any told'
  cases same
  -- A document that is nothing but the tree is read like both of them.
  let plain : Content := ⟨[("", tree.node)], .ok 0⟩
  have plainly : read plain = .ok a := (takes.kept root rfl (node.keptBy_tree whole) a found).2
  have plainly' : read plain = .ok b := (takes.kept root' rfl (node'.keptBy_tree whole') b found').2
  exact Except.ok.inj (plainly.symm.trans plainly')

end TakesRoot

def followed : List UInt8 := Text.Utf8.encode "<r><x y=\"1\"/><comment>n</comment></r> <z"

def followedTree : Tree :=
  .element [("x", .element [("y", .text "1")]), ("comment", .element [(textName, .text "n")])]

def reworded : List UInt8 := Text.Utf8.encode "<r><x y = \"1\"></x>\n<comment >&#110;</comment></r>"

end Xml

namespace Registry

open Xml (Shape StopsAfter received followed followedTree reworded)

/-- A document that is read as a registry can be read as whatever it says, up to the same byte. Documents
that say the same are the same registry, however they are delivered. -/
theorem ofDocument_keeps_step :
    (∀ document r, ofDocument (received document none) = .ok r →
      ∃ value n, Shape.any.readDocument (received document none) = .ok value ∧
        StopsAfter Shape.any.readDocument n document ∧ StopsAfter ofDocument n document) ∧
    ∀ document document' size size' r r', ofDocument (received document size) = .ok r →
      ofDocument (received document' size') = .ok r' →
      Shape.any.readDocument (received document size) =
        Shape.any.readDocument (received document' size') → r = r' := by
  constructor
  · intro document r found
    obtain ⟨tree, told⟩ := ofDocument_takesRoot.exists_tree found
    obtain ⟨n, stops⟩ := ofDocument_takesRoot.exists_stopsAfter found
    obtain ⟨m, stops'⟩ := Shape.any_takesRoot.exists_stopsAfter told
    obtain rfl := stops'.ends.unique stops.ends
    exact ⟨_, _, told, stops', stops⟩
  · intro document document' size size' r r' found found' same
    obtain ⟨tree, told⟩ := ofDocument_takesRoot.exists_tree found
    exact ofDocument_takesRoot.eq_of_tree found found' told (same.symm.trans told)

theorem followed_keeps_step : ofDocument (received followed none) = .ok { comments := ["n"] } ∧
    ofDocument (received reworded (some 4)) = .ok { comments := ["n"] } ∧
    (∃ value n, Shape.any.readDocument (received followed none) = .ok value ∧
      StopsAfter Shape.any.readDocument n followed ∧ StopsAfter ofDocument n followed) ∧
    Shape.any.readDocument (received followed none) =
      Shape.any.readDocument (received reworded (some 4)) ∧
    ({ comments := ["n"] } : Registry) = { comments := ["n"] } := by
  have found : ofDocument (received followed none) = .ok { comments := ["n"] } := by decide +kernel
  have found' : ofDocument (received reworded (some 4)) = .ok { comments := ["n"] } := by
    decide +kernel
  have told : Shape.any.readDocument (received followed none) = .ok (.tree followedTree) := rfl
  have told' : Shape.any.readDocument (received reworded (some 4)) = .ok (.tree followedTree) := rfl
  have same := told.trans told'.symm
  exact ⟨found, found', ofDocument_keeps_step.1 _ _ found, same,
    ofDocument_keeps_step.2 _ _ _ _ _ _ found found' same⟩

end Registry

namespace Xml

/-- A document that can be read is read up to the end of its root: what comes after that is not looked
at, and a document that is cut off before it is never read. -/
theorem reading_stops (document : List UInt8) :
    (∀ value, Shape.any.readDocument (received document none) = .ok value →
      ∃ n, StopsAfter Shape.any.readDocument n document) ∧
    (∀ r, Registry.ofDocument (received document none) = .ok r →
      ∃ n, StopsAfter Registry.ofDocument n document) :=
  ⟨fun _ found => Shape.any_takesRoot.exists_stopsAfter found,
    fun _ found => Registry.ofDocument_takesRoot.exists_stopsAfter found⟩

theorem followed_stops :
    Shape.any.readDocument (received followed none) = .ok (.tree followedTree) ∧
      Registry.ofDocument (received followed none) = .ok { comments := ["n"] } ∧
      (∃ n, StopsAfter Shape.any.readDocument n followed) ∧
      ∃ n, StopsAfter Registry.ofDocument n followed := by
  have told : Shape.any.readDocument (received followed none) = .ok (.tree followedTree) := rfl
  have found : Registry.ofDocument (received followed none) = .ok { comments := ["n"] } := by
    decide +kernel
  exact ⟨told, found, (reading_stops followed).1 _ told, (reading_stops followed).2 _ found⟩

end Xml

end VulkanBindings
