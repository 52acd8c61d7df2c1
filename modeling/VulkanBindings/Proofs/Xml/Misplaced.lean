import VulkanBindings.Proofs.Registry.Extent
import VulkanBindings.Proofs.Xml.Failures
import VulkanBindings.Proofs.Xml.Remarks

/-! What is asked for stands where it is asked for. Whoever takes all that a document says, name by name
and value by value, or passes over all of it, never asks for something at the wrong place, however the
document breaks; but a text before the root is no root. -/

set_option autoImplicit false

namespace VulkanBindings.Xml

variable {α β : Type}

def Error.IsPlaced (e : Error) : Prop := ∀ place, e ≠ .misplaced place

theorem Error.endOfDocument_isPlaced : Error.endOfDocument.IsPlaced := by
  intro place same
  cases same

theorem Error.invalidText_isPlaced (fault : Text.Utf8.Fault) : (Error.invalidText fault).IsPlaced := by
  intro place same
  cases same

namespace Input

theorem next_placed (input : Input) : FailsOnly Error.IsPlaced input.next := by
  unfold next
  repeat' split
  all_goals first | exact .ok _ | exact .of_kind nofun

theorem textUntil_placed (stop : UInt8 → Bool) (blocks : List (List UInt8)) :
    FailsOnly Error.IsPlaced (textUntil stop blocks) := by
  induction blocks with
  | nil => exact .of_kind Error.endOfDocument_isPlaced
  | cons block later ih =>
    rw [textUntil]
    split
    · exact .of_kind (Error.invalidText_isPlaced _)
    split
    · exact .ok _
    · exact ih.bind fun _ _ => .ok _

theorem placed_guarantee : Guarantee Error.IsPlaced fun _ => True where
  next _ := next_placed _
  readUntil _ _ := (textUntil_placed ..).bind fun _ _ => .ok _
  kept _ _ := trivial
  ended := Error.endOfDocument_isPlaced
  unexpected _ _ := nofun
  closingTag _ _ := nofun

end Input

/-- What comes first in a document is a text, behind white space and what is passed over as a comment or an
instruction. -/
inductive Input.BeginsWithText : Input → Prop
  | text {input shown : Input} {first : Char} (found : input.run Scanner.visibleStep () = .ok (first, shown))
    (notLess : first ≠ '<') : BeginsWithText input
  | comment {input shown marked rest : Input}
    (found : input.run Scanner.visibleStep () = .ok ('<', shown)) (mark : shown.next = .ok ('!', marked))
    (reads : marked.run Scanner.commentStep .none = .ok ((), rest)) (later : BeginsWithText rest) :
    BeginsWithText input
  | instruction {input shown marked rest : Input}
    (found : input.run Scanner.visibleStep () = .ok ('<', shown)) (mark : shown.next = .ok ('?', marked))
    (reads : marked.run Scanner.instructionStep false = .ok ((), rest)) (later : BeginsWithText rest) :
    BeginsWithText input

namespace Scanner

variable {stack : List String} {input shown : Input} {first : Char} {name : String} {value : Leaf}

theorem exists_body_of_text (stack : List String) (found : input.run visibleStep () = .ok (first, shown))
    (notLess : first ≠ '<') :
    ∃ text, (step ⟨false, stack, input⟩).1 = some (.leaf textName (.body text)) := by
  rw [step_eq]
  simp only [Bool.false_eq_true, if_false, found, notLess, readText]
  split
  · exact ⟨_, rfl⟩
  · exact ⟨_, rfl⟩

theorem text_of_leaf (step : (step ⟨false, stack, input⟩).1 = some (.leaf name value)) :
    value.place = .body ∧ ∃ first shown, input.run visibleStep () = .ok (first, shown) ∧ first ≠ '<' := by
  rw [step_eq] at step
  simp only [Bool.false_eq_true, if_false] at step
  split at step
  · cases step
  next first shown found =>
  split at step
  · simp only [readMarkup, readClosing, readTag, passOver] at step
    repeat' split at step
    all_goals cases step
  · next notLess =>
    refine ⟨?_, first, shown, found, notLess⟩
    unfold readText at step
    split at step
    · cases step
      rfl
    · cases step
      rfl

end Scanner

namespace Rests

open Input (BeginsWithText)

variable {n : Nat} {s : Scanner} {name : String} {value : Leaf}

theorem exists_ofScan_leaf (found : s.step.1 = some (.leaf name value)) :
    ∃ rest, (ofScan (n + 1) s).here.entries = (name, .leaf value) :: rest := by
  rcases here : s.step with ⟨event, e | next⟩
  · rw [here] at found
    cases found
    unfold ofScan
    rw [Events.collect_succ, here]
    exact ⟨_, rfl⟩
  · rw [here] at found
    cases found
    rw [ofScan_of_ok here]
    exact ⟨_, rfl⟩

theorem begins_of_leaf {rest : List (String × Node)} (outside : s.inTag = false)
    (found : (ofScan n s).here.entries = (name, .leaf value) :: rest) :
    value.place = .body ∧ s.input.BeginsWithText := by
  induction n generalizing s with
  | zero => cases found
  | succ n ih =>
    obtain ⟨inTag, stack, input⟩ := s
    cases outside
    -- A step may find a leaf and fail after it, so what it finds comes first.
    by_cases leaf : ∃ name value, (Scanner.step ⟨false, stack, input⟩).1 = some (.leaf name value)
    · obtain ⟨name', value', step⟩ := leaf
      obtain ⟨rest', same⟩ := exists_ofScan_leaf (n := n) step
      rw [same] at found
      cases found
      obtain ⟨body, first, shown, shows, notLess⟩ := Scanner.text_of_leaf step
      exact ⟨body, .text shows notLess⟩
    · rcases here : Scanner.step ⟨false, stack, input⟩ with ⟨event, e | next⟩
      · obtain rfl | ⟨name, value, rfl, -⟩ := Scanner.exists_of_step_error here
        · unfold ofScan at found
          rw [Events.collect_succ, here] at found
          cases found
        · exact absurd ⟨_, _, congrArg Prod.fst here⟩ leaf
      · rw [ofScan_of_ok here] at found
        cases Scanner.step_eq_ok.1 here with
        | text => exact absurd ⟨_, _, congrArg Prod.fst here⟩ leaf
        | closing => cases found
        | opening => cases found
        | comment shows mark reads =>
          obtain ⟨body, begins⟩ := ih rfl found
          exact ⟨body, .comment shows mark reads begins⟩
        | instruction shows mark reads =>
          obtain ⟨body, begins⟩ := ih rfl found
          exact ⟨body, .instruction shows mark reads begins⟩

theorem exists_body_of_begins {input : Input} (begins : input.BeginsWithText) (stack : List String)
    (enough : input.left < n) : ∃ text rest,
      (ofScan n ⟨false, stack, input⟩).here.entries = (textName, .leaf (.body text)) :: rest := by
  induction begins generalizing n with
  | text found notLess =>
    obtain ⟨n, rfl⟩ := Nat.exists_eq_succ_of_ne_zero (Nat.ne_zero_of_lt enough)
    obtain ⟨text, step⟩ := Scanner.exists_body_of_text stack found notLess
    exact ⟨text, exists_ofScan_leaf step⟩
  | comment found mark reads _ ih =>
    obtain ⟨m, failure, enough, scan⟩ :=
      exists_ofScan_eq (Scanner.step_eq_ok.2 (.comment found mark reads)) enough
    rw [scan]
    exact ih enough
  | instruction found mark reads _ ih =>
    obtain ⟨m, failure, enough, scan⟩ :=
      exists_ofScan_eq (Scanner.step_eq_ok.2 (.instruction found mark reads)) enough
    rw [scan]
    exact ih enough

end Rests

namespace Content

variable {input : Input} {node : Node}

theorem ofInput_placed (input : Input) : (ofInput input).FailsOnly Error.IsPlaced :=
  ofInput_failsOnly Input.placed_guarantee trivial

theorem begins_of_leaf {value : Leaf} (root : (ofInput input).root = .ok (.leaf value)) :
    value.place = .body ∧ input.BeginsWithText := by
  have scan : ofInput input = (Rests.ofScan (input.left + 1) (.start input)).here := rfl
  rw [scan, Content.root] at root
  split at root
  · next first =>
    cases root
    exact Rests.begins_of_leaf rfl first
  · cases root
  · cases root

theorem exists_body_of_begins (begins : input.BeginsWithText) :
    ∃ text, (ofInput input).root = .ok (.leaf (.body text)) := by
  obtain ⟨text, rest, first⟩ := Rests.exists_body_of_begins begins [] (Nat.lt_succ_self _)
  exact ⟨text, root_of_entries first⟩

end Content

theorem misplaced_iff_of_eq {read : Content → Except Error α} {f : Node → Except Error α}
    (reads : ∀ c, read c = c.root >>= fun node => node.content >>= fun _ => f node)
    (below : ∀ node, FailsOnly Error.IsPlaced node.tree → FailsOnly Error.IsPlaced (f node))
    (input : Input) (place : Place) :
    read (.ofInput input) = .error (.misplaced place) ↔ place = .body ∧ input.BeginsWithText := by
  have placed := Content.ofInput_placed input
  rw [reads]
  constructor
  · intro failed
    -- No error below the root is of this kind, so the root itself is no element.
    cases root : (Content.ofInput input).root with
    | error e =>
      rw [root] at failed
      cases failed
      exact absurd rfl ((placed.root Error.endOfDocument_isPlaced).error _ root place)
    | ok node =>
      have tree := placed.tree_of_root root
      rw [root] at failed
      cases node with
      | element bare entries ending => exact absurd rfl ((below _ tree).error _ failed place)
      | leaf value =>
        obtain ⟨body, begins⟩ := Content.begins_of_leaf root
        obtain _ | _ | _ := value
        · cases body
        · cases body
        · cases failed
          exact ⟨rfl, begins⟩
  · rintro ⟨rfl, begins⟩
    obtain ⟨text, root⟩ := Content.exists_body_of_begins begins
    rw [root]
    rfl

namespace Read

def visitEntry (visit : Read Tree) (name : String) : Read (String × Tree) := do
  begin
  return (name, ← visit)

/-- Asks for a value by what stands there: for a text, or for the entries of an element, which are asked
for in turn. The first argument bounds how deep elements are nested. -/
def visitFrom : Nat → Read Tree
  | 0 => fail .endOfDocument
  | n + 1 => do
    match ← pending with
    | .leaf _ => Tree.text <$> value Node.text
    | .element .. => do
      enter
      Tree.element <$> entries (visitEntry (visitFrom n))

def visit : Read Tree := do
  descend
  fun c => visitFrom (c.size + 1) c

section Calls

variable {n fuel : Nat} {node : Node} {nodes : List (String × Node)}

theorem value_eq (f : Node → Except Error α) (node : Node) (rests : Rests) :
    value f ⟨.value node, rests⟩ = (fun a => (a, ⟨.name, rests⟩)) <$> f node := by
  have asks : value f ⟨.value node, rests⟩ =
    (liftM (f node) >>= fun a => modify (fun c => { c with pending := .name }) >>= fun _ => pure a : Read α)
      ⟨.value node, rests⟩ := rfl
  rw [asks]
  cases f node <;> rfl

theorem visitEntry_eq {visit : Read Tree} {rests : Rests}
    (visits : visit ⟨.value node, rests⟩ = (fun tree => (tree, ⟨.name, rests⟩)) <$> node.tree)
    (name : String) :
    visitEntry visit name ⟨.value node, rests⟩ =
      (fun tree => ((name, tree), ⟨.name, rests⟩)) <$> node.tree := by
  have asks : visitEntry visit name ⟨.value node, rests⟩ = begin ⟨.value node, rests⟩ >>= fun begun =>
    visit begun.2 >>= fun found => .ok ((name, found.1), found.2) := rfl
  rw [asks]
  obtain value | ⟨bare, entries, ending⟩ := node
  · cases value with
    | unquoted e => rfl
    | _ =>
      refine (congrArg (· >>= fun found => Except.ok ((name, found.1), found.2)) visits).trans ?_
      cases Node.tree _ <;> rfl
  · refine (congrArg (· >>= fun found => Except.ok ((name, found.1), found.2)) visits).trans ?_
    cases Node.tree _ <;> rfl

theorem entries_go {f : String → Read (String × Tree)} (here : Content) (outer : List Content)
    (ending : Ending)
    (read : List (String × Tree)) (enough : nodes.length < fuel)
    (reads : ∀ entry ∈ nodes, ∀ rests, f entry.1 ⟨.value entry.2, rests⟩ =
      (fun tree => ((entry.1, tree), ⟨.name, rests⟩)) <$> entry.2.tree) :
    entries.go f fuel read ⟨.name, ⟨⟨nodes, ending⟩, here :: outer⟩⟩ = do
      let trees ← treesOf nodes
      let _ ← ending
      return (read.reverse ++ trees, ⟨.name, ⟨here, outer⟩⟩) := by
  induction nodes generalizing read fuel with
  | nil =>
    obtain ⟨fuel, rfl⟩ := Nat.exists_eq_succ_of_ne_zero (Nat.ne_zero_of_lt enough)
    cases ending with
    | error e => rfl
    | ok left => exact congrArg (fun read => Except.ok (read, _)) (List.append_nil _).symm
  | cons entry nodes ih =>
    obtain ⟨fuel, rfl⟩ := Nat.exists_eq_succ_of_ne_zero (Nat.ne_zero_of_lt enough)
    obtain ⟨first, later⟩ := List.forall_mem_cons.1 reads
    have step : entries.go f (fuel + 1) read ⟨.name, ⟨⟨entry :: nodes, ending⟩, here :: outer⟩⟩ =
        f entry.1 ⟨.value entry.2, ⟨⟨nodes, ending⟩, here :: outer⟩⟩ >>= fun found =>
          entries.go f fuel (found.1 :: read) found.2 := rfl
    rw [step, first, treesOf]
    cases entry.2.tree with
    | error e => rfl
    | ok tree =>
      refine (ih ((entry.1, tree) :: read) (Nat.lt_of_succ_lt_succ enough) later).trans ?_
      cases treesOf nodes with
      | error e => rfl
      | ok trees =>
        cases ending with
        | error e => rfl
        | ok left =>
          exact congrArg (fun read => Except.ok (read, _))
            ((congrArg (· ++ trees) List.reverse_cons).trans (List.append_assoc ..))

theorem length_le_sizeOf (nodes : List (String × Node)) : nodes.length ≤ Xml.sizeOf nodes := by
  induction nodes with
  | nil => exact Nat.zero_le _
  | cons entry nodes ih =>
    have filled : 0 < entry.2.size := by
      cases entry.2 <;> exact Nat.succ_pos _
    rw [List.length_cons, Xml.sizeOf]
    omega

theorem size_le_sizeOf {entry : String × Node} {nodes : List (String × Node)} (mem : entry ∈ nodes) :
    entry.2.size ≤ Xml.sizeOf nodes := by
  induction mem with
  | head => exact Nat.le_add_right ..
  | tail _ _ ih => exact ih.trans (Nat.le_add_left ..)

/-- Each call leaves the cursor where the next one finds what it asks for. -/
theorem visitFrom_eq (enough : node.size < n) (rests : Rests) :
    visitFrom n ⟨.value node, rests⟩ = (fun tree => (tree, ⟨.name, rests⟩)) <$> node.tree := by
  induction n generalizing node rests with
  | zero => cases enough
  | succ n ih =>
    cases node with
    | leaf value =>
      have asks : visitFrom (n + 1) ⟨.value (.leaf value), rests⟩ =
        (fun found => (Tree.text found.1, found.2)) <$> Read.value Node.text ⟨.value (.leaf value), rests⟩ :=
      rfl
      rw [asks, value_eq, Node.tree, Node.text]
      cases value.text <;> rfl
    | element bare nodes ending =>
      let inside : Cursor := ⟨.name, ⟨⟨nodes, ending⟩, rests.here :: rests.outer⟩⟩
      have asks : visitFrom (n + 1) ⟨.value (.element bare nodes ending), rests⟩ =
        (fun found => (Tree.element found.1, found.2)) <$>
          entries.go (visitEntry (visitFrom n)) (inside.size + 1) [] inside := rfl
      have smaller : Xml.sizeOf nodes < n := Nat.lt_of_succ_lt_succ enough
      have filled : nodes.length < inside.size + 1 := by
        have length := length_le_sizeOf nodes
        have size : inside.size = 0 + Xml.sizeOf nodes + _ := rfl
        omega
      rw [asks, entries_go rests.here rests.outer ending [] filled fun entry mem rests =>
        visitEntry_eq (ih ((size_le_sizeOf mem).trans_lt smaller) rests) entry.1, Node.tree]
      cases treesOf nodes with
      | error e => rfl
      | ok trees => cases ending <;> rfl

end Calls

end Read

namespace Shape

/-- A document as whoever asks for all that it says finds it. -/
def visitDocument (document : Content) : Except Error Value :=
  return .tree (← Read.visit.run (.start document)).1

theorem visitDocument_eq (document : Content) : visitDocument document = any.readDocument document := by
  rw [readDocument_any]
  obtain ⟨_ | ⟨⟨name, node⟩, rest⟩, ending⟩ := document
  · cases ending <;> rfl
  obtain value | ⟨bare, nodes, inner⟩ := node
  · cases value <;> rfl
  let found : Cursor := ⟨.value (.element bare nodes inner), ⟨⟨rest, ending⟩, []⟩⟩
  have asks : visitDocument ⟨(name, .element bare nodes inner) :: rest, ending⟩ =
    (fun found => Value.tree found.1) <$> Read.visitFrom (found.size + 1) found := rfl
  have enough : (Node.element bare nodes inner).size < found.size + 1 := by
    have size : found.size = (Node.element bare nodes inner).size + Xml.sizeOf rest + 0 := rfl
    omega
  rw [asks, Read.visitFrom_eq enough]
  dsimp only [Content.root, Node.content, bind, Except.bind]
  cases Node.tree _ <;> rfl

/-- However a document breaks, all that can be misplaced in it is a text before its root. That is so for one
who takes all that it says, call by call or at once, and for one who passes over it. -/
theorem misplaced_iff (document : List UInt8) (size : Option Nat) (place : Place) :
    (any.readDocument (received document size) = .error (.misplaced place) ↔
      place = .body ∧ (Input.ofBytes document size).BeginsWithText) ∧
    (ignored.readDocument (received document size) = .error (.misplaced place) ↔
      place = .body ∧ (Input.ofBytes document size).BeginsWithText) ∧
    (visitDocument (received document size) = .error (.misplaced place) ↔
      place = .body ∧ (Input.ofBytes document size).BeginsWithText) := by
  have whole : any.readDocument (received document size) = .error (.misplaced place) ↔
      place = .body ∧ (Input.ofBytes document size).BeginsWithText :=
    misplaced_iff_of_eq readDocument_any (fun _ placed => placed.map _) _ place
  refine ⟨whole, ?_, visitDocument_eq _ ▸ whole⟩
  exact misplaced_iff_of_eq readDocument_ignored
    (fun _ placed => (placed.bind fun _ _ => .ok ()).map _) _ place

def hidden : List UInt8 :=
  Text.Utf8.bytes (Remark.comment ['>']).written ++ Text.Utf8.encode "<a/>"

theorem hidden_misplaced :
    (Remark.comment ['>']).IsWellFormed ∧
    any.readDocument (received (Text.Utf8.encode "<a/>") none) = .ok (.tree (.element [])) ∧
    any.readDocument (received hidden none) = .error (.misplaced .body) :=
  ⟨by decide, rfl, rfl⟩

end Shape

end VulkanBindings.Xml
