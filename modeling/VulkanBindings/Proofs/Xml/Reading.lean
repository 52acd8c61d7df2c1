import VulkanBindings.Proofs.Xml.Comparison
import VulkanBindings.Proofs.Xml.Scan
import VulkanBindings.Xml.Shape

/-! What is read of two documents whose events are alike. A reader takes entries in order, so it
gives the same on both, unless it comes to where the first one ends with a cut character. -/

set_option autoImplicit false

namespace VulkanBindings.Xml

variable {cut : Prop}

/-- Entries that are the same one by one, up to a character that is cut in the first ones. -/
inductive EntriesAlike (cut : Prop) :
    List (String × Node) → Ending → List (String × Node) → Ending → Prop
  | ended (ending : Ending) : EntriesAlike cut [] ending [] ending
  | torn (isCut : cut) (fault : Text.Utf8.Fault) (entries : List (String × Node)) (ending : Ending) :
    EntriesAlike cut [] (.error (.invalidText fault)) entries ending
  | leaf (name : String) {value value' : Leaf} {rest rest' : List (String × Node)}
    {ending ending' : Ending} (values : Leaf.Alike cut value value')
    (others : EntriesAlike cut rest ending rest' ending') :
    EntriesAlike cut ((name, .leaf value) :: rest) ending ((name, .leaf value') :: rest') ending'
  | element (name : String) (bare : Bool) {entries entries' rest rest' : List (String × Node)}
    {inner inner' ending ending' : Ending} (contents : EntriesAlike cut entries inner entries' inner')
    (others : EntriesAlike cut rest ending rest' ending') :
    EntriesAlike cut ((name, .element bare entries inner) :: rest) ending
      ((name, .element bare entries' inner') :: rest') ending'

inductive Node.Alike (cut : Prop) : Node → Node → Prop
  | leaf {value value' : Leaf} (values : Leaf.Alike cut value value') :
    Node.Alike cut (.leaf value) (.leaf value')
  | element (bare : Bool) {entries entries' : List (String × Node)} {ending ending' : Ending}
    (contents : EntriesAlike cut entries ending entries' ending') :
    Node.Alike cut (.element bare entries ending) (.element bare entries' ending')

theorem EntriesAlike.nil {entries : List (String × Node)} {ending ending' : Ending}
    (contents : EntriesAlike cut [] ending entries ending') :
    entries = [] ∧ ending = ending' ∨ cut ∧ ∃ fault, ending = .error (.invalidText fault) := by
  cases contents with
  | ended => exact .inl ⟨rfl, rfl⟩
  | torn isCut fault => exact .inr ⟨isCut, fault, rfl⟩

theorem EntriesAlike.cons {name : String} {node : Node} {rest entries : List (String × Node)}
    {ending ending' : Ending} (contents : EntriesAlike cut ((name, node) :: rest) ending entries ending') :
    ∃ node' rest', entries = (name, node') :: rest' ∧ node.Alike cut node' ∧
      EntriesAlike cut rest ending rest' ending' := by
  cases contents with
  | leaf _ values others => exact ⟨_, _, rfl, .leaf values, others⟩
  | element _ bare contents others => exact ⟨_, _, rfl, .element bare contents, others⟩

def Content.Alike (cut : Prop) (c c' : Content) : Prop :=
  EntriesAlike cut c.entries c.ending c'.entries c'.ending

namespace Rests

/-- The rests of two documents. Around the elements that are known to be open there are others
that end where the document breaks. -/
structure Alike (cut : Prop) (failure failure' : Error) (r r' : Rests) : Prop where
  here : r.here.Alike cut r'.here
  outer : ∀ i, (r.outer.getD i (broken failure)).Alike cut (r'.outer.getD i (broken failure'))

theorem before_alike {failure failure' : Error} {event event' : Event} {r r' : Rests}
    (rests : Alike cut failure failure' r r') (events : event.Alike cut event') :
    Alike cut failure failure' (before failure event r) (before failure' event' r') := by
  cases events with
  | leaf name values => exact ⟨.leaf name values rests.here, rests.outer⟩
  | opened name bare =>
    have around := rests.outer 0
    simp only [List.getD_eq_getElem?_getD, ← List.head?_eq_getElem?, ← List.headD_eq_head?_getD] at around
    refine ⟨.element name bare rests.here around, fun i => ?_⟩
    simpa [before] using rests.outer (i + 1)
  | closed left =>
    refine ⟨.ended _, fun i => ?_⟩
    cases i with
    | zero => exact rests.here
    | succ i => exact rests.outer i

end Rests

namespace Content

theorem ofEvents_alike {events events' : Events} (alike : events.Alike cut events') :
    (ofEvents events).Alike cut (ofEvents events') := by
  suffices Rests.Alike cut events.failure events'.failure
      (events.list.foldr (Rests.before events.failure) ⟨Rests.broken events.failure, []⟩)
      (events'.list.foldr (Rests.before events'.failure) ⟨Rests.broken events'.failure, []⟩) from
    this.here
  induction alike with
  | ended failure => exact ⟨.ended _, fun _ => .ended _⟩
  | torn isCut fault => exact ⟨.torn isCut fault _ _, fun _ => .torn isCut fault _ _⟩
  | cons first rest ih => exact Rests.before_alike ih first

theorem ofInput_alike {a b : Input} (inputs : Input.Alike cut a b) :
    (ofInput a).Alike cut (ofInput b) :=
  ofEvents_alike (Events.ofInput_alike inputs)

theorem root_alike {c c' : Content} (contents : c.Alike cut c') :
    Torn cut (Node.Alike cut) c.root c'.root := by
  obtain ⟨entries, ending⟩ := c
  obtain ⟨entries', ending'⟩ := c'
  obtain ending | ⟨isCut, fault⟩ | ⟨name, values, others⟩ | ⟨name, bare, inner, others⟩ := contents
  · cases ending <;> exact .error _
  · exact .torn isCut fault _
  · exact .ok (.leaf values)
  · exact .ok (.element bare inner)

end Content

/-- Bytes as they are delivered in blocks of one size, or in one block. -/
def received (bytes : List UInt8) (size : Option Nat) : Content :=
  .ofInput (.ofBytes bytes size)

def delivered (document : String) (size : Option Nat) : Content :=
  .ofInput (.ofBytes (Text.Utf8.encode document) size)

theorem Leaf.text_alike {value value' : Leaf} (values : Leaf.Alike cut value value') :
    Torn cut Eq value.text value'.text := by
  obtain torn | e | torn := values
  · exact torn
  · exact .error e
  · exact torn

theorem Leaf.refusal_alike {value value' : Leaf} (values : Leaf.Alike cut value value') :
    value.refusal = value'.refusal := by
  cases values <;> rfl

def Torn.comparison (cut : Prop) : Comparison where
  agree _ _ x y := Torn cut Eq x y
  refl := .refl
  mono torn _ := torn
  shows torn := torn
  error := .error
  bind first later := first.andThen later
  alike := Node.Alike cut
  contents := EntriesAlike cut
  leaf nodes := by
    cases nodes with
    | leaf values =>
      exact ⟨_, rfl, Leaf.text_alike values, fun _ _ => Leaf.refusal_alike values ▸ .error _⟩
  element nodes := by
    cases nodes with
    | element _ contents => exact ⟨_, _, _, rfl, contents, .inl rfl⟩
  nil contents := by
    obtain ⟨rfl, same⟩ | ⟨isCut, fault, broken⟩ := contents.nil
    · exact .inr ⟨rfl, .inl same.symm⟩
    · exact .inl ⟨_, broken, .torn isCut fault⟩
  cons := EntriesAlike.cons

namespace Shape

theorem readDocument_any (c : Content) : any.readDocument c =
    c.root >>= fun node => node.content >>= fun _ => Value.tree <$> node.tree := by
  rw [readDocument, read]
  obtain ⟨_ | ⟨⟨name, node⟩, rest⟩, ending⟩ := c
  · cases ending <;> rfl
  · simp [anyValue, Read.descend, Read.value, Cursor.start]
    rfl

theorem readDocument_any_alike {c c' : Content} (contents : c.Alike cut c') :
    Torn cut Eq (any.readDocument c) (any.readDocument c') := by
  rw [readDocument_any, readDocument_any]
  refine (Content.root_alike contents).bind fun _ _ nodes => ?_
  exact (Torn.comparison cut).contentThen nodes
    (Agreement.map ((Torn.comparison cut).tree nodes) Value.tree)

end Shape

end VulkanBindings.Xml
