import VulkanBindings.Proofs.Registry.Extent
import VulkanBindings.Proofs.Xml.Boundaries

/-! A document that is a text and comes at once is never found to be anything else. However it breaks, it
is for what it says, whoever reads it. -/

set_option autoImplicit false

namespace VulkanBindings

namespace Xml

/-- How steps lead from one state to another. -/
def Scanner.Reaches : Scanner → Scanner → Prop :=
  Relation.ReflTransGen fun s next => ∃ event, s.step = (event, .ok next)

theorem Scanner.Reaches.leaves {start s : Scanner} (reaches : start.Reaches s) :
    start.input.Leaves s.input := by
  induction reaches with
  | refl => exact .start
  | tail _ here ih =>
    obtain ⟨event, here⟩ := here
    exact ih.trans (step_eq_ok.1 here).leaves

theorem Error.IsOwn.isLegible {e : Error} (own : e.IsOwn) : e.IsLegible := by
  cases e <;> first | exact own.elim | exact trivial

end Xml

namespace Registry

open Xml (Content Error FailsOnly Shape Value)

variable {c : Content} {kind : Error → Prop}

/-- A registry that cannot be read breaks for a reason of its own, or where whatever is read of the document
breaks. -/
theorem error_of_ofDocument {e : Error} (failed : ofDocument c = .error e) :
    e.IsOwn ∨ Shape.any.readDocument c = .error e := by
  have reads : ofDocument c = c.root >>= fun node => node.fold step {} := rfl
  rw [reads] at failed
  rw [Shape.readDocument_any]
  cases root : c.root with
  | error e' =>
    rw [root] at failed
    cases failed
    exact .inr rfl
  | ok node =>
    rw [root] at failed
    cases node with
    | leaf value => cases value <;> cases failed <;> exact .inr rfl
    | element bare entries ending =>
      obtain own | tree := (ofRoot_composed.follows (.element bare entries ending)).error e failed
      · exact .inl own
      · exact .inr (congrArg (Value.tree <$> ·) tree)

theorem ofDocument_failsOnly (any : FailsOnly kind (Shape.any.readDocument c))
    (own : ∀ e : Error, e.IsOwn → kind e) : FailsOnly kind (ofDocument c) :=
  ⟨fun e failed => (error_of_ofDocument failed).elim (own e) (any.error e)⟩

end Registry

namespace Xml

open Text.Utf8 (encode)

/-- Whatever has been read of a text that comes at once, what is left begins with one of its characters. A
character is read as the next one, and a run as what stands before the first delimiter. So neither its
bytes nor its end are ever at fault within a character: not for whoever reads whatever it says or passes
over it, nor for a registry. -/
theorem text_legible (document : String) :
    (∀ s, Scanner.Reaches (.start (.ofBytes (encode document) none)) s →
      (Input.ofBytes (encode document) none).Leaves s.input) ∧
    (∀ input, (Input.ofBytes (encode document) none).Leaves input →
      ∃ text, text <:+ document.toList ∧ input.ReadsCharacters text) ∧
    ∀ e, Shape.any.readDocument (delivered document none) = .error e ∨
        Shape.ignored.readDocument (delivered document none) = .error e ∨
        Registry.ofDocument (delivered document none) = .error e →
      (∀ fault, e ≠ .invalidText fault) ∧ e ≠ .endOfCharacter := by
  have delivers :
      (Input.ofBytes (encode document) none).Delivers False (Input.unmarkedText document.toList) := by
    rw [Text.Utf8.encode_eq_bytes]
    exact Input.ofBytes_delivers document.toList
  refine ⟨fun s reaches => reaches.leaves, fun input left => ?_, fun e failed => ?_⟩
  · obtain ⟨text, suffix, delivers⟩ := left.exists_delivers delivers
    exact ⟨text, suffix.trans (Input.unmarkedText_suffix _), delivers.readsCharacters⟩
  · have fails : (delivered document none).FailsOnly Error.IsLegible :=
      Content.ofInput_failsOnly Input.legible_guarantee ⟨_, delivers⟩
    have any := fails.of_root Shape.readDocument_any trivial (fun _ => trivial) fun _ tree => tree.map _
    have ignored := fails.of_root Shape.readDocument_ignored trivial (fun _ => trivial) fun _ tree =>
      (tree.bind fun _ _ => .ok ()).map _
    have legible : e.IsLegible := by
      obtain failed | failed | failed := failed
      · exact any.error e failed
      · exact ignored.error e failed
      · exact (Registry.ofDocument_failsOnly any fun _ own => own.isLegible).error e failed
    exact Error.isLegible_iff.1 legible

def unclosed : String := "<\u00e4 \u00fc=\"\u20ac"

theorem unclosed_legible :
    (∃ s, Scanner.Reaches (.start (.ofBytes (encode unclosed) none)) s ∧ s.stack = ["\u00e4"] ∧
      (Input.ofBytes (encode unclosed) none).Leaves s.input ∧
      ∃ text, text <:+ unclosed.toList ∧ s.input.ReadsCharacters text) ∧
    Shape.any.readDocument (delivered unclosed none) = .error .endOfDocument ∧
      (∀ fault, Error.endOfDocument ≠ .invalidText fault) ∧ Error.endOfDocument ≠ .endOfCharacter := by
  obtain ⟨reached, characters, legible⟩ := text_legible unclosed
  have ends : Shape.any.readDocument (delivered unclosed none) = .error .endOfDocument := rfl
  refine ⟨?_, ends, legible _ (.inl ends)⟩
  have opened : Scanner.Reaches (.start (.ofBytes (encode unclosed) none)) _ := .single ⟨_, rfl⟩
  exact ⟨_, opened, rfl, reached _ opened, characters _ (reached _ opened)⟩

end Xml

end VulkanBindings
