import VulkanBindings.Proofs.Xml.Blocks
import VulkanBindings.Proofs.Registry.Comparison
import VulkanBindings.Proofs.Xml.Reading

/-! A document that is delivered in blocks is read as if it came at once, be it as whatever it
says or as a registry, unless a character that the end of a block cuts is reported as a fault. -/

set_option autoImplicit false

namespace VulkanBindings

namespace Registry

open Xml (Content Torn)

theorem ofDocument_alike {cut : Prop} {c c' : Content} (contents : c.Alike cut c') :
    Torn cut Eq (ofDocument c) (ofDocument c') :=
  (Content.root_alike contents).bind fun _ _ nodes => ofRoot_agrees (c := Torn.comparison cut) nodes

end Registry

namespace Xml

/-- The first result is the second one, unless blocks of `size` cut a character of the document
and that is reported. -/
def SameUnlessCut {α : Type} (size : Nat) (document : String) (parts whole : Except Error α) : Prop :=
  parts = whole ∨ CutBy size document.toList ∧ ∃ fault, parts = .error (.invalidText fault)

theorem delivered_alike (document : String) {size : Nat} (large : 4 ≤ size) :
    (delivered document (some size)).Alike (CutBy size document.toList) (delivered document none) := by
  unfold delivered
  rw [Text.Utf8.encode_eq_bytes]
  exact Content.ofInput_alike
    (.text _ (Input.ofBytes_delivers_of_size _ large) (Input.ofBytes_delivers _))

/-- Reading a document in blocks gives what reading it at once does, values and errors alike. Only
where the end of a block cuts a character may that be a fault instead. -/
theorem reading_in_blocks (document : String) {size : Nat} (large : 4 ≤ size) :
    SameUnlessCut size document (Shape.any.readDocument (delivered document (some size)))
        (Shape.any.readDocument (delivered document none)) ∧
      SameUnlessCut size document (Registry.ofDocument (delivered document (some size)))
        (Registry.ofDocument (delivered document none)) := by
  have contents := delivered_alike document large
  exact ⟨(Shape.readDocument_any_alike contents).eq_or, (Registry.ofDocument_alike contents).eq_or⟩

-- The second byte of the accented letter is the first one of the second block.
def accented : String := "<a x=\"\u00e9\"/>"

theorem accented_in_blocks : 4 ≤ 7 ∧
    SameUnlessCut 7 accented (Shape.any.readDocument (delivered accented (some 7)))
        (Shape.any.readDocument (delivered accented none)) ∧
      SameUnlessCut 7 accented (Registry.ofDocument (delivered accented (some 7)))
        (Registry.ofDocument (delivered accented none)) :=
  ⟨by decide, reading_in_blocks accented (by decide)⟩

theorem accented_cut :
    Shape.any.readDocument (delivered accented (some 7)) = .error (.invalidText ⟨0, none⟩) ∧
      Shape.any.readDocument (delivered accented none) =
        .ok (.tree (.element [("x", .text "\u00e9")])) :=
  ⟨rfl, rfl⟩

def SameUnlessFaulty {α : Type} (parts whole : Except Error α) : Prop :=
  parts = whole ∨ ∃ fault, parts = .error (.invalidText fault)

theorem received_alike (bytes : List UInt8) {size : Nat} (large : 4 ≤ size) :
    (received bytes (some size)).Alike True (received bytes none) :=
  Content.ofInput_alike (.bytes trivial (Input.ofBytes_gathered bytes large))

/-- Whatever its bytes are, reading a document in blocks gives what reading it at once does, values
and errors alike, or it is a fault in the bytes of a text. -/
theorem reading_bytes_in_blocks (bytes : List UInt8) {size : Nat} (large : 4 ≤ size) :
    SameUnlessFaulty (Shape.any.readDocument (received bytes (some size)))
        (Shape.any.readDocument (received bytes none)) ∧
      SameUnlessFaulty (Registry.ofDocument (received bytes (some size)))
        (Registry.ofDocument (received bytes none)) := by
  have contents := received_alike bytes large
  exact ⟨(Shape.readDocument_any_alike contents).eq_or.imp_right And.right,
    (Registry.ofDocument_alike contents).eq_or.imp_right And.right⟩

def garbled : List UInt8 := Text.Utf8.encode "<a x=\"bc" ++ 0xFF :: Text.Utf8.encode "\"/>"

theorem garbled_in_blocks : 4 ≤ 4 ∧
    SameUnlessFaulty (Shape.any.readDocument (received garbled (some 4)))
        (Shape.any.readDocument (received garbled none)) ∧
      SameUnlessFaulty (Registry.ofDocument (received garbled (some 4)))
        (Registry.ofDocument (received garbled none)) :=
  ⟨by decide, reading_bytes_in_blocks garbled (by decide)⟩

-- The fault is counted from where its block begins.
example :
    Shape.any.readDocument (received garbled (some 4)) = .error (.invalidText ⟨0, some 1⟩) ∧
      Shape.any.readDocument (received garbled none) = .error (.invalidText ⟨2, some 1⟩) :=
  ⟨rfl, rfl⟩

end Xml

end VulkanBindings
