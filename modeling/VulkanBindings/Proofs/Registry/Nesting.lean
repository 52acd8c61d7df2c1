import VulkanBindings.Proofs.Registry.Extent
import VulkanBindings.Proofs.Xml.Buffer
import VulkanBindings.Proofs.Xml.Closing

/-! The nesting of elements. A document that can be read is read by steps of the scanner with its one
buffer, from the start to behind the root. At its end every element leaves the stack as it found it and
the buffer empty, and only a tag with its own name closes it. -/

set_option autoImplicit false

namespace VulkanBindings.Xml

namespace Buffered

/-- Nothing is left in the buffer, and what becomes of the elements that begin or end here. -/
structure Nests (s : Buffered) : Prop where
  empty : s.buffer = []
  element : ∀ {name : String} {bare : Bool} {next last : Buffered} {entries : List (String × Node)}
    {left : Nat}, s.step = (some (.opened name bare), .ok next) → ReadsRest step next entries left last →
      next.stack = name :: s.stack ∧ last.stack = s.stack ∧ last.inTag = false ∧ last.buffer = []
  closing : ∀ {left : Nat} {next : Buffered}, s.inTag = false →
    s.step = (some (.closed left), .ok next) → ∃ written name, s.input.Yields written next.input ∧
      IsClosing written name ∧ s.stack = name :: next.stack

open Scanner (step_eq_ok)

theorem nests_clean (s : Scanner) : (clean s).Nests where
  empty := rfl
  element opened inside := by
    obtain ⟨next, here, rfl⟩ := step_clean.step_eq_ok.1 opened
    obtain ⟨last, reads, rfl⟩ := step_clean.exists_readsRest inside
    have pushed := (step_eq_ok.1 here).stack_eq
    obtain ⟨popped, inText, -⟩ := reads.ends
    exact ⟨pushed, popped.trans (congrArg List.tail pushed), inText, rfl⟩
  closing inText closed := by
    obtain ⟨next, here, rfl⟩ := step_clean.step_eq_ok.1 closed
    exact (step_eq_ok.1 here).exists_closing inText

end Buffered

/-- Wherever reading gets to, elements are nested; and if a document can be read, its root is read to
the end, which leaves no element open. -/
theorem reading_nests {input : Input}
    (found : (∃ value, Shape.any.readDocument (.ofInput input) = .ok value) ∨
      (∃ value, Shape.ignored.readDocument (.ofInput input) = .ok value) ∨
      ∃ r, Registry.ofDocument (.ofInput input) = .ok r) :
    (∃ name node last, (Content.ofInput input).root = .ok node ∧
      ReadsElement Buffered.step (.start input) name node last ∧
      last.stack = [] ∧ last.inTag = false ∧ last.buffer = []) ∧
    ∀ s, Buffered.Reaches (.start input) s → s.Nests := by
  have reads : ∃ name node last, (Content.ofInput input).root = .ok node ∧
      ReadsElement Scanner.step (.start input) name node last := by
    obtain ⟨_, found⟩ | ⟨_, found⟩ | ⟨_, found⟩ := found
    · exact Shape.any_takesRoot.exists_readsElement found
    · exact Shape.ignored_takesRoot.exists_readsElement found
    · exact Registry.ofDocument_takesRoot.exists_readsElement found
  obtain ⟨name, node, last, root, reads⟩ := reads
  obtain ⟨stack, inText, -⟩ := reads.ends
  refine ⟨⟨name, node, Buffered.clean last, root, Buffered.step_clean.readsElement reads, stack, inText,
    rfl⟩, fun s reached => ?_⟩
  obtain ⟨scanner, rfl⟩ := Buffered.exists_clean reached
  exact Buffered.nests_clean scanner

def nested : Input := .ofBytes (Text.Utf8.encode "<r><x y=\"1\"/><comment>n</com ment\n></r> <z") none

theorem nested_nests : Registry.ofDocument (.ofInput nested) = .ok { comments := ["n"] } ∧
    (∃ name node last, (Content.ofInput nested).root = .ok node ∧
      ReadsElement Buffered.step (.start nested) name node last ∧
      last.stack = [] ∧ last.inTag = false ∧ last.buffer = []) ∧
    ∀ s, Buffered.Reaches (.start nested) s → s.Nests := by
  have found : Registry.ofDocument (.ofInput nested) = .ok { comments := ["n"] } := by decide +kernel
  exact ⟨found, reading_nests (.inr (.inr ⟨_, found⟩))⟩

end VulkanBindings.Xml
