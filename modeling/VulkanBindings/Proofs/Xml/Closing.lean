import VulkanBindings.Proofs.Xml.Moves

/-! Closing tags. One is accepted if what is written in it, apart from white space, is the name of the
innermost open element. -/

set_option autoImplicit false

namespace VulkanBindings.Xml

open Text (isBlank)

namespace Input

/-- The characters that are read one by one between two points of a document. -/
inductive Yields : Input → List Char → Input → Prop
  | nil (input : Input) : Yields input [] input
  | cons {input later rest : Input} {c : Char} {text : List Char} (first : input.next = .ok (c, later))
    (others : Yields later text rest) : Yields input (c :: text) rest

variable {input later rest : Input} {text more : List Char}

theorem Yields.append (first : input.Yields text later) (others : later.Yields more rest) :
    input.Yields (text ++ more) rest := by
  induction first with
  | nil => exact others
  | cons here _ ih => exact .cons here (ih others)

theorem exists_yields_go {σ β : Type} {step : σ → Char → Except Error (σ ⊕ β)} {state : σ} {result : β}
    {fuel : Nat} (read : run.go step fuel state input = .ok (result, rest)) :
    ∃ text, input.Yields text rest ∧ Characters.run step state text = .ok (result, []) := by
  induction fuel generalizing state input with
  | zero => cases read
  | succ fuel ih =>
    rw [run.go] at read
    obtain ⟨⟨c, later⟩, first, read⟩ := exists_of_bind_eq_ok read
    obtain ⟨answer, answers, read⟩ := exists_of_bind_eq_ok read
    obtain state | result := answer
    · obtain ⟨text, yields, ran⟩ := ih read
      refine ⟨c :: text, .cons first yields, ?_⟩
      rw [Characters.run, answers]
      exact ran
    · cases read
      refine ⟨[c], .cons first (.nil _), ?_⟩
      rw [Characters.run, answers]
      rfl

end Input

namespace Characters

open Scanner (visibleStep closingStep)

variable {text : List Char} {c : Char} {name : String} {read : List Char}

theorem exists_of_run_visible (ran : run visibleStep () text = .ok (c, [])) :
    ∃ lead, text = lead ++ [c] ∧ ∀ d ∈ lead, isBlank d := by
  induction text with
  | nil => cases ran
  | cons d text ih =>
    rw [run, visibleStep] at ran
    by_cases blank : isBlank d
    · rw [if_pos blank] at ran
      obtain ⟨lead, rfl, blanks⟩ := ih ran
      exact ⟨d :: lead, rfl, List.forall_mem_cons.2 ⟨blank, blanks⟩⟩
    · rw [if_neg blank] at ran
      cases ran
      exact ⟨[], rfl, nofun⟩

theorem exists_of_run_closing (ran : run closingStep read text = .ok (name, [])) :
    ∃ tag, text = tag ++ ['>'] ∧ '>' ∉ tag ∧
      name = .ofList (read.reverse ++ tag.filter fun d => !isBlank d) := by
  induction text generalizing read with
  | nil => cases ran
  | cons d text ih =>
    rw [run, closingStep] at ran
    by_cases blank : isBlank d
    · rw [if_pos blank] at ran
      obtain ⟨tag, rfl, inside, rfl⟩ := ih ran
      have other : '>' ≠ d := by
        rintro rfl
        exact absurd blank (by decide)
      exact ⟨d :: tag, rfl, by simp [other, inside], by simp [blank]⟩
    by_cases ends : d = '>'
    · rw [if_neg blank, if_pos ends] at ran
      cases ran
      exact ⟨[], by rw [ends]; rfl, nofun, by simp⟩
    · rw [if_neg blank, if_neg ends] at ran
      obtain ⟨tag, rfl, inside, rfl⟩ := ih ran
      exact ⟨d :: tag, rfl, by simp [Ne.symm ends, inside], by simp [blank]⟩

end Characters

/-- A closing tag for an element of that name, which may have white space before it and anywhere in it
behind the slash. -/
def IsClosing (written : List Char) (name : String) : Prop :=
  ∃ lead tag, written = lead ++ '<' :: '/' :: tag ++ ['>'] ∧ (∀ c ∈ lead, isBlank c) ∧ '>' ∉ tag ∧
    name = .ofList (tag.filter fun c => !isBlank c)

/-- An element that ends in its text is closed by a tag with the name of the innermost open one. -/
theorem Scanner.Move.exists_closing {s next : Scanner} {left : Nat}
    (move : s.Move (some (.closed left)) next) (inText : s.inTag = false) :
    ∃ written name, s.input.Yields written next.input ∧ IsClosing written name ∧
      s.stack = name :: next.stack := by
  cases move with
  | selfClosing => cases inText
  | closing found slash reads =>
    obtain ⟨first, blanks, ran⟩ := Input.exists_yields_go found
    obtain ⟨lead, rfl, blank⟩ := Characters.exists_of_run_visible ran
    obtain ⟨last, name, ran⟩ := Input.exists_yields_go reads
    obtain ⟨tag, rfl, inside, rfl⟩ := Characters.exists_of_run_closing ran
    refine ⟨_, _, blanks.append (.cons slash name), ⟨lead, tag, ?_, blank, inside, ?_⟩, rfl⟩
    · simp
    · simp

end VulkanBindings.Xml
