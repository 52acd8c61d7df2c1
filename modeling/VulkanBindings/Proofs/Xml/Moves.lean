import VulkanBindings.Proofs.Xml.Scan

/-! What one step of the scanner can do, said once: what it reads of the input, which event that is,
and what becomes of the stack. -/

set_option autoImplicit false

namespace VulkanBindings.Xml

namespace Input

variable {input rest : Input}

theorem next_left {c : Char} (read : input.next = .ok (c, rest)) : rest.left ≤ input.left - 1 := by
  unfold next at read
  split at read
  · cases read
  split at read
  · cases read
  split at read
  · cases read
  · cases read
  · cases read
    dsimp only
    omega

theorem run_go_left {σ β : Type} {step : σ → Char → Except Error (σ ⊕ β)} {state : σ} {result : β}
    {fuel : Nat} (read : run.go step fuel state input = .ok (result, rest)) :
    rest.left ≤ input.left - 1 := by
  induction fuel generalizing state input with
  | zero => cases read
  | succ fuel ih =>
    rw [run.go] at read
    obtain ⟨⟨c, later⟩, first, read⟩ := exists_of_bind_eq_ok read
    obtain ⟨answer, -, read⟩ := exists_of_bind_eq_ok read
    have shorter := next_left first
    obtain state | result := answer
    · have := ih read
      omega
    · cases read
      exact shorter

theorem run_left {σ β : Type} {step : σ → Char → Except Error (σ ⊕ β)} {state : σ} {result : β}
    (read : input.run step state = .ok (result, rest)) : rest.left < input.left := by
  have shorter := run_go_left read
  cases filled : input.left with
  | zero => rw [run, filled] at read; cases read
  | succ n => omega

theorem readUntil_left {stop : UInt8 → Bool} {text : List Char} {b : UInt8}
    (read : input.readUntil stop = .ok (text, b, rest)) : rest.left ≤ input.left := by
  obtain ⟨found, -, read⟩ := exists_of_bind_eq_ok read
  cases read
  exact Nat.sub_le ..

theorem skip_left (input : Input) : input.skip.left ≤ input.left := by
  unfold skip
  split
  · exact Nat.le_refl _
  · exact Nat.sub_le ..

end Input

namespace Scanner

/-- What one step can do: the event that it finds, if any, between two states of the scanner. -/
inductive Move : Scanner → Option Event → Scanner → Prop
  | assignment {stack : List String} {input named equals quoted rest : Input} {first : Char}
    {name text : List Char} {b quote : UInt8}
    (found : input.run inTagStep false = .ok (.attribute first, named))
    (reads : named.readUntil (fun b => isSpace b || b = '='.toUInt8) = .ok (name, b, equals))
    (opens : equals.skip.run quoteStep () = .ok ((), quoted))
    (value : quoted.readUntil (· = '"'.toUInt8) = .ok (text, quote, rest)) :
    Move ⟨true, stack, input⟩
      (some (.leaf (.ofList (first :: name)) (.attribute (.ok (meant text))))) ⟨true, stack, rest.skip⟩
  | tagEnd {stack : List String} {input rest : Input}
    (found : input.run inTagStep false = .ok (.content, rest)) :
    Move ⟨true, stack, input⟩ none ⟨false, stack, rest⟩
  | selfClosing {stack : List String} {input rest : Input}
    (found : input.run inTagStep false = .ok (.closed, rest)) :
    Move ⟨true, stack, input⟩ (some (.closed rest.left)) ⟨false, stack.tail, rest⟩
  | text {stack : List String} {input shown rest : Input} {first : Char} {text : List Char} {b : UInt8}
    (found : input.run visibleStep () = .ok (first, shown)) (notLess : first ≠ '<')
    (reads : shown.readUntil (· = '<'.toUInt8) = .ok (text, b, rest)) :
    Move ⟨false, stack, input⟩ (some (.leaf textName (.body (.ok (meant (first :: text))))))
      ⟨false, stack, rest⟩
  | closing {name : String} {stack : List String} {input shown marked rest : Input}
    (found : input.run visibleStep () = .ok ('<', shown)) (slash : shown.next = .ok ('/', marked))
    (reads : marked.run closingStep [] = .ok (name, rest)) :
    Move ⟨false, name :: stack, input⟩ (some (.closed rest.left)) ⟨false, stack, rest⟩
  | comment {stack : List String} {input shown marked rest : Input}
    (found : input.run visibleStep () = .ok ('<', shown)) (mark : shown.next = .ok ('!', marked))
    (reads : marked.run commentStep .none = .ok ((), rest)) :
    Move ⟨false, stack, input⟩ none ⟨false, stack, rest⟩
  | instruction {stack : List String} {input shown marked rest : Input}
    (found : input.run visibleStep () = .ok ('<', shown)) (mark : shown.next = .ok ('?', marked))
    (reads : marked.run instructionStep false = .ok ((), rest)) :
    Move ⟨false, stack, input⟩ none ⟨false, stack, rest⟩
  | opening {stack : List String} {input shown named rest : Input} {first : Char} {name : List Char}
    {b : UInt8} (found : input.run visibleStep () = .ok ('<', shown))
    (begins : shown.next = .ok (first, named)) (notMark : first ≠ '/' ∧ first ≠ '!' ∧ first ≠ '?')
    (reads : named.readUntil (fun b => isSpace b || b = '>'.toUInt8 || b = '/'.toUInt8) =
      .ok (name, b, rest)) :
    Move ⟨false, stack, input⟩ (some (.opened (.ofList (first :: name)) (b = '>'.toUInt8)))
      ⟨!(b = '>'.toUInt8), .ofList (first :: name) :: stack, if b = '/'.toUInt8 then rest else rest.skip⟩

variable {s next : Scanner} {event : Option Event} {input : Input}

theorem move_of_readAttribute {stack : List String} {first : Char} {named : Input}
    (found : input.run inTagStep false = .ok (.attribute first, named))
    (step : readAttribute ⟨true, stack, input⟩ first named = (event, .ok next)) :
    Move ⟨true, stack, input⟩ event next := by
  unfold readAttribute at step
  split at step
  · cases step
  · next name b equals reads =>
    split at step
    · cases step
    · next quoted opens =>
      split at step
      · cases step
      · next text quote rest value =>
        cases step
        exact .assignment found reads opens value

theorem exists_of_passOver {read : Except Error (Unit × Input)}
    (step : s.passOver read = (event, .ok next)) :
    ∃ rest, read = .ok ((), rest) ∧ event = none ∧ next = { s with input := rest } := by
  cases read with
  | error e => cases step
  | ok found =>
    cases step
    exact ⟨found.2, rfl, rfl, rfl⟩

theorem move_of_readMarkup {stack : List String} {shown : Input}
    (found : input.run visibleStep () = .ok ('<', shown))
    (step : readMarkup ⟨false, stack, input⟩ shown = (event, .ok next)) :
    Move ⟨false, stack, input⟩ event next := by
  unfold readMarkup at step
  split at step
  · cases step
  next first marked begins =>
  split at step
  · next slash =>
    subst slash
    unfold readClosing at step
    split at step
    · cases step
    · next name rest reads =>
      dsimp only at step
      cases stack with
      | nil => cases step
      | cons top stack =>
        dsimp only at step
        split at step
        · next same =>
          subst same
          cases step
          exact .closing found begins reads
        · cases step
  split at step
  · next mark =>
    subst mark
    obtain ⟨rest, reads, rfl, rfl⟩ := exists_of_passOver step
    exact .comment found begins reads
  split at step
  · next mark =>
    subst mark
    obtain ⟨rest, reads, rfl, rfl⟩ := exists_of_passOver step
    exact .instruction found begins reads
  next notSlash notMark notQuestion =>
  unfold readTag at step
  split at step
  · cases step
  · next name b rest reads =>
    cases step
    exact .opening found begins ⟨notSlash, notMark, notQuestion⟩ reads

theorem step_eq_ok : s.step = (event, .ok next) ↔ s.Move event next := by
  constructor
  · -- The scanner decides by what it has seen, and each way through its decisions is one rule.
    intro taken
    obtain ⟨inTag, stack, input⟩ := s
    rw [step_eq] at taken
    cases inTag with
    | true =>
      simp only [if_true] at taken
      split at taken
      · cases taken
      · next first named found => exact move_of_readAttribute found taken
      · next rest found =>
        cases taken
        exact .tagEnd found
      · next rest found =>
        cases taken
        exact .selfClosing found
    | false =>
      simp only [Bool.false_eq_true, if_false] at taken
      split at taken
      · cases taken
      · next first shown found =>
        split at taken
        · next less =>
          subst less
          exact move_of_readMarkup found taken
        · next notLess =>
          unfold readText at taken
          split at taken
          · cases taken
          · next text b rest reads =>
            cases taken
            exact .text found notLess reads
  · intro move
    rw [step_eq]
    cases move with
    | assignment found reads opens value => simp [found, readAttribute, reads, opens, value]
    | tagEnd found => simp [found]
    | selfClosing found => simp [found]
    | text found notLess reads => simp [found, notLess, readText, reads]
    | closing found slash reads => simp [found, readMarkup, slash, readClosing, reads]
    | comment found mark reads => simp [found, readMarkup, mark, passOver, reads, Except.map]
    | instruction found mark reads => simp [found, readMarkup, mark, passOver, reads, Except.map]
    | opening found begins notMark reads => simp [found, readMarkup, begins, notMark, readTag, reads]

def stackAfter : Option Event → List String → List String
  | some (.opened name _), stack => name :: stack
  | some (.closed _), stack => stack.tail
  | _, stack => stack

namespace Move

theorem shorter (move : s.Move event next) : next.input.left < s.input.left := by
  cases move with
  | assignment found reads opens value =>
    have first := Input.run_left found
    have name := Input.readUntil_left reads
    have skipped := Input.skip_left
    have quote := Input.run_left opens
    have text := Input.readUntil_left value
    exact (skipped _).trans_lt (text.trans_lt (quote.trans_le ((skipped _).trans
      (name.trans first.le))))
  | tagEnd found => exact Input.run_left found
  | selfClosing found => exact Input.run_left found
  | text found _ reads => exact (Input.readUntil_left reads).trans_lt (Input.run_left found)
  | closing found mark reads | comment found mark reads | instruction found mark reads =>
    have first := Input.run_left found
    have second := Input.next_left mark
    have third := Input.run_left reads
    dsimp only
    omega
  | @opening _ _ _ _ rest _ _ _ found begins _ reads =>
    have first := Input.run_left found
    have second := Input.next_left begins
    have name := Input.readUntil_left reads
    have skipped := Input.skip_left rest
    dsimp only
    split <;> omega

theorem stack_eq (move : s.Move event next) : next.stack = stackAfter event s.stack := by
  cases move <;> rfl

theorem closed {left : Nat} (move : s.Move (some (.closed left)) next) :
    next.inTag = false ∧ next.input.left = left := by
  cases move <;> exact ⟨rfl, rfl⟩

end Move

end Scanner

end VulkanBindings.Xml
