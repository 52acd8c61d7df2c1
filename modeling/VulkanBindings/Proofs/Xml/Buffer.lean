import Mathlib.Logic.Relation
import VulkanBindings.Proofs.Xml.Elements

/-! The scanner as it keeps characters. Names and texts of all kinds are collected in one buffer, which
has to be empty when the next one begins: a closing tag is compared to all that is in it. Between steps
it is empty, so that this is the same scanner. -/

set_option autoImplicit false

namespace VulkanBindings.Xml

open Scanner (InTag inTagStep visibleStep commentStep instructionStep quoteStep isSpace meant)
open Text (isBlank)

/-- A scanner with the characters that it has read of a name or text. -/
structure Buffered extends Scanner where
  buffer : List Char

namespace Buffered

def start (input : Input) : Buffered := ⟨.start input, []⟩

def push (s : Buffered) (c : Char) : Buffered := { s with buffer := s.buffer ++ [c] }

def clear (s : Buffered) : Buffered := { s with buffer := [] }

def readUntil (stop : UInt8 → Bool) (s : Buffered) : Except Error (UInt8 × Buffered) := do
  let (text, b, input) ← s.input.readUntil stop
  return (b, { s with input, buffer := s.buffer ++ text })

def skip (s : Buffered) : Buffered := { s with input := s.input.skip }

abbrev Outcome := Option Event × Except Error Buffered

def readAttribute (s : Buffered) (first : Char) : Outcome :=
  match (s.push first).readUntil fun b => isSpace b || b = '='.toUInt8 with
  | .error e => (none, .error e)
  | .ok (_, s) =>
    let name := String.ofList s.buffer
    let s := s.skip.clear
    match s.input.run quoteStep () with
    | .error e => (some (.leaf name (.unquoted e)), .error e)
    | .ok (_, input) =>
      match { s with input }.readUntil (· = '"'.toUInt8) with
      | .error e => (some (.leaf name (.attribute (.error e))), .error e)
      | .ok (_, s) => (some (.leaf name (.attribute (.ok (meant s.buffer)))), .ok s.skip.clear)

def readText (s : Buffered) (first : Char) : Outcome :=
  match (s.push first).readUntil (· = '<'.toUInt8) with
  | .error e => (some (.leaf textName (.body (.error e))), .error e)
  | .ok (_, s) => (some (.leaf textName (.body (.ok (meant s.buffer)))), .ok s.clear)

def readTag (s : Buffered) (first : Char) : Outcome :=
  match (s.push first).readUntil fun b => isSpace b || b = '>'.toUInt8 || b = '/'.toUInt8 with
  | .error e => (none, .error e)
  | .ok (b, s) =>
    let name := String.ofList s.buffer
    let bare := b = '>'.toUInt8
    let s := if b = '/'.toUInt8 then s else s.skip
    (some (.opened name bare), .ok { s.clear with inTag := !bare, stack := name :: s.stack })

def closingStep (buffer : List Char) (c : Char) : Except Error (List Char ⊕ List Char) :=
  .ok (if isBlank c then .inl buffer
    else if c = '>' then .inr buffer
    else .inl (buffer ++ [c]))

def readClosing (s : Buffered) : Outcome :=
  match s.input.run closingStep s.buffer with
  | .error e => (none, .error e)
  | .ok (buffer, input) =>
    let name := String.ofList buffer
    match s.stack with
    | [] => (none, .error (.closingTag name none))
    | top :: stack =>
      if top = name then
        (some (.closed input.left), .ok (clear ⟨⟨false, stack, input⟩, buffer⟩))
      else (none, .error (.closingTag name (some top)))

def passOver (s : Buffered) (read : Except Error (Unit × Input)) : Outcome :=
  (none, read.map fun (_, input) => { s with input })

def readMarkup (s : Buffered) : Outcome :=
  match s.input.next with
  | .error e => (none, .error e)
  | .ok (c, input) =>
    let s := { s with input }
    if c = '/' then s.readClosing
    else if c = '!' then s.passOver (input.run commentStep .none)
    else if c = '?' then s.passOver (input.run instructionStep false)
    else s.readTag c

def step (s : Buffered) : Outcome :=
  if s.inTag then
    match s.input.run inTagStep false with
    | .error e => (none, .error e)
    | .ok (.attribute first, input) => readAttribute { s with input } first
    | .ok (.content, input) => (none, .ok { s with inTag := false, input })
    | .ok (.closed, input) =>
      (some (.closed input.left), .ok { s with inTag := false, stack := s.stack.tail, input })
  else
    match s.input.run visibleStep () with
    | .error e => (none, .error e)
    | .ok (c, input) =>
      if c = '<' then readMarkup { s with input } else readText { s with input } c

section Clean

variable (s : Scanner) (first : Char) (input : Input)

def clean (s : Scanner) : Buffered := ⟨s, []⟩

def outcome (found : Scanner.Outcome) : Outcome := (found.1, clean <$> found.2)

theorem readAttribute_clean :
    readAttribute (clean { s with input }) first = outcome (s.readAttribute first input) := by
  unfold readAttribute Scanner.readAttribute
  simp only [readUntil, push, clean]
  cases input.readUntil fun b => isSpace b || b = '='.toUInt8 with
  | error e => rfl
  | ok found =>
    obtain ⟨name, b, equals⟩ := found
    simp only [skip, clear, bind, Except.bind, pure, Except.pure]
    cases equals.skip.run quoteStep () with
    | error e => rfl
    | ok found =>
      obtain ⟨-, quoted⟩ := found
      dsimp only
      cases quoted.readUntil (· = '"'.toUInt8) with
      | error e => rfl
      | ok found => rfl

theorem readText_clean :
    readText (clean { s with input }) first = outcome (s.readText first input) := by
  unfold readText Scanner.readText
  simp only [readUntil, push, clean]
  cases input.readUntil (· = '<'.toUInt8) with
  | error e => rfl
  | ok found => rfl

theorem readTag_clean : readTag (clean { s with input }) first = outcome (s.readTag first input) := by
  unfold readTag Scanner.readTag
  simp only [readUntil, push, clean]
  cases input.readUntil fun b => isSpace b || b = '>'.toUInt8 || b = '/'.toUInt8 with
  | error e => rfl
  | ok found =>
    obtain ⟨name, b, rest⟩ := found
    simp only [bind, Except.bind, pure, Except.pure]
    split <;> rfl

/-- The buffer holds in order what the scanner collects from behind. -/
theorem run_go_closingStep (n : Nat) (buffer : List Char) :
    Input.run.go Scanner.closingStep n buffer.reverse input =
      (fun found => (String.ofList found.1, found.2)) <$> Input.run.go closingStep n buffer input := by
  induction n generalizing buffer input with
  | zero => rfl
  | succ n ih =>
    rw [Input.run.go, Input.run.go]
    cases input.next with
    | error e => rfl
    | ok found =>
      obtain ⟨c, later⟩ := found
      dsimp only [bind, Except.bind, Scanner.closingStep, closingStep]
      by_cases blank : isBlank c
      · simp only [if_pos blank]
        exact ih later buffer
      by_cases ends : c = '>'
      · simp only [if_neg blank, if_pos ends, List.reverse_reverse]
        rfl
      · simp only [if_neg blank, if_neg ends]
        rw [← ih, List.reverse_concat]

theorem readClosing_clean : readClosing (clean { s with input }) = outcome (s.readClosing input) := by
  unfold readClosing Scanner.readClosing
  have same : input.run Scanner.closingStep [] =
      (fun found => (String.ofList found.1, found.2)) <$> input.run closingStep [] :=
    run_go_closingStep input input.left []
  rw [same]
  simp only [clean]
  cases input.run closingStep [] with
  | error e => rfl
  | ok found =>
    obtain ⟨buffer, rest⟩ := found
    dsimp only [Functor.map, Except.map]
    cases s.stack with
    | nil => rfl
    | cons top stack =>
      dsimp only
      split <;> rfl

theorem passOver_clean (read : Except Error (Unit × Input)) :
    passOver (clean { s with input }) read = outcome (s.passOver read) := by
  cases read <;> rfl

theorem readMarkup_clean : readMarkup (clean { s with input }) = outcome (s.readMarkup input) := by
  unfold readMarkup Scanner.readMarkup
  simp only [clean]
  cases input.next with
  | error e => rfl
  | ok found =>
    obtain ⟨c, rest⟩ := found
    dsimp only
    split
    · exact readClosing_clean s rest
    split
    · exact passOver_clean s rest _
    split
    · exact passOver_clean s rest _
    · exact readTag_clean s c rest

theorem step_clean : SameSteps Scanner.step step clean := by
  intro s
  change step (clean s) = outcome s.step
  rw [Scanner.step_eq, step]
  obtain ⟨inTag, stack, input⟩ := s
  cases inTag with
  | true =>
    simp only [clean, if_true]
    cases input.run inTagStep false with
    | error e => rfl
    | ok found =>
      obtain ⟨first | - | -, rest⟩ := found
      · exact readAttribute_clean ⟨true, stack, input⟩ first rest
      · rfl
      · rfl
  | false =>
    simp only [clean, Bool.false_eq_true, if_false]
    cases input.run visibleStep () with
    | error e => rfl
    | ok found =>
      obtain ⟨c, rest⟩ := found
      dsimp only
      split
      · exact readMarkup_clean ⟨false, stack, input⟩ rest
      · exact readText_clean ⟨false, stack, input⟩ c rest

/-- How steps lead from one state to another. -/
def Reaches : Buffered → Buffered → Prop :=
  Relation.ReflTransGen fun s next => ∃ event, s.step = (event, .ok next)

/-- Whatever has been read before, the buffer is empty between steps. -/
theorem exists_clean {input : Input} {s : Buffered} (reached : Reaches (start input) s) :
    ∃ scanner, s = clean scanner := by
  induction reached with
  | refl => exact ⟨.start input, rfl⟩
  | tail _ here ih =>
    obtain ⟨scanner, rfl⟩ := ih
    obtain ⟨event, here⟩ := here
    obtain ⟨next, -, rfl⟩ := step_clean.step_eq_ok.1 here
    exact ⟨next, rfl⟩

end Clean

end Buffered

end VulkanBindings.Xml
