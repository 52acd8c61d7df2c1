import Mathlib.Data.List.DropRight
import VulkanBindings.Proofs.Xml.Prefix
import VulkanBindings.Proofs.Xml.Steps

/-! Comments and processing instructions, which stand between the entries of a document without being
entries. One whose end is noticed is passed over in a single step. -/

set_option autoImplicit false

namespace VulkanBindings.Xml

open Text (isBlank)
open Text.Utf8 (bytes)
open Scanner (visibleStep commentStep instructionStep)

/-- What may stand between entries without being one. -/
inductive Remark where
  | comment (text : List Char)
  | instruction (text : List Char)

namespace Remark

def written : Remark → List Char
  | .comment text => '<' :: '!' :: '-' :: '-' :: text ++ ['-', '-', '>']
  | .instruction text => '<' :: '?' :: text ++ ['?', '>']

/-- Nothing in its text looks like its end. -/
def IsWellFormed : Remark → Prop
  | .comment text => ¬['-', '-'] <:+: text ∧ text.getLast? ≠ some '-'
  | .instruction text => ¬['?', '>'] <:+: text

instance : (remark : Remark) → Decidable remark.IsWellFormed
  | .comment _ => inferInstanceAs (Decidable (_ ∧ _))
  | .instruction _ => inferInstanceAs (Decidable ¬_)

/-- The end is noticed where it stands. The scanner takes the first character of a comment for a part of
the mark before it unless that is a bracket, which it takes for the end; and of question marks in a row
it looks at every other one. -/
def EndsNoticed : Remark → Prop
  | .comment text => text ≠ [] ∧ text.head? ≠ some '>'
  | .instruction text => Even (text.rtakeWhile (· = '?')).length

instance : (remark : Remark) → Decidable remark.EndsNoticed
  | .comment _ => inferInstanceAs (Decidable (_ ∧ _))
  | .instruction _ => inferInstanceAs (Decidable (Even _))

end Remark

namespace Characters

section Steps

variable {σ β : Type} {step : σ → Char → Except Error (σ ⊕ β)} {state next : σ} {c : Char}

theorem run_next (text : List Char) (goesOn : step state c = .ok (.inl next)) :
    run step state (c :: text) = run step next text := by
  rw [run, goesOn]
  rfl

theorem run_comment_cons (text : List Char) (notDash : c ≠ '-') :
    run commentStep .none (c :: text) = run commentStep .none text :=
  run_next text (by simp [commentStep, notDash])

theorem run_comment_dash (text : List Char) (notDash : c ≠ '-') :
    run commentStep .none ('-' :: c :: text) = run commentStep .none text :=
  (run_next _ rfl).trans (run_next text (by simp [commentStep, notDash]))

end Steps

theorem run_comment : ∀ {text : List Char}, ¬['-', '-'] <:+: text → text.getLast? ≠ some '-' →
    run commentStep .none (text ++ ['-', '-', '>']) = .ok ((), [])
  | [], _, _ => rfl
  | [c], _, last => run_comment_cons _ fun same => last (congrArg some same)
  | c :: d :: text, apart, last => by
    have tail : ¬['-', '-'] <:+: d :: text := fun inside => apart (inside.trans (List.suffix_cons ..).isInfix)
    by_cases dash : c = '-'
    · subst dash
      have notDash : d ≠ '-' := by
        rintro rfl
        exact apart (List.prefix_append ['-', '-'] text).isInfix
      have later : ¬['-', '-'] <:+: text := fun inside => tail (inside.trans (List.suffix_cons ..).isInfix)
      refine (run_comment_dash _ notDash).trans (run_comment later fun same => last ?_)
      cases text with
      | nil => cases same
      | cons => simpa using same
    · exact (run_comment_cons _ dash).trans (run_comment tail (by simpa using last))

theorem run_instruction {text : List Char} (apart : ¬['?', '>'] <:+: text) (after : List Char) :
    run instructionStep false (text ++ after) =
      run instructionStep (¬Even (text.rtakeWhile (· = '?')).length) after := by
  induction text using List.reverseRecOn generalizing after with
  | nil => rfl
  | append_singleton text c ih =>
    have front : ¬['?', '>'] <:+: text := fun inside => apart (inside.trans (List.prefix_append ..).isInfix)
    rw [List.append_assoc, ih front]
    refine run_next after ?_
    by_cases question : c = '?'
    · subst question
      simp [instructionStep, List.rtakeWhile_concat_pos, Nat.even_add_one, -Nat.not_even_iff_odd]
    · -- No question mark is right before a bracket, so none is waiting for it.
      have none : c = '>' → text.rtakeWhile (· = '?') = [] := by
        rintro rfl
        refine List.rtakeWhile_eq_nil_iff.2 fun filled last => apart ?_
        have parts := List.dropLast_append_getLast filled
        rw [of_decide_eq_true last] at parts
        exact ⟨text.dropLast, [], by rw [← parts]; simp⟩
      by_cases bracket : c = '>'
      · simp [instructionStep, List.rtakeWhile_concat_neg, question, none bracket]
      · simp [instructionStep, List.rtakeWhile_concat_neg, question, bracket]

end Characters

namespace Input

variable {front : List UInt8}

theorem single_delivers (text : List Char) : Delivers False (single (bytes text)) text :=
  ⟨List.append_nil _, rfl, fun _ _ mem => ⟨text, List.mem_singleton.1 mem⟩⟩

theorem eq_nil_of_delivers {rest : List UInt8} (delivers : Delivers False (single rest) []) : rest = [] :=
  (List.append_nil rest).symm.trans delivers.whole

theorem takes_next (c : Char) : Takes next (bytes [c]) c := by
  obtain ⟨later, read, left⟩ := next_cons (single_delivers [c])
  obtain ⟨front, rest, parts, -, rfl, takes⟩ := exists_takes_next read
  rw [eq_nil_of_delivers left, List.append_nil] at parts
  exact parts ▸ takes

theorem takes_run {σ β : Type} {step : σ → Char → Except Error (σ ⊕ β)} {state : σ} {result : β}
    {text : List Char} (ran : Characters.run step state text = .ok (result, [])) :
    Takes (run step state) (bytes text) result := by
  obtain ⟨later, read, left⟩ := run_ok (single_delivers text) ran
  obtain ⟨front, rest, parts, -, rfl, takes⟩ := exists_takes_run read
  rw [eq_nil_of_delivers left, List.append_nil] at parts
  exact parts ▸ takes

/-- The bound on a run does not matter if it is no less than the bytes that are left. -/
theorem go_single {σ β : Type} {step : σ → Char → Except Error (σ ⊕ β)} {state : σ} {n m : Nat}
    {bs : List UInt8} (enough : bs.length ≤ n) (enough' : bs.length ≤ m) :
    run.go step n state (single bs) = run.go step m state (single bs) := by
  induction n generalizing bs m state with
  | zero =>
    cases List.eq_nil_of_length_eq_zero (Nat.le_zero.1 enough)
    cases m <;> rfl
  | succ n ih =>
    cases m with
    | zero =>
      cases List.eq_nil_of_length_eq_zero (Nat.le_zero.1 enough')
      rfl
    | succ m =>
      rw [run.go, run.go]
      cases read : (single bs).next with
      | error e => rfl
      | ok found =>
        obtain ⟨c, later⟩ := found
        obtain ⟨front, rest, rfl, filled, rfl, -⟩ := exists_takes_next read
        rw [List.length_append] at enough enough'
        dsimp only [bind, Except.bind]
        cases step state c with
        | error e => rfl
        | ok answer =>
          cases answer with
          | inr result => rfl
          | inl state => exact ih (by omega) (by omega)

theorem run_past {σ β : Type} {step : σ → Char → Except Error (σ ⊕ β)} {state : σ} {passed : List Char}
    (stays : ∀ c ∈ passed, step state c = .ok (.inl state)) (rest : List UInt8) :
    (single (bytes passed ++ rest)).run step state = (single rest).run step state := by
  induction passed with
  | nil => rfl
  | cons c passed ih =>
    obtain ⟨here, later⟩ := List.forall_mem_cons.1 stays
    have first := takes_next c (bytes passed ++ rest)
    have parts : bytes (c :: passed) ++ rest = bytes [c] ++ (bytes passed ++ rest) := by
      rw [← List.append_assoc, ← Text.Utf8.bytes_append, List.singleton_append]
    have filled : 0 < (bytes [c]).length := List.length_pos_iff.2 Text.Utf8.bytes_ne_nil
    have left : (single (bytes [c] ++ (bytes passed ++ rest))).left =
        (bytes [c]).length + (bytes passed ++ rest).length := List.length_append
    rw [← ih later, parts, run, run]
    obtain ⟨n, length⟩ := Nat.exists_eq_add_of_le' (left ▸ Nat.add_pos_left filled _)
    rw [length, run.go, first]
    simp only [here, bind, Except.bind]
    exact go_single (by omega) (Nat.le_refl _)

theorem run_visible_append {spaces : List Char} (blank : ∀ c ∈ spaces, isBlank c) (rest : List UInt8) :
    (single (bytes spaces ++ rest)).run visibleStep () = (single rest).run visibleStep () :=
  run_past (fun c mem => by simp [visibleStep, blank c mem]) rest

theorem run_inTag_append {spaces : List Char} (blank : ∀ c ∈ spaces, isBlank c) (rest : List UInt8) :
    (single (bytes spaces ++ rest)).run Scanner.inTagStep false = (single rest).run Scanner.inTagStep false :=
  run_past (fun c mem => by simp [Scanner.inTagStep, blank c mem]) rest

theorem run_visible_less {spaces : List Char} (blank : ∀ c ∈ spaces, isBlank c) (mark : Char)
    (text : List Char) (rest : List UInt8) :
    (single (bytes spaces ++ (bytes ('<' :: mark :: text) ++ rest))).run visibleStep () =
      .ok ('<', single (bytes [mark] ++ (bytes text ++ rest))) := by
  have parts : bytes ('<' :: mark :: text) = bytes ['<'] ++ (bytes [mark] ++ bytes text) := by
    rw [← Text.Utf8.bytes_append, ← Text.Utf8.bytes_append]
    rfl
  have less : Takes (run visibleStep ()) (bytes ['<']) '<' := takes_run rfl
  rw [run_visible_append blank, parts, List.append_assoc, less, List.append_assoc]

end Input

namespace Remark

theorem comment_run {text : List Char} (wellFormed : (comment text).IsWellFormed)
    (noticed : (comment text).EndsNoticed) :
    Characters.run commentStep .none ('-' :: '-' :: text ++ ['-', '-', '>']) = .ok ((), []) := by
  obtain ⟨apart, last⟩ := wellFormed
  cases text with
  | nil => exact absurd rfl noticed.1
  | cons c text =>
    have notEnd : c ≠ '>' := fun same => noticed.2 (congrArg some same)
    have first : commentStep .dashes c = .ok (.inl .none) := by simp [commentStep, notEnd]
    have later : ¬['-', '-'] <:+: text := fun inside => apart (inside.trans (List.suffix_cons ..).isInfix)
    refine (Characters.run_next _ rfl).trans ((Characters.run_next _ rfl).trans
      ((Characters.run_next _ first).trans (Characters.run_comment later fun same => last ?_)))
    cases text with
    | nil => cases same
    | cons => simpa using same

theorem instruction_run {text : List Char} (wellFormed : (instruction text).IsWellFormed)
    (noticed : (instruction text).EndsNoticed) :
    Characters.run instructionStep false (text ++ ['?', '>']) = .ok ((), []) := by
  have even : Even (text.rtakeWhile (· = '?')).length := noticed
  rw [Characters.run_instruction wellFormed, decide_eq_false (not_not.2 even)]
  rfl

/-- A remark is passed over in a step, with the white space before it. -/
theorem step {remark : Remark} (wellFormed : remark.IsWellFormed) (noticed : remark.EndsNoticed)
    (stack : List String) {spaces : List Char} (blank : ∀ c ∈ spaces, isBlank c) (rest : List UInt8) :
    Scanner.step ⟨false, stack, .single (bytes spaces ++ (bytes remark.written ++ rest))⟩ =
      (none, .ok ⟨false, stack, .single rest⟩) := by
  rw [Scanner.step_eq_ok]
  cases remark with
  | comment text =>
    exact .comment (Input.run_visible_less blank '!' _ rest) (Input.takes_next '!' _)
      (Input.takes_run (comment_run wellFormed noticed) rest)
  | instruction text =>
    exact .instruction (Input.run_visible_less blank '?' _ rest) (Input.takes_next '?' _)
      (Input.takes_run (instruction_run wellFormed noticed) rest)

theorem exists_less (remark : Remark) : ∃ tail, bytes remark.written = '<'.toUInt8 :: tail := by
  cases remark <;> exact ⟨_, rfl⟩

end Remark

end VulkanBindings.Xml
