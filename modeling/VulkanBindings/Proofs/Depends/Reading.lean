import VulkanBindings.Proofs.Depends.Grammar

/-! Reading dependency expressions. The bound on the number of tokens is never reached, trees are read
back from their tokens, and some tokens make no difference at the end of an expression. -/

set_option autoImplicit false

namespace VulkanBindings.Depends

namespace Expr

theorem afterClosing_suffix (ts : List Token) : afterClosing ts <:+ ts := by
  unfold afterClosing
  split
  · apply List.suffix_cons
  · apply List.suffix_rfl

theorem read_suffix (n : Nat) :
    (∀ ts, (readTerm n ts).2 <:+ ts) ∧ ∀ left ts, (readMore n left ts).2 <:+ ts := by
  induction n with
  | zero =>
    constructor
    · intro ts
      rcases ts with _ | ⟨_ | _ | _ | _, rest⟩ <;> simp [readTerm]
    · intro left ts
      simp [readMore]
  | succ n ih =>
    obtain ⟨term, more⟩ := ih
    constructor
    · intro ts
      rcases ts with _ | ⟨_ | _ | _ | _, rest⟩
      case cons.opening =>
        have inner := (more (readTerm n rest).1 (readTerm n rest).2).trans (term rest)
        exact (afterClosing_suffix _).trans (inner.trans (List.suffix_cons ..))
      all_goals simp [readTerm]
    · intro left ts
      rcases ts with _ | ⟨_ | op | _ | _, rest⟩
      case cons.operator =>
        exact (more _ _).trans ((term rest).trans (List.suffix_cons ..))
      all_goals simp [readMore]

/-- A bound that is no less than the number of the tokens does not matter. -/
theorem read_bound (n : Nat) : ∀ m ts, ts.length ≤ n → ts.length ≤ m →
    readTerm n ts = readTerm m ts ∧ ∀ left, readMore n left ts = readMore m left ts := by
  induction n with
  | zero =>
    intro m ts enough _
    cases List.eq_nil_of_length_eq_zero (Nat.le_zero.1 enough)
    cases m <;> simp [readTerm, readMore]
  | succ n ih =>
    intro m ts enough enough'
    cases m with
    | zero =>
      cases List.eq_nil_of_length_eq_zero (Nat.le_zero.1 enough')
      simp [readTerm, readMore]
    | succ m =>
      cases ts with
      | nil => simp [readTerm, readMore]
      | cons t rest =>
        rw [List.length_cons] at enough enough'
        have fewer := ((read_suffix m).1 rest).length_le
        have first := (ih m rest (by omega) (by omega)).1
        have later := (ih m (readTerm m rest).2 (by omega) (by omega)).2
        cases t <;> simp [readTerm, readMore, first, later]

def term (ts : List Token) : Expr × List Token := readTerm ts.length ts

def more (left : Expr) (ts : List Token) : Expr × List Token := readMore ts.length left ts

def sequence (ts : List Token) : Expr × List Token := readSequence ts.length ts

theorem ofText_eq (text : String) : ofText text = (sequence (tokens text)).1 := rfl

theorem term_suffix (ts : List Token) : (term ts).2 <:+ ts := (read_suffix _).1 ts

theorem sequence_eq (ts : List Token) : sequence ts = more (term ts).1 (term ts).2 :=
  (read_bound _ _ _ (term_suffix ts).length_le (Nat.le_refl _)).2 _

theorem term_opening (rest : List Token) :
    term (.opening :: rest) = (.group (sequence rest).1, afterClosing (sequence rest).2) := rfl

theorem more_operator (left : Expr) (op : Operator) (rest : List Token) :
    more left (.operator op :: rest) = more (.join op left (term rest).1) (term rest).2 :=
  (read_bound _ _ _ (term_suffix rest).length_le (Nat.le_refl _)).2 _

theorem more_nil (left : Expr) : more left [] = (left, []) := rfl

theorem more_closing (left : Expr) (rest : List Token) :
    more left (.closing :: rest) = (left, .closing :: rest) := rfl

end Expr

section Trees

open Depends.Expr (term more sequence)

mutual

theorem Term.read (t : Term) (rest : List Token) : term (t.tokens ++ rest) = (t.expr, rest) := by
  match t with
  | .name name => rfl
  | .group inner =>
    have closed : sequence (inner.tokens ++ .closing :: rest) = (inner.expr, .closing :: rest) := by
      rw [inner.read, Expr.more_closing]
    simp only [Term.tokens, List.cons_append, List.append_assoc, List.nil_append]
    rw [Expr.term_opening, closed]
    rfl

theorem Sequence.read (s : Sequence) (rest : List Token) :
    sequence (s.tokens ++ rest) = more s.expr rest := by
  match s with
  | .one first => rw [Sequence.tokens, Expr.sequence_eq, first.read, Sequence.expr]
  | .join left op right =>
    rw [Sequence.tokens, List.append_assoc, left.read, List.cons_append, Expr.more_operator, right.read,
      Sequence.expr]

end

theorem satisfied_of_tokens {s : Sequence} {text : String} (same : tokens text = s.tokens)
    (enabled : List String) : satisfied text enabled = true ↔ s.Holds enabled := by
  have read := s.read []
  rw [List.append_nil, Expr.more_nil] at read
  rw [satisfied, Expr.ofText_eq, same, read, s.value_expr]

end Trees

section Endings

def EndsTerm (ts : List Token) : Prop := ∃ t ∈ ts.getLast?, t.endsTerm = true

theorem EndsTerm.of_suffix {ts rest : List Token} (ends : EndsTerm ts) (suffix : rest <:+ ts)
    (filled : rest ≠ []) : EndsTerm rest := by
  obtain ⟨front, rfl⟩ := suffix
  unfold EndsTerm at ends ⊢
  rwa [List.getLast?_append_of_ne_nil _ filled] at ends

theorem EndsTerm.tail {t : Token} {rest : List Token} (ends : EndsTerm (t :: rest))
    (goesOn : t.endsTerm = false) : EndsTerm rest := by
  apply ends.of_suffix (List.suffix_cons t rest)
  rintro rfl
  simp [EndsTerm, goesOn] at ends

/-- Tokens that add nothing to an expression in front of them: closing parentheses, and then nothing or
a token that begins a term. -/
def Inert : List Token → Prop
  | .closing :: rest => Inert rest
  | .operator _ :: _ => False
  | _ => True

theorem Inert.afterClosing {rest : List Token} (inert : Inert rest) : Inert (Expr.afterClosing rest) := by
  unfold Expr.afterClosing
  split
  · exact inert
  · exact inert

theorem Inert.more_eq {rest : List Token} (inert : Inert rest) (left : Expr) :
    Expr.more left rest = (left, rest) := by
  rcases rest with _ | ⟨_ | _ | _ | _, rest⟩
  case cons.operator => exact absurd inert id
  all_goals rfl

open Depends.Expr (term more sequence)

/-- A reader makes the same of tokens if inert ones stand behind them. Only if it leaves nothing else
can some of these be gone. -/
def Withstands (read : List Token → Expr × List Token) (ts : List Token) : Prop :=
  ∀ rest, Inert rest → ∃ left, Inert left ∧ ((read ts).2 ≠ [] → left = rest) ∧
    read (ts ++ rest) = ((read ts).1, (read ts).2 ++ left)

theorem Withstands.more {ts : List Token} (first : Withstands term ts)
    (later : ∀ left, Withstands (more left) (term ts).2) (combine : Expr → Expr) :
    Withstands (fun ts => more (combine (term ts).1) (term ts).2) ts := by
  intro rest inert
  obtain ⟨middle, inert, kept, same⟩ := first rest inert
  obtain ⟨left, inert, kept', same'⟩ := later (combine (term ts).1) middle inert
  refine ⟨left, inert, ?_, by simp only [same, same']⟩
  intro filled
  rw [kept' filled]
  apply kept
  intro empty
  apply filled
  dsimp only
  rw [empty, Expr.more_nil]

theorem Withstands.sequence {ts : List Token} (first : Withstands term ts)
    (later : ∀ left, Withstands (Expr.more left) (term ts).2) : Withstands sequence ts := by
  have both := first.more later id
  intro rest inert
  rw [Expr.sequence_eq, Expr.sequence_eq]
  exact both rest inert

theorem Withstands.opening {ts : List Token} (inner : Withstands Expr.sequence ts) :
    Withstands term (.opening :: ts) := by
  intro rest inert
  obtain ⟨left, inert, kept, same⟩ := inner rest inert
  rw [List.cons_append, Expr.term_opening, Expr.term_opening, same]
  cases behind : (Expr.sequence ts).2 with
  | nil =>
    -- The closing parenthesis that the group lacks may be one of those behind it.
    refine ⟨Expr.afterClosing left, inert.afterClosing, ?_, rfl⟩
    intro filled
    exact absurd rfl filled
  | cons t more =>
    refine ⟨left, inert, ?_, by cases t <;> rfl⟩
    intro _
    apply kept
    simp [behind]

/-- By induction on a bound for the number of tokens: the readers call each other on what is left. -/
theorem withstands_read (n : Nat) : ∀ ts, ts.length ≤ n →
    (EndsTerm ts → Withstands term ts) ∧
    ((ts ≠ [] → EndsTerm ts) → ∀ left, Withstands (more left) ts) := by
  induction n with
  | zero =>
    intro ts enough
    cases List.eq_nil_of_length_eq_zero (Nat.le_zero.1 enough)
    constructor
    · rintro ⟨_, mem, -⟩
      cases mem
    · intro _ left rest inert
      exact ⟨rest, inert, fun _ => rfl, inert.more_eq left⟩
  | succ n ih =>
    intro ts enough
    cases ts with
    | nil => exact ih [] (Nat.zero_le n)
    | cons t ts =>
      rw [List.length_cons] at enough
      have first (ends : EndsTerm ts) : Withstands term ts := (ih ts (by omega)).1 ends
      -- What is read behind the first term is a part of the tokens, thus shorter, and ends as they do.
      have later (ends : EndsTerm ts) : ∀ left, Withstands (more left) (term ts).2 := by
        have fewer := (Expr.term_suffix ts).length_le
        exact (ih (term ts).2 (by omega)).2 (ends.of_suffix (Expr.term_suffix ts))
      constructor
      · intro ends
        cases t with
        | opening =>
          have ends := ends.tail rfl
          exact ((first ends).sequence (later ends)).opening
        | name | operator | closing =>
          intro rest inert
          exact ⟨rest, inert, fun _ => rfl, rfl⟩
      · intro ends left
        cases t with
        | operator op =>
          have ends := (ends (List.cons_ne_nil _ _)).tail rfl
          have both := (first ends).more (later ends) (.join op left)
          intro rest inert
          rw [List.cons_append, Expr.more_operator, Expr.more_operator]
          exact both rest inert
        | name | opening | closing =>
          intro rest inert
          exact ⟨rest, inert, fun _ => rfl, rfl⟩

theorem sequence_append {ts rest : List Token} (ends : EndsTerm ts) (inert : Inert rest) :
    (sequence (ts ++ rest)).1 = (sequence ts).1 := by
  have first := (withstands_read _ ts (Nat.le_refl _)).1 ends
  have later := (withstands_read _ (term ts).2 (Nat.le_refl _)).2 (ends.of_suffix (Expr.term_suffix ts))
  obtain ⟨left, -, -, same⟩ := first.sequence later rest inert
  rw [same]

end Endings

end VulkanBindings.Depends
