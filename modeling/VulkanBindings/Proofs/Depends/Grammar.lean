import Mathlib.Data.List.Chain
import VulkanBindings.Depends
import VulkanBindings.Proofs.Xml.Spelling

/-! The dependency expressions that are well-formed, as trees: their texts, their tokens, and when
they hold. -/

set_option autoImplicit false

namespace VulkanBindings.Depends

open Xml (IsTrimmed)

structure Name where
  text : String
  filled : text ≠ ""
  plain : ∀ c ∈ text.toList, c ∉ ['+', ',', '(', ')']
  trimmed : IsTrimmed text.toList

mutual

inductive Term where
  | name (name : Name)
  | group (inner : Sequence)

/-- Terms with operators between them, which are applied from left to right. -/
inductive Sequence where
  | one (first : Term)
  | join (left : Sequence) (op : Operator) (right : Term)

end

def Operator.text : Operator → String
  | .both => "+"
  | .either => ","

mutual

def Term.text : Term → String
  | .name name => name.text
  | .group inner => "(" ++ inner.text ++ ")"

def Sequence.text : Sequence → String
  | .one first => first.text
  | .join left op right => left.text ++ op.text ++ right.text

end

mutual

def Term.Holds (enabled : List String) : Term → Prop
  | .name name => name.text ∈ enabled
  | .group inner => inner.Holds enabled

/-- Whether an expression holds: `+` is "and", `,` is "or". -/
def Sequence.Holds (enabled : List String) : Sequence → Prop
  | .one first => first.Holds enabled
  | .join left .both right => left.Holds enabled ∧ right.Holds enabled
  | .join left .either right => left.Holds enabled ∨ right.Holds enabled

end

section Expressions

mutual

def Term.expr : Term → Expr
  | .name name => .name name.text
  | .group inner => .group inner.expr

def Sequence.expr : Sequence → Expr
  | .one first => first.expr
  | .join left op right => .join op left.expr right.expr

end

mutual

theorem Term.value_expr (enabled : List String) (t : Term) :
    t.expr.value enabled = true ↔ t.Holds enabled := by
  match t with
  | .name name => simp [Term.expr, Term.Holds, Expr.value]
  | .group inner => simpa [Term.expr, Term.Holds, Expr.value] using inner.value_expr enabled

theorem Sequence.value_expr (enabled : List String) (s : Sequence) :
    s.expr.value enabled = true ↔ s.Holds enabled := by
  match s with
  | .one first => exact first.value_expr enabled
  | .join left .both right =>
    simp [Sequence.expr, Sequence.Holds, Expr.value, left.value_expr, right.value_expr]
  | .join left .either right =>
    simp [Sequence.expr, Sequence.Holds, Expr.value, left.value_expr, right.value_expr]

end

end Expressions

section Tokens

def Token.text : Token → String
  | .name text => text
  | .operator op => op.text
  | .opening => "("
  | .closing => ")"

def Token.isName : Token → Bool
  | .name _ => true
  | _ => false

def Token.beginsTerm : Token → Bool
  | .name _ | .opening => true
  | .operator _ | .closing => false

def Token.endsTerm : Token → Bool
  | .name _ | .closing => true
  | .operator _ | .opening => false

mutual

def Term.tokens : Term → List Token
  | .name name => [.name name.text]
  | .group inner => .opening :: inner.tokens ++ [.closing]

def Sequence.tokens : Sequence → List Token
  | .one first => first.tokens
  | .join left op right => left.tokens ++ .operator op :: right.tokens

end

/-- One token can stand right behind another: behind a term an operator or a closing parenthesis,
and behind all else a term. -/
def Follows (token next : Token) : Prop := next.beginsTerm = !token.endsTerm

@[simp]
theorem follows_operator {token : Token} {op : Operator} :
    Follows token (.operator op) ↔ token.endsTerm = true := by
  simp [Follows, Token.beginsTerm]

@[simp]
theorem follows_closing {token : Token} : Follows token .closing ↔ token.endsTerm = true := by
  simp [Follows, Token.beginsTerm]

/-- Tokens that follow each other as they can between parentheses. -/
def WellFormed (ts : List Token) : Prop :=
  (Token.opening :: ts ++ [Token.closing]).IsChain Follows

theorem WellFormed.group {ts : List Token} (inner : WellFormed ts) :
    WellFormed (.opening :: ts ++ [.closing]) := by
  unfold WellFormed at inner ⊢
  simp only [List.cons_append, List.append_assoc, List.nil_append] at inner ⊢
  rw [List.isChain_cons_cons, List.isChain_cons_split]
  exact ⟨rfl, inner, List.isChain_pair.2 rfl⟩

theorem WellFormed.join {front rest : List Token} (left : WellFormed front) (op : Operator)
    (right : WellFormed rest) : WellFormed (front ++ .operator op :: rest) := by
  unfold WellFormed at left right ⊢
  simp only [List.cons_append, List.append_assoc] at left right ⊢
  rw [List.isChain_cons_split]
  constructor
  · rw [← List.cons_append, List.isChain_append] at left ⊢
    simpa using left
  · apply List.IsChain.imp_head _ right
    intro next follows
    exact follows

mutual

theorem Term.wellFormed (t : Term) : WellFormed t.tokens := by
  match t with
  | .name name =>
    unfold WellFormed Term.tokens
    simp [Follows, Token.beginsTerm, Token.endsTerm]
  | .group inner => exact inner.wellFormed.group

theorem Sequence.wellFormed (s : Sequence) : WellFormed s.tokens := by
  match s with
  | .one first => exact first.wellFormed
  | .join left op right => exact left.wellFormed.join op right.wellFormed

end

mutual

theorem Term.exists_name {text : String} (t : Term) (mem : .name text ∈ t.tokens) :
    ∃ name : Name, name.text = text := by
  match t with
  | .name name =>
    simp only [Term.tokens, List.mem_singleton, Token.name.injEq] at mem
    exact ⟨name, mem.symm⟩
  | .group inner =>
    simp only [Term.tokens, List.cons_append, List.mem_cons, List.mem_append, reduceCtorEq, false_or,
      List.not_mem_nil, or_false] at mem
    exact inner.exists_name mem

theorem Sequence.exists_name {text : String} (s : Sequence) (mem : .name text ∈ s.tokens) :
    ∃ name : Name, name.text = text := by
  match s with
  | .one first => exact first.exists_name mem
  | .join left op right =>
    simp only [Sequence.tokens, List.mem_append, List.mem_cons, reduceCtorEq, false_or] at mem
    obtain inLeft | inRight := mem
    · exact left.exists_name inLeft
    · exact right.exists_name inRight

end

end Tokens

end VulkanBindings.Depends
