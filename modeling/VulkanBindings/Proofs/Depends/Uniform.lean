import VulkanBindings.Proofs.Depends.Conditions
import VulkanBindings.Proofs.Graph.Rules

/-! Dependencies without parentheses and with operators of one kind. Such a text holds if all of its
names are enabled, or if one of them is, and what an extension is linked to for it is enough. -/

set_option autoImplicit false

namespace VulkanBindings

namespace Depends

open Text (pieces trim trimChars)

def Operator.char : Operator → Char
  | .both => '+'
  | .either => ','

/-- No parentheses, and no other operator. -/
def IsUniform (op : Operator) (text : List Char) : Prop :=
  ∀ c ∈ text, c = op.char ∨ Token.ofChar? c = none

section Uniform

variable {op : Operator} {text : List Char}

theorem isUniform_of_absent (absent : ∀ c ∈ ['+', ',', '(', ')'], c ≠ op.char → c ∉ text) :
    IsUniform op text := by
  intro c mem
  by_cases special : c = op.char
  · exact .inl special
  · exact .inr (ofChar?_eq_none fun listed => absent c listed special mem)

theorem IsUniform.not_mem (uniform : IsUniform op text) {c : Char} (other : c ≠ op.char)
    (special : Token.ofChar? c ≠ none) : c ∉ text :=
  fun mem => special ((uniform c mem).resolve_left other)

end Uniform

def joined (op : Operator) (more : List (List Char)) : List Token :=
  more.flatMap fun piece => .operator op :: nameToken piece

def Expr.ofPiece (piece : List Char) : Expr :=
  if piece.isEmpty then .absent else .name (.ofList (trimChars piece))

section Reading

variable {op : Operator} {text piece : List Char} {more : List (List Char)}

theorem tokensAfter_pieces (uniform : IsUniform op text) (spelled : List Char)
    (cut : pieces op.char text = piece :: more) :
    tokensAfter spelled text = nameToken (spelled.reverse ++ piece) ++ joined op more := by
  induction text generalizing spelled piece more with
  | nil =>
    cases cut
    simp [tokensAfter, joined]
  | cons c text ih =>
    obtain ⟨here, later⟩ := List.forall_mem_cons.1 uniform
    obtain ⟨piece', more', cut', step⟩ := Text.exists_pieces_cons op.char c text
    rw [cut] at step
    by_cases special : c = op.char
    · have operator : Token.ofChar? op.char = some (.operator op) := by cases op <;> rfl
      rw [if_pos special] at step
      cases step
      rw [special, tokensAfter_cons operator, ih later [] cut', List.append_nil]
      rfl
    · rw [if_neg special] at step
      cases step
      rw [tokensAfter, here.resolve_left special]
      simpa using ih later (c :: spelled) cut'

theorem term_piece (piece : List Char) (more : List (List Char)) :
    Expr.term (nameToken piece ++ joined op more) = (Expr.ofPiece piece, joined op more) := by
  unfold nameToken Expr.ofPiece
  split
  · cases more <;> rfl
  · rfl

theorem more_joined (left : Expr) (more : List (List Char)) :
    Expr.more left (joined op more) =
      (more.foldl (fun left piece => .join op left (.ofPiece piece)) left, []) := by
  induction more generalizing left with
  | nil => rfl
  | cons piece more ih =>
    rw [List.foldl_cons, ← ih]
    change Expr.more left (.operator op :: (nameToken piece ++ joined op more)) = _
    rw [Expr.more_operator, term_piece]

theorem ofText_pieces {text : String} (uniform : IsUniform op text.toList)
    (cut : pieces op.char text.toList = piece :: more) :
    Expr.ofText text = more.foldl (fun left piece => .join op left (.ofPiece piece)) (.ofPiece piece) := by
  have read := tokensAfter_pieces uniform [] cut
  rw [Expr.ofText_eq, tokens, read, Expr.sequence_eq, List.reverse_nil, List.nil_append, term_piece,
    more_joined]

end Reading

section Values

variable {enabled : List String} {text : String}

theorem value_foldl_both (first : Expr) (more : List (List Char)) :
    (more.foldl (fun left piece => .join .both left (.ofPiece piece)) first).value enabled =
      (first.value enabled && more.all fun piece => (Expr.ofPiece piece).value enabled) := by
  induction more generalizing first with
  | nil => simp
  | cons piece more ih => rw [List.foldl_cons, ih, Expr.value, List.all_cons, Bool.and_assoc]

theorem value_foldl_either (first : Expr) (more : List (List Char)) :
    (more.foldl (fun left piece => .join .either left (.ofPiece piece)) first).value enabled =
      (first.value enabled || more.any fun piece => (Expr.ofPiece piece).value enabled) := by
  induction more generalizing first with
  | nil => simp
  | cons piece more ih => rw [List.foldl_cons, ih, Expr.value, List.any_cons, Bool.or_assoc]

-- An empty piece is a missing term. It does not hold, as the empty name would not.
theorem value_ofPiece (named : "" ∉ enabled) (piece : List Char) :
    (Expr.ofPiece piece).value enabled = true ↔ trim (.ofList piece) ∈ enabled := by
  unfold Expr.ofPiece
  split
  · next empty =>
    have blank : trim (.ofList piece) = "" := by
      rw [List.isEmpty_iff.1 empty]
      rfl
    simp [Expr.value, blank, named]
  · rw [Expr.value, List.contains_iff_mem, trim, String.toList_ofList]

theorem satisfied_iff_all (uniform : IsUniform .both text.toList) (named : "" ∉ enabled) :
    satisfied text enabled = true ↔ ∀ name ∈ Text.split '+' text, trim name ∈ enabled := by
  obtain ⟨piece, more, cut⟩ := List.exists_cons_of_ne_nil (Text.pieces_ne_nil '+' text.toList)
  rw [satisfied, ofText_pieces uniform cut, value_foldl_both, Text.split, cut]
  simp [value_ofPiece named]

theorem satisfied_iff_any (uniform : IsUniform .either text.toList) (named : "" ∉ enabled) :
    satisfied text enabled = true ↔ ∃ name ∈ Text.split ',' text, trim name ∈ enabled := by
  obtain ⟨piece, more, cut⟩ := List.exists_cons_of_ne_nil (Text.pieces_ne_nil ',' text.toList)
  rw [satisfied, ofText_pieces uniform cut, value_foldl_either, Text.split, cut]
  simp [value_ofPiece named]

end Values

end Depends

namespace Graph

open Depends (IsUniform Operator isUniform_of_absent satisfied satisfied_iff_all satisfied_iff_any)
open Text (trim)

/-- The names that an extension is linked to for its dependency. Blank ones are passed over. -/
def linkedNames (g : Graph) (depends : String) : List String :=
  (((g.dependencyNames? depends).getD []).map trim).filter (· ≠ "")

theorem linkAll_cons (g : Graph) (child : NodeId) (name : String) (names : List String) :
    g.linkAll child (name :: names) = (g.link child name).linkAll child names := rfl

theorem linkAll_trimmed (g : Graph) (child : NodeId) (names : List String) :
    g.linkAll child ((names.map trim).filter (· ≠ "")) = g.linkAll child names := by
  induction names generalizing g with
  | nil => rfl
  | cons name names ih =>
    rw [List.map_cons, List.filter_cons, linkAll_cons]
    split
    · have same : g.link child (trim name) = g.link child name := by
        unfold link
        rw [Xml.trim_trim]
      rw [linkAll_cons, same, ih]
    · next blank =>
      have empty : trim name = "" := by simpa using blank
      have same : g.link child name = g := by
        unfold link
        simp [empty]
      rw [same, ih]

theorem value_linkDepends (g : Graph) (child : NodeId) (depends : String) :
    (g.linkDepends child depends).value = g.linkAll child (g.linkedNames depends) := by
  unfold linkedNames linkDepends
  rw [linkAll_trimmed]
  cases g.dependencyNames? depends <;> rfl

variable {g : Graph} {depends : String}

theorem linkedNames_of_all (uniform : IsUniform .both depends.toList) :
    g.linkedNames depends = ((Text.split '+' depends).map trim).filter (· ≠ "") := by
  have others : ∀ c ∈ [',', '(', ')'], c ≠ Operator.both.char ∧ Depends.Token.ofChar? c ≠ none := by
    simp [Operator.char, Depends.Token.ofChar?]
  rw [linkedNames, dependencyNames?_of_all fun c mem => uniform.not_mem (others c mem).1 (others c mem).2,
    Option.getD_some]

theorem linkedNames_of_any (uniform : IsUniform .either depends.toList) (several : ',' ∈ depends.toList)
    (named : "" ∉ g.enabled) (holds : ∃ name ∈ Text.split ',' depends, trim name ∈ g.enabled) :
    ∃ name ∈ Text.split ',' depends, trim name ∈ g.enabled ∧ g.linkedNames depends = [trim name] := by
  have others : ∀ c ∈ ['+', '(', ')'], c ≠ Operator.either.char ∧ Depends.Token.ofChar? c ≠ none := by
    simp [Operator.char, Depends.Token.ofChar?]
  have names := g.dependencyNames?_of_any several fun c mem =>
    uniform.not_mem (others c mem).1 (others c mem).2
  have mem_filter (name : String) : name ∈ ((Text.split ',' depends).map trim).filter g.isEnabled ↔
      (∃ piece ∈ Text.split ',' depends, trim piece = name) ∧ name ∈ g.enabled := by
    rw [List.mem_filter, List.mem_map, isEnabled, List.contains_iff_mem]
  obtain ⟨name, mem, enabled⟩ := holds
  have filled := List.ne_nil_of_mem ((mem_filter (trim name)).2 ⟨⟨name, mem, rfl⟩, enabled⟩)
  obtain ⟨last, isLast⟩ := Option.isSome_iff_exists.1 (List.getLast?_isSome.2 filled)
  obtain ⟨⟨name, mem, rfl⟩, enabled⟩ := (mem_filter last).1 (List.mem_of_getLast? isLast)
  have nonempty : trim name ≠ "" := fun empty => named (empty ▸ enabled)
  refine ⟨name, mem, enabled, ?_⟩
  rw [linkedNames, names, isLast]
  simp [Xml.trim_trim, nonempty]

/-- What an extension is linked to for a dependency that holds is enabled, and enough for it to hold. -/
theorem linkedNames_suffice (g : Graph) (id : NodeId) {depends : String}
    (ungrouped : '(' ∉ depends.toList ∧ ')' ∉ depends.toList)
    (oneKind : ¬('+' ∈ depends.toList ∧ ',' ∈ depends.toList)) (named : "" ∉ g.enabled)
    (holds : satisfied depends g.enabled = true) :
    (g.linkDepends id depends).value = g.linkAll id (g.linkedNames depends) ∧
      (∀ name ∈ g.linkedNames depends, name ∈ g.enabled) ∧
      satisfied depends (g.linkedNames depends) = true ∧
      (',' ∈ depends.toList → ∃ name, g.linkedNames depends = [name]) := by
  have named' : "" ∉ g.linkedNames depends := by simp [linkedNames]
  refine ⟨g.value_linkDepends id depends, ?_⟩
  -- Without a comma all names must be enabled, also if there is only one.
  by_cases several : ',' ∈ depends.toList
  · have uniform : IsUniform .either depends.toList := by
      apply isUniform_of_absent
      simp_all [Depends.Operator.char]
    rw [satisfied_iff_any uniform named] at holds
    rw [satisfied_iff_any uniform named']
    obtain ⟨name, mem, enabled, linked⟩ := linkedNames_of_any uniform several named holds
    rw [linked]
    refine ⟨?_, ⟨name, mem, List.mem_singleton.2 rfl⟩, fun _ => ⟨trim name, rfl⟩⟩
    rwa [List.forall_mem_singleton]
  · have uniform : IsUniform .both depends.toList := by
      apply isUniform_of_absent
      simp_all [Depends.Operator.char]
    rw [satisfied_iff_all uniform named] at holds
    rw [satisfied_iff_all uniform named', linkedNames_of_all uniform]
    refine ⟨?_, ?_, fun mem => absurd mem several⟩
    · intro name mem
      obtain ⟨piece, listed, rfl⟩ := List.mem_map.1 (List.mem_of_mem_filter mem)
      exact holds piece listed
    · intro piece listed
      have nonempty : trim piece ≠ "" := fun empty => named (empty ▸ holds piece listed)
      exact List.mem_filter.2 ⟨List.mem_map_of_mem listed, decide_eq_true nonempty⟩

def harbour : Graph := { empty with enabled := ["VK_KHR_sail", "VK_KHR_boat"] }

theorem boat_suffices :
    satisfied "VK_KHR_sail, VK_KHR_boat ,,VK_KHR_oar" harbour.enabled = true ∧
      harbour.linkedNames "VK_KHR_sail, VK_KHR_boat ,,VK_KHR_oar" = ["VK_KHR_boat"] ∧
      "VK_KHR_boat" ∈ harbour.enabled ∧
      satisfied "VK_KHR_sail, VK_KHR_boat ,,VK_KHR_oar" ["VK_KHR_boat"] = true := by
  have holds : satisfied "VK_KHR_sail, VK_KHR_boat ,,VK_KHR_oar" harbour.enabled = true := by decide
  have linked : harbour.linkedNames "VK_KHR_sail, VK_KHR_boat ,,VK_KHR_oar" = ["VK_KHR_boat"] := by decide
  obtain ⟨-, enabled, enough, -⟩ :=
    linkedNames_suffice harbour constants (by decide) (by decide) (by decide) holds
  rw [linked] at enabled enough
  exact ⟨holds, linked, enabled _ (List.mem_singleton.2 rfl), enough⟩

end Graph

end VulkanBindings
