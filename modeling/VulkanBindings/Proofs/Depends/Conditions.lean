import VulkanBindings.Graph.Build
import VulkanBindings.Proofs.Depends.Evaluation
import VulkanBindings.Registry.Reader

/-! The conditions of features and extensions. One that is satisfied stays so if more is enabled; and
names that are joined to one have to be enabled as well. -/

set_option autoImplicit false

namespace VulkanBindings.Depends

section Enabled

variable {enabled more : List String}

theorem Expr.value_mono (larger : enabled ⊆ more) {e : Expr} (holds : e.value enabled = true) :
    e.value more = true := by
  induction e with
  | name text =>
    simp only [Expr.value, List.contains_iff_mem] at holds ⊢
    exact larger holds
  | absent => exact holds
  | join op left right ihLeft ihRight =>
    cases op with
    | both =>
      simp only [Expr.value, Bool.and_eq_true] at holds ⊢
      exact ⟨ihLeft holds.1, ihRight holds.2⟩
    | either =>
      simp only [Expr.value, Bool.or_eq_true] at holds ⊢
      exact holds.imp ihLeft ihRight
  | group inner ih => exact ih holds

/-- Enabling more never unsatisfies a text, well-formed or not, nor the condition of a require block. -/
theorem satisfied_mono (larger : enabled ⊆ more) :
    (∀ text, satisfied text enabled = true → satisfied text more = true) ∧
      ∀ (g : Graph) (depends : Option String), ({ g with enabled } : Graph).isSatisfied depends = true →
        ({ g with enabled := more } : Graph).isSatisfied depends = true := by
  have each (text : String) (holds : satisfied text enabled = true) : satisfied text more = true :=
    Expr.value_mono larger holds
  refine ⟨each, ?_⟩
  intro g depends holds
  cases depends with
  | none => rfl
  | some text => exact each text holds

theorem sail_stays_satisfied :
    ["VK_KHR_sail"] ⊆ ["VK_KHR_boat", "VK_KHR_sail"] ∧
      satisfied "((VK_KHR_sail,)VK_KHR_boat" ["VK_KHR_sail"] = true ∧
      satisfied "((VK_KHR_sail,)VK_KHR_boat" ["VK_KHR_boat", "VK_KHR_sail"] = true ∧
      ({ Graph.empty with enabled := ["VK_KHR_boat", "VK_KHR_sail"] } : Graph).isSatisfied
        (some "VK_KHR_oar,VK_KHR_sail") = true := by
  have larger : ["VK_KHR_sail"] ⊆ ["VK_KHR_boat", "VK_KHR_sail"] := by simp
  have holds : satisfied "((VK_KHR_sail,)VK_KHR_boat" ["VK_KHR_sail"] = true := by decide
  exact ⟨larger, holds, (satisfied_mono larger).1 _ holds, (satisfied_mono larger).2 _ _ (by decide)⟩

end Enabled

section Spellings

theorem BesideName.append {ts : List Token} {i : Nat} (beside : BesideName ts i) (rest : List Token) :
    BesideName (ts ++ rest) i := by
  have kept {j : Nat} (named : ts[j]?.any Token.isName = true) :
      (ts ++ rest)[j]?.any Token.isName = true := by
    obtain ⟨t, found, isName⟩ := (Option.any_eq_true _ _).1 named
    rw [List.getElem?_append_left (List.getElem?_eq_some_iff.1 found).1]
    exact named
  exact beside.imp (fun h => ⟨h.1, kept h.2⟩) kept

/-- A way to write an expression, with blanks beside its names only. -/
structure Spelling where
  tree : Sequence
  gap : Nat → Blanks
  beside : ∀ i, (gap i).text = "" ∨ BesideName tree.tokens i

namespace Spelling

def text (w : Spelling) : String := spaced w.gap w.tree.tokens

theorem satisfied_text (w : Spelling) (enabled : List String) :
    satisfied w.text enabled = true ↔ w.tree.Holds enabled := by
  apply satisfied_of_tokens
  rw [text, w.tree.tokens_spaced]
  exact strewn_eq_self fun i => (w.beside i).imp_right besideName_iff.1

theorem gap_eq_none (w : Spelling) {i : Nat} (outside : w.tree.tokens.length < i) : w.gap i = .none := by
  have none {j : Nat} (outside : w.tree.tokens.length ≤ j) : w.tree.tokens[j]?.any Token.isName = false := by
    rw [List.getElem?_eq_none outside]
    rfl
  apply Blanks.ext
  obtain empty | ⟨-, named⟩ | named := w.beside i
  · exact empty
  · rw [none (by omega)] at named
    cases named
  · rw [none (by omega)] at named
    cases named

def and (w : Spelling) (name : Name) : Spelling where
  tree := .join w.tree .both (.name name)
  gap := w.gap
  beside i := (w.beside i).imp_right fun beside => beside.append _

theorem text_and (w : Spelling) (name : Name) : (w.and name).text = w.text ++ "+" ++ name.text := by
  have added : spaced unspaced [.operator .both, .name name.text] = "+" ++ name.text := by
    rw [spaced_unspaced_cons, spaced_unspaced_cons, spaced_unspaced_nil, String.append_empty]
    rfl
  rw [text, String.append_assoc, ← added]
  exact spaced_append w.gap _ fun i => w.gap_eq_none

theorem holds_foldl_and {enabled : List String} (w : Spelling) (names : List Name) :
    (names.foldl and w).tree.Holds enabled ↔
      w.tree.Holds enabled ∧ ∀ name ∈ names, name.text ∈ enabled := by
  induction names generalizing w with
  | nil => simp
  | cons name names ih =>
    rw [List.foldl_cons, ih, List.forall_mem_cons, ← and_assoc]
    rfl

theorem joinDepends_text (w : Spelling) (names : List Name) :
    joinDepends (some w.text) (names.map (·.text)) = some (names.foldl and w).text := by
  induction names generalizing w with
  | nil => rfl
  | cons name names ih =>
    rw [List.foldl_cons, ← ih, text_and]
    rfl

theorem isSatisfied_joined (g : Graph) (w : Spelling) (names : List Name) :
    g.isSatisfied (joinDepends (some w.text) (names.map (·.text))) = true ↔
      w.tree.Holds g.enabled ∧ ∀ name ∈ names, g.isEnabled name.text = true := by
  rw [w.joinDepends_text]
  simp only [Graph.isSatisfied, Option.all_some, satisfied_text, holds_foldl_and, Graph.isEnabled,
    List.contains_iff_mem]

def plain (s : Sequence) : Spelling where
  tree := s
  gap := unspaced
  beside _ := .inl rfl

theorem text_plain (s : Sequence) : (plain s).text = s.text := s.text_eq.symm

end Spelling

/-- Names joined to a condition are required besides it. No parentheses are needed around its alternatives,
because the operators that are written last are applied last. -/
theorem isSatisfied_joinDepends (g : Graph) (depends : Option Spelling) (names : List Name) :
    g.isSatisfied (joinDepends (depends.map (·.text)) (names.map (·.text))) = true ↔
      g.isSatisfied (depends.map (·.text)) = true ∧ ∀ name ∈ names, g.isEnabled name.text = true := by
  cases depends with
  | some w =>
    rw [Option.map_some, w.isSatisfied_joined]
    simp only [Graph.isSatisfied, Option.all_some, Spelling.satisfied_text]
  | none =>
    cases names with
    | nil => simp [joinDepends, Graph.isSatisfied]
    | cons name names =>
      -- The first name takes the place of the expression.
      have first := Spelling.isSatisfied_joined g (.plain (.one (.name name))) names
      rw [Spelling.text_plain] at first
      apply Iff.trans first
      rw [List.forall_mem_cons]
      simp [Graph.isSatisfied, Graph.isEnabled, Spelling.plain, Sequence.Holds, Term.Holds]

end Spellings

end VulkanBindings.Depends
