import VulkanBindings.Proofs.Depends.Spacing

/-! Whether the text of an expression holds: if the expression does. White space by itself, away from
names, ends what is read of the text. -/

set_option autoImplicit false

namespace VulkanBindings.Depends

open Text (isBlank)

theorem Sequence.tokens_spaced (s : Sequence) (gap : Nat → Blanks) :
    Depends.tokens (spaced gap s.tokens) = strewn gap .opening s.tokens :=
  Depends.tokens_spaced gap s.wellFormed.left_of_append fun _ => s.exists_name

theorem Sequence.tokens_text (s : Sequence) : Depends.tokens s.text = s.tokens := by
  rw [s.text_eq, s.tokens_spaced]
  exact strewn_eq_self fun _ => .inl rfl

/-- The text of an expression holds if the expression does. -/
theorem satisfied_iff_holds (s : Sequence) (enabled : List String) :
    satisfied s.text enabled = true ↔ s.Holds enabled :=
  satisfied_of_tokens s.tokens_text enabled

example : satisfied "VK_KHR_sail,VK_KHR_boat+VK_KHR_oar" ["VK_KHR_sail"] = false := by decide

section Gaps

variable {s : Sequence} {gap : Nat → Blanks}

theorem endsTerm_of_chain {front rest : List Token} {t : Token}
    (chain : (.opening :: front ++ rest).IsChain Follows) (next : rest.head? = some t)
    (notTerm : t.beginsTerm = false) : EndsTerm front := by
  obtain ⟨-, -, follows⟩ := List.isChain_append.1 chain
  cases front using List.reverseRecOn with
  | nil =>
    have first : Follows .opening t := follows _ rfl t next
    simp [Follows, Token.endsTerm, notTerm] at first
  | append_singleton front last =>
    have behind : Follows last t :=
      follows last (by rw [← List.cons_append, List.getLast?_concat]; rfl) t next
    refine ⟨last, by simp, ?_⟩
    simpa [Follows, notTerm] using behind

theorem sequence_strewn_of_harmless
    (harmless : ∀ i, (gap i).text = "" ∨ BesideName s.tokens i ∨ ∀ t ∈ s.tokens.drop i, t = .closing) :
    (Expr.sequence (strewn gap .opening s.tokens)).1 = (Expr.sequence s.tokens).1 := by
  obtain ⟨front, closing, rest, parts, closed, same, inert⟩ := exists_strewn gap .opening fun i =>
    (harmless i).imp_right fun h => h.imp_left besideName_iff.1
  have ends : EndsTerm front := by
    have chain := s.wellFormed
    unfold WellFormed at chain
    rw [parts, ← List.cons_append, List.append_assoc] at chain
    apply endsTerm_of_chain chain _ (rfl : Token.closing.beginsTerm = false)
    cases closing with
    | nil => rfl
    | cons t closing => rw [closed t (.head _)]; rfl
  rw [same, sequence_append ends inert, parts, sequence_append ends (inert_of_closing closed)]

theorem sequence_strewn_append {front rest : List Token} {t : Token}
    (chain : (.opening :: front ++ t :: rest).IsChain Follows) (filled : (gap front.length).text ≠ "")
    (alone : ¬BesideName (front ++ t :: rest) front.length) :
    (Expr.sequence (strewn gap .opening (front ++ t :: rest))).1 =
      (Expr.sequence (strewn gap .opening front)).1 := by
  rw [besideName_iff, touchesName_append, not_or, Bool.not_eq_true] at alone
  obtain ⟨more, read⟩ := exists_strewn_append gap .opening front rest alone.2
  obtain ⟨earlier, cut, ends⟩ := exists_strewn_stray gap .opening filled alone.1
  rw [read, cut]
  cases begins : t.beginsTerm with
  | true =>
    -- The blanks are read as the term, and no operator is behind it.
    have isTerm : EndsTerm (earlier ++ [.name ""]) := ⟨.name "", by simp, rfl⟩
    have inert : Inert (t :: more) := by
      cases t with
      | name | opening => trivial
      | operator | closing => cases begins
    rw [sequence_append isTerm inert]
  | false =>
    -- The blanks are a name where an operator would have to be.
    have isTerm : EndsTerm earlier := by
      obtain ⟨last, mem, isEnd⟩ := endsTerm_of_chain chain rfl begins
      exact ⟨last, ends ▸ mem, isEnd⟩
    rw [List.append_assoc, sequence_append isTerm, sequence_append isTerm]
    · trivial
    · trivial

theorem sequence_strewn_of_alone {i : Nat} (filled : (gap i).text ≠ "") (alone : ¬BesideName s.tokens i) :
    (Expr.sequence (strewn gap .opening s.tokens)).1 = Expr.ofText (spaced gap (s.tokens.take i)) := by
  obtain inside | outside := Nat.lt_or_ge i s.tokens.length
  · obtain ⟨front, t, rest, parts, rfl⟩ : ∃ front t rest, s.tokens = front ++ t :: rest ∧ front.length = i :=
      ⟨s.tokens.take i, s.tokens[i], s.tokens.drop (i + 1), by simp, List.length_take_of_le inside.le⟩
    have chain : (.opening :: s.tokens).IsChain Follows := s.wellFormed.left_of_append
    have names (text : String) (mem : .name text ∈ front) : ∃ name : Name, name.text = text :=
      s.exists_name (parts ▸ List.mem_append_left _ mem)
    rw [parts] at chain alone ⊢
    have read := tokens_spaced gap (List.IsChain.left_of_append chain) names
    rw [List.take_left, Expr.ofText_eq, read, sequence_strewn_append chain filled alone]
  · rw [List.take_of_length_le outside, Expr.ofText_eq, s.tokens_spaced]

/-- Gaps change nothing if each is beside a name or has only closing parentheses behind it. What stands
behind any other gap is not read. -/
theorem satisfied_spaced (s : Sequence) (gap : Nat → Blanks) (enabled : List String) :
    ((∀ i, (gap i).text = "" ∨ BesideName s.tokens i ∨ ∀ t ∈ s.tokens.drop i, t = .closing) →
      satisfied (spaced gap s.tokens) enabled = satisfied s.text enabled) ∧
    ∀ i, (gap i).text ≠ "" → ¬BesideName s.tokens i →
      satisfied (spaced gap s.tokens) enabled = satisfied (spaced gap (s.tokens.take i)) enabled := by
  unfold satisfied
  rw [Expr.ofText_eq, s.tokens_spaced, Expr.ofText_eq, s.tokens_text]
  constructor
  · intro harmless
    rw [sequence_strewn_of_harmless harmless]
  · intro i filled alone
    rw [sequence_strewn_of_alone filled alone]

end Gaps

section Mooring

def sail : Name where
  text := "VK_KHR_sail"
  filled := by simp
  plain := by simp
  trimmed := by constructor <;> simp [isBlank]

def boat : Name where
  text := "VK_KHR_boat"
  filled := by simp
  plain := by simp
  trimmed := by constructor <;> simp [isBlank]

def mooring : Sequence := .join (.one (.group (.one (.name sail)))) .both (.name boat)

def spacesAt (gaps : List Nat) : Nat → Blanks :=
  fun i => if i ∈ gaps then ⟨" ", by simp [isBlank]⟩ else .none

theorem mooring_spaced :
    spaced (spacesAt [1, 2, 4]) mooring.tokens = "( VK_KHR_sail )+ VK_KHR_boat" ∧
      satisfied (spaced (spacesAt [1, 2, 4]) mooring.tokens) ["VK_KHR_sail"] =
        satisfied mooring.text ["VK_KHR_sail"] ∧
      satisfied (spaced (spacesAt [3]) mooring.tokens) ["VK_KHR_sail"] =
        satisfied (spaced (spacesAt [3]) (mooring.tokens.take 3)) ["VK_KHR_sail"] := by
  refine ⟨by decide, (satisfied_spaced mooring _ _).1 ?_,
    (satisfied_spaced mooring _ _).2 3 (by decide) (by decide)⟩
  intro i
  by_cases mem : i ∈ [1, 2, 4]
  · right
    left
    revert i
    decide
  · left
    rw [spacesAt, if_neg mem]
    rfl

/-- The name behind the blank that stands between a closing parenthesis and an operator is not read. -/
theorem mooring_cut_off :
    mooring.text = "(VK_KHR_sail)+VK_KHR_boat" ∧
      spaced (spacesAt [3]) mooring.tokens = "(VK_KHR_sail) +VK_KHR_boat" ∧
      satisfied mooring.text ["VK_KHR_sail"] = false ∧
      satisfied (spaced (spacesAt [3]) mooring.tokens) ["VK_KHR_sail"] = true := by
  decide

end Mooring

end VulkanBindings.Depends
