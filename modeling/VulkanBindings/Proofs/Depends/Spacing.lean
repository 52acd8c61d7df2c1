import VulkanBindings.Proofs.Depends.Reading

/-! Dependency expressions with white space put between their tokens. It is part of a name beside it,
but read as a name of its own where it stands by itself. -/

set_option autoImplicit false

namespace VulkanBindings.Depends

open Text (isBlank trimChars)

/-- White space, or none. -/
@[ext]
structure Blanks where
  text : String
  blank : ∀ c ∈ text.toList, isBlank c = true

def Blanks.none : Blanks := ⟨"", by simp⟩

/-- The text of tokens with a gap before each of them and one behind the last. -/
def spaced (gap : Nat → Blanks) : List Token → String
  | [] => (gap 0).text
  | t :: rest => (gap 0).text ++ t.text ++ spaced (fun i => gap (i + 1)) rest

def unspaced : Nat → Blanks := fun _ => .none

section Texts

theorem spaced_unspaced_nil : spaced unspaced [] = "" := rfl

theorem spaced_unspaced_cons (t : Token) (rest : List Token) :
    spaced unspaced (t :: rest) = t.text ++ spaced unspaced rest := by
  change "" ++ t.text ++ spaced unspaced rest = _
  rw [String.empty_append]

theorem spaced_append (gap : Nat → Blanks) {ts : List Token} (rest : List Token)
    (ends : ∀ i, ts.length < i → gap i = .none) :
    spaced gap (ts ++ rest) = spaced gap ts ++ spaced unspaced rest := by
  induction ts generalizing gap with
  | nil =>
    have later : (fun i => gap (i + 1)) = unspaced := by
      funext i
      exact ends (i + 1) (Nat.succ_pos i)
    cases rest with
    | nil => rw [spaced_unspaced_nil, String.append_empty, List.append_nil]
    | cons t rest =>
      rw [List.nil_append, spaced_unspaced_cons]
      simp only [spaced, later, String.append_assoc]
  | cons t ts ih =>
    have later := ih (fun i => gap (i + 1)) fun i more => ends (i + 1) (Nat.succ_lt_succ more)
    simp only [List.cons_append, spaced, later, String.append_assoc]

theorem spaced_unspaced_append (ts rest : List Token) :
    spaced unspaced (ts ++ rest) = spaced unspaced ts ++ spaced unspaced rest :=
  spaced_append unspaced rest fun _ _ => rfl

mutual

theorem Term.text_eq (t : Term) : t.text = spaced unspaced t.tokens := by
  match t with
  | .name name =>
    rw [Term.tokens, spaced_unspaced_cons, spaced_unspaced_nil, String.append_empty]
    rfl
  | .group inner =>
    rw [Term.tokens, List.cons_append, spaced_unspaced_cons, spaced_unspaced_append,
      spaced_unspaced_cons, spaced_unspaced_nil, String.append_empty, ← inner.text_eq, Term.text,
      String.append_assoc]
    rfl

theorem Sequence.text_eq (s : Sequence) : s.text = spaced unspaced s.tokens := by
  match s with
  | .one first => exact first.text_eq
  | .join left op right =>
    rw [Sequence.tokens, spaced_unspaced_append, spaced_unspaced_cons, ← left.text_eq,
      ← right.text_eq, Sequence.text, String.append_assoc]
    rfl

end

end Texts

/-- What blanks are read as: a part of a name beside them, or else a name of their own. -/
def stray (named : Bool) (blanks : Blanks) : List Token :=
  if named || blanks.text = "" then [] else [.name ""]

def strewn (gap : Nat → Blanks) (last : Token) : List Token → List Token
  | [] => stray last.isName (gap 0)
  | t :: rest => stray (last.isName || t.isName) (gap 0) ++ t :: strewn (fun i => gap (i + 1)) t rest

theorem stray_named (blanks : Blanks) : stray true blanks = [] := rfl

theorem stray_empty {named : Bool} {blanks : Blanks} (empty : blanks.text = "") :
    stray named blanks = [] := by
  simp [stray, empty]

theorem stray_alone {blanks : Blanks} (filled : blanks.text ≠ "") : stray false blanks = [.name ""] := by
  simp [stray, filled]

section Characters

theorem ofChar?_eq_none {c : Char} (plain : c ∉ ['+', ',', '(', ')']) : Token.ofChar? c = none := by
  simp only [List.mem_cons, List.not_mem_nil, or_false, not_or] at plain
  simp [Token.ofChar?, plain]

theorem ofChar?_of_isBlank {c : Char} (blank : isBlank c = true) : Token.ofChar? c = none := by
  apply ofChar?_eq_none
  intro mem
  have others : ∀ c ∈ ['+', ',', '(', ')'], isBlank c = false := by simp [isBlank]
  rw [others c mem] at blank
  cases blank

theorem Token.exists_char {t : Token} (notName : t.isName = false) :
    ∃ c, t.text.toList = [c] ∧ Token.ofChar? c = some t := by
  rcases t with _ | ⟨_ | _⟩ | _ | _
  case name => cases notName
  all_goals exact ⟨_, rfl, rfl⟩

theorem tokensAfter_append {text : List Char} (plain : ∀ c ∈ text, Token.ofChar? c = none)
    (spelled rest : List Char) :
    tokensAfter spelled (text ++ rest) = tokensAfter (text.reverse ++ spelled) rest := by
  induction text generalizing spelled with
  | nil => rfl
  | cons c text ih =>
    obtain ⟨here, later⟩ := List.forall_mem_cons.1 plain
    rw [List.cons_append, tokensAfter, here]
    simp [ih later]

theorem tokensAfter_cons {t : Token} {c : Char} (special : Token.ofChar? c = some t)
    (spelled rest : List Char) :
    tokensAfter spelled (c :: rest) = nameToken spelled.reverse ++ t :: tokensAfter [] rest := by
  rw [tokensAfter, special]

theorem tokensAfter_blanks (blanks : Blanks) (spelled rest : List Char) :
    tokensAfter spelled (blanks.text.toList ++ rest) =
      tokensAfter (blanks.text.toList.reverse ++ spelled) rest :=
  tokensAfter_append (fun c mem => ofChar?_of_isBlank (blanks.blank c mem)) spelled rest

theorem tokensAfter_name (name : Name) (spelled rest : List Char) :
    tokensAfter spelled (name.text.toList ++ rest) =
      tokensAfter (name.text.toList.reverse ++ spelled) rest :=
  tokensAfter_append (fun c mem => ofChar?_eq_none (name.plain c mem)) spelled rest

theorem trimChars_append {blanks text : List Char} (blank : ∀ c ∈ blanks, isBlank c = true) :
    trimChars (blanks ++ text) = trimChars text := by
  unfold trimChars
  rw [List.dropWhile_append_of_pos blank]

theorem nameToken_blanks (blanks : Blanks) : nameToken blanks.text.toList = stray false blanks := by
  unfold nameToken
  by_cases empty : blanks.text = ""
  · simp [stray_empty empty, empty]
  · have trimmed : trimChars (blanks.text.toList ++ []) = [] := trimChars_append blanks.blank
    rw [List.append_nil] at trimmed
    rw [if_neg (by simpa using empty), stray_alone empty, trimmed]

theorem nameToken_name (before : Blanks) (name : Name) (behind : Blanks) :
    nameToken (before.text.toList ++ name.text.toList ++ behind.text.toList) = [.name name.text] := by
  have trimmed : trimChars (before.text.toList ++ (name.text.toList ++ behind.text.toList)) =
      name.text.toList := by
    rw [trimChars_append before.blank, name.trimmed.trimChars_append behind.blank]
  unfold nameToken
  rw [if_neg (by simp [name.filled]), List.append_assoc, trimmed, String.ofList_toList]

end Characters

section Tokens

/-- The characters that no token is made of yet when the text is read up to the token `last`, and the
tokens that they are bound to be. -/
inductive Pending : Token → List Char → List Token → Prop
  | other {last : Token} (notName : last.isName = false) : Pending last [] []
  | name (before : Blanks) (name : Name) :
    Pending (.name name.text) (before.text.toList ++ name.text.toList) [.name name.text]

theorem Pending.nameToken {last : Token} {passed : List Char} {front : List Token}
    (pending : Pending last passed front) (behind : Blanks) :
    nameToken (passed ++ behind.text.toList) = front ++ stray last.isName behind := by
  cases pending with
  | other notName => simpa [notName] using nameToken_blanks behind
  | name before name => exact nameToken_name before name behind

theorem tokensAfter_spaced {ts : List Token} (gap : Nat → Blanks) {last : Token} {passed : List Char}
    {front : List Token} (pending : Pending last passed front) (chain : (last :: ts).IsChain Follows)
    (names : ∀ text, .name text ∈ ts → ∃ name : Name, name.text = text) :
    tokensAfter passed.reverse (spaced gap ts).toList = front ++ strewn gap last ts := by
  -- What is read but not yet a token, the name or the blanks before, is carried along.
  induction ts generalizing gap last passed front with
  | nil =>
    have passed := tokensAfter_blanks (gap 0) passed.reverse []
    rw [List.append_nil] at passed
    rw [spaced, passed, tokensAfter, strewn, ← pending.nameToken]
    simp
  | cons t rest ih =>
    obtain ⟨follows, chain⟩ := List.isChain_cons_cons.1 chain
    have names' : ∀ text, .name text ∈ rest → ∃ name : Name, name.text = text :=
      fun text mem => names text (.tail _ mem)
    rw [spaced, String.toList_append, String.toList_append, List.append_assoc, tokensAfter_blanks, strewn]
    cases isName : t.isName with
    | false =>
      obtain ⟨c, spelled, special⟩ := t.exists_char isName
      have later := ih (fun i => gap (i + 1)) (.other isName) chain names'
      rw [List.reverse_nil] at later
      rw [spelled, List.singleton_append, tokensAfter_cons special, later, ← List.reverse_append,
        List.reverse_reverse, pending.nameToken]
      simp
    | true =>
      cases t with
      | operator | opening | closing => cases isName
      | name text =>
        obtain ⟨name, rfl⟩ := names text (.head _)
        cases pending with
        | name => simp [Follows, Token.beginsTerm, Token.endsTerm] at follows
        | other notName =>
          have later := ih (fun i => gap (i + 1)) (.name (gap 0) name) chain names'
          rw [List.reverse_append] at later
          simpa [Token.text, tokensAfter_name, stray_named] using later

theorem tokens_spaced {ts : List Token} (gap : Nat → Blanks) (chain : (.opening :: ts).IsChain Follows)
    (names : ∀ text, .name text ∈ ts → ∃ name : Name, name.text = text) :
    tokens (spaced gap ts) = strewn gap .opening ts :=
  tokensAfter_spaced gap (.other rfl) chain names

end Tokens

section Gaps

def BesideName (ts : List Token) (i : Nat) : Prop :=
  (0 < i ∧ ts[i - 1]?.any Token.isName = true) ∨ ts[i]?.any Token.isName = true

instance (ts : List Token) (i : Nat) : Decidable (BesideName ts i) :=
  inferInstanceAs (Decidable (_ ∨ _))

def TouchesName (last : Token) (ts : List Token) (i : Nat) : Prop :=
  (last :: ts)[i]?.any Token.isName = true ∨ ts[i]?.any Token.isName = true

theorem besideName_iff {ts : List Token} {i : Nat} : BesideName ts i ↔ TouchesName .opening ts i := by
  unfold BesideName TouchesName
  cases i with
  | zero => simp [Token.isName]
  | succ i => simp

theorem touchesName_nil {last : Token} : TouchesName last [] 0 ↔ last.isName = true := by
  simp [TouchesName]

theorem touchesName_zero {last t : Token} {ts : List Token} :
    TouchesName last (t :: ts) 0 ↔ last.isName = true ∨ t.isName = true := by
  simp [TouchesName]

theorem touchesName_succ {last t : Token} {ts : List Token} {i : Nat} :
    TouchesName last (t :: ts) (i + 1) ↔ TouchesName t ts i := by
  simp [TouchesName]

theorem touchesName_append {last t : Token} {front rest : List Token} :
    TouchesName last (front ++ t :: rest) front.length ↔
      TouchesName last front front.length ∨ t.isName = true := by
  induction front generalizing last with
  | nil => rw [List.nil_append, List.length_nil, touchesName_zero, touchesName_nil]
  | cons first front ih =>
    rw [List.cons_append, List.length_cons, touchesName_succ, touchesName_succ, ih]

theorem strewn_eq_self {gap : Nat → Blanks} {last : Token} {ts : List Token}
    (beside : ∀ i, (gap i).text = "" ∨ TouchesName last ts i) : strewn gap last ts = ts := by
  induction ts generalizing gap last with
  | nil =>
    obtain empty | named := beside 0
    · rw [strewn, stray_empty empty]
    · rw [strewn, touchesName_nil.1 named, stray_named]
  | cons t rest ih =>
    have later : strewn (fun i => gap (i + 1)) t rest = rest :=
      ih fun i => (beside (i + 1)).imp_right touchesName_succ.1
    obtain empty | named := beside 0
    · rw [strewn, stray_empty empty, later, List.nil_append]
    · rw [strewn, Bool.or_eq_true_iff.2 (touchesName_zero.1 named), stray_named, later, List.nil_append]

theorem inert_of_closing {ts : List Token} (closing : ∀ t ∈ ts, t = .closing) : Inert ts := by
  induction ts with
  | nil => trivial
  | cons t rest ih =>
    obtain ⟨rfl, later⟩ := List.forall_mem_cons.1 closing
    exact ih later

theorem inert_strewn (gap : Nat → Blanks) (last : Token) {ts : List Token}
    (closing : ∀ t ∈ ts, t = .closing) : Inert (strewn gap last ts) := by
  induction ts generalizing gap last with
  | nil =>
    unfold strewn stray
    split <;> trivial
  | cons t rest ih =>
    obtain ⟨rfl, later⟩ := List.forall_mem_cons.1 closing
    unfold strewn stray
    split
    · exact ih _ _ later
    · trivial

/-- Where every gap is beside a name or in front of closing parentheses only, all that stands in front
of these parentheses is read as it is. -/
theorem exists_strewn (gap : Nat → Blanks) (last : Token) {ts : List Token}
    (harmless : ∀ i, (gap i).text = "" ∨ TouchesName last ts i ∨ ∀ t ∈ ts.drop i, t = .closing) :
    ∃ front closing rest, ts = front ++ closing ∧ (∀ t ∈ closing, t = .closing) ∧
      strewn gap last ts = front ++ rest ∧ Inert rest := by
  induction ts generalizing gap last with
  | nil => exact ⟨[], [], strewn gap last [], rfl, by simp, rfl, inert_strewn _ _ (by simp)⟩
  | cons t ts ih =>
    by_cases only : ∀ t' ∈ t :: ts, t' = .closing
    · exact ⟨[], t :: ts, strewn gap last (t :: ts), rfl, only, rfl, inert_strewn _ _ only⟩
    · obtain ⟨front, closing, rest, rfl, closed, same, inert⟩ :=
        ih (fun i => gap (i + 1)) t fun i =>
          (harmless (i + 1)).imp_right fun h => h.imp_left touchesName_succ.1
      refine ⟨t :: front, closing, rest, rfl, closed, ?_, inert⟩
      obtain empty | named | closed := harmless 0
      · rw [strewn, stray_empty empty, same]
        rfl
      · rw [strewn, Bool.or_eq_true_iff.2 (touchesName_zero.1 named), stray_named, same]
        rfl
      · exact absurd closed only

theorem exists_strewn_append (gap : Nat → Blanks) (last : Token) (front : List Token) {t : Token}
    (rest : List Token) (notName : t.isName = false) :
    ∃ more, strewn gap last (front ++ t :: rest) = strewn gap last front ++ t :: more := by
  induction front generalizing gap last with
  | nil =>
    refine ⟨strewn (fun i => gap (i + 1)) t rest, ?_⟩
    simp [strewn, notName]
  | cons first front ih =>
    obtain ⟨more, same⟩ := ih (fun i => gap (i + 1)) first
    refine ⟨more, ?_⟩
    simp [strewn, same]

theorem exists_strewn_stray (gap : Nat → Blanks) (last : Token) {ts : List Token}
    (filled : (gap ts.length).text ≠ "") (alone : ¬TouchesName last ts ts.length) :
    ∃ front, strewn gap last ts = front ++ [.name ""] ∧ front.getLast? = ts.getLast? := by
  induction ts generalizing gap last with
  | nil =>
    rw [List.length_nil] at filled
    rw [List.length_nil, touchesName_nil, Bool.not_eq_true] at alone
    exact ⟨[], by rw [strewn, alone, stray_alone filled]; rfl, rfl⟩
  | cons t rest ih =>
    rw [List.length_cons] at filled
    rw [List.length_cons, touchesName_succ] at alone
    obtain ⟨front, same, ends⟩ := ih (fun i => gap (i + 1)) t filled alone
    refine ⟨stray (last.isName || t.isName) (gap 0) ++ t :: front, by rw [strewn, same]; simp, ?_⟩
    simp [List.getLast?_append, List.getLast?_cons, ends]

end Gaps

end VulkanBindings.Depends
