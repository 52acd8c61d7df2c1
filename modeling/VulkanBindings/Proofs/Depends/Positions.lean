import VulkanBindings.Proofs.Depends.Reading

/-! Reading an expression without a bound, by positions in its tokens, whatever they are: it always ends,
at a position that the enabled names have no part in. -/

set_option autoImplicit false

namespace VulkanBindings.Depends

def Operator.apply : Operator → Bool → Bool → Bool
  | .both, left, right => left && right
  | .either, left, right => left || right

/-- What is read: a term, terms with operators between them, or what operators join to a value. -/
inductive Part where
  | term
  | sequence
  | more (left : Bool)

/-- What is read from a position comes to a value, and ends at a position. -/
inductive Reads (ts : List Token) (enabled : List String) : Part → Nat → Bool → Nat → Prop where
  | name {pos : Nat} {text : String} (here : ts[pos]? = some (.name text)) :
      Reads ts enabled .term pos (enabled.contains text) (pos + 1)
  | closed {pos last : Nat} {value : Bool} (here : ts[pos]? = some .opening)
      (inner : Reads ts enabled .sequence (pos + 1) value last) (closing : ts[last]? = some .closing) :
      Reads ts enabled .term pos value (last + 1)
  | unclosed {pos last : Nat} {value : Bool} (here : ts[pos]? = some .opening)
      (inner : Reads ts enabled .sequence (pos + 1) value last) (other : ts[last]? ≠ some .closing) :
      Reads ts enabled .term pos value last
  | absent {pos : Nat} (other : ∀ t ∈ ts[pos]?, t.beginsTerm = false) :
      Reads ts enabled .term pos false pos
  | sequence {pos middle last : Nat} {first value : Bool} (term : Reads ts enabled .term pos first middle)
      (rest : Reads ts enabled (.more first) middle value last) :
      Reads ts enabled .sequence pos value last
  | stop {pos : Nat} {left : Bool} (other : ∀ op, ts[pos]? ≠ some (.operator op)) :
      Reads ts enabled (.more left) pos left pos
  | operator {pos middle last : Nat} {left right value : Bool} {op : Operator}
      (here : ts[pos]? = some (.operator op)) (term : Reads ts enabled .term (pos + 1) right middle)
      (rest : Reads ts enabled (.more (op.apply left right)) middle value last) :
      Reads ts enabled (.more left) pos value last

theorem Token.beginsTerm_iff {t : Token} :
    t.beginsTerm = true ↔ t = .opening ∨ ∃ text, t = .name text := by
  cases t <;> simp [Token.beginsTerm]

namespace Reads

variable {ts : List Token} {enabled : List String} {part : Part} {pos last n : Nat} {value : Bool}

theorem le (reads : Reads ts enabled part pos value last) : pos ≤ last := by
  induction reads <;> omega

theorem le_length (reads : Reads ts enabled part pos value last) (inside : pos ≤ ts.length) :
    last ≤ ts.length := by
  have within {i : Nat} {t : Token} (here : ts[i]? = some t) : i + 1 ≤ ts.length :=
    (List.getElem?_eq_some_iff.1 here).1
  induction reads with
  | name here => exact within here
  | closed here inner closing ih => exact within closing
  | unclosed here inner other ih => exact ih (within here)
  | absent other => exact inside
  | sequence term rest ihTerm ihRest => exact ihRest (ihTerm inside)
  | stop other => exact inside
  | operator here term rest ihTerm ihRest => exact ihRest (ihTerm (within here))

theorem lt_iff (reads : Reads ts enabled .term pos value last) :
    pos < last ↔ ∃ t ∈ ts[pos]?, t.beginsTerm = true := by
  cases reads with
  | name here => simp [here, Token.beginsTerm]
  | closed here inner closing =>
    have forward := inner.le
    simp [here, Token.beginsTerm]
    omega
  | unclosed here inner other =>
    have forward := inner.le
    simp [here, Token.beginsTerm]
    omega
  | absent other =>
    simp only [Nat.lt_irrefl, false_iff, not_exists, not_and]
    intro t here begins
    rw [other t here] at begins
    cases begins

theorem not_operator (reads : Reads ts enabled part pos value last) (joined : part ≠ .term) (op : Operator) :
    ts[last]? ≠ some (.operator op) := by
  induction reads with
  | stop other => exact other op
  | sequence term rest ihTerm ihRest => exact ihRest nofun
  | operator here term rest ihTerm ihRest => exact ihRest nofun
  | _ => exact absurd rfl joined

end Reads

section Readers

open Depends.Expr (term more sequence readTerm readSequence)

variable {ts : List Token} {enabled : List String}

theorem Expr.value_join (op : Operator) (left right : Expr) :
    (Expr.join op left right).value enabled = op.apply (left.value enabled) (right.value enabled) := by
  cases op <;> rfl

theorem Expr.term_of_absent (other : ∀ t ∈ ts.head?, t.beginsTerm = false) : term ts = (.absent, ts) := by
  cases ts with
  | nil => rfl
  | cons t rest =>
    cases t with
    | name | opening => cases other _ rfl
    | operator | closing => rfl

theorem Expr.more_of_stop (other : ∀ op, ts.head? ≠ some (.operator op)) (left : Expr) :
    more left ts = (left, ts) := by
  cases ts with
  | nil => rfl
  | cons t rest =>
    cases t with
    | operator op => exact absurd rfl (other op)
    | name | opening | closing => rfl

theorem Expr.afterClosing_of_ne (other : ts.head? ≠ some .closing) : afterClosing ts = ts := by
  unfold afterClosing
  split
  · exact absurd rfl other
  · rfl

def Makes (enabled : List String) (ts : List Token) (value : Bool) (left : List Token) : Part → Prop
  | .term => (term ts).1.value enabled = value ∧ (term ts).2 = left
  | .sequence => (sequence ts).1.value enabled = value ∧ (sequence ts).2 = left
  | .more first => ∀ e : Expr, e.value enabled = first →
      (more e ts).1.value enabled = value ∧ (more e ts).2 = left

theorem drop_of_getElem? {i : Nat} {t : Token} (here : ts[i]? = some t) :
    ts.drop i = t :: ts.drop (i + 1) := by
  obtain ⟨inside, rfl⟩ := List.getElem?_eq_some_iff.1 here
  exact List.drop_eq_getElem_cons inside

/-- The readers make the same of the tokens, and leave those behind the position. -/
theorem Reads.makes {part : Part} {pos last : Nat} {value : Bool}
    (reads : Reads ts enabled part pos value last) :
    Makes enabled (ts.drop pos) value (ts.drop last) part := by
  induction reads with
  | name here =>
    rw [drop_of_getElem? here]
    exact ⟨rfl, rfl⟩
  | closed here inner closing ih =>
    rw [drop_of_getElem? here, Makes, Expr.term_opening, ih.2, drop_of_getElem? closing]
    exact ⟨ih.1, rfl⟩
  | unclosed here inner other ih =>
    rw [← List.head?_drop] at other
    rw [drop_of_getElem? here, Makes, Expr.term_opening, ih.2, Expr.afterClosing_of_ne other]
    exact ⟨ih.1, rfl⟩
  | absent other =>
    simp only [← List.head?_drop] at other
    rw [Makes, Expr.term_of_absent other]
    exact ⟨rfl, rfl⟩
  | sequence term rest ihTerm ihRest =>
    rw [Makes, Expr.sequence_eq, ihTerm.2]
    exact ihRest _ ihTerm.1
  | stop other =>
    simp only [← List.head?_drop] at other
    intro e same
    rw [Expr.more_of_stop other]
    exact ⟨same, rfl⟩
  | @operator pos middle last left right value op here term rest ihTerm ihRest =>
    intro e same
    rw [drop_of_getElem? here, Expr.more_operator, ihTerm.2]
    apply ihRest
    rw [Expr.value_join, same, ihTerm.1]

/-- By induction on how many tokens are left: behind an operator and behind an opening parenthesis there
are fewer, and what is read of these ends no earlier. -/
theorem exists_reads (ts : List Token) (enabled : List String) (n : Nat) : ∀ pos, ts.length ≤ pos + n →
    (∃ value last, Reads ts enabled .term pos value last) ∧
      ∀ left, ∃ value last, Reads ts enabled (.more left) pos value last := by
  induction n with
  | zero =>
    intro pos behind
    have none : ts[pos]? = none := List.getElem?_eq_none behind
    exact ⟨⟨_, _, .absent (by simp [none])⟩, fun left => ⟨_, _, .stop (by simp [none])⟩⟩
  | succ n ih =>
    intro pos left
    obtain ⟨⟨right, middle, term⟩, -⟩ := ih (pos + 1) (by omega)
    have forward := term.le
    have rest := (ih middle (by omega)).2
    constructor
    · cases here : ts[pos]? with
      | none => exact ⟨_, _, .absent (by simp [here])⟩
      | some t =>
        cases t with
        | name text => exact ⟨_, _, .name here⟩
        | operator op => exact ⟨_, _, .absent (by simp [here, Token.beginsTerm])⟩
        | closing => exact ⟨_, _, .absent (by simp [here, Token.beginsTerm])⟩
        | opening =>
          obtain ⟨value, last, more⟩ := rest right
          by_cases closing : ts[last]? = some .closing
          · exact ⟨_, _, .closed here (.sequence term more) closing⟩
          · exact ⟨_, _, .unclosed here (.sequence term more) closing⟩
    · intro left
      by_cases here : ∃ op, ts[pos]? = some (.operator op)
      · obtain ⟨op, here⟩ := here
        obtain ⟨value, last, more⟩ := rest (op.apply left right)
        exact ⟨_, _, .operator here term more⟩
      · exact ⟨_, _, .stop (not_exists.1 here)⟩

theorem Expr.readTerm_of_le {n : Nat} (enough : ts.length ≤ n) : readTerm n ts = term ts :=
  (read_bound n ts.length ts enough (Nat.le_refl _)).1

theorem Expr.readSequence_of_le {n : Nat} (enough : ts.length ≤ n) : readSequence n ts = sequence ts := by
  have fewer := (term_suffix ts).length_le.trans enough
  rw [sequence_eq, readSequence, readTerm_of_le enough]
  exact (read_bound n (term ts).2.length (term ts).2 fewer (Nat.le_refl _)).2 _

theorem eq_of_drop_eq {i j : Nat} (same : ts.drop i = ts.drop j) (inside : i ≤ ts.length)
    (inside' : j ≤ ts.length) : i = j := by
  have lengths := congrArg List.length same
  simp only [List.length_drop] at lengths
  omega

theorem exists_end {part : Part} (read : List Token → Expr × List Token) {pos : Nat}
    (makes : ∀ enabled rest value left,
      Makes enabled rest value left part ↔ (read rest).1.value enabled = value ∧ (read rest).2 = left)
    (ends : ∀ enabled, ∃ value last, Reads ts enabled part pos value last) (inside : pos ≤ ts.length) :
    ∃ last, last ≤ ts.length ∧ (read (ts.drop pos)).2 = ts.drop last ∧
      ∀ enabled value stop, Reads ts enabled part pos value stop ↔
        value = (read (ts.drop pos)).1.value enabled ∧ stop = last := by
  obtain ⟨value, last, reads⟩ := ends []
  have left := ((makes ..).1 reads.makes).2
  have within := reads.le_length inside
  -- The readers do not ask for what is enabled, so they end at one position.
  have unique {enabled : List String} {value : Bool} {stop : Nat}
      (reads : Reads ts enabled part pos value stop) :
      value = (read (ts.drop pos)).1.value enabled ∧ stop = last := by
    obtain ⟨same, left'⟩ := (makes ..).1 reads.makes
    exact ⟨same.symm, eq_of_drop_eq (left'.symm.trans left) (reads.le_length inside) within⟩
  refine ⟨last, within, left, fun enabled value stop => ⟨unique, ?_⟩⟩
  rintro ⟨rfl, rfl⟩
  obtain ⟨value', stop', reads'⟩ := ends enabled
  obtain ⟨rfl, rfl⟩ := unique reads'
  exact reads'

/-- From every position reading ends, at one position whatever is enabled, and a bound that is no less
than the number of the tokens left makes no difference. A term takes tokens if a name or
an opening parenthesis is there; where terms with operators between them end, no operator follows. -/
theorem reading_ends {pos n : Nat} (inside : pos ≤ ts.length) (enough : ts.length ≤ pos + n) :
    (∃ last, pos ≤ last ∧ last ≤ ts.length ∧
      (pos < last ↔ ∃ t ∈ ts[pos]?, t = .opening ∨ ∃ text, t = .name text) ∧
      (readTerm n (ts.drop pos)).2 = ts.drop last ∧
      ∀ enabled value stop, Reads ts enabled .term pos value stop ↔
        value = (readTerm n (ts.drop pos)).1.value enabled ∧ stop = last) ∧
    ∃ last, pos ≤ last ∧ last ≤ ts.length ∧
      (∀ op, ts[last]? ≠ some (.operator op)) ∧
      (readSequence n (ts.drop pos)).2 = ts.drop last ∧
      ∀ enabled value stop, Reads ts enabled .sequence pos value stop ↔
        value = (readSequence n (ts.drop pos)).1.value enabled ∧ stop = last := by
  have enough' : (ts.drop pos).length ≤ n := by
    rw [List.length_drop]
    omega
  rw [Expr.readTerm_of_le enough', Expr.readSequence_of_le enough']
  have ends (enabled : List String) := exists_reads ts enabled n pos enough
  have joined (enabled : List String) : ∃ value last, Reads ts enabled .sequence pos value last := by
    obtain ⟨⟨first, middle, term⟩, -⟩ := ends enabled
    have forward := term.le
    obtain ⟨value, last, rest⟩ := (exists_reads ts enabled n middle (by omega)).2 first
    exact ⟨value, last, .sequence term rest⟩
  constructor
  · obtain ⟨last, within, left, reads⟩ :=
      exists_end term (fun _ _ _ _ => Iff.rfl) (fun enabled => (ends enabled).1) inside
    have here := (reads [] _ _).2 ⟨rfl, rfl⟩
    refine ⟨last, here.le, within, here.lt_iff.trans ?_, left, reads⟩
    simp only [Token.beginsTerm_iff]
  · obtain ⟨last, within, left, reads⟩ :=
      exists_end sequence (fun _ _ _ _ => Iff.rfl) joined inside
    have here := (reads [] _ _).2 ⟨rfl, rfl⟩
    exact ⟨last, here.le, within, here.not_operator nofun, left, reads⟩

def unclosed : List Token := tokens "(+VK_KHR_sail,(VK_KHR_boat"

theorem unclosed_ends :
    1 ≤ unclosed.length ∧ unclosed.length ≤ 1 + 5 ∧
      Reads unclosed ["VK_KHR_boat"] .sequence 1 true 6 ∧
      Reads unclosed ["VK_KHR_sail"] .sequence 1 false 6 ∧
      Reads unclosed ["VK_KHR_sail"] .term 1 false 1 := by
  have inside : 1 ≤ unclosed.length := by decide
  have enough : unclosed.length ≤ 1 + 5 := by decide
  obtain ⟨⟨stop, forward, -, moves, -, terms⟩, last, -, within, -, left, sequences⟩ :=
    reading_ends inside enough
  obtain rfl : last = 6 := by
    have none : (readSequence 5 (unclosed.drop 1)).2 = [] := by decide
    have all : 6 ≤ last := List.drop_eq_nil_iff.1 (left.symm.trans none)
    exact Nat.le_antisymm within all
  obtain rfl : stop = 1 := by
    have here : unclosed[1]? = some (.operator .both) := by decide
    have stays : ¬1 < stop := by simp [moves, here]
    omega
  exact ⟨inside, enough, (sequences ..).2 ⟨by decide, rfl⟩, (sequences ..).2 ⟨by decide, rfl⟩,
    (terms ..).2 ⟨by decide, rfl⟩⟩

end Readers

end VulkanBindings.Depends
