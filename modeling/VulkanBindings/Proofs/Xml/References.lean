import Mathlib.Data.List.Induction
import Mathlib.Tactic.IntervalCases
import VulkanBindings.Proofs.Text.Utf8
import VulkanBindings.Text.Blank
import VulkanBindings.Xml.Reference

/-! Which pieces of a text are references, and what the text comes to when they are replaced. A
character may be written as itself, by its name or by its number; whatever it is written as, it is
read back, and it is never part of another reference. -/

set_option autoImplicit false

namespace VulkanBindings.Xml.Reference

open Text (digit? digits? natural?)

def IsDigit (base : Nat) (c : Char) (d : Nat) : Prop :=
  d < base ∧ (c = Nat.digitChar d ∨ c = (Nat.digitChar d).toUpper)

/-- The digits of a number, which may begin with zeros. -/
inductive Numeral (base : Nat) : List Char → Nat → Prop
  | one {c : Char} {d : Nat} (digit : IsDigit base c d) : Numeral base [c] d
  | more {text : List Char} {n : Nat} {c : Char} {d : Nat} (front : Numeral base text n)
    (digit : IsDigit base c d) : Numeral base (text ++ [c]) (n * base + d)

def entities : List (String × Char) := [
  ("exclamation", '!'), ("quot", '"'), ("percent", '%'), ("amp", '&'), ("apos", '\''), ("add", '+'),
  ("lt", '<'), ("equal", '='), ("gt", '>')]

/-- What refers to a character between an ampersand and a semicolon: its name, or its number in
digits of either case, with any zeros in front. -/
inductive Refers (c : Char) : List Char → Prop
  | named {name : String} (mem : (name, c) ∈ entities) : Refers c name.toList
  | decimal {digits : List Char} (number : Numeral 10 digits c.toNat) : Refers c ('#' :: digits)
  | hexadecimal {mark : Char} {digits : List Char} (isMark : mark = 'x' ∨ mark = 'X')
    (number : Numeral 16 digits c.toNat) : Refers c ('#' :: mark :: digits)

/-- A number behind a plus sign, which the readers of numbers take for the number. -/
inductive RefersSigned (c : Char) : List Char → Prop
  | decimal {digits : List Char} (number : Numeral 10 digits c.toNat) :
    RefersSigned c ('#' :: '+' :: digits)
  | hexadecimal {mark : Char} {digits : List Char} (isMark : mark = 'x' ∨ mark = 'X')
    (number : Numeral 16 digits c.toNat) : RefersSigned c ('#' :: mark :: '+' :: digits)

section Digits

variable {base n d : Nat} {c : Char} {text : List Char}

theorem IsDigit.digit?_eq (small : base ≤ 16) (digit : IsDigit base c d) :
    digit? base c = some d := by
  obtain ⟨below, same⟩ := digit
  have value (hexadecimal : digit? 16 c = some d) : digit? base c = some d := by
    unfold digit? at hexadecimal ⊢
    obtain ⟨found, _⟩ := Option.filter_eq_some_iff.1 hexadecimal
    exact Option.filter_eq_some_iff.2 ⟨found, by simpa using below⟩
  have bound := Nat.lt_of_lt_of_le below small
  refine value ?_
  obtain rfl | rfl := same <;> interval_cases d <;> rfl

def marks : List Char := ['+', '&', ';', 'x', 'X', '<', '"']

theorem IsDigit.not_mem (small : base ≤ 16) (digit : IsDigit base c d) : c ∉ marks := by
  obtain ⟨below, same⟩ := digit
  have bound := Nat.lt_of_lt_of_le below small
  obtain rfl | rfl := same <;> interval_cases d <;> decide

theorem Numeral.ne_nil (number : Numeral base text n) : text ≠ [] := by
  cases number with
  | one => exact List.cons_ne_nil _ _
  | more => simp

theorem Numeral.not_mem {mark : Char} (small : base ≤ 16) (number : Numeral base text n)
    (isMark : mark ∈ marks) : mark ∉ text := by
  have other {c : Char} {d : Nat} (digit : IsDigit base c d) : mark ≠ c :=
    fun same => digit.not_mem small (same ▸ isMark)
  induction number with
  | one digit => simpa using other digit
  | more front digit ih => simpa using ⟨ih, other digit⟩

theorem Numeral.digits?_eq (small : base ≤ 16) (number : Numeral base text n) :
    digits? base text = some n := by
  have folded : text.foldlM (fun n c => (digit? base c).map (n * base + ·)) 0 = some n := by
    induction number with
    | one digit => simp [digit.digit?_eq small]
    | more front digit ih => simp [ih, digit.digit?_eq small]
  cases text with
  | nil => exact absurd rfl number.ne_nil
  | cons c rest => exact folded

theorem Numeral.natural?_eq (small : base ≤ 16) (number : Numeral base text n) :
    natural? base text = some n := by
  unfold natural?
  split
  · exact absurd List.mem_cons_self (number.not_mem small (by decide))
  · exact number.digits?_eq small

theorem numeral_toDigits (n : Nat) : Numeral 10 (Nat.toDigits 10 n) n := by
  induction n using Nat.strong_induction_on with
  | _ n ih =>
    by_cases small : n < 10
    · rw [Nat.toDigits_of_lt_base small]
      exact .one ⟨small, .inl rfl⟩
    · have large := Nat.le_of_not_lt small
      have more : Numeral 10 _ (n / 10 * 10 + n % 10) :=
        .more (ih (n / 10) (by omega)) ⟨Nat.mod_lt n (by decide), .inl rfl⟩
      rw [Nat.toDigits_of_base_le (by decide) large]
      rwa [Nat.div_add_mod' n 10] at more

theorem isDigit_of_digit? (small : base ≤ 16) (read : digit? base c = some d) : IsDigit base c d := by
  obtain ⟨found, inside⟩ := Option.filter_eq_some_iff.1 read
  have below : d < base := by simpa using inside
  have bound := below.trans_le small
  have code : c.toNat = d + 48 ∧ d < 10 ∨ c.toNat = d + 87 ∧ 10 ≤ d ∨ c.toNat = d + 55 ∧ 10 ≤ d := by
    simp only [Bool.and_eq_true, decide_eq_true_eq] at found
    split_ifs at found with number lower upper
    · have range : 48 ≤ c.toNat ∧ c.toNat ≤ 57 := number
      have value : c.toNat - 48 = d := Option.some.inj found
      omega
    · have range : 97 ≤ c.toNat := lower.1
      have value : c.toNat - 97 + 10 = d := Option.some.inj found
      omega
    · have range : 65 ≤ c.toNat := upper.1
      have value : c.toNat - 65 + 10 = d := Option.some.inj found
      omega
  refine ⟨below, ?_⟩
  rw [← Char.ofNat_toNat c]
  obtain ⟨same, range⟩ | ⟨same, range⟩ | ⟨same, range⟩ := code
  · rw [same]
    interval_cases d <;> exact .inl rfl
  · rw [same]
    interval_cases d <;> exact .inl rfl
  · rw [same]
    interval_cases d <;> exact .inr rfl

theorem digits?_concat (filled : text ≠ []) (c : Char) : digits? base (text ++ [c]) =
    (digits? base text).bind fun n => (digit? base c).map (n * base + ·) := by
  cases text with
  | nil => exact absurd rfl filled
  | cons first rest => simp [digits?, List.foldlM_append, Option.bind_assoc]

theorem digits?_eq_some_iff (small : base ≤ 16) : digits? base text = some n ↔ Numeral base text n := by
  refine ⟨fun read => ?_, fun number => number.digits?_eq small⟩
  induction text using List.reverseRecOn generalizing n with
  | nil => cases read
  | append_singleton front c ih =>
    by_cases single : front = []
    · subst single
      have digit : digit? base c = some n := by simpa [digits?] using read
      exact .one (isDigit_of_digit? small digit)
    · rw [digits?_concat single] at read
      obtain ⟨m, frontRead, last⟩ := Option.bind_eq_some_iff.1 read
      obtain ⟨d, digit, rfl⟩ := Option.map_eq_some_iff.1 last
      exact .more (ih frontRead) (isDigit_of_digit? small digit)

theorem natural?_eq_some_iff (small : base ≤ 16) : natural? base text = some n ↔
    Numeral base text n ∨ ∃ digits, text = '+' :: digits ∧ Numeral base digits n := by
  unfold natural?
  split
  · next digits =>
    have unsigned : ¬Numeral base ('+' :: digits) n := fun number =>
      number.not_mem small (by decide) List.mem_cons_self
    simp [digits?_eq_some_iff small, unsigned]
  · next unsigned =>
    rw [digits?_eq_some_iff small, or_iff_left]
    rintro ⟨digits, rfl, -⟩
    exact unsigned digits rfl

end Digits

section Numbers

variable {base n : Nat} {c : Char} {text : List Char}

theorem scalar?_toNat (c : Char) : scalar? c.toNat = some c := by
  have valid : c.toNat.isValidChar := c.valid
  rw [scalar?, if_pos valid, Char.ofNat_toNat]

theorem scalar?_eq_some_iff : scalar? n = some c ↔ n = c.toNat := by
  constructor
  · intro read
    unfold scalar? at read
    split at read
    · next valid =>
      cases read
      exact (Text.Utf8.toNat_ofNat valid).symm
    · cases read
  · rintro rfl
    exact scalar?_toNat c

theorem number_eq_some_iff (small : base ≤ 16) : (natural? base text).bind scalar? = some c ↔
    Numeral base text c.toNat ∨ ∃ digits, text = '+' :: digits ∧ Numeral base digits c.toNat := by
  simp [Option.bind_eq_some_iff, scalar?_eq_some_iff, natural?_eq_some_iff small]

end Numbers

section Characters

variable {c : Char} {name : List Char}

theorem Refers.character?_eq (refers : Refers c name) : character? name = some c := by
  cases refers with
  | named mem =>
    simp only [entities, List.mem_cons, Prod.mk.injEq, List.not_mem_nil, or_false] at mem
    obtain ⟨rfl, rfl⟩ | ⟨rfl, rfl⟩ | ⟨rfl, rfl⟩ | ⟨rfl, rfl⟩ | ⟨rfl, rfl⟩ | ⟨rfl, rfl⟩ | ⟨rfl, rfl⟩ |
      ⟨rfl, rfl⟩ | ⟨rfl, rfl⟩ := mem <;> rfl
  | decimal number =>
    have read := (number_eq_some_iff (by decide)).2 (.inl number)
    unfold character?
    split
    · next same =>
      cases same
      exact absurd List.mem_cons_self (number.not_mem (by decide) (by decide))
    · next same =>
      cases same
      exact absurd List.mem_cons_self (number.not_mem (by decide) (by decide))
    · next same =>
      cases same
      exact read
    · next notHash => exact (notHash _ rfl).elim
  | hexadecimal isMark number =>
    have read := (number_eq_some_iff (by decide)).2 (.inl number)
    obtain rfl | rfl := isMark <;> exact read

theorem RefersSigned.character?_eq (refers : RefersSigned c name) : character? name = some c := by
  cases refers with
  | decimal number => exact (number_eq_some_iff (by decide)).2 (.inr ⟨_, rfl, number⟩)
  | hexadecimal isMark number =>
    have read := (number_eq_some_iff (by decide)).2 (.inr ⟨_, rfl, number⟩)
    obtain rfl | rfl := isMark <;> exact read

theorem character?_eq_some_iff : character? name = some c ↔ Refers c name ∨ RefersSigned c name := by
  refine ⟨fun read => ?_, fun refers => refers.elim Refers.character?_eq RefersSigned.character?_eq⟩
  unfold character? at read
  split at read
  · obtain number | ⟨digits, rfl, number⟩ := (number_eq_some_iff (by decide)).1 read
    · exact .inl (.hexadecimal (.inl rfl) number)
    · exact .inr (.hexadecimal (.inl rfl) number)
  · obtain number | ⟨digits, rfl, number⟩ := (number_eq_some_iff (by decide)).1 read
    · exact .inl (.hexadecimal (.inr rfl) number)
    · exact .inr (.hexadecimal (.inr rfl) number)
  · obtain number | ⟨digits, rfl, number⟩ := (number_eq_some_iff (by decide)).1 read
    · exact .inl (.decimal number)
    · exact .inr (.decimal number)
  · refine .inl ?_
    rw [← String.toList_ofList (l := name)]
    generalize String.ofList name = word at read
    split at read <;> cases read
    all_goals exact .named (by decide)

end Characters

theorem decodeAfter_append (passed rest : List Char) :
    decodeAfter passed.length (passed ++ rest) = decodeAfter 0 rest := by
  induction passed with
  | nil => rfl
  | cons c passed ih => exact ih

theorem nameBefore?_append {name : List Char} (rest : List Char) (closed : ';' ∉ name) :
    nameBefore? (name ++ ';' :: rest) = some name := by
  unfold nameBefore?
  rw [if_pos (by simp), Text.takeWhile_ne_append closed]

theorem nameBefore?_eq_some_iff {text name : List Char} :
    nameBefore? text = some name ↔ ∃ rest, text = name ++ ';' :: rest ∧ ';' ∉ name := by
  constructor
  · intro found
    by_cases ends : text.contains ';'
    · obtain ⟨front, rest, rfl, closed⟩ := List.eq_append_cons_of_mem (List.contains_iff_mem.1 ends)
      rw [nameBefore?_append rest closed] at found
      cases found
      exact ⟨rest, rfl, closed⟩
    · rw [nameBefore?, if_neg ends] at found
      cases found
  · rintro ⟨rest, rfl, closed⟩
    exact nameBefore?_append rest closed

section Decode

variable {c : Char} {name text rest value written shown : List Char}

theorem decode_cons (notMark : c ≠ '&') (rest : List Char) : decode (c :: rest) = c :: decode rest := by
  unfold decode
  rw [decodeAfter]
  exact notMark

theorem decode_reference (closed : ';' ∉ name) (read : character? name = some c) (rest : List Char) :
    decode ('&' :: name ++ ';' :: rest) = c :: decode rest := by
  have skipped := decodeAfter_append (name ++ [';']) rest
  rw [List.length_append, List.length_singleton, List.append_assoc] at skipped
  unfold decode
  rw [List.cons_append, decodeAfter, nameBefore?_append rest closed, Option.bind_some, read]
  dsimp only [Option.map_some]
  rw [← skipped]
  rfl

theorem decode_ampersand
    (none : ∀ name rest', text = name ++ ';' :: rest' → ';' ∉ name → character? name = none) :
    decode ('&' :: text) = '&' :: decode text := by
  have unread : ((nameBefore? text).bind fun name => (character? name).map (·, name.length + 1)) = .none := by
    refine Option.bind_eq_none_iff.2 fun name found => ?_
    obtain ⟨rest, whole, closed⟩ := nameBefore?_eq_some_iff.1 found
    rw [none name rest whole closed]
    rfl
  unfold decode
  rw [decodeAfter, unread]

theorem decode_append (plain : '&' ∉ text) (rest : List Char) :
    decode (text ++ rest) = text ++ decode rest := by
  induction text with
  | nil => rfl
  | cons c text ih =>
    obtain ⟨notMark, others⟩ := List.ne_and_not_mem_of_not_mem_cons plain
    rw [List.cons_append, decode_cons (Ne.symm notMark), ih others, List.cons_append]

end Decode

section Names

variable {c d : Char} {name other rest rest' : List Char}

theorem Refers.not_mem {mark : Char} (refers : Refers c name) (isMark : mark ∈ ['&', ';', '+']) :
    mark ∉ name := by
  have apart : mark ∈ marks ∧ mark ∉ ['#', 'x', 'X'] ∧ ∀ known ∈ entities, mark ∉ known.1.toList := by
    simp only [List.mem_cons, List.not_mem_nil, or_false] at isMark
    obtain rfl | rfl | rfl := isMark <;> decide
  obtain ⟨beside, others, letters⟩ := apart
  cases refers with
  | named mem => exact letters _ mem
  | decimal number =>
    have digits := number.not_mem (by decide) beside
    simp_all
  | hexadecimal isMark number =>
    have digits := number.not_mem (by decide) beside
    obtain rfl | rfl := isMark <;> simp_all

theorem RefersSigned.not_mem {mark : Char} (refers : RefersSigned c name) (isMark : mark ∈ ['&', ';']) :
    mark ∉ name := by
  have apart : mark ∈ marks ∧ mark ∉ ['#', 'x', 'X', '+'] := by
    simp only [List.mem_cons, List.not_mem_nil, or_false] at isMark
    obtain rfl | rfl := isMark <;> decide
  obtain ⟨beside, others⟩ := apart
  cases refers with
  | decimal number =>
    have digits := number.not_mem (by decide) beside
    simp_all
  | hexadecimal isMark number =>
    have digits := number.not_mem (by decide) beside
    obtain rfl | rfl := isMark <;> simp_all

theorem RefersSigned.plus_mem (refers : RefersSigned c name) : '+' ∈ name := by
  cases refers <;> simp

theorem not_mem_of_reads {mark : Char} (isMark : mark ∈ ['&', ';']) (read : character? name = some c) :
    mark ∉ name := by
  obtain refers | signed := character?_eq_some_iff.1 read
  · exact refers.not_mem (List.mem_append_left ['+'] isMark)
  · exact signed.not_mem isMark

theorem eq_of_closed (closed : ';' ∉ name) (closed' : ';' ∉ other)
    (same : name ++ ';' :: rest = other ++ ';' :: rest') : name = other ∧ rest = rest' := by
  have before := nameBefore?_append rest closed
  rw [same, nameBefore?_append rest' closed'] at before
  cases before
  exact ⟨rfl, (List.cons.inj (List.append_cancel_left same)).2⟩

end Names

/-- A text as it is written: every character as itself, unless it is an ampersand, or as a reference. -/
inductive Encodes : List Char → List Char → Prop
  | nil : Encodes [] []
  | plain {c : Char} {value written : List Char} (notMark : c ≠ '&') (rest : Encodes value written) :
    Encodes (c :: value) (c :: written)
  | reference {c : Char} {name value written : List Char} (refers : Refers c name)
    (rest : Encodes value written) : Encodes (c :: value) ('&' :: name ++ ';' :: written)

theorem Encodes.decode_append {value written : List Char} (encodes : Encodes value written)
    (rest : List Char) :
    decode (written ++ rest) = value ++ decode rest := by
  induction encodes with
  | nil => rfl
  | plain notMark _ ih => rw [List.cons_append, decode_cons notMark, ih, List.cons_append]
  | @reference c name value written refers _ ih =>
    have closed := refers.not_mem (by decide : ';' ∈ ['&', ';', '+'])
    have parts : '&' :: name ++ ';' :: written ++ rest = '&' :: name ++ ';' :: (written ++ rest) := by simp
    rw [parts, decode_reference closed refers.character?_eq, ih, List.cons_append]

theorem Encodes.decode_eq {value written : List Char} (encodes : Encodes value written) :
    decode written = value := by
  have alone := encodes.decode_append []
  rwa [List.append_nil, show decode [] = [] from rfl, List.append_nil] at alone

/-- Whatever a text is written as, it is read back. What comes after it is read by itself: an
ampersand that was referred to begins no other reference. -/
theorem decode_encoded {value written : List Char} (encodes : Encodes value written) :
    decode written = value ∧ ∀ rest, decode (written ++ rest) = value ++ decode rest :=
  ⟨encodes.decode_eq, encodes.decode_append⟩

-- The character that is referred to first and the text after it look like a reference.
theorem ampersand_encoded : Encodes "A&lt;<".toList "&#0065;&amp;lt;&lt;".toList ∧
    decode "&#0065;&amp;lt;&lt;".toList = "A&lt;<".toList := by
  have letter : Refers 'A' "#0065".toList := .decimal ((digits?_eq_some_iff (by decide)).1 rfl)
  have ampersand : Refers '&' "amp".toList := .named (by decide)
  have less : Refers '<' "lt".toList := .named (by decide)
  have encodes : Encodes "A&lt;<".toList "&#0065;&amp;lt;&lt;".toList :=
    .reference letter <| .reference ampersand <| .plain (by decide) <| .plain (by decide) <|
      .plain (by decide) <| .reference less .nil
  exact ⟨encodes, (decode_encoded encodes).1⟩

/-- A reference stands at the start of the text. -/
def Begins (refers : Char → List Char → Prop) (text : List Char) : Prop :=
  ∃ c name rest, text = '&' :: name ++ ';' :: rest ∧ refers c name

/-- A text with its references replaced, and all else as it is. -/
inductive Replaced (refers : Char → List Char → Prop) : List Char → List Char → Prop
  | nil : Replaced refers [] []
  | kept {c : Char} {text shown : List Char} (none : ¬Begins refers (c :: text))
    (rest : Replaced refers text shown) : Replaced refers (c :: text) (c :: shown)
  | reference {c : Char} {name text shown : List Char} (isName : refers c name)
    (rest : Replaced refers text shown) : Replaced refers ('&' :: name ++ ';' :: text) (c :: shown)

/-- Somewhere in the text there is a reference by a number behind a plus sign. -/
def HasSigned (text : List Char) : Prop := ∃ rest, rest <:+ text ∧ Begins RefersSigned rest

section Replaced

variable {c : Char} {text shown : List Char}

/-- All that is read as a reference. -/
def Reads (c : Char) (name : List Char) : Prop := Refers c name ∨ RefersSigned c name

theorem decode_kept (none : ¬Begins Reads (c :: text)) : decode (c :: text) = c :: decode text := by
  by_cases mark : c = '&'
  · subst mark
    refine decode_ampersand fun name rest whole _ => Option.eq_none_iff_forall_ne_some.2 fun d read => ?_
    exact none ⟨d, name, rest, congrArg _ whole, character?_eq_some_iff.1 read⟩
  · exact decode_cons mark text

theorem Reads.decode_eq {name : List Char} (reads : Reads c name) (rest : List Char) :
    decode ('&' :: name ++ ';' :: rest) = c :: decode rest := by
  have read := character?_eq_some_iff.2 reads
  exact decode_reference (not_mem_of_reads (by decide) read) read rest

theorem Replaced.decode_eq (replaced : Replaced Reads text shown) : decode text = shown := by
  induction replaced with
  | nil => rfl
  | kept none _ ih => rw [decode_kept none, ih]
  | reference isName _ ih => rw [Reads.decode_eq isName, ih]

theorem replaced_decode (text : List Char) : Replaced Reads text (decode text) := by
  obtain ⟨n, bound⟩ : ∃ n, text.length ≤ n := ⟨_, Nat.le_refl _⟩
  induction n generalizing text with
  | zero =>
    cases List.eq_nil_of_length_eq_zero (Nat.le_zero.1 bound)
    exact .nil
  | succ n ih =>
    cases text with
    | nil => exact .nil
    | cons c text =>
      by_cases begins : Begins Reads (c :: text)
      · obtain ⟨d, name, rest, whole, isName⟩ := begins
        rw [whole] at bound ⊢
        rw [Reads.decode_eq isName]
        refine .reference isName (ih rest ?_)
        simp only [List.cons_append, List.length_cons, List.length_append] at bound
        omega
      · rw [decode_kept begins]
        exact .kept begins (ih text (Nat.le_of_succ_le_succ bound))

/-- A text without signed numbers in its references is shown as it would be if these were none. -/
theorem Replaced.unsigned (replaced : Replaced Reads text shown) (unsigned : ¬HasSigned text) :
    Replaced Refers text shown := by
  induction replaced with
  | nil => exact .nil
  | kept none _ ih =>
    refine .kept (fun ⟨d, name, rest, whole, isName⟩ => none ⟨d, name, rest, whole, .inl isName⟩) (ih ?_)
    exact fun ⟨rest, inside, begins⟩ => unsigned ⟨rest, inside.trans (List.suffix_cons ..), begins⟩
  | @reference c name text shown isName _ ih =>
    have later : text <:+ '&' :: name ++ ';' :: text := ⟨'&' :: name ++ [';'], by simp⟩
    obtain refers | signed := isName
    · exact .reference refers (ih fun ⟨rest, inside, begins⟩ => unsigned ⟨rest, inside.trans later, begins⟩)
    · exact absurd ⟨_, List.suffix_rfl, c, name, text, rfl, signed⟩ unsigned

theorem suffix_of_begins {refers : Char → List Char → Prop} {front rest : List Char} (plain : '&' ∉ front)
    (inside : text <:+ front ++ rest) (begins : Begins refers text) : text <:+ rest := by
  induction front with
  | nil => exact inside
  | cons c front ih =>
    obtain ⟨notMark, others⟩ := List.ne_and_not_mem_of_not_mem_cons plain
    obtain same | inside := List.suffix_cons_iff.1 inside
    · obtain ⟨d, name, later, whole, -⟩ := begins
      exact absurd (List.cons.inj (whole.symm.trans same)).1 notMark
    · exact ih others inside

theorem HasSigned.of_cons (signed : HasSigned (c :: text)) (none : ¬Begins RefersSigned (c :: text)) :
    HasSigned text := by
  obtain ⟨rest, inside, begins⟩ := signed
  obtain rfl | inside := List.suffix_cons_iff.1 inside
  · exact absurd begins none
  · exact ⟨rest, inside, begins⟩

theorem Refers.not_begins_signed {name : List Char} (refers : Refers c name) (rest : List Char) :
    ¬Begins RefersSigned ('&' :: name ++ ';' :: rest) := by
  rintro ⟨d, other, rest', whole, signed⟩
  have closed := refers.not_mem (by decide : ';' ∈ ['&', ';', '+'])
  have closed' := signed.not_mem (by decide : ';' ∈ ['&', ';'])
  obtain ⟨rfl, -⟩ := eq_of_closed closed closed' (List.cons.inj whole).2
  exact refers.not_mem (by decide) signed.plus_mem

/-- Each signed number that is read makes a text shorter than it would be if it were kept. -/
theorem Replaced.length_decode (replaced : Replaced Refers text shown) :
    (decode text).length ≤ shown.length ∧ (HasSigned text → (decode text).length < shown.length) := by
  induction replaced with
  | nil =>
    refine ⟨Nat.le_refl _, fun ⟨rest, inside, begins⟩ => ?_⟩
    cases List.suffix_nil.1 inside
    obtain ⟨_, _, _, whole, _⟩ := begins
    cases whole
  | @kept c text shown none rest ih =>
    -- Nothing is replaced here, unless a signed number is read.
    by_cases begins : Begins RefersSigned (c :: text)
    · obtain ⟨d, name, later, whole, signed⟩ := begins
      have plain := signed.not_mem (by decide : '&' ∈ ['&', ';'])
      have shorter := ih.1
      obtain ⟨rfl, rfl⟩ : c = '&' ∧ text = name ++ ';' :: later := List.cons.inj whole
      rw [decode_append plain, decode_cons (by decide), List.length_append, List.length_cons] at shorter
      have read : decode ('&' :: name ++ ';' :: later) = d :: decode later :=
        Reads.decode_eq (.inr signed) later
      rw [List.cons_append] at read
      rw [read, List.length_cons, List.length_cons]
      exact ⟨by omega, fun _ => by omega⟩
    · have kept : decode (c :: text) = c :: decode text := by
        refine decode_kept fun ⟨d, name, later, whole, isName⟩ => ?_
        obtain refers | signed := isName
        · exact none ⟨d, name, later, whole, refers⟩
        · exact begins ⟨d, name, later, whole, signed⟩
      rw [kept, List.length_cons, List.length_cons]
      exact ⟨Nat.succ_le_succ ih.1, fun signed => Nat.succ_lt_succ (ih.2 (signed.of_cons begins))⟩
  | @reference c name text shown refers _ ih =>
    rw [Reads.decode_eq (.inl refers), List.length_cons, List.length_cons]
    refine ⟨Nat.succ_le_succ ih.1, fun signed => Nat.succ_lt_succ (ih.2 ?_)⟩
    obtain ⟨rest, inside, begins⟩ := signed.of_cons (refers.not_begins_signed text)
    have plain : '&' ∉ name ++ [';'] := by
      simpa using refers.not_mem (by decide : '&' ∈ ['&', ';', '+'])
    exact ⟨rest, suffix_of_begins plain (by simpa using inside) begins, begins⟩

/-- What is replaced in a text: each reference, and in the same way each number behind a plus sign
that stands where a reference may. All else stays as it is. Only such a number parts this from the
text with its references replaced. -/
theorem decode_replaces (text shown : List Char) :
    (decode text = shown ↔ Replaced Reads text shown) ∧
      (Replaced Refers text (decode text) ↔ ¬HasSigned text) := by
  refine ⟨⟨fun same => same ▸ replaced_decode text, Replaced.decode_eq⟩, ?_, (replaced_decode text).unsigned⟩
  exact fun replaced signed => Nat.lt_irrefl _ (replaced.length_decode.2 signed)

/-- A plus sign in front of the number does not keep a piece from being replaced. -/
theorem signed_replaced :
    decode "&#+65;".toList = ['A'] ∧ ¬Replaced Refers "&#+65;".toList (decode "&#+65;".toList) := by
  have signed : HasSigned "&#+65;".toList := by
    have number : Numeral 10 ['6', '5'] 'A'.toNat := (digits?_eq_some_iff (by decide)).1 rfl
    exact ⟨_, List.suffix_rfl, 'A', _, [], rfl, .decimal number⟩
  exact ⟨rfl, fun replaced => Nat.lt_irrefl _ (replaced.length_decode.2 signed)⟩

end Replaced

end VulkanBindings.Xml.Reference
