import VulkanBindings.Proofs.Xml.Rendering
import VulkanBindings.Proofs.Xml.Scan

/-! What the scanner makes of the parts of a document, one step for each of them. -/

set_option autoImplicit false

namespace VulkanBindings.Xml

open Text (isBlank)
open Text.Utf8 (bytes stopsAt StopsInAscii)
open Scanner (visibleStep closingStep quoteStep inTagStep isSpace meant)

namespace Characters

section Run

variable {σ β : Type} {step : σ → Char → Except Error (σ ⊕ β)} {state : σ} {c : Char}
  {spaces : List Char} (rest : List Char)

theorem run_append (stays : ∀ c ∈ spaces, step state c = .ok (.inl state)) :
    run step state (spaces ++ rest) = run step state rest := by
  induction spaces with
  | nil => rfl
  | cons c spaces ih =>
    obtain ⟨here, later⟩ := List.forall_mem_cons.1 stays
    rw [List.cons_append, run, here]
    exact ih later

theorem run_cons {result : β} (found : step state c = .ok (.inr result)) :
    run step state (c :: rest) = .ok (result, rest) := by
  rw [run, found]
  rfl

theorem run_visible (blank : ∀ d ∈ spaces, isBlank d) (visible : isBlank c = false) :
    run visibleStep () (spaces ++ c :: rest) = .ok (c, rest) := by
  rw [run_append _ fun d mem => by simp [visibleStep, blank d mem]]
  exact run_cons rest (by simp [visibleStep, visible])

theorem run_inTag (blank : ∀ d ∈ spaces, isBlank d) :
    run inTagStep false (spaces ++ rest) = run inTagStep false rest :=
  run_append rest fun d mem => by simp [inTagStep, blank d mem]

theorem run_quote (around : ∀ d ∈ spaces, isBlank d ∨ d = '=') :
    run quoteStep () (spaces ++ '"' :: rest) = .ok ((), rest) := by
  rw [run_append]
  · exact run_cons rest rfl
  · intro d mem
    have notQuote : d ≠ '"' := by
      rintro rfl
      exact absurd (around _ mem) (by decide)
    simp [quoteStep, notQuote, around d mem]

/-- The blanks in a closing tag are left out, wherever they stand. -/
theorem run_closing_filter {tag : List Char} (read : List Char) (inside : '>' ∉ tag) :
    run closingStep read (tag ++ '>' :: rest) =
      .ok (.ofList (read.reverse ++ tag.filter fun d => !isBlank d), rest) := by
  induction tag generalizing read with
  | nil => exact run_cons rest (by rw [List.filter_nil, List.append_nil]; rfl)
  | cons c tag ih =>
    obtain ⟨apart, inside⟩ : c ≠ '>' ∧ '>' ∉ tag := by simpa [eq_comm] using inside
    rw [List.cons_append, run]
    cases blank : isBlank c with
    | true =>
      have step : closingStep read c = .ok (.inl read) := by simp [closingStep, blank]
      rw [step]
      refine (ih read inside).trans ?_
      simp [blank]
    | false =>
      have step : closingStep read c = .ok (.inl (c :: read)) := by simp [closingStep, blank, apart]
      rw [step]
      refine (ih (c :: read) inside).trans ?_
      simp [blank]

theorem run_closing {name : List Char} (read : List Char) (blank : ∀ d ∈ spaces, isBlank d)
    (visible : ∀ d ∈ name, isBlank d = false ∧ d ≠ '>') :
    run closingStep read (name ++ spaces ++ '>' :: rest) = .ok (.ofList (read.reverse ++ name), rest) := by
  have inside : '>' ∉ name ++ spaces := by
    rw [List.mem_append, not_or]
    exact ⟨fun mem => (visible _ mem).2 rfl, fun mem => absurd (blank _ mem) (by decide)⟩
  have shown : name.filter (fun d => !isBlank d) = name :=
    List.filter_eq_self.2 fun d mem => by simp [(visible d mem).1]
  have hidden : spaces.filter (fun d => !isBlank d) = [] :=
    List.filter_eq_nil_iff.2 fun d mem => by simp [blank d mem]
  rw [run_closing_filter rest read inside, List.filter_append, shown, hidden, List.append_nil]

end Run

theorem readUntil_eq {stop : UInt8 → Bool} {before : List Char} {c : Char} (after : List Char)
    (goesOn : ∀ d ∈ before, stopsAt stop d = false) (stops : stopsAt stop c) :
    readUntil stop (before ++ c :: after) = .ok (before, c, after) := by
  rw [Input.readUntil_append before _ goesOn, readUntil, if_pos stops]
  exact congrArg (fun text => Except.ok (text, c, after)) (List.append_nil before)

end Characters

namespace Input

variable {cut : Prop} {input : Input} {text rest : List Char}

theorem run_ok {σ β : Type} {step : σ → Char → Except Error (σ ⊕ β)} {state : σ} {result : β}
    (delivers : Delivers cut input text) (ran : Characters.run step state text = .ok (result, rest)) :
    ∃ later, input.run step state = .ok (result, later) ∧ Delivers cut later rest := by
  have reads := run_delivers step state delivers
  rw [ran] at reads
  generalize input.run step state = r at reads ⊢
  obtain ⟨rfl, left⟩ | _ | isCut := reads
  · exact ⟨_, rfl, left⟩
  · exact isCut.elim

theorem readUntil_ok {stop : UInt8 → Bool} {before after : List Char} {c : Char}
    (ascii : StopsInAscii stop) (delivers : Delivers False input (before ++ c :: after))
    (goesOn : ∀ d ∈ before, stopsAt stop d = false) (stops : stopsAt stop c) :
    ∃ later, input.readUntil stop = .ok (before, c.toUInt8, later) ∧
      Delivers False later (c :: after) ∧ Delivers False later.skip after := by
  have reads := readUntil_torn ascii delivers
  rw [Characters.readUntil_eq after goesOn stops] at reads
  generalize input.readUntil stop = r at reads ⊢
  cases reads with
  | torn isCut => exact isCut.elim
  | @ok r _ read =>
    obtain ⟨before', b, later⟩ := r
    cases read.before
    cases read.delimiter
    exact ⟨later, rfl, read.delivers, skip_delivers read.delivers read.ascii⟩

end Input

section Stops

variable {c : Char}

theorem stopsAt_or (stop also : UInt8 → Bool) (c : Char) :
    stopsAt (fun b => stop b || also b) c = (stopsAt stop c || stopsAt also c) := by
  simp only [stopsAt, Bool.and_or_distrib_left]

theorem toUInt8_eq_iff {d : Char} (ascii : c.toNat < 0x80) (ascii' : d.toNat < 0x80) :
    c.toUInt8 = d.toUInt8 ↔ c = d := by
  have number : c.toUInt8.toNat = c.toNat % 256 := UInt8.toNat_ofNat' ..
  have number' : d.toUInt8.toNat = d.toNat % 256 := UInt8.toNat_ofNat' ..
  rw [← UInt8.toNat_inj, ← Char.toNat_inj]
  omega

theorem stopsAt_eq {d : Char} (ascii : d.toNat < 0x80) :
    stopsAt (· = d.toUInt8) c = decide (c = d) := by
  rw [stopsAt, ← Bool.decide_and, decide_eq_decide]
  constructor
  · rintro ⟨small, same⟩
    exact (toUInt8_eq_iff small ascii).1 same
  · rintro rfl
    exact ⟨ascii, rfl⟩

theorem stopsAt_isSpace (c : Char) : stopsAt isSpace c = true ↔ IsSpace c := by
  have chars : isSpace = fun b => b = ' '.toUInt8 || b = '\t'.toUInt8 || b = '\n'.toUInt8 ||
      b = '\x0c'.toUInt8 || b = '\r'.toUInt8 := rfl
  rw [chars, stopsAt_or, stopsAt_or, stopsAt_or, stopsAt_or, stopsAt_eq (by decide),
    stopsAt_eq (by decide), stopsAt_eq (by decide), stopsAt_eq (by decide), stopsAt_eq (by decide)]
  simp [IsSpace, or_assoc]

end Stops

/-- How a scanner goes on behind the name of an attribute. -/
def Scanner.readValue (stack : List String) (name : String) (input : Input) : Outcome :=
  match input.run quoteStep () with
  | .error e => (some (.leaf name (.unquoted e)), .error e)
  | .ok (_, input) =>
    match input.readUntil (· = '"'.toUInt8) with
    | .error e => (some (.leaf name (.attribute (.error e))), .error e)
    | .ok (text, _, input) =>
      (some (.leaf name (.attribute (.ok (meant text)))), .ok ⟨true, stack, input.skip⟩)

/-- Steps that find events one after another, each of which reads something. -/
inductive Scanner.Reads : Scanner → List Event → Scanner → Prop
  | refl (s : Scanner) : Reads s [] s
  | step {s next last : Scanner} {event : Option Event} {events : List Event}
    (here : s.step = (event, .ok next)) (shorter : next.input.left < s.input.left)
    (later : Reads next events last) : Reads s (event.toList ++ events) last

namespace Scanner.Reads

variable {s t u : Scanner} {events more : List Event}

theorem trans (first : Reads s events t) (later : Reads t more u) : Reads s (events ++ more) u := by
  induction first with
  | refl => exact later
  | step here shorter _ ih =>
    rw [List.append_assoc]
    exact .step here shorter (ih later)

theorem collect_eq (reads : Reads s events t) {n : Nat} (enough : s.input.left < n) :
    ∃ rest : Events, Events.collect n s [] = ⟨events ++ rest.list, rest.failure⟩ := by
  induction reads generalizing n with
  | refl s => exact ⟨_, rfl⟩
  | step here shorter _ ih =>
    obtain ⟨n, rfl⟩ := Nat.exists_eq_add_of_le' (Nat.lt_of_le_of_lt (Nat.zero_le _) enough)
    obtain ⟨rest, collected⟩ := ih (Nat.lt_of_lt_of_le shorter (Nat.le_of_lt_succ enough))
    refine ⟨rest, ?_⟩
    rw [Events.collect_succ, here]
    dsimp only
    rw [collected, List.append_assoc]

end Scanner.Reads

/-- A scanner but for the way in which its text is delivered. -/
structure Config where
  inTag : Bool
  stack : List String
  text : List Char

/-- However its text is delivered in one block, a scanner comes from one configuration to another. -/
def Scans (c : Config) (events : List Event) (c' : Config) : Prop :=
  ∀ input, Input.Delivers False input c.text → ∃ later,
    Scanner.Reads ⟨c.inTag, c.stack, input⟩ events ⟨c'.inTag, c'.stack, later⟩ ∧
      Input.Delivers False later c'.text

namespace Scans

open Input (Delivers)

theorem refl (c : Config) : Scans c [] c :=
  fun input delivers => ⟨input, .refl _, delivers⟩

theorem trans {a b c : Config} {events more : List Event} (first : Scans a events b)
    (later : Scans b more c) : Scans a (events ++ more) c := by
  intro input delivers
  obtain ⟨between, reads, delivers⟩ := first input delivers
  obtain ⟨last, more, delivers⟩ := later between delivers
  exact ⟨last, reads.trans more, delivers⟩

theorem of_step {c c' : Config} (event : Option Event) (front : List Char) (filled : front ≠ [])
    (whole : c.text = front ++ c'.text)
    (step : ∀ input, Delivers False input c.text → ∃ later,
      Scanner.step ⟨c.inTag, c.stack, input⟩ = (event, .ok ⟨c'.inTag, c'.stack, later⟩) ∧
        Delivers False later c'.text) : Scans c event.toList c' := by
  intro input delivers
  obtain ⟨later, here, left⟩ := step input delivers
  have shorter : later.left < input.left := by
    obtain ⟨first, rest, rfl⟩ := List.exists_cons_of_ne_nil filled
    have filled : 0 < (bytes (first :: rest)).length := List.length_pos_iff.2 Text.Utf8.bytes_ne_nil
    rw [left.left, delivers.left, whole, Text.Utf8.bytes_append, List.length_append]
    omega
  exact ⟨later, by simpa using Scanner.Reads.step here shorter (.refl _), left⟩

section Steps

variable (stack : List String) {lead name before : List Char} (after : List Char) {first : Char}

theorem ofText (blank : ∀ c ∈ lead, isBlank c) (visible : isBlank first = false)
    (notLess : first ≠ '<') (none : '<' ∉ before) :
    Scans ⟨false, stack, lead ++ first :: (before ++ '<' :: after)⟩
      [.leaf textName (.body (.ok (meant (first :: before))))] ⟨false, stack, '<' :: after⟩ := by
  refine of_step (some _) (lead ++ first :: before) (by simp) (by simp) fun input delivers => ?_
  obtain ⟨later, shown, delivers⟩ := Input.run_ok delivers (Characters.run_visible _ blank visible)
  have goesOn : ∀ c ∈ before, stopsAt (· = '<'.toUInt8) c = false := fun c mem => by
    rw [stopsAt_eq (by decide)]
    simpa using fun same : c = '<' => none (same ▸ mem)
  obtain ⟨last, read, left, -⟩ := Input.readUntil_ok Scanner.less_ascii delivers goesOn (by rfl)
  refine ⟨last, ?_, left⟩
  rw [Scanner.step_eq]
  simp only [Bool.false_eq_true, if_false, shown, notLess, Scanner.readText, read]

theorem stops_tagName (c : Char) :
    stopsAt (fun b => isSpace b || b = '>'.toUInt8 || b = '/'.toUInt8) c = true ↔
      IsSpace c ∨ c = '>' ∨ c = '/' := by
  rw [stopsAt_or, stopsAt_or, stopsAt_eq (by decide), stopsAt_eq (by decide)]
  simp [stopsAt_isSpace, or_assoc]

theorem stops_attributeName (c : Char) :
    stopsAt (fun b => isSpace b || b = '='.toUInt8) c = true ↔ IsSpace c ∨ c = '=' := by
  rw [stopsAt_or, stopsAt_eq (by decide)]
  simp [stopsAt_isSpace]

theorem ofOpening {c : Char} (blank : ∀ c ∈ lead, isBlank c) (isName : IsName name)
    (ends : IsSpace c ∨ c = '>' ∨ c = '/') :
    Scans ⟨false, stack, lead ++ '<' :: (name ++ c :: after)⟩
      [.opened (.ofList name) (c = '>')]
      ⟨c ≠ '>', .ofList name :: stack, if c = '/' then c :: after else after⟩ := by
  refine of_step (some _) (lead ++ '<' :: name ++ if c = '/' then [] else [c]) (by simp) ?_
    fun input delivers => ?_
  · dsimp only
    split <;> simp
  have parts := isName.parts
  cases isName with
  | @mk first more start _ =>
    obtain ⟨apart, others⟩ := List.forall_mem_cons.1 parts
    obtain ⟨-, -, notSlash, notMark, notQuestion, -⟩ := ne_of_part apart
    obtain ⟨later, shown, delivers⟩ := Input.run_ok delivers (Characters.run_visible _ blank (by decide))
    obtain ⟨later, next, delivers⟩ := Input.next_cons delivers
    have goesOn : ∀ d ∈ more,
        stopsAt (fun b => isSpace b || b = '>'.toUInt8 || b = '/'.toUInt8) d = false := fun d mem => by
      obtain ⟨-, notClose, notSlash, -, -, notSpace⟩ := ne_of_part (others d mem)
      rw [Bool.eq_false_iff, ne_eq, stops_tagName]
      simp [notClose, notSlash, notSpace]
    have stops := (stops_tagName c).2 ends
    have ascii : c.toNat < 0x80 := by simpa using (Bool.and_eq_true_iff.1 stops).1
    obtain ⟨last, read, unread, skipped⟩ := Input.readUntil_ok Scanner.tagName_ascii delivers goesOn stops
    refine ⟨if c = '/' then last else last.skip, ?_, ?_⟩
    · rw [Scanner.step_eq]
      simp only [Bool.false_eq_true, if_false, shown, if_true, Scanner.readMarkup, next, notSlash,
        notMark, notQuestion, Scanner.readTag, read, toUInt8_eq_iff ascii (by decide : '>'.toNat < 0x80),
        toUInt8_eq_iff ascii (by decide : '/'.toNat < 0x80)]
      simp
    · dsimp only
      split
      · exact unread
      · exact skipped

-- The equals sign and what is around it, from the character that ends the name on.
theorem exists_cons_of_equals {left right : List Char} (blanks : Spaces left ∧ Spaces right) :
    ∃ c between, left ++ '=' :: right = c :: between ∧ (IsSpace c ∨ c = '=') ∧
      ∀ d ∈ between, isBlank d ∨ d = '=' := by
  have around : ∀ d ∈ right, isBlank d ∨ d = '=' := fun d mem => .inl (blanks.2 d mem).isBlank
  cases left with
  | nil => exact ⟨'=', right, rfl, .inr rfl, around⟩
  | cons c left =>
    obtain ⟨here, later⟩ := List.forall_mem_cons.1 blanks.1
    refine ⟨c, left ++ '=' :: right, rfl, .inl here, fun d mem => ?_⟩
    obtain mem | mem := List.mem_append.1 mem
    · exact .inl (later d mem).isBlank
    · obtain rfl | mem := List.mem_cons.1 mem
      · exact .inr rfl
      · exact around d mem

theorem inTagStep_attribute {first : Char} (part : IsWithin nameParts first)
    (visible : isBlank first = false) :
    inTagStep false first = .ok (.inr (.attribute first)) := by
  obtain ⟨-, notClose, notSlash, -⟩ := ne_of_part part
  simp [inTagStep, visible, notClose, notSlash]

theorem goesOn_attributeName {more : List Char} (parts : ∀ d ∈ more, IsWithin nameParts d) :
    ∀ d ∈ more, stopsAt (fun b => isSpace b || b = '='.toUInt8) d = false := by
  intro d mem
  obtain ⟨notEquals, -, -, -, -, notSpace⟩ := ne_of_part (parts d mem)
  rw [Bool.eq_false_iff, ne_eq, stops_attributeName]
  simp [notEquals, notSpace]

/-- An attribute up to the sign between its name and its value. What quote is behind that is not known. -/
theorem exists_of_attribute {input : Input} {left right value : List Char} (blank : ∀ c ∈ lead, isBlank c)
    (isName : IsName name) (visible : ∀ c ∈ name.head?, isBlank c = false)
    (blanks : Spaces left ∧ Spaces right)
    (delivers : Delivers False input (lead ++ (name ++ (left ++ '=' :: right ++ value)))) :
    ∃ between later, (∀ d ∈ between, isBlank d ∨ d = '=') ∧ Delivers False later (between ++ value) ∧
      Scanner.step ⟨true, stack, input⟩ = Scanner.readValue stack (.ofList name) later := by
  obtain ⟨c, between, equals, ends, around⟩ := exists_cons_of_equals blanks
  rw [equals] at delivers
  have parts := isName.parts
  cases isName with
  | @mk first more start _ =>
    obtain ⟨apart, others⟩ := List.forall_mem_cons.1 parts
    obtain ⟨later, found, delivers⟩ := Input.run_ok delivers ((Characters.run_inTag _ blank).trans
      (Characters.run_cons _ (inTagStep_attribute apart (visible first rfl))))
    obtain ⟨named, read, -, delivers⟩ := Input.readUntil_ok Scanner.attributeName_ascii delivers
      (goesOn_attributeName others) ((stops_attributeName c).2 ends)
    refine ⟨between, named.skip, around, delivers, ?_⟩
    rw [Scanner.step_eq]
    simp only [if_true, found, Scanner.readAttribute, read]
    rfl

theorem ofAttribute {left right written : List Char} (blank : ∀ c ∈ lead, isBlank c)
    (isName : IsName name) (visible : ∀ c ∈ name.head?, isBlank c = false)
    (blanks : Spaces left ∧ Spaces right) (none : '"' ∉ written) :
    Scans ⟨true, stack, lead ++ (name ++ (left ++ '=' :: right ++ '"' :: (written ++ '"' :: after)))⟩
      [.leaf (.ofList name) (.attribute (.ok (meant written)))] ⟨true, stack, after⟩ := by
  refine of_step (some _) (lead ++ (name ++ (left ++ '=' :: right ++ '"' :: (written ++ ['"'])))) (by simp)
    (by simp) fun input delivers => ?_
  obtain ⟨between, later, around, delivers, step⟩ := exists_of_attribute stack blank isName visible blanks
    delivers
  obtain ⟨quoted, opens, delivers⟩ := Input.run_ok delivers (Characters.run_quote _ around)
  have inside : ∀ d ∈ written, stopsAt (· = '"'.toUInt8) d = false := fun d mem => by
    rw [stopsAt_eq (by decide)]
    simpa using fun same : d = '"' => none (same ▸ mem)
  obtain ⟨last, value, -, left⟩ := Input.readUntil_ok Scanner.quote_ascii delivers inside (by rfl)
  refine ⟨last.skip, ?_, left⟩
  rw [step]
  simp only [Scanner.readValue, opens, value]

theorem ofTagEnd (blank : ∀ c ∈ lead, isBlank c) :
    Scans ⟨true, stack, lead ++ '>' :: after⟩ [] ⟨false, stack, after⟩ := by
  refine of_step none (lead ++ ['>']) (by simp) (by simp) fun input delivers => ?_
  obtain ⟨later, found, left⟩ := Input.run_ok delivers ((Characters.run_inTag _ blank).trans
    (Characters.run_cons _ rfl))
  refine ⟨later, ?_, left⟩
  rw [Scanner.step_eq]
  simp only [if_true, found]

theorem ofSelfClosing (blank : ∀ c ∈ lead, isBlank c) :
    Scans ⟨true, stack, lead ++ '/' :: '>' :: after⟩ [.closed (bytes after).length]
      ⟨false, stack.tail, after⟩ := by
  refine of_step (some _) (lead ++ ['/', '>']) (by simp) (by simp) fun input delivers => ?_
  have ran : Characters.run inTagStep false ('/' :: '>' :: after) = .ok (.closed, after) := rfl
  obtain ⟨later, found, left⟩ := Input.run_ok delivers ((Characters.run_inTag _ blank).trans ran)
  refine ⟨later, ?_, left⟩
  rw [Scanner.step_eq]
  simp only [if_true, found, left.left]

theorem ofClosing {spaces : List Char} (blank : ∀ c ∈ lead, isBlank c) (isName : IsName name)
    (visible : ∀ c ∈ name, isBlank c = false) (blanks : ∀ c ∈ spaces, isBlank c) :
    Scans ⟨false, .ofList name :: stack, lead ++ '<' :: '/' :: (name ++ spaces ++ '>' :: after)⟩
      [.closed (bytes after).length] ⟨false, stack, after⟩ := by
  refine of_step (some _) (lead ++ '<' :: '/' :: (name ++ spaces ++ ['>'])) (by simp) (by simp)
    fun input delivers => ?_
  obtain ⟨later, shown, delivers⟩ := Input.run_ok delivers (Characters.run_visible _ blank (by decide))
  obtain ⟨later, next, delivers⟩ := Input.next_cons delivers
  have named : ∀ c ∈ name, isBlank c = false ∧ c ≠ '>' :=
    fun c mem => ⟨visible c mem, (ne_of_part (isName.parts c mem)).2.1⟩
  obtain ⟨last, read, left⟩ := Input.run_ok delivers (Characters.run_closing _ [] blanks named)
  refine ⟨last, ?_, left⟩
  rw [Scanner.step_eq]
  simp only [Bool.false_eq_true, if_false, shown, if_true, Scanner.readMarkup, next,
    Scanner.readClosing, read, left.left]
  simp

end Steps

end Scans

end VulkanBindings.Xml
