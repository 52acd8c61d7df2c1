import VulkanBindings.Proofs.Xml.Insertion
import VulkanBindings.Proofs.Xml.Markup

/-! The parts of an element in front of whatever bytes come after them: its tag, the attributes in it, and
what stands between its tags. Each of them is read in a step of its own, so that what is read behind it is
read from there on as if it were not there. -/

set_option autoImplicit false

namespace VulkanBindings.Xml

open Text (isBlank)
open Text.Utf8 (bytes stopsAt StopsInAscii)
open Input (single)
open Scanner (step_eq_ok meant isSpace inTagStep quoteStep closingStep)

section Steps

variable {s s' next last : Scanner} {name : String} {entries : List (String × Node)} {left : Nat}

theorem ReadsRest.of_step_eq (same : s.step = s'.step) (reads : ReadsRest Scanner.step s entries left last) :
    ReadsRest Scanner.step s' entries left last := by
  cases reads with
  | pass here later => exact .pass (same ▸ here) later
  | leaf here later => exact .leaf (same ▸ here) later
  | element here inside later => exact .element (same ▸ here) inside later
  | ended here => exact .ended (same ▸ here)

theorem readsRest_iff_of_step_eq (same : s.step = s'.step) :
    ReadsRest Scanner.step s entries left last ↔ ReadsRest Scanner.step s' entries left last :=
  ⟨.of_step_eq same, .of_step_eq same.symm⟩

theorem readsRest_iff_of_pass (here : s.step = (none, .ok next)) :
    ReadsRest Scanner.step s entries left last ↔ ReadsRest Scanner.step next entries left last := by
  refine ⟨fun reads => ?_, .pass here⟩
  cases reads with
  | pass here' later => cases here.symm.trans here'; exact later
  | leaf here' | element here' | ended here' => cases here.symm.trans here'

theorem readsRest_iff_of_leaf {value : Leaf} (here : s.step = (some (.leaf name value), .ok next)) :
    ReadsRest Scanner.step s entries left last ↔ ∃ more, entries = (name, .leaf value) :: more ∧
      ReadsRest Scanner.step next more left last := by
  constructor
  · intro reads
    cases reads with
    | leaf here' later => cases here.symm.trans here'; exact ⟨_, rfl, later⟩
    | pass here' | element here' | ended here' => cases here.symm.trans here'
  · rintro ⟨more, rfl, later⟩
    exact .leaf here later

theorem not_readsRest_of_error {event : Option Event} {e : Error} (fails : s.step = (event, .error e)) :
    ¬ReadsRest Scanner.step s entries left last := by
  intro reads
  cases reads with
  | pass here | leaf here | element here | ended here => cases fails.symm.trans here

end Steps

namespace Input

variable {stop : UInt8 → Bool} {text : List Char} {c : Char}

theorem bytes_stop (stops : stopsAt stop c) : bytes [c] = [c.toUInt8] := by
  have small : c.toNat < 0x80 := by simpa using (Bool.and_eq_true_iff.1 stops).1
  rw [Text.Utf8.bytes_cons, Text.Utf8.utf8EncodeChar_ascii small]
  rfl

theorem readUntil_bytes (ascii : StopsInAscii stop) (goesOn : ∀ d ∈ text, stopsAt stop d = false)
    (stops : stopsAt stop c) (rest : List UInt8) :
    (single (bytes text ++ (bytes [c] ++ rest))).readUntil stop =
      .ok (text, c.toUInt8, single (bytes [c] ++ rest)) := by
  have before : ∀ b ∈ bytes text, (!stop b) = true := by
    intro b mem
    obtain ⟨d, isChar, mem⟩ := List.mem_flatMap.1 mem
    simpa using not_stop_of_mem ascii (goesOn d isChar) mem
  have here : stop c.toUInt8 = true := (Bool.and_eq_true_iff.1 stops).2
  rw [bytes_stop stops]
  exact readUntil_single before (by simp [here]) (Text.Utf8.decode_eq_ok.2 rfl) rest

theorem skip_stop (stops : stopsAt stop c) (rest : List UInt8) :
    (single (bytes [c] ++ rest)).skip = single rest := by
  rw [bytes_stop stops]
  rfl

end Input

theorem bytes_cons_append (c : Char) (text : List Char) (rest : List UInt8) :
    bytes (c :: text) ++ rest = bytes [c] ++ (bytes text ++ rest) := by
  rw [← List.append_assoc, ← Text.Utf8.bytes_append]
  rfl

section Tags

variable (stack : List String) {lead spaces name left right value : List Char} (rest : List UInt8)

theorem Scanner.step_inTag_append (blank : ∀ c ∈ spaces, isBlank c) :
    Scanner.step ⟨true, stack, single (bytes spaces ++ rest)⟩ =
      Scanner.step ⟨true, stack, single rest⟩ := by
  rw [Scanner.step_eq, Scanner.step_eq]
  simp only [Input.run_inTag_append blank, if_true]
  rfl

theorem Scanner.step_tagEnd :
    Scanner.step ⟨true, stack, single (bytes ['>'] ++ rest)⟩ = (none, .ok ⟨false, stack, single rest⟩) :=
  step_eq_ok.2 (.tagEnd (Input.takes_run rfl rest))

theorem Scanner.step_selfClosing :
    Scanner.step ⟨true, stack, single (bytes ['/', '>'] ++ rest)⟩ =
      (some (.closed rest.length), .ok ⟨false, stack.tail, single rest⟩) :=
  step_eq_ok.2 (.selfClosing (Input.takes_run rfl rest))

theorem Scanner.step_assigned (blank : ∀ c ∈ lead, isBlank c) (isName : IsName name)
    (visible : ∀ c ∈ name.head?, isBlank c = false) (blanks : Spaces left ∧ Spaces right) :
    ∃ between, (∀ d ∈ between, isBlank d ∨ d = '=') ∧
      Scanner.step ⟨true, stack, single (bytes (lead ++ (name ++ (left ++ '=' :: right))) ++ rest)⟩ =
        readValue stack (.ofList name) (single (bytes between ++ rest)) := by
  obtain ⟨c, between, equals, ends, around⟩ := Scans.exists_cons_of_equals blanks
  have parts := isName.parts
  cases isName with
  | @mk first more start _ =>
    obtain ⟨apart, others⟩ := List.forall_mem_cons.1 parts
    have begins := Scans.inTagStep_attribute apart (visible first rfl)
    have found := Input.takes_run ((Characters.run_inTag [first] blank).trans (Characters.run_cons [] begins))
    have stops := (Scans.stops_attributeName c).2 ends
    have named := Input.readUntil_bytes Scanner.attributeName_ascii (Scans.goesOn_attributeName others)
      stops (bytes between ++ rest)
    have parts : bytes (lead ++ (first :: more ++ (left ++ '=' :: right))) ++ rest =
        bytes (lead ++ [first]) ++ (bytes more ++ (bytes [c] ++ (bytes between ++ rest))) := by
      rw [equals]
      simp only [← List.append_assoc, ← Text.Utf8.bytes_append]
      simp
    refine ⟨between, around, ?_⟩
    rw [parts, Scanner.step_eq]
    simp only [if_true, found _, Scanner.readAttribute, named, Input.skip_stop stops]
    rfl

theorem quoteStep_stays {between : List Char} (around : ∀ d ∈ between, isBlank d ∨ d = '=') :
    ∀ d ∈ between, quoteStep () d = .ok (.inl ()) := by
  intro d mem
  have notQuote : d ≠ '"' := by
    rintro rfl
    exact absurd (around _ mem) (by decide)
  simp [quoteStep, notQuote, around d mem]

theorem Scanner.step_attribute (blank : ∀ c ∈ lead, isBlank c) (isName : IsName name)
    (visible : ∀ c ∈ name.head?, isBlank c = false) (blanks : Spaces left ∧ Spaces right)
    (inside : '"' ∉ value) :
    Scanner.step ⟨true, stack, single (bytes (lead ++ (name ++ (left ++ '=' :: right))) ++
        (bytes ('"' :: (value ++ ['"'])) ++ rest))⟩ =
      (some (.leaf (.ofList name) (.attribute (.ok (meant value)))), .ok ⟨true, stack, single rest⟩) := by
  obtain ⟨between, around, step⟩ := step_assigned stack (bytes ('"' :: (value ++ ['"'])) ++ rest) blank isName
    visible blanks
  have goesOn : ∀ d ∈ value, stopsAt (· = '"'.toUInt8) d = false := fun d mem => by
    rw [stopsAt_eq (by decide)]
    simpa using fun same : d = '"' => inside (same ▸ mem)
  have stops : stopsAt (· = '"'.toUInt8) '"' = true := rfl
  have opens : (single (bytes between ++ (bytes ('"' :: (value ++ ['"'])) ++ rest))).run quoteStep () =
      .ok ((), single (bytes value ++ (bytes ['"'] ++ rest))) := by
    have quote : Input.Takes (Input.run quoteStep ()) (bytes ['"']) () := Input.takes_run rfl
    have parts : bytes ('"' :: (value ++ ['"'])) ++ rest =
        bytes ['"'] ++ (bytes value ++ (bytes ['"'] ++ rest)) := by
      simp only [← List.append_assoc, ← Text.Utf8.bytes_append]
      rfl
    rw [Input.run_past (quoteStep_stays around), parts, quote]
  rw [step]
  simp only [readValue, opens, Input.readUntil_bytes Scanner.quote_ascii goesOn stops, Input.skip_stop stops]

theorem Scanner.exists_step_error (blank : ∀ c ∈ lead, isBlank c) (isName : IsName name)
    (visible : ∀ c ∈ name.head?, isBlank c = false) (blanks : Spaces left ∧ Spaces right) :
    ∃ event e, Scanner.step ⟨true, stack, single (bytes (lead ++ (name ++ (left ++ '=' :: right))) ++
      (bytes ['\''] ++ rest))⟩ = (event, .error e) := by
  obtain ⟨between, around, step⟩ := step_assigned stack (bytes ['\''] ++ rest) blank isName visible blanks
  have fails : (single (bytes between ++ (bytes ['\''] ++ rest))).run quoteStep () =
      .error (.unexpected '\'' "'\"', '=' or whitespace") := by
    rw [Input.run_past (quoteStep_stays around)]
    rfl
  simp only [readValue, fails] at step
  exact ⟨_, _, step⟩

def EndsName (after : List UInt8) : Prop :=
  ∃ c more, (IsSpace c ∨ c = '>' ∨ c = '/') ∧ after = bytes [c] ++ more

theorem EndsName.of_cons {c : Char} {text : List Char} {rest : List UInt8}
    (ends : IsSpace c ∨ c = '>' ∨ c = '/') : EndsName (bytes (c :: text) ++ rest) :=
  ⟨c, _, ends, bytes_cons_append c text rest⟩

theorem EndsName.of_spaces {spaces : List Char} {after : List UInt8} (blanks : Spaces spaces)
    (ends : EndsName after) : EndsName (bytes spaces ++ after) := by
  cases spaces with
  | nil => exact ends
  | cons c spaces => exact .of_cons (.inl (blanks c List.mem_cons_self))

/-- The name of a tag, and how its attributes and its end are read behind it. -/
theorem Scanner.exists_step_opened {after : List UInt8} (blank : ∀ c ∈ lead, isBlank c) (isName : IsName name)
    (ends : EndsName after) :
    ∃ next, Scanner.step ⟨false, stack, single (bytes (lead ++ '<' :: name) ++ after)⟩ =
        (some (.opened (.ofList name) (after.head? = some '>'.toUInt8)), .ok next) ∧
      next.stack = .ofList name :: stack ∧ ∀ entries left last,
        ReadsRest Scanner.step next entries left last ↔
          ReadsRest Scanner.step ⟨true, .ofList name :: stack, single after⟩ entries left last := by
  obtain ⟨c, rest, ends, rfl⟩ := ends
  have parts := isName.parts
  cases isName with
  | @mk first more start _ =>
    obtain ⟨apart, others⟩ := List.forall_mem_cons.1 parts
    obtain ⟨-, -, notSlash, notMark, notQuestion, -⟩ := ne_of_part apart
    have goesOn : ∀ d ∈ more,
        stopsAt (fun b => isSpace b || b = '>'.toUInt8 || b = '/'.toUInt8) d = false := fun d mem => by
      obtain ⟨-, notClose, notSlash, -, -, notSpace⟩ := ne_of_part (others d mem)
      rw [Bool.eq_false_iff, ne_eq, Scans.stops_tagName]
      simp [notClose, notSlash, notSpace]
    have stops := (Scans.stops_tagName c).2 ends
    have ascii : c.toNat < 0x80 := by simpa using (Bool.and_eq_true_iff.1 stops).1
    have found := Input.run_visible_less blank first more (bytes [c] ++ rest)
    have named := Input.readUntil_bytes Scanner.tagName_ascii goesOn stops rest
    have move : Scanner.Move ⟨false, stack, _⟩ _ _ :=
      .opening found (Input.takes_next first _) ⟨notSlash, notMark, notQuestion⟩ named
    have head : ((bytes [c] ++ rest).head? = some '>'.toUInt8) = (c.toUInt8 = '>'.toUInt8) := by
      rw [Input.bytes_stop stops]
      simp
    rw [Text.Utf8.bytes_append, List.append_assoc]
    simp only [head]
    refine ⟨_, step_eq_ok.2 move, rfl, fun entries left last => ?_⟩
    -- White space and a bracket are taken with the name; they would be passed over anyhow.
    simp only [toUInt8_eq_iff ascii (by decide : '>'.toNat < 0x80),
      toUInt8_eq_iff ascii (by decide : '/'.toNat < 0x80)]
    obtain space | rfl | rfl := ends
    · obtain ⟨notEnd, notSlash⟩ := ne_of_isSpace space
      have passes := step_inTag_append (.ofList (first :: more) :: stack) rest
        (List.forall_mem_singleton.2 space.isBlank)
      rw [readsRest_iff_of_step_eq passes]
      simp only [notEnd, notSlash, decide_false, Bool.not_false, if_false, Input.skip_stop stops]
    · rw [readsRest_iff_of_pass (step_tagEnd ..)]
      simp [Input.skip_stop stops]
    · simp

/-- A closing tag, whose name has no white space in it. -/
theorem Scanner.step_closing (isName : IsName name) (plain : spaceMark ∉ name) (blanks : Spaces spaces) :
    Scanner.step ⟨false, .ofList name :: stack,
        single (bytes ('<' :: '/' :: (name ++ spaces ++ ['>'])) ++ rest)⟩ =
      (some (.closed rest.length), .ok ⟨false, stack, single rest⟩) := by
  have visible : ∀ c ∈ name, isBlank c = false ∧ c ≠ '>' := fun c mem =>
    ⟨visible_of_part (isName.parts c mem) fun same => plain (same ▸ mem),
      (ne_of_part (isName.parts c mem)).2.1⟩
  have found := Input.run_visible_less (List.forall_mem_nil _) '/' (name ++ spaces ++ ['>']) rest
  have reads := Input.takes_run (Characters.run_closing [] [] blanks.isBlank visible) rest
  exact step_eq_ok.2 (.closing found (Input.takes_next '/' _) reads)

end Tags

/-- An attribute as it is written, but for the white space in it. -/
structure Attribute where
  name : String
  quote : Char
  value : List Char

namespace Attribute

/-- Its name is one that the scanner can tell from white space, and the quote that ends the value is not in
that. -/
structure IsWellFormed (a : Attribute) : Prop where
  isName : IsName a.name.toList
  plain : a.name.toList.head? ≠ some spaceMark
  quotes : a.quote = '"' ∨ a.quote = '\''
  inside : a.quote ∉ a.value

theorem IsWellFormed.visible {a : Attribute} (wellFormed : a.IsWellFormed) :
    ∀ c ∈ a.name.toList.head?, isBlank c = false := fun c head =>
  visible_of_part (wellFormed.isName.parts c (List.mem_of_mem_head? head)) fun same =>
    wellFormed.plain (same ▸ head)

def written (a : Attribute) (left right : List Char) : List Char :=
  a.name.toList ++ (left ++ '=' :: right) ++ (a.quote :: (a.value ++ [a.quote]))

def field (a : Attribute) : String × String := (a.name, meant a.value)

def entry (a : Attribute) : String × Node := (a.name, .leaf (.attribute (.ok (meant a.value))))

end Attribute

/-- Attributes in a tag, each with white space before it. -/
inductive Row : List Attribute → List Char → Prop
  | nil : Row [] []
  | cons {a : Attribute} {others : List Attribute} (before left right : List Char) {more : List Char}
    (separate : Spaces before ∧ before ≠ []) (equals : Spaces left ∧ Spaces right)
    (wellFormed : a.IsWellFormed) (row : Row others more) :
    Row (a :: others) (before ++ (a.written left right ++ more))

section Rows

variable {attributes : List Attribute} {before left right text more : List Char} {a : Attribute}
  {entries : List (String × Node)} {n : Nat} {last : Scanner}

theorem Attribute.bytes_written (a : Attribute) (before left right more : List Char) (rest : List UInt8) :
    bytes (before ++ (a.written left right ++ more)) ++ rest =
      bytes (before ++ (a.name.toList ++ (left ++ '=' :: right))) ++
        (bytes (a.quote :: (a.value ++ [a.quote])) ++ (bytes more ++ rest)) := by
  simp only [Attribute.written, ← List.append_assoc, ← Text.Utf8.bytes_append]

theorem Attribute.IsWellFormed.readsRest_iff (wellFormed : a.IsWellFormed) (double : a.quote = '"')
    (separate : Spaces before) (equals : Spaces left ∧ Spaces right) (stack : List String)
    (rest : List UInt8) :
    ReadsRest Scanner.step ⟨true, stack, single (bytes (before ++ (a.written left right ++ more)) ++ rest)⟩
        entries n last ↔
      ∃ later, entries = a.entry :: later ∧
        ReadsRest Scanner.step ⟨true, stack, single (bytes more ++ rest)⟩ later n last := by
  have inside := wellFormed.inside
  rw [double] at inside
  have step := Scanner.step_attribute stack (bytes more ++ rest) separate.isBlank wellFormed.isName
    wellFormed.visible equals inside
  rw [String.ofList_toList] at step
  rw [a.bytes_written, double, readsRest_iff_of_leaf step]
  rfl

theorem Attribute.IsWellFormed.not_readsRest (wellFormed : a.IsWellFormed) (quote : a.quote = '\'')
    (separate : Spaces before) (equals : Spaces left ∧ Spaces right) (stack : List String)
    (rest : List UInt8) :
    ¬ReadsRest Scanner.step ⟨true, stack, single (bytes (before ++ (a.written left right ++ more)) ++ rest)⟩
      entries n last := by
  obtain ⟨event, e, fails⟩ := Scanner.exists_step_error stack
    (bytes (a.value ++ ['\'']) ++ (bytes more ++ rest))
    separate.isBlank wellFormed.isName wellFormed.visible equals
  rw [a.bytes_written, quote, bytes_cons_append]
  exact not_readsRest_of_error fails

namespace Row

/-- Attributes in double quotes are the next entries. -/
theorem readsRest_iff (row : Row attributes text) (double : ∀ a ∈ attributes, a.quote = '"')
    (stack : List String) (rest : List UInt8) :
    ReadsRest Scanner.step ⟨true, stack, single (bytes text ++ rest)⟩ entries n last ↔
      ∃ more, entries = attributes.map Attribute.entry ++ more ∧
        ReadsRest Scanner.step ⟨true, stack, single rest⟩ more n last := by
  induction row generalizing entries with
  | nil => simp
  | cons before left right separate equals wellFormed row ih =>
    obtain ⟨quote, double⟩ := List.forall_mem_cons.1 double
    rw [wellFormed.readsRest_iff quote separate.1 equals]
    simp only [ih double, List.map_cons, List.cons_append]
    constructor
    · rintro ⟨_, rfl, more, rfl, reads⟩
      exact ⟨more, rfl, reads⟩
    · rintro ⟨more, rfl, reads⟩
      exact ⟨_, rfl, more, rfl, reads⟩

theorem double_of_readsRest (row : Row attributes text) {stack : List String} {rest : List UInt8}
    (reads : ReadsRest Scanner.step ⟨true, stack, single (bytes text ++ rest)⟩ entries n last) :
    ∀ a ∈ attributes, a.quote = '"' := by
  induction row generalizing entries with
  | nil => exact List.forall_mem_nil _
  | cons before left right separate equals wellFormed row ih =>
    obtain double | quote := wellFormed.quotes
    · obtain ⟨_, -, later⟩ := (wellFormed.readsRest_iff double separate.1 equals ..).1 reads
      exact List.forall_mem_cons.2 ⟨double, ih later⟩
    · exact (wellFormed.not_readsRest quote separate.1 equals _ _ reads).elim

theorem wellFormed (row : Row attributes text) : ∀ a ∈ attributes, a.IsWellFormed := by
  induction row with
  | nil => exact List.forall_mem_nil _
  | cons _ _ _ _ _ wellFormed _ ih => exact List.forall_mem_cons.2 ⟨wellFormed, ih⟩

theorem exists_space (row : Row attributes text) (filled : attributes ≠ []) (after : List UInt8) :
    ∃ c more, IsSpace c ∧ bytes text ++ after = bytes [c] ++ more := by
  cases row with
  | nil => exact absurd rfl filled
  | cons before left right separate =>
    obtain ⟨c, before, rfl⟩ := List.exists_cons_of_ne_nil separate.2
    exact ⟨c, _, separate.1 c List.mem_cons_self, bytes_cons_append ..⟩

theorem endsName (row : Row attributes text) {after : List UInt8} (ends : attributes = [] → EndsName after) :
    EndsName (bytes text ++ after) := by
  by_cases none : attributes = []
  · subst none
    cases row
    exact ends rfl
  · obtain ⟨c, more, space, parts⟩ := row.exists_space none after
    exact ⟨c, more, .inl space, parts⟩

theorem head_ne (row : Row attributes text) (filled : attributes ≠ []) (after : List UInt8) :
    (bytes text ++ after).head? ≠ some '>'.toUInt8 := by
  obtain ⟨c, more, space, parts⟩ := row.exists_space filled after
  simp only [IsSpace, List.mem_cons, List.not_mem_nil, or_false] at space
  rw [parts]
  obtain rfl | rfl | rfl | rfl | rfl := space
  all_goals
    intro same
    cases same

end Row

end Rows

/-- What may stand in an element, with the names of its entries: white space, remarks, texts up to the next
bracket, and elements whose attributes are in double quotes. -/
inductive Contents : List String → List Char → Prop
  | nil : Contents [] []
  | blank {names : List String} (spaces : List Char) {more : List Char} (blank : ∀ c ∈ spaces, isBlank c)
    (others : Contents names more) : Contents names (spaces ++ more)
  | remark {names : List String} (remark : Remark) {more : List Char} (wellFormed : remark.IsWellFormed)
    (noticed : remark.EndsNoticed) (others : Contents names more) : Contents names (remark.written ++ more)
  | text {names : List String} (written : List Char) {more : List Char}
    (shown : ∃ c ∈ written, isBlank c = false) (inside : '<' ∉ written) (ends : ∀ c ∈ more.head?, c = '<')
    (others : Contents names more) : Contents (textName :: names) (written ++ more)
  | selfClosed {name : String} {row : List Char} {attributes : List Attribute} {names : List String}
    (spaces : List Char) {more : List Char} (isName : IsName name.toList) (inTag : Row attributes row)
    (double : ∀ a ∈ attributes, a.quote = '"') (blanks : Spaces spaces) (others : Contents names more) :
    Contents (name :: names) ('<' :: name.toList ++ (row ++ (spaces ++ (['/', '>'] ++ more))))
  | closed {name : String} {row written : List Char} {attributes : List Attribute} {inner names : List String}
    (spaces closing : List Char) {more : List Char} (isName : IsName name.toList)
    (plain : spaceMark ∉ name.toList) (inTag : Row attributes row) (double : ∀ a ∈ attributes, a.quote = '"')
    (within : Contents inner written) (blanks : Spaces spaces ∧ Spaces closing)
    (others : Contents names more) :
    Contents (name :: names) ('<' :: name.toList ++ (row ++ (spaces ++ (['>'] ++ (written ++
      ('<' :: '/' :: (name.toList ++ closing ++ ['>']) ++ more))))))

section Reading

variable {attributes : List Attribute} {name : String} {row : List Char}
  {entries inner : List (String × Node)}
  {left n : Nat} {last after : Scanner}

theorem isWholeUpTo_ok : IsWholeUpTo entries (.ok n) ↔ ∀ entry ∈ entries, entry.2.IsWhole := by
  induction entries with
  | nil => exact iff_of_true (isWholeUpTo_nil.2 ⟨n, rfl⟩) (List.forall_mem_nil _)
  | cons entry entries ih => rw [isWholeUpTo_cons, List.forall_mem_cons, ih]

theorem Attribute.entry_isWhole (a : Attribute) : a.entry.2.IsWhole := isWhole_leaf.2 ⟨_, rfl⟩

theorem Row.readsRest_element (inTag : Row attributes row) (double : ∀ a ∈ attributes, a.quote = '"')
    (isName : IsName name.toList) (stack : List String) {rest : List UInt8}
    (ends : attributes = [] → EndsName rest)
    (inside : ReadsRest Scanner.step ⟨true, name :: stack, single rest⟩ inner n after)
    (whole : ∀ entry ∈ inner, entry.2.IsWhole) (later : ReadsRest Scanner.step after entries left last) :
    ∃ node, node.IsWhole ∧ ReadsRest Scanner.step
      ⟨false, stack, single (bytes ('<' :: name.toList) ++ (bytes row ++ rest))⟩
      ((name, node) :: entries) left last := by
  obtain ⟨next, step, -, goesOn⟩ := Scanner.exists_step_opened stack (List.forall_mem_nil _) isName
    (inTag.endsName ends)
  rw [String.ofList_toList] at step goesOn
  have inTag := (inTag.readsRest_iff double _ rest).2 ⟨inner, rfl, inside⟩
  have all : ∀ entry ∈ attributes.map Attribute.entry ++ inner, entry.2.IsWhole := by
    simpa [or_imp, forall_and] using ⟨fun a _ => a.entry_isWhole, fun name node mem => whole (name, node) mem⟩
  exact ⟨_, isWhole_element.2 (isWholeUpTo_ok.2 all), .element step ((goesOn _ _ _).2 inTag) later⟩

end Reading

/-- What stands there is read before what is read behind it. -/
theorem Contents.exists_readsRest {names : List String} {text : List Char} (contents : Contents names text)
    (stack : List String) {rest : List UInt8} (ends : textName ∈ names → rest.head? = some '<'.toUInt8)
    {entries : List (String × Node)} {left : Nat} {last : Scanner}
    (later : ReadsRest Scanner.step ⟨false, stack, single rest⟩ entries left last) :
    ∃ front, front.map Prod.fst = names ∧ (∀ entry ∈ front, entry.2.IsWhole) ∧
      ReadsRest Scanner.step ⟨false, stack, single (bytes text ++ rest)⟩ (front ++ entries) left last := by
  -- What stands behind is free: there are more contents, or the closing tag of the element.
  induction contents generalizing stack rest entries left last with
  | nil => exact ⟨[], rfl, List.forall_mem_nil _, later⟩
  | blank spaces blank others ih =>
    obtain ⟨front, names, whole, reads⟩ := ih stack ends later
    refine ⟨front, names, whole, ?_⟩
    rw [Text.Utf8.bytes_append, List.append_assoc]
    exact reads.of_step_eq (Scanner.step_append blank stack _).symm
  | remark remark wellFormed noticed others ih =>
    obtain ⟨front, names, whole, reads⟩ := ih stack ends later
    refine ⟨front, names, whole, ?_⟩
    rw [Text.Utf8.bytes_append, List.append_assoc]
    exact .pass (remark.step wellFormed noticed stack (List.forall_mem_nil _) _) reads
  | @text names written more shown inside bracket others ih =>
    obtain ⟨front, rfl, whole, reads⟩ := ih stack (fun mem => ends (List.mem_cons_of_mem _ mem)) later
    obtain ⟨blanks, first, text, rfl, blank, visible, -⟩ := exists_visible shown
    simp only [List.mem_append, List.mem_cons, not_or] at inside
    -- A text ends at a bracket, that of more contents or that of what stands behind.
    obtain ⟨tail, following⟩ : ∃ tail, bytes more ++ rest = '<'.toUInt8 :: tail := by
      cases more with
      | nil => exact List.head?_eq_some_iff.1 (ends List.mem_cons_self)
      | cons c more =>
        obtain rfl := bracket c rfl
        exact ⟨bytes more ++ rest, rfl⟩
    rw [following] at reads
    have step := Scanner.step_text stack blank visible (Ne.symm inside.2.1) inside.2.2 tail
    refine ⟨(textName, .leaf (.body (.ok (meant (first :: text))))) :: front, rfl,
      List.forall_mem_cons.2 ⟨isWhole_leaf.2 ⟨_, rfl⟩, whole⟩, ?_⟩
    rw [Text.Utf8.bytes_append, List.append_assoc, following]
    exact .leaf step reads
  | @selfClosed name row attributes names spaces more isName inTag double blanks others ih =>
    obtain ⟨front, rfl, whole, reads⟩ := ih stack (fun mem => ends (List.mem_cons_of_mem _ mem)) later
    have closes : ReadsRest Scanner.step ⟨true, name :: stack,
        single (bytes spaces ++ (bytes ['/', '>'] ++ (bytes more ++ rest)))⟩ []
          (bytes more ++ rest).length _ :=
      .ended ((Scanner.step_inTag_append _ _ blanks.isBlank).trans (Scanner.step_selfClosing ..))
    have bracket : EndsName (bytes spaces ++ (bytes ['/', '>'] ++ (bytes more ++ rest))) :=
      .of_spaces blanks (.of_cons (.inr (.inr rfl)))
    obtain ⟨node, isWhole, reads⟩ := inTag.readsRest_element double isName stack (fun _ => bracket) closes
      (List.forall_mem_nil _) reads
    refine ⟨(name, node) :: front, rfl, List.forall_mem_cons.2 ⟨isWhole, whole⟩, ?_⟩
    change ReadsRest Scanner.step _ ((name, node) :: (front ++ entries)) left last
    simpa only [Text.Utf8.bytes_append, List.append_assoc] using reads
  | @closed name row written attributes inner names spaces blank more isName plain inTag double within blanks
      others inside ih =>
    obtain ⟨front, rfl, whole, reads⟩ := ih stack (fun mem => ends (List.mem_cons_of_mem _ mem)) later
    have closing := Scanner.step_closing stack (bytes more ++ rest) isName plain blanks.2
    rw [String.ofList_toList] at closing
    have closes : ReadsRest Scanner.step ⟨false, name :: stack,
        single (bytes ('<' :: '/' :: (name.toList ++ blank ++ ['>'])) ++ (bytes more ++ rest))⟩ []
        (bytes more ++ rest).length _ :=
      .ended closing
    obtain ⟨body, rfl, wholeBody, body⟩ := inside (name :: stack) (fun _ => rfl) closes
    have inner := (ReadsRest.pass (Scanner.step_tagEnd _ _) body).of_step_eq
      (Scanner.step_inTag_append _ _ blanks.1.isBlank).symm
    have bracket : EndsName (bytes spaces ++ (bytes ['>'] ++ (bytes written ++
        (bytes ('<' :: '/' :: (name.toList ++ blank ++ ['>'])) ++ (bytes more ++ rest))))) :=
      .of_spaces blanks.1 (.of_cons (.inr (.inl rfl)))
    obtain ⟨node, isWhole, reads⟩ := inTag.readsRest_element double isName stack (fun _ => bracket) inner
      (by simpa using wholeBody) reads
    refine ⟨(name, node) :: front, rfl, List.forall_mem_cons.2 ⟨isWhole, whole⟩, ?_⟩
    change ReadsRest Scanner.step _ ((name, node) :: (front ++ entries)) left last
    simpa only [Text.Utf8.bytes_append, List.append_assoc] using reads

end VulkanBindings.Xml
