import VulkanBindings.Proofs.Xml.Elements
import VulkanBindings.Proofs.Xml.ReadBack
import VulkanBindings.Proofs.Xml.Remarks

/-! Documents as they are found: texts with whatever references they have, tags, and remarks between
them. Not all of them can be read, but one that is read to its end is read as what stands there. -/

set_option autoImplicit false

namespace VulkanBindings.Xml

open Text (isBlank)
open Text.Utf8 (bytes)
open Scanner (meant visibleStep closingStep quoteStep)

section Documents

/-- Attributes in a tag, with either quote around their values. Unless `marked`, no name begins with a
space mark. -/
inductive Assigns (marked : Prop) : List (String × String) → List Char → Prop
  | done (spaces : List Char) (blank : Spaces spaces) : Assigns marked [] spaces
  | assign (name : String) {quote : Char} {rest : List (String × String)}
    (before left right written : List Char) {more : List Char} (separate : Spaces before)
    (isName : IsName name.toList) (plain : ¬marked → name.toList.head? ≠ some spaceMark)
    (equals : Spaces left ∧ Spaces right) (quotes : quote = '"' ∨ quote = '\'') (inside : quote ∉ written)
    (others : Assigns marked rest more) :
    Assigns marked ((name, meant written) :: rest)
      (before ++ name.toList ++ left ++ '=' :: right ++ quote :: written ++ quote :: more)

inductive Labels (marked : Prop) : List (String × String) → List Char → Prop
  | none : Labels marked [] []
  | some (c : Char) {attributes : List (String × String)} {inner : List Char} (space : IsSpace c)
    (assigns : Assigns marked attributes inner) : Labels marked attributes (c :: inner)

/-- What stands in an element: white space, remarks, texts up to the next bracket, and elements. -/
inductive Markup (marked : Prop) : List Piece → List Char → Prop
  | nil : Markup marked [] []
  | blank {pieces : List Piece} (spaces : List Char) {more : List Char} (blank : ∀ c ∈ spaces, isBlank c)
    (others : Markup marked pieces more) : Markup marked pieces (spaces ++ more)
  | remark {pieces : List Piece} (remark : Remark) {more : List Char} (wellFormed : remark.IsWellFormed)
    (noticed : remark.EndsNoticed) (others : Markup marked pieces more) :
    Markup marked pieces (remark.written ++ more)
  | text {pieces : List Piece} (written : List Char) {more : List Char}
    (shown : ∃ c ∈ written, isBlank c = false) (inside : '<' ∉ written)
    (ends : ∀ c ∈ more.head?, c = '<') (others : Markup marked pieces more) :
    Markup marked (.text (meant written) :: pieces) (written ++ more)
  | selfClosed {name : String} {attributes : List (String × String)} {pieces : List Piece}
    {inner more : List Char} (isName : IsName name.toList) (labels : Labels marked attributes inner)
    (others : Markup marked pieces more) :
    Markup marked (.element name attributes [] :: pieces)
      ('<' :: name.toList ++ inner ++ '/' :: '>' :: more)
  | closed {name : String} {attributes : List (String × String)} {body pieces : List Piece}
    {inner written : List Char} (closing : List Char) {more : List Char} (isName : IsName name.toList)
    (labels : Labels marked attributes inner) (within : Markup marked body written)
    (blanks : Spaces closing) (others : Markup marked pieces more) :
    Markup marked (.element name attributes body :: pieces)
      ('<' :: name.toList ++ inner ++ '>' :: written ++ '<' :: '/' :: name.toList ++ closing ++ '>' :: more)

/-- A document of one root, with remarks before and behind it. -/
def IsDocument (marked : Prop) (root : Piece) (document : String) : Prop :=
  ∃ mark written, (mark = [] ∨ mark = ['\uFEFF']) ∧ Markup marked [root] written ∧
    document.toList = mark ++ written

end Documents

section Steps

variable {s t last : Scanner} {events : List Event} {nodes : List (String × Node)} {name : String}
  {node : Node} {left : Nat}

/-- What is still to be read of an element behind these events, up to the state behind its end. -/
def ReadsAfter (t : Scanner) : List Event → List (String × Node) → Nat → Scanner → Prop
  | [], nodes, left, last => ReadsRest Scanner.step t nodes left last
  | .leaf name value :: events, nodes, left, last =>
    ∃ back, nodes = (name, .leaf value) :: back ∧ ReadsAfter t events back left last
  | .opened name bare :: events, nodes, left, last => ∃ inner innerLeft after back,
    nodes = (name, .element bare inner (.ok innerLeft)) :: back ∧
      ReadsAfter t events inner innerLeft after ∧ ReadsRest Scanner.step after back left last
  | .closed _ :: events, nodes, _, last => nodes = [] ∧ Scanner.Reads last events t

theorem ReadsRest.after (reads : ReadsRest Scanner.step s nodes left last)
    (taken : Scanner.Reads s events t) : ReadsAfter t events nodes left last := by
  induction taken generalizing nodes left last with
  | refl => exact reads
  | @step s next t event events here _ later ih =>
    cases reads with
    | pass here' rest =>
      obtain ⟨rfl, same⟩ := Prod.mk.inj (here.symm.trans here')
      cases same
      exact ih rest
    | leaf here' rest =>
      obtain ⟨rfl, same⟩ := Prod.mk.inj (here.symm.trans here')
      cases same
      exact ⟨_, rfl, ih rest⟩
    | element here' inside rest =>
      obtain ⟨rfl, same⟩ := Prod.mk.inj (here.symm.trans here')
      cases same
      exact ⟨_, _, _, _, rfl, ih inside, rest⟩
    | ended here' =>
      obtain ⟨rfl, same⟩ := Prod.mk.inj (here.symm.trans here')
      cases same
      exact ⟨rfl, later⟩

theorem ReadsElement.of_reads (reads : ReadsElement Scanner.step s name node last)
    (taken : Scanner.Reads s [] t) : ReadsElement Scanner.step t name node last := by
  generalize none : ([] : List Event) = events at taken
  induction taken with
  | refl => exact reads
  | @step s next t event events here _ later ih =>
    obtain ⟨silent, rfl⟩ := List.append_eq_nil_iff.1 none.symm
    obtain rfl := Option.toList_eq_nil_iff.1 silent
    cases reads with
    | pass here' rest =>
      cases here.symm.trans here'
      exact ih rest rfl
    | element here' => cases here.symm.trans here'

theorem ReadsElement.opened {found : String} {bare : Bool}
    (reads : ReadsElement Scanner.step s name node last) (taken : Scanner.Reads s [.opened found bare] t) :
    ∃ inner left, node = .element bare inner (.ok left) ∧ ReadsRest Scanner.step t inner left last := by
  generalize one : [Event.opened found bare] = events at taken
  induction taken with
  | refl => cases one
  | @step s next t event events here _ later ih =>
    cases reads with
    | pass here' rest =>
      obtain ⟨rfl, same⟩ := Prod.mk.inj (here.symm.trans here')
      cases same
      exact ih rest one
    | element here' inside =>
      obtain ⟨rfl, same⟩ := Prod.mk.inj (here.symm.trans here')
      cases same
      cases one
      exact ⟨_, _, rfl, inside.after later⟩

end Steps

/-- Steps that come to the end of an element from here on read these entries first and go on there. -/
def Finds (entries : List (String × Tree)) (c c' : Config) : Prop :=
  ∀ input nodes left last, Input.Delivers False input c.text →
    ReadsRest Scanner.step ⟨c.inTag, c.stack, input⟩ nodes left last → ∃ front back later,
      nodes = front ++ back ∧ treesOf front = .ok entries ∧ Input.Delivers False later c'.text ∧
      ReadsRest Scanner.step ⟨c'.inTag, c'.stack, later⟩ back left last

def Ends (c c' : Config) : Prop :=
  ∀ input nodes left last, Input.Delivers False input c.text →
    ReadsRest Scanner.step ⟨c.inTag, c.stack, input⟩ nodes left last → nodes = [] ∧
      ∃ later, Input.Delivers False later c'.text ∧ Scanner.Reads last [] ⟨c'.inTag, c'.stack, later⟩

def Stuck (c : Config) : Prop :=
  ∀ input, Input.Delivers False input c.text →
    ∃ event e, Scanner.step ⟨c.inTag, c.stack, input⟩ = (event, .error e)

/-- Here an element begins that has these entries and ends there. -/
def Encloses (name : String) (entries : List (String × Tree)) (c c' : Config) : Prop :=
  ∃ bare first last, Scans c [.opened name bare] first ∧ Finds entries first last ∧ Ends last c'

section Runs

variable {entries others : List (String × Tree)} {a b c : Config} {name : String}

theorem Finds.refl (c : Config) : Finds [] c c :=
  fun input nodes _ _ delivers reads => ⟨[], nodes, input, rfl, rfl, delivers, reads⟩

theorem Finds.trans (first : Finds entries a b) (later : Finds others b c) :
    Finds (entries ++ others) a c := by
  intro input nodes left last delivers reads
  obtain ⟨front, back, between, rfl, trees, delivers, reads⟩ := first input nodes left last delivers reads
  obtain ⟨front', back, after, rfl, trees', delivers, reads⟩ := later between back left last delivers reads
  exact ⟨front ++ front', back, after, by simp, treesOf_append trees trees', delivers, reads⟩

theorem Finds.of_scans (scans : Scans a [] b) : Finds [] a b := by
  intro input nodes left last delivers reads
  obtain ⟨later, taken, delivers⟩ := scans input delivers
  exact ⟨[], nodes, later, rfl, rfl, delivers, reads.after taken⟩

theorem Finds.leaf {value : Leaf} {text : String} (scans : Scans a [.leaf name value] b)
    (reads : value.text = .ok text) : Finds [(name, .text text)] a b := by
  intro input nodes left last delivers taken
  obtain ⟨later, past, delivers⟩ := scans input delivers
  obtain ⟨back, rfl, rest⟩ := taken.after past
  refine ⟨[(name, .leaf value)], back, later, rfl, ?_, delivers, rest⟩
  rw [treesOf, treesOf, Node.tree, reads]
  rfl

theorem Stuck.not_readsRest (stuck : Stuck a) {input : Input} {nodes : List (String × Node)} {left : Nat}
    {last : Scanner} (delivers : Input.Delivers False input a.text) :
    ¬ReadsRest Scanner.step ⟨a.inTag, a.stack, input⟩ nodes left last := by
  obtain ⟨event, e, fails⟩ := stuck input delivers
  intro reads
  cases reads with
  | pass here | leaf here | element here | ended here => cases fails.symm.trans here

theorem Stuck.finds (stuck : Stuck a) : Finds entries a b :=
  fun _ _ _ _ delivers reads => (stuck.not_readsRest delivers reads).elim

theorem Encloses.finds (encloses : Encloses name entries a b) : Finds [(name, .element entries)] a b := by
  obtain ⟨bare, first, end', scans, finds, ends⟩ := encloses
  intro input nodes left last delivers reads
  obtain ⟨opened, past, delivers⟩ := scans input delivers
  obtain ⟨inner, innerLeft, after, back, rfl, inside, rest⟩ := reads.after past
  obtain ⟨front, inner, closing, rfl, trees, delivers, inside⟩ := finds opened inner _ _ delivers inside
  obtain ⟨rfl, later, delivers, silent⟩ := ends closing inner _ _ delivers inside
  refine ⟨[(name, .element bare (front ++ []) (.ok innerLeft))], back, later, rfl, ?_, delivers,
    rest.after silent⟩
  rw [List.append_nil, treesOf, treesOf, Node.tree, trees]
  rfl

theorem Encloses.tree (encloses : Encloses name entries a b) {input : Input} {found : String} {node : Node}
    {last : Scanner} (delivers : Input.Delivers False input a.text)
    (reads : ReadsElement Scanner.step ⟨a.inTag, a.stack, input⟩ found node last) :
    node.tree = .ok (.element entries) := by
  obtain ⟨bare, first, end', scans, finds, ends⟩ := encloses
  obtain ⟨opened, past, delivers⟩ := scans input delivers
  obtain ⟨inner, left, rfl, inside⟩ := reads.opened past
  obtain ⟨front, inner, closing, rfl, trees, delivers, inside⟩ := finds opened inner _ _ delivers inside
  obtain ⟨rfl, -⟩ := ends closing inner _ _ delivers inside
  rw [List.append_nil, Node.tree, trees]
  rfl

theorem Ends.of_scans {left : Nat} (scans : Scans a [.closed left] b) : Ends a b := by
  intro input nodes _ last delivers reads
  obtain ⟨later, past, delivers⟩ := scans input delivers
  obtain ⟨rfl, silent⟩ := reads.after past
  exact ⟨rfl, later, delivers, silent⟩

end Runs

theorem Characters.run_before {σ β : Type} {step : σ → Char → Except Error (σ ⊕ β)} {state : σ}
    {text rest : List Char} {result : β} (ran : run step state text = .ok (result, rest))
    (more : List Char) : run step state (text ++ more) = .ok (result, rest ++ more) := by
  induction text generalizing state with
  | nil => cases ran
  | cons c text ih =>
    rw [run] at ran
    rw [List.cons_append, run]
    cases taken : step state c with
    | error e => rw [taken] at ran; cases ran
    | ok answer =>
      rw [taken] at ran
      cases answer with
      | inl state => exact ih ran
      | inr result => cases ran; rfl

theorem Input.run_error {σ β : Type} {step : σ → Char → Except Error (σ ⊕ β)} {state : σ} {e : Error}
    {input : Input} {text : List Char} (delivers : Delivers False input text)
    (ran : Characters.run step state text = .error e) : input.run step state = .error e := by
  have reads := run_delivers step state delivers
  rw [ran] at reads
  generalize input.run step state = r at reads ⊢
  cases reads with
  | error e => rfl
  | torn isCut => exact isCut.elim

section Parts

variable (stack : List String) {lead : List Char} (after : List Char)

theorem Scans.ofRemark {remark : Remark} (blank : ∀ c ∈ lead, isBlank c)
    (wellFormed : remark.IsWellFormed) (noticed : remark.EndsNoticed) :
    Scans ⟨false, stack, lead ++ (remark.written ++ after)⟩ [] ⟨false, stack, after⟩ := by
  refine .of_step none (lead ++ remark.written) (by cases remark <;> simp [Remark.written]) (by simp)
    fun input delivers => ?_
  cases remark with
  | comment text =>
    obtain ⟨shown, found, delivers⟩ := Input.run_ok delivers (Characters.run_visible _ blank (by decide))
    obtain ⟨marked, mark, delivers⟩ := Input.next_cons delivers
    have ran := Characters.run_before (Remark.comment_run wellFormed noticed) after
    obtain ⟨later, reads, left⟩ := Input.run_ok delivers (by simpa using ran)
    exact ⟨later, Scanner.step_eq_ok.2 (.comment found mark reads), left⟩
  | instruction text =>
    obtain ⟨shown, found, delivers⟩ := Input.run_ok delivers (Characters.run_visible _ blank (by decide))
    obtain ⟨marked, mark, delivers⟩ := Input.next_cons delivers
    have ran := Characters.run_before (Remark.instruction_run wellFormed noticed) after
    obtain ⟨later, reads, left⟩ := Input.run_ok delivers (by simpa using ran)
    exact ⟨later, Scanner.step_eq_ok.2 (.instruction found mark reads), left⟩

theorem Ends.closing {name closing : List Char} (blank : ∀ c ∈ lead, isBlank c) (isName : IsName name)
    (blanks : Spaces closing) :
    Ends ⟨false, .ofList name :: stack, lead ++ '<' :: '/' :: (name ++ closing ++ '>' :: after)⟩
      ⟨false, stack, after⟩ := by
  have inside : '>' ∉ name ++ closing := by
    rw [List.mem_append, not_or]
    exact ⟨fun mem => (ne_of_part (isName.parts _ mem)).2.1 rfl, fun mem => absurd (blanks _ mem) (by decide)⟩
  intro input nodes left last delivers reads
  obtain ⟨shown, found, delivers⟩ := Input.run_ok delivers (Characters.run_visible _ blank (by decide))
  obtain ⟨marked, slash, delivers⟩ := Input.next_cons delivers
  obtain ⟨later, ran, delivers⟩ := Input.run_ok delivers (Characters.run_closing_filter _ [] inside)
  have step (event : Option Event) (next : Scanner)
      (here : Scanner.step ⟨false, .ofList name :: stack, input⟩ = (event, .ok next)) :
      event = some (.closed later.left) ∧ next = ⟨false, stack, later⟩ := by
    rw [Scanner.step_eq] at here
    simp only [Bool.false_eq_true, if_false, found, if_true, Scanner.readMarkup, slash,
      Scanner.readClosing, ran] at here
    split at here
    · cases here
      exact ⟨rfl, rfl⟩
    · cases here
  cases reads with
  | pass here | leaf here | element here => cases (step _ _ here).1
  | ended here =>
    obtain ⟨-, rfl⟩ := step _ _ here
    exact ⟨rfl, later, delivers, .refl _⟩

theorem Stuck.attribute {name left right : List Char} (blank : ∀ c ∈ lead, isBlank c)
    (isName : IsName name) (visible : ∀ c ∈ name.head?, isBlank c = false)
    (blanks : Spaces left ∧ Spaces right) :
    Stuck ⟨true, stack, lead ++ (name ++ (left ++ '=' :: right ++ '\'' :: after))⟩ := by
  intro input delivers
  obtain ⟨between, later, around, delivers, step⟩ := Scans.exists_of_attribute stack blank isName visible
    blanks delivers
  have ran : Characters.run quoteStep () (between ++ '\'' :: after) =
      .error (.unexpected '\'' "'\"', '=' or whitespace") := by
    rw [Characters.run_append]
    · rfl
    · intro d mem
      have notQuote : d ≠ '"' := by
        rintro rfl
        exact absurd (around _ mem) (by decide)
      simp [quoteStep, notQuote, around d mem]
  simp only [Scanner.readValue, Input.run_error delivers ran] at step
  exact ⟨_, _, step⟩

end Parts

section Tags

variable {name : String} {attributes : List (String × String)} {inner : List Char}

theorem Assigns.finds (assigns : Assigns False attributes inner) :
    ∃ spaces, Spaces spaces ∧ ∀ stack after, Finds (attributeEntries attributes)
      ⟨true, stack, inner ++ after⟩ ⟨true, stack, spaces ++ after⟩ := by
  induction assigns with
  | @done spaces blank => exact ⟨spaces, blank, fun _ _ => .refl _⟩
  | @assign name quote rest before left right written more separate isName plain equals quotes inside
      others ih =>
    obtain ⟨spaces, blank, finds⟩ := ih
    refine ⟨spaces, blank, fun stack after => ?_⟩
    have visible : ∀ c ∈ name.toList.head?, isBlank c = false := fun c head =>
      visible_of_part (isName.parts c (List.mem_of_mem_head? head))
        fun same => plain not_false (same ▸ head)
    obtain rfl | rfl := quotes
    · have first := Scans.ofAttribute stack (more ++ after) separate.isBlank isName visible equals inside
      rw [String.ofList_toList] at first
      simpa [attributeEntries] using (Finds.leaf first rfl).trans (finds stack after)
    · have stuck := Stuck.attribute stack (written ++ '\'' :: (more ++ after)) separate.isBlank isName
        visible equals
      simpa using stuck.finds

theorem Labels.opens (labels : Labels False attributes inner) (isName : IsName name.toList)
    {lead : List Char} (blank : ∀ c ∈ lead, isBlank c) (stack : List String) (after : List Char) :
    ∃ bare first, Scans ⟨false, stack, lead ++ '<' :: (name.toList ++ inner ++ '>' :: after)⟩
        [.opened name bare] first ∧
      Finds (attributeEntries attributes) first ⟨false, name :: stack, after⟩ := by
  cases labels with
  | none =>
    have opening := Scans.ofOpening stack after blank isName (.inr (.inl rfl))
    rw [String.ofList_toList] at opening
    exact ⟨_, _, by simpa using opening, .refl _⟩
  | @some c _ inner space assigns =>
    have opening := Scans.ofOpening stack (inner ++ '>' :: after) blank isName (.inl space)
    have ⟨notEnd, notSlash⟩ := ne_of_isSpace space
    rw [String.ofList_toList] at opening
    obtain ⟨spaces, blanks, finds⟩ := assigns.finds
    have ending := Finds.of_scans (Scans.ofTagEnd (name :: stack) after blanks.isBlank)
    refine ⟨_, _, by simpa [notEnd, notSlash] using opening, ?_⟩
    simpa using (finds (name :: stack) ('>' :: after)).trans ending

theorem Labels.encloses (labels : Labels False attributes inner) (isName : IsName name.toList)
    {lead : List Char} (blank : ∀ c ∈ lead, isBlank c) (stack : List String) (after : List Char) :
    Encloses name (attributeEntries attributes)
      ⟨false, stack, lead ++ '<' :: (name.toList ++ inner ++ '/' :: '>' :: after)⟩ ⟨false, stack, after⟩ := by
  have ending {spaces : List Char} (blanks : Spaces spaces) :
      Ends ⟨true, name :: stack, spaces ++ '/' :: '>' :: after⟩ ⟨false, stack, after⟩ :=
    .of_scans (Scans.ofSelfClosing (name :: stack) after blanks.isBlank)
  cases labels with
  | none =>
    have opening := Scans.ofOpening stack ('>' :: after) blank isName (.inr (.inr rfl))
    rw [String.ofList_toList] at opening
    exact ⟨_, _, _, by simpa using opening, .refl _, by simpa using ending (List.forall_mem_nil _)⟩
  | @some c _ inner space assigns =>
    have opening := Scans.ofOpening stack (inner ++ '/' :: '>' :: after) blank isName (.inl space)
    have ⟨notEnd, notSlash⟩ := ne_of_isSpace space
    rw [String.ofList_toList] at opening
    obtain ⟨spaces, blanks, finds⟩ := assigns.finds
    exact ⟨_, _, _, by simpa [notEnd, notSlash] using opening,
      by simpa using finds (name :: stack) ('/' :: '>' :: after), ending blanks⟩

end Tags

theorem exists_visible {written : List Char} (shown : ∃ c ∈ written, isBlank c = false) :
    ∃ blanks first rest, written = blanks ++ first :: rest ∧ (∀ c ∈ blanks, isBlank c) ∧
      isBlank first = false ∧ meant (first :: rest) = meant written := by
  induction written with
  | nil => simp at shown
  | cons c written ih =>
    cases visible : isBlank c with
    | false => exact ⟨[], c, written, rfl, List.forall_mem_nil _, visible, rfl⟩
    | true =>
      obtain ⟨blanks, first, rest, rfl, blank, visible', same⟩ := ih (by simpa [visible] using shown)
      refine ⟨c :: blanks, first, rest, rfl, List.forall_mem_cons.2 ⟨visible, blank⟩, visible', ?_⟩
      rw [same, meant, meant, Text.trimChars, Text.trimChars, List.dropWhile_cons_of_pos visible]

/-- What is found of what stands before the bracket of a tag. The blanks at its end may be left. -/
def FindsAs (entries : List (String × Tree)) (written : List Char) : Prop :=
  ∀ lead stack after, (∀ c ∈ lead, isBlank c) → ∃ spaces, (∀ c ∈ spaces, isBlank c) ∧
    Finds entries ⟨false, stack, lead ++ written ++ '<' :: after⟩ ⟨false, stack, spaces ++ '<' :: after⟩

theorem FindsAs.then {entries others : List (String × Tree)} (first : List Char) {more : List Char}
    (finds : ∀ lead stack after, (∀ c ∈ lead, isBlank c) →
      Finds entries ⟨false, stack, lead ++ (first ++ after)⟩ ⟨false, stack, after⟩)
    (rest : FindsAs others more) : FindsAs (entries ++ others) (first ++ more) := by
  intro lead stack after blank
  obtain ⟨spaces, blanks, later⟩ := rest [] stack after (List.forall_mem_nil _)
  refine ⟨spaces, blanks, ?_⟩
  simpa using (finds lead stack (more ++ '<' :: after) blank).trans (by simpa using later)

theorem FindsAs.text {others : List (String × Tree)} {written more : List Char}
    (shown : ∃ c ∈ written, isBlank c = false) (inside : '<' ∉ written)
    (ends : ∀ c ∈ more.head?, c = '<') (rest : FindsAs others more) :
    FindsAs ((textName, .text (meant written)) :: others) (written ++ more) := by
  intro lead stack after blank
  obtain ⟨blanks, first, text, rfl, blank', visible, same⟩ := exists_visible shown
  obtain ⟨spaces, left, later⟩ := rest [] stack after (List.forall_mem_nil _)
  obtain ⟨tail, following⟩ : ∃ tail, more ++ '<' :: after = '<' :: tail := by
    cases more with
    | nil => exact ⟨after, rfl⟩
    | cons c more => exact ⟨more ++ '<' :: after, by rw [ends c rfl]; rfl⟩
  have notLess : first ≠ '<' ∧ '<' ∉ text := by
    simp only [List.mem_append, List.mem_cons, not_or] at inside
    exact ⟨Ne.symm inside.2.1, inside.2.2⟩
  have blank : ∀ c ∈ lead ++ blanks, isBlank c := by
    simpa [or_imp, forall_and] using ⟨blank, blank'⟩
  have here := Finds.leaf (Scans.ofText stack tail blank visible notLess.1 notLess.2) rfl
  rw [same, ← following] at here
  refine ⟨spaces, left, ?_⟩
  simpa using here.trans (by simpa using later)

theorem Labels.encloses_body {name : String} {attributes : List (String × String)}
    {entries : List (String × Tree)} {inner written closing lead : List Char}
    (labels : Labels False attributes inner) (isName : IsName name.toList) (within : FindsAs entries written)
    (blanks : Spaces closing) (blank : ∀ c ∈ lead, isBlank c) (stack : List String) (after : List Char) :
    Encloses name (attributeEntries attributes ++ entries)
      ⟨false, stack, lead ++ '<' :: (name.toList ++ inner ++ '>' :: (written ++
        '<' :: '/' :: (name.toList ++ closing ++ '>' :: after)))⟩ ⟨false, stack, after⟩ := by
  obtain ⟨bare, first, scans, own⟩ := labels.opens isName blank stack
    (written ++ '<' :: '/' :: (name.toList ++ closing ++ '>' :: after))
  obtain ⟨spaces, left, finds⟩ := within [] (name :: stack)
    ('/' :: (name.toList ++ closing ++ '>' :: after)) (List.forall_mem_nil _)
  have ends := Ends.closing stack after left isName blanks
  rw [String.ofList_toList] at ends
  exact ⟨bare, first, _, scans, own.trans (by simpa using finds), ends⟩

theorem Markup.findsAs {pieces : List Piece} {written : List Char} (markup : Markup False pieces written) :
    FindsAs (entriesOf pieces) written := by
  induction markup with
  | nil => exact fun lead stack after blank => ⟨lead, blank, by simpa using .refl _⟩
  | @blank pieces spaces more blank others ih =>
    intro lead stack after blank'
    have both : ∀ c ∈ lead ++ spaces, isBlank c := by simpa [or_imp, forall_and] using ⟨blank', blank⟩
    simpa using ih (lead ++ spaces) stack after both
  | remark remark wellFormed noticed others ih =>
    exact FindsAs.then _ (fun lead stack after blank =>
      .of_scans (Scans.ofRemark stack after blank wellFormed noticed)) ih
  | text written shown inside ends others ih =>
    rw [entriesOf]
    exact .text shown inside ends ih
  | @selfClosed name attributes pieces inner more isName labels others ih =>
    have first := FindsAs.then ('<' :: (name.toList ++ inner ++ ['/', '>']))
      (fun lead stack after blank => by
        simpa using (labels.encloses isName blank stack after).finds) ih
    rw [entriesOf, Piece.entry, entriesOf]
    simpa using first
  | @closed name attributes body pieces inner written closing more isName labels within blanks others
    inside ih =>
    have first := FindsAs.then
      ('<' :: (name.toList ++ inner ++ '>' :: (written ++ '<' :: '/' :: (name.toList ++ closing ++ ['>']))))
      (fun lead stack after blank => by
        simpa using (labels.encloses_body isName inside blanks blank stack after).finds) ih
    rw [entriesOf, Piece.entry]
    simpa using first

section Root

variable {marked : Prop} {name document : String} {attributes : List (String × String)} {body : List Piece}
  {pieces : List Piece} {written : List Char} {found : String} {node : Node} {last : Scanner}

theorem Markup.tree_of_readsElement (markup : Markup False pieces written)
    (root : pieces = [.element name attributes body]) {lead : List Char} (blank : ∀ c ∈ lead, isBlank c)
    {input : Input} (delivers : Input.Delivers False input (lead ++ written))
    (reads : ReadsElement Scanner.step ⟨false, [], input⟩ found node last) :
    node.tree = .ok (.element (attributeEntries attributes ++ entriesOf body)) := by
  induction markup generalizing lead input with
  | nil => cases root
  | @blank pieces spaces more blank' others ih =>
    have both : ∀ c ∈ lead ++ spaces, isBlank c := by simpa [or_imp, forall_and] using ⟨blank, blank'⟩
    exact ih root both (by simpa using delivers) reads
  | remark remark wellFormed noticed others ih =>
    obtain ⟨later, taken, delivers⟩ := Scans.ofRemark [] _ blank wellFormed noticed input delivers
    exact ih root (List.forall_mem_nil _) delivers (reads.of_reads taken)
  | text => cases root
  | @selfClosed _ _ pieces inner more isName labels =>
    cases root
    have encloses := labels.encloses isName blank [] more
    rw [entriesOf, List.append_nil]
    exact encloses.tree (by simpa using delivers) reads
  | @closed _ _ _ pieces inner written closing more isName labels within blanks =>
    cases root
    have encloses := labels.encloses_body isName within.findsAs blanks blank [] more
    exact encloses.tree (by simpa using delivers) reads

theorem Markup.head_ne (markup : Markup marked pieces written)
    (root : pieces = [.element name attributes body]) : written.head? ≠ some '\uFEFF' := by
  induction markup with
  | nil | text => cases root
  | @blank pieces spaces more blank others ih =>
    cases spaces with
    | nil => exact ih root
    | cons c spaces =>
      rintro ⟨⟩
      exact absurd (blank _ List.mem_cons_self) (by decide)
  | @remark pieces remark => cases remark <;> simp [Remark.written]
  | selfClosed | closed => simp

/-- The root of a document, if it is read to its end, is read as what stands there. -/
theorem IsDocument.tree (isDocument : IsDocument False (.element name attributes body) document)
    (reads : ReadsElement Scanner.step (.start (.ofBytes (Text.Utf8.encode document) none)) found node
      last) : node.tree = .ok (.element (attributeEntries attributes ++ entriesOf body)) := by
  obtain ⟨mark, written, marks, markup, whole⟩ := isDocument
  have delivers := Input.ofBytes_delivers document.toList
  have unmarked : Input.unmarkedText (mark ++ written) = written := by
    obtain rfl | rfl := marks
    · exact Input.unmarkedText_eq_self (markup.head_ne rfl)
    · rfl
  rw [← Text.Utf8.encode_eq_bytes, whole, unmarked] at delivers
  exact markup.tree_of_readsElement rfl (List.forall_mem_nil _) delivers reads

end Root

end VulkanBindings.Xml
