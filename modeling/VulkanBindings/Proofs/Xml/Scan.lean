import VulkanBindings.Proofs.Xml.Gathered
import VulkanBindings.Xml.Scanner

/-! Two scans of the same bytes, delivered in two ways of which the second cuts no characters. They
find the same events, up to the point where the first one meets a character that is cut, if it
does. Bytes that are no text may count as cut wherever they stand. -/

set_option autoImplicit false

namespace VulkanBindings.Xml

open Text.Utf8 (StopsInAscii)

variable {cut : Prop}

namespace Input

/-- Two inputs that have the same bytes left, which the second one delivers uncut. -/
inductive Alike (cut : Prop) (a b : Input) : Prop
  | text (text : List Char) (first : Delivers cut a text) (second : Delivers False b text)
  | bytes (anywhere : cut) (gathered : Gathered a b)

variable {a b : Input}

theorem Alike.left (alike : Alike cut a b) : a.left = b.left := by
  cases alike with
  | text text first second => exact first.left.trans second.left.symm
  | bytes anywhere gathered => exact gathered.left

inductive ReadAlike (cut : Prop) {α : Type} : α × Input → α × Input → Prop
  | mk (found : α) {rest rest' : Input} (unread : Alike cut rest rest') :
    ReadAlike cut (found, rest) (found, rest')

theorem next_alike (alike : Alike cut a b) : Torn False (ReadAlike cut) a.next b.next := by
  cases alike with
  | text text first second =>
    refine ((next_delivers first).join (next_delivers second)).mono ?_
    rintro ⟨_, rest⟩ ⟨_, rest'⟩ ⟨⟨c, left⟩, ⟨rfl, delivers⟩, rfl, delivers'⟩
    exact .mk _ (.text left delivers delivers')
  | bytes anywhere gathered =>
    refine (next_gathered gathered).mono ?_
    rintro ⟨_, rest⟩ ⟨_, rest'⟩ ⟨rfl, gathered⟩
    exact .mk _ (.bytes anywhere gathered)

theorem run_alike {σ β : Type} (step : σ → Char → Except Error (σ ⊕ β)) (state : σ)
    (alike : Alike cut a b) :
    Torn False (ReadAlike cut) (a.run step state) (b.run step state) := by
  rw [run, run, alike.left]
  generalize b.left = fuel
  induction fuel generalizing state a b with
  | zero => exact .error _
  | succ fuel ih =>
    rw [run.go, run.go]
    refine (next_alike alike).bind ?_
    rintro _ _ ⟨c, unread⟩
    refine (Torn.refl (step state c)).bind ?_
    rintro (state | result) _ rfl
    · exact ih state unread
    · exact .ok (.mk _ unread)

/-- Two runs up to the same delimiter, before or after which both can go on. -/
inductive UntilAlike (cut : Prop) : List Char × UInt8 × Input → List Char × UInt8 × Input → Prop
  | mk (before : List Char) (delimiter : UInt8) {rest rest' : Input} (unread : Alike cut rest rest')
    (skipped : Alike cut rest.skip rest'.skip) :
    UntilAlike cut (before, delimiter, rest) (before, delimiter, rest')

theorem readUntil_alike {stop : UInt8 → Bool} (ascii : StopsInAscii stop) (alike : Alike cut a b) :
    Torn cut (UntilAlike cut) (a.readUntil stop) (b.readUntil stop) := by
  cases alike with
  | text text first second =>
    refine ((readUntil_torn ascii first).join (readUntil_torn ascii second)).mono ?_
    rintro ⟨before, _, rest⟩ ⟨_, _, rest'⟩ ⟨⟨_, c, after⟩, left, left'⟩
    cases left.before
    cases left.delimiter
    cases left'.before
    cases left'.delimiter
    exact .mk _ _ (.text _ left.delivers left'.delivers)
      (.text _ (skip_delivers left.delivers left.ascii) (skip_delivers left'.delivers left'.ascii))
  | bytes anywhere gathered =>
    refine ((readUntil_gathered stop gathered).imp fun _ => anywhere).mono ?_
    rintro ⟨before, b, rest⟩ ⟨_, _, rest'⟩ ⟨rfl, rfl, gathered⟩
    exact .mk _ _ (.bytes anywhere gathered) (.bytes anywhere (skip_gathered gathered))

end Input

inductive Leaf.Alike (cut : Prop) : Leaf → Leaf → Prop
  | attribute {text text' : Except Error String} (torn : Torn cut Eq text text') :
    Leaf.Alike cut (.attribute text) (.attribute text')
  | unquoted (e : Error) : Leaf.Alike cut (.unquoted e) (.unquoted e)
  | body {text text' : Except Error String} (torn : Torn cut Eq text text') :
    Leaf.Alike cut (.body text) (.body text')

inductive Event.Alike (cut : Prop) : Event → Event → Prop
  | leaf (name : String) {value value' : Leaf} (values : Leaf.Alike cut value value') :
    Event.Alike cut (.leaf name value) (.leaf name value')
  | opened (name : String) (bare : Bool) : Event.Alike cut (.opened name bare) (.opened name bare)
  | closed (left : Nat) : Event.Alike cut (.closed left) (.closed left)

namespace Scanner

theorem isSpace_ascii {b : UInt8} (space : isSpace b) : b.toNat < 0x80 := by
  simp only [isSpace, Bool.or_eq_true, decide_eq_true_eq] at space
  rcases space with (((rfl | rfl) | rfl) | rfl) | rfl <;> decide

theorem stopsInAscii_eq {c : Char} (small : c.toUInt8.toNat < 0x80) : StopsInAscii (· = c.toUInt8) :=
  fun _ same => (of_decide_eq_true same).symm ▸ small

theorem stopsInAscii_or {stop also : UInt8 → Bool} (first : StopsInAscii stop)
    (second : StopsInAscii also) : StopsInAscii fun b => stop b || also b :=
  fun b stops => (Bool.or_eq_true_iff.1 stops).elim (first b) (second b)

def readMarkup (s : Scanner) (input : Input) : Outcome :=
  match input.next with
  | .error e => (none, .error e)
  | .ok (c, input) =>
    if c = '/' then s.readClosing input
    else if c = '!' then s.passOver (input.run commentStep .none)
    else if c = '?' then s.passOver (input.run instructionStep false)
    else s.readTag c input

/-- A step by cases of a decision instead of a pattern. -/
theorem step_eq (s : Scanner) : s.step =
    if s.inTag then
      match s.input.run inTagStep false with
      | .error e => (none, .error e)
      | .ok (.attribute first, input) => s.readAttribute first input
      | .ok (.content, input) => (none, .ok { s with inTag := false, input })
      | .ok (.closed, input) => (some (.closed input.left), .ok ⟨false, s.stack.tail, input⟩)
    else
      match s.input.run visibleStep () with
      | .error e => (none, .error e)
      | .ok (c, input) => if c = '<' then s.readMarkup input else s.readText c input := by
  unfold step readMarkup
  congr 1
  generalize s.input.run visibleStep () = read
  split
  · rfl
  · next input =>
    dsimp only
    rw [if_pos rfl]
    generalize input.next = read
    split
    · rfl
    · rfl
    · rfl
    · rfl
    · next notSlash notMark notQuestion =>
      dsimp only
      rw [if_neg notSlash, if_neg notMark, if_neg notQuestion]
  · next notLess =>
    dsimp only
    rw [if_neg notLess]

theorem attributeName_ascii : StopsInAscii fun b => isSpace b || b = '='.toUInt8 :=
  stopsInAscii_or (fun _ => isSpace_ascii) (stopsInAscii_eq (by decide))

theorem tagName_ascii : StopsInAscii fun b => isSpace b || b = '>'.toUInt8 || b = '/'.toUInt8 :=
  stopsInAscii_or (stopsInAscii_or (fun _ => isSpace_ascii) (stopsInAscii_eq (by decide)))
    (stopsInAscii_eq (by decide))

theorem quote_ascii : StopsInAscii (· = '"'.toUInt8) := stopsInAscii_eq (by decide)

theorem less_ascii : StopsInAscii (· = '<'.toUInt8) := stopsInAscii_eq (by decide)

structure Alike (cut : Prop) (s s' : Scanner) : Prop where
  inTag : s.inTag = s'.inTag
  stack : s.stack = s'.stack
  input : Input.Alike cut s.input s'.input

/-- Two steps with the same event, or none, unless the first one meets a character that is cut. -/
inductive OutcomeAlike (cut : Prop) : Outcome → Outcome → Prop
  | silent {next next' : Except Error Scanner} (states : Torn cut (Alike cut) next next') :
    OutcomeAlike cut (none, next) (none, next')
  | event {event event' : Event} {next next' : Except Error Scanner} (events : event.Alike cut event')
    (states : Torn cut (Alike cut) next next') : OutcomeAlike cut (some event, next) (some event', next')
  | torn (isCut : cut) (fault : Text.Utf8.Fault) (other : Outcome) :
    OutcomeAlike cut (none, .error (.invalidText fault)) other

variable {s s' : Scanner} {input input' : Input}

theorem readText_alike (scanners : Alike cut s s') (first : Char) (inputs : Input.Alike cut input input') :
    OutcomeAlike cut (s.readText first input) (s'.readText first input') := by
  unfold readText
  have read := Input.readUntil_alike less_ascii inputs
  generalize input.readUntil (· = '<'.toUInt8) = r at read ⊢
  generalize input'.readUntil (· = '<'.toUInt8) = r' at read ⊢
  cases read with
  | error e => exact .event (.leaf _ (.body (.error e))) (.error e)
  | torn isCut fault =>
    cases r' <;> exact .event (.leaf _ (.body (.torn isCut fault _))) (.torn isCut fault _)
  | ok read =>
    cases read with
    | mk text b unread =>
      exact .event (.leaf _ (.body (.refl _))) (.ok ⟨scanners.inTag, scanners.stack, unread⟩)

theorem readAttribute_alike (scanners : Alike cut s s') (first : Char)
    (inputs : Input.Alike cut input input') :
    OutcomeAlike cut (s.readAttribute first input) (s'.readAttribute first input') := by
  unfold readAttribute
  have named := Input.readUntil_alike attributeName_ascii inputs
  generalize input.readUntil _ = r at named ⊢
  generalize input'.readUntil _ = r' at named ⊢
  cases named with
  | error e => exact .silent (.error e)
  | torn isCut fault => exact .torn isCut fault _
  | ok named =>
    cases named with
    | @mk name b rest rest' unread skipped =>
      have opened := Input.run_alike quoteStep () skipped
      dsimp only
      generalize rest.skip.run quoteStep () = q at opened ⊢
      generalize rest'.skip.run quoteStep () = q' at opened ⊢
      cases opened with
      | error e => exact .event (.leaf _ (.unquoted e)) (.error e)
      | torn isCut => exact isCut.elim
      | ok opened =>
        cases opened with
        | @mk _ rest rest' unread =>
          have read := Input.readUntil_alike quote_ascii unread
          dsimp only
          generalize rest.readUntil (· = '"'.toUInt8) = t at read ⊢
          generalize rest'.readUntil (· = '"'.toUInt8) = t' at read ⊢
          cases read with
          | error e => exact .event (.leaf _ (.attribute (.error e))) (.error e)
          | torn isCut fault =>
            cases t' <;> exact .event (.leaf _ (.attribute (.torn isCut fault _))) (.torn isCut fault _)
          | ok read =>
            cases read with
            | mk text b unread skipped =>
              exact .event (.leaf _ (.attribute (.refl _)))
                (.ok ⟨scanners.inTag, scanners.stack, skipped⟩)

theorem readTag_alike (scanners : Alike cut s s') (first : Char)
    (inputs : Input.Alike cut input input') :
    OutcomeAlike cut (s.readTag first input) (s'.readTag first input') := by
  unfold readTag
  have named := Input.readUntil_alike tagName_ascii inputs
  generalize input.readUntil _ = r at named ⊢
  generalize input'.readUntil _ = r' at named ⊢
  cases named with
  | error e => exact .silent (.error e)
  | torn isCut fault => exact .torn isCut fault _
  | ok named =>
    cases named with
    | mk name b unread skipped =>
      refine .event (.opened _ _) (.ok ⟨rfl, congrArg (_ :: ·) scanners.stack, ?_⟩)
      dsimp only
      split
      · exact unread
      · exact skipped

theorem readClosing_alike (scanners : Alike cut s s') (inputs : Input.Alike cut input input') :
    OutcomeAlike cut (s.readClosing input) (s'.readClosing input') := by
  unfold readClosing
  have named := Input.run_alike closingStep [] inputs
  generalize input.run closingStep [] = r at named ⊢
  generalize input'.run closingStep [] = r' at named ⊢
  cases named with
  | error e => exact .silent (.error e)
  | torn isCut => exact isCut.elim
  | ok named =>
    cases named with
    | mk name unread =>
      dsimp only
      rw [scanners.stack, unread.left]
      cases s'.stack with
      | nil => exact .silent (.error _)
      | cons top stack =>
        dsimp only
        split
        · exact .event (.closed _) (.ok ⟨rfl, rfl, unread⟩)
        · exact .silent (.error _)

theorem passOver_alike (scanners : Alike cut s s') {read read' : Except Error (Unit × Input)}
    (reads : Torn False (Input.ReadAlike cut) read read') :
    OutcomeAlike cut (s.passOver read) (s'.passOver read') := by
  cases reads with
  | error e => exact .silent (.error e)
  | torn isCut => exact isCut.elim
  | ok read =>
    cases read with
    | mk _ unread => exact .silent (.ok ⟨scanners.inTag, scanners.stack, unread⟩)

theorem readMarkup_alike (scanners : Alike cut s s') (inputs : Input.Alike cut input input') :
    OutcomeAlike cut (s.readMarkup input) (s'.readMarkup input') := by
  unfold readMarkup
  have read := Input.next_alike inputs
  generalize input.next = r at read ⊢
  generalize input'.next = r' at read ⊢
  cases read with
  | error e => exact .silent (.error e)
  | torn isCut => exact isCut.elim
  | ok read =>
    cases read with
    | mk c unread =>
      dsimp only
      split
      · exact readClosing_alike scanners unread
      split
      · exact passOver_alike scanners (Input.run_alike commentStep .none unread)
      split
      · exact passOver_alike scanners (Input.run_alike instructionStep false unread)
      · exact readTag_alike scanners c unread

theorem step_alike (scanners : Alike cut s s') : OutcomeAlike cut s.step s'.step := by
  rw [step_eq, step_eq, scanners.inTag]
  split
  · have ran := Input.run_alike inTagStep false scanners.input
    generalize s.input.run inTagStep false = r at ran ⊢
    generalize s'.input.run inTagStep false = r' at ran ⊢
    cases ran with
    | error e => exact .silent (.error e)
    | torn isCut => exact isCut.elim
    | ok read =>
      cases read with
      | mk found unread =>
        obtain first | - | - := found
        · exact readAttribute_alike scanners first unread
        · exact .silent (.ok ⟨rfl, scanners.stack, unread⟩)
        · dsimp only
          rw [unread.left]
          exact .event (.closed _) (.ok ⟨rfl, congrArg List.tail scanners.stack, unread⟩)
  · have ran := Input.run_alike visibleStep () scanners.input
    generalize s.input.run visibleStep () = r at ran ⊢
    generalize s'.input.run visibleStep () = r' at ran ⊢
    cases ran with
    | error e => exact .silent (.error e)
    | torn isCut => exact isCut.elim
    | ok read =>
      cases read with
      | mk c unread =>
        dsimp only
        split
        · exact readMarkup_alike scanners unread
        · exact readText_alike scanners c unread

end Scanner

namespace Events

theorem collect_eq (n : Nat) (s : Scanner) (read : List Event) :
    collect n s read = ⟨read.reverse ++ (collect n s []).list, (collect n s []).failure⟩ := by
  induction n generalizing s read with
  | zero => simp [collect]
  | succ n ih =>
    simp only [collect]
    obtain ⟨event, next⟩ := s.step
    cases next with
    | error e => simp
    | ok s =>
      dsimp only
      rw [ih, ih s (event.toList ++ [])]
      cases event <;> simp

theorem collect_succ (n : Nat) (s : Scanner) : collect (n + 1) s [] =
    match s.step with
    | (event, .error e) => ⟨event.toList, e⟩
    | (event, .ok s) => ⟨event.toList ++ (collect n s []).list, (collect n s []).failure⟩ := by
  rw [collect]
  obtain ⟨event, next⟩ := s.step
  cases next with
  | error e => cases event <;> rfl
  | ok s =>
    dsimp only
    rw [collect_eq]
    cases event <;> rfl

inductive Alike (cut : Prop) : Events → Events → Prop
  | ended (failure : Error) : Alike cut ⟨[], failure⟩ ⟨[], failure⟩
  | torn (isCut : cut) (fault : Text.Utf8.Fault) (later : Events) :
    Alike cut ⟨[], .invalidText fault⟩ later
  | cons {event event' : Event} {later later' : Events} (first : event.Alike cut event')
    (rest : Alike cut later later') :
    Alike cut ⟨event :: later.list, later.failure⟩ ⟨event' :: later'.list, later'.failure⟩

theorem collect_alike (n : Nat) {s s' : Scanner} (scanners : s.Alike cut s') :
    Alike cut (collect n s []) (collect n s' []) := by
  induction n generalizing s s' with
  | zero => exact .ended _
  | succ n ih =>
    have step := Scanner.step_alike scanners
    rw [collect_succ, collect_succ]
    generalize s.step = outcome at step ⊢
    generalize s'.step = outcome' at step ⊢
    cases step with
    | torn isCut fault => exact .torn isCut fault _
    | silent states =>
      cases states with
      | ok related => exact ih related
      | error e => exact .ended e
      | torn isCut fault => exact .torn isCut fault _
    | @event _ _ _ next' first states =>
      cases states with
      | ok related => exact .cons first (ih related)
      | error e => exact .cons first (.ended e)
      | torn isCut fault =>
        have rest (later : Events) := Alike.cons first (.torn isCut fault later)
        cases next' with
        | error e => exact rest ⟨[], e⟩
        | ok s => exact rest (collect n s [])

theorem ofInput_alike {a b : Input} (inputs : Input.Alike cut a b) :
    Alike cut (.ofInput a) (.ofInput b) := by
  unfold ofInput
  rw [inputs.left]
  exact collect_alike _ ⟨rfl, rfl, inputs⟩

end Events

end VulkanBindings.Xml
