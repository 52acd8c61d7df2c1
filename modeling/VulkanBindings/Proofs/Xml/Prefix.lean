import VulkanBindings.Proofs.Xml.Elements

/-! A document that comes in one piece is read from its front. What is found there does not depend on
the bytes that follow, except for the one delimiter at which a text or a name ends. -/

set_option autoImplicit false

namespace VulkanBindings.Xml

namespace Input

def single (bs : List UInt8) : Input := ⟨[bs], bs.length⟩

section Takes

variable {α : Type} {bs front rest : List UInt8} {later : Input}

/-- The read takes these bytes, whatever comes after them. -/
def Takes (read : Input → Except Error (α × Input)) (front : List UInt8) (found : α) : Prop :=
  ∀ rest, read (single (front ++ rest)) = .ok (found, single rest)

theorem next_single {lead : UInt8} {tail : List UInt8} (length : tail.length = tailLength lead)
    (rest : List UInt8) : (single (lead :: tail ++ rest)).next =
      match Text.Utf8.decode (lead :: tail) with
      | .error fault => .error (.invalidText fault)
      | .ok [] => .error .endOfDocument
      | .ok (c :: _) => .ok (c, single rest) := by
  have first : uncons? (single (lead :: tail ++ rest)).blocks = some (lead, [tail ++ rest]) := rfl
  have taken : take? (tailLength lead) [tail ++ rest] = some (tail, [rest]) :=
    length ▸ take?_block tail rest []
  have left : (single (lead :: tail ++ rest)).left - (tail.length + 1) = rest.length := by
    simp only [single, List.cons_append, List.length_cons, List.length_append]
    omega
  simp only [next, first, taken, left]
  rfl

theorem exists_takes_next {c : Char} (read : (single bs).next = .ok (c, later)) :
    ∃ front rest, bs = front ++ rest ∧ 0 < front.length ∧ later = single rest ∧ Takes next front c := by
  cases bs with
  | nil => cases read
  | cons lead tail =>
    by_cases enough : tailLength lead ≤ tail.length
    · have length := List.length_take_of_le enough
      rw [← List.take_append_drop (tailLength lead) tail, ← List.cons_append, next_single length] at read
      refine ⟨lead :: tail.take (tailLength lead), tail.drop (tailLength lead), ?_, Nat.zero_lt_succ _,
        ?_, fun rest => ?_⟩
      · rw [List.cons_append, List.take_append_drop]
      · split at read
        · cases read
        · cases read
        · cases read
          rfl
      · rw [next_single length]
        split at read
        · cases read
        · cases read
        · cases read
          rfl
    · have first : uncons? (single (lead :: tail)).blocks = some (lead, [tail]) := rfl
      have short : take? (tailLength lead) [tail] = none :=
        take?_of_flatten_short (by simpa using enough)
      simp only [next, first, short] at read
      cases read

section Run

variable {σ β : Type} {step : σ → Char → Except Error (σ ⊕ β)} {state : σ} {result : β}

theorem exists_takes_go {fuel : Nat} (read : run.go step fuel state (single bs) = .ok (result, later)) :
    ∃ front rest, bs = front ++ rest ∧ 0 < front.length ∧ later = single rest ∧
      ∀ enough, front.length ≤ enough → Takes (run.go step enough state) front result := by
  induction fuel generalizing state bs with
  | zero => cases read
  | succ fuel ih =>
    rw [run.go] at read
    obtain ⟨⟨c, shown⟩, first, read⟩ := exists_of_bind_eq_ok read
    obtain ⟨front, bs, rfl, filled, rfl, takes⟩ := exists_takes_next first
    obtain ⟨answer, answers, read⟩ := exists_of_bind_eq_ok read
    obtain state | result := answer
    · obtain ⟨more, rest, rfl, -, last, later⟩ := ih read
      refine ⟨front ++ more, rest, (List.append_assoc ..).symm, ?_, last, fun enough long rest => ?_⟩
      · rw [List.length_append]
        exact Nat.add_pos_left filled _
      rw [List.length_append] at long
      obtain ⟨n, rfl⟩ := Nat.exists_eq_add_of_le' (filled.trans_le (Nat.le_of_add_right_le long))
      rw [List.append_assoc, run.go, takes]
      dsimp only [bind, Except.bind]
      rw [answers]
      exact later n (by omega) rest
    · cases read
      refine ⟨front, bs, rfl, filled, rfl, fun enough long rest => ?_⟩
      obtain ⟨n, rfl⟩ := Nat.exists_eq_add_of_le' (filled.trans_le long)
      rw [run.go, takes]
      dsimp only [bind, Except.bind]
      rw [answers]

theorem exists_takes_run (read : (single bs).run step state = .ok (result, later)) :
    ∃ front rest, bs = front ++ rest ∧ 0 < front.length ∧ later = single rest ∧
      Takes (run step state) front result := by
  obtain ⟨front, rest, parts, filled, last, takes⟩ := exists_takes_go read
  refine ⟨front, rest, parts, filled, last, fun rest => takes _ ?_ rest⟩
  rw [single, List.length_append]
  exact Nat.le_add_right ..

end Run

section Until

variable {stop : UInt8 → Bool} {text : List Char} {b : UInt8}

theorem readUntil_single (goesOn : ∀ c ∈ front, (!stop c) = true) (stops : ¬(!stop b) = true)
    (decoded : Text.Utf8.decode front = .ok text) (rest : List UInt8) :
    (single (front ++ b :: rest)).readUntil stop = .ok (text, b, single (b :: rest)) := by
  have ends : textUntil stop [front ++ b :: rest] = .ok (text, b, [b :: rest]) := by
    rw [textUntil_singleton, List.takeWhile_append_of_pos goesOn, List.dropWhile_append_of_pos goesOn,
      List.takeWhile_cons_of_neg (p := (!stop ·)) stops,
      List.dropWhile_cons_of_neg (p := (!stop ·)) stops, List.append_nil, decoded]
  have left : (single (front ++ b :: rest)).left - Text.Utf8.size text = (b :: rest).length := by
    rw [Text.Utf8.size_eq_length, ← Text.Utf8.decode_eq_ok.1 decoded, single, List.length_append]
    exact Nat.add_sub_cancel_left ..
  rw [readUntil, show (single (front ++ b :: rest)).blocks = [front ++ b :: rest] from rfl, ends]
  exact congrArg (fun left => Except.ok (text, b, Input.mk [b :: rest] left)) left

theorem exists_takes_readUntil (read : (single bs).readUntil stop = .ok (text, b, later)) :
    ∃ front rest, bs = front ++ b :: rest ∧ later = single (b :: rest) ∧
      ∀ rest, (single (front ++ b :: rest)).readUntil stop = .ok (text, b, single (b :: rest)) := by
  have parts := List.takeWhile_append_dropWhile (p := (!stop ·)) (l := bs)
  have goesOn : ∀ c ∈ bs.takeWhile (!stop ·), (!stop c) = true :=
    fun c mem => List.mem_takeWhile_imp (p := (!stop ·)) mem
  have stops := List.head?_dropWhile_not (!stop ·) bs
  obtain ⟨⟨_, _, blocks⟩, found, same⟩ := exists_of_bind_eq_ok read
  rw [single, textUntil_singleton] at found
  generalize bs.takeWhile (!stop ·) = front at *
  generalize bs.dropWhile (!stop ·) = after at *
  subst parts
  split at found
  · cases found
  · next decoded =>
    cases found
    cases same
    have reads := readUntil_single goesOn (by simpa using stops) decoded
    refine ⟨front, _, rfl, ?_, reads⟩
    exact congrArg (·.2.2) (Except.ok.inj (read.symm.trans (reads _)))
  · cases found

end Until

end Takes

end Input

namespace Scanner

open Input (single)

variable {s next last : Scanner} {event : Option Event} {bs : List UInt8}

def before (s : Scanner) (bs : List UInt8) : Scanner := { s with input := single bs }

def followedBy (left : Nat) : Option Event → Option Event
  | some (.closed _) => some (.closed left)
  | event => event

/-- How many bytes a step reads at least: a tag begins with a bracket and a name. -/
def leastRead : Option Event → Nat
  | some (.opened ..) => 2
  | _ => 1

/-- Whether a step may stop at a delimiter, which it leaves unread: after a text, or after a name in
whose tag it still is. -/
def stopsBefore : Option Event → Bool → Bool
  | some (.leaf ..), inTag => !inTag
  | some (.opened ..), inTag => inTag
  | _, _ => false

/-- A step that stops before a delimiter is followed by the same one. -/
def GoesOnAlike (event : Option Event) (inTag : Bool) (rest more : List UInt8) : Prop :=
  stopsBefore event inTag = true → more.head? = rest.head?

theorem exists_takes_markup {first second : Char} {shown later : Input}
    (found : (single bs).run visibleStep () = .ok (first, shown))
    (marked : shown.next = .ok (second, later)) :
    ∃ front rest, bs = front ++ rest ∧ 2 ≤ front.length ∧ later = single rest ∧
      ∀ rest, ∃ shown, (single (front ++ rest)).run visibleStep () = .ok (first, shown) ∧
        shown.next = .ok (second, single rest) := by
  obtain ⟨front, _, rfl, filled, rfl, finds⟩ := Input.exists_takes_run found
  obtain ⟨more, rest, rfl, filled', rfl, finds'⟩ := Input.exists_takes_next marked
  refine ⟨front ++ more, rest, (List.append_assoc ..).symm, ?_, rfl, fun rest => ?_⟩
  · rw [List.length_append]
    exact Nat.add_le_add filled filled'
  · rw [List.append_assoc]
    exact ⟨_, finds _, finds' rest⟩

theorem exists_takes_passage {σ β : Type} {step : σ → Char → Except Error (σ ⊕ β)} {state : σ}
    {result : β} {first second : Char} {shown marked later : Input}
    (found : (single bs).run visibleStep () = .ok (first, shown))
    (mark : shown.next = .ok (second, marked)) (reads : marked.run step state = .ok (result, later)) :
    ∃ front rest, bs = front ++ rest ∧ 2 ≤ front.length ∧ later = single rest ∧
      ∀ rest, ∃ shown marked, (single (front ++ rest)).run visibleStep () = .ok (first, shown) ∧
        shown.next = .ok (second, marked) ∧ marked.run step state = .ok (result, single rest) := by
  obtain ⟨front, _, rfl, long, rfl, finds⟩ := exists_takes_markup found mark
  obtain ⟨text, rest, rfl, -, rfl, readsText⟩ := Input.exists_takes_run reads
  refine ⟨front ++ text, rest, (List.append_assoc ..).symm, ?_, rfl, fun more => ?_⟩
  · rw [List.length_append]
    exact Nat.le_add_right_of_le long
  · obtain ⟨shown, found, mark⟩ := finds (text ++ more)
    rw [List.append_assoc]
    exact ⟨shown, _, found, mark, readsText more⟩

/-- A step takes bytes from the front of the document, whatever comes after them. -/
theorem Move.exists_front (move : s.Move event next) (whole : s.input = single bs) :
    ∃ front rest, bs = front ++ rest ∧ leastRead event ≤ front.length ∧ next.input = single rest ∧
      ∀ more, GoesOnAlike event next.inTag rest more →
        (s.before (front ++ more)).Move (followedBy more.length event) (next.before more) := by
  -- Every reader of a step takes its piece from the front of what the one before it has left.
  cases move with
  | @assignment _ _ _ _ _ _ _ _ _ b quote found reads opens value =>
    cases whole
    obtain ⟨first, _, rfl, filled, rfl, findsFirst⟩ := Input.exists_takes_run found
    obtain ⟨name, _, rfl, rfl, readsName⟩ := Input.exists_takes_readUntil reads
    obtain ⟨equals, _, rfl, -, rfl, opensQuote⟩ := Input.exists_takes_run opens
    obtain ⟨text, rest, rfl, rfl, readsText⟩ := Input.exists_takes_readUntil value
    have parts (rest : List UInt8) : first ++ (name ++ b :: (equals ++ (text ++ [quote]))) ++ rest =
        first ++ (name ++ b :: (equals ++ (text ++ quote :: rest))) := by
      simp
    refine ⟨_, rest, (parts rest).symm, ?_, rfl, fun more _ => ?_⟩
    · rw [List.length_append]
      exact Nat.le_add_right_of_le filled
    · rw [parts]
      exact .assignment (findsFirst _) (readsName _) (opensQuote _) (readsText more)
  | tagEnd found =>
    cases whole
    obtain ⟨front, rest, rfl, filled, rfl, finds⟩ := Input.exists_takes_run found
    exact ⟨front, rest, rfl, filled, rfl, fun more _ => .tagEnd (finds more)⟩
  | selfClosing found =>
    cases whole
    obtain ⟨front, rest, rfl, filled, rfl, finds⟩ := Input.exists_takes_run found
    exact ⟨front, rest, rfl, filled, rfl, fun more _ => .selfClosing (finds more)⟩
  | text found notLess reads =>
    cases whole
    obtain ⟨first, _, rfl, filled, rfl, findsFirst⟩ := Input.exists_takes_run found
    obtain ⟨text, rest, rfl, rfl, readsText⟩ := Input.exists_takes_readUntil reads
    -- The bracket at which the text ends is left for the next step, so it must come again.
    refine ⟨first ++ text, _, (List.append_assoc ..).symm, ?_, rfl, fun more alike => ?_⟩
    · rw [List.length_append]
      exact Nat.le_add_right_of_le filled
    · obtain ⟨more, rfl⟩ := List.head?_eq_some_iff.1 (alike rfl)
      rw [List.append_assoc]
      exact .text (findsFirst _) notLess (readsText more)
  | closing found mark reads =>
    cases whole
    obtain ⟨front, rest, rfl, long, rfl, takes⟩ := exists_takes_passage found mark reads
    refine ⟨front, rest, rfl, Nat.le_of_succ_le long, rfl, fun more _ => ?_⟩
    obtain ⟨shown, marked, found, mark, reads⟩ := takes more
    exact .closing found mark reads
  | comment found mark reads =>
    cases whole
    obtain ⟨front, rest, rfl, long, rfl, takes⟩ := exists_takes_passage found mark reads
    refine ⟨front, rest, rfl, Nat.le_of_succ_le long, rfl, fun more _ => ?_⟩
    obtain ⟨shown, marked, found, mark, reads⟩ := takes more
    exact .comment found mark reads
  | instruction found mark reads =>
    cases whole
    obtain ⟨front, rest, rfl, long, rfl, takes⟩ := exists_takes_passage found mark reads
    refine ⟨front, rest, rfl, Nat.le_of_succ_le long, rfl, fun more _ => ?_⟩
    obtain ⟨shown, marked, found, mark, reads⟩ := takes more
    exact .instruction found mark reads
  | @opening stack _ _ _ _ _ _ b found begins notMark reads =>
    cases whole
    obtain ⟨front, _, rfl, long, rfl, finds⟩ := exists_takes_markup found begins
    obtain ⟨name, rest, rfl, rfl, readsName⟩ := Input.exists_takes_readUntil reads
    have long (more : List UInt8) : 2 ≤ (front ++ more).length := by
      rw [List.length_append]
      exact Nat.le_add_right_of_le long
    -- A slash behind the name is left too, and any other byte there is taken.
    by_cases slash : b = '/'.toUInt8
    · refine ⟨front ++ name, b :: rest, by simp, long _, if_pos slash, fun more alike => ?_⟩
      obtain ⟨more, rfl⟩ := List.head?_eq_some_iff.1 (alike (by rw [slash]; rfl))
      obtain ⟨shown, found, begins⟩ := finds (name ++ b :: more)
      have move : (Scanner.mk false stack _).Move _ _ := .opening found begins notMark (readsName more)
      rw [if_pos slash] at move
      rw [List.append_assoc]
      exact move
    · refine ⟨front ++ (name ++ [b]), rest, by simp, long _, if_neg slash, fun more _ => ?_⟩
      obtain ⟨shown, found, begins⟩ := finds (name ++ b :: more)
      have move : (Scanner.mk false stack _).Move _ _ := .opening found begins notMark (readsName more)
      rw [if_neg slash] at move
      rw [List.append_assoc, List.append_assoc]
      exact move

/-- A step before others that take something goes the same way whatever comes after these. -/
theorem exists_front_of_step (here : s.step = (event, .ok next)) (whole : s.input = single bs) :
    ∃ front rest, bs = front ++ rest ∧ leastRead event ≤ front.length ∧ next.input = single rest ∧
      ∀ taken later more, rest = taken ++ later → 0 < taken.length →
        (s.before (front ++ taken ++ more)).step =
          (followedBy (taken ++ more).length event, .ok (next.before (taken ++ more))) := by
  obtain ⟨front, rest, parts, long, left, again⟩ := (step_eq_ok.1 here).exists_front whole
  refine ⟨front, rest, parts, long, left, fun taken later more taking filled => ?_⟩
  obtain ⟨b, taken, rfl⟩ := List.exists_cons_of_length_pos filled
  rw [step_eq_ok, List.append_assoc]
  exact again _ fun _ => taking ▸ rfl

end Scanner

section Runs

open Input (single)
open Scanner (step_eq_ok exists_front_of_step)

variable {s last : Scanner} {bs : List UInt8} {name : String} {node : Node}
  {entries : List (String × Node)} {left : Nat}

/-- With other bytes after its end, an element is read by the same steps, which find the same. -/
theorem ReadsRest.exists_front (reads : ReadsRest Scanner.step s entries left last)
    (whole : s.input = single bs) :
    ∃ front rest, bs = front ++ rest ∧ 0 < front.length ∧ last.input = single rest ∧
      ∀ more, ∃ entries', ReadsRest Scanner.step (s.before (front ++ more)) entries' more.length
          (last.before more) ∧ EntriesKept entries (.ok left) entries' (.ok more.length) := by
  -- What a step takes is fixed only if something follows, and after all but the last step something does.
  induction reads generalizing bs with
  | pass here _ ih =>
    obtain ⟨first, _, rfl, long, whole, again⟩ := exists_front_of_step here whole
    obtain ⟨later, rest, rfl, filled, ends, goesOn⟩ := ih whole
    refine ⟨first ++ later, rest, (List.append_assoc ..).symm, ?_, ends, fun more => ?_⟩
    · rw [List.length_append]
      exact Nat.add_pos_left long _
    · obtain ⟨entries', reads, kept⟩ := goesOn more
      exact ⟨entries', .pass (again later rest more rfl filled) reads, kept⟩
  | leaf here _ ih =>
    obtain ⟨first, _, rfl, long, whole, again⟩ := exists_front_of_step here whole
    obtain ⟨later, rest, rfl, filled, ends, goesOn⟩ := ih whole
    refine ⟨first ++ later, rest, (List.append_assoc ..).symm, ?_, ends, fun more => ?_⟩
    · rw [List.length_append]
      exact Nat.add_pos_left long _
    · obtain ⟨entries', reads, kept⟩ := goesOn more
      exact ⟨_, .leaf (again later rest more rfl filled) reads, .leaf _ (.refl _) kept⟩
  | element here _ _ inner ih =>
    obtain ⟨first, _, rfl, long, whole, again⟩ := exists_front_of_step here whole
    obtain ⟨inside, _, rfl, filled, whole, goesIn⟩ := inner whole
    obtain ⟨later, rest, rfl, -, ends, goesOn⟩ := ih whole
    refine ⟨first ++ inside ++ later, rest, by simp, ?_, ends, fun more => ?_⟩
    · rw [List.length_append, List.length_append]
      exact Nat.add_pos_left (Nat.add_pos_right _ filled) _
    · obtain ⟨contents, within, keptInside⟩ := goesIn (later ++ more)
      obtain ⟨entries', reads, kept⟩ := goesOn more
      have step := again inside (later ++ rest) (later ++ more) rfl filled
      rw [List.append_assoc _ later]
      exact ⟨_, .element step within reads, .element _ id keptInside kept⟩
  | @ended _ _ left here =>
    obtain ⟨front, rest, rfl, long, ends, again⟩ := (step_eq_ok.1 here).exists_front whole
    exact ⟨front, rest, rfl, long, ends, fun more =>
      ⟨[], .ended (step_eq_ok.2 (again more nofun)), .ended left more.length⟩⟩

theorem ReadsElement.exists_front (reads : ReadsElement Scanner.step s name node last)
    (whole : s.input = single bs) :
    ∃ front rest, bs = front ++ rest ∧ 3 ≤ front.length ∧ last.input = single rest ∧
      ∀ more, ∃ node', ReadsElement Scanner.step (s.before (front ++ more)) name node' (last.before more) ∧
        node.KeptBy node' := by
  induction reads generalizing bs with
  | pass here _ ih =>
    obtain ⟨first, _, rfl, -, whole, again⟩ := exists_front_of_step here whole
    obtain ⟨later, rest, rfl, long, ends, goesOn⟩ := ih whole
    refine ⟨first ++ later, rest, (List.append_assoc ..).symm, ?_, ends, fun more => ?_⟩
    · rw [List.length_append]
      exact Nat.le_add_left_of_le long
    · obtain ⟨node', reads, kept⟩ := goesOn more
      exact ⟨node', .pass (again later rest more rfl (by omega)) reads, kept⟩
  | element here inside =>
    obtain ⟨first, _, rfl, long, whole, again⟩ := exists_front_of_step here whole
    obtain ⟨later, rest, rfl, filled, ends, goesOn⟩ := inside.exists_front whole
    refine ⟨first ++ later, rest, (List.append_assoc ..).symm, ?_, ends, fun more => ?_⟩
    · rw [List.length_append]
      exact Nat.add_le_add long filled
    · obtain ⟨entries', reads, kept⟩ := goesOn more
      exact ⟨_, .element (again later rest more rfl filled) reads, .element id kept⟩

end Runs

namespace Input

section Mark

variable {front more : List UInt8}

theorem mark_of_long (long : 3 ≤ front.length) (starts : byteOrderMark <+: front ++ more) :
    byteOrderMark <+: front :=
  List.prefix_of_prefix_length_le starts (List.prefix_append ..) long

theorem mark_of_less (starts : byteOrderMark <+: front ++ '<'.toUInt8 :: more) :
    byteOrderMark <+: front := by
  match front with
  | [] => exact absurd (List.cons_prefix_cons.1 starts).1 (by decide)
  | [_] => exact absurd (List.cons_prefix_cons.1 (List.cons_prefix_cons.1 starts).2).1 (by decide)
  | [_, _] =>
    have second := (List.cons_prefix_cons.1 (List.cons_prefix_cons.1 starts).2).2
    exact absurd (List.cons_prefix_cons.1 second).1 (by decide)
  | _ :: _ :: _ :: _ => exact mark_of_long (by simp) starts

theorem exists_mark (bs : List UInt8) :
    ∃ mark body, bs = mark ++ body ∧ ofBytes bs none = single body ∧
      ∀ front rest more, body = front ++ rest →
        (byteOrderMark <+: front ++ more → byteOrderMark <+: front) →
        ofBytes (mark ++ (front ++ more)) none = single (front ++ more) := by
  have text (bs : List UInt8) : ofBytes bs none =
      single (if byteOrderMark.isPrefixOf bs then bs.drop 3 else bs) := by
    simp only [ofBytes, ofBlocks, unmarked, single, List.flatten_singleton]
  have marked (body : List UInt8) : ofBytes (byteOrderMark ++ body) none = single body := by
    rw [text, if_pos (List.isPrefixOf_iff_prefix.2 (List.prefix_append ..))]
    rfl
  by_cases starts : byteOrderMark <+: bs
  · obtain ⟨body, rfl⟩ := starts
    exact ⟨byteOrderMark, body, rfl, marked body, fun front rest more _ _ => marked _⟩
  · refine ⟨[], bs, rfl, ?_, fun front rest more parts inFront => ?_⟩
    · rw [text, if_neg fun start => starts (List.isPrefixOf_iff_prefix.1 start)]
    · rw [List.nil_append, text, if_neg fun start => starts ?_]
      exact parts ▸ (inFront (List.isPrefixOf_iff_prefix.1 start)).trans (List.prefix_append ..)

end Mark

end Input

end VulkanBindings.Xml
