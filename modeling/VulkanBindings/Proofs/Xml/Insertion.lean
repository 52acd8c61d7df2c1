import VulkanBindings.Proofs.Registry.Extent
import VulkanBindings.Proofs.Xml.Remarks

/-! A remark that is put between the entries of a document changes nothing of what is read of it. -/

set_option autoImplicit false

namespace VulkanBindings.Xml

open Text (isBlank)
open Text.Utf8 (bytes stopsAt)
open Input (single)
open Scanner (followedBy step_eq_ok less_ascii meant)

/-- The second scanner does what the first one does, but that somewhere it passes over something which
the first one does not have before it. -/
inductive Scanner.Lags : Scanner → Scanner → Prop
  | same (s : Scanner) : Lags s s
  | pass {s s' later : Scanner} (here : s'.step = (none, .ok later))
    (goesOn : ∀ event next, s.step = (event, .ok next) → later.step = (event, .ok next)) : Lags s s'
  | ahead {s s' next next' : Scanner} {event : Option Event} (left : Nat)
    (here : s.step = (event, .ok next)) (here' : s'.step = (followedBy left event, .ok next'))
    (further : Lags next next') : Lags s s'

namespace Scanner.Lags

variable {s s' next last : Scanner} {event : Option Event}

theorem exists_followedBy_eq (event : Option Event) : ∃ left, followedBy left event = event := by
  obtain _ | _ | _ | left := event
  exacts [⟨0, rfl⟩, ⟨0, rfl⟩, ⟨0, rfl⟩, ⟨left, rfl⟩]

/-- What the first scanner finds in a step, the second one finds, maybe after it has passed over
something. -/
theorem step (lags : Lags s s') (here : s.step = (event, .ok next)) : ∃ later left next',
    (s' = later ∨ s'.step = (none, .ok later)) ∧ later.step = (followedBy left event, .ok next') ∧
      Lags next next' := by
  obtain ⟨left, same⟩ := exists_followedBy_eq event
  cases lags with
  | same => exact ⟨s, left, next, .inl rfl, same.symm ▸ here, .same next⟩
  | pass passes goesOn => exact ⟨_, left, next, .inr passes, same.symm ▸ goesOn _ _ here, .same next⟩
  | ahead _ here₁ here' further =>
    rw [here] at here₁
    cases here₁
    exact ⟨s', _, _, .inl rfl, here', further⟩

theorem readsRest_of_passes {later : Scanner} {entries : List (String × Node)} {left : Nat}
    (passes : s = later ∨ s.step = (none, .ok later))
    (reads : ReadsRest Scanner.step later entries left last) :
    ReadsRest Scanner.step s entries left last := by
  obtain rfl | passes := passes
  · exact reads
  · exact .pass passes reads

theorem readsRest {entries : List (String × Node)} {left : Nat}
    (reads : ReadsRest Scanner.step s entries left last) (lags : Lags s s') :
    ∃ entries' left' last', ReadsRest Scanner.step s' entries' left' last' ∧ Lags last last' ∧
      EntriesKept entries (.ok left) entries' (.ok left') := by
  induction reads generalizing s' with
  | pass here _ ih =>
    obtain ⟨later, left', next', passes, here', further⟩ := lags.step here
    obtain ⟨entries', left', last', reads, lags, kept⟩ := ih further
    exact ⟨_, _, _, readsRest_of_passes passes (.pass here' reads), lags, kept⟩
  | leaf here _ ih =>
    obtain ⟨later, left', next', passes, here', further⟩ := lags.step here
    obtain ⟨entries', left', last', reads, lags, kept⟩ := ih further
    exact ⟨_, _, _, readsRest_of_passes passes (.leaf here' reads), lags, .leaf _ (.refl _) kept⟩
  | element here _ _ inner ih =>
    obtain ⟨later, left', next', passes, here', further⟩ := lags.step here
    obtain ⟨contents, innerLeft, after, inside, between, keptInside⟩ := inner further
    obtain ⟨entries', left', last', reads, lags, kept⟩ := ih between
    exact ⟨_, _, _, readsRest_of_passes passes (.element here' inside reads), lags,
      .element _ id keptInside kept⟩
  | ended here =>
    obtain ⟨later, left', next', passes, here', further⟩ := lags.step here
    exact ⟨_, _, _, readsRest_of_passes passes (.ended here'), further, .ended _ _⟩

theorem readsElement_of_passes {later : Scanner} {name : String} {node : Node}
    (passes : s = later ∨ s.step = (none, .ok later))
    (reads : ReadsElement Scanner.step later name node last) :
    ReadsElement Scanner.step s name node last := by
  obtain rfl | passes := passes
  · exact reads
  · exact .pass passes reads

theorem readsElement {name : String} {node : Node} (reads : ReadsElement Scanner.step s name node last)
    (lags : Lags s s') :
    ∃ node' last', ReadsElement Scanner.step s' name node' last' ∧ node.KeptBy node' := by
  induction reads generalizing s' with
  | pass here _ ih =>
    obtain ⟨later, left', next', passes, here', further⟩ := lags.step here
    obtain ⟨node', last', reads, kept⟩ := ih further
    exact ⟨_, _, readsElement_of_passes passes (.pass here' reads), kept⟩
  | element here inside =>
    obtain ⟨later, left', next', passes, here', further⟩ := lags.step here
    obtain ⟨entries', left', last', reads, -, kept⟩ := readsRest inside further
    exact ⟨_, _, readsElement_of_passes passes (.element here' reads), .element id kept⟩

end Scanner.Lags

section Gaps

variable {s next last : Scanner} {event : Option Event} {bs rest : List UInt8}

theorem Input.stop_of_readUntil {stop : UInt8 → Bool} {text : List Char} {b : UInt8} {later : Input}
    (read : (single bs).readUntil stop = .ok (text, b, later)) : stop b = true := by
  obtain ⟨⟨_, _, blocks⟩, found, same⟩ := exists_of_bind_eq_ok read
  have stops := List.head?_dropWhile_not (!stop ·) bs
  rw [single, textUntil_singleton] at found
  cases same
  split at found
  · cases found
  · next dropped =>
    cases found
    simpa [dropped] using stops
  · cases found

theorem Scanner.Move.less_of_text {name : String} {value : Leaf} {bs rest : List UInt8}
    (move : s.Move (some (.leaf name value)) next) (outside : next.inTag = false)
    (whole : s.input = single bs) (left : next.input = single rest) :
    rest.head? = some '<'.toUInt8 := by
  cases move with
  | assignment => cases outside
  | text found notLess reads =>
    cases whole
    obtain ⟨_, _, -, -, rfl, -⟩ := Input.exists_takes_run found
    have stops := Input.stop_of_readUntil reads
    obtain ⟨_, _, -, rfl, -⟩ := Input.exists_takes_readUntil reads
    cases left
    simpa using stops

theorem Scanner.leastRead_pos : 0 < leastRead event := by
  unfold leastRead
  split <;> decide

section Places

variable {R : Scanner → Scanner → Prop}
  (ahead : ∀ {s s' next next' : Scanner} {event : Option Event} (left : Nat), s.step = (event, .ok next) →
    s'.step = (followedBy left event, .ok next') → R next next' → R s s')
  {events : List Event} {place : Scanner}

include ahead

/-- Scanners that go on in a certain way from some place on do so from the start, if they come to that place
outside of tags. The other one comes there too. -/
theorem Scanner.Reads.exists_related {z z' : List UInt8} (reads : Scanner.Reads s events place)
    (whole : s.input = single bs) (outside : place.inTag = false) (here : place.input = single z)
    (less : z.head? = some '<'.toUInt8 → z'.head? = some '<'.toUInt8) (related : R place (place.before z')) :
    ∃ front, bs = front ++ z ∧ (front = [] → s = place) ∧ R s (s.before (front ++ z')) ∧
      ∃ events', Scanner.Reads (s.before (front ++ z')) events' (place.before z') := by
  induction reads generalizing bs with
  | refl s =>
    obtain rfl : bs = z := by
      have same := whole.symm.trans here
      cases same
      rfl
    exact ⟨[], rfl, fun _ => rfl, related, [], .refl _⟩
  | @step s next _ event _ move _ _ ih =>
    obtain ⟨front, rest, rfl, long, left, again⟩ := (step_eq_ok.1 move).exists_front whole
    obtain ⟨more, rfl, there, further, events', comes⟩ := ih left outside here related
    have filled : front ≠ [] := List.length_pos_iff.1 (leastRead_pos.trans_le long)
    have alike : GoesOnAlike event next.inTag (more ++ z) (more ++ z') := by
      intro stops
      cases more with
      | cons b more => rfl
      | nil =>
        -- The step ends where the texts part. It stops before a delimiter only if that was a text.
        obtain rfl := there rfl
        rw [outside] at stops
        obtain _ | ⟨name, value⟩ | _ | _ := event
        · cases stops
        · have bracket := (step_eq_ok.1 move).less_of_text outside whole left
          exact (less bracket).trans bracket.symm
        · cases stops
        · cases stops
    have same := again (more ++ z') alike
    refine ⟨front ++ more, (List.append_assoc ..).symm, fun none => ?_, ?_⟩
    · exact absurd (List.append_eq_nil_iff.1 none).1 filled
    · rw [List.append_assoc]
      exact ⟨ahead _ move (step_eq_ok.2 same) further, _, .step (step_eq_ok.2 same) same.shorter comes⟩

theorem Scanner.Reads.of_documents {before after after' y : List UInt8}
    (reads : Scanner.Reads (.start (.ofBytes (before ++ after) none)) events place)
    (outside : place.inTag = false) (here : place.input = single (y ++ after))
    (less : (y ++ after).head? = some '<'.toUInt8 → (y ++ after').head? = some '<'.toUInt8)
    (mark : ∀ front, Input.byteOrderMark <+: front ++ y ++ after' → Input.byteOrderMark <+: front ++ y)
    (related : R place (place.before (y ++ after'))) :
    R (.start (.ofBytes (before ++ after) none)) (.start (.ofBytes (before ++ after') none)) ∧
      ∃ events', Scanner.Reads (.start (.ofBytes (before ++ after') none)) events'
        (place.before (y ++ after')) := by
  obtain ⟨first, body, parts, whole, again⟩ := Input.exists_mark (before ++ after)
  obtain ⟨front, rfl, -, goesOn, comes⟩ := reads.exists_related ahead whole outside here less related
  have other : Input.ofBytes (before ++ after') none = single (front ++ (y ++ after')) := by
    rw [← List.append_assoc, ← List.append_assoc] at parts
    have same := again (front ++ y) after after' (List.append_assoc ..).symm (mark front)
    rw [List.append_cancel_right parts]
    simpa using same
  rw [other]
  exact ⟨goesOn, comes⟩

end Places

theorem Scanner.step_append {spaces : List Char} (blank : ∀ c ∈ spaces, isBlank c) (stack : List String)
    (rest : List UInt8) :
    Scanner.step ⟨false, stack, single (bytes spaces ++ rest)⟩ =
      Scanner.step ⟨false, stack, single rest⟩ := by
  rw [Scanner.step_eq, Scanner.step_eq]
  simp only [Input.run_visible_append blank, Bool.false_eq_true, if_false]
  rfl

theorem Scanner.step_text {lead text : List Char} {first : Char} (stack : List String)
    (blank : ∀ c ∈ lead, isBlank c) (visible : isBlank first = false) (notLess : first ≠ '<')
    (none : '<' ∉ text) (rest : List UInt8) :
    Scanner.step ⟨false, stack, single (bytes (lead ++ first :: text) ++ '<'.toUInt8 :: rest)⟩ =
      (some (.leaf textName (.body (.ok (meant (first :: text))))),
        .ok ⟨false, stack, single ('<'.toUInt8 :: rest)⟩) := by
  have parts : bytes (lead ++ first :: text) = bytes (lead ++ [first]) ++ bytes text := by
    rw [← Text.Utf8.bytes_append, List.append_assoc]
    rfl
  have found := Input.takes_run (Characters.run_visible [] blank visible)
  have goesOn : ∀ b ∈ bytes text, (!decide (b = '<'.toUInt8)) = true := by
    intro b mem
    obtain ⟨c, isChar, mem⟩ := List.mem_flatMap.1 mem
    have other : stopsAt (· = '<'.toUInt8) c = false := by
      rw [stopsAt_eq (by decide)]
      simpa using fun same : c = '<' => none (same ▸ isChar)
    simpa using Input.not_stop_of_mem less_ascii other mem
  rw [step_eq_ok, parts, List.append_assoc]
  exact .text (found _) notLess (Input.readUntil_single goesOn (by simp) (Text.Utf8.decode_eq_ok.2 rfl) rest)

end Gaps

/-- Places in a document where a remark may be put: wherever the scanner comes to outside of tags, with
the white space after that, and in the white space behind a text. -/
inductive IsGap (before after : List UInt8) : Prop
  | between {events : List Event} {s : Scanner} {spaces : List Char}
    (reads : Scanner.Reads (.start (.ofBytes (before ++ after) none)) events s) (outside : s.inTag = false)
    (blank : ∀ c ∈ spaces, isBlank c) (here : s.input = single (bytes spaces ++ after))
  | afterText {events : List Event} {s : Scanner} {lead text spaces : List Char} {first : Char}
    {rest : List UInt8} (reads : Scanner.Reads (.start (.ofBytes (before ++ after) none)) events s)
    (outside : s.inTag = false) (blank : ∀ c ∈ lead, isBlank c) (visible : isBlank first = false)
    (notLess : first ≠ '<') (none : '<' ∉ text)
    (here : s.input = single (bytes (lead ++ first :: text) ++ after))
    (blanks : ∀ c ∈ spaces, isBlank c) (ends : after = bytes spaces ++ '<'.toUInt8 :: rest)

theorem meant_append_blank {first : Char} {text spaces : List Char} (visible : isBlank first = false)
    (blank : ∀ c ∈ spaces, isBlank c) : meant (first :: (text ++ spaces)) = meant (first :: text) := by
  have shown : ¬isBlank first = true := by simp [visible]
  rw [meant, meant, Text.trimChars, Text.trimChars, List.dropWhile_cons_of_neg shown,
    List.dropWhile_cons_of_neg shown, ← List.cons_append, trimEnd_append blank]

variable {before after : List UInt8} {remark : Remark}

theorem IsGap.exists_lags (gap : IsGap before after) (wellFormed : remark.IsWellFormed)
    (noticed : remark.EndsNoticed) :
    ∃ events s y, Scanner.Reads (.start (.ofBytes (before ++ after) none)) events s ∧ s.inTag = false ∧
      s.input = single (y ++ after) ∧ s.Lags (s.before (y ++ (bytes remark.written ++ after))) := by
  cases gap with
  | @between events s spaces reads outside blank here =>
    refine ⟨events, s, bytes spaces, reads, outside, here, ?_⟩
    obtain ⟨_, stack, _⟩ := s
    cases outside
    cases here
    refine .pass (remark.step wellFormed noticed stack blank after) fun event next taken => ?_
    rwa [← Scanner.step_append blank]
  | @afterText events s lead text spaces first rest reads outside blank visible notLess none here blanks
      ends =>
    refine ⟨events, s, _, reads, outside, here, ?_⟩
    obtain ⟨_, stack, _⟩ := s
    cases outside
    cases here
    subst ends
    have apart : '<' ∉ text ++ spaces := by
      have notBlank : '<' ∉ spaces := fun mem => absurd (blanks _ mem) (by decide)
      simp [none, notBlank]
    have short := Scanner.step_text stack blank visible notLess apart rest
    rw [meant_append_blank visible blanks, ← List.cons_append, ← List.append_assoc,
      Text.Utf8.bytes_append, List.append_assoc] at short
    obtain ⟨tail, begins⟩ := remark.exists_less
    have long := Scanner.step_text stack blank visible notLess none
      (tail ++ (bytes spaces ++ '<'.toUInt8 :: rest))
    rw [← List.cons_append, ← begins] at long
    have passes := remark.step wellFormed noticed stack (List.forall_mem_nil _)
      (bytes spaces ++ '<'.toUInt8 :: rest)
    -- The text now ends at the bracket of the remark, without the blanks behind it, and means the same.
    exact .ahead 0 short long
      (.pass passes fun event next taken => (Scanner.step_append blanks ..).trans taken)

theorem TakesRoot.insert {α : Type} {read : Content → Except Error α} {a : α} (takes : TakesRoot read)
    (gap : IsGap before after) (wellFormed : remark.IsWellFormed) (noticed : remark.EndsNoticed)
    (found : read (received (before ++ after) none) = .ok a) :
    read (received (before ++ (bytes remark.written ++ after)) none) = .ok a := by
  obtain ⟨name, node, last, root, reads⟩ := takes.exists_readsElement found
  obtain ⟨events, s, y, comes, outside, here, lags⟩ := gap.exists_lags wellFormed noticed
  obtain ⟨tail, begins⟩ := remark.exists_less
  have less : (y ++ after).head? = some '<'.toUInt8 →
      (y ++ (bytes remark.written ++ after)).head? = some '<'.toUInt8 := by
    cases y with
    | nil => exact fun _ => begins ▸ rfl
    | cons => exact id
  have mark (front : List UInt8)
      (starts : Input.byteOrderMark <+: front ++ y ++ (bytes remark.written ++ after)) :
      Input.byteOrderMark <+: front ++ y := by
    rw [begins] at starts
    exact Input.mark_of_less starts
  obtain ⟨behind, -⟩ := comes.of_documents .ahead outside here less mark lags
  obtain ⟨node', last', reads', kept⟩ := behind.readsElement reads
  exact (takes.kept root (Content.root_of_readsElement reads') kept a found).2

/-- Remarks between the entries of a document, or before its root, change nothing of what is read, if
their ends are noticed. -/
theorem reading_passes_over {value : Value} (gap : IsGap before after) (wellFormed : remark.IsWellFormed)
    (noticed : remark.EndsNoticed)
    (found : Shape.any.readDocument (received (before ++ after) none) = .ok value) :
    Shape.any.readDocument (received (before ++ (bytes remark.written ++ after)) none) = .ok value :=
  Shape.any_takesRoot.insert gap wellFormed noticed found

def opened : List UInt8 := Text.Utf8.encode "<a>"

def remaining : List UInt8 := Text.Utf8.encode "<b/></a>"

theorem opened_gap : IsGap opened remaining := by
  have reads : Scanner.Reads (.start (.ofBytes (opened ++ remaining) none)) _
      ⟨false, ["a"], single remaining⟩ := .step rfl (by decide) (.refl _)
  have here : single remaining = single (bytes [] ++ remaining) := rfl
  exact .between reads rfl (List.forall_mem_nil _) here

def told : List UInt8 := Text.Utf8.encode "<a>x "

def ending : List UInt8 := Text.Utf8.encode " </a>"

theorem told_gap : IsGap told ending := by
  have reads : Scanner.Reads (.start (.ofBytes (told ++ ending) none)) _
      ⟨false, ["a"], single (bytes ['x', ' '] ++ ending)⟩ := .step rfl (by decide) (.refl _)
  have visible : isBlank 'x' = false := rfl
  have ends : ending = bytes [' '] ++ '<'.toUInt8 :: Text.Utf8.encode "/a>" := rfl
  exact .afterText reads rfl (List.forall_mem_nil _) visible (by decide) (by decide) rfl
    (List.forall_mem_singleton.2 rfl) ends

theorem remarks_passed_over :
    (IsGap opened remaining ∧ (Remark.comment ['-', 'b']).IsWellFormed ∧
      (Remark.comment ['-', 'b']).EndsNoticed ∧
      Shape.any.readDocument (received (opened ++ remaining) none) =
        .ok (.tree (.element [("b", .element [])])) ∧
      Shape.any.readDocument
          (received (opened ++ (bytes (Remark.comment ['-', 'b']).written ++ remaining)) none) =
        .ok (.tree (.element [("b", .element [])]))) ∧
    IsGap told ending ∧ (Remark.instruction ['?', '?']).IsWellFormed ∧
      (Remark.instruction ['?', '?']).EndsNoticed ∧
      Shape.any.readDocument (received (told ++ ending) none) =
        .ok (.tree (.element [(textName, .text "x")])) ∧
      Shape.any.readDocument
          (received (told ++ (bytes (Remark.instruction ['?', '?']).written ++ ending)) none) =
        .ok (.tree (.element [(textName, .text "x")])) :=
  ⟨⟨opened_gap, by decide, by decide, rfl, reading_passes_over opened_gap (by decide) (by decide) rfl⟩,
    told_gap, by decide, by decide, rfl, reading_passes_over told_gap (by decide) (by decide) rfl⟩

-- The ends of an empty comment and of an odd question mark are read over, and a bracket ends a comment
-- at once.
theorem remarks_swallow :
    IsGap opened remaining ∧
    Shape.any.readDocument (received (opened ++ remaining) none) =
      .ok (.tree (.element [("b", .element [])])) ∧
    ((Remark.comment []).IsWellFormed ∧
      Shape.any.readDocument (received (opened ++ (bytes (Remark.comment []).written ++ remaining)) none) =
        .error .endOfDocument) ∧
    ((Remark.comment ['>']).IsWellFormed ∧
      Shape.any.readDocument
          (received (opened ++ (bytes (Remark.comment ['>']).written ++ remaining)) none) =
        .ok (.tree (.element [(textName, .text "-->"), ("b", .element [])]))) ∧
    (Remark.instruction ['a', '?']).IsWellFormed ∧
      Shape.any.readDocument
          (received (opened ++ (bytes (Remark.instruction ['a', '?']).written ++ remaining)) none) =
        .error .endOfDocument :=
  ⟨opened_gap, rfl, ⟨by decide, rfl⟩, ⟨by decide, rfl⟩, by decide, rfl⟩

end VulkanBindings.Xml
