import VulkanBindings.Proofs.Registry.Reordered

/-! Entries that are unknown to the reader of their element. A registry that holds more than what is known
of it is read as the same. -/

set_option autoImplicit false

namespace VulkanBindings.Registry

open Text (isBlank)
open Text.Utf8 (bytes)
open Xml (Node Ending Scanner Event ReadsRest received Row IsName IsWord EndsName Attribute Contents
  Spaces textName)
open Xml.Scanner (meant)
open Xml.Input (single)

/-- Places in an element, for which these are the names of what is open there, where a child may be put:
wherever the scanner comes to outside of tags, with the white space after that, and in the white space behind
a text. -/
inductive IsGapOf (before after : List UInt8) : List String → Prop
  | between {events : List Event} {s : Scanner} {spaces : List Char}
    (reads : Scanner.Reads (.start (.ofBytes (before ++ after) none)) events s) (outside : s.inTag = false)
    (blank : ∀ c ∈ spaces, isBlank c) (here : s.input = single (bytes spaces ++ after)) :
    IsGapOf before after s.stack
  | afterText {events : List Event} {s : Scanner} {lead text spaces : List Char} {first : Char}
    {rest : List UInt8} (reads : Scanner.Reads (.start (.ofBytes (before ++ after) none)) events s)
    (outside : s.inTag = false) (blank : ∀ c ∈ lead, isBlank c) (visible : isBlank first = false)
    (notLess : first ≠ '<') (none : '<' ∉ text)
    (here : s.input = single (bytes (lead ++ first :: text) ++ after))
    (blanks : ∀ c ∈ spaces, isBlank c) (ends : after = bytes spaces ++ '<'.toUInt8 :: rest) :
    IsGapOf before after s.stack

/-- The second document is the first one with an attribute in a tag or a child between the entries of an
element, if the reader of that element does not know its name. -/
inductive IsAddition : List UInt8 → List UInt8 → Prop
  | inTag {before after : List UInt8} {stack : List String} {k : Kind} {attributes : List Attribute}
    {row gap : List Char} {a : Attribute} (lead left right trail : List Char)
    (tagged : IsTagged before (bytes (row ++ gap) ++ after) stack) (isKind : kindOf stack = some k)
    (isRow : Row attributes row) (wellFormed : a.IsWellFormed) (double : a.quote = '"')
    (unknown : a.name ∉ k.known) (spaces : Spaces gap ∧ Spaces lead ∧ Spaces trail)
    (separate : gap ++ lead ≠ []) (equals : Spaces left ∧ Spaces right) :
    IsAddition (before ++ (bytes (row ++ gap) ++ after))
      (before ++ (bytes (row ++ gap) ++ (bytes (lead ++ (a.written left right ++ trail)) ++ after)))
  | child {before after : List UInt8} {stack : List String} {k : Kind} {name : String} {child : List Char}
    (gap : IsGapOf before after stack) (isKind : kindOf stack = some k) (contents : Contents [name] child)
    (begins : child.head? = some '<') (isName : IsName name.toList) (unknown : name ∉ k.known) :
    IsAddition (before ++ after) (before ++ (bytes child ++ after))

section Places

variable {first : Bool} {kind : Option Kind} {entries entries' : List (String × Node)}
  {ending ending' : Ending} {before after : List UInt8} {stack : List String}

theorem Unnoticed.behind_attributes (attributes : List Attribute)
    (unnoticed : Unnoticed True false kind entries ending entries' ending') :
    Unnoticed True false kind (attributes.map Attribute.entry ++ entries) ending
      (attributes.map Attribute.entry ++ entries') ending' := by
  induction attributes with
  | nil => exact unnoticed
  | cons a attributes ih => exact .leaf _ _ ih

theorem IsTagged.add {k : Kind} {attributes : List Attribute} {row gap lead left right trail : List Char}
    {a : Attribute} (tagged : IsTagged before (bytes (row ++ gap) ++ after) stack)
    (isKind : kindOf stack = some k) (isRow : Row attributes row) (wellFormed : a.IsWellFormed)
    (double : a.quote = '"') (unknown : a.name ∉ k.known) (spaces : Spaces gap ∧ Spaces lead ∧ Spaces trail)
    (separate : gap ++ lead ≠ []) (equals : Spaces left ∧ Spaces right) :
    Departs True false (.start (.ofBytes (before ++ (bytes (row ++ gap) ++ after)) none))
      (.start (.ofBytes
        (before ++ (bytes (row ++ gap) ++ (bytes (lead ++ (a.written left right ++ trail)) ++ after)))
        none)) := by
  have known : kindOf stack ≠ none := by rw [isKind]; exact nofun
  have parts : bytes (row ++ gap) ++ (bytes (lead ++ (a.written left right ++ trail)) ++ after) =
      bytes row ++ (bytes (gap ++ lead ++ (a.written left right ++ trail)) ++ after) := by
    simp only [← List.append_assoc, ← Text.Utf8.bytes_append]
  rw [parts]
  have both : Spaces (gap ++ lead) := by
    simpa [Spaces, or_imp, forall_and] using ⟨spaces.1, spaces.2.1⟩
  refine (tagged.departs (isRow.endsName fun _ => ?_) (fun none => absurd none known)
    fun entries n last reads => ?_).1
  · obtain ⟨c, rest, same⟩ := List.exists_cons_of_ne_nil separate
    rw [same]
    exact .of_cons (.inl (both c (same ▸ List.mem_cons_self)))
  rw [Text.Utf8.bytes_append, List.append_assoc] at reads
  have allDouble := isRow.double_of_readsRest reads
  obtain ⟨more, rfl, later⟩ := (isRow.readsRest_iff allDouble stack _).1 reads
  have later := later.of_step_eq (Scanner.step_inTag_append stack after spaces.1.isBlank)
  have added := (wellFormed.readsRest_iff double both equals stack after).2
    ⟨more, rfl, later.of_step_eq (Scanner.step_inTag_append stack after spaces.2.2.isBlank).symm⟩
  refine ⟨_, (isRow.readsRest_iff allDouble stack _).2 ⟨_, rfl, added⟩, ?_⟩
  exact (Unnoticed.behind_attributes attributes
    (.added trivial isKind unknown a.entry_isWhole (.same ..))).of_later true

theorem exists_child {k : Kind} {name : String} {child : List Char} (isKind : kindOf stack = some k)
    (contents : Contents [name] child) (isName : IsName name.toList) (unknown : name ∉ k.known)
    {entries : List (String × Node)} {n : Nat} {last : Scanner} (first : Bool)
    (later : ReadsRest Scanner.step ⟨false, stack, single after⟩ entries n last) :
    ∃ entries', ReadsRest Scanner.step ⟨false, stack, single (bytes child ++ after)⟩ entries' n last ∧
      Unnoticed True first (kindOf stack) entries (.ok n) entries' (.ok n) := by
  have noText : textName ∉ [name] := fun mem => ne_textName isName (List.mem_singleton.1 mem).symm
  obtain ⟨front, names, whole, reads⟩ := contents.exists_readsRest stack (fun mem => absurd mem noText) later
  obtain ⟨⟨_, node⟩, rfl, rfl⟩ := List.map_eq_singleton_iff.1 names
  exact ⟨_, reads, .added trivial isKind unknown (whole _ List.mem_cons_self) (.same ..)⟩

theorem IsGapOf.exists_departs {k : Kind} {name : String} {child : List Char}
    (gap : IsGapOf before after stack) (isKind : kindOf stack = some k)
    (contents : Contents [name] child) (begins : child.head? = some '<') (isName : IsName name.toList)
    (unknown : name ∉ k.known) :
    ∃ events s y, Scanner.Reads (.start (.ofBytes (before ++ after) none)) events s ∧ s.inTag = false ∧
      s.input = single (y ++ after) ∧ Departs True false s (s.before (y ++ (bytes child ++ after))) := by
  have inside : stack ≠ [] := by
    rintro rfl
    cases isKind
  have stands {first : Bool} {entries : List (String × Node)} {n : Nat} {last : Scanner}
      (later : ReadsRest Scanner.step ⟨false, stack, single after⟩ entries n last) :=
    exists_child isKind contents isName unknown first later
  cases gap with
  | @between events s spaces reads outside blank here =>
    refine ⟨events, s, bytes spaces, reads, outside, here, ?_⟩
    obtain ⟨_, stack, _⟩ := s
    cases outside
    cases here
    refine .here (fun entries left last rest => ?_) inside
    obtain ⟨entries', reads', unnoticed⟩ := stands (rest.of_step_eq (Scanner.step_append blank stack after))
    exact ⟨entries', reads'.of_step_eq (Scanner.step_append blank stack _).symm, unnoticed⟩
  | @afterText events s lead text spaces first rest reads outside blank visible notLess none here blanks
      ends =>
    refine ⟨events, s, _, reads, outside, here, ?_⟩
    obtain ⟨_, stack, _⟩ := s
    cases outside
    cases here
    subst ends
    have apart : '<' ∉ text ++ spaces := by
      have notBlank : '<' ∉ spaces := fun mem => absurd (blanks _ mem) (by decide)
      simp [none, notBlank]
    have short := Scanner.step_text stack blank visible notLess apart rest
    rw [Xml.meant_append_blank visible blanks, ← List.cons_append, ← List.append_assoc,
      Text.Utf8.bytes_append, List.append_assoc] at short
    obtain ⟨tail, rfl⟩ := List.head?_eq_some_iff.1 begins
    have long := Scanner.step_text stack blank visible notLess none
      (bytes tail ++ (bytes spaces ++ '<'.toUInt8 :: rest))
    -- The text now ends at the bracket of the new element, without the blanks behind it, and means the same.
    refine .ahead short long (.leaf ..) (.here (fun entries left last later => ?_) inside)
    exact stands (later.of_step_eq (Scanner.step_append blanks stack _).symm)

end Places

theorem IsAddition.departs {document document' : List UInt8} (addition : IsAddition document document') :
    Departs True false (.start (.ofBytes document none)) (.start (.ofBytes document' none)) := by
  cases addition with
  | inTag lead left right trail tagged isKind isRow wellFormed double unknown spaces separate equals =>
    exact tagged.add isKind isRow wellFormed double unknown spaces separate equals
  | @child before after stack k name child gap isKind contents begins isName unknown =>
    obtain ⟨events, s, y, reads, outside, here, departs⟩ :=
      gap.exists_departs isKind contents begins isName unknown
    obtain ⟨tail, rfl⟩ := List.head?_eq_some_iff.1 begins
    have less : (y ++ after).head? = some '<'.toUInt8 →
        (y ++ (bytes ('<' :: tail) ++ after)).head? = some '<'.toUInt8 := by
      cases y with
      | nil => exact fun _ => rfl
      | cons => exact id
    have mark (front : List UInt8)
        (starts : Xml.Input.byteOrderMark <+: front ++ y ++ (bytes ('<' :: tail) ++ after)) :
        Xml.Input.byteOrderMark <+: front ++ y :=
      Xml.Input.mark_of_less starts
    exact (reads.of_documents (fun left here here' further => Departs.of_followedBy left here here' further)
      outside here less mark departs).1

/-- A registry stays the same if something is added to it that is unknown to the reader of the element in
which it stands. -/
theorem unknown_passed_over {document document' : List UInt8} {size : Option Nat} {r : Registry}
    (large : ∀ n ∈ size, 4 ≤ n) (found : ofDocument (received document size) = .ok r)
    (given : ∀ root, (received document none).root = .ok root → ChoicesGiven (some .registry) root)
    (addition : IsAddition document document') : Yields document' (some r) := by
  have whole : ofDocument (received document none) = .ok r := by
    cases size with
    | none => exact found
    | some n =>
      obtain same | ⟨fault, failed⟩ := (Xml.reading_bytes_in_blocks document (large n rfl)).2
      · exact same ▸ found
      · cases found.symm.trans failed
  have same := addition.departs.ofDocument_eq (fun _ => given) whole
  have only : (ofDocument (received document' none)).toOption = some r := by rw [same]; rfl
  exact only ▸ yields document'

def typed : List UInt8 := Text.Utf8.encode "<registry><types><type"

def described : List UInt8 := Text.Utf8.encode "><name>A</name> </type></types></registry>"

def entered : List UInt8 := Text.Utf8.encode "<registry><types><type category=\"define\">"

def remaining : List UInt8 := Text.Utf8.encode "<name>A</name> </type></types></registry>"

def category : Attribute := ⟨"category", '"', ['d', 'e', 'f', 'i', 'n', 'e']⟩

def since : Attribute := ⟨"since", '"', ['1']⟩

def categorized : List Char := " category=\"define\"".toList

def note : List Char := "<note since=\"1\">old<!--x--><b/></note>".toList

def defined : Registry := { types := [{ name := "A", category := .define }] }

theorem since_wellFormed : since.IsWellFormed := ⟨IsWord.isName (by decide), by decide, .inl rfl, by decide⟩

theorem since_added : IsAddition (typed ++ (bytes (categorized ++ []) ++ described))
    (typed ++ (bytes (categorized ++ []) ++
      (bytes (['\n'] ++ (since.written [] [] ++ [])) ++ described))) := by
  have reads : Scanner.Reads (.start (.ofBytes (typed ++ (bytes (categorized ++ []) ++ described)) none)) _
      ⟨false, ["types", "registry"],
        single (bytes ([] ++ '<' :: "type".toList) ++ (bytes (categorized ++ []) ++ described))⟩ :=
    .step rfl (by decide) (.step rfl (by decide) (.refl _))
  have word : IsWord "type" := by decide
  have tagged : IsTagged typed (bytes (categorized ++ []) ++ described) ["type", "types", "registry"] :=
    .mk reads rfl (List.forall_mem_nil _) word.isName (.of_cons (.inl (by decide))) rfl
  have wellFormed : category.IsWellFormed := ⟨IsWord.isName (by decide), by decide, .inl rfl, by decide⟩
  have row : Row [category] categorized := .cons [' '] [] [] (by decide) (by decide) wellFormed .nil
  exact .inTag _ [] [] [] tagged rfl row since_wellFormed rfl (by decide) (by decide) (by decide) (by decide)

theorem note_contents : Contents ["note"] note := by
  have outer : IsWord "note" := by decide
  have empty : IsWord "b" := by decide
  have inner : Contents [textName, "b"]
      ("old".toList ++ ((Xml.Remark.comment ['x']).written ++ "<b/>".toList)) :=
    .text _ ⟨'o', by decide, by decide⟩ (by decide) (by rintro _ ⟨⟩; rfl)
      (.remark _ (by decide) (by decide)
        (.selfClosed [] empty.isName .nil (List.forall_mem_nil _) (List.forall_mem_nil _) .nil))
  exact .closed [] [] outer.isName (by decide)
    (.cons [' '] [] [] (by decide) (by decide) since_wellFormed .nil)
    (by decide) inner (by decide) .nil

theorem note_added : IsAddition (entered ++ remaining) (entered ++ (bytes note ++ remaining)) := by
  have reads : Scanner.Reads (.start (.ofBytes (entered ++ remaining) none)) _
      ⟨false, ["type", "types", "registry"], single (bytes [] ++ remaining)⟩ :=
    .step rfl (by decide) (.step rfl (by decide) (.step rfl (by decide) (.step rfl (by decide)
      (.step rfl (by decide) (.refl _)))))
  have gap : IsGapOf entered remaining ["type", "types", "registry"] :=
    .between reads rfl (List.forall_mem_nil _) rfl
  exact .child gap rfl note_contents rfl (IsWord.isName (by decide)) (by decide)

theorem entered_given : ∀ root, (received (entered ++ remaining) none).root = .ok root →
    ChoicesGiven (some .registry) root := by
  intro root found
  have same : (received (entered ++ remaining) none).root = .ok (.element true [("types", .element true
      [("type", .element false [("category", .leaf (.attribute (.ok "define"))),
        ("name", .element true [(textName, .leaf (.body (.ok "A")))] (.ok 27))] (.ok 19))] (.ok 11))]
      (.ok 0)) := rfl
  cases same.symm.trans found
  simp [ChoicesGiven, ChoicesGivenAmong, Kind.child, Kind.choice]

theorem unknown_entries_passed_over :
    (∀ n ∈ (none : Option Nat), 4 ≤ n) ∧ ofDocument (received (entered ++ remaining) none) = .ok defined ∧
      (∀ root, (received (entered ++ remaining) none).root = .ok root → ChoicesGiven (some .registry) root) ∧
      (IsAddition (entered ++ remaining) (entered ++ (bytes note ++ remaining)) ∧
        Yields (entered ++ (bytes note ++ remaining)) (some defined)) ∧
      IsAddition (entered ++ remaining) (typed ++ (bytes (categorized ++ []) ++
          (bytes (['\n'] ++ (since.written [] [] ++ [])) ++ described))) ∧
        Yields (typed ++ (bytes (categorized ++ []) ++
          (bytes (['\n'] ++ (since.written [] [] ++ [])) ++ described))) (some defined) := by
  have found : ofDocument (received (entered ++ remaining) none) = .ok defined := by decide +kernel
  have parts : typed ++ (bytes (categorized ++ []) ++ described) = entered ++ remaining := rfl
  have inTag := parts ▸ since_added
  have large : ∀ n ∈ (none : Option Nat), 4 ≤ n := nofun
  exact ⟨large, found, entered_given,
    ⟨note_added, unknown_passed_over large found entered_given note_added⟩,
    inTag, unknown_passed_over large found entered_given inTag⟩

-- Neither single quotes nor sections of characters are anything that the scanner reads.
theorem entries_not_passed_over :
    "a" ∉ Kind.registry.known ∧
      ofDocument (received (Text.Utf8.encode "<registry></registry>") none) = .ok {} ∧
      ofDocument (received (Text.Utf8.encode "<registry a='1'></registry>") none) =
        .error (.unexpected '\'' "'\"', '=' or whitespace") ∧
      ofDocument (received (Text.Utf8.encode "<registry><a><![CDATA[x]]></a></registry>") none) =
        .error .endOfDocument :=
  ⟨by decide, by decide +kernel, by decide +kernel, by decide +kernel⟩

end VulkanBindings.Registry
