import VulkanBindings.Proofs.Registry.Blocks
import VulkanBindings.Proofs.Registry.Departures
import VulkanBindings.Proofs.Xml.Writer

/-! The order of attributes. Whatever an element is, what is read of a registry does not depend on the order
in which the attributes of that element come. -/

set_option autoImplicit false

namespace VulkanBindings.Registry

open Text (isBlank)
open Text.Utf8 (bytes)
open Xml (Node Content Scanner Event Error ReadsRest received Row IsName IsWord EndsName Attribute Spaces
  textName)
open Xml.Input (single)
open Kind (Shuffled attributeEntry)

/-- Behind the name of a tag, in an element for which these are the names of what is open there. -/
inductive IsTagged (before after : List UInt8) : List String → Prop
  | mk {events : List Event} {s : Scanner} {lead : List Char} {name : String}
    (reads : Scanner.Reads (.start (.ofBytes (before ++ after) none)) events s) (outside : s.inTag = false)
    (blank : ∀ c ∈ lead, isBlank c) (isName : IsName name.toList) (ends : EndsName after)
    (here : s.input = single (bytes (lead ++ '<' :: name.toList) ++ after)) :
    IsTagged before after (name :: s.stack)

section Places

variable {adds : Prop} {before after after' : List UInt8} {stack : List String}

theorem IsTagged.departs (tagged : IsTagged before after stack) (ends' : EndsName after')
    (tags : kindOf stack = none → (after.head? = some '>'.toUInt8 ↔ after'.head? = some '>'.toUInt8))
    (reads : ∀ entries left last, ReadsRest Scanner.step ⟨true, stack, single after⟩ entries left last →
      ∃ entries', ReadsRest Scanner.step ⟨true, stack, single after'⟩ entries' left last ∧
        Unnoticed adds true (kindOf stack) entries (.ok left) entries' (.ok left)) :
    Departs adds false (.start (.ofBytes (before ++ after) none))
        (.start (.ofBytes (before ++ after') none)) ∧
      IsTagged before after' stack := by
  obtain @⟨events, s, lead, name, comes, outside, blank, isName, ends, here⟩ := tagged
  have parts : bytes (lead ++ '<' :: name.toList) = bytes lead ++ '<'.toUInt8 :: bytes name.toList :=
    Text.Utf8.bytes_append ..
  have less : (bytes (lead ++ '<' :: name.toList) ++ after).head? = some '<'.toUInt8 →
      (bytes (lead ++ '<' :: name.toList) ++ after').head? = some '<'.toUInt8 := by
    rw [List.head?_append_of_ne_nil _ (by simp [parts]), List.head?_append_of_ne_nil _ (by simp [parts])]
    exact id
  -- No byte order mark has a bracket in it, so one at the start ends before the tag.
  have mark (front : List UInt8)
      (starts : Xml.Input.byteOrderMark <+: front ++ bytes (lead ++ '<' :: name.toList) ++ after') :
      Xml.Input.byteOrderMark <+: front ++ bytes (lead ++ '<' :: name.toList) := by
    rw [parts, ← List.append_assoc] at starts ⊢
    rw [List.append_assoc _ ('<'.toUInt8 :: bytes name.toList)] at starts
    exact (Xml.Input.mark_of_less starts).trans (List.prefix_append ..)
  have departs : Departs adds false s (s.before (bytes (lead ++ '<' :: name.toList) ++ after')) := by
    obtain ⟨_, stack, _⟩ := s
    cases outside
    cases here
    obtain ⟨next, step, opened, goesOn⟩ := Scanner.exists_step_opened stack blank isName ends
    obtain ⟨next', step', opened', goesOn'⟩ := Scanner.exists_step_opened stack blank isName ends'
    rw [String.ofList_toList] at step step' opened goesOn goesOn'
    refine .ahead step step' (.opened _ fun none => decide_eq_decide.2 (tags none))
      (.here (fun entries left last rest => ?_) ?_)
    · obtain ⟨entries', rest', unnoticed⟩ := reads entries left last ((goesOn ..).1 rest)
      exact ⟨entries', (goesOn' ..).2 rest', opened ▸ unnoticed⟩
    · rw [opened]
      exact List.cons_ne_nil _ _
  obtain ⟨behind, events', comes'⟩ := comes.of_documents (fun left here here' further =>
    Departs.of_followedBy left here here' further) outside here less mark departs
  exact ⟨behind, .mk (s := s.before _) comes' outside blank isName ends' rfl⟩

variable {row row' : List Char} {attributes attributes' : List Attribute}

theorem ne_textName {name : String} (isName : IsName name.toList) : name ≠ textName := by
  rintro rfl
  cases isName with
  | mk start => exact absurd start (by decide)

/-- The attributes of an element come in another order. -/
structure Reordered (kind : Option Kind) (attributes attributes' : List Attribute) : Prop where
  perm : attributes.Perm attributes'
  distinct : (attributes.map Attribute.name).Nodup
  /-- Of two that are read into one place there is one at most. -/
  apart : ∀ k ∈ kind, ∀ names, k.joined = some names →
    ¬(names.1 ∈ attributes.map Attribute.name ∧ names.2 ∈ attributes.map Attribute.name)

theorem Reordered.symm {kind : Option Kind} (reordered : Reordered kind attributes attributes') :
    Reordered kind attributes' attributes := by
  obtain ⟨perm, distinct, apart⟩ := reordered
  have names := perm.map Attribute.name
  refine ⟨perm.symm, names.nodup_iff.1 distinct, fun k isKind pair joined both => ?_⟩
  exact apart k isKind pair joined ⟨names.mem_iff.2 both.1, names.mem_iff.2 both.2⟩

theorem Reordered.shuffled {kind : Option Kind} (reordered : Reordered kind attributes attributes')
    (isRow : Row attributes row) :
    Shuffled kind (attributes.map Attribute.field) (attributes'.map Attribute.field) := by
  have names : (attributes.map Attribute.field).map Prod.fst = attributes.map Attribute.name := by
    rw [List.map_map]
    rfl
  refine ⟨reordered.perm.map _, names ▸ reordered.distinct, ?_, names ▸ reordered.apart⟩
  intro field mem
  obtain ⟨a, isAttribute, rfl⟩ := List.mem_map.1 mem
  exact ne_textName (isRow.wellFormed a isAttribute).isName

theorem IsTagged.reorder (tagged : IsTagged before (bytes row ++ after) stack) (isRow : Row attributes row)
    (isRow' : Row attributes' row') (reordered : Reordered (kindOf stack) attributes attributes') :
    Departs False false (.start (.ofBytes (before ++ (bytes row ++ after)) none))
        (.start (.ofBytes (before ++ (bytes row' ++ after)) none)) ∧
      IsTagged before (bytes row' ++ after) stack := by
  by_cases none : attributes = []
  · obtain rfl : attributes' = [] := (none ▸ reordered.perm).nil_eq.symm
    subst none
    cases isRow
    cases isRow'
    exact ⟨.same _ _, tagged⟩
  have filled : attributes' ≠ [] := fun none' => none (none' ▸ reordered.perm).eq_nil
  refine tagged.departs (isRow'.endsName fun none' => absurd none' filled)
    (fun _ => iff_of_false (isRow.head_ne none _) (isRow'.head_ne filled _)) fun entries left last reads => ?_
  have double := isRow.double_of_readsRest reads
  obtain ⟨more, rfl, later⟩ := (isRow.readsRest_iff double stack after).1 reads
  have double' : ∀ a ∈ attributes', a.quote = '"' := fun a mem => double a (reordered.perm.mem_iff.2 mem)
  refine ⟨_, (isRow'.readsRest_iff double' stack after).2 ⟨more, rfl, later⟩, ?_⟩
  have entries (attributes : List Attribute) : attributes.map Attribute.entry =
      (attributes.map Attribute.field).map attributeEntry := by
    rw [List.map_map]
    rfl
  rw [entries, entries]
  exact .shuffled (reordered.shuffled isRow) more (.ok left)

theorem IsTagged.ofDocument_eq (tagged : IsTagged before (bytes row ++ after) stack)
    (isRow : Row attributes row) (isRow' : Row attributes' row')
    (reordered : Reordered (kindOf stack) attributes attributes') {r : Registry}
    (found : ofDocument (received (before ++ (bytes row ++ after)) none) = .ok r) :
    ofDocument (received (before ++ (bytes row' ++ after)) none) = .ok r :=
  (tagged.reorder isRow isRow' reordered).1.ofDocument_eq False.elim found

/-- What a document is, however it is delivered: a registry, or nothing that can be read as one. In blocks
there may be a fault in the bytes of a text instead. -/
def Yields (document : List UInt8) (r? : Option Registry) : Prop :=
  (ofDocument (received document none)).toOption = r? ∧
    ∀ size, 4 ≤ size → (ofDocument (received document (some size))).toOption = r? ∨
      ∃ fault, ofDocument (received document (some size)) = .error (.invalidText fault)

theorem yields (document : List UInt8) : Yields document (ofDocument (received document none)).toOption :=
  ⟨rfl, fun _ large => (Xml.reading_bytes_in_blocks document large).2.imp_left fun same => by rw [same]⟩

/-- The order of the attributes of an element makes no difference: neither to whether a registry can be read
of the document, nor to which one that is. -/
theorem attributes_in_any_order (tagged : IsTagged before (bytes row ++ after) stack)
    (isRow : Row attributes row) (isRow' : Row attributes' row')
    (reordered : Reordered (kindOf stack) attributes attributes') :
    ∃ r?, Yields (before ++ (bytes row ++ after)) r? ∧ Yields (before ++ (bytes row' ++ after)) r? := by
  have there {r : Registry} := tagged.ofDocument_eq isRow isRow' reordered (r := r)
  have back {r : Registry} :=
    (tagged.reorder isRow isRow' reordered).2.ofDocument_eq isRow' isRow reordered.symm (r := r)
  refine ⟨_, yields _, ?_⟩
  have same : (ofDocument (received (before ++ (bytes row ++ after)) none)).toOption =
      (ofDocument (received (before ++ (bytes row' ++ after)) none)).toOption := by
    cases found : ofDocument (received (before ++ (bytes row ++ after)) none) with
    | ok r => rw [there found]
    | error e =>
      cases found' : ofDocument (received (before ++ (bytes row' ++ after)) none) with
      | ok r => cases found.symm.trans (back found')
      | error e' => rfl
  rw [same]
  exact yields _

end Places

def extension : List UInt8 := Text.Utf8.encode "<registry><extensions><extension"

def closed : List UInt8 := Text.Utf8.encode "/></extensions></registry>"

def named : Attribute := ⟨"name", '"', ['E']⟩

def numbered : Attribute := ⟨"number", '"', ['1']⟩

def requiring : Attribute := ⟨"requires", '"', ['A']⟩

def inOrder : List Char := " name=\"E\" number=\"1\" requires=\"A\"".toList

def otherwise : List Char := "\trequires=\"A\" name = \"E\" number=\"1\"".toList

theorem extension_tagged :
    IsTagged extension (bytes inOrder ++ closed) ["extension", "extensions", "registry"] := by
  have reads : Scanner.Reads (.start (.ofBytes (extension ++ (bytes inOrder ++ closed)) none)) _
      ⟨false, ["extensions", "registry"],
        single (bytes ([] ++ '<' :: "extension".toList) ++ (bytes inOrder ++ closed))⟩ :=
    .step rfl (by decide) (.step rfl (by decide) (.refl _))
  have word : IsWord "extension" := by decide
  exact .mk reads rfl (List.forall_mem_nil _) word.isName (.of_cons (.inl (by decide))) rfl

theorem named_wellFormed : named.IsWellFormed :=
  ⟨IsWord.isName (by decide), by decide, .inl rfl, by decide⟩

theorem numbered_wellFormed : numbered.IsWellFormed :=
  ⟨IsWord.isName (by decide), by decide, .inl rfl, by decide⟩

theorem requiring_wellFormed : requiring.IsWellFormed :=
  ⟨IsWord.isName (by decide), by decide, .inl rfl, by decide⟩

theorem inOrder_row : Row [named, numbered, requiring] inOrder :=
  .cons [' '] [] [] (by decide) (by decide) named_wellFormed
    (.cons [' '] [] [] (by decide) (by decide) numbered_wellFormed
      (.cons [' '] [] [] (by decide) (by decide) requiring_wellFormed .nil))

theorem otherwise_row : Row [requiring, named, numbered] otherwise :=
  .cons ['\t'] [] [] (by decide) (by decide) requiring_wellFormed
    (.cons [' '] [' '] [' '] (by decide) (by decide) named_wellFormed
      (.cons [' '] [] [] (by decide) (by decide) numbered_wellFormed .nil))

theorem requiring_reordered : Reordered (kindOf ["extension", "extensions", "registry"])
    [named, numbered, requiring] [requiring, named, numbered] where
  perm := (List.perm_append_comm : ([named, numbered] ++ [requiring]).Perm ([requiring] ++ [named, numbered]))
  distinct := by decide
  apart := by
    rintro _ ⟨⟩ _ ⟨⟩
    decide

theorem extension_in_any_order :
    IsTagged extension (bytes inOrder ++ closed) ["extension", "extensions", "registry"] ∧
      Row [named, numbered, requiring] inOrder ∧ Row [requiring, named, numbered] otherwise ∧
      Reordered (kindOf ["extension", "extensions", "registry"]) [named, numbered, requiring]
        [requiring, named, numbered] ∧
      (ofDocument (received (extension ++ (bytes inOrder ++ closed)) none)).toOption =
        some { extensions := [{ name := "E", number := 1, depends := some "A" }] } ∧
      ∃ r?, Yields (extension ++ (bytes inOrder ++ closed)) r? ∧
        Yields (extension ++ (bytes otherwise ++ closed)) r? :=
  ⟨extension_tagged, inOrder_row, otherwise_row, requiring_reordered, by decide +kernel,
    attributes_in_any_order extension_tagged inOrder_row otherwise_row requiring_reordered⟩

def marked (inTag : String) : List UInt8 :=
  Text.Utf8.encode s!"<registry><types><type {inTag}/></types></registry>"

def hidden (inTag : String) : List UInt8 :=
  Text.Utf8.encode ("<registry><commands><command><proto><name>f</name>" ++
    s!"<!----><x {inTag}/></proto></command></commands></registry>")

-- A reader takes the space mark for white space, so that both names of the type are the same to it; and it
-- reads over the end of the comment up to what looks like one in an attribute.
theorem attributes_told_apart :
    (ofDocument (received (marked "name=\"A\" \u1680name=\"B\"") none) = .ok { types := [{ name := "B" }] } ∧
      ofDocument (received (marked "\u1680name=\"B\" name=\"A\"") none) =
        .ok { types := [{ name := "A" }] }) ∧
    ofDocument (received (hidden "p=\"1\" q=\"-->\"") none) =
        .ok { commands := [{ proto := { name := "f", raw := "\"/>" } }] } ∧
      ofDocument (received (hidden "q=\"-->\" p=\"1\"") none) =
        .ok { commands := [{ proto := { name := "f", raw := "\" p=\"1\"/>" } }] } :=
  ⟨⟨by decide +kernel, by decide +kernel⟩, by decide +kernel, by decide +kernel⟩

end VulkanBindings.Registry
