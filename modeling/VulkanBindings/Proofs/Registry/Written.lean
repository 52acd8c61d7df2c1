import VulkanBindings.Proofs.Registry.Blocks
import VulkanBindings.Proofs.Xml.Folding

/-! Features and extensions as the elements of a registry document: an attribute for each field that
is there, and a child element for whatever a block requires. They are read back as they were. -/

set_option autoImplicit false

namespace VulkanBindings

open Xml (Node Piece Slot Reads Folds IsWord IsWorded Renders CutBy present delivered entriesOf
  attributeEntries)

section Pieces

def named (tag name : String) : Piece := .element tag (present [("name", some name)]) []

def EnumValue.fields (v : EnumValue) : List (String × Option String) :=
  [("name", some v.name), ("value", v.value), ("bitpos", v.bitPos.map toString), ("alias", v.aliasOf),
    ("api", v.api), ("type", v.typeAttr), ("deprecated", v.deprecated), ("protect", v.protect),
    ("comment", v.comment)]

def RequiredEnum.fields (e : RequiredEnum) : List (String × Option String) :=
  e.element.fields ++ [("extends", e.extends?), ("extnumber", e.extNumber.map toString),
    ("offset", e.offset.map toString), ("dir", e.dir)]

def RequiredEnum.piece (e : RequiredEnum) : Piece := .element "enum" (present e.fields) []

def RequireBlock.fields (b : RequireBlock) : List (String × Option String) :=
  [("api", b.api), ("depends", b.depends), ("comment", b.comment)]

def RequireBlock.piece (b : RequireBlock) : Piece :=
  .element "require" (present b.fields)
    (b.commands.map (named "command") ++ b.types.map (named "type") ++ b.enums.map RequiredEnum.piece)

def Feature.fields (f : Feature) : List (String × Option String) :=
  [("api", f.api), ("name", some f.name), ("number", some f.number), ("comment", f.comment)]

def Feature.piece (f : Feature) : Piece :=
  .element "feature" (present f.fields) (f.require.map RequireBlock.piece)

def Extension.fields (e : Extension) : List (String × Option String) :=
  [("name", some e.name), ("number", (some e.number).map toString), ("type", e.extType),
    ("supported", e.supported), ("depends", e.depends), ("platform", e.platform),
    ("promotedto", e.promotedTo), ("deprecatedby", e.deprecatedBy),
    ("provisional", if e.provisional then some "true" else none), ("comment", e.comment)]

def Extension.piece (e : Extension) : Piece :=
  .element "extension" (present e.fields) (e.require.map RequireBlock.piece)

def Registry.root (features : List Feature) (extensions : List Extension) : Piece :=
  .element "registry" []
    (features.map Feature.piece ++ [.element "extensions" [] (extensions.map Extension.piece)])

end Pieces

section Bounds

/-- Its numbers fit into words. -/
structure RequiredEnum.Fits (e : RequiredEnum) : Prop where
  bitPos : ∀ n ∈ e.element.bitPos, n < 2 ^ 32
  extNumber : ∀ n ∈ e.extNumber, n < 2 ^ 32
  offset : ∀ n ∈ e.offset, n < 2 ^ 32

def RequireBlock.Fits (b : RequireBlock) : Prop := ∀ e ∈ b.enums, e.Fits

def Feature.Fits (f : Feature) : Prop := ∀ b ∈ f.require, b.Fits

structure Extension.Fits (e : Extension) : Prop where
  number : e.number < 2 ^ 32
  require : ∀ b ∈ e.require, b.Fits

end Bounds

section Readers

theorem reads_nameOfNode (tag name : String) : Reads nameOfNode (named tag name).entry.2 name := by
  intro node tree
  have fold {step} (reads : ∀ s node, step s "name" node = Xml.once "name" s node.text) :
      Node.fold step none node = .ok (some name) := by
    have folds : Folds step (attributeEntries (present [("name", some name)])) none (some name) :=
      .once (.mk id fun _ v => v) rfl (by simpa using reads) .nil
    exact Reads.element folds .nil node tree
  rw [nameOfNode, fold fun _ _ => rfl]
  rfl

namespace RequiredEnum

def ofElement {α : Type} (slot : Slot EnumValue.Partial α) : Slot Partial α where
  get s := slot.get s.element
  set s a := { s with element := slot.set s.element a }
  set_get s := by rw [slot.set_get]
  get_set s a := slot.get_set s.element a
  set_set s a b := by simp [slot.set_set]

theorem step_ofElement {α : Type} {name : String} {read : Node → Except Xml.Error α}
    {slot : Slot EnumValue.Partial (Option α)}
    (known : ∀ s node, EnumValue.field? s name node =
      some do return slot.set s (← Xml.once name (slot.get s) (read node))) (s : Partial) (node : Node) :
    step s name node = do
      return (ofElement slot).set s (← Xml.once name ((ofElement slot).get s) (read node)) := by
  simp [step, known, ofElement]

theorem reads_fold {e : RequiredEnum} (fits : e.Fits) : Reads (Node.fold step {}) e.piece.entry.2
    ⟨⟨some e.name, { e.element with name := "" }⟩, { e with element := {} }⟩ := by
  refine .element ?_ .nil
  -- For each attribute, in the order of `fields`: where it goes, that nothing is there yet, and that
  -- the step puts it there.
  exact
    .once (ofElement <| .mk (·.name) fun s v => { s with name := v }) rfl (step_ofElement fun _ _ => rfl) <|
    .once (ofElement <| .mk (·.value.value) fun s v => { s with value.value := v }) rfl
      (step_ofElement fun _ _ => rfl) <|
    .onceNumber (ofElement <| .mk (·.value.bitPos) fun s v => { s with value.bitPos := v }) rfl fits.bitPos
      (step_ofElement fun _ _ => rfl) <|
    .once (ofElement <| .mk (·.value.aliasOf) fun s v => { s with value.aliasOf := v }) rfl
      (step_ofElement fun _ _ => rfl) <|
    .once (ofElement <| .mk (·.value.api) fun s v => { s with value.api := v }) rfl
      (step_ofElement fun _ _ => rfl) <|
    .once (ofElement <| .mk (·.value.typeAttr) fun s v => { s with value.typeAttr := v }) rfl
      (step_ofElement fun _ _ => rfl) <|
    .once (ofElement <| .mk (·.value.deprecated) fun s v => { s with value.deprecated := v }) rfl
      (step_ofElement fun _ _ => rfl) <|
    .once (ofElement <| .mk (·.value.protect) fun s v => { s with value.protect := v }) rfl
      (step_ofElement fun _ _ => rfl) <|
    .once (ofElement <| .mk (·.value.comment) fun s v => { s with value.comment := v }) rfl
      (step_ofElement fun _ _ => rfl) <|
    .once (.mk (·.rest.extends?) fun s v => { s with rest.extends? := v }) rfl (fun _ _ => rfl) <|
    .onceNumber (.mk (·.rest.extNumber) fun s v => { s with rest.extNumber := v }) rfl fits.extNumber
      (fun _ _ => rfl) <|
    .onceNumber (.mk (·.rest.offset) fun s v => { s with rest.offset := v }) rfl fits.offset
      (fun _ _ => rfl) <|
    .once (.mk (·.rest.dir) fun s v => { s with rest.dir := v }) rfl (fun _ _ => rfl) .nil

theorem reads {e : RequiredEnum} (fits : e.Fits) : Reads ofNode e.piece.entry.2 e := by
  intro node tree
  rw [ofNode, reads_fold fits node tree]
  rfl

end RequiredEnum

theorem joinDepends_nil (depends : Option String) : joinDepends depends [] = depends := by
  cases depends <;> rfl

namespace RequireBlock

theorem reads_fold {b : RequireBlock} (fits : b.Fits) :
    Reads (Node.fold step {}) b.piece.entry.2 ⟨{ b with depends := none }, b.depends, []⟩ := by
  refine .element
    (.text (.mk (·.block.api) fun s v => { s with block.api := v }) rfl (fun _ _ => rfl) <|
      .text (.mk (·.depends) fun s v => { s with depends := v }) rfl (fun _ _ => rfl) <|
      .comment (.mk (fun s : Partial => s.block.comment) fun s v => { s with block.comment := v })
        (fun found c => c.attribute?.or found) (fun _ => rfl) rfl (fun _ _ => rfl) .nil) ?_
  rw [Xml.entriesOf_append, Xml.entriesOf_append]
  exact .append
    (.append
      (.children (.mk (fun s : Partial => s.block.commands) fun s v => { s with block.commands := v }) rfl
        (fun name _ => reads_nameOfNode "command" name) (fun _ _ _ => rfl))
      (.children (.mk (fun s : Partial => s.block.types) fun s v => { s with block.types := v }) rfl
        (fun name _ => reads_nameOfNode "type" name) (fun _ _ _ => rfl)))
    (.children (.mk (fun s : Partial => s.block.enums) fun s v => { s with block.enums := v }) rfl
      (fun e mem => RequiredEnum.reads (fits e mem)) (fun _ _ _ => rfl))

theorem reads {b : RequireBlock} (fits : b.Fits) : Reads ofNode b.piece.entry.2 b := by
  intro node tree
  rw [ofNode, reads_fold fits node tree]
  dsimp only [bind, Except.bind]
  rw [joinDepends_nil]
  rfl

end RequireBlock

namespace Feature

theorem reads_fold {f : Feature} (fits : f.Fits) :
    Reads (Node.fold step (none, {})) f.piece.entry.2 (some f.name, { f with name := "" }) :=
  .element
    (.text (.mk (·.2.api) fun s v => (s.1, { s.2 with api := v })) rfl (fun _ _ => rfl) <|
      .text (.mk (·.1) fun s v => (v, s.2)) rfl (fun _ _ => rfl) <|
      .given (.mk (·.2.number) fun s v => (s.1, { s.2 with number := v })) (fun _ _ => rfl) <|
      .comment (.mk (·.2.comment) fun s v => (s.1, { s.2 with comment := v })) (fun _ c => c.text)
        (fun _ => rfl) rfl (fun _ _ => rfl) .nil)
    (.children (.mk (fun s : _ × Feature => s.2.require) fun s v => (s.1, { s.2 with require := v })) rfl
      (fun b mem => RequireBlock.reads (fits b mem)) (fun _ _ _ => rfl))

theorem reads {f : Feature} (fits : f.Fits) : Reads ofNode f.piece.entry.2 f := by
  intro node tree
  rw [ofNode, reads_fold fits node tree]
  rfl

end Feature

namespace Extension

theorem reads_fold {e : Extension} (fits : e.Fits) : Reads (Node.fold step {}) e.piece.entry.2
    ⟨{ e with name := "", number := 0, depends := none }, some e.name, some e.number, e.depends, []⟩ :=
  .element
    (.text (.mk (·.name) fun s v => { s with name := v }) rfl (fun _ _ => rfl) <|
      .number (.mk (·.number) fun s v => { s with number := v }) rfl
        (by rintro _ ⟨⟩; exact fits.number) (fun _ _ => rfl) <|
      .text (.mk (·.extension.extType) fun s v => { s with extension.extType := v }) rfl (fun _ _ => rfl) <|
      .text (.mk (·.extension.supported) fun s v => { s with extension.supported := v }) rfl
        (fun _ _ => rfl) <|
      .text (.mk (·.depends) fun s v => { s with depends := v }) rfl (fun _ _ => rfl) <|
      .text (.mk (·.extension.platform) fun s v => { s with extension.platform := v }) rfl
        (fun _ _ => rfl) <|
      .text (.mk (·.extension.promotedTo) fun s v => { s with extension.promotedTo := v }) rfl
        (fun _ _ => rfl) <|
      .text (.mk (·.extension.deprecatedBy) fun s v => { s with extension.deprecatedBy := v }) rfl
        (fun _ _ => rfl) <|
      .flag (.mk (·.extension.provisional) fun s v => { s with extension.provisional := v }) rfl
        (fun _ _ => rfl) <|
      .comment (.mk (·.extension.comment) fun s v => { s with extension.comment := v })
        (fun _ c => c.text) (fun _ => rfl) rfl (fun _ _ => rfl) .nil)
    (.children (.mk (fun s : Partial => s.extension.require) fun s v => { s with extension.require := v }) rfl
      (fun b mem => RequireBlock.reads (fits.require b mem)) (fun _ _ _ => rfl))

theorem reads {e : Extension} (fits : e.Fits) : Reads ofNode e.piece.entry.2 e := by
  intro node tree
  rw [ofNode, reads_fold fits node tree]
  dsimp only [bind, Except.bind, Xml.required, pure, Except.pure]
  rw [joinDepends_nil]

end Extension

namespace Registry

theorem reads_fold {features : List Feature} {extensions : List Extension}
    (fits : (∀ f ∈ features, f.Fits) ∧ ∀ e ∈ extensions, e.Fits) :
    Reads (Node.fold step {}) (root features extensions).entry.2 { features, extensions } := by
  have listed : Reads (Node.children "extension" Extension.ofNode)
      (Piece.element "extensions" [] (extensions.map Extension.piece)).entry.2 extensions :=
    Xml.reads_children (fun _ => rfl) fun e mem => Extension.reads (fits.2 e mem)
  refine .element .nil ?_
  rw [Xml.entriesOf_append]
  refine .append (.children (.mk (fun r : Registry => r.features) fun r v => { r with features := v }) rfl
    (fun f mem => Feature.reads (fits.1 f mem)) (fun _ _ _ => rfl)) (.cons (fun node tree => ?_) .nil)
  rw [step, listed node tree]
  rfl

end Registry

end Readers

section Words

theorem named_worded {tag : String} (word : IsWord tag) (name : String) : IsWorded (named tag name) :=
  .element word (Xml.words_present (by simp +decide)) (List.forall_mem_nil _)

theorem RequiredEnum.piece_worded (e : RequiredEnum) : IsWorded e.piece :=
  .element (by decide) (Xml.words_present (by simp +decide [fields, EnumValue.fields]))
    (List.forall_mem_nil _)

theorem RequireBlock.piece_worded (b : RequireBlock) : IsWorded b.piece := by
  refine .element (by decide) (Xml.words_present (by simp +decide [fields])) ?_
  simp only [List.forall_mem_append, List.forall_mem_map]
  exact ⟨⟨fun name _ => named_worded (by decide) name, fun name _ => named_worded (by decide) name⟩,
    fun e _ => e.piece_worded⟩

theorem Feature.piece_worded (f : Feature) : IsWorded f.piece :=
  .element (by decide) (Xml.words_present (by simp +decide [fields]))
    (List.forall_mem_map.2 fun b _ => b.piece_worded)

theorem Extension.piece_worded (e : Extension) : IsWorded e.piece :=
  .element (by decide) (Xml.words_present (by simp +decide [fields]))
    (List.forall_mem_map.2 fun b _ => b.piece_worded)

theorem Registry.root_worded (features : List Feature) (extensions : List Extension) :
    IsWorded (root features extensions) := by
  refine .element (by decide) (List.forall_mem_nil _) ?_
  rw [List.forall_mem_append, List.forall_mem_map, List.forall_mem_singleton]
  exact ⟨fun f _ => f.piece_worded, .element (by decide) (List.forall_mem_nil _)
    (List.forall_mem_map.2 fun e _ => e.piece_worded)⟩

end Words

namespace Registry

variable {features : List Feature} {extensions : List Extension}

/-- A document of features and extensions. -/
def written (features : List Feature) (extensions : List Extension) : String :=
  .ofList (root features extensions).written

theorem ofDocument_of_renders (fits : (∀ f ∈ features, f.Fits) ∧ ∀ e ∈ extensions, e.Fits)
    {document : String} (renders : Renders False (root features extensions) document)
    {size : Option Nat} (whole : ∀ n ∈ size, 4 ≤ n ∧ ¬CutBy n document.toList) :
    ofDocument (delivered document size) = .ok { features, extensions } := by
  have atOnce : ofDocument (delivered document none) = .ok { features, extensions } := by
    obtain ⟨node, found, tree⟩ := Xml.exists_root_of_renders renders
    rw [ofDocument, found]
    exact reads_fold fits node tree
  cases size with
  | none => exact atOnce
  | some n =>
    obtain ⟨large, uncut⟩ := whole n rfl
    obtain same | ⟨cut, -⟩ := (ofDocument_alike (Xml.delivered_alike document large)).eq_or
    · exact same.trans atOnce
    · exact absurd cut uncut

/-- Features and extensions are read back from the document that is written of them, and from every
other document that renders the same element, at once or in blocks that cut no character. -/
theorem ofDocument_written (fits : (∀ f ∈ features, f.Fits) ∧ ∀ e ∈ extensions, e.Fits) :
    ofDocument (delivered (written features extensions) none) = .ok { features, extensions } ∧
      ∀ (document : String) (size : Option Nat), Renders False (root features extensions) document →
        (∀ n ∈ size, 4 ≤ n ∧ ¬CutBy n document.toList) →
        ofDocument (delivered document size) = .ok { features, extensions } :=
  ⟨ofDocument_of_renders fits (root_worded features extensions).renders nofun,
    fun _ _ renders whole => ofDocument_of_renders fits renders whole⟩

def quoted : Feature where
  name := " \"n\""
  number := "1&2"
  require := [{
    depends := some "x+y"
    types := ["t"]
    enums := [{ element := { name := "e", bitPos := some 31 }, offset := some 0 }] }]

def provisional : Extension where
  name := " <&>"
  number := 4294967295
  provisional := true

example : written [] [provisional] =
    "<registry><extensions>" ++
      "<extension name=\"&#32;<&#38;>\" number=\"4294967295\" provisional=\"true\"></extension>" ++
      "</extensions></registry>" := by
  decide +kernel

theorem quoted_fits : (∀ f ∈ [quoted], f.Fits) ∧ ∀ e ∈ [provisional], e.Fits := by
  have enum : ({ element := { name := "e", bitPos := some 31 }, offset := some 0 } : RequiredEnum).Fits :=
    ⟨by rintro _ ⟨⟩; decide, nofun, by rintro _ ⟨⟩; decide⟩
  exact ⟨by simpa [quoted, Feature.Fits, RequireBlock.Fits] using enum,
    List.forall_mem_singleton.2 ⟨by decide, List.forall_mem_nil _⟩⟩

theorem quoted_read_back : ((∀ f ∈ [quoted], f.Fits) ∧ ∀ e ∈ [provisional], e.Fits) ∧
    ofDocument (delivered (written [quoted] [provisional]) none) =
      .ok { features := [quoted], extensions := [provisional] } :=
  ⟨quoted_fits, (ofDocument_written quoted_fits).1⟩

end Registry

end VulkanBindings
