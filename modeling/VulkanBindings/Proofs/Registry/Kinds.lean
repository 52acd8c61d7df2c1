import Mathlib.Tactic.FinCases
import VulkanBindings.Proofs.Registry.Extent

/-! The elements that have a reader of their own: which entries each of them knows, and what is read of
these. A reader passes over all other entries, and reads those that it knows each into a place of its own. -/

set_option autoImplicit false

namespace VulkanBindings.Registry

open Xml (Node Content Error Step Kept textName)

inductive Kind where
  | registry
  | platforms
  | platform
  | types
  | type
  | member
  | enums
  | value
  | commands
  | command
  | prototype
  | parameter
  | feature
  | extensions
  | extension
  | require
  | requiredEnum
  | named

def childrenStep {α : Type} (wanted : String) (read : Node → Except Error α) (found : List α) (name : String)
    (node : Node) : Except Error (List α) :=
  if name = wanted then return found ++ [← read node] else passed found node

def namedStep (found : Option String) (name : String) (node : Node) : Except Error (Option String) :=
  if name = "name" then Xml.once "name" found node.text else passed found node

def plainly {σ : Type} (step : σ → String → Node → Except Error σ) (s : σ) (name : String) (node : Node) :
    Except Error (Step σ) :=
  .next <$> step s name node

namespace Kind

@[reducible] def State : Kind → Type
  | registry => Registry
  | platforms => List Platform
  | platform => Platform.Partial
  | types => List TypeDecl
  | type => Option String × TypeDecl
  | member => Option String × Member
  | enums => Option String × EnumBlock
  | value => EnumValue.Partial
  | commands => List Command
  | command => Option Prototype × Command
  | prototype => Option String × Prototype
  | parameter => Option String × Parameter
  | feature => Option String × Feature
  | extensions => List Extension
  | extension => Extension.Partial
  | require => RequireBlock.Partial
  | requiredEnum => RequiredEnum.Partial
  | named => Option String

def start : (k : Kind) → k.State
  | registry => ({} : Registry)
  | platforms => ([] : List Platform)
  | platform => ({} : Platform.Partial)
  | types => ([] : List TypeDecl)
  | type => ((none, {}) : Option String × TypeDecl)
  | member => ((none, {}) : Option String × Member)
  | enums => ((none, {}) : Option String × EnumBlock)
  | value => ({} : EnumValue.Partial)
  | commands => ([] : List Command)
  | command => ((none, {}) : Option Prototype × Command)
  | prototype => ((none, {}) : Option String × Prototype)
  | parameter => ((none, {}) : Option String × Parameter)
  | feature => ((none, {}) : Option String × Feature)
  | extensions => ([] : List Extension)
  | extension => ({} : Extension.Partial)
  | require => ({} : RequireBlock.Partial)
  | requiredEnum => ({} : RequiredEnum.Partial)
  | named => (none : Option String)

def step : (k : Kind) → k.State → String → Node → Except Error (Step k.State)
  | registry => plainly Registry.step
  | platforms => plainly (childrenStep "platform" Platform.ofNode)
  | platform => plainly Platform.step
  | types => plainly (childrenStep "type" TypeDecl.ofNode)
  | type => TypeDecl.step
  | member => plainly Member.step
  | enums => EnumBlock.step
  | value => plainly EnumValue.step
  | commands => plainly (childrenStep "command" Command.ofNode)
  | command => plainly Command.step
  | prototype => plainly Prototype.step
  | parameter => plainly Parameter.step
  | feature => plainly Feature.step
  | extensions => plainly (childrenStep "extension" Extension.ofNode)
  | extension => plainly Extension.step
  | require => plainly RequireBlock.step
  | requiredEnum => plainly RequiredEnum.step
  | named => plainly namedStep

/-- Reads an element of this kind, but for what is made of it at its end. -/
def read (k : Kind) (node : Node) : Except Error k.State := do
  (← node.content).foldChoices k.step k.start

def child : Kind → String → Option Kind
  | registry, "platforms" => some platforms
  | registry, "types" => some types
  | registry, "enums" => some enums
  | registry, "commands" => some commands
  | registry, "feature" => some feature
  | registry, "extensions" => some extensions
  | platforms, "platform" => some platform
  | types, "type" => some type
  | type, "member" => some member
  | enums, "enum" => some value
  | commands, "command" => some command
  | command, "proto" => some prototype
  | command, "param" => some parameter
  | feature, "require" => some require
  | extensions, "extension" => some extension
  | extension, "require" => some require
  | require, "command" => some named
  | require, "type" => some named
  | require, "enum" => some requiredEnum
  | _, _ => none

/-- The names of the entries that are not passed over. -/
def known : Kind → List String
  | registry => ["comment", "platforms", "types", "enums", "commands", "feature", "extensions"]
  | platforms => ["platform"]
  | platform => ["name", "protect", "comment"]
  | types => ["type"]
  | type => ["name", "category", "requires", "alias", "api", "parent", "returnedonly", "structextends",
    "objtypeenum", "bitvalues", "type", "member", "comment", textName]
  | member => ["type", "name", "comment", "enum", textName, "api", "values", "len", "altlen", "optional"]
  | enums => ["name", "type", "comment", "bitwidth", "enum"]
  | value => ["name", "value", "bitpos", "alias", "api", "type", "deprecated", "protect", "comment"]
  | commands => ["command"]
  | command => ["name", "alias", "api", "successcodes", "errorcodes", "comment", "proto", "param"]
  | prototype => ["type", "name", textName]
  | parameter => ["type", "name", textName, "api", "len", "altlen", "optional"]
  | feature => ["api", "name", "number", "comment", "require"]
  | extensions => ["extension"]
  | extension => ["name", "number", "type", "supported", "depends", "requires", "requirescore", "platform",
    "promotedto", "deprecatedby", "provisional", "comment", "require"]
  | require => ["api", "depends", "feature", "extension", "comment", "command", "type", "enum"]
  | requiredEnum => ["name", "value", "bitpos", "alias", "api", "type", "deprecated", "protect", "comment",
    "extends", "extnumber", "offset", "dir"]
  | named => ["name"]

def choice : Kind → Option String
  | type => some "category"
  | enums => some "type"
  | _ => none

def joined : Kind → Option (String × String)
  | require => some ("feature", "extension")
  | extension => some ("requires", "requirescore")
  | _ => none

section Unknown

variable {σ : Type} {name : String}

theorem plainly_eq {step : σ → String → Node → Except Error σ} {s : σ} {node : Node}
    (same : step s name node = passed s node) : plainly step s name node = .next <$> passed s node :=
  congrArg (Step.next <$> ·) same

theorem step_unknown (k : Kind) (unknown : name ∉ k.known) (s : k.State) (node : Node) :
    k.step s name node = .next <$> passed s node := by
  cases k
  all_goals simp only [known, List.mem_cons, List.not_mem_nil, or_false, not_or, textName] at unknown
  case registry => exact plainly_eq (by simp [Registry.step, unknown])
  case platforms | types | commands | extensions => exact plainly_eq (by simp [childrenStep, unknown])
  case platform => exact plainly_eq (by simp [Platform.step, unknown])
  case type =>
    have same : TypeDecl.step s name node = .next <$> passed s node := by simp [TypeDecl.step, unknown]
    exact same
  case member => exact plainly_eq (by simp [Member.step, unknown])
  case enums =>
    have same : EnumBlock.step s name node = .next <$> passed s node := by simp [EnumBlock.step, unknown]
    exact same
  case value => exact plainly_eq (by simp [EnumValue.step, EnumValue.field?, unknown])
  case command => exact plainly_eq (by simp [Command.step, unknown])
  case prototype => exact plainly_eq (by simp [Prototype.step, unknown])
  case parameter => exact plainly_eq (by simp [Parameter.step, unknown])
  case feature => exact plainly_eq (by simp [Feature.step, unknown])
  case extension => exact plainly_eq (by simp [Extension.step, unknown])
  case require => exact plainly_eq (by simp [RequireBlock.step, unknown])
  case requiredEnum => exact plainly_eq (by simp [RequiredEnum.step, EnumValue.field?, unknown])
  case named => exact plainly_eq (by simp [namedStep, unknown])

/-- Of every name that is known there are entries which are not passed over. -/
theorem exists_noticed {k : Kind} (mem : name ∈ k.known) :
    ∃ node, k.step k.start name node ≠ .next <$> passed k.start node := by
  cases k <;> fin_cases mem <;> first
    | refine ⟨.element false [] (.ok 0), fun same => ?_⟩
      cases same
      done
    | refine ⟨.leaf (.attribute (.ok "")), fun same => ?_⟩
      cases same

/-- A reader passes over all entries of a name just if it does not know that. -/
theorem not_mem_known_iff {k : Kind} :
    name ∉ k.known ↔ ∀ s node, k.step s name node = .next <$> passed s node := by
  refine ⟨fun unknown => step_unknown k unknown, fun passes mem => ?_⟩
  obtain ⟨node, noticed⟩ := exists_noticed mem
  exact noticed (passes _ node)

end Unknown

/-- What is read of the first node can be read of the second one, however that is asked for. -/
structure Said (node node' : Node) : Prop where
  skip : Kept True node.skip node'.skip
  text : Kept True node.text node'.text
  bodyText : Kept True node.bodyText node'.bodyText
  comment : Kept True node.comment node'.comment
  choice : ∀ {σ : Type} (chosen : String → σ), Kept True (node.choice chosen) (node'.choice chosen)

/-- What a reader of that kind reads of the first node, or any reader of texts, is that of the second. -/
def SameFor : Option Kind → Node → Node → Prop
  | none, node, node' => Said node node'
  | some k, node, node' => Kept True node.skip node'.skip ∧ Kept True (k.read node) (k.read node')

theorem SameFor.skip {kind : Option Kind} {node node' : Node} (same : SameFor kind node node') :
    Kept True node.skip node'.skip := by
  cases kind with
  | none => exact Said.skip same
  | some k => exact same.1

section Steady

variable {σ α : Type} {x y : Except Error α} {name : String} {node node' : Node}

theorem then_kept (kept : Kept True x y) (f : α → Except Error σ) : Kept True (x >>= f) (y >>= f) :=
  Kept.comparison.next kept f

theorem map_kept (kept : Kept True x y) (f : α → σ) : Kept True (f <$> x) (f <$> y) :=
  Xml.Agreement.map (a := Kept.comparison.toAgreement) kept f

theorem passed_kept (s : σ) (skip : Kept True node.skip node'.skip) :
    Kept True (passed s node) (passed s node') :=
  then_kept skip _

theorem once_kept (name : String) (found : Option α) (kept : Kept True x y) :
    Kept True (Xml.once name found x) (Xml.once name found y) :=
  Xml.Comparison.once (c := Kept.comparison) name found kept

theorem ofType_kept (kept : Kept True (type.read node) (type.read node')) :
    Kept True (TypeDecl.ofNode node) (TypeDecl.ofNode node') := by
  have reads (node : Node) : TypeDecl.ofNode node = type.read node >>= fun s =>
      return { s.2 with name := ← Xml.required "name" s.1 } := by
    rw [read, bind_assoc]
    rfl
  rw [reads, reads]
  exact then_kept kept _

theorem ofEnums_kept (kept : Kept True (enums.read node) (enums.read node')) :
    Kept True (EnumBlock.ofNode node) (EnumBlock.ofNode node') := by
  have reads (node : Node) : EnumBlock.ofNode node = enums.read node >>= fun s =>
      return { s.2 with name := ← Xml.required "name" s.1 } := by
    rw [read, bind_assoc]
    rfl
  rw [reads, reads]
  exact then_kept kept _

theorem registry_kept (s : Registry) (same : SameFor (child .registry name) node node') :
    Kept True (Registry.step s name node) (Registry.step s name node') := by
  unfold Registry.step
  split
  · exact then_kept same.bodyText _
  · exact then_kept same.2 _
  · exact then_kept same.2 _
  · exact then_kept (ofEnums_kept same.2) _
  · exact then_kept same.2 _
  · exact then_kept (then_kept (x := feature.read node) same.2 _) _
  · exact then_kept same.2 _
  · exact passed_kept s same.skip

theorem children_kept {kind : Kind} (inner : Kind) {wanted : String} {read : Node → Except Error α}
    (isChild : child kind wanted = some inner)
    (reads : Kept True (inner.read node) (inner.read node') → Kept True (read node) (read node'))
    (s : List α) (same : SameFor (child kind name) node node') :
    Kept True (childrenStep wanted read s name node) (childrenStep wanted read s name node') := by
  unfold childrenStep
  split
  · next called =>
    rw [called, isChild] at same
    exact then_kept (reads same.2) _
  · exact passed_kept s same.skip

theorem platform_kept (s : Platform.Partial) (same : SameFor (child .platform name) node node') :
    Kept True (Platform.step s name node) (Platform.step s name node') := by
  unfold Platform.step
  split
  · exact then_kept (once_kept _ _ same.text) _
  · exact then_kept (once_kept _ _ same.text) _
  · exact then_kept (once_kept _ _ same.text) _
  · exact passed_kept s same.skip

theorem type_kept (s : Option String × TypeDecl) (same : SameFor (child .type name) node node') :
    Kept True (TypeDecl.step s name node) (TypeDecl.step s name node') := by
  unfold TypeDecl.step
  dsimp only
  split
  · exact then_kept same.comment _
  · exact same.choice _
  all_goals first
    | exact then_kept same.text _
    | exact then_kept same.comment _
    | exact then_kept same.bodyText _
    | exact then_kept (then_kept (x := member.read node) same.2 _) _
    | exact map_kept (passed_kept s same.skip) _

theorem member_kept (s : Option String × Member) (same : SameFor (child .member name) node node') :
    Kept True (Member.step s name node) (Member.step s name node') := by
  unfold Member.step
  dsimp only
  split
  all_goals first
    | exact then_kept same.text _
    | exact then_kept same.bodyText _
    | exact then_kept same.comment _
    | exact passed_kept s same.skip

theorem enums_kept (s : Option String × EnumBlock) (same : SameFor (child .enums name) node node') :
    Kept True (EnumBlock.step s name node) (EnumBlock.step s name node') := by
  unfold EnumBlock.step
  dsimp only
  split
  · exact then_kept same.text _
  · exact same.choice _
  · exact then_kept same.comment _
  · exact then_kept (then_kept same.text _) _
  · exact then_kept (then_kept (x := value.read node) same.2 _) _
  · exact map_kept (passed_kept s same.skip) _

theorem field_kept (s : EnumValue.Partial) (said : Said node node') :
    Option.Rel (Kept True) (EnumValue.field? s name node) (EnumValue.field? s name node') := by
  unfold EnumValue.field?
  split
  · exact .some (then_kept (once_kept _ _ said.text) _)
  · exact .some (then_kept (once_kept _ _ said.text) _)
  · exact .some (then_kept (once_kept _ _ (then_kept said.text _)) _)
  all_goals first | exact .some (then_kept (once_kept _ _ said.text) _) | exact .none

theorem value_kept (s : EnumValue.Partial) (said : Said node node') :
    Kept True (EnumValue.step s name node) (EnumValue.step s name node') := by
  have fields : Option.Rel (Kept True) (EnumValue.field? s name node) (EnumValue.field? s name node') :=
    field_kept s said
  unfold EnumValue.step
  generalize EnumValue.field? s name node = field at fields ⊢
  generalize EnumValue.field? s name node' = field' at fields ⊢
  cases fields with
  | some kept => exact kept
  | none => exact passed_kept s said.skip

theorem requiredEnum_kept (s : RequiredEnum.Partial) (said : Said node node') :
    Kept True (RequiredEnum.step s name node) (RequiredEnum.step s name node') := by
  have fields : Option.Rel (Kept True) (EnumValue.field? s.element name node)
      (EnumValue.field? s.element name node') := field_kept s.element said
  unfold RequiredEnum.step
  generalize EnumValue.field? s.element name node = field at fields ⊢
  generalize EnumValue.field? s.element name node' = field' at fields ⊢
  cases fields with
  | some kept => exact then_kept kept _
  | none =>
    dsimp only
    split
    · exact then_kept (once_kept _ _ said.text) _
    · exact then_kept (once_kept _ _ (then_kept said.text _)) _
    · exact then_kept (once_kept _ _ (then_kept said.text _)) _
    · exact then_kept (once_kept _ _ said.text) _
    · exact passed_kept s said.skip

theorem named_kept (s : Option String) (said : Said node node') :
    Kept True (namedStep s name node) (namedStep s name node') := by
  unfold namedStep
  split
  · exact once_kept _ _ said.text
  · exact passed_kept s said.skip

theorem command_kept (s : Option Prototype × Command) (same : SameFor (child .command name) node node') :
    Kept True (Command.step s name node) (Command.step s name node') := by
  unfold Command.step
  dsimp only
  split
  all_goals first
    | exact then_kept same.text _
    | exact then_kept same.comment _
    | exact then_kept (then_kept (x := prototype.read node) same.2 _) _
    | exact then_kept (then_kept (x := parameter.read node) same.2 _) _
    | exact passed_kept s same.skip

theorem prototype_kept (s : Option String × Prototype) (same : SameFor (child .prototype name) node node') :
    Kept True (Prototype.step s name node) (Prototype.step s name node') := by
  unfold Prototype.step
  dsimp only
  split
  · exact then_kept same.bodyText _
  · exact then_kept same.bodyText _
  · exact then_kept same.text _
  · exact passed_kept s same.skip

theorem parameter_kept (s : Option String × Parameter) (same : SameFor (child .parameter name) node node') :
    Kept True (Parameter.step s name node) (Parameter.step s name node') := by
  unfold Parameter.step
  dsimp only
  split
  all_goals first
    | exact then_kept same.text _
    | exact then_kept same.bodyText _
    | exact passed_kept s same.skip

theorem feature_kept (s : Option String × Feature) (same : SameFor (child .feature name) node node') :
    Kept True (Feature.step s name node) (Feature.step s name node') := by
  unfold Feature.step
  dsimp only
  split
  · exact then_kept same.text _
  · exact then_kept same.text _
  · exact then_kept same.text _
  · exact then_kept same.comment _
  · exact then_kept (then_kept (x := require.read node) same.2 _) _
  · exact passed_kept s same.skip

theorem extension_kept (s : Extension.Partial) (same : SameFor (child .extension name) node node') :
    Kept True (Extension.step s name node) (Extension.step s name node') := by
  unfold Extension.step
  dsimp only
  split
  all_goals first
    | exact then_kept same.text _
    | exact then_kept (then_kept same.text _) _
    | exact then_kept same.comment _
    | exact then_kept (then_kept (x := require.read node) same.2 _) _
    | exact passed_kept s same.skip

theorem require_kept (s : RequireBlock.Partial) (same : SameFor (child .require name) node node') :
    Kept True (RequireBlock.step s name node) (RequireBlock.step s name node') := by
  unfold RequireBlock.step
  split
  · exact then_kept same.text _
  · exact then_kept same.text _
  · exact then_kept same.text _
  · exact then_kept same.text _
  · exact then_kept same.comment _
  · exact then_kept (then_kept (x := named.read node) same.2 _) _
  · exact then_kept (then_kept (x := named.read node) same.2 _) _
  · exact then_kept (then_kept (x := requiredEnum.read node) same.2 _) _
  · exact passed_kept s same.skip

theorem step_kept (k : Kind) (s : k.State) (same : SameFor (k.child name) node node') :
    Kept True (k.step s name node) (k.step s name node') := by
  cases k with
  | registry => exact map_kept (registry_kept s same) _
  | platforms => exact map_kept (children_kept platform rfl (then_kept · _) s same) _
  | platform => exact map_kept (platform_kept s same) _
  | types => exact map_kept (children_kept type rfl ofType_kept s same) _
  | type => exact type_kept s same
  | member => exact map_kept (member_kept s same) _
  | enums => exact enums_kept s same
  | value => exact map_kept (value_kept s same) _
  | commands => exact map_kept (children_kept command rfl (then_kept · _) s same) _
  | command => exact map_kept (command_kept s same) _
  | prototype => exact map_kept (prototype_kept s same) _
  | parameter => exact map_kept (parameter_kept s same) _
  | feature => exact map_kept (feature_kept s same) _
  | extensions => exact map_kept (children_kept extension rfl (then_kept · _) s same) _
  | extension => exact map_kept (extension_kept s same) _
  | require => exact map_kept (require_kept s same) _
  | requiredEnum => exact map_kept (requiredEnum_kept s same) _
  | named => exact map_kept (named_kept s same) _

end Steady

section Choices

variable {σ : Type} {name : String} {node : Node} {chosen : String → σ}

theorem element_of_choice {choose : String → σ} (taken : node.choice choose = .ok (.choose chosen)) :
    ∃ bare entries ending, node = .element bare entries ending := by
  cases node with
  | leaf value =>
    obtain ⟨text, -, taken⟩ := Xml.exists_of_bind_eq_ok taken
    cases taken
  | element bare entries ending => exact ⟨_, _, _, rfl⟩

theorem not_choose {α : Type} {x : Except Error α} {f : α → σ} :
    (do return .next (f (← x)) : Except Error (Step σ)) ≠ .ok (.choose chosen) := by
  cases x <;> exact nofun

theorem element_of_choose {k : Kind} {s : k.State} {chosen : String → k.State}
    (taken : k.step s name node = .ok (.choose chosen)) :
    k.choice = some name ∧ ∃ bare entries ending, node = .element bare entries ending := by
  cases k
  case type =>
    change TypeDecl.step s name node = _ at taken
    obtain ⟨found, t⟩ := s
    unfold TypeDecl.step at taken
    dsimp only at taken
    split at taken
    case h_2 => exact ⟨rfl, element_of_choice taken⟩
    case h_15 =>
      obtain ⟨_, -, same⟩ := Xml.exists_of_map_eq_ok taken
      cases same
    all_goals exact absurd taken not_choose
  case enums =>
    change EnumBlock.step s name node = _ at taken
    obtain ⟨found, b⟩ := s
    unfold EnumBlock.step at taken
    dsimp only at taken
    split at taken
    case h_2 => exact ⟨rfl, element_of_choice taken⟩
    case h_6 =>
      obtain ⟨_, -, same⟩ := Xml.exists_of_map_eq_ok taken
      cases same
    all_goals exact absurd taken not_choose
  all_goals
    obtain ⟨_, -, same⟩ := Xml.exists_of_map_eq_ok taken
    cases same

end Choices

end Kind

end VulkanBindings.Registry
