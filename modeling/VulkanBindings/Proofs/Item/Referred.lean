import VulkanBindings.Proofs.Graph.Emitted
import VulkanBindings.Proofs.Item.Enumerated
import VulkanBindings.Proofs.Spelling.Declarator

/-! The types that structures and commands refer to. What the registry declares is emitted before
it is referred to by name, and has in every item the one spelling that it is declared with. -/

set_option autoImplicit false

namespace VulkanBindings

variable {r : Registry} {c : Config} {g : Graph}

namespace Spelling

/-- What pointers, lists and arrays are made of in the end. -/
def base : Spelling → Spelling
  | .pointer inner | .slice inner | .array inner _ => inner.base
  | s => s

end Spelling

namespace Declarator

theorem base_wrap {layer : Spelling → Spelling} (keeps : ∀ s, (layer s).base = s.base) (n : Nat)
    (s : Spelling) : (wrap layer n s).base = s.base := by
  induction n generalizing s with
  | zero => rfl
  | succ n ih => exact (ih (layer s)).trans (keeps s)

theorem Layers.base_apply (l : Layers) (s : Spelling) : (l.apply s).base = s.base := by
  have inner : (wrap .slice l.slices (wrap .pointer l.pointers s)).base = s.base :=
    (base_wrap (fun _ => rfl : ∀ s, (Spelling.slice s).base = s.base) _ _).trans
      (base_wrap (fun _ => rfl : ∀ s, (Spelling.pointer s).base = s.base) _ s)
  unfold apply
  cases l.size with
  | none => exact inner
  | some size => exact inner

end Declarator

namespace Element

/-- How an element is spelled where it is declared, before it is made public. -/
def inner? : Element → Option Spelling
  | .type t =>
    match t.category with
    | .define => some (.camel t.name)
    | .struct => some (.struct t.name)
    | .header | .group | .other => none
    | _ => some (.typedef t.name)
  | .command c => some (.typedef c.name)
  | _ => none

/-- The spelling of an element that no other element has the name of. Names of scalars have that
of the scalar. -/
def spelling? (stripped : List String) (e : Element) : Option Spelling :=
  e.inner?.map fun inner => ((Glossary.ofScalars stripped).find? e.name).getD (.exported inner stripped)

theorem isDeclaration_of_inner? {e : Element} {inner : Spelling} (declared : e.inner? = some inner) :
    e.IsDeclaration := by
  cases e with
  | type t => exact .inl rfl
  | command c => exact .inr rfl
  | _ => cases declared

end Element

namespace Glossary

variable {stripped : List String}

def after (glossary : Glossary) (e : Element) : Glossary := ((declare e).run glossary).2

theorem after_eq (glossary : Glossary) (e : Element) :
    glossary.after e =
      e.inner?.elim glossary fun inner => ((enter e.name inner).run glossary).2 := by
  cases e with
  | type t =>
    change ((typeDecl t).run glossary).2 = _
    unfold typeDecl Element.inner?
    cases category : t.category <;> simp only [category] <;> rfl
  | command c => rfl
  | platform p => rfl
  | block b => rfl
  | value v => rfl
  | feature f => rfl
  | extension e => rfl
  | virtual name => rfl

theorem ofOrder_eq_foldl (stripped : List String) (g : Graph) (order : List NodeId) :
    ofOrder stripped g order = (order.filterMap g.element?).foldl after (ofScalars stripped) := by
  have each (elements : List Element) (glossary : Glossary) :
      ((elements.forM declare).run glossary).2 = elements.foldl after glossary := by
    induction elements generalizing glossary with
    | nil => rfl
    | cons e rest ih => exact ih (glossary.after e)
  exact each _ _

theorem find?_after (glossary : Glossary) (e : Element) (name : String) :
    (glossary.after e).find? name =
      if e.inner?.isSome ∧ e.name = name then
        e.inner?.map fun inner => (glossary.find? name).getD (glossary.exported inner)
      else glossary.find? name := by
  rw [after_eq]
  cases declared : e.inner? with
  | none => simp
  | some inner =>
    rw [Option.elim_some, find?_enter]
    simp only [Option.isSome_some, true_and, Option.map_some, eq_comm (a := name)]
    split
    · next same => rw [same]
    · rfl

theorem find?_foldl_of_ne {glossary : Glossary} {elements : List Element} {name : String}
    (others : ∀ e ∈ elements, e.inner?.isSome → e.name ≠ name) :
    (elements.foldl after glossary).find? name = glossary.find? name := by
  induction elements generalizing glossary with
  | nil => rfl
  | cons e rest ih =>
    rw [List.foldl_cons, ih fun e' mem => others e' (List.mem_cons_of_mem e mem), find?_after,
      if_neg fun ⟨declared, same⟩ => others e List.mem_cons_self declared same]

theorem stripped_foldl (glossary : Glossary) (elements : List Element) :
    (elements.foldl after glossary).stripped = glossary.stripped := by
  have each (glossary : Glossary) (e : Element) : (glossary.after e).stripped = glossary.stripped := by
    rw [after_eq]
    cases e.inner? with
    | none => rfl
    | some inner =>
      rw [Option.elim_some]
      unfold enter
      simp only [StateT.run]
      cases glossary.find? e.name <;> rfl
  induction elements generalizing glossary with
  | nil => rfl
  | cons e rest ih => exact (ih (glossary.after e)).trans (each glossary e)

theorem find?_ofOrder (accepted : (Graph.ofConfig r c).run.value = .ok g) {names : List String}
    {id : NodeId} {e : Element} (emitted : id ∈ (g.emissionOrder names).value)
    (found : g.element? id = some e) {s : Spelling} (spelled : e.spelling? stripped = some s) :
    (ofOrder stripped g (g.emissionOrder names).value).find? e.name = some s := by
  obtain ⟨inner, declared, rfl⟩ := Option.map_eq_some_iff.1 spelled
  have distinct := Graph.nodup_emissionOrder accepted names
  obtain ⟨earlier, later, order⟩ := List.append_of_mem emitted
  rw [order] at distinct ⊢
  -- Declarations of one name are one node, and the order has it here only.
  have others (ids : List NodeId) (apart : id ∉ ids) :
      ∀ e' ∈ ids.filterMap g.element?, e'.inner?.isSome → e'.name ≠ e.name := by
    intro e' mem declared' same
    obtain ⟨other, listed, found'⟩ := List.mem_filterMap.1 mem
    obtain ⟨inner', declared'⟩ := Option.isSome_iff_exists.1 declared'
    have one := Graph.eq_of_name_eq accepted found' found (Element.isDeclaration_of_inner? declared')
      (Element.isDeclaration_of_inner? declared) same
    exact apart (one ▸ listed)
  have notEarlier : id ∉ earlier := fun mem =>
    (List.nodup_append.1 distinct).2.2 id mem id List.mem_cons_self rfl
  have notLater : id ∉ later := (List.nodup_cons.1 (List.nodup_append.1 distinct).2.1).1
  rw [ofOrder_eq_foldl, List.filterMap_append, List.filterMap_cons_some found, List.foldl_append,
    List.foldl_cons, find?_foldl_of_ne (others later notLater), find?_after,
    if_pos ⟨by rw [declared, Option.isSome_some], rfl⟩, declared, Option.map_some,
    find?_foldl_of_ne (others earlier notEarlier)]
  unfold exported
  rw [stripped_foldl]
  rfl

theorem Spells.base_eq {defined : String → Prop} {name : String} {s : Spelling}
    (spells : Spells stripped defined name s) : s.base = s ∧ s ≠ .typedef name := by
  cases spells with
  | scalar listed same => exact ⟨rfl, nofun⟩
  | typedef => exact ⟨rfl, nofun⟩
  | struct => exact ⟨rfl, nofun⟩
  | camel defines => exact ⟨rfl, nofun⟩

end Glossary

def Category.declared : List Category :=
  [.define, .basetype, .handle, .enum, .bitmask, .funcpointer, .struct, .union]

theorem Category.isSome_inner? {t : TypeDecl} (declared : t.category ∈ Category.declared) :
    ∃ inner, (Element.type t).inner? = some inner := by
  unfold Element.inner?
  cases category : t.category with
  | header => simp [category, Category.declared] at declared
  | group => simp [category, Category.declared] at declared
  | other => simp [category, Category.declared] at declared
  | _ => simp only [category]; exact ⟨_, rfl⟩

namespace Item

/-- A type that is written under a name. If the registry declares the name, its type is emitted,
and what is written is made of the spelling that the type is declared with. -/
def Refers (r : Registry) (c : Config) (g : Graph) (name : String) (type : Spelling) : Prop :=
  ∀ t ∈ r.types, t.name = name → t.category ∈ Category.declared →
    Text.trim name = name → name ≠ "" → name ≠ "void" →
      (∃ id ∈ (g.emissionOrder c.enabled).value, g.lookup name = some id) ∧
      (Element.type t).spelling? c.exportPrefixes = some type.base ∧
      (Glossary.ofOrder c.exportPrefixes g (g.emissionOrder c.enabled).value).find? name =
        some type.base ∧
      type.base ≠ .typedef name

theorem spelling?_congr {stripped : List String} {t t' : TypeDecl} (same : t'.sameDefinition t) :
    (Element.type t').spelling? stripped = (Element.type t).spelling? stripped := by
  simp only [TypeDecl.sameDefinition, Bool.and_eq_true, decide_eq_true_eq] at same
  have named : t'.name = t.name := by simp [same]
  have category : t'.category = t.category := by simp [same]
  unfold Element.spelling? Element.inner? Element.name
  simp only [named, category]

section Accepted

variable (accepted : (Graph.ofConfig r c).run.value = .ok g)

include accepted

theorem exists_node {t : TypeDecl} (mem : t ∈ r.types) :
    ∃ id t', g.lookup t.name = some id ∧ g.element? id = some (.type t') ∧ t'.sameDefinition t := by
  obtain ⟨built, accepted', rfl⟩ := Graph.exists_built_of_ofConfig accepted
  obtain ⟨id, t', known, found, same⟩ := (Graph.defines_of_build accepted').exists_type mem
  have grows := (Graph.Additions.applyAll built c.applications).grows
  exact ⟨id, t', by rw [grows.lookup, known], grows.element?_of_some found, same⟩

theorem spelled_of_emitted {t : TypeDecl} {id : NodeId} (mem : t ∈ r.types)
    (declared : t.category ∈ Category.declared)
    (emitted : id ∈ (g.emissionOrder c.enabled).value) (known : g.lookup t.name = some id) :
    ∃ s, (Element.type t).spelling? c.exportPrefixes = some s ∧
      (Glossary.ofOrder c.exportPrefixes g (g.emissionOrder c.enabled).value).find? t.name =
        some s := by
  obtain ⟨id', t', known', node, same⟩ := exists_node accepted mem
  cases known.symm.trans known'
  obtain ⟨s, isInner⟩ := Category.isSome_inner? declared
  have spelled := congrArg
    (Option.map fun inner => ((Glossary.ofScalars c.exportPrefixes).find? t.name).getD
      (.exported inner c.exportPrefixes)) isInner
  have sameName : (Element.type t').name = t.name := by
    simp only [TypeDecl.sameDefinition, Bool.and_eq_true, decide_eq_true_eq] at same
    simp [Element.name, same]
  have entered := Glossary.find?_ofOrder accepted emitted node ((spelling?_congr same).trans spelled)
  rw [sameName] at entered
  exact ⟨_, spelled, entered⟩

theorem refers_of_reference {id : NodeId} {e : Element} {name : String} {type : Spelling}
    (emitted : id ∈ (g.emissionOrder c.enabled).value) (found : g.element? id = some e)
    (declares : e.IsDeclaration) (inner : e.isTerminal = false) (listed : name ∈ e.references)
    {glossary : Glossary} (known : IsKnown c g (g.emissionOrder c.enabled).value glossary)
    (written : name ≠ "" → name ≠ "void" → ∀ s, glossary.find? name = some s → type.base = s.base) :
    Refers r c g name type := by
  rintro t mem rfl declared whole nonempty notVoid
  obtain ⟨parent, -, lookup, -, -⟩ := exists_node accepted mem
  have listed := Graph.mem_emissionOrder_of_reference accepted emitted found declares inner listed
    whole nonempty lookup
  obtain ⟨s, spelled, entered⟩ := spelled_of_emitted accepted mem declared listed lookup
  have kept := known.keeps _ _ entered
  obtain ⟨isBase, notRaw⟩ := (known.faithful.spells _ _ kept).base_eq
  rw [(written nonempty notVoid _ kept).trans isBase]
  exact ⟨⟨parent, listed, lookup⟩, spelled, entered, notRaw⟩

theorem refers_memberType {id : NodeId} {e : Element} {name : String}
    (emitted : id ∈ (g.emissionOrder c.enabled).value) (found : g.element? id = some e)
    (declares : e.IsDeclaration) (inner : e.isTerminal = false) (listed : name ∈ e.references)
    {glossary : Glossary} (known : IsKnown c g (g.emissionOrder c.enabled).value glossary)
    (len : Option String) (raw : String) : Refers r c g name (glossary.memberType name len raw) := by
  refine refers_of_reference accepted emitted found declares inner listed known ?_
  intro nonempty notVoid s spelled
  unfold Glossary.memberType
  simp only [Declarator.baseName_eq raw nonempty notVoid, spelled, Option.getD_some,
    Declarator.Layers.base_apply]

theorem refers_resultOf {id : NodeId} {e : Element} {p : Prototype}
    (emitted : id ∈ (g.emissionOrder c.enabled).value) (found : g.element? id = some e)
    (declares : e.IsDeclaration) (inner : e.isTerminal = false) (listed : p.typeName ∈ e.references)
    {glossary : Glossary} (known : IsKnown c g (g.emissionOrder c.enabled).value glossary) :
    Refers r c g p.typeName (resultOf glossary p) := by
  refine refers_of_reference accepted emitted found declares inner listed known ?_
  intro _ _ s spelled
  unfold resultOf
  rw [spelled, Option.getD_some]

/-- Structures and commands have the types of their members, parameters and results spelled as
these types are declared. -/
theorem types_referred :
    (∀ item, .struct item ∈ (build c g (g.emissionOrder c.enabled).value).value →
      ∃ t ∈ r.types, t.category = .struct ∧ item.name.c = t.name ∧
        List.Forall₂ (fun m field => Refers r c g m.typeName field.type) t.members item.fields) ∧
    ∀ item, .command item ∈ (build c g (g.emissionOrder c.enabled).value).value →
      ∃ command ∈ r.commands, item.name.c = command.name ∧
        Refers r c g command.proto.typeName item.result ∧
        List.Forall₂ (fun p param => Refers r c g p.typeName param.type) command.params
          item.params := by
  constructor
  · intro item mem
    obtain ⟨id, emitted, made⟩ := exists_node_of_item c mem (by simp)
    obtain ⟨t, found, isStruct, named, glossary, known, fields⟩ := made.struct item rfl
    have defined := (Graph.declaration_of_ofConfig accepted found (.inl rfl)).1
    refine ⟨t, Registry.type_mem_definitions.1 defined, isStruct, named.c_eq, ?_⟩
    rw [fields, List.forall₂_map_right_iff]
    refine List.forall₂_same.2 fun m mem => ?_
    refine refers_memberType accepted emitted found (.inl rfl) ?_
      (TypeDecl.mem_references.2 (.member mem)) known m.len m.raw
    simp [Element.isTerminal, Element.type?, isStruct, Category.isTerminal]
  · intro item mem
    obtain ⟨id, emitted, made⟩ := exists_node_of_item c mem (by simp)
    obtain ⟨command, found, -, named, glossary, known, result, params⟩ := made.command item rfl
    have defined := (Graph.declaration_of_ofConfig accepted found (.inr rfl)).1
    refine ⟨command, Registry.command_mem_definitions.1 defined, named.c_eq, ?_, ?_⟩
    · rw [result]
      exact refers_resultOf accepted emitted found (.inr rfl) rfl
        (Command.mem_references.2 .result) known
    · rw [params, List.forall₂_map_right_iff]
      refine List.forall₂_same.2 fun p mem => ?_
      exact refers_memberType accepted emitted found (.inr rfl) rfl
        (Command.mem_references.2 (.parameter mem)) known p.len p.raw

end Accepted

-- A structure that refers to itself and to a handle, and a command with it and with an enum type.
def hoistTypes : List TypeDecl := [
  { name := "VkBoat", category := .handle },
  { name := "VkSail"
    category := .struct
    members := [
      { name := "next", typeName := "VkSail", raw := "const VkSail* next" },
      { name := "boat", typeName := "VkBoat", raw := "VkBoat boat" }] },
  { name := "VkTurn", category := .enum }]

def hoistCommand : Command where
  proto := { typeName := "VkTurn", name := "vkHoist", raw := "VkTurn vkHoist" }
  params := [{ name := "sails", typeName := "VkSail", raw := "VkSail* sails" }]

def hoistExtension : Extension where
  name := "VK_KHR_sail"
  number := 1
  require := [{ commands := ["vkHoist"] }]

def hoistRegistry : Registry where
  types := hoistTypes
  commands := [hoistCommand]
  extensions := [hoistExtension]

def sailConfig : Config where
  features := []
  extensions := ["VK_KHR_sail"]

def hoistGraph : Graph where
  nodes := #[⟨.virtual "API Constants", [], []⟩,
    ⟨.type hoistTypes[0], [], []⟩,
    ⟨.type hoistTypes[1], [1], []⟩,
    ⟨.type hoistTypes[2], [], []⟩,
    ⟨.command hoistCommand, [3, 2], []⟩,
    ⟨.extension hoistExtension, [4], []⟩]
  dictionary := (((((∅ : Std.TreeMap String NodeId).insert "VkBoat" 1).insert "VkSail" 2).insert
    "VkTurn" 3).insert "vkHoist" 4).insert "VK_KHR_sail" 5
  enabled := ["VK_KHR_sail"]

theorem hoist_referred :
    (Graph.ofConfig hoistRegistry sailConfig).run.value = .ok hoistGraph ∧
      Refers hoistRegistry sailConfig hoistGraph "VkTurn" (publicName "VkTurn") ∧
      Refers hoistRegistry sailConfig hoistGraph "VkSail"
        (.pointer (.exported (.struct "VkSail") ["Vk", "vk"])) := by
  have accepted : (Graph.ofConfig hoistRegistry sailConfig).run.value = .ok hoistGraph := rfl
  have emitted : Item.command ⟨publicName "vkHoist",
      publicName "VkTurn",
      [⟨.reserved (.literal "sails"), .pointer (.exported (.struct "VkSail") ["Vk", "vk"]),
        "VkSail"⟩]⟩ ∈
      (build sailConfig hoistGraph
        (hoistGraph.emissionOrder sailConfig.enabled).value).value := by decide +kernel
  obtain ⟨command, mem, -, result, params⟩ := (types_referred accepted).2 _ emitted
  obtain rfl : command = hoistCommand := List.mem_singleton.1 mem
  cases params with
  | cons first _ => exact ⟨accepted, result, first⟩

-- A handle without a name, and a structure with a member that says no type.
def buoyTypes : List TypeDecl := [
  { name := "", category := .handle },
  { name := "VkBuoy", category := .struct, members := [{ name := "x", typeName := "" }] }]

def buoyExtension : Extension where
  name := "VK_KHR_sail"
  number := 1
  require := [{ types := ["VkBuoy"] }]

def buoyRegistry : Registry where
  types := buoyTypes
  extensions := [buoyExtension]

def buoyGraph : Graph where
  nodes := #[⟨.virtual "API Constants", [], []⟩,
    ⟨.type buoyTypes[0], [], []⟩,
    ⟨.type buoyTypes[1], [], []⟩,
    ⟨.extension buoyExtension, [2], []⟩]
  dictionary := (((∅ : Std.TreeMap String NodeId).insert "" 1).insert "VkBuoy" 2).insert
    "VK_KHR_sail" 3
  enabled := ["VK_KHR_sail"]

/-- A member without a type is a number, also where the registry declares a handle without a
name. -/
theorem buoy_not_referred :
    (Graph.ofConfig buoyRegistry sailConfig).run.value = .ok buoyGraph ∧
      (buoyTypes[0]).category ∈ Category.declared ∧ Text.trim (buoyTypes[0]).name = "" ∧
      buoyGraph.lookup "" = some 1 ∧
      1 ∉ (buoyGraph.emissionOrder sailConfig.enabled).value ∧
      (build sailConfig buoyGraph (buoyGraph.emissionOrder sailConfig.enabled).value).value =
        [.constants [], .struct ⟨.exported (.struct "VkBuoy") ["Vk", "vk"],
          [⟨.exported (.reserved (.literal "x")) ["Vk", "vk"], .scalar .uint32, none, false, none⟩],
          false⟩] := by
  refine ⟨rfl, ?_, ?_, ?_, ?_, ?_⟩ <;> decide +kernel

end Item

end VulkanBindings
