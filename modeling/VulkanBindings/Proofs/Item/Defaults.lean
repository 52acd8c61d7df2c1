import VulkanBindings.Proofs.Item.Enumerated

/-! The default values of structures. A structure's type member starts out with a constant of the
registry, which the items declare if what adds it is configured. -/

set_option autoImplicit false

namespace VulkanBindings

open VulkanBindings.Graph Glossary Requirement

theorem Item.go_publicName {name : String} (starts : "VK_".toList <+: name.toList) :
    (publicName name).go = name := by
  obtain ⟨rest, whole⟩ := starts
  have upper : Text.Casing.upperChar 'V' = ['V'] := by decide
  have kept : Spelling.capital (Spelling.strip ["Vk", "vk"] name.toList) = name.toList := by
    rw [← whole]
    simp [Spelling.strip, Text.afterStart?, Spelling.capital, upper]
  change String.ofList (Spelling.capital (Spelling.strip ["Vk", "vk"] name.toList)) = name
  rw [kept, String.ofList_toList]

/-- Names that are public as they are, the scalars and defines apart, are spelled so in Go. -/
theorem Glossary.Spells.go_eq {defined : String → Prop} {name : String} {s : Spelling}
    (spells : Spells ["Vk", "vk"] defined name s) (isPublic : (Item.publicName name).go = name)
    (other : ¬defined name) : s.go = name := by
  cases spells with
  | @scalar s listed same =>
    subst same
    have lower : ∀ s ∈ Scalar.all, (Item.publicName s.c).go ≠ s.c := by decide +kernel
    exact absurd isPublic (lower s listed)
  | typedef => exact isPublic
  | struct => exact isPublic
  | camel defines => exact absurd defines other

namespace Item

variable {r : Registry} {c : Config} {g built : Graph} {q : Requirement} {t : TypeDecl} {b : EnumBlock}

-- The name of a value is not that of an emitted type.
theorem not_isDefine (accepted : (Graph.build r c.enabled).run.value = .ok built)
    (adds : q.Enumerates r c t b) (notApi : q.name ≠ "VK_API_VERSION")
    (notHeader : q.name ≠ "VK_HEADER_VERSION") (order : List NodeId) :
    ¬IsDefine (built.applyAll c.applications).value order q.name := by
  have defines := defines_of_build accepted
  have steps := Additions.applyAll built c.applications
  have applied := ((wellFormed_of_build accepted).additions steps).2
  rintro (api | header | ⟨id, -, t', found, -, same⟩)
  · exact notApi api
  · exact notHeader header
  · have isType : (built.applyAll c.applications).value.HasKind id .type := ⟨_, found, rfl⟩
    have old : id < built.size := by
      by_contra new
      have isValue := (applied.added id (Nat.not_lt.1 new) (lt_size_of_element? found)).isValue
      cases isType.unique isValue
    rw [(Additions.grows steps).elements id old] at found
    have defined := Registry.requirement_mem_definitions (adds.mem_requirements accepted)
      (by simpa using adds.not_isReference)
    obtain ⟨id', v, known, found', -⟩ := defines.exists_value defined
    rcases defines.sound id _ found with isBlock | isVirtual | ⟨-, known'⟩
    · cases isBlock
    · cases isVirtual
    · change built.lookup t'.name = some id at known'
      change built.lookup q.name = some id' at known
      rw [same, known] at known'
      cases known'
      cases found.symm.trans found'

/-- The constant that a structure starts out with is declared, if the configuration adds it. -/
theorem defaults_declared (accepted : (ofConfig r c).run.value = .ok g)
    (prefixes : c.exportPrefixes = ["Vk", "vk"]) {struct : StructItem}
    (declared : .struct struct ∈ (Item.build c g (g.emissionOrder c.enabled).value).value)
    {field : FieldItem} (mem : field ∈ struct.fields) {value : Spelling}
    (only : field.value = some value) (named : q.name = value.c) (adds : q.Enumerates r c t b)
    (free : q.IsUndisturbed r c t b) (whole : Text.trim t.name = t.name) :
    ∃ item, .enum item ∈ (Item.build c g (g.emissionOrder c.enabled).value).value ∧
      ∃ entry ∈ item.entries, entry.name.c = value.c ∧
        ((publicName value.c).go = value.c → value.c ≠ "VK_API_VERSION" →
          value.c ≠ "VK_HEADER_VERSION" → entry.name.go = value.go) := by
  obtain ⟨text, rfl⟩ := hasTextDefaults c declared field mem value only
  obtain ⟨built, accepted', same⟩ := exists_built_of_ofConfig accepted
  obtain ⟨id, item, known, emitted, -, lists⟩ :=
    exists_enum_of_enumerates accepted' same adds whole free.named
  subst same
  obtain ⟨v, held, sameName, valued⟩ := adds.exists_enumerator accepted' free known
  obtain ⟨entry, listed, describes⟩ := lists.complete v held valued
  have spells := describes.name
  rw [sameName, named, prefixes] at spells
  refine ⟨item, emitted, entry, listed, spells.c_eq, fun isPublic notApi notHeader => ?_⟩
  refine spells.go_eq isPublic ?_
  have other := not_isDefine accepted' adds (named ▸ notApi) (named ▸ notHeader)
    ((built.applyAll c.applications).value.emissionOrder c.enabled).value
  rwa [named] at other

-- An extension that has a structure with its constant, and one that depends on it.
def sailType : TypeDecl where
  name := "VkSail"
  category := .struct
  members := [
    { name := "sType", typeName := "VkStructureType", values := some "VK_STRUCTURE_TYPE_SAIL" }]

def sailEnum : Requirement where
  enum := {
    element := { name := "VK_STRUCTURE_TYPE_SAIL" }
    extends? := some "VkStructureType"
    offset := some 0 }
  number := some 1

def sailExtension : Extension where
  name := "VK_KHR_sail"
  number := 1
  require := [{ types := ["VkSail"], enums := [sailEnum.enum] }]

def boatExtension : Extension where
  name := "VK_KHR_boat"
  number := 2
  depends := some "VK_KHR_sail"

def sailRegistry : Registry where
  types := [{ name := "VkStructureType", category := .enum }, sailType]
  enums := [{ name := "VkStructureType", kind := .enum }]
  extensions := [sailExtension, boatExtension]

def boatConfig (others : List String) : Config where
  features := []
  extensions := "VK_KHR_boat" :: others

def boatGraph (others : List String) : Graph :=
  let built : Graph := {
    nodes := #[⟨.virtual "API Constants", [], []⟩,
      ⟨.type { name := "VkStructureType", category := .enum }, [6], []⟩,
      ⟨.type sailType, [1], []⟩,
      ⟨.extension sailExtension, [2, 1, 4], []⟩,
      ⟨.value { name := "VK_STRUCTURE_TYPE_SAIL" }, [], []⟩,
      ⟨.extension boatExtension, [3], []⟩,
      ⟨.block ⟨"VkStructureType", .enum, none, none⟩, [], []⟩]
    dictionary := (((((∅ : Std.TreeMap String NodeId).insert "VkStructureType" 1).insert "VkSail"
      2).insert "VK_KHR_sail" 3).insert "VK_STRUCTURE_TYPE_SAIL" 4).insert "VK_KHR_boat" 5
    enabled := (boatConfig others).enabled }
  (built.applyAll (boatConfig others).applications).value

def sailStruct : StructItem where
  name := .exported (.struct "VkSail") ["Vk", "vk"]
  fields := [{
    name := .exported (.reserved (.literal "sType")) ["Vk", "vk"]
    type := publicName "VkStructureType"
    value := some (.literal "VK_STRUCTURE_TYPE_SAIL")
    isCopied := false
    length := none }]
  isReadOnly := false

def boatItems (others : List String) : List Item :=
  let g := boatGraph others
  (Item.build (boatConfig others) g (g.emissionOrder (boatConfig others).enabled).value).value

theorem sail_declared :
    (ofConfig sailRegistry (boatConfig ["VK_KHR_sail"])).run.value =
        .ok (boatGraph ["VK_KHR_sail"]) ∧
      sailEnum.Enumerates sailRegistry (boatConfig ["VK_KHR_sail"]) sailRegistry.types[0]
        sailRegistry.enums[0] ∧
      sailEnum.IsUndisturbed sailRegistry (boatConfig ["VK_KHR_sail"]) sailRegistry.types[0]
        sailRegistry.enums[0] ∧
      .struct sailStruct ∈ boatItems ["VK_KHR_sail"] ∧
      ∃ item, .enum item ∈ boatItems ["VK_KHR_sail"] ∧
        ∃ entry ∈ item.entries, entry.name.go = "VK_STRUCTURE_TYPE_SAIL" := by
  have accepted : (ofConfig sailRegistry (boatConfig ["VK_KHR_sail"])).run.value =
      .ok (boatGraph ["VK_KHR_sail"]) := rfl
  have whole : Text.trim "VkStructureType" = "VkStructureType" := by decide +kernel
  have adds : sailEnum.Enumerates sailRegistry (boatConfig ["VK_KHR_sail"]) sailRegistry.types[0]
      sailRegistry.enums[0] :=
    ⟨by decide +kernel, rfl, by decide, rfl, rfl, rfl, by decide +kernel⟩
  have free : sailEnum.IsUndisturbed sailRegistry (boatConfig ["VK_KHR_sail"])
      sailRegistry.types[0] sailRegistry.enums[0] :=
    ⟨by decide, by decide +kernel, by decide +kernel⟩
  have declared : .struct sailStruct ∈ boatItems ["VK_KHR_sail"] := by decide +kernel
  obtain ⟨item, mem, entry, listed, -, sameInGo⟩ :=
    defaults_declared accepted rfl declared List.mem_cons_self rfl rfl adds free whole
  exact ⟨accepted, adds, free, declared, item, mem, entry, listed,
    sameInGo (go_publicName (by decide)) (by decide) (by decide)⟩

/-- An extension that is not configured is emitted for what depends on it, and its structure starts
out with a constant that no item declares. -/
theorem sail_not_declared :
    (ofConfig sailRegistry (boatConfig [])).run.value = .ok (boatGraph []) ∧
      (boatGraph []).lookup "VK_KHR_sail" = some 3 ∧
      3 ∈ ((boatGraph []).emissionOrder (boatConfig []).enabled).value ∧
      sailEnum ∈ (boatGraph []).requirements (.extension "VK_KHR_sail") ∧
      (boatGraph []).offer? sailEnum =
        some (6, { name := "VK_STRUCTURE_TYPE_SAIL", value := some "1000000000" }) ∧
      boatItems [] = [.constants [],
        .enum ⟨publicName "VkStructureType", .scalar .uint32, []⟩,
        .struct sailStruct] := by
  refine ⟨rfl, ?_, ?_, ?_, ?_, ?_⟩ <;> decide +kernel

end Item

end VulkanBindings
