import VulkanBindings.Proofs.Graph.Enumerators
import VulkanBindings.Proofs.Item.Entries

/-! The way of an enumerator from the feature or extension that adds it to the items: the item of
its type lists it, with what it stands for. -/

set_option autoImplicit false

namespace VulkanBindings

open Glossary

variable {stripped : List String} {defined : String → Prop}

namespace Requirement

/-- What an enum is listed with: the spelling of the constant that it is another name for, its
text, the number of its place, or its bit. -/
def StandsFor (stripped : List String) (defined : String → Prop) (q : Requirement)
    (isBitmask : Bool) (s : Spelling) : Prop :=
  match q.enum.element.aliasOf, q.enum.element.value with
  | some target, _ => s = .literal target ∨ Spells stripped defined target s
  | none, some text => s = .literal text
  | none, none =>
    if isBitmask then ∃ position, q.enum.element.bitPos = some position ∧ s = .bit position
    else ∃ n, q.computed? = some n ∧ s = .literal (toString n)

theorem standsFor_of_value? {q : Requirement} {isBitmask : Bool} {v : EnumValue} {s : Spelling}
    (extending : q.enum.extends?.isSome) (has : q.value? isBitmask = some v)
    (stands : v.Stands stripped defined s) : q.StandsFor stripped defined isBitmask s := by
  unfold value? isComputed at has
  unfold StandsFor
  split at has
  · next computed =>
    simp only [Bool.and_eq_true, Bool.not_eq_true', Option.isNone_iff_eq_none] at computed
    obtain ⟨⟨⟨-, rfl⟩, noAlias⟩, noValue⟩ := computed
    obtain ⟨n, number, rfl⟩ := Option.map_eq_some_iff.1 has
    simp only [EnumValue.Stands, noAlias] at stands
    simp only [noAlias, noValue]
    exact ⟨n, number, stands⟩
  · next given =>
    cases has
    simp only [extending, Bool.true_and, Bool.and_eq_true, Bool.not_eq_true'] at given
    unfold EnumValue.Stands at stands
    cases other : q.enum.element.aliasOf with
    | some target => simpa [other] using stands
    | none =>
      cases text : q.enum.element.value with
      | some text' => simpa [other, text] using stands
      | none =>
        cases bit : q.enum.element.bitPos with
        | none => simp [other, text, bit] at stands
        | some position =>
          simp_all

end Requirement

namespace Item

open VulkanBindings.Graph Requirement

variable {r : Registry} {c : Config} {g built : Graph} {q : Requirement} {t : TypeDecl} {b : EnumBlock}

theorem exists_enum_of_enumerates (accepted : (Graph.build r c.enabled).run.value = .ok built)
    (same : g = (built.applyAll c.applications).value) (adds : q.Enumerates r c t b)
    (whole : Text.trim t.name = t.name) (nonempty : t.name ≠ "") :
    ∃ id item, built.lookup t.name = some id ∧
      .enum item ∈ (Item.build c g (g.emissionOrder c.enabled).value).value ∧
      Spells c.exportPrefixes (IsDefine g (g.emissionOrder c.enabled).value) t.name item.name ∧
      Lists c.exportPrefixes (IsDefine g (g.emissionOrder c.enabled).value) (g.enumValues id)
        item.entries := by
  subst same
  obtain ⟨id, t', known, found, alike⟩ := (defines_of_build accepted).exists_type adds.declared
  simp only [TypeDecl.sameDefinition, Bool.and_eq_true, decide_eq_true_eq] at alike
  have emitted := extended_mem_emissionOrder accepted adds.required adds.extended whole nonempty
    known ⟨_, found, rfl⟩
  have grows := (Additions.applyAll built c.applications).grows
  obtain ⟨item, mem, named, lists⟩ := exists_enum c emitted (grows.element?_of_some found)
    (by rw [← adds.isEnum]; simp [alike]) (by rw [← adds.original]; simp [alike])
  have sameName : t'.name = t.name := by simp [alike]
  exact ⟨id, item, known, mem, sameName ▸ named, lists⟩

/-- What the configuration adds to an enum type is listed by the type's item. -/
theorem enumerators_listed (accepted : (ofConfig r c).run.value = .ok g) (trimmed : r.Trimmed)
    (adds : q.Enumerates r c t b) (free : q.IsUndisturbed r c t b) :
    ∃ item, .enum item ∈ (Item.build c g (g.emissionOrder c.enabled).value).value ∧
      item.name.c = t.name ∧ (∃ entry ∈ item.entries, entry.name.c = q.name) ∧
      (r.definitions.filter (·.name = q.name) = [.value q.enum.element] →
        ∀ entry ∈ item.entries, entry.name.c = q.name →
          q.StandsFor c.exportPrefixes (IsDefine g (g.emissionOrder c.enabled).value)
            (decide (b.kind = .bitmask)) entry.value) := by
  obtain ⟨built, accepted', same⟩ := exists_built_of_ofConfig accepted
  have whole := trimmed (.type t) (Registry.type_mem_definitions.2 adds.declared)
  obtain ⟨id, item, known, mem, named, lists⟩ :=
    exists_enum_of_enumerates accepted' same adds whole free.named
  subst same
  refine ⟨item, mem, named.c_eq, ?_, ?_⟩
  · obtain ⟨v, value, sameName, valued⟩ := adds.exists_enumerator accepted' free known
    obtain ⟨entry, listed, describes⟩ := lists.complete v value valued
    exact ⟨entry, listed, by rw [describes.name.c_eq, sameName]⟩
  · intro only entry listed sameName
    obtain ⟨v, value, describes⟩ := lists.sound entry listed
    rw [describes.name.c_eq] at sameName
    have has := adds.value?_eq accepted' trimmed free known only value sameName
    exact standsFor_of_value? (by simp [adds.extended]) has describes.value

def turnConfig : Config where
  features := []
  extensions := ["VK_KHR_turn_back"]

def turnBackEnum : Requirement where
  enum := { element := { name := "VK_TURN_BACK" }, extends? := some "VkTurn", offset := some 1 }
  number := some 7

def turnedGraph : Graph :=
  ({ turnGraph with enabled := ["VK_KHR_turn_back"] }.applyAll turnConfig.applications).value

theorem turnBack_listed :
    (ofConfig turnRegistry turnConfig).run.value = .ok turnedGraph ∧ turnRegistry.Trimmed ∧
      turnBackEnum.Enumerates turnRegistry turnConfig turnRegistry.types[0] turnRegistry.enums[0] ∧
      turnBackEnum.IsUndisturbed turnRegistry turnConfig turnRegistry.types[0]
        turnRegistry.enums[0] ∧
      ∃ item, .enum item ∈ (Item.build turnConfig turnedGraph
          (turnedGraph.emissionOrder turnConfig.enabled).value).value ∧
        ∃ entry ∈ item.entries, entry.name.c = "VK_TURN_BACK" ∧
          entry.value = .literal "1000006001" := by
  have accepted : (ofConfig turnRegistry turnConfig).run.value = .ok turnedGraph := rfl
  have trimmed : turnRegistry.Trimmed := by decide +kernel
  have adds : turnBackEnum.Enumerates turnRegistry turnConfig turnRegistry.types[0]
      turnRegistry.enums[0] :=
    ⟨by decide +kernel, rfl, by decide, rfl, rfl, rfl, by decide +kernel⟩
  have free : turnBackEnum.IsUndisturbed turnRegistry turnConfig turnRegistry.types[0]
      turnRegistry.enums[0] :=
    ⟨by decide, by decide +kernel, by decide +kernel⟩
  obtain ⟨item, mem, -, ⟨entry, listed, named⟩, stands⟩ :=
    enumerators_listed accepted trimmed adds free
  have only : turnRegistry.definitions.filter (·.name = turnBackEnum.name) =
      [.value turnBackEnum.enum.element] := by decide +kernel
  obtain ⟨n, number, value⟩ := stands only entry listed named
  have place : turnBackEnum.computed? = some 1000006001 := by decide +kernel
  cases place.symm.trans number
  exact ⟨accepted, trimmed, adds, free, item, mem, entry, listed, named, value⟩

def publicName (name : String) : Spelling := .exported (.typedef name) ["Vk", "vk"]

-- A feature that only refers to a bit, which an extension defines.
def moveBackEnum : Requirement where
  enum := {
    element := { name := "VK_MOVE_BACK_BIT", bitPos := some 3 }
    extends? := some "VkMoveFlagBits" }
  number := some 1

def moveFeature : Feature where
  name := "VK_VERSION_1_0"
  require := [{ enums := [
    { element := { name := "VK_MOVE_BACK_BIT" }, extends? := some "VkMoveFlagBits" }] }]

def moveExtension : Extension where
  name := "VK_KHR_back"
  number := 1
  require := [{ enums := [moveBackEnum.enum] }]

def moveRegistry : Registry where
  types := [{ name := "VkMoveFlagBits", category := .enum }]
  enums := [{ name := "VkMoveFlagBits", kind := .bitmask }]
  features := [moveFeature]
  extensions := [moveExtension]

def moveConfig : Config where
  features := ["VK_VERSION_1_0"]
  extensions := ["VK_KHR_back"]

def moveGraph : Graph :=
  let built : Graph := {
    nodes := #[⟨.virtual "API Constants", [], []⟩,
      ⟨.type { name := "VkMoveFlagBits", category := .enum }, [5], []⟩,
      ⟨.feature moveFeature, [1, 4], []⟩,
      ⟨.extension moveExtension, [1, 4], []⟩,
      ⟨.value moveBackEnum.enum.element, [], []⟩,
      ⟨.block ⟨"VkMoveFlagBits", .bitmask, none, none⟩, [], []⟩]
    dictionary := ((((∅ : Std.TreeMap String NodeId).insert "VkMoveFlagBits" 1).insert
      "VK_VERSION_1_0" 2).insert "VK_KHR_back" 3).insert "VK_MOVE_BACK_BIT" 4
    enabled := moveConfig.enabled }
  (built.applyAll moveConfig.applications).value

/-- The feature adds the name alone to the bits. The extension finds the name there, and the item
lists nothing. -/
theorem moveBack_not_listed :
    (ofConfig moveRegistry moveConfig).run.value = .ok moveGraph ∧ moveRegistry.Trimmed ∧
      moveBackEnum.Enumerates moveRegistry moveConfig moveRegistry.types[0] moveRegistry.enums[0] ∧
      moveRegistry.definitions.filter (·.name = moveBackEnum.name) =
        [.value moveBackEnum.enum.element] ∧
      (Item.build moveConfig moveGraph (moveGraph.emissionOrder moveConfig.enabled).value).value =
        [.constants [],
          .enum ⟨publicName "VkMoveFlagBits", .scalar .uint32, []⟩] := by
  refine ⟨rfl, by decide +kernel, ?_, by decide +kernel, by decide +kernel⟩
  exact ⟨by decide +kernel, rfl, by decide, rfl, rfl, rfl, by decide +kernel⟩

end Item

end VulkanBindings
