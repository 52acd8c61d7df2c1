import VulkanBindings.Proofs.Item.Referred

/-! Other names for types. With such a type, the type that it names is emitted unless what the
other name depends on is not followed; and where both are emitted, the items say so. -/

set_option autoImplicit false

namespace VulkanBindings.Item

open Naming

variable {r : Registry} {c : Config} {g : Graph}

/-- Another name for a type, with both names as they are declared. -/
structure IsSynonymOf (stripped : List String) (t target : TypeDecl) (name s : Spelling) :
    Prop where
  named : name.c = t.name
  declared : t.category ∈ Category.declared → (Element.type t).spelling? stripped = some name
  target : (Element.type target).spelling? stripped = some s

theorem ofNode_of_alias (config : Config) {id : NodeId} {t : TypeDecl} {target : String}
    (found : g.element? id = some (.type t)) (renamed : t.aliasOf = some target) :
    ofNode config g id = ofAlias t target := by
  unfold ofNode
  rw [found]
  dsimp only
  unfold ofType
  rw [renamed]

theorem meets_ofAlias_known {order : List NodeId} {target : String} {s : Spelling}
    (known : (Glossary.ofOrder c.exportPrefixes g order).find? target = some s) (t : TypeDecl) :
    Meets (IsKnown c g order) (ofAlias t target) fun item? =>
      ∃ name, item? = some (.synonym name s) ∧ IsSpellingOf c g order t.name name := by
  unfold ofAlias
  refine .bind .get fun glossary continues => ?_
  rw [continues.keeps _ _ known]
  refine .bind (Q := IsSpellingOf c g order t.name) ?_ fun name holds => .pure ⟨name, rfl, holds⟩
  split
  · exact meets_struct c t.name
  · exact meets_named c t.name

/-- An emitted type that is another name for a type of the registry has that type emitted with it,
unless it is terminal or the name cannot be linked. Where that type is emitted, there is an item
that makes the one name stand for the other. -/
theorem synonyms_declared (accepted : (Graph.ofConfig r c).run.value = .ok g) {id : NodeId}
    {t target : TypeDecl} (emitted : id ∈ (g.emissionOrder c.enabled).value)
    (found : g.element? id = some (.type t)) (renamed : t.aliasOf = some target.name)
    (mem : target ∈ r.types) (declared : target.category ∈ Category.declared) :
    (t.category.isTerminal = false → Text.trim target.name = target.name → target.name ≠ "" →
      ∃ other ∈ (g.emissionOrder c.enabled).value, g.lookup target.name = some other) ∧
    ∀ other ∈ (g.emissionOrder c.enabled).value, g.lookup target.name = some other →
      ∃ name s, .synonym name s ∈ (build c g (g.emissionOrder c.enabled).value).value ∧
        IsSynonymOf c.exportPrefixes t target name s := by
  have isKnown : g.lookup t.name = some id :=
    (Graph.declaration_of_ofConfig accepted found (.inl rfl)).2
  have isOfRegistry : t ∈ r.types :=
    Registry.type_mem_definitions.1 (Graph.declaration_of_ofConfig accepted found (.inl rfl)).1
  constructor
  · intro inner whole nonempty
    obtain ⟨other, -, known, -, -⟩ := exists_node accepted mem
    have refers : target.name ∈ (Element.type t).references :=
      TypeDecl.mem_references.2 (.aliased renamed)
    exact ⟨other, Graph.mem_emissionOrder_of_reference accepted emitted found (.inl rfl) inner refers
      whole nonempty known, known⟩
  · intro other listed known
    obtain ⟨s, spelled, entered⟩ := spelled_of_emitted accepted mem declared listed known
    have meets := meets_ofAlias_known (c := c) entered t
    rw [← ofNode_of_alias c found renamed] at meets
    obtain ⟨item?, ⟨name, rfl, spells⟩, made⟩ := exists_item_of_node c emitted meets
    refine ⟨name, s, made _ rfl, spells.named, fun isDeclared => ?_, spelled⟩
    obtain ⟨s', spelled', entered'⟩ := spelled_of_emitted accepted isOfRegistry isDeclared emitted
      isKnown
    rw [spelled', spells.known s' entered']

-- Names for handles one after the other, and one for an enum type, which is terminal.
def skiffTypes : List TypeDecl := [
  { name := "VkSkiff", category := .handle },
  { name := "VkSkiffKHR", category := .handle, aliasOf := some "VkSkiff" },
  { name := "VkSkiffEXT", category := .handle, aliasOf := some "VkSkiffKHR" },
  { name := "VkTurn", category := .enum },
  { name := "VkTurnKHR", category := .enum, aliasOf := some "VkTurn" }]

def skiffExtension : Extension where
  name := "VK_KHR_skiff"
  number := 1
  require := [{ types := ["VkSkiffEXT", "VkTurnKHR"] }]

def skiffRegistry : Registry where
  types := skiffTypes
  extensions := [skiffExtension]

def skiffConfig : Config where
  features := []
  extensions := ["VK_KHR_skiff"]

def skiffGraph : Graph where
  nodes := #[⟨.virtual "API Constants", [], []⟩,
    ⟨.type skiffTypes[0], [], []⟩,
    ⟨.type skiffTypes[1], [1], []⟩,
    ⟨.type skiffTypes[2], [2], []⟩,
    ⟨.type skiffTypes[3], [], []⟩,
    ⟨.type skiffTypes[4], [4], []⟩,
    ⟨.extension skiffExtension, [3, 5], []⟩]
  dictionary := (((((∅ : Std.TreeMap String NodeId).insert "VkSkiff" 1).insert "VkSkiffKHR" 2).insert
    "VkSkiffEXT" 3).insert "VkTurn" 4).insert "VkTurnKHR" 5 |>.insert "VK_KHR_skiff" 6
  enabled := ["VK_KHR_skiff"]

theorem skiff_declared :
    (Graph.ofConfig skiffRegistry skiffConfig).run.value = .ok skiffGraph ∧
      2 ∈ (skiffGraph.emissionOrder skiffConfig.enabled).value ∧
      ∃ name s, .synonym name s ∈ (build skiffConfig skiffGraph
          (skiffGraph.emissionOrder skiffConfig.enabled).value).value ∧
        IsSynonymOf ["Vk", "vk"] skiffTypes[2] skiffTypes[1] name s := by
  have accepted : (Graph.ofConfig skiffRegistry skiffConfig).run.value = .ok skiffGraph := rfl
  have emitted : 3 ∈ (skiffGraph.emissionOrder skiffConfig.enabled).value := by decide +kernel
  have known : skiffGraph.lookup "VkSkiffKHR" = some 2 := by decide +kernel
  have renamed : (skiffTypes[2]).aliasOf = some (skiffTypes[1]).name := rfl
  obtain ⟨follows, listed⟩ :=
    synonyms_declared accepted emitted rfl renamed (by decide +kernel) (by decide +kernel)
  obtain ⟨other, mem, known'⟩ := follows rfl (by decide +kernel) (by decide +kernel)
  obtain rfl : 2 = other := Option.some.inj (known.symm.trans known')
  exact ⟨accepted, mem, listed 2 mem known⟩

/-- The name of an enum type is left out with the type that it stands for, as enum types are
terminal. -/
theorem turn_not_declared :
    (Graph.ofConfig skiffRegistry skiffConfig).run.value = .ok skiffGraph ∧
      5 ∈ (skiffGraph.emissionOrder skiffConfig.enabled).value ∧
      skiffGraph.element? 5 = some (.type skiffTypes[4]) ∧
      (skiffTypes[4]).aliasOf = some (skiffTypes[3]).name ∧
      (skiffTypes[3]).category ∈ Category.declared ∧ skiffGraph.lookup "VkTurn" = some 4 ∧
      4 ∉ (skiffGraph.emissionOrder skiffConfig.enabled).value ∧
      (build skiffConfig skiffGraph (skiffGraph.emissionOrder skiffConfig.enabled).value).value =
        [.constants [], .handle (publicName "VkSkiff") none,
          .synonym (publicName "VkSkiffKHR") (publicName "VkSkiff"),
          .synonym (publicName "VkSkiffEXT") (publicName "VkSkiffKHR")] := by
  refine ⟨rfl, ?_, rfl, rfl, ?_, ?_, ?_, ?_⟩ <;> decide +kernel

end VulkanBindings.Item
