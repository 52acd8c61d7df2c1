import VulkanBindings.Proofs.Graph.Configured

/-! The enumerators that a configuration adds to the enum types of a registry: each of them is a
value of its type in the resulting graph. -/

set_option autoImplicit false

namespace VulkanBindings

variable {r : Registry} {c : Config} {q : Requirement} {t : TypeDecl} {b : EnumBlock}

/-- No name has white space around it. -/
def Registry.Trimmed (r : Registry) : Prop := ∀ d ∈ r.definitions, Text.trim d.name = d.name

instance : Decidable r.Trimmed :=
  inferInstanceAs (Decidable (∀ d ∈ r.definitions, Text.trim d.name = d.name))

namespace Requirement

/-- An enum that the configuration adds to an enum type, whose first block is `b`. -/
structure Enumerates (r : Registry) (c : Config) (q : Requirement) (t : TypeDecl) (b : EnumBlock) :
    Prop where
  required : q ∈ r.requiredBy c
  extended : q.enum.extends? = some t.name
  declared : t ∈ r.types
  isEnum : t.category = .enum
  original : t.aliasOf = none
  block : r.enums.find? (·.name = t.name) = some b
  valued : q.enum.element.value.isSome ∨ q.enum.element.aliasOf.isSome ∨
    if b.kind = .bitmask then q.enum.element.bitPos.isSome else q.computed?.isSome

/-- Nothing that the graph takes for the same definition keeps the enum's name without a value. -/
structure IsUndisturbed (r : Registry) (c : Config) (q : Requirement) (t : TypeDecl)
    (b : EnumBlock) : Prop where
  named : t.name ≠ ""
  unlisted : q.enum.element.isBare → ∀ v ∈ b.values, Text.trim v.name ≠ q.name
  unreferenced : b.kind = .bitmask → ∀ q' ∈ r.requiredBy c, q'.name = q.name →
    q'.enum.extends? = some t.name → ¬q'.enum.isReference

theorem Enumerates.not_isReference (h : Enumerates r c q t b) : ¬q.enum.isReference := by
  intro reference
  obtain ⟨bare, nowhere⟩ := RequiredEnum.isReference_iff.1 reference
  simp only [EnumValue.isBare, Bool.and_eq_true, Option.isNone_iff_eq_none] at bare
  simpa [bare, computed?_of_offset nowhere] using h.valued

theorem not_isBare_of_value? {v : EnumValue} (extending : q.enum.extends?.isSome)
    (has : q.value? false = some v) : ¬v.isBare := by
  unfold value? at has
  split at has
  · obtain ⟨n, -, rfl⟩ := Option.map_eq_some_iff.1 has
    simp [EnumValue.isBare]
  · next given =>
    cases has
    intro bare
    simp only [EnumValue.isBare, Bool.and_eq_true] at bare
    simp [isComputed, extending, bare] at given

theorem Enumerates.exists_value? (h : Enumerates r c q t b) :
    ∃ v, q.value? (decide (b.kind = .bitmask)) = some v := by
  have valued := h.valued
  unfold value? isComputed
  rw [h.extended]
  split
  · next computed =>
    simp only [Bool.and_eq_true, Option.isNone_iff_eq_none, Bool.not_eq_true',
      decide_eq_false_iff_not] at computed
    obtain ⟨⟨⟨-, other⟩, noAlias⟩, noValue⟩ := computed
    simp only [noAlias, noValue, other, Option.isSome_none, Bool.false_eq_true, ↓reduceIte,
      false_or] at valued
    obtain ⟨n, number⟩ := Option.isSome_iff_exists.1 valued
    exact ⟨_, by rw [number, Option.map_some]⟩
  · exact ⟨_, rfl⟩

end Requirement

-- If a name has one definition, no enum block lists it beside a requirement that defines it, and no
-- two requirements do.
theorem Registry.eq_of_definitions {name : String} {d : Element}
    (only : r.definitions.filter (·.name = name) = [d]) {q : Requirement}
    (required : q ∈ r.requirements) (defines : ¬q.enum.isReference) (named : q.name = name) :
    (∀ b ∈ r.enums, ∀ v ∈ b.values, v.name ≠ name) ∧
      ∀ q' ∈ r.requirements, ¬q'.enum.isReference → q'.name = name → q' = q := by
  have within := (r.values_sublist_definitions.filter (·.name = name)).length_le
  rw [only, List.filter_append, List.length_append, List.filter_map, List.filter_map,
    List.length_map, List.length_map, List.length_singleton] at within
  generalize listed : (r.enums.flatMap (·.values)).filter _ = values at within
  generalize defined : (r.requirements.filter (!·.enum.isReference)).filter _ = requirements at within
  have mem {q : Requirement} (required : q ∈ r.requirements) (defines : ¬q.enum.isReference)
      (named : q.name = name) : q ∈ requirements := by
    rw [← defined]
    refine List.mem_filter.2 ⟨List.mem_filter.2 ⟨required, by simpa using defines⟩, ?_⟩
    exact decide_eq_true named
  have one := List.length_pos_of_mem (mem required defines named)
  constructor
  · intro b block v mem same
    have another : v ∈ values := by
      rw [← listed]
      exact List.mem_filter.2 ⟨List.mem_flatMap.2 ⟨b, block, mem⟩, decide_eq_true same⟩
    have := List.length_pos_of_mem another
    omega
  · intro q' required' defines' named'
    obtain ⟨q'', single⟩ := List.length_eq_one_iff.1 (show requirements.length = 1 by omega)
    have first := mem required defines named
    have second := mem required' defines' named'
    rw [single, List.mem_singleton] at first second
    rw [first, second]

namespace Graph

variable {g : Graph} {placed : List (NodeId × EnumBlock)}

open Requirement (Enumerates IsUndisturbed)

theorem enumValues_eq_flatMap (g : Graph) (id : NodeId) :
    g.enumValues id = (g.blocksOf id).flatMap g.valuesIn := by
  unfold enumValues
  congr 1
  funext block
  exact (g.valuesIn_eq_filterMap_valuesOf block).symm

theorem Placed.exists_listed (h : g.Placed placed) {block : NodeId} (mem : (block, b) ∈ placed)
    {v : EnumValue} (held : v ∈ g.valuesIn block) :
    ∃ listed ∈ b.values, Text.trim listed.name = v.name ∧
      ∃ id, g.lookup v.name = some id ∧ g.element? id = some (.value v) := by
  obtain ⟨id, edge, found⟩ := List.mem_filterMap.1 held
  obtain ⟨e, found, isValue⟩ := Option.bind_eq_some_iff.1 found
  cases e <;> cases isValue
  obtain ⟨listed, inBlock, known⟩ := h.listed _ mem id edge
  have named := (h.names _ id known).2.1
  rw [name?, found, Option.map_some, Option.some.injEq] at named
  change v.name = _ at named
  exact ⟨listed, inBlock, named.symm, id, by rw [named, known], found⟩

end Graph

namespace Requirement

open VulkanBindings.Graph

variable {g : Graph} {placed : List (NodeId × EnumBlock)} {block : NodeId} {v : EnumValue}

theorem Enumerates.exists_block (h : Enumerates r c q t b) (isPlaced : g.Placed placed)
    (all : placed.map (·.2) = r.enums) {id : NodeId} (known : g.lookup t.name = some id) :
    ∃ block, (block, b) ∈ placed ∧ block ∈ g.blocksOf id ∧ g.block? q = some block := by
  have first := h.block
  rw [← all, List.find?_map] at first
  obtain ⟨⟨block, b'⟩, found, rfl⟩ := Option.map_eq_some_iff.1 first
  have head : (g.blocksOf id).head? = some block := by
    rw [isPlaced.head?_blocksOf known]
    exact congrArg (Option.map (·.1)) found
  refine ⟨block, List.mem_of_find?_eq_some found, List.mem_of_head? head, ?_⟩
  unfold block?
  rw [h.extended]
  simp only [known, Option.bind_some, head]

section Build

variable (accepted : (build r c.enabled).run.value = .ok g)

include accepted

theorem Enumerates.mem_requirements (h : Enumerates r c q t b) : q ∈ r.requirements := by
  obtain ⟨_, -, required⟩ := (mem_requiredBy accepted).1 h.required
  exact (defines_of_build accepted).mem_requirements
    (wellFormed_of_build accepted).toCoherent required

-- A value that the block lists under the name is the same definition.
theorem Enumerates.not_isBare_of_held (h : Enumerates r c q t b) (free : IsUndisturbed r c q t b)
    (isPlaced : g.Placed placed) (mem : (block, b) ∈ placed) (held : v ∈ g.valuesIn block)
    (named : v.name = q.name) : ¬v.isBare := by
  obtain ⟨listed, inBlock, trim, id, known, found⟩ := isPlaced.exists_listed mem held
  intro bare
  have valued : ¬q.enum.element.isBare := fun bare =>
    free.unlisted bare listed inBlock (trim.trans named)
  have defined := Registry.requirement_mem_definitions (h.mem_requirements accepted)
    (by simpa using h.not_isReference)
  obtain ⟨id', v', known', found', same⟩ := (defines_of_build accepted).exists_value defined
  change g.lookup q.name = some id' at known'
  rw [← named, known] at known'
  cases known'
  cases found.symm.trans found'
  rw [EnumValue.isBare_iff_meaning] at bare valued
  exact valued ((EnumValue.meaning_eq_of_sameDefinition same).symm.trans bare)

theorem Enumerates.not_isBare_of_offered (h : Enumerates r c q t b)
    (free : IsUndisturbed r c q t b) {q' : Requirement} (required : q' ∈ r.requiredBy c)
    (named : q'.name = q.name) (extended : q'.enum.extends? = some t.name)
    (has : q'.value? (decide (b.kind = .bitmask)) = some v) : ¬v.isBare := by
  by_cases bits : b.kind = .bitmask
  · have valued : ¬q.enum.element.isBare := by
      have := h.valued
      simp only [EnumValue.isBare, Bool.and_eq_true, Option.isNone_iff_eq_none]
      rintro ⟨⟨noValue, noBit⟩, noAlias⟩
      simp [bits, noValue, noBit, noAlias] at this
    simp only [bits, decide_true, value?_true, Option.some.injEq] at has
    subst has
    obtain ⟨_, -, required'⟩ := (mem_requiredBy accepted).1 required
    have defines := defines_of_build accepted
    have same := defines.meaning_eq
      (defines.mem_requirements (wellFormed_of_build accepted).toCoherent required')
      (h.mem_requirements accepted) named (free.unreferenced bits q' required named extended)
      h.not_isReference
    rw [EnumValue.isBare_iff_meaning] at valued ⊢
    rwa [same]
  · simp only [bits, decide_false] at has
    exact not_isBare_of_value? (by simp [extended]) has

theorem Enumerates.exists_enumerator (h : Enumerates r c q t b) (free : IsUndisturbed r c q t b)
    {id : NodeId} (known : g.lookup t.name = some id) :
    ∃ v ∈ (g.applyAll c.applications).value.enumValues id, v.name = q.name ∧ ¬v.isBare := by
  have wellFormed := wellFormed_of_build accepted
  obtain ⟨placed, all, isPlaced⟩ := exists_placed_of_build accepted
  obtain ⟨block, mem, first, target⟩ := h.exists_block isPlaced all known
  have values := wellFormed.valuesIn_applyAll c.applications (isPlaced.hasKind mem)
  have holds {v : EnumValue} (inBlock : v ∈ g.valuesIn block ∨
      v ∈ EnumValue.firsts (g.namesIn block) (g.offersTo block c.applications)) :
      v ∈ (g.applyAll c.applications).value.enumValues id := by
    rw [enumValues_eq_flatMap, List.mem_flatMap,
      (wellFormed.gainsValues (Additions.applyAll g c.applications)).blocksOf]
    exact ⟨block, first, by rwa [values, List.mem_append]⟩
  by_cases held : q.name ∈ g.namesIn block
  · obtain ⟨v, inBlock, named⟩ := List.mem_map.1 held
    exact ⟨v, holds (.inl inBlock), named,
      h.not_isBare_of_held accepted free isPlaced mem inBlock named⟩
  · -- The block is offered this value, if not another one of the name before.
    obtain ⟨own, has⟩ := h.exists_value?
    obtain ⟨application, applied, required⟩ := (mem_requiredBy accepted).1 h.required
    have offered : own ∈ g.offersTo block c.applications := mem_offersTo.2
      ⟨application, applied, q, required, target, by rw [isPlaced.isBitmask mem, has]⟩
    obtain ⟨v, offered', found, named⟩ := EnumValue.exists_find? offered (name_of_value? has)
    obtain ⟨application', applied', q', required', target', has'⟩ := mem_offersTo.1 offered'
    rw [← EnumValue.find?_firsts held] at found
    rw [isPlaced.isBitmask mem] at has'
    refine ⟨v, holds (.inr (List.mem_of_find?_eq_some found)), named, ?_⟩
    refine h.not_isBare_of_offered accepted free
      ((mem_requiredBy accepted).2 ⟨application', applied', required'⟩) ?_ ?_ has'
    · rw [← name_of_value? has', named]
    · rw [wellFormed.extends?_eq target' target, h.extended]

theorem Enumerates.value?_eq (h : Enumerates r c q t b) (trimmed : r.Trimmed)
    (free : IsUndisturbed r c q t b) {id : NodeId} (known : g.lookup t.name = some id)
    (only : r.definitions.filter (·.name = q.name) = [.value q.enum.element]) {v : EnumValue}
    (value : v ∈ (g.applyAll c.applications).value.enumValues id) (named : v.name = q.name) :
    q.value? (decide (b.kind = .bitmask)) = some v := by
  have wellFormed := wellFormed_of_build accepted
  have defines := defines_of_build accepted
  obtain ⟨unlisted, unique⟩ := Registry.eq_of_definitions only (h.mem_requirements accepted)
    h.not_isReference rfl
  obtain ⟨placed, all, isPlaced⟩ := exists_placed_of_build accepted
  obtain ⟨block, mem, first, target⟩ := h.exists_block isPlaced all known
  rw [enumValues_eq_flatMap, List.mem_flatMap,
    (wellFormed.gainsValues (Additions.applyAll g c.applications)).blocksOf] at value
  obtain ⟨block', owned, inBlock⟩ := value
  obtain ⟨edge, isBlock⟩ := mem_parentsOfKind.1 owned
  rw [wellFormed.valuesIn_applyAll c.applications isBlock, List.mem_append] at inBlock
  -- A value that the registry lists would be one more definition of the name. One that is offered extends the
  -- type, and thus is offered to this block.
  rcases inBlock with held | offered
  · rw [isPlaced.blocksOf] at owned
    obtain ⟨⟨_, b'⟩, placedHere, rfl⟩ := List.mem_map.1 owned
    have mem' := List.mem_of_mem_filter placedHere
    obtain ⟨listed, inBlock, trim, -⟩ := isPlaced.exists_listed mem' held
    have inRegistry : b' ∈ r.enums := all ▸ List.mem_map_of_mem mem'
    have whole := trimmed _ (Registry.value_mem_definitions inRegistry inBlock)
    exact absurd (whole.symm.trans (trim.trans named)) (unlisted b' inRegistry listed inBlock)
  · obtain ⟨application, applied, q', required, target', has⟩ :=
      mem_offersTo.1 (EnumValue.mem_of_mem_firsts offered)
    have named' : q'.name = q.name := by rw [← name_of_value? has, named]
    have extended : q'.enum.extends? = some t.name := by
      obtain ⟨-, owner, ownedBy⟩ := wellFormed.blocks block' isBlock
      obtain rfl := (ownedBy id).1 edge
      obtain ⟨-, isNamed, -, notVirtual⟩ := wellFormed.names t.name id known
      rw [wellFormed.extends?_of_block? target' ownedBy, if_neg, isNamed]
      rintro rfl
      exact notVirtual ⟨_, wellFormed.constants, rfl⟩
    have sameTarget : g.block? q' = g.block? q := by
      unfold block?
      rw [extended, h.extended]
    obtain rfl : block' = block := Option.some.inj (target'.symm.trans (sameTarget.trans target))
    rw [isPlaced.isBitmask mem] at has
    -- A reference has a value only where the values are bits, and there it would disturb.
    have notReference : ¬q'.enum.isReference := by
      intro reference
      by_cases bits : b.kind = .bitmask
      · have given := (mem_requiredBy accepted).2 ⟨application, applied, required⟩
        exact free.unreferenced bits q' given named' extended reference
      · simp only [bits, decide_false] at has
        rw [value?_eq_none_of_isReference reference (by simp [extended])] at has
        cases has
    have known' := defines.mem_requirements wellFormed.toCoherent required
    rwa [unique q' known' notReference named'] at has

end Build

end Requirement

end VulkanBindings
