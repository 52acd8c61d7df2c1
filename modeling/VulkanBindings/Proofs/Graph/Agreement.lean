import VulkanBindings.Proofs.Graph.Blocks
import VulkanBindings.Proofs.Graph.Contribution

/-! What the order of applications decides. A block keeps the first value that it is offered under
a name. The check for conflicting definitions sees to it that the offers under one name agree,
but for what it does not look at: the place among an extension's values, and what only refers to
a definition. -/

set_option autoImplicit false

namespace VulkanBindings

namespace EnumValue

def meaning (v : EnumValue) : Option String × Option Nat × Option String :=
  (v.value, v.bitPos, v.aliasOf)

def isBare (v : EnumValue) : Bool := v.value.isNone && v.bitPos.isNone && v.aliasOf.isNone

theorem isBare_iff_meaning {v : EnumValue} : v.isBare ↔ v.meaning = (none, none, none) := by
  simp [isBare, meaning, and_assoc]

theorem meaning_eq_of_sameDefinition {v v' : EnumValue} (same : v.sameDefinition v') :
    v.meaning = v'.meaning := by
  simp only [sameDefinition, Bool.and_eq_true, decide_eq_true_eq] at same
  simp [meaning, same]

theorem exists_find? {vs : List EnumValue} {v : EnumValue} (mem : v ∈ vs) {name : String}
    (named : v.name = name) :
    ∃ v' ∈ vs, vs.find? (·.name = name) = some v' ∧ v'.name = name := by
  cases found : vs.find? (·.name = name) with
  | none => exact absurd (decide_eq_true named) (List.find?_eq_none.1 found v mem)
  | some v' => exact ⟨v', List.mem_of_find?_eq_some found, rfl, by simpa using List.find?_some found⟩

-- Where the values of a name agree, it does not matter which one comes first.
theorem find?_meaning_congr {vs vs' : List EnumValue} {name : String}
    (same : ∀ v, v ∈ vs ↔ v ∈ vs')
    (agree : ∀ v ∈ vs, ∀ v' ∈ vs, v.name = name → v'.name = name → v.meaning = v'.meaning) :
    (vs.find? (·.name = name)).map meaning = (vs'.find? (·.name = name)).map meaning := by
  cases found : vs.find? (·.name = name) with
  | none =>
    have absent : vs'.find? (·.name = name) = none := by
      rw [List.find?_eq_none] at found ⊢
      exact fun v mem => found v ((same v).2 mem)
    rw [absent]
  | some v =>
    have mem := List.mem_of_find?_eq_some found
    have named : v.name = name := by simpa using List.find?_some found
    obtain ⟨v', mem', found', named'⟩ := exists_find? ((same v).1 mem) named
    rw [found', Option.map_some, Option.map_some,
      agree v mem v' ((same v').2 mem') named named']

end EnumValue

theorem RequiredEnum.isReference_iff {e : RequiredEnum} :
    e.isReference ↔ e.element.isBare ∧ e.offset = none := by
  simp [isReference, EnumValue.isBare, and_assoc]

namespace Requirement

variable {q q' : Requirement} {v v' : EnumValue}

@[simp] theorem value?_true (q : Requirement) : q.value? true = some q.enum.element := by
  simp [value?, isComputed]

theorem computed?_of_offset (nowhere : q.enum.offset = none) : q.computed? = none := by
  unfold computed?
  rw [nowhere]
  cases q.enum.extNumber.or q.number <;> rfl

/-- A reference gives no number, so it adds nothing to a type whose values are not bits. -/
theorem value?_eq_none_of_isReference (reference : q.enum.isReference)
    (extending : q.enum.extends?.isSome) : q.value? false = none := by
  obtain ⟨bare, nowhere⟩ := RequiredEnum.isReference_iff.1 reference
  simp only [EnumValue.isBare, Bool.and_eq_true] at bare
  simp [value?, isComputed, extending, bare, computed?_of_offset nowhere]

theorem isComputed_congr (same : q.enum.element.meaning = q'.enum.element.meaning)
    (extended : q.enum.extends? = q'.enum.extends?) (isBitmask : Bool) :
    q.isComputed isBitmask = q'.isComputed isBitmask := by
  simp only [EnumValue.meaning, Prod.mk.injEq] at same
  simp only [isComputed, same, extended]

-- Only the number that is computed can make a difference between definitions that agree.
theorem meaning_eq_of_value? {isBitmask : Bool}
    (same : q.enum.element.meaning = q'.enum.element.meaning)
    (extended : q.enum.extends? = q'.enum.extends?)
    (numbers : q.isComputed isBitmask → ∀ n, q.computed? = some n →
      ∀ n', q'.computed? = some n' → n = n')
    (has : q.value? isBitmask = some v) (has' : q'.value? isBitmask = some v') :
    v.meaning = v'.meaning := by
  unfold value? at has has'
  rw [← isComputed_congr same extended isBitmask] at has'
  by_cases computed : q.isComputed isBitmask
  · rw [if_pos computed] at has has'
    obtain ⟨n, number, rfl⟩ := Option.map_eq_some_iff.1 has
    obtain ⟨n', number', rfl⟩ := Option.map_eq_some_iff.1 has'
    obtain rfl := numbers computed n number n' number'
    simp only [EnumValue.meaning, Prod.mk.injEq] at same ⊢
    simp [same]
  · rw [if_neg computed] at has has'
    cases has
    cases has'
    exact same

end Requirement

namespace Registry

variable (r : Registry)

def extended? (q : Requirement) : Option EnumBlock :=
  q.enum.extends?.bind fun type => r.enums.find? (·.name = type)

/-- Two enums of one name that extend one type stand for one number, and where the values of the
type are bits, none of them only refers to what the other one defines. -/
def Unambiguous : Prop :=
  ∀ q ∈ r.requirements, ∀ q' ∈ r.requirements, q.name = q'.name →
    q.enum.extends? = q'.enum.extends? → ∀ b ∈ r.extended? q,
      if b.kind = .bitmask then q.enum.isReference → q'.enum.element.isBare
      else q.isComputed false → ∀ n ∈ q.computed?, ∀ n' ∈ q'.computed?, n = n'

instance : Decidable r.Unambiguous := by
  unfold Unambiguous
  infer_instance

end Registry

namespace Graph

variable {g : Graph} {r : Registry} {placed : List (NodeId × EnumBlock)}

def meaning? (g : Graph) (block : NodeId) (name : String) :
    Option (Option String × Option Nat × Option String) :=
  ((g.valuesIn block).find? (·.name = name)).map EnumValue.meaning

theorem Defines.meaning_eq (h : g.Defines r.definitions) {q q' : Requirement}
    (required : q ∈ r.requirements) (required' : q' ∈ r.requirements) (name : q.name = q'.name)
    (defines : ¬q.enum.isReference) (defines' : ¬q'.enum.isReference) :
    q.enum.element.meaning = q'.enum.element.meaning := by
  have defined {q : Requirement} (required : q ∈ r.requirements) (defines : ¬q.enum.isReference) :=
    h.exists_value (Registry.requirement_mem_definitions required (by simpa using defines))
  obtain ⟨id, first, known, found, same⟩ := defined required defines
  obtain ⟨id', first', known', found', same'⟩ := defined required' defines'
  have names : q.enum.element.name = q'.enum.element.name := name
  rw [names, known'] at known
  cases known
  rw [found'] at found
  cases found
  exact (EnumValue.meaning_eq_of_sameDefinition same).symm.trans
    (EnumValue.meaning_eq_of_sameDefinition same')

theorem Placed.isBitmask (h : g.Placed placed) {block : NodeId} {b : EnumBlock}
    (mem : (block, b) ∈ placed) : g.isBitmask block = decide (b.kind = .bitmask) := by
  unfold Graph.isBitmask
  rw [h.elements _ mem]
  rfl

theorem Placed.exists_extended (h : g.Placed placed) (all : placed.map (·.2) = r.enums)
    {q : Requirement} {block : NodeId} (target : g.block? q = some block)
    (extending : q.enum.extends?.isSome) :
    ∃ b, r.extended? q = some b ∧ (block, b) ∈ placed := by
  obtain ⟨type, extended⟩ := Option.isSome_iff_exists.1 extending
  unfold Graph.block? at target
  rw [extended] at target
  obtain ⟨id, known, first⟩ := Option.bind_eq_some_iff.1 target
  rw [h.head?_blocksOf known] at first
  obtain ⟨⟨_, b⟩, found, rfl⟩ := Option.map_eq_some_iff.1 first
  refine ⟨b, ?_, List.mem_of_find?_eq_some found⟩
  unfold Registry.extended?
  rw [extended, Option.bind_some, ← all, List.find?_map]
  exact congrArg (Option.map (·.2)) found

theorem WellFormed.extends?_of_block? (h : g.WellFormed) {q : Requirement} {block owner : NodeId}
    (target : g.block? q = some block) (owned : g.IsOwnedBy block owner) :
    q.enum.extends? = if owner = constants then none else g.name? owner := by
  have isOwner {id : NodeId} (first : (g.blocksOf id).head? = some block) : owner = id :=
    ((owned id).1 (mem_parentsOfKind.1 (List.mem_of_head? first)).1).symm
  unfold Graph.block? at target
  cases extended : q.enum.extends? with
  | some type =>
    rw [extended] at target
    obtain ⟨id, known, first⟩ := Option.bind_eq_some_iff.1 target
    obtain rfl := isOwner first
    obtain ⟨-, named, -, notVirtual⟩ := h.names type owner known
    have other : owner ≠ constants := by
      rintro rfl
      exact notVirtual ⟨_, h.constants, rfl⟩
    rw [if_neg other, named]
  | none =>
    rw [extended] at target
    dsimp only at target
    split at target
    · rw [if_pos (isOwner target)]
    · cases target

theorem WellFormed.extends?_eq (h : g.WellFormed) {q q' : Requirement} {block : NodeId}
    (target : g.block? q = some block) (target' : g.block? q' = some block) :
    q.enum.extends? = q'.enum.extends? := by
  obtain ⟨-, owner, owned⟩ := h.blocks block (hasKind_of_block? target)
  rw [h.extends?_of_block? target owned, h.extends?_of_block? target' owned]

section Build

variable {enabled : List String} (accepted : (build r enabled).run.value = .ok g)

include accepted

theorem meaning_eq_of_offered (clear : r.Unambiguous) {q q' : Requirement}
    (required : q ∈ r.requirements) (required' : q' ∈ r.requirements) (name : q.name = q'.name)
    {block : NodeId} (target : g.block? q = some block) (target' : g.block? q' = some block)
    {v v' : EnumValue} (has : q.value? (g.isBitmask block) = some v)
    (has' : q'.value? (g.isBitmask block) = some v') : v.meaning = v'.meaning := by
  obtain ⟨placed, all, isPlaced⟩ := exists_placed_of_build accepted
  have extended := (wellFormed_of_build accepted).extends?_eq target target'
  have defines := (defines_of_build accepted).meaning_eq required required' name
  cases extending : q.enum.extends? with
  | none =>
    have notReference {q : Requirement} (target : g.block? q = some block)
        (none : q.enum.extends? = none) : ¬q.enum.isReference := by
      intro reference
      have bare := (RequiredEnum.isReference_iff.1 reference).1
      simp only [EnumValue.isBare, Bool.and_eq_true, Option.isNone_iff_eq_none] at bare
      simp [block?, none, bare] at target
    have same := defines (notReference target extending)
      (notReference target' (extended ▸ extending))
    refine Requirement.meaning_eq_of_value? same extended (fun computed => ?_) has has'
    simp [Requirement.isComputed, extending] at computed
  | some type =>
    have isSome : q.enum.extends?.isSome := by rw [extending, Option.isSome_some]
    obtain ⟨b, first, mem⟩ := isPlaced.exists_extended all target isSome
    have first' : r.extended? q' = some b := by
      rw [← first, Registry.extended?, Registry.extended?, extended]
    have apart := clear q required q' required' name extended b first
    have apart' := clear q' required' q required name.symm extended.symm b first'
    rw [isPlaced.isBitmask mem] at has has'
    by_cases bits : b.kind = .bitmask
    · simp only [bits, decide_true, Requirement.value?_true, Option.some.injEq] at has has'
      simp only [bits, ↓reduceIte] at apart apart'
      subst has has'
      -- With bits a reference offers its name alone.
      by_cases reference : q.enum.isReference
      · have bare := (RequiredEnum.isReference_iff.1 reference).1
        rw [EnumValue.isBare_iff_meaning.1 bare, EnumValue.isBare_iff_meaning.1 (apart reference)]
      · by_cases reference' : q'.enum.isReference
        · have bare := (RequiredEnum.isReference_iff.1 reference').1
          rw [EnumValue.isBare_iff_meaning.1 bare,
            EnumValue.isBare_iff_meaning.1 (apart' reference')]
        · exact defines reference reference'
    · simp only [bits, decide_false] at has has'
      simp only [bits, ↓reduceIte] at apart
      have notReference {q : Requirement} {v : EnumValue} (has : q.value? false = some v)
          (isSome : q.enum.extends?.isSome) : ¬q.enum.isReference := by
        intro reference
        rw [Requirement.value?_eq_none_of_isReference reference isSome] at has
        cases has
      have same := defines (notReference has isSome) (notReference has' (extended ▸ isSome))
      exact Requirement.meaning_eq_of_value? same extended apart has has'

/-- Where the offers under a name agree, what a block holds under the name does not depend on the
order of applications. -/
theorem sameMeaning_of_perm (clear : r.Unambiguous) {first second : List Application}
    (reordered : first.Perm second) {block : NodeId} (isBlock : g.HasKind block .block)
    (name : String) :
    (g.applyAll first).value.meaning? block name = (g.applyAll second).value.meaning? block name := by
  have h := wellFormed_of_build accepted
  have sound := defines_of_build accepted
  unfold meaning?
  rw [h.valuesIn_applyAll first isBlock, h.valuesIn_applyAll second isBlock, List.find?_append,
    List.find?_append]
  cases held : (g.valuesIn block).find? (·.name = name) with
  | some v => rfl
  | none =>
    have fresh : name ∉ g.namesIn block := by
      intro mem
      obtain ⟨v, mem, named⟩ := List.mem_map.1 mem
      exact List.find?_eq_none.1 held v mem (by simpa using named)
    rw [Option.none_or, Option.none_or, EnumValue.find?_firsts fresh, EnumValue.find?_firsts fresh]
    apply EnumValue.find?_meaning_congr
    · intro v
      simp only [mem_offersTo, reordered.mem_iff]
    · intro v mem v' mem' named named'
      obtain ⟨x, -, q, required, target, has⟩ := mem_offersTo.1 mem
      obtain ⟨x', -, q', required', target', has'⟩ := mem_offersTo.1 mem'
      have same : q.name = q'.name := by
        rw [← Requirement.name_of_value? has, ← Requirement.name_of_value? has', named, named']
      exact meaning_eq_of_offered accepted clear (sound.mem_requirements h.toCoherent required)
        (sound.mem_requirements h.toCoherent required') same target target' has has'

end Build

def rival (name : String) (number : Nat) (extNumber : Option Nat) : Extension where
  name := name
  number := number
  require := [{ enums := [
    { element := { name := "VK_TURN_BACK" }, extends? := some "VkTurn", offset := some 0,
      extNumber }] }]

def rivalRegistry (extNumber : Option Nat) : Registry where
  types := [{ name := "VkTurn", category := .enum }]
  enums := [{ name := "VkTurn", kind := .enum }]
  extensions := [rival "VK_KHR_port" 2 none, rival "VK_KHR_lee" 3 extNumber]

def rivalGraph (extNumber : Option Nat) : Graph where
  nodes := #[⟨.virtual "API Constants", [], []⟩,
    ⟨.type { name := "VkTurn", category := .enum }, [5], []⟩,
    ⟨.extension (rival "VK_KHR_port" 2 none), [1, 3], []⟩,
    ⟨.value { name := "VK_TURN_BACK" }, [], []⟩,
    ⟨.extension (rival "VK_KHR_lee" 3 extNumber), [1, 3], []⟩,
    ⟨.block ⟨"VkTurn", .enum, none, none⟩, [], []⟩]
  dictionary := ((((∅ : Std.TreeMap String NodeId).insert "VkTurn" 1).insert "VK_KHR_port" 2).insert
    "VK_TURN_BACK" 3).insert "VK_KHR_lee" 4
  enabled := []

theorem sameMeaning_rivals :
    (build (rivalRegistry (some 2)) []).run.value = .ok (rivalGraph (some 2)) ∧
      (rivalRegistry (some 2)).Unambiguous ∧ (rivalGraph (some 2)).HasKind 5 .block ∧
      ((rivalGraph (some 2)).applyAll
          [.extension "VK_KHR_lee", .extension "VK_KHR_port"]).value.meaning? 5 "VK_TURN_BACK" =
        some (some "1000001000", none, none) := by
  have accepted : (build (rivalRegistry (some 2)) []).run.value = .ok (rivalGraph (some 2)) := rfl
  have clear : (rivalRegistry (some 2)).Unambiguous := by decide +kernel
  have isBlock : (rivalGraph (some 2)).HasKind 5 .block := ⟨_, rfl, rfl⟩
  have reordered : [Application.extension "VK_KHR_lee", .extension "VK_KHR_port"].Perm
    [.extension "VK_KHR_port", .extension "VK_KHR_lee"] := .swap _ _ _
  refine ⟨accepted, clear, isBlock, ?_⟩
  rw [sameMeaning_of_perm accepted clear reordered isBlock]
  decide +kernel

/-- Each of two extensions that do not say so means a place among its own values, and the one that
is applied first has its way. -/
theorem order_decides_rivals :
    (build (rivalRegistry none) []).run.value = .ok (rivalGraph none) ∧
      (rivalGraph none).HasKind 5 .block ∧
      [Application.extension "VK_KHR_lee", .extension "VK_KHR_port"].Perm
        [.extension "VK_KHR_port", .extension "VK_KHR_lee"] ∧
      ((rivalGraph none).applyAll
          [.extension "VK_KHR_port", .extension "VK_KHR_lee"]).value.meaning? 5 "VK_TURN_BACK" =
        some (some "1000001000", none, none) ∧
      ((rivalGraph none).applyAll
          [.extension "VK_KHR_lee", .extension "VK_KHR_port"]).value.meaning? 5 "VK_TURN_BACK" =
        some (some "1000002000", none, none) :=
  ⟨rfl, ⟨_, rfl, rfl⟩, .swap _ _ _, by decide +kernel, by decide +kernel⟩

end Graph

end VulkanBindings
