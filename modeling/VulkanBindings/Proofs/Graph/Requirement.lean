import VulkanBindings.Proofs.Graph.Growth

/-! What features and extensions require of enum blocks: for each enum that they require the block
that it belongs to and the value that it has there. Applying them offers these values one after
the other, as the graph has them before the first application. -/

set_option autoImplicit false

namespace VulkanBindings

/-- An enum that is required, with the number of the extension that requires it. -/
structure Requirement where
  enum : RequiredEnum
  number : Option Nat
  deriving DecidableEq, Repr

namespace Requirement

def ofBlocks (number : Option Nat) (blocks : List RequireBlock) : List Requirement :=
  (blocks.flatMap (·.enums)).map (⟨·, number⟩)

theorem mem_ofBlocks {number : Option Nat} {blocks : List RequireBlock} {q : Requirement} :
    q ∈ ofBlocks number blocks ↔ q.number = number ∧ ∃ b ∈ blocks, q.enum ∈ b.enums := by
  simp only [ofBlocks, List.mem_map, List.mem_flatMap]
  constructor
  · rintro ⟨e, listed, rfl⟩
    exact ⟨rfl, listed⟩
  · rintro ⟨rfl, listed⟩
    exact ⟨q.enum, listed, rfl⟩

theorem ofBlocks_filter_subset {number : Option Nat} {blocks : List RequireBlock}
    {p : RequireBlock → Bool} : ofBlocks number (blocks.filter p) ⊆ ofBlocks number blocks := by
  intro q mem
  obtain ⟨same, b, mem, listed⟩ := mem_ofBlocks.1 mem
  exact mem_ofBlocks.2 ⟨same, b, List.mem_of_mem_filter mem, listed⟩

def name (q : Requirement) : String := q.enum.name

/-- The number that a place among an extension's values stands for. -/
def computed? (q : Requirement) : Option Int := do
  let number ← q.enum.extNumber.or q.number
  return extensionValue number (← q.enum.offset) (q.enum.dir = some "-")

-- A value is computed where a type is extended by neither a value nor another name, unless the
-- block has bits.
def isComputed (q : Requirement) (isBitmask : Bool) : Bool :=
  q.enum.extends?.isSome && !isBitmask && q.enum.element.aliasOf.isNone && q.enum.element.value.isNone

/-- The value as a block has it, none if it has to be computed and cannot. -/
def value? (q : Requirement) (isBitmask : Bool) : Option EnumValue :=
  if q.isComputed isBitmask then
    q.computed?.map fun n => { q.enum.element with value := some (toString n) }
  else some q.enum.element

theorem name_of_value? {q : Requirement} {isBitmask : Bool} {v : EnumValue}
    (has : q.value? isBitmask = some v) : v.name = q.name := by
  unfold value? at has
  split at has
  · obtain ⟨n, -, rfl⟩ := Option.map_eq_some_iff.1 has
    rfl
  · cases has
    rfl

end Requirement

def Registry.requirements (r : Registry) : List Requirement :=
  (r.features.flatMap fun f => Requirement.ofBlocks none f.require) ++
    r.extensions.flatMap fun e => Requirement.ofBlocks (some e.number) e.require

namespace Graph

variable {g after : Graph}

def isBitmask (g : Graph) (block : NodeId) : Bool :=
  ((g.element? block).bind Element.block?).any (·.kind = .bitmask)

/-- The first block of the type that is extended, or of the constants for a value alone. -/
def block? (g : Graph) (q : Requirement) : Option NodeId :=
  match q.enum.extends? with
  | some type => (g.lookup type).bind fun id => (g.blocksOf id).head?
  | none => if q.enum.element.value.isSome then (g.blocksOf constants).head? else none

def offer? (g : Graph) (q : Requirement) : Option (NodeId × EnumValue) := do
  let block ← g.block? q
  return (block, ← q.value? (g.isBitmask block))

theorem offer?_eq_some {q : Requirement} {block : NodeId} {v : EnumValue} :
    g.offer? q = some (block, v) ↔
      g.block? q = some block ∧ q.value? (g.isBitmask block) = some v := by
  unfold offer?
  cases g.block? q with
  | none => simp
  | some other =>
    cases has : q.value? (g.isBitmask other) <;> simp [has] <;> grind

def requirements (g : Graph) : Application → List Requirement
  | .feature name => ((g.definition? name).bind Element.feature?).elim [] fun f =>
      Requirement.ofBlocks none (f.require.filter fun b => g.isSatisfied b.depends)
  | .extension name => ((g.definition? name).bind Element.extension?).elim [] fun e =>
      Requirement.ofBlocks (some e.number) (e.require.filter fun b => g.isSatisfied b.depends)

def offers (g : Graph) (applications : List Application) : List (NodeId × EnumValue) :=
  (applications.flatMap g.requirements).filterMap g.offer?

def offersTo (g : Graph) (block : NodeId) (applications : List Application) : List EnumValue :=
  ((g.offers applications).filter (·.1 = block)).map (·.2)

theorem mem_offersTo {block : NodeId} {applications : List Application} {v : EnumValue} :
    v ∈ g.offersTo block applications ↔ ∃ application ∈ applications,
      ∃ q ∈ g.requirements application,
        g.block? q = some block ∧ q.value? (g.isBitmask block) = some v := by
  unfold offersTo offers
  simp only [List.mem_map, List.mem_filter, List.mem_filterMap, List.mem_flatMap,
    decide_eq_true_eq]
  constructor
  · rintro ⟨⟨_, _⟩, ⟨⟨q, ⟨application, mem, required⟩, offered⟩, rfl⟩, rfl⟩
    exact ⟨application, mem, q, required, offer?_eq_some.1 offered⟩
  · rintro ⟨application, mem, q, required, offered⟩
    exact ⟨(block, v), ⟨⟨q, ⟨application, mem, required⟩, offer?_eq_some.2 offered⟩, rfl⟩, rfl⟩

theorem hasKind_of_block? {q : Requirement} {block : NodeId} (target : g.block? q = some block) :
    g.HasKind block .block := by
  have ofHead {id : NodeId} (first : (g.blocksOf id).head? = some block) :
      g.HasKind block .block :=
    (mem_parentsOfKind.1 (List.mem_of_head? first)).2
  unfold block? at target
  split at target
  · obtain ⟨type, -, first⟩ := Option.bind_eq_some_iff.1 target
    exact ofHead first
  · split at target
    · exact ofHead target
    · cases target

theorem addedValue?_eq_value? (g : Graph) (q : Requirement) (block : NodeId) :
    g.addedValue? block q.enum q.number = q.value? (g.isBitmask block) := by
  unfold addedValue? Requirement.value? Requirement.isComputed Requirement.computed? isBitmask
  dsimp only
  split
  · cases q.enum.extNumber.or q.number <;> cases q.enum.offset <;> rfl
  · rfl

theorem toOption_targetBlock (g : Graph) (q : Requirement) :
    (g.targetBlock q.enum).toOption = g.block? q := by
  unfold targetBlock block?
  cases q.enum.extends? with
  | some type =>
    dsimp only
    cases (g.lookup type).bind fun id => (g.blocksOf id).head? <;> rfl
  | none =>
    dsimp only
    split
    · cases (g.blocksOf constants).head? <;> rfl
    · rfl

theorem value_applyEnum (g : Graph) (q : Requirement) :
    (applyEnum q.number g q.enum).value =
      (g.offer? q).elim g fun offer => (g.addValue offer.1 offer.2).value := by
  unfold applyEnum offer?
  rw [← toOption_targetBlock]
  cases g.targetBlock q.enum with
  | error problem => cases problem <;> rfl
  | ok block =>
    dsimp only
    rw [addedValue?_eq_value?]
    cases has : q.value? (g.isBitmask block) <;> simp [Except.toOption, has]

theorem value_apply (g : Graph) (application : Application) :
    (g.apply application).value =
      (g.requirements application).foldl (fun g q => (applyEnum q.number g q.enum).value) g := by
  have required (number : Option Nat) (blocks : List RequireBlock) :
      (g.applyRequire number blocks).value =
        (Requirement.ofBlocks number (blocks.filter fun b => g.isSatisfied b.depends)).foldl
          (fun g q => (applyEnum q.number g q.enum).value) g := by
    unfold applyRequire Requirement.ofBlocks
    rw [Logged.value_foldlM, List.foldl_map]
  cases application with
  | feature name =>
    simp only [apply, applyFeature, requirements]
    cases (g.definition? name).bind Element.feature? with
    | none => rfl
    | some f => exact required none f.require
  | extension name =>
    simp only [apply, applyExtension, requirements]
    cases (g.definition? name).bind Element.extension? with
    | none => rfl
    | some e => exact required (some e.number) e.require

namespace GainsValues

theorem block? (h : GainsValues g after) (q : Requirement) : after.block? q = g.block? q := by
  unfold Graph.block?
  simp only [h.toGrows.lookup, h.blocksOf]

theorem isBitmask (h : GainsValues g after) {block : NodeId} (isBlock : g.HasKind block .block) :
    after.isBitmask block = g.isBitmask block := by
  unfold Graph.isBitmask
  rw [h.elements block isBlock.lt_size]

theorem offer? (h : GainsValues g after) (q : Requirement) : after.offer? q = g.offer? q := by
  unfold Graph.offer?
  rw [h.block?]
  cases target : g.block? q with
  | none => rfl
  | some block => simp only [Option.bind_eq_bind, Option.bind_some, h.isBitmask (hasKind_of_block? target)]

end GainsValues

theorem definition?_eq_bind (g : Graph) (name : String) :
    g.definition? name = (g.lookup name).bind g.element? := by
  unfold definition? element?
  cases g.lookup name with
  | none => rfl
  | some id => cases found : g.node? id <;> simp [found]

theorem Grows.definition? (h : Grows g after) (coherent : g.Coherent) (name : String) :
    after.definition? name = g.definition? name := by
  rw [definition?_eq_bind, definition?_eq_bind, h.lookup]
  cases known : g.lookup name with
  | none => rfl
  | some id => exact h.elements id (coherent.names name id known).1

theorem Grows.requirements (h : Grows g after) (coherent : g.Coherent) (application : Application) :
    after.requirements application = g.requirements application := by
  unfold Graph.requirements
  cases application <;> simp only [h.definition? coherent, h.isSatisfied]

def addValues (g : Graph) (offers : List (NodeId × EnumValue)) : Graph :=
  offers.foldl (fun g offer => (g.addValue offer.1 offer.2).value) g

theorem value_applyAll_eq_foldl (h : g.WellFormed) (applications : List Application) :
    (g.applyAll applications).value = (applications.flatMap g.requirements).foldl
      (fun g q => (applyEnum q.number g q.enum).value) g := by
  -- Each application finds the graph grown, and what it requires as it was.
  have run {now : Graph} (steps : Additions g now)
      (rest : List Application) :
      (now.applyAll rest).value = (rest.flatMap g.requirements).foldl
        (fun g q => (applyEnum q.number g q.enum).value) now := by
    induction rest generalizing now with
    | nil => rfl
    | cons application rest ih =>
      have one := Additions.apply now application
      have same := (Additions.grows steps).requirements h.toCoherent application
      calc (now.applyAll (application :: rest)).value
          = ((now.apply application).value.applyAll rest).value := by
            simp [applyAll]
        _ = (rest.flatMap g.requirements).foldl (fun g q => (applyEnum q.number g q.enum).value)
              (now.apply application).value := ih (steps.trans one)
        _ = _ := by rw [value_apply, same, List.flatMap_cons, List.foldl_append]
  exact run .refl applications

/-- Applications come down to what they offer to the blocks of the graph they begin with. -/
theorem value_applyAll (h : g.WellFormed) (applications : List Application) :
    (g.applyAll applications).value = g.addValues (g.offers applications) := by
  rw [value_applyAll_eq_foldl h]
  unfold offers
  generalize applications.flatMap g.requirements = required
  have run {now : Graph} (steps : Additions g now) (rest : List Requirement) :
      rest.foldl (fun g q => (applyEnum q.number g q.enum).value) now =
        now.addValues (rest.filterMap g.offer?) := by
    induction rest generalizing now with
    | nil => rfl
    | cons q rest ih =>
      have one := value_applyEnum now q
      rw [(h.gainsValues steps).offer?] at one
      have step := Additions.applyEnum q.number now q.enum
      rw [List.foldl_cons, ih (steps.trans step), List.filterMap_cons, one]
      cases g.offer? q <;> rfl
  exact run .refl required

end Graph

end VulkanBindings
