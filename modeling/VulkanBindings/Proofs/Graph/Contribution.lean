import VulkanBindings.Proofs.Graph.Requirement

/-! What applying features and extensions does to a graph: the values that they offer to an enum
block, each under a name that the block does not hold yet, become its last parents. Nothing else
changes. -/

set_option autoImplicit false

namespace VulkanBindings

/-- The first value of each name, without the names that are held. -/
def EnumValue.firsts (held : List String) : List EnumValue → List EnumValue
  | [] => []
  | v :: rest => if v.name ∈ held then firsts held rest else v :: firsts (held ++ [v.name]) rest

open EnumValue (firsts)

theorem EnumValue.mem_of_mem_firsts {held : List String} {vs : List EnumValue} {v : EnumValue}
    (mem : v ∈ firsts held vs) : v ∈ vs := by
  induction vs generalizing held with
  | nil => cases mem
  | cons first rest ih =>
    rw [firsts] at mem
    split at mem
    · exact List.mem_cons_of_mem _ (ih mem)
    · rcases List.mem_cons.1 mem with rfl | mem
      · exact List.mem_cons_self
      · exact List.mem_cons_of_mem _ (ih mem)

theorem EnumValue.find?_firsts {held : List String} {name : String} (fresh : name ∉ held)
    (vs : List EnumValue) :
    (firsts held vs).find? (·.name = name) = vs.find? (·.name = name) := by
  induction vs generalizing held with
  | nil => rfl
  | cons first rest ih =>
    rw [firsts]
    by_cases same : first.name = name
    · subst same
      simp [fresh]
    · split
      · simpa [same] using ih fresh
      · have : name ∉ held ++ [first.name] := by simp [fresh, Ne.symm same]
        simpa [same] using ih this

namespace Graph

variable {g after : Graph}

/-- The values that a block holds. -/
def valuesIn (g : Graph) (block : NodeId) : List EnumValue :=
  (g.parents block).filterMap fun id => (g.element? id).bind Element.value?

theorem valuesIn_eq_filterMap_valuesOf (g : Graph) (block : NodeId) :
    g.valuesIn block =
      (g.valuesOf block).filterMap fun id => (g.element? id).bind Element.value? := by
  unfold valuesIn valuesOf parentsOfKind
  rw [List.filterMap_filter]
  congr 1
  funext id
  cases g.element? id with
  | none => rfl
  | some e => cases e <;> simp [Element.value?, Element.kind]

def namesIn (g : Graph) (block : NodeId) : List String := (g.valuesIn block).map (·.name)

theorem mem_namesIn {block : NodeId} {name : String} :
    name ∈ g.namesIn block ↔ ∃ id ∈ g.valuesOf block, g.name? id = some name := by
  unfold namesIn name?
  rw [valuesIn_eq_filterMap_valuesOf]
  simp only [List.mem_map, List.mem_filterMap]
  constructor
  · rintro ⟨v, ⟨id, mem, found⟩, rfl⟩
    obtain ⟨e, here, isValue⟩ := Option.bind_eq_some_iff.1 found
    refine ⟨id, mem, ?_⟩
    cases e <;> cases isValue
    rw [here]
    rfl
  · rintro ⟨id, mem, named⟩
    obtain ⟨e, here, isValue⟩ := (mem_parentsOfKind.1 mem).2
    rw [here] at named
    cases e <;> cases isValue
    cases named
    exact ⟨_, ⟨id, mem, by rw [here]; rfl⟩, rfl⟩

theorem value_addValue (g : Graph) (block : NodeId) (v : EnumValue) :
    (g.addValue block v).value =
      if v.name ∈ g.namesIn block then g else g.attach block (.value v) := by
  have held : ((g.valuesOf block).any fun id => (g.element? id).map (·.name) = some v.name) ↔
      v.name ∈ g.namesIn block := by
    simp [mem_namesIn, name?]
  unfold addValue
  simp only [held]
  split <;> rfl

theorem Coherent.valuesIn_attach (h : g.Coherent) {block : NodeId} (inside : block < g.size)
    (v : EnumValue) (id : NodeId) :
    (g.attach block (.value v)).valuesIn id =
      if id = block then g.valuesIn id ++ [v] else g.valuesIn id := by
  have old : (g.parents id).filterMap (fun id => ((g.attach block (.value v)).element? id).bind
      Element.value?) = g.valuesIn id := by
    refine List.filterMap_congr fun parent edge => ?_
    rw [element?_attach, if_neg (h.ne_size edge)]
  have new : (g.attach block (.value v)).element? g.size = some (.value v) := by
    rw [element?_attach, if_pos rfl]
  unfold valuesIn at *
  rw [h.parents_attach inside]
  split
  · rw [List.filterMap_append, old]
    simp [new, Element.value?]
  · exact old

theorem Coherent.namesIn_attach (h : g.Coherent) {block : NodeId} (inside : block < g.size)
    (v : EnumValue) (id : NodeId) :
    (g.attach block (.value v)).namesIn id =
      if id = block then g.namesIn id ++ [v.name] else g.namesIn id := by
  unfold namesIn
  rw [h.valuesIn_attach inside]
  split <;> simp

theorem Additions.addValues {offers : List (NodeId × EnumValue)}
    (inBlocks : ∀ offer ∈ offers, g.HasKind offer.1 .block) : Additions g (g.addValues offers) := by
  induction offers generalizing g with
  | nil => exact .refl
  | cons offer rest ih =>
    have step := Additions.addValue (inBlocks offer List.mem_cons_self) offer.2
    refine step.trans (ih fun other mem => ?_)
    obtain ⟨e, found, isBlock⟩ := inBlocks other (List.mem_cons_of_mem _ mem)
    exact ⟨e, step.grows.element?_of_some found, isBlock⟩

theorem hasKind_of_mem_offers {applications : List Application} {offer : NodeId × EnumValue}
    (mem : offer ∈ g.offers applications) : g.HasKind offer.1 .block := by
  obtain ⟨q, -, offered⟩ := List.mem_filterMap.1 mem
  exact hasKind_of_block? (offer?_eq_some.1 offered).1

/-- The parents that a block has beyond those of another graph: new nodes, in the order in which
they were made, with these values. -/
structure Gained (g after : Graph) (block : NodeId) (vs : List EnumValue)
    (added : List NodeId) : Prop where
  parents : after.parents block = g.parents block ++ added
  ascending : added.Pairwise (· < ·)
  new : ∀ id ∈ added, g.size ≤ id
  elements : added.map after.element? = vs.map fun v => some (.value v)

section Attach

variable {owner block : NodeId} {v : EnumValue} {vs : List EnumValue} {added : List NodeId}

theorem Gained.cons (h : g.Coherent) (inside : block < g.size)
    (gained : Gained (g.attach block (.value v)) after block vs added)
    (grows : Grows (g.attach block (.value v)) after) :
    Gained g after block (v :: vs) (g.size :: added) where
  parents := by
    rw [gained.parents, h.parents_attach inside, if_pos rfl]
    simp
  ascending := by
    refine List.pairwise_cons.2 ⟨fun id mem => ?_, gained.ascending⟩
    have := gained.new id mem
    rw [size_attach] at this
    exact Nat.lt_of_succ_le this
  new id mem := by
    rcases List.mem_cons.1 mem with rfl | mem
    · exact Nat.le_refl _
    · have := gained.new id mem
      rw [size_attach] at this
      omega
  elements := by
    have first : after.element? g.size = some (.value v) :=
      grows.element?_of_some (by rw [element?_attach, if_pos rfl])
    rw [List.map_cons, List.map_cons, gained.elements, first]

theorem Gained.of_attach_ne (h : g.Coherent) (inside : owner < g.size) (other : block ≠ owner)
    (gained : Gained (g.attach owner (.value v)) after block vs added) :
    Gained g after block vs added where
  parents := by rw [gained.parents, h.parents_attach inside, if_neg other]
  ascending := gained.ascending
  new id mem := by
    have := gained.new id mem
    rw [size_attach] at this
    omega
  elements := gained.elements

end Attach

theorem Coherent.gained_addValues (h : g.Coherent) {offers : List (NodeId × EnumValue)}
    (inBlocks : ∀ offer ∈ offers, g.HasKind offer.1 .block) {block : NodeId}
    (isBlock : g.HasKind block .block) :
    ∃ added, Gained g (g.addValues offers) block
      (firsts (g.namesIn block) ((offers.filter (·.1 = block)).map (·.2))) added := by
  induction offers generalizing g with
  | nil => exact ⟨[], by simp [addValues], .nil, by simp, rfl⟩
  | cons offer rest ih =>
    obtain ⟨owner, v⟩ := offer
    have ownerBlock : g.HasKind owner .block := inBlocks _ List.mem_cons_self
    have others : ∀ offer ∈ rest, g.HasKind offer.1 .block := fun offer mem =>
      inBlocks offer (List.mem_cons_of_mem _ mem)
    have run : g.addValues ((owner, v) :: rest) = (g.addValue owner v).value.addValues rest := rfl
    rw [run, value_addValue]
    -- A name that its block holds adds nothing. Any other is added, and from then on its block holds it.
    by_cases held : v.name ∈ g.namesIn owner
    · obtain ⟨added, gained⟩ := ih h others isBlock
      refine ⟨added, ?_⟩
      rw [if_pos held]
      by_cases same : owner = block
      · subst same
        simpa [firsts, held] using gained
      · simpa [same] using gained
    · have stays {id : NodeId} (has : g.HasKind id .block) :
          (g.attach owner (.value v)).HasKind id .block :=
        (hasKind_attach _ _).2 (.inr has)
      have later : ∀ offer ∈ rest, (g.attach owner (.value v)).HasKind offer.1 .block :=
        fun offer mem => stays (others offer mem)
      have names := h.namesIn_attach ownerBlock.lt_size v block
      obtain ⟨added, gained⟩ := ih (h.attach owner (.value v)) later (stays isBlock)
      rw [if_neg held]
      by_cases same : owner = block
      · subst same
        rw [names, if_pos rfl] at gained
        refine ⟨g.size :: added, ?_⟩
        simpa [firsts, held] using
          gained.cons h ownerBlock.lt_size (Additions.addValues later).grows
      · rw [names, if_neg (Ne.symm same)] at gained
        refine ⟨added, ?_⟩
        simpa [same] using gained.of_attach_ne h ownerBlock.lt_size (Ne.symm same)

theorem WellFormed.gained_applyAll (h : g.WellFormed) (applications : List Application)
    {block : NodeId} (isBlock : g.HasKind block .block) :
    ∃ added, Gained g (g.applyAll applications).value block
      (firsts (g.namesIn block) (g.offersTo block applications)) added := by
  rw [value_applyAll h]
  exact h.toCoherent.gained_addValues (fun _ mem => hasKind_of_mem_offers mem) isBlock

/-- The values of a block after applications: those it held, and the first new one of each name. -/
theorem WellFormed.valuesIn_applyAll (h : g.WellFormed) (applications : List Application)
    {block : NodeId} (isBlock : g.HasKind block .block) :
    (g.applyAll applications).value.valuesIn block =
      g.valuesIn block ++ firsts (g.namesIn block) (g.offersTo block applications) := by
  obtain ⟨added, gained⟩ := h.gained_applyAll applications isBlock
  have grows := (Additions.applyAll g applications).grows
  have old : (g.parents block).filterMap (fun id =>
      ((g.applyAll applications).value.element? id).bind Element.value?) = g.valuesIn block := by
    refine List.filterMap_congr fun parent edge => ?_
    rw [grows.elements parent ((h.parents block).2 parent edge).1]
  have new : added.filterMap (fun id =>
      ((g.applyAll applications).value.element? id).bind Element.value?) =
        (added.map (g.applyAll applications).value.element?).filterMap (·.bind Element.value?) := by
    rw [List.filterMap_map]
    rfl
  rw [gained.elements, List.filterMap_map] at new
  unfold valuesIn at *
  rw [gained.parents, List.filterMap_append, old, new]
  simp [Element.value?, Function.comp_def]

/-- Applications put into each block the values that they offer to it under new names, as new
nodes in the order of application, and change nothing else. -/
theorem applyAll_contributes {r : Registry} {enabled : List String}
    (accepted : (build r enabled).run.value = .ok g) (applications : List Application) :
    (∀ block, g.HasKind block .block →
      ∃ added, Gained g (g.applyAll applications).value block
        (firsts (g.namesIn block) (g.offersTo block applications)) added) ∧
    (∀ id, g.size ≤ id → id < (g.applyAll applications).value.size →
      ∃ block, g.HasKind block .block ∧ id ∈ (g.applyAll applications).value.parents block) ∧
    GainsValues g (g.applyAll applications).value := by
  have h := wellFormed_of_build accepted
  have gains := h.gainsValues (Additions.applyAll g applications)
  refine ⟨fun block isBlock => h.gained_applyAll applications isBlock, ?_, gains⟩
  intro id new inside
  have applied := (h.additions (Additions.applyAll g applications)).2
  obtain ⟨block, isBlock, owned⟩ := (applied.added id new inside).owned
  exact ⟨block, (gains.isBlock block).1 isBlock, (owned block).2 rfl⟩

-- The value that the type has already is passed over, and a second application adds nothing.
theorem turnGraph_contributes :
    (build turnRegistry []).run.value = .ok turnGraph ∧ turnGraph.HasKind 5 .block ∧
      ∃ added, Gained turnGraph
        (turnGraph.applyAll [.extension "VK_KHR_turn_back", .extension "VK_KHR_turn_back"]).value 5
        [{ name := "VK_TURN_BACK", value := some "1000006001" }] added := by
  have accepted : (build turnRegistry []).run.value = .ok turnGraph := rfl
  have isBlock : turnGraph.HasKind 5 .block := ⟨_, rfl, rfl⟩
  obtain ⟨added, gained⟩ := (applyAll_contributes accepted
    [.extension "VK_KHR_turn_back", .extension "VK_KHR_turn_back"]).1 5 isBlock
  have offered : firsts (turnGraph.namesIn 5) (turnGraph.offersTo 5
      [.extension "VK_KHR_turn_back", .extension "VK_KHR_turn_back"]) =
        [{ name := "VK_TURN_BACK", value := some "1000006001" }] := by decide +kernel
  rw [offered] at gained
  exact ⟨accepted, isBlock, added, gained⟩

end Graph

end VulkanBindings
