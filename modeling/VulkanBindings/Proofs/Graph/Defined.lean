import VulkanBindings.Proofs.Graph.Requirement

/-! The dictionary of a registry's graph: it leads each defined name to an element that some
definition of the name gave, and every other definition of the name is the same. -/

set_option autoImplicit false

namespace VulkanBindings

variable {r : Registry}

section Definitions

theorem Registry.type_mem_definitions {t : TypeDecl} : .type t ∈ r.definitions ↔ t ∈ r.types := by
  simp [definitions, RequireBlock.definitions]

theorem Registry.command_mem_definitions {c : Command} : .command c ∈ r.definitions ↔ c ∈ r.commands := by
  simp [definitions, RequireBlock.definitions]

theorem Registry.feature_mem_definitions {f : Feature} :
    .feature f ∈ r.definitions ↔ f ∈ r.features := by
  simp [definitions, RequireBlock.definitions]

theorem Registry.extension_mem_definitions {e : Extension} :
    .extension e ∈ r.definitions ↔ e ∈ r.extensions := by
  simp [definitions, RequireBlock.definitions]

theorem RequireBlock.definitions_eq_ofBlocks (number : Option Nat) (blocks : List RequireBlock) :
    RequireBlock.definitions blocks =
      ((Requirement.ofBlocks number blocks).filter (!·.enum.isReference)).map
        (.value ·.enum.element) := by
  simp [RequireBlock.definitions, Requirement.ofBlocks, List.filter_map, Function.comp_def]

-- The values that blocks list and those that features and extensions define stand among the
-- definitions, each as often as it is there.
theorem Registry.values_sublist_definitions (r : Registry) :
    List.Sublist
      ((r.enums.flatMap (·.values)).map Element.value ++
        (r.requirements.filter (!·.enum.isReference)).map (.value ·.enum.element))
      r.definitions := by
  have each {α : Type} (xs : List α) (head : α → Element) (number : α → Option Nat)
      (blocks : α → List RequireBlock) :
      List.Sublist
        (((xs.flatMap fun x => Requirement.ofBlocks (number x) (blocks x)).filter
          (!·.enum.isReference)).map (.value ·.enum.element))
        (xs.flatMap fun x => head x :: RequireBlock.definitions (blocks x)) := by
    induction xs with
    | nil => exact .slnil
    | cons x xs ih =>
      simp only [List.flatMap_cons, List.filter_append, List.map_append]
      rw [← RequireBlock.definitions_eq_ofBlocks]
      exact ((List.sublist_cons_self _ _).append ih)
  have required := (each r.features Element.feature (fun _ => none) (·.require)).append
    (each r.extensions Element.extension (fun e => some e.number) (·.require))
  unfold requirements definitions
  rw [List.filter_append, List.map_append, List.append_assoc _ (r.features.flatMap _)]
  refine List.Sublist.append ?_ required
  exact (List.sublist_append_right _ _).trans (List.sublist_append_left _ _)

theorem Registry.value_mem_definitions {v : EnumValue} {b : EnumBlock} (block : b ∈ r.enums)
    (listed : v ∈ b.values) : .value v ∈ r.definitions := by
  refine r.values_sublist_definitions.subset (List.mem_append_left _ ?_)
  exact List.mem_map_of_mem (List.mem_flatMap.2 ⟨b, block, listed⟩)

theorem Registry.requirement_mem_definitions {q : Requirement} (required : q ∈ r.requirements)
    (isDefinition : q.enum.isReference = false) : .value q.enum.element ∈ r.definitions := by
  refine r.values_sublist_definitions.subset (List.mem_append_right _ ?_)
  exact List.mem_map_of_mem (List.mem_filter.2 ⟨required, by simp [isDefinition]⟩)

end Definitions

namespace Element

theorem eq_type_of_same {e : Element} {t : TypeDecl}
    (same : e = .type t ∨ e.sameDefinition (.type t)) : ∃ t', e = .type t' ∧ t'.sameDefinition t := by
  rcases same with rfl | same
  · exact ⟨t, rfl, by simp [TypeDecl.sameDefinition]⟩
  · cases e with
    | type t' => exact ⟨t', rfl, same⟩
    | _ => cases same

theorem eq_value_of_same {e : Element} {v : EnumValue}
    (same : e = .value v ∨ e.sameDefinition (.value v)) :
    ∃ v', e = .value v' ∧ v'.sameDefinition v := by
  rcases same with rfl | same
  · exact ⟨v, rfl, by simp [EnumValue.sameDefinition]⟩
  · cases e with
    | value v' => exact ⟨v', rfl, same⟩
    | _ => cases same

end Element

namespace Graph

variable {g after : Graph} {ds : List Element}

/-- A definition that the dictionary has: the element of its name is the same definition. -/
def Declares (g : Graph) (d : Element) : Prop :=
  ∃ id e, g.lookup d.name = some id ∧ g.element? id = some e ∧ (e = d ∨ e.sameDefinition d)

theorem Grows.declares (h : Grows g after) {d : Element} (declares : g.Declares d) :
    after.Declares d := by
  obtain ⟨id, e, known, found, same⟩ := declares
  exact ⟨id, e, by rw [h.lookup, known], h.element?_of_some found, same⟩

theorem Declares.define {d element : Element} (declares : g.Declares d)
    (ok : (g.define element).run.value = .ok after) : after.Declares d := by
  rcases (define_eq_ok element).1 ok with ⟨unknown, rfl⟩ | ⟨_, -, -, rfl⟩
  · obtain ⟨id, e, known, found, same⟩ := declares
    have other : element.name ≠ d.name := by
      intro same
      rw [same, known] at unknown
      cases unknown
    refine ⟨id, e, ?_, ?_, same⟩
    · rw [lookup_enter, if_neg other, known]
    · rw [element?_enter, if_neg (Nat.ne_of_lt (lt_size_of_element? found)), found]
  · exact declares

theorem declares_of_define {element : Element} (ok : (g.define element).run.value = .ok after) :
    after.Declares element := by
  rcases (define_eq_ok element).1 ok with ⟨-, rfl⟩ | ⟨id, known, same, rfl⟩
  · exact ⟨g.size, element, by rw [lookup_enter, if_pos rfl], by rw [element?_enter, if_pos rfl],
      .inl rfl⟩
  · obtain ⟨e, found, same⟩ := (Option.any_eq_true _ _).1 same
    exact ⟨id, e, known, found, .inr same⟩

theorem declares_of_foldlM (ok : (ds.foldlM define g).run.value = .ok after) :
    ∀ d ∈ ds, after.Declares d := by
  induction ds generalizing g with
  | nil => simp
  | cons first rest ih =>
    rw [List.foldlM_cons, Logged.value_run_bind] at ok
    cases one : (g.define first).run.value with
    | error e => rw [one] at ok; cases ok
    | ok next =>
      rw [one] at ok
      intro d mem
      rcases List.mem_cons.1 mem with rfl | mem
      · exact Logged.of_foldlM_eq_ok (P := fun g => g.Declares d)
          (fun _ _ _ _ declares ok => declares.define ok) (declares_of_define one) ok
      · exact ih ok d mem

/-- The dictionary has all definitions, and what it leads to is defined under its name. -/
structure Defines (g : Graph) (ds : List Element) : Prop where
  complete : ∀ d ∈ ds, g.Declares d
  sound : ∀ id e, g.element? id = some e →
    e.kind = .block ∨ e.kind = .virtual ∨ e ∈ ds ∧ g.lookup e.name = some id

theorem defines_of_definitions {named : Graph}
    (ok : (r.definitions.foldlM define empty).run.value = .ok named) :
    named.Defines r.definitions where
  complete := declares_of_foldlM ok
  sound := by
    refine Logged.of_foldlM_eq_ok (P := fun g : Graph => ∀ id e, g.element? id = some e →
      e.kind = .block ∨ e.kind = .virtual ∨ e ∈ r.definitions ∧ g.lookup e.name = some id)
      (fun g element mem after sound ok id e found => ?_) (fun id e found => ?_) ok
    · rcases (define_eq_ok element).1 ok with ⟨unknown, rfl⟩ | ⟨_, -, -, rfl⟩
      · rw [element?_enter] at found
        rw [lookup_enter]
        split at found
        · next last =>
          cases found
          exact .inr (.inr ⟨mem, by rw [if_pos rfl, last]⟩)
        · rcases sound id e found with isBlock | isVirtual | ⟨defined, known⟩
          · exact .inl isBlock
          · exact .inr (.inl isVirtual)
          · refine .inr (.inr ⟨defined, ?_⟩)
            rw [if_neg, known]
            intro same
            rw [same, known] at unknown
            cases unknown
      · exact sound id e found
    · have first : id < 1 := lt_size_of_element? found
      obtain rfl : id = 0 := Nat.lt_one_iff.1 first
      cases found
      exact .inr (.inl rfl)

theorem Defines.step (h : g.Defines ds) (step : LinkStep g after) : after.Defines ds where
  complete d mem := step.grows.declares (h.complete d mem)
  sound id e found := by
    rw [step.grows.lookup]
    cases step with
    | edge child known =>
      rw [element?_addParent] at found
      exact h.sound id e found
    | missing child nonempty unknown =>
      rw [element?_addMissing] at found
      exact h.sound id e found
    | block b =>
      rw [element?_attach] at found
      split at found
      · cases found
        exact .inl rfl
      · exact h.sound id e found

theorem exists_named_of_build {enabled : List String}
    (accepted : (build r enabled).run.value = .ok g) :
    ∃ named : Graph, named.Named ∧ named.Defines r.definitions ∧ named.enabled = enabled ∧
      g = named.linkRegistry r := by
  obtain ⟨named, defined, rfl⟩ := exists_definitions_of_build accepted
  have defines := defines_of_definitions defined
  exact ⟨{ named with enabled }, (named_of_definitions defined).withEnabled enabled,
    ⟨defines.complete, defines.sound⟩, rfl, rfl⟩

theorem defines_of_build {enabled : List String} (accepted : (build r enabled).run.value = .ok g) :
    g.Defines r.definitions := by
  obtain ⟨named, -, defines, -, rfl⟩ := exists_named_of_build accepted
  have steps := LinkSteps.linkRegistry named r
  revert steps
  generalize named.linkRegistry r = linked
  intro steps
  induction steps with
  | refl => exact defines
  | tail _ step ih => exact ih.step step

namespace Defines

variable (h : g.Defines r.definitions)

include h

theorem exists_type {t : TypeDecl} (mem : t ∈ r.types) :
    ∃ id t', g.lookup t.name = some id ∧ g.element? id = some (.type t') ∧ t'.sameDefinition t := by
  obtain ⟨id, e, known, found, same⟩ := h.complete _ (Registry.type_mem_definitions.2 mem)
  obtain ⟨t', rfl, alike⟩ := Element.eq_type_of_same same
  exact ⟨id, t', known, found, alike⟩

theorem exists_value {v : EnumValue} (mem : .value v ∈ r.definitions) :
    ∃ id v', g.lookup v.name = some id ∧ g.element? id = some (.value v') ∧ v'.sameDefinition v := by
  obtain ⟨id, e, known, found, same⟩ := h.complete _ mem
  obtain ⟨v', rfl, alike⟩ := Element.eq_value_of_same same
  exact ⟨id, v', known, found, alike⟩

theorem mem_of_definition? (coherent : g.Coherent) {name : String} {e : Element}
    (found : g.definition? name = some e) : e ∈ r.definitions ∧ e.name = name := by
  rw [definition?_eq_bind] at found
  obtain ⟨id, known, found⟩ := Option.bind_eq_some_iff.1 found
  obtain ⟨-, named, notBlock, notVirtual⟩ := coherent.names name id known
  rw [name?, found, Option.map_some, Option.some.injEq] at named
  rcases h.sound id e found with isBlock | isVirtual | ⟨defined, -⟩
  · exact absurd ⟨e, found, isBlock⟩ notBlock
  · exact absurd ⟨e, found, isVirtual⟩ notVirtual
  · exact ⟨defined, named⟩

-- A name that a feature or an extension has is not defined again.
theorem definition?_eq_feature (coherent : g.Coherent) {name : String} {f : Feature} :
    g.definition? name = some (.feature f) ↔ f ∈ r.features ∧ f.name = name := by
  constructor
  · intro found
    obtain ⟨defined, named⟩ := h.mem_of_definition? coherent found
    exact ⟨Registry.feature_mem_definitions.1 defined, named⟩
  · rintro ⟨mem, rfl⟩
    obtain ⟨id, e, known, found, same⟩ := h.complete _ (Registry.feature_mem_definitions.2 mem)
    change g.lookup f.name = some id at known
    rcases same with rfl | same
    · rw [definition?_eq_bind, known, Option.bind_some, found]
    · cases e <;> cases same

theorem definition?_eq_extension (coherent : g.Coherent) {name : String} {e : Extension} :
    g.definition? name = some (.extension e) ↔ e ∈ r.extensions ∧ e.name = name := by
  constructor
  · intro found
    obtain ⟨defined, named⟩ := h.mem_of_definition? coherent found
    exact ⟨Registry.extension_mem_definitions.1 defined, named⟩
  · rintro ⟨mem, rfl⟩
    obtain ⟨id, element, known, found, same⟩ :=
      h.complete _ (Registry.extension_mem_definitions.2 mem)
    change g.lookup e.name = some id at known
    rcases same with rfl | same
    · rw [definition?_eq_bind, known, Option.bind_some, found]
    · cases element <;> cases same

theorem mem_requirements_feature (coherent : g.Coherent) {name : String} {q : Requirement} :
    q ∈ g.requirements (.feature name) ↔ ∃ f ∈ r.features, f.name = name ∧
      q ∈ Requirement.ofBlocks none (f.require.filter fun b => g.isSatisfied b.depends) := by
  unfold Graph.requirements
  constructor
  · intro required
    cases found : (g.definition? name).bind Element.feature? with
    | none => simp [found] at required
    | some f =>
      obtain ⟨e, found', isFeature⟩ := Option.bind_eq_some_iff.1 found
      cases e <;> cases isFeature
      obtain ⟨mem, named⟩ := (h.definition?_eq_feature coherent).1 found'
      simp only [found, Option.elim_some] at required
      exact ⟨f, mem, named, required⟩
  · rintro ⟨f, mem, named, required⟩
    simpa [(h.definition?_eq_feature coherent).2 ⟨mem, named⟩, Element.feature?] using required

theorem mem_requirements_extension (coherent : g.Coherent) {name : String} {q : Requirement} :
    q ∈ g.requirements (.extension name) ↔ ∃ e ∈ r.extensions, e.name = name ∧
      q ∈ Requirement.ofBlocks (some e.number)
        (e.require.filter fun b => g.isSatisfied b.depends) := by
  unfold Graph.requirements
  constructor
  · intro required
    cases found : (g.definition? name).bind Element.extension? with
    | none => simp [found] at required
    | some e =>
      obtain ⟨element, found', isExtension⟩ := Option.bind_eq_some_iff.1 found
      cases element <;> cases isExtension
      obtain ⟨mem, named⟩ := (h.definition?_eq_extension coherent).1 found'
      simp only [found, Option.elim_some] at required
      exact ⟨e, mem, named, required⟩
  · rintro ⟨e, mem, named, required⟩
    simpa [(h.definition?_eq_extension coherent).2 ⟨mem, named⟩, Element.extension?] using required

theorem mem_requirements (coherent : g.Coherent) {application : Application} {q : Requirement}
    (required : q ∈ g.requirements application) : q ∈ r.requirements := by
  unfold Registry.requirements
  cases application with
  | feature name =>
    obtain ⟨f, mem, -, required⟩ := (h.mem_requirements_feature coherent).1 required
    exact List.mem_append_left _
      (List.mem_flatMap.2 ⟨f, mem, Requirement.ofBlocks_filter_subset required⟩)
  | extension name =>
    obtain ⟨e, mem, -, required⟩ := (h.mem_requirements_extension coherent).1 required
    exact List.mem_append_right _
      (List.mem_flatMap.2 ⟨e, mem, Requirement.ofBlocks_filter_subset required⟩)

end Defines

end Graph

end VulkanBindings
