import VulkanBindings.Proofs.Graph.Agreement

/-! Features and extensions that are applied again, at any later time. What they offer to a block is
held there under its name since the first time, as the blocks that are chosen and the values that
are offered stay what they were. -/

set_option autoImplicit false

namespace VulkanBindings.Graph

variable {g : Graph}

theorem addValues_append (g : Graph) (first later : List (NodeId × EnumValue)) :
    g.addValues (first ++ later) = (g.addValues first).addValues later :=
  List.foldl_append

theorem addValues_eq_self {offers : List (NodeId × EnumValue)}
    (held : ∀ offer ∈ offers, offer.2.name ∈ g.namesIn offer.1) : g.addValues offers = g := by
  induction offers with
  | nil => rfl
  | cons offer rest ih =>
    obtain ⟨first, later⟩ := List.forall_mem_cons.1 held
    have run : g.addValues (offer :: rest) = (g.addValue offer.1 offer.2).value.addValues rest := rfl
    rw [run, value_addValue, if_pos first]
    exact ih later

theorem WellFormed.mem_namesIn_applyAll (h : g.WellFormed) {applications : List Application}
    {offer : NodeId × EnumValue} (mem : offer ∈ g.offers applications) :
    offer.2.name ∈ (g.applyAll applications).value.namesIn offer.1 := by
  have offered : offer.2 ∈ g.offersTo offer.1 applications :=
    List.mem_map.2 ⟨offer, List.mem_filter.2 ⟨mem, decide_eq_true rfl⟩, rfl⟩
  unfold namesIn
  rw [h.valuesIn_applyAll applications (hasKind_of_mem_offers mem), List.map_append, List.mem_append]
  by_cases held : offer.2.name ∈ g.namesIn offer.1
  · exact .inl held
  · obtain ⟨v, -, first, named⟩ := EnumValue.exists_find? offered rfl
    rw [← EnumValue.find?_firsts held] at first
    exact .inr (List.mem_map.2 ⟨v, List.mem_of_find?_eq_some first, named⟩)

/-- What has been offered once changes nothing when it is offered again. -/
theorem WellFormed.value_apply_again (h : g.WellFormed) {applications : List Application}
    {application : Application}
    (known : g.requirements application ⊆ applications.flatMap g.requirements) :
    ((g.applyAll applications).value.apply application).value = (g.applyAll applications).value := by
  have run : ((g.applyAll applications).value.apply application).value =
      (g.applyAll (applications ++ [application])).value := by
    simp [applyAll]
  have offers : g.offers (applications ++ [application]) =
      g.offers applications ++ g.offers [application] := by
    simp [Graph.offers]
  rw [run, value_applyAll h, offers, addValues_append, ← value_applyAll h]
  refine addValues_eq_self fun offer mem => h.mem_namesIn_applyAll ?_
  obtain ⟨q, required, offered⟩ := List.mem_filterMap.1 mem
  exact List.mem_filterMap.2 ⟨q, known (by simpa using required), offered⟩

/-- Whether what the graph has under the name is of the kind that is asked for. -/
def Application.isKnown (g : Graph) : Application → Bool
  | .feature name => ((g.definition? name).bind Element.feature?).isSome
  | .extension name => ((g.definition? name).bind Element.extension?).isSome

theorem feature?_or_extension?_eq_none (e? : Option Element) :
    e?.bind Element.feature? = none ∨ e?.bind Element.extension? = none := by
  cases e? with
  | none => exact .inl rfl
  | some e => cases e <;> simp [Element.feature?, Element.extension?]

theorem requirements_eq_nil {first second : Application} (known : first.isKnown g)
    (same : second.name = first.name) (other : second ≠ first) : g.requirements second = [] := by
  cases first with
  | feature name =>
    cases second with
    | feature _ => exact absurd (congrArg _ same) other
    | extension _ =>
      cases same
      have none := (feature?_or_extension?_eq_none (g.definition? name)).resolve_left
        (Option.isSome_iff_ne_none.1 known)
      rw [requirements, none, Option.elim_none]
  | extension name =>
    cases second with
    | feature _ =>
      cases same
      have none := (feature?_or_extension?_eq_none (g.definition? name)).resolve_right
        (Option.isSome_iff_ne_none.1 known)
      rw [requirements, none, Option.elim_none]
    | extension _ => exact absurd (congrArg _ same) other

/-- A feature or an extension that was applied changes nothing when it is applied again, whatever is
applied in between. Nor does one of the other kind under its name, if the first was there. -/
theorem apply_again {r : Registry} {enabled : List String}
    (accepted : (build r enabled).run.value = .ok g) (applications : List Application) :
    (∀ application ∈ applications,
      ((g.applyAll applications).value.apply application).value = (g.applyAll applications).value) ∧
    ∀ first ∈ applications, first.isKnown g → ∀ second : Application, second.name = first.name →
      ((g.applyAll applications).value.apply second).value = (g.applyAll applications).value := by
  have wellFormed := wellFormed_of_build accepted
  have again (application : Application) (made : application ∈ applications) :
      ((g.applyAll applications).value.apply application).value =
        (g.applyAll applications).value :=
    wellFormed.value_apply_again fun q required => List.mem_flatMap.2 ⟨application, made, required⟩
  refine ⟨again, fun first made known second same => ?_⟩
  by_cases repeated : second = first
  · subst repeated
    exact again second made
  · refine wellFormed.value_apply_again ?_
    rw [requirements_eq_nil known same repeated]
    exact List.nil_subset _

-- The extension adds one value, and as often as it is asked for under either kind no other.
theorem turnBack_again :
    (build turnRegistry []).run.value = .ok turnGraph ∧
      let once := (turnGraph.applyAll
        [.extension "VK_KHR_turn_back", .feature "VK_VERSION_9_9"]).value
      once.valuesOf 5 = [2, 6] ∧ (once.apply (.extension "VK_KHR_turn_back")).value = once ∧
        (once.apply (.feature "VK_KHR_turn_back")).value = once := by
  have accepted : (build turnRegistry []).run.value = .ok turnGraph := rfl
  have known : (Application.extension "VK_KHR_turn_back").isKnown turnGraph := by decide +kernel
  obtain ⟨again, other⟩ := apply_again accepted
    [.extension "VK_KHR_turn_back", .feature "VK_VERSION_9_9"]
  exact ⟨accepted, by decide +kernel, again _ List.mem_cons_self,
    other _ List.mem_cons_self known _ rfl⟩

end VulkanBindings.Graph
