import VulkanBindings.Emit.Header
import VulkanBindings.Graph.Build
import VulkanBindings.Proofs.Spelling.Glossary

/-! What commands return, as the generated C spells it. The names that are spelled by the time a
command is reached decide: a type among them loses its stars, and any other keeps them. -/

set_option autoImplicit false

namespace VulkanBindings

open Declarator Naming

namespace Naming

variable {α β : Type}

theorem exists_of_mem_mapM {f : α → Naming β} {as : List α} {g : Glossary} {b : β}
    (mem : b ∈ ((as.mapM f).run g).value.1) :
    ∃ front a back, as = front ++ a :: back ∧
      b = ((f a).run ((front.mapM f).run g).value.2).value.1 := by
  induction as generalizing g with
  | nil => cases mem
  | cons a as ih =>
    rw [List.mapM_cons] at mem
    obtain rfl | later := List.mem_cons.1 mem
    · exact ⟨[], a, as, rfl, rfl⟩
    · obtain ⟨front, a', back, rfl, made⟩ := ih later
      refine ⟨a :: front, a', back, rfl, ?_⟩
      rw [List.mapM_cons]
      exact made

end Naming

namespace Glossary

variable {stripped : List String} {defined : String → Prop} {g : Glossary}

theorem Faithful.c_base (faithful : g.Faithful stripped defined) (name : String) :
    (g.base name).c = name := by
  unfold base
  cases known : g.find? name with
  | none => rfl
  | some s => exact (faithful.spells name s known).c_eq

/-- Without lengths and a size, each star is a level of the C spelling. -/
theorem c_memberType (faithful : g.Faithful stripped defined) {name raw : String}
    (nonempty : name ≠ "") (notPointer : name ≠ "void*") (unsized : '[' ∉ raw.toList) :
    (g.memberType name none raw).c = name ++ repeated (stars raw) "*" := by
  by_cases pointed : name = "void" ∧ 0 < stars raw
  · obtain ⟨rfl, starred⟩ := pointed
    rw [memberType_eq, baseName_void starred, decide_eq_true rfl, layers_void_unsized unsized,
      Layers.c_apply, faithful.c_base, Layers.brackets, Option.elim_none, String.append_empty]
    simpa [lengths, starred] using voidPointer_repeated (stars raw) starred
  · have named : baseName name raw = name := by
      by_cases isVoid : name = "void"
      · have starless : stars raw = 0 := Nat.eq_zero_of_not_pos fun starred => pointed ⟨isVoid, starred⟩
        rw [isVoid, baseName_void_of_unpointed starless]
      · exact baseName_eq raw nonempty isVoid
    rw [memberType_of_ne named notPointer, layers_unsized unsized, Layers.c_apply, faithful.c_base,
      Layers.brackets, Option.elim_none, String.append_empty]
    rfl

theorem find?_foldl_of_known {glossary : Glossary} {elements : List Element} {name : String} {s : Spelling}
    (known : glossary.find? name = some s) : (elements.foldl after glossary).find? name = some s := by
  induction elements generalizing glossary with
  | nil => exact known
  | cons e rest ih =>
    refine ih ?_
    rw [find?_after]
    split
    · next declared =>
      obtain ⟨inner, isDeclared⟩ := Option.isSome_iff_exists.1 declared.1
      rw [isDeclared, known, Option.map_some, Option.getD_some]
    · exact known

theorem isSome_find?_foldl {glossary : Glossary} {elements : List Element} {e : Element}
    (mem : e ∈ elements) (declared : e.inner?.isSome) :
    ((elements.foldl after glossary).find? e.name).isSome := by
  obtain ⟨front, back, rfl⟩ := List.append_of_mem mem
  obtain ⟨inner, isDeclared⟩ := Option.isSome_iff_exists.1 declared
  have here : ((front.foldl after glossary).after e).find? e.name =
      some (((front.foldl after glossary).find? e.name).getD
        ((front.foldl after glossary).exported inner)) := by
    rw [find?_after, if_pos ⟨declared, rfl⟩, isDeclared, Option.map_some]
  rw [List.foldl_append, List.foldl_cons, find?_foldl_of_known here]
  rfl

theorem find?_scalar (stripped : List String) :
    ∀ s ∈ Scalar.all, (ofScalars stripped).find? s.c = some (.scalar s) := by
  change ∀ s ∈ Scalar.all, (ofScalars []).find? s.c = some (.scalar s)
  decide +kernel

end Glossary

namespace Item

variable (config : Config) (g : Graph) (order : List NodeId)

/-- What is spelled when the constants and the items of some nodes have been made. -/
def glossaryAfter (front : List NodeId) : Glossary :=
  ((do
    let _ ← constantsOf g
    front.mapM (ofNode config g) : Naming _).run (.ofOrder config.exportPrefixes g order)).value.2

theorem isKnown_glossaryAfter (front : List NodeId) :
    IsKnown config g order (glossaryAfter config g order front) := by
  have meets : Meets (IsKnown config g order)
      (do let _ ← constantsOf g; front.mapM (ofNode config g)) fun _ => True :=
    .bind (meets_constantsOf (keeps_continues _) g) fun _ _ =>
      (Meets.mapM (meets_node config) front).mono fun _ _ => trivial
  exact (meets _ (isKnown_ofOrder config g order)).2

def IsDeclaredName (name : String) : Prop :=
  (∃ s ∈ Scalar.all, s.c = name) ∨
    ∃ id ∈ order, ∃ e, g.element? id = some e ∧ e.inner?.isSome ∧ e.name = name

theorem isSome_of_isDeclaredName {name : String} (declared : IsDeclaredName g order name)
    (front : List NodeId) : ((glossaryAfter config g order front).find? name).isSome := by
  have before : ((Glossary.ofOrder config.exportPrefixes g order).find? name).isSome := by
    rw [Glossary.ofOrder_eq_foldl]
    obtain ⟨s, listed, rfl⟩ | ⟨id, emitted, e, found, declared, rfl⟩ := declared
    · rw [Glossary.find?_foldl_of_known (Glossary.find?_scalar _ s listed)]
      rfl
    · exact Glossary.isSome_find?_foldl (List.mem_filterMap.2 ⟨id, emitted, found⟩) declared
  obtain ⟨s, known⟩ := Option.isSome_iff_exists.1 before
  rw [(isKnown_glossaryAfter config g order front).keeps name s known]
  rfl

theorem c_resultOf (front : List NodeId) {proto : Prototype} (nonempty : proto.typeName ≠ "")
    (notPointer : proto.typeName ≠ "void*") (unsized : '[' ∉ proto.raw.toList) :
    (resultOf (glossaryAfter config g order front) proto).c =
      proto.typeName ++
        if ((glossaryAfter config g order front).find? proto.typeName).isSome then ""
        else repeated (stars proto.raw) "*" := by
  have known := isKnown_glossaryAfter config g order front
  unfold resultOf
  cases found : (glossaryAfter config g order front).find? proto.typeName with
  | some s =>
    rw [Option.getD_some, (known.faithful.spells _ _ found).c_eq]
    exact (String.append_empty ..).symm
  | none => exact Glossary.c_memberType known.faithful nonempty notPointer unsized

variable {config g order}

/-- The items after the constants are each made of a node, with what was spelled before it. -/
theorem exists_front_of_item {item : Item} (mem : item ∈ (build config g order).value)
    (other : ∀ entries, item ≠ .constants entries) :
    ∃ front id back, order = front ++ id :: back ∧
      ((ofNode config g id).run (glossaryAfter config g order front)).value.1 = some item := by
  obtain ⟨⟨entries, constants⟩, -⟩ :=
    meets_constantsOf (keeps_continues _) g _ (isKnown_ofOrder config g order)
  have whole : (build config g order).value =
      ((constantsOf g).run (.ofOrder config.exportPrefixes g order)).value.1 ::
        ((order.mapM (ofNode config g)).run (glossaryAfter config g order [])).value.1.filterMap
          (fun item => item) := rfl
  rw [whole, constants, List.mem_cons] at mem
  obtain same | mem := mem
  · exact absurd same (other entries)
  obtain ⟨item?, made, rfl⟩ := List.mem_filterMap.1 mem
  obtain ⟨front, id, back, same, made⟩ := exists_of_mem_mapM made
  exact ⟨front, id, back, same, made.symm⟩

theorem exists_command_of_item {item : CommandItem} (mem : .command item ∈ (build config g order).value) :
    ∃ front id back command, order = front ++ id :: back ∧
      g.element? id = some (.command command) ∧ command.aliasOf = none ∧ item.name.c = command.name ∧
      item.result = resultOf (glossaryAfter config g order front) command.proto := by
  obtain ⟨front, id, back, same, made⟩ := exists_front_of_item mem (by simp)
  have known := isKnown_glossaryAfter config g order front
  obtain ⟨isMade, -⟩ := meets_node config id _ known
  obtain ⟨command, found, original, -⟩ := isMade.command item made
  refine ⟨front, id, back, command, same, found, original, ?_⟩
  have run : ((ofNode config g id).run (glossaryAfter config g order front)).value.1 =
      some (.command
        ⟨((spell (Glossary.named command.name)).run (glossaryAfter config g order front)).value.1,
          resultOf (glossaryAfter config g order front) command.proto,
          command.params.map (parameterOf (glossaryAfter config g order front))⟩) := by
    rw [ofNode, found]
    change ((ofCommand command).run _).value.1 = _
    rw [ofCommand, original]
    rfl
  rw [run] at made
  cases made
  exact ⟨((keeps_continues _).named command.name _ known).1.c_eq, rfl⟩

/-- A command returns the type that its prototype names. The stars of the prototype are behind it if
nothing is spelled under that name by then, and gone otherwise. Scalars and the declarations that are
emitted are spelled. -/
theorem results_spelled {item : CommandItem} (mem : .command item ∈ (build config g order).value) :
    ∃ front id back command, order = front ++ id :: back ∧
      g.element? id = some (.command command) ∧ command.aliasOf = none ∧
      (∀ name, IsDeclaredName g order name →
        ((glossaryAfter config g order front).find? name).isSome) ∧
      ∀ n, command.proto.typeName = n → n ≠ "" → n ≠ "void*" → '[' ∉ command.proto.raw.toList →
        ∃ params, item.signature =
          n ++ (if ((glossaryAfter config g order front).find? n).isSome then ""
            else repeated (stars command.proto.raw) "*") ++
          " " ++ command.name ++ "(vksProcAddr* addrs" ++ params ++ ")" := by
  obtain ⟨front, id, back, command, same, found, original, name, result⟩ := exists_command_of_item mem
  refine ⟨front, id, back, command, same, found, original,
    fun name declared => isSome_of_isDeclaredName config g order declared front, ?_⟩
  rintro _ rfl nonempty notPointer unsized
  refine ⟨texts (item.params.map fun p => ", " ++ p.type.cParameter p.name.c), ?_⟩
  rw [← c_resultOf config g order front nonempty notPointer unsized, ← result, ← name]
  simp [CommandItem.signature, toString, String.append_assoc]

def holdCommand (typeName : String) : Command where
  proto := { typeName, name := "vkHold", raw := "*" }

def holdFeature : Feature where
  name := "VK_VERSION_1_0"
  require := [{ commands := ["vkHold"] }]

def holdRegistry (typeName : String) : Registry where
  commands := [holdCommand typeName]
  features := [holdFeature]

def holdConfig : Config where
  features := ["VK_VERSION_1_0"]
  extensions := []

def holdGraph (typeName : String) : Graph where
  nodes := #[⟨.virtual "API Constants", [], []⟩,
    ⟨.command (holdCommand typeName), [], [typeName]⟩,
    ⟨.feature holdFeature, [1], []⟩]
  dictionary := ((∅ : Std.TreeMap String NodeId).insert "vkHold" 1).insert "VK_VERSION_1_0" 2
  enabled := ["VK_VERSION_1_0"]

def holdItem (result : Spelling) : CommandItem :=
  ⟨.exported (.typedef (holdCommand "void").proto.name) holdConfig.exportPrefixes, result, []⟩

def pointerTo (typeName : String) : Spelling := .pointer (.typedef typeName)

theorem hold_spelled :
    (Graph.ofConfig (holdRegistry "VkHold") holdConfig).run.value = .ok (holdGraph "VkHold") ∧
      .command (holdItem (pointerTo "VkHold")) ∈ (build holdConfig (holdGraph "VkHold")
        ((holdGraph "VkHold").emissionOrder holdConfig.enabled).value).value ∧
      ∃ params, (holdItem (pointerTo "VkHold")).signature =
        "VkHold" ++ repeated 1 "*" ++ " " ++ "vkHold" ++ "(vksProcAddr* addrs" ++ params ++ ")" := by
  have mem : Item.command (holdItem (pointerTo "VkHold")) ∈ (build holdConfig (holdGraph "VkHold")
      ((holdGraph "VkHold").emissionOrder holdConfig.enabled).value).value := by decide +kernel
  refine ⟨rfl, mem, ?_⟩
  have emitted : ((holdGraph "VkHold").emissionOrder holdConfig.enabled).value = [1, 2] := by decide +kernel
  obtain ⟨front, id, back, command, order, found, -, -, returns⟩ := results_spelled mem
  rw [emitted] at order returns
  match front, order with
  | [], order =>
    cases order
    cases found
    have returned := returns "VkHold" rfl (by decide) (by decide) (by decide)
    rwa [if_neg (by decide +kernel)] at returned
  | [_], order =>
    cases order
    cases found
  | _ :: _ :: front, order =>
    simp at order

theorem hold_loses_star :
    (Graph.ofConfig (holdRegistry "uint32_t") holdConfig).run.value = .ok (holdGraph "uint32_t") ∧
      .command (holdItem (.scalar .uint32)) ∈ (build holdConfig (holdGraph "uint32_t")
        ((holdGraph "uint32_t").emissionOrder holdConfig.enabled).value).value ∧
      stars (holdCommand "uint32_t").proto.raw = 1 ∧
      (holdItem (.scalar .uint32)).signature = "uint32_t vkHold(vksProcAddr* addrs)" :=
  ⟨rfl, by decide +kernel, by decide, by decide +kernel⟩

end Item

end VulkanBindings
