import VulkanBindings.Proofs.Item.Referred
import VulkanBindings.Proofs.Spelling.Declarator

/-! The types of members and parameters, as any glossary spells them: how many levels of pointers
their C, cgo and Go spellings have, and what becomes of the size of an array. -/

set_option autoImplicit false

namespace VulkanBindings

open Declarator

namespace Glossary

variable {g : Glossary}

/-- A glossary of the scalars and of the names that were asked for. -/
inductive IsMade : Glossary → Prop where
  | ofScalars (stripped : List String) : IsMade (ofScalars stripped)
  | named {g : Glossary} (made : IsMade g) (name : String) : IsMade ((Glossary.named name).run g).2
  | define {g : Glossary} (made : IsMade g) (name : String) : IsMade ((Glossary.define name).run g).2
  | struct {g : Glossary} (made : IsMade g) (name : String) : IsMade ((Glossary.struct name).run g).2
  | declare {g : Glossary} (made : IsMade g) (e : Element) : IsMade ((Glossary.declare e).run g).2

theorem spells_of_inner? {e : Element} {inner : Spelling} (stripped : List String)
    (declared : e.inner? = some inner) :
    Spells stripped (fun _ => True) e.name (.exported inner stripped) := by
  cases e with
  | type t =>
    unfold Element.inner? at declared
    cases category : t.category <;> simp only [category] at declared <;> cases declared
    all_goals first | exact .camel trivial | exact .struct | exact .typedef
  | command c => cases declared; exact .typedef
  | _ => cases declared

theorem Continues.declare {stripped : List String} {before : Glossary}
    (continues : Continues stripped (fun _ => True) before g) (e : Element) :
    Continues stripped (fun _ => True) before ((Glossary.declare e).run g).2 := by
  change Continues _ _ _ (g.after e)
  rw [after_eq]
  cases declared : e.inner? with
  | none => exact continues
  | some inner => exact continues.enter (spells_of_inner? stripped declared)

/-- Nothing that is asked for spells a name as another one, or a scalar anew. -/
theorem IsMade.continues (made : g.IsMade) :
    ∃ stripped, Continues stripped (fun _ => True) (Glossary.ofScalars stripped) g := by
  induction made with
  | ofScalars stripped => exact ⟨stripped, faithful_ofScalars.continues⟩
  | named _ name ih => exact ih.imp fun _ continues => continues.enter .typedef
  | define _ name ih => exact ih.imp fun _ continues => continues.enter (.camel trivial)
  | struct _ name ih => exact ih.imp fun _ continues => continues.enter .struct
  | declare _ e ih => exact ih.imp fun _ continues => continues.declare e

theorem find?_voidPointer (stripped : List String) :
    (ofScalars stripped).find? "void*" = some (.scalar .voidPointer) := by
  change (ofScalars []).find? "void*" = _
  decide +kernel

def base (g : Glossary) (name : String) : Spelling := (g.find? name).getD (.typedef name)

theorem memberType_eq (typeName : String) (len : Option String) (raw : String) :
    g.memberType typeName len raw =
      (layers (baseName typeName raw = "void*") len raw).apply (g.base (baseName typeName raw)) := rfl

namespace IsMade

variable (made : g.IsMade)

include made

theorem c_base (name : String) : (g.base name).c = name := by
  obtain ⟨stripped, continues⟩ := made.continues
  unfold base
  cases known : g.find? name with
  | none => rfl
  | some s => exact (continues.faithful.spells name s known).c_eq

theorem base_voidPointer : g.base "void*" = .scalar .voidPointer := by
  obtain ⟨stripped, continues⟩ := made.continues
  unfold base
  rw [continues.keeps _ _ (find?_voidPointer stripped), Option.getD_some]

theorem memberType_void {raw : String} (pointed : 0 < stars raw) (len : Option String) :
    g.memberType "void" len raw = (layers true len raw).apply (.scalar .voidPointer) := by
  rw [memberType_eq, baseName_void pointed, made.base_voidPointer, decide_eq_true rfl]

end IsMade

theorem memberType_of_ne {typeName name raw : String} (named : baseName typeName raw = name)
    (notPointer : name ≠ "void*") (len : Option String) :
    g.memberType typeName len raw = (layers false len raw).apply (g.base name) := by
  rw [memberType_eq, named, decide_eq_false notPointer]

theorem voidPointer_repeated (stars : Nat) (starred : 0 < stars) :
    "void*" ++ repeated (stars - 1) "*" = "void" ++ repeated stars "*" := by
  obtain ⟨levels, rfl⟩ := Nat.exists_eq_add_one.2 starred
  rw [Nat.add_sub_cancel, repeated, ← String.append_assoc]
  rfl

def sailGlossary : Glossary := ((Glossary.named "VkSail").run (ofScalars ["Vk"])).2

theorem isMade_sailGlossary : sailGlossary.IsMade := .named (.ofScalars ["Vk"]) "VkSail"

section Member

variable {name raw : String} {len : Option String} {size : List Char}

/-- Each star is a level of the C spelling. In Go the outermost levels are the lists of which there
are lengths. -/
theorem memberType_unsized (made : g.IsMade) (nonempty : name ≠ "") (notPointer : name ≠ "void*")
    (unsized : '[' ∉ raw.toList) (enough : lengths len ≤ stars raw) :
    (g.memberType name len raw).c = name ++ repeated (stars raw) "*" ∧
      (name ≠ "void" →
        (g.memberType name len raw).cgo = repeated (stars raw) "*" ++ (g.base name).cgo ∧
        (g.memberType name len raw).go =
          repeated (lengths len) "[]" ++ repeated (stars raw - lengths len) "*" ++ (g.base name).go) ∧
      (name = "void" → 0 < stars raw →
        (g.memberType name len raw).cgo = repeated (stars raw - 1) "*" ++ "unsafe.Pointer") := by
  by_cases pointed : name = "void" ∧ 0 < stars raw
  · obtain ⟨rfl, starred⟩ := pointed
    have type := made.memberType_void starred len
    rw [layers_void_unsized unsized] at type
    have levels : stars raw - lengths len - 1 +
        (if lengths len < stars raw then lengths len else lengths len - 1) = stars raw - 1 := by
      split <;> omega
    refine ⟨?_, fun notVoid => absurd rfl notVoid, fun _ _ => ?_⟩
    · rw [type, Layers.c_apply, levels, Layers.brackets, Option.elim_none, String.append_empty]
      exact voidPointer_repeated _ starred
    · rw [type, Layers.cgo_apply, levels, Layers.brackets, Option.elim_none, String.empty_append]
      rfl
  · have named : baseName name raw = name := by
      by_cases isVoid : name = "void"
      · have starless : stars raw = 0 := Nat.eq_zero_of_not_pos fun starred => pointed ⟨isVoid, starred⟩
        rw [isVoid, baseName_void_of_unpointed starless]
      · exact baseName_eq raw nonempty isVoid
    have type := memberType_of_ne named notPointer len (g := g)
    rw [layers_unsized unsized] at type
    have levels : stars raw - lengths len + lengths len = stars raw := Nat.sub_add_cancel enough
    refine ⟨?_, fun _ => ⟨?_, ?_⟩, fun isVoid starred => absurd ⟨isVoid, starred⟩ pointed⟩
    · rw [type, Layers.c_apply, levels, made.c_base, Layers.brackets, Option.elim_none,
        String.append_empty]
    · rw [type, Layers.cgo_apply, levels, Layers.brackets, Option.elim_none, String.empty_append]
    · rw [type, Layers.go_apply _ rfl]

theorem sails_unsized :
    sailGlossary.IsMade ∧ '[' ∉ "const* const*".toList ∧
      lengths (some "count,1") ≤ stars "const* const*" ∧
      (sailGlossary.memberType "VkSail" (some "count,1") "const* const*").c = "VkSail**" ∧
      (sailGlossary.memberType "VkSail" (some "count,1") "const* const*").cgo = "**C.VkSail" ∧
      (sailGlossary.memberType "VkSail" (some "count,1") "const* const*").go = "[]*Sail" := by
  have unsized : '[' ∉ "const* const*".toList := by decide
  have enough : lengths (some "count,1") ≤ stars "const* const*" := by decide +kernel
  obtain ⟨c, others, -⟩ :=
    memberType_unsized isMade_sailGlossary (by decide : "VkSail" ≠ "") (by decide) unsized enough
  obtain ⟨cgo, go⟩ := others (by decide)
  refine ⟨isMade_sailGlossary, unsized, enough, c.trans ?_, cgo.trans ?_, go.trans ?_⟩ <;> decide +kernel

/-- The size takes one star from the spelling of a type, and one from that of `void*`, which goes
without the size if there is no other. Markup in the size is left out. -/
theorem memberType_sized (made : g.IsMade) (notPointer : name ≠ "void*")
    (pointed : name = "void" → 0 < stars raw) (sized : HasSize raw size) :
    (name ≠ "void" →
      (g.memberType name none raw).c =
        declaredName name ++ repeated (stars raw - 1) "*" ++ bracketed (.ofList (untagged size)) ∧
      (g.memberType name none raw).cgo =
        bracketed (.ofList (untagged size)) ++ repeated (stars raw - 1) "*" ++
          (g.base (declaredName name)).cgo) ∧
      (name = "void" → 1 < stars raw →
        (g.memberType name none raw).c =
          name ++ repeated (stars raw - 1) "*" ++ bracketed (.ofList (untagged size)) ∧
        (g.memberType name none raw).cgo =
          bracketed (.ofList (untagged size)) ++ repeated (stars raw - 2) "*" ++ "unsafe.Pointer") ∧
      (name = "void" → stars raw = 1 →
        (g.memberType name none raw).c = "void*" ∧
        (g.memberType name none raw).cgo = "unsafe.Pointer") ∧
      ('<' ∉ size → untagged size = size) := by
  -- For `void` the base is `void*`, which has one of the stars already.
  by_cases isVoid : name = "void"
  · have type := made.memberType_void (pointed isVoid) none
    rw [layers_void_sized sized, ← isVoid] at type
    refine ⟨fun notVoid => absurd isVoid notVoid, fun _ more => ?_, fun _ one => ?_, untagged_eq_self⟩
    · rw [if_pos more] at type
      rw [type, Layers.c_apply, Layers.cgo_apply]
      refine ⟨?_, rfl⟩
      rw [isVoid, ← voidPointer_repeated (stars raw - 1) (by omega)]
      rfl
    · rw [if_neg (by omega)] at type
      rw [type]
      exact ⟨rfl, rfl⟩
  · have named : declaredName name ≠ "void*" := by
      unfold declaredName
      split
      · decide
      · exact notPointer
    have type := memberType_of_ne (g := g) (baseName_of_ne raw isVoid) named none
    rw [layers_sized sized] at type
    have notVoid {P : Prop} : name = "void" → P := fun isVoid' => absurd isVoid' isVoid
    refine ⟨fun _ => ?_, notVoid, notVoid, untagged_eq_self⟩
    rw [type, Layers.c_apply, Layers.cgo_apply, made.c_base]
    exact ⟨rfl, rfl⟩

theorem sails_sized :
    sailGlossary.IsMade ∧ HasSize "** sails[4]" ['4'] ∧
      (sailGlossary.memberType "VkSail" none "** sails[4]").c = "VkSail*[4]" ∧
      (sailGlossary.memberType "VkSail" none "** sails[4]").cgo = "[4]*C.VkSail" := by
  have sized : HasSize "** sails[4]" ['4'] :=
    ⟨by decide, by decide, "** sails".toList, [], rfl, by decide, by decide⟩
  obtain ⟨c, cgo⟩ :=
    (memberType_sized isMade_sailGlossary (by decide : "VkSail" ≠ "void*") nofun sized).1 (by decide)
  refine ⟨isMade_sailGlossary, sized, c.trans ?_, cgo.trans ?_⟩ <;> decide +kernel

/-- An array of pointers is spelled as one of what they point to, and an array of `void*` as one `void*`. -/
theorem sails_lose_pointers :
    HasSize "*[4]" ['4'] ∧
      (sailGlossary.memberType "VkSail" none "*[4]").c = "VkSail[4]" ∧
      (sailGlossary.memberType "VkSail" none "*[4]").cgo = "[4]C.VkSail" ∧
      (sailGlossary.memberType "void" none "*[4]").c = "void*" := by
  refine ⟨⟨by decide, by decide, ['*'], [], rfl, by decide, by decide⟩, ?_, ?_, ?_⟩ <;> decide +kernel

end Member

end Glossary

end VulkanBindings
