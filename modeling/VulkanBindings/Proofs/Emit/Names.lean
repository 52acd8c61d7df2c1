import Mathlib.Logic.Relation
import VulkanBindings.Emit.Loader
import VulkanBindings.Proofs.Emit.Commands
import VulkanBindings.Proofs.Item.Results

/-! The names of the registry in the generated C. Whatever a glossary is used for, and whichever of its
uses comes first, a name is spelled in C as itself and keeps its spelling. So the commands in the C
files have the texts that they would have if nothing was spelled but the registry's own names. -/

set_option autoImplicit false

namespace VulkanBindings

open Declarator Naming

namespace Spelling

/-- Spelled alike in C, as a type and in front of the name of a parameter. -/
structure SameInC (s t : Spelling) : Prop where
  type : s.c = t.c
  parameter : ∀ name, s.cParameter name = t.cParameter name

namespace SameInC

variable {s t : Spelling} (same : SameInC s t)

include same

theorem pointer : SameInC (.pointer s) (.pointer t) where
  type := by rw [c, c, same.type]
  parameter name := by simp only [cParameter, c, same.type]

theorem slice : SameInC (.slice s) (.slice t) where
  type := by rw [c, c, same.type]
  parameter name := by simp only [cParameter, c, same.type]

theorem array (size : String) : SameInC (.array s size) (.array t size) where
  type := by simp only [c, same.type]
  parameter name := by simp only [cParameter, same.type]

theorem wrap {layer : Spelling → Spelling}
    (each : ∀ {s t}, SameInC s t → SameInC (layer s) (layer t)) (n : Nat) :
    SameInC (wrap layer n s) (wrap layer n t) := by
  induction n generalizing s t with
  | zero => exact same
  | succ n ih => exact ih (each same)

theorem apply (l : Layers) : SameInC (l.apply s) (l.apply t) := by
  have lists := (same.wrap pointer l.pointers).wrap slice l.slices
  unfold Layers.apply
  cases l.size with
  | none => exact lists
  | some size => exact lists.array size

end SameInC

end Spelling

/-- The type of a declaration around the name that the registry has for it. -/
def plainType (typeName : String) (len : Option String) (raw : String) : Spelling :=
  (layers (baseName typeName raw = "void*") len raw).apply (.typedef (baseName typeName raw))

namespace Glossary

variable {stripped : List String} {defined : String → Prop} {g : Glossary}

theorem Spells.sameInC {name : String} {s : Spelling} (spells : Spells stripped defined name s) :
    s.SameInC (.typedef name) := by
  cases spells with
  | scalar _ same => exact ⟨same, fun _ => by rw [← same]; rfl⟩
  | typedef => exact ⟨rfl, fun _ => rfl⟩
  | struct => exact ⟨rfl, fun _ => rfl⟩
  | camel => exact ⟨rfl, fun _ => rfl⟩

theorem Faithful.sameInC_memberType (faithful : g.Faithful stripped defined) (typeName : String)
    (len : Option String) (raw : String) :
    (g.memberType typeName len raw).SameInC (plainType typeName len raw) := by
  refine Spelling.SameInC.apply ?_ _
  cases known : g.find? (baseName typeName raw) with
  | none => exact ⟨rfl, fun _ => rfl⟩
  | some s => exact (faithful.spells _ s known).sameInC

end Glossary

/-- The item of a command in the registry's own names. If something is spelled under the name of the
result, the stars around that name are gone. -/
def Command.IsPlain (command : Command) (item : CommandItem) : Prop :=
  ∃ result, (result = .literal command.proto.typeName ∨
      result = plainType command.proto.typeName none command.proto.raw) ∧
    item = ⟨.literal command.name, result,
      command.params.map fun p => ⟨.literal p.name, plainType p.typeName p.len p.raw, p.typeName⟩⟩

structure CommandItem.SameInC (item plain : CommandItem) : Prop where
  name : item.name.c = plain.name.c
  result : item.result.c = plain.result.c
  params : item.params.map (fun p => p.type.cParameter p.name.c) =
    plain.params.map fun p => p.type.cParameter p.name.c
  args : item.params.map (·.name.c) = plain.params.map (·.name.c)

namespace CommandItem.SameInC

variable {item plain : CommandItem} (same : item.SameInC plain)

include same

theorem signature_eq : item.signature = plain.signature := by
  have params : item.params.map (fun p => ", " ++ p.type.cParameter p.name.c) =
      plain.params.map fun p => ", " ++ p.type.cParameter p.name.c := by
    simpa only [List.map_map, Function.comp_def] using congrArg (List.map (", " ++ ·)) same.params
  unfold CommandItem.signature
  rw [same.name, same.result, params]

theorem tableEntry_eq : Header.tableEntry item = Header.tableEntry plain := by
  unfold Header.tableEntry
  rw [same.name]

theorem declaration_eq : Header.declaration item = Header.declaration plain := by
  unfold Header.declaration
  rw [same.signature_eq]

theorem wrapper_eq : Loader.wrapper item = Loader.wrapper plain := by
  unfold Loader.wrapper
  rw [same.name, same.result, same.args, same.signature_eq]

end CommandItem.SameInC

theorem text_eq_of_sameInC {items : List Item} {plain : List CommandItem}
    (same : List.Forall₂ CommandItem.SameInC (Item.commands items) plain) (config : Config) :
    Header.text config items = Header.text config (plain.map .command) ∧
      Loader.text config items = Loader.text config (plain.map .command) := by
  have commands : Item.commands (plain.map .command) = plain := by
    unfold Item.commands
    rw [List.filterMap_map]
    exact List.filterMap_some
  have names := map_eq_map (same.imp fun _ _ alike => alike.name)
  have entries := map_eq_map (same.imp fun _ _ alike => alike.tableEntry_eq)
  have declarations := map_eq_map (same.imp fun _ _ alike => alike.declaration_eq)
  have wrappers := map_eq_map (same.imp fun _ _ alike => alike.wrapper_eq)
  refine ⟨?_, ?_⟩
  · unfold Header.text Header.table
    dsimp only
    rw [commands, entries, declarations]
  · unfold Loader.text
    dsimp only
    rw [commands, names, wrappers]

namespace Item

variable {stripped : List String} {defined : String → Prop} {P : Glossary → Prop} {g : Graph}

theorem IsCommandOf.exists_plain (keeps : Keeps stripped defined P) {command : Command}
    {item : CommandItem} (made : IsCommandOf stripped defined P command item) :
    ∃ plain, command.IsPlain plain ∧ item.SameInC plain := by
  obtain ⟨glossary, known, result, params⟩ := made.types
  have faithful := keeps.faithful glossary known
  have type (typeName : String) (len : Option String) (raw : String) :=
    faithful.sameInC_memberType typeName len raw
  have returned : ∃ plain, (plain = .literal command.proto.typeName ∨
      plain = plainType command.proto.typeName none command.proto.raw) ∧ item.result.c = plain.c := by
    rw [result]
    unfold resultOf
    cases found : glossary.find? command.proto.typeName with
    | some s => exact ⟨_, .inl rfl, (faithful.spells _ s found).c_eq⟩
    | none => exact ⟨_, .inr rfl, (type _ _ _).type⟩
  obtain ⟨plain, isPlain, same⟩ := returned
  refine ⟨_, ⟨plain, isPlain, rfl⟩, made.name.c_eq, same, ?_, ?_⟩
  · rw [params, List.map_map, List.map_map]
    exact List.map_congr_left fun p _ => (type _ _ _).parameter p.name
  · rw [params, List.map_map, List.map_map]
    rfl

theorem IsMadeOf.exists_plain (keeps : Keeps stripped defined P) {id : NodeId} {item? : Option Item}
    (made : IsMadeOf stripped defined P g id item?) :
    Option.Rel (fun command item => ∃ plain, command.IsPlain plain ∧ item.SameInC plain)
      (g.original? id) (item?.bind command?) := by
  cases original : g.original? id with
  | some command =>
    obtain ⟨found, isOriginal⟩ := Graph.original?_eq_some.1 original
    obtain ⟨item, rfl⟩ := made.declared command found isOriginal
    obtain ⟨command', found', -, isCommand⟩ := made.command item rfl
    cases found.symm.trans found'
    exact .some (isCommand.exists_plain keeps)
  | none =>
    have names := made.commandName_eq
    rw [original] at names
    rw [Option.map_eq_none_iff.1 names.symm]
    exact .none

theorem exists_plain (keeps : Keeps stripped defined P) (version : defined "VK_API_VERSION")
    (header : defined "VK_HEADER_VERSION") {glossary : Glossary} (known : P glossary) (config : Config)
    (g : Graph) (ids : List NodeId) :
    ∃ plain, List.Forall₂ Command.IsPlain (ids.filterMap g.original?) plain ∧
      List.Forall₂ CommandItem.SameInC (commands ((ofOrder config g ids).run glossary).value.1)
        plain := by
  obtain ⟨constants, items?, items, made⟩ := (meets_ofOrder keeps config g
    (meets_ofNode keeps version header config g) ids glossary known).1
  have each := List.rel_filterMap (fun _ _ made => IsMadeOf.exists_plain keeps made) made
  unfold commands
  rw [items, List.filterMap_cons_none rfl, List.filterMap_filterMap]
  exact exists_middle each

end Item

namespace Glossary

variable {stripped : List String} {first g later : Glossary}

/-- One use of a glossary: a name is asked for, an element is declared, or items are made. -/
inductive Use : Glossary → Glossary → Prop where
  | named (g : Glossary) (name : String) : Use g ((Glossary.named name).run g).2
  | define (g : Glossary) (name : String) : Use g ((Glossary.define name).run g).2
  | struct (g : Glossary) (name : String) : Use g ((Glossary.struct name).run g).2
  | declare (g : Glossary) (e : Element) : Use g ((Glossary.declare e).run g).2
  | constants (g : Glossary) (graph : Graph) : Use g ((Item.constantsOf graph).run g).value.2
  | item (g : Glossary) (config : Config) (graph : Graph) (id : NodeId) :
      Use g ((Item.ofNode config graph id).run g).value.2

def Uses : Glossary → Glossary → Prop := Relation.ReflTransGen Use

/-- What a glossary is before its first use: the scalars, or also what an order declares. -/
inductive IsFirst : Glossary → Prop where
  | ofScalars (stripped : List String) : IsFirst (ofScalars stripped)
  | ofOrder (stripped : List String) (graph : Graph) (order : List NodeId) :
      IsFirst (ofOrder stripped graph order)

theorem IsFirst.continues (isFirst : IsFirst first) :
    ∃ stripped, Continues stripped (fun _ => True) (Glossary.ofScalars stripped) first := by
  cases isFirst with
  | ofScalars stripped => exact ⟨stripped, faithful_ofScalars.continues⟩
  | ofOrder stripped graph order =>
    refine ⟨stripped, ?_⟩
    rw [ofOrder_eq_foldl]
    exact List.foldlRecOn _ after faithful_ofScalars.continues fun _ continues e _ => continues.declare e

theorem Use.continues {before : Glossary} (use : Use g later)
    (continues : Continues stripped (fun _ => True) before g) :
    Continues stripped (fun _ => True) before later := by
  cases use with
  | named name => exact continues.enter .typedef
  | define name => exact continues.enter (.camel trivial)
  | struct name => exact continues.enter .struct
  | declare e => exact continues.declare e
  | constants graph => exact (Item.meets_constantsOf (keeps_continues before) graph g continues).2
  | item config graph id =>
    exact (Item.meets_ofNode (keeps_continues before) trivial trivial config graph id g continues).2

theorem Uses.continues {before : Glossary} (uses : Uses g later)
    (continues : Continues stripped (fun _ => True) before g) :
    Continues stripped (fun _ => True) before later := by
  induction uses with
  | refl => exact continues
  | tail _ use ih => exact use.continues ih

/-- What a glossary has spelled, and what is made with it later, has the registry's own names in C. -/
structure KeepsNames (g later : Glossary) : Prop where
  own : ∀ name s, later.find? name = some s → s.c = name
  kept : ∀ name s, g.find? name = some s → later.find? name = some s
  scalars : ∀ s ∈ Scalar.all, later.find? s.c = some (.scalar s)
  asked : ∀ name, ((named name).run later).1.c = name ∧ ((define name).run later).1.c = name ∧
    ((struct name).run later).1.c = name
  texts : ∀ (config : Config) (graph : Graph) (ids : List NodeId), ∃ plain,
    List.Forall₂ Command.IsPlain (ids.filterMap graph.original?) plain ∧
      Header.text config ((Item.ofOrder config graph ids).run later).value.1 =
        Header.text config (plain.map .command) ∧
      Loader.text config ((Item.ofOrder config graph ids).run later).value.1 =
        Loader.text config (plain.map .command)

/-- Along all uses of a glossary, the names that it spelled once are kept, and C has the names of
the registry. -/
theorem names_kept (isFirst : IsFirst first) (made : Uses first g) (uses : Uses g later) :
    KeepsNames g later := by
  obtain ⟨stripped, start⟩ := isFirst.continues
  have before := made.continues start
  have after := uses.continues before
  have kept := uses.continues before.faithful.continues
  have asked (name : String) {s : Spelling}
      (spells : Spells stripped (fun _ => True) name (.exported s stripped)) :
      ((enter name s).run later).1.c = name := (after.faithful.enter spells).1.c_eq
  refine ⟨fun name s known => (after.faithful.spells name s known).c_eq, kept.keeps,
    fun s listed => after.keeps _ _ (find?_scalar stripped s listed),
    fun name => ⟨asked name .typedef, asked name (.camel trivial), asked name .struct⟩,
    fun config graph ids => ?_⟩
  obtain ⟨plain, isPlain, same⟩ :=
    Item.exists_plain (keeps_continues g) trivial trivial kept config graph ids
  exact ⟨plain, isPlain, text_eq_of_sameInC same config⟩

def heldGlossary : Glossary :=
  ((Item.ofNode Item.holdConfig (Item.holdGraph "VkSail") 1).run
    ((Glossary.struct "VkSail").run sailGlossary).2).value.2

theorem sails_kept :
    IsFirst (ofScalars ["Vk"]) ∧ Uses (ofScalars ["Vk"]) sailGlossary ∧
      Uses sailGlossary heldGlossary ∧ KeepsNames sailGlossary heldGlossary ∧
      (∃ sail, sail.cgo = "C.VkSail" ∧ heldGlossary.find? "VkSail" = some sail) ∧
      ∃ plain, (Item.holdCommand "VkSail").IsPlain plain ∧
        Header.text Item.holdConfig
            ((Item.ofOrder Item.holdConfig (Item.holdGraph "VkSail") [1]).run heldGlossary).value.1 =
          Header.text Item.holdConfig [.command plain] := by
  have made : Uses (ofScalars ["Vk"]) sailGlossary := .single (.named _ "VkSail")
  have uses : Uses sailGlossary heldGlossary :=
    .tail (.single (.struct _ "VkSail")) (.item _ Item.holdConfig (Item.holdGraph "VkSail") 1)
  have keeps := names_kept (.ofScalars ["Vk"]) made uses
  have spelled : (sailGlossary.find? "VkSail").map Spelling.cgo = some "C.VkSail" := by decide +kernel
  obtain ⟨sail, known, cgo⟩ := Option.map_eq_some_iff.1 spelled
  obtain ⟨plain, all, header, -⟩ := keeps.texts Item.holdConfig (Item.holdGraph "VkSail") [1]
  obtain ⟨item, rest, isPlain, others, rfl⟩ := List.forall₂_cons_left_iff.1 all
  cases others
  have kept := keeps.kept "VkSail" sail known
  exact ⟨.ofScalars ["Vk"], made, uses, keeps, ⟨sail, cgo, kept⟩, item, isPlain, header⟩

end Glossary

end VulkanBindings
