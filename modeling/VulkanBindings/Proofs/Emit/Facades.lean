import VulkanBindings.Proofs.Emit.Commands
import VulkanBindings.Proofs.Emit.Handles
import VulkanBindings.Proofs.Item.Referred

/-! The facades of handles. Each handle that needs one is emitted, and the Go module declares the
facade before commands are its methods. -/

set_option autoImplicit false

namespace VulkanBindings

open Naming

variable {r : Registry} {c : Config} {g : Graph}

namespace Item

theorem mem_commands {items : List Item} {command : CommandItem} :
    command ∈ commands items ↔ .command command ∈ items := by
  unfold commands
  rw [List.mem_filterMap]
  constructor
  · rintro ⟨item, mem, same⟩
    cases item <;> cases same
    exact mem
  · exact fun mem => ⟨_, mem, rfl⟩

/-- A parameter of a command item is one of an emitted command, which refers to its type. -/
theorem exists_parameter {config : Config} {order : List NodeId} {command : CommandItem}
    {p : ParameterItem} (mem : command ∈ commands (build config g order).value)
    (listed : p ∈ command.params) :
    ∃ id ∈ order, ∃ e, g.element? id = some e ∧ (e.kind = .command ∧ e.isTerminal = false) ∧
      ∃ p' : Parameter, p'.typeName ∈ e.references ∧ ∃ glossary, IsKnown config g order glossary ∧
        p = parameterOf glossary p' := by
  obtain ⟨id, emitted, made⟩ := exists_node_of_item config (mem_commands.1 mem) (by simp)
  obtain ⟨command', found, -, -, glossary, known, -, params⟩ := made.command command rfl
  rw [params] at listed
  obtain ⟨p', mem, rfl⟩ := List.mem_map.1 listed
  exact ⟨id, emitted, _, found, ⟨rfl, rfl⟩, p', Command.mem_references.2 (.parameter mem),
    glossary, known, rfl⟩

end Item

namespace Facade

/-- The node of an emitted handle. -/
structure IsEmitted (c : Config) (g : Graph) (name : String) (id : NodeId) (t : TypeDecl) : Prop where
  listed : id ∈ (g.emissionOrder c.enabled).value
  known : g.lookup name = some id
  found : g.element? id = some (.type t)
  isHandle : t.category = .handle
  named : t.name = name

section Accepted

variable (accepted : (Graph.ofConfig r c).run.value = .ok g)

include accepted

theorem mem_types_of_lookup {name : String} {id : NodeId} {t : TypeDecl}
    (known : g.lookup name = some id) (found : g.element? id = some (.type t)) :
    t ∈ r.types ∧ t.name = name := by
  obtain ⟨defined, known'⟩ := Graph.declaration_of_ofConfig accepted found (.inl rfl)
  have coherent := (Graph.coherent_of_ofConfig accepted).1
  have named := (coherent.names _ _ known).2.1
  exact ⟨Registry.type_mem_definitions.1 defined,
    Option.some.inj ((coherent.names _ _ known').2.1.symm.trans named)⟩

variable (named : ∀ t ∈ r.types, t.category = .handle → Text.trim t.name = t.name ∧ t.name ≠ "")

include named

theorem exists_emitted_of_reference {child : NodeId} {e : Element} {name : String}
    (emitted : child ∈ (g.emissionOrder c.enabled).value) (found : g.element? child = some e)
    (declares : e.IsDeclaration) (inner : e.isTerminal = false) (refers : name ∈ e.references)
    (handle : IsHandle g name) : ∃ id t, IsEmitted c g name id t := by
  obtain ⟨parent, handle⟩ := Option.isSome_iff_exists.1 handle
  obtain ⟨id, t, known, node, isHandle, -⟩ := parent?_eq_some.1 handle
  obtain ⟨mem, rfl⟩ := mem_types_of_lookup accepted known node
  obtain ⟨whole, nonempty⟩ := named t mem isHandle
  exact ⟨id, t, Graph.mem_emissionOrder_of_reference accepted emitted found declares inner refers
    whole nonempty known, known, node, isHandle, rfl⟩

theorem exists_emitted_of_invoked {command : CommandItem} {name : String}
    (mem : command ∈ Item.commands (Item.build c g (g.emissionOrder c.enabled).value).value)
    (invoked : InvokedOn g c command name) : ∃ id t, IsEmitted c g name id t := by
  obtain ⟨-, ⟨p, first, rfl⟩, handle⟩ := invoked
  obtain ⟨id, listed, e, found, isCommand, p', refers, glossary, -, rfl⟩ :=
    Item.exists_parameter mem (List.mem_of_head? first)
  exact exists_emitted_of_reference accepted named listed found (.inr isCommand.1) isCommand.2 refers
    handle

/-- With a handle those are emitted that it is created from, however long the way to them is. -/
theorem exists_emitted_of_leads {first name : String} (start : ∃ id t, IsEmitted c g first id t)
    (leads : Relation.ReflTransGen (CreatedFrom g) first name) : ∃ id t, IsEmitted c g name id t := by
  induction leads with
  | refl => exact start
  | tail _ created ih =>
    obtain ⟨id, t, emitted⟩ := ih
    obtain ⟨id', t', known, node, -, parent⟩ := parent?_eq_some.1 created.1
    cases emitted.known.symm.trans known
    cases emitted.found.symm.trans node
    refine exists_emitted_of_reference accepted named emitted.listed emitted.found (.inl rfl) ?_ ?_
      created.2
    · simp [Element.isTerminal, Element.type?, emitted.isHandle, Category.isTerminal]
    · simp [Element.references, TypeDecl.references, List.mem_of_head? parent]

theorem exists_emitted {name : String}
    (facade : name ∈ handles g c (Item.build c g (g.emissionOrder c.enabled).value).value) :
    ∃ id t, IsEmitted c g name id t := by
  obtain ⟨command, mem, first, invoked, leads⟩ := (mem_handles c).1 facade
  exact exists_emitted_of_leads accepted named
    (exists_emitted_of_invoked accepted named mem invoked) leads

end Accepted

end Facade

namespace Go

/-- The struct of the facade of a Go type, with the comment in front of it. -/
def facadeStruct (type : String) : String :=
  "\n// " ++ type ++ "Facade is a " ++ type ++
      " handle with the proc addresses of its commands, which" ++
    "\n// are its methods." ++
    "\n//" ++
    "\n// Use the H field to get the handle back." ++
    "\ntype " ++ type ++ "Facade struct \x7b" ++
    "\n\tH     " ++ type ++ " // The vulkan Handle" ++
    "\n\tprocs *C.vksProcAddr // The addresses for commands." ++
    "\n\x7d"

theorem lines_facadeType (name : Spelling) : lines (facadeType name) = facadeStruct name.go := by
  -- What is one piece in the struct comes in several in the lines.
  have joined (s t u : String) : s ++ (t ++ u) = s ++ t ++ u := String.append_assoc.symm
  unfold lines facadeType facadeStruct Spelling.goFacade
  simp only [String.intercalate_cons_cons, String.intercalate_singleton, toString, String.append_assoc]
  simp only [joined "\n", joined "Facade", String.reduceAppend, String.empty_append]

def DeclaresFacade (go : String) (name : Spelling) : Prop :=
  ∃ before after, go = before ++ facadeStruct name.go ++ after

theorem exists_lines_append (ls last : List String) :
    ∃ before, lines (ls ++ last) = before ++ lines last := by
  by_cases first : ls = []
  · exact ⟨"", by simp [first]⟩
  · by_cases none : last = []
    · exact ⟨lines ls, by simp [none, lines]⟩
    · exact ⟨lines ls ++ "\n", String.intercalate_append_of_ne_nil first none⟩

theorem texts_eq_join (ts : List String) : texts ts = String.join ts := rfl

theorem exists_text {m : Module} {items : List Item} {i : Item} (mem : i ∈ items) :
    ∃ before after, text m items = before ++ item m i ++ after := by
  obtain ⟨earlier, later, rfl⟩ := List.append_of_mem mem
  refine ⟨opening m.config ++ texts (earlier.map fun i => item m i ++ "\n\n"),
    "\n\n" ++ texts (later.map fun i => item m i ++ "\n\n") ++ closing, ?_⟩
  unfold text
  simp only [texts_eq_join, List.map_append, List.map_cons, String.join_append, String.join_cons,
    String.append_assoc]

theorem declaresFacade_of_mem {m : Module} {items : List Item} {name : Spelling}
    {parent : Option Spelling} (mem : .handle name parent ∈ items) (has : m.hasFacade name) :
    DeclaresFacade (text m items) name := by
  obtain ⟨before, after, whole⟩ := exists_text (m := m) mem
  have last : ∃ before, item m (.handle name parent) = before ++ facadeStruct name.go := by
    change ∃ before, handle m name parent = before ++ facadeStruct name.go
    unfold handle
    rw [← lines_facadeType]
    simp only [has, if_true, ← List.append_assoc]
    exact exists_lines_append _ _
  obtain ⟨between, last⟩ := last
  exact ⟨before ++ between, after, by simp only [whole, last, String.append_assoc]⟩

end Go

namespace Facade

theorem meets_handle {order : List NodeId} {id : NodeId} {t : TypeDecl}
    (found : g.element? id = some (.type t)) (isHandle : t.category = .handle)
    (original : t.aliasOf = none) :
    Meets (Item.IsKnown c g order) (Item.ofNode c g id) fun item? =>
      ∃ name parent, item? = some (.handle name parent) ∧
        Item.IsSpellingOf c g order t.name name ∧
        Option.Rel (Item.IsSpellingOf c g order) t.parents.head? parent := by
  unfold Item.ofNode
  rw [found]
  dsimp only
  unfold Item.ofType
  rw [original]
  dsimp only
  rw [isHandle]
  refine .bind (Item.meets_named c t.name) fun name spells => ?_
  cases t.parents.head? with
  | none => exact .pure ⟨name, none, rfl, spells, .none⟩
  | some p =>
    exact .bind (Item.meets_named c p) fun parent spells' =>
      .pure ⟨name, parent, rfl, spells, .some spells'⟩

/-- The spelling that a name has in all items. -/
def spelling? (c : Config) (g : Graph) (name : String) : Option Spelling :=
  (Glossary.ofOrder c.exportPrefixes g (g.emissionOrder c.enabled).value).find? name

/-- The item of a handle, with the declaration of its facade. What it is created from is spelled in
it as it is in all items, if that has a facade. -/
structure IsDeclared (c : Config) (g : Graph) (d : Declared) (go : String) (t : TypeDecl)
    (s : Spelling) (parent : Option Spelling) : Prop where
  listed : .handle s parent ∈ d.items
  spelled : spelling? c g t.name = some s
  parent : ∀ p, t.parents.head? = some p → p ∈ d.facades → parent = spelling? c g p
  facade : Go.DeclaresFacade go s

section Accepted

variable (accepted : (Graph.ofConfig r c).run.value = .ok g)

include accepted

theorem spelling?_of_emitted {name : String} {id : NodeId} {t : TypeDecl}
    (emitted : IsEmitted c g name id t) : ∃ s, spelling? c g name = some s := by
  obtain ⟨mem, rfl⟩ := mem_types_of_lookup accepted emitted.known emitted.found
  have declared : t.category ∈ Category.declared := by simp [emitted.isHandle, Category.declared]
  obtain ⟨s, -, spelled⟩ := Item.spelled_of_emitted accepted mem declared emitted.listed emitted.known
  exact ⟨s, spelled⟩

variable (named : ∀ t ∈ r.types, t.category = .handle → Text.trim t.name = t.name ∧ t.name ≠ "")

include named

theorem exists_declared {name : String} {id : NodeId} {t : TypeDecl}
    (facade : name ∈ (Declared.ofGraph c g).value.facades) (emitted : IsEmitted c g name id t)
    (original : t.aliasOf = none) :
    ∃ s parent, IsDeclared c g (Declared.ofGraph c g).value
      (Go.text ⟨c, (Declared.ofGraph c g).value.facades⟩ (Declared.ofGraph c g).value.items) t s
      parent := by
  obtain ⟨item?, ⟨s, parent, rfl, spells, ofParent⟩, made⟩ :=
    Item.exists_item_of_node c emitted.listed (meets_handle emitted.found emitted.isHandle original)
  have listed := made _ rfl
  obtain ⟨known, spelled⟩ := spelling?_of_emitted accepted emitted
  rw [← emitted.named] at spelled facade
  refine ⟨s, parent, listed, ?_, fun p first facade' => ?_, ?_⟩
  · rw [spelled, spells.known known spelled]
  · obtain ⟨id', t', emitted'⟩ := exists_emitted accepted named facade'
    obtain ⟨known', spelled'⟩ := spelling?_of_emitted accepted emitted'
    rw [first] at ofParent
    cases ofParent with
    | some spells' => rw [spelled', spells'.known known' spelled']
  · refine Go.declaresFacade_of_mem listed ?_
    unfold Go.Module.hasFacade
    rw [spells.named]
    exact List.contains_iff_mem.2 facade

theorem spelling?_of_receiver {command : CommandItem} {p : ParameterItem}
    (mem : command ∈ Item.commands (Declared.ofGraph c g).value.items)
    (receives : Go.receiver? ⟨c, (Declared.ofGraph c g).value.facades⟩ command = some p) :
    p.typeName ∈ (Declared.ofGraph c g).value.facades ∧
      (p.typeName ≠ "void" → spelling? c g p.typeName = some p.type.base) := by
  unfold Go.receiver? at receives
  split at receives
  · cases receives
  obtain ⟨first, facade⟩ := Option.filter_eq_some_iff.1 receives
  have facade := List.contains_iff_mem.1 facade
  refine ⟨facade, fun notVoid => ?_⟩
  obtain ⟨id, listed, e, found, isCommand, p', refers, glossary, known, rfl⟩ :=
    Item.exists_parameter mem (List.mem_of_head? first)
  obtain ⟨id', t, emitted⟩ := exists_emitted accepted named facade
  obtain ⟨mem, named'⟩ := mem_types_of_lookup accepted emitted.known emitted.found
  obtain ⟨whole, nonempty⟩ := named t mem emitted.isHandle
  have declared : t.category ∈ Category.declared := by simp [emitted.isHandle, Category.declared]
  have referred := Item.refers_memberType accepted listed found (.inr isCommand.1) isCommand.2 refers
    known p'.len p'.raw
  rw [named'] at whole nonempty
  exact (referred t mem named' declared whole nonempty notVoid).2.2.1

/-- The handles with a facade are emitted, with those that they are created from. The Go module
declares the facade of each that is not another name, and with it the ones that commands are methods
of. -/
theorem facades_declared :
    ∃ out, (Output.ofRegistry r c).run.value = .ok out ∧
      (∀ name ∈ (Declared.ofGraph c g).value.facades, ∃ id t, IsEmitted c g name id t ∧
        (t.aliasOf = none →
          ∃ s parent, IsDeclared c g (Declared.ofGraph c g).value out.go t s parent) ∧
        ∀ parent, CreatedFrom g name parent → parent ∈ (Declared.ofGraph c g).value.facades) ∧
      ∀ command ∈ Item.commands (Declared.ofGraph c g).value.items, ∀ p,
        Go.receiver? ⟨c, (Declared.ofGraph c g).value.facades⟩ command = some p →
          p.typeName ∈ (Declared.ofGraph c g).value.facades ∧
            (p.typeName ≠ "void" → spelling? c g p.typeName = some p.type.base) := by
  refine ⟨_, Output.value_ofRegistry accepted, fun name facade => ?_,
    fun command mem p => spelling?_of_receiver accepted named mem⟩
  obtain ⟨id, t, emitted⟩ := exists_emitted accepted named facade
  exact ⟨id, t, emitted, exists_declared accepted named facade emitted,
    fun parent created => mem_handles_of_createdFrom facade created⟩

end Accepted

-- A command on a handle that leads to two handles which are created from each other.
def ferryTypes : List TypeDecl := [
  { name := "VkPort", category := .handle, parent := some "VkLine" },
  { name := "VkLine", category := .handle, parent := some "VkPort" },
  { name := "VkFerry", category := .handle, parent := some "VkPort,VkLine" }]

def ferryCommand : Command where
  proto := { typeName := "void", name := "vkDepart", raw := "void vkDepart" }
  params := [{ name := "ferry", typeName := "VkFerry", raw := "VkFerry ferry" }]

def ferryExtension : Extension where
  name := "VK_KHR_ferry"
  number := 1
  require := [{ commands := ["vkDepart"] }]

def ferryRegistry : Registry where
  types := ferryTypes
  commands := [ferryCommand]
  extensions := [ferryExtension]

def ferryConfig : Config where
  features := []
  extensions := ["VK_KHR_ferry"]

def ferryGraph : Graph where
  nodes := #[⟨.virtual "API Constants", [], []⟩,
    ⟨.type ferryTypes[0], [2], []⟩,
    ⟨.type ferryTypes[1], [1], []⟩,
    ⟨.type ferryTypes[2], [1, 2], []⟩,
    ⟨.command ferryCommand, [3], ["void"]⟩,
    ⟨.extension ferryExtension, [4], []⟩]
  dictionary := ((((∅ : Std.TreeMap String NodeId).insert "VkPort" 1).insert "VkLine" 2).insert
    "VkFerry" 3).insert "vkDepart" 4 |>.insert "VK_KHR_ferry" 5
  enabled := ["VK_KHR_ferry"]

theorem ferry_declared :
    (Graph.ofConfig ferryRegistry ferryConfig).run.value = .ok ferryGraph ∧
      (Declared.ofGraph ferryConfig ferryGraph).value.facades = ["VkFerry", "VkPort", "VkLine"] ∧
      ∃ out, (Output.ofRegistry ferryRegistry ferryConfig).run.value = .ok out ∧
        ∃ s parent, IsDeclared ferryConfig ferryGraph (Declared.ofGraph ferryConfig ferryGraph).value
          out.go ferryTypes[1] s parent := by
  have accepted : (Graph.ofConfig ferryRegistry ferryConfig).run.value = .ok ferryGraph := rfl
  have facades : (Declared.ofGraph ferryConfig ferryGraph).value.facades =
      ["VkFerry", "VkPort", "VkLine"] := by decide +kernel
  have known : ferryGraph.lookup "VkLine" = some 2 := by decide +kernel
  obtain ⟨out, written, declared, -⟩ := facades_declared accepted (by decide +kernel)
  obtain ⟨id, t, emitted, isDeclared, -⟩ := declared "VkLine" (by rw [facades]; decide +kernel)
  obtain rfl : 2 = id := Option.some.inj (known.symm.trans emitted.known)
  obtain rfl : ferryTypes[1] = t := by
    have found := emitted.found
    cases found
    rfl
  exact ⟨accepted, facades, out, written, isDeclared rfl⟩

-- A handle without a name, and a command on something that says no type.
def bollardTypes : List TypeDecl := [{ name := "", category := .handle }]

def bollardCommand : Command where
  proto := { typeName := "void", name := "vkMoor", raw := "void vkMoor" }
  params := [{ name := "x" }]

def bollardExtension : Extension where
  name := "VK_KHR_bollard"
  number := 1
  require := [{ commands := ["vkMoor"] }]

def bollardRegistry : Registry where
  types := bollardTypes
  commands := [bollardCommand]
  extensions := [bollardExtension]

def bollardConfig : Config where
  features := []
  extensions := ["VK_KHR_bollard"]

def bollardGraph : Graph where
  nodes := #[⟨.virtual "API Constants", [], []⟩,
    ⟨.type bollardTypes[0], [], []⟩,
    ⟨.command bollardCommand, [], ["void"]⟩,
    ⟨.extension bollardExtension, [2], []⟩]
  dictionary := (((∅ : Std.TreeMap String NodeId).insert "" 1).insert "vkMoor" 2).insert
    "VK_KHR_bollard" 3
  enabled := ["VK_KHR_bollard"]

/-- A handle without a name has a facade where a command says no type, and is not emitted. -/
theorem bollard_not_declared :
    (Graph.ofConfig bollardRegistry bollardConfig).run.value = .ok bollardGraph ∧
      (∀ t ∈ bollardRegistry.types, Text.trim t.name = t.name) ∧
      (Declared.ofGraph bollardConfig bollardGraph).value.facades = [""] ∧
      bollardGraph.lookup "" = some 1 ∧
      1 ∉ (bollardGraph.emissionOrder bollardConfig.enabled).value ∧
      (bollardTypes[0]).aliasOf = none ∧
      ∀ name parent,
        .handle name parent ∉ (Declared.ofGraph bollardConfig bollardGraph).value.items := by
  have items : (Declared.ofGraph bollardConfig bollardGraph).value.items =
      [.constants [], .command ⟨Item.publicName "vkMoor", Spelling.typedef "void",
        [⟨.reserved (.literal "x"), .scalar .uint32, ""⟩]⟩] := by decide +kernel
  refine ⟨rfl, ?_, ?_, ?_, ?_, rfl, ?_⟩
  · decide +kernel
  · decide +kernel
  · decide +kernel
  · decide +kernel
  · simp [items]

end Facade

end VulkanBindings
