import Mathlib.Data.List.Nodup
import VulkanBindings.Proofs.Graph.Emitted
import VulkanBindings.Proofs.Item.Entries

/-! The commands of the generated C. Each command of the order that is not another name for one has
one field in the table, one assignment in each loader, one prototype and one wrapper. -/

set_option autoImplicit false

namespace VulkanBindings

variable {r : Registry} {c : Config} {g : Graph}

namespace Graph

def original? (g : Graph) (id : NodeId) : Option Command :=
  ((g.element? id).bind Element.command?).filter (·.aliasOf.isNone)

theorem original?_eq_some {id : NodeId} {command : Command} :
    g.original? id = some command ↔
      g.element? id = some (.command command) ∧ command.aliasOf = none := by
  unfold original?
  rw [Option.filter_eq_some_iff, Option.bind_eq_some_iff, Option.isNone_iff_eq_none]
  refine and_congr_left fun _ => ⟨?_, fun found => ⟨_, found, rfl⟩⟩
  rintro ⟨e, found, isCommand⟩
  cases e <;> cases isCommand
  exact found

end Graph

namespace Item

theorem IsMadeOf.commandName_eq {stripped : List String} {defined : String → Prop}
    {P : Glossary → Prop} {id : NodeId} {item? : Option Item}
    (made : IsMadeOf stripped defined P g id item?) :
    (g.original? id).map (·.name) = (item?.bind command?).map (·.name.c) := by
  cases original : g.original? id with
  | some command =>
    obtain ⟨found, isOriginal⟩ := Graph.original?_eq_some.1 original
    obtain ⟨item, rfl⟩ := made.declared command found isOriginal
    obtain ⟨command', found', -, isCommand⟩ := made.command item rfl
    cases found.symm.trans found'
    exact congrArg some isCommand.name.c_eq.symm
  | none =>
    cases item? with
    | none => rfl
    | some item =>
      cases item with
      | command item =>
        obtain ⟨command, found, isOriginal, -⟩ := made.command item rfl
        cases original.symm.trans (Graph.original?_eq_some.2 ⟨found, isOriginal⟩)
      | _ => rfl

end Item

/-- For each of the names there is one piece of text, in their order, and there are no others. No piece is
there twice, if names can be told from the pieces. -/
structure IsOncePerName (told : Prop) (names : List String) (piece : String → String)
    (pieces : List String) : Prop where
  all : pieces = names.map piece
  once : told → ∀ name ∈ names, pieces.count (piece name) = 1

/-- A blank is in front of the name of a command and a parenthesis behind it, so neither is in the name. -/
structure CommandItem.IsReadable (c : CommandItem) : Prop where
  name : ' ' ∉ c.name.c.toList ∧ '(' ∉ c.name.c.toList
  result : '(' ∉ c.result.c.toList

namespace Output

def field (name : String) : String := s!"\n\tvoid* p{name};"

def instanceAssignment (name : String) : String :=
  s!"\n\taddrs->p{name} = vkGetInstanceProcAddr(&vksProcAddresses, hndl, \"{name}\");"

def deviceAssignment (name : String) : String :=
  s!"\n\taddrs->p{name} = vkGetDeviceProcAddr(parent, hndl, \"{name}\");"

def prototype (signature : String → String) (name : String) : String := signature name ++ ";\n"

def wrapper (signature body : String → String) (name : String) : String :=
  "\n" ++ signature name ++ " \x7b\n" ++ body name ++ "\x7d\n"

section Apart

variable {start equals stop : List Char}

end Apart

section Signatures

variable {commands : List CommandItem}

end Signatures

/-- C files that declare, load and wrap the commands, each under one of the names. The wrapper of a command
calls what its field holds, and has the signature of its prototype. -/
structure Declares (config : Config) (names : List String) (commands : List CommandItem)
    (signature body : String → String) (out : Output) : Prop where
  distinct : names.Nodup
  named : commands.map (·.name.c) = names
  signed : ∀ c ∈ commands, signature c.name.c =
    c.result.c ++ " " ++ c.name.c ++ "(vksProcAddr* addrs" ++
      texts (c.params.map fun p => ", " ++ p.type.cParameter p.name.c) ++ ")"
  calls : ∀ c ∈ commands, ∃ before after, body c.name.c =
    before ++ "((PFN_" ++ c.name.c ++ ")addrs->p" ++ c.name.c ++ ")(" ++
      ", ".intercalate (c.params.map (·.name.c)) ++ ");\n" ++ after
  header : ∃ fields prototypes, IsOncePerName True names field fields ∧
    IsOncePerName (∀ c ∈ commands, c.IsReadable) names (prototype signature) prototypes ∧
    out.header = Header.opening config ++
      ("typedef struct vksProcAddr \x7b" ++ texts fields ++ "\n\x7d vksProcAddr;\n\n") ++
      Header.loaders ++ texts prototypes ++ "\n#endif\n"
  implementation : ∃ instances devices wrappers, IsOncePerName True names instanceAssignment instances ∧
    IsOncePerName True names deviceAssignment devices ∧
    IsOncePerName (∀ c ∈ commands, c.IsReadable) names (wrapper signature body) wrappers ∧
    out.c = Loader.opening config ++
      texts (((Loader.globals config).filter names.contains).map Loader.globalAssignment) ++
      Loader.middle ++
      ("void vksLoadInstanceProcAddrs(VkInstance hndl, vksProcAddr* addrs) \x7b" ++
        texts instances ++ "\n\x7d\n") ++
      ("\nvoid vksLoadDeviceProcAddrs(VkDevice hndl, vksProcAddr* addrs, vksProcAddr* parent) \x7b" ++
        texts devices ++ "\n\x7d\n") ++ texts wrappers

theorem value_ofRegistry (accepted : (Graph.ofConfig r c).run.value = .ok g) :
    (ofRegistry r c).run.value = .ok ((Declared.ofGraph c g).value.write c).value := by
  unfold ofRegistry
  rw [Logged.value_run_bind, accepted]
  rfl

theorem signature_eq (c : CommandItem) :
    c.signature = c.result.c ++ " " ++ c.name.c ++ "(vksProcAddr* addrs" ++
      texts (c.params.map fun p => ", " ++ p.type.cParameter p.name.c) ++ ")" := by
  simp [CommandItem.signature, toString, String.append_assoc]

section Write

variable {commands : List CommandItem}

end Write

end Output

end VulkanBindings
