import VulkanBindings.Config.Basic
import VulkanBindings.Yaml.Document

/-! Reading a configuration from a YAML document. Any scalar is a text, however it looks; a key
without a value is an empty text or an empty list, as the key asks for; what is not said has its
default. -/

set_option autoImplicit false

namespace VulkanBindings

namespace Yaml.Document

def target? (d : Document) : Node → Option Node
  | .reference number => d.anchors.node? number
  | node => some node

def text? (d : Document) (node : Node) : Option String := do
  match ← d.target? node with
  | .scalar text _ => return text
  | _ => none

def texts? (d : Document) (node : Node) : Option (List String) := do
  match ← d.target? node with
  | .sequence items => items.mapM d.text?
  | .scalar "" true => return []
  | _ => none

def entries? (d : Document) (node : Node) : Option (List (String × Node)) := do
  match ← d.target? node with
  | .mapping entries => entries.mapM fun (key, value) => return (← d.text? key, value)
  | .scalar "" true => return []
  | _ => none

end Yaml.Document

namespace Config

/-- A table of texts, where the last entry of a key counts. -/
def table? (d : Yaml.Document) (node : Yaml.Node) : Option (List (String × String)) := do
  let entries ← d.entries? node
  entries.foldlM
    (fun table (key, value) => return (key, ← d.text? value) :: table.filter (·.1 != key)) []

def set? (d : Yaml.Document) (c : Config) (key : String) (value : Yaml.Node) : Option Config :=
  match key with
  | "registry" => return { c with registry := ← d.text? value }
  | "api" => return { c with api := ← d.text? value }
  | "output_name" => return { c with outputName := ← d.text? value }
  | "package_name" => return { c with packageName := ← d.text? value }
  | "features" => return { c with features := ← d.texts? value }
  | "extensions" => return { c with extensions := ← d.texts? value }
  | "global_procs" => return { c with globalProcs := ← d.texts? value }
  | "proc_loaders" => return { c with procLoaders := ← table? d value }
  | "c_define_preproc" => return { c with headerLines := ← d.texts? value }
  | "export_prefixes" => return { c with exportPrefixes := ← d.texts? value }
  | "doc_url" => return { c with docUrl := ← d.text? value }
  | _ => none

/-- The configuration that a document describes, in which each key stands at most once. -/
def ofDocument? (d : Yaml.Document) : Option Config :=
  match d.root with
  | none => some {}
  | some root => do
    let entries ← d.entries? root
    if (entries.map (·.1)).Nodup then entries.foldlM (fun c (key, value) => set? d c key value) {}
    else none

def ofYaml? (text : String) : Option Config := do
  ofDocument? (← Yaml.Document.ofText? text)

end Config

end VulkanBindings
