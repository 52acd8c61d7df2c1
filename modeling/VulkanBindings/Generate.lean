import VulkanBindings.Emit.Facade
import VulkanBindings.Emit.Go
import VulkanBindings.Emit.Loader
import VulkanBindings.Graph.Apply
import VulkanBindings.Graph.Order
import VulkanBindings.Item.Build

/-! From a registry to the three texts: the graph with all that is enabled, the order of
emission, the items, and what is written of them. -/

set_option autoImplicit false

namespace VulkanBindings

structure Output where
  go : String
  header : String
  c : String
  deriving DecidableEq, Repr

namespace Graph

def ofConfig (r : Registry) (config : Config) : ExceptT Redefined Logged Graph := do
  let g ← build r config.enabled
  let g ← (config.features.foldlM applyFeature g : Logged Graph)
  let g ← (config.extensions.foldlM applyExtension g : Logged Graph)
  return g

end Graph

/-- What is declared, and the handles that get a facade. -/
structure Declared where
  items : List Item
  facades : List String

def Declared.ofGraph (config : Config) (g : Graph) : Logged Declared := do
  let order ← g.emissionOrder config.enabled
  let items ← Item.build config g order
  let facades ← Facade.determine g config items
  return ⟨items, facades⟩

def Declared.write (config : Config) (d : Declared) : Logged Output := do
  let go ← Go.write config d.facades d.items
  let c ← Loader.write config d.items
  log .info s!"generated {d.items.length} items, {(Item.commands d.items).length} commands"
  return ⟨go, Header.text config d.items, c⟩

def Output.ofRegistry (r : Registry) (config : Config) : ExceptT Redefined Logged Output := do
  let g ← Graph.ofConfig r config
  let declared ← Declared.ofGraph config g
  declared.write config

end VulkanBindings
