import Mathlib.Data.List.Perm.Basic
import Mathlib.Order.Bounds.Basic
import VulkanBindings.Proofs.Emit.Facades

/-! The handles with a facade, as a set. It is the least one that has what the commands are invoked
on and, with a handle, what this is created from. So the order of the commands does not matter,
though the search for one of them stops at what those before it found. -/

set_option autoImplicit false

namespace VulkanBindings

namespace Facade

variable {g : Graph} {config : Config} {items : List Item}

/-- Names among which are those of the handles that commands are invoked on, and of the handle that
each handle among them is created from. -/
structure IsClosed (g : Graph) (config : Config) (items : List Item) (names : Set String) :
    Prop where
  invoked : ∀ command ∈ Item.commands items, ∀ name, InvokedOn g config command name → name ∈ names
  created : ∀ name ∈ names, ∀ parent, CreatedFrom g name parent → parent ∈ names

theorem IsClosed.mem_of_leads {names : Set String} (closed : IsClosed g config items names)
    {first name : String} (mem : first ∈ names)
    (leads : Relation.ReflTransGen (CreatedFrom g) first name) : name ∈ names := by
  induction leads with
  | refl => exact mem
  | tail _ created ih => exact closed.created _ ih _ created

def faced (g : Graph) (config : Config) (items : List Item) : Set String :=
  {name | name ∈ (determine g config items).value}

theorem mem_faced {name : String} : name ∈ faced g config items ↔
    ∃ command ∈ Item.commands items, ∃ first, InvokedOn g config command first ∧
      Relation.ReflTransGen (CreatedFrom g) first name := mem_handles config

theorem isClosed_faced : IsClosed g config items (faced g config items) where
  invoked command mem name invoked := mem_faced.2 ⟨command, mem, name, invoked, .refl⟩
  created _ mem _ created := mem_handles_of_createdFrom mem created

theorem isLeast_faced : IsLeast {names | IsClosed g config items names} (faced g config items) := by
  refine ⟨isClosed_faced, fun names closed name mem => ?_⟩
  obtain ⟨command, mem, first, invoked, leads⟩ := mem_faced.1 mem
  exact closed.mem_of_leads (closed.invoked command mem first invoked) leads

theorem nodup_determine (g : Graph) (config : Config) (items : List Item) :
    (determine g config items).value.Nodup :=
  (IsTrail.nil.walks (walks_handles g config items)).1.distinct

theorem faced_congr {items' : List Item}
    (same : ∀ command, command ∈ Item.commands items' ↔ command ∈ Item.commands items) :
    faced g config items' = faced g config items := by
  ext name
  simp only [mem_faced, same]

/-- The search ends on every graph, and its outcome is the least set of handles that has what the
commands are invoked on and is closed under what handles are created from. In another order of the
commands the same handles are found. -/
theorem determine_isLeast (g : Graph) (config : Config) (items : List Item) :
    (∀ after, Walks g (starts config items) [] after ↔ after = (determine g config items).value) ∧
      (determine g config items).value.Nodup ∧
      IsLeast {names | IsClosed g config items names}
        {name | name ∈ (determine g config items).value} ∧
      ∀ items', (Item.commands items').Perm (Item.commands items) →
        (determine g config items').value.Perm (determine g config items).value := by
  have walks := walks_handles g config items
  refine ⟨fun after => ⟨fun other => other.unique walks, ?_⟩, nodup_determine g config items,
    isLeast_faced, fun items' perm => ?_⟩
  · rintro rfl
    exact walks
  · have same : faced g config items' = faced g config items :=
      faced_congr fun command => perm.mem_iff
    refine (List.perm_ext_iff_of_nodup (nodup_determine g config items')
      (nodup_determine g config items)).2 fun name => ?_
    exact Set.ext_iff.1 same name

-- The ferry leads to the line, which the second command is invoked on. The third one is invoked on
-- nothing.
def ferryDeparts : CommandItem := ⟨Item.publicName "vkDepart", Spelling.typedef "void",
  [⟨.literal "ferry", Spelling.typedef "VkFerry", "VkFerry"⟩]⟩

def lineCloses : CommandItem := ⟨Item.publicName "vkClose", Spelling.typedef "void",
  [⟨.literal "line", Spelling.typedef "VkLine", "VkLine"⟩]⟩

def tideTurns : CommandItem := ⟨Item.publicName "vkTurn", Spelling.typedef "void", []⟩

theorem ferry_isLeast :
    (determine ferryGraph ferryConfig [.command ferryDeparts, .command lineCloses,
      .command tideTurns]).value = ["VkFerry", "VkPort", "VkLine"] ∧
    (determine ferryGraph ferryConfig [.command lineCloses, .command tideTurns,
      .command ferryDeparts]).value = ["VkLine", "VkPort", "VkFerry"] ∧
    (determine ferryGraph ferryConfig [.command lineCloses, .command tideTurns,
      .command ferryDeparts]).value.Perm
    (determine ferryGraph ferryConfig [.command ferryDeparts, .command lineCloses,
      .command tideTurns]).value := by
  obtain ⟨-, -, -, ordered⟩ := determine_isLeast ferryGraph ferryConfig
    [.command ferryDeparts, .command lineCloses, .command tideTurns]
  refine ⟨by decide +kernel, by decide +kernel, ordered _ ?_⟩
  change ([lineCloses, tideTurns] ++ [ferryDeparts]).Perm ([ferryDeparts] ++ [lineCloses, tideTurns])
  exact List.perm_append_comm

end Facade

end VulkanBindings
