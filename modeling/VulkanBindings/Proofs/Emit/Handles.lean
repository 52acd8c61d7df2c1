import Mathlib.Data.Finset.Card
import VulkanBindings.Emit.Facade
import VulkanBindings.Proofs.Graph.Requirement

/-! The handles with a facade: those that commands are invoked on, and all that these are created
from, also where handles are created from one another in a circle. The search has a step for each
node and one more, which is enough on every graph, as each step passes a node for the first time or
is the last but one. -/

set_option autoImplicit false

namespace VulkanBindings

variable {g : Graph}

namespace Facade

def IsHandle (g : Graph) (name : String) : Prop := (parent? g name).isSome

/-- `parent` is the handle that the handle `name` is created from. -/
def CreatedFrom (g : Graph) (name parent : String) : Prop :=
  parent? g name = some (some parent) ∧ IsHandle g parent

theorem parent?_eq_some {name : String} {parent : Option String} :
    parent? g name = some parent ↔
      ∃ id t, g.lookup name = some id ∧ g.element? id = some (.type t) ∧ t.category = .handle ∧
        t.parents.head? = parent := by
  have isType (t : TypeDecl) : (g.definition? name).bind Element.type? = some t ↔
      ∃ id, g.lookup name = some id ∧ g.element? id = some (.type t) := by
    rw [Graph.definition?_eq_bind, Option.bind_eq_some_iff]
    simp only [Option.bind_eq_some_iff]
    constructor
    · rintro ⟨e, ⟨id, known, found⟩, same⟩
      cases e <;> cases same
      exact ⟨id, known, found⟩
    · rintro ⟨id, known, found⟩
      exact ⟨_, ⟨id, known, found⟩, rfl⟩
  unfold parent?
  constructor
  · intro same
    split at same
    · next t found =>
      obtain ⟨id, known, node⟩ := (isType t).1 found
      split at same
      · next isHandle => exact ⟨id, t, known, node, isHandle, Option.some.inj same⟩
      · cases same
    · cases same
  · rintro ⟨id, t, known, node, isHandle, rfl⟩
    rw [(isType t).2 ⟨id, known, node⟩]
    simp [isHandle]

/-- The search from a pending name, however long it takes: it stops at a name that is no handle's or
that was found before. -/
inductive Walk (g : Graph) : Option String → List String → List String → Prop where
  | done {found : List String} : Walk g none found found
  | stop {name : String} {found : List String} (settled : IsHandle g name → name ∈ found) :
      Walk g (some name) found found
  | next {name : String} {parent : Option String} {found after : List String}
      (isHandle : parent? g name = some parent) (new : name ∉ found)
      (later : Walk g parent (found ++ [name]) after) : Walk g (some name) found after

section Bound

variable {pending : Option String} {found : List String}

theorem Walk.of_settled (settled : ∀ name, pending = some name → name ∈ found) :
    Walk g pending found found := by
  cases pending with
  | none => exact .done
  | some name => exact .stop fun _ => settled name rfl

theorem follow_of_settled (settled : ∀ name, pending = some name → name ∈ found) (n : Nat) :
    follow g n pending found = found := by
  cases n with
  | zero => rfl
  | succ n =>
    cases pending with
    | none => rfl
    | some name =>
      unfold follow
      cases parent? g name with
      | none => rfl
      | some parent => exact if_pos (List.contains_iff_mem.2 (settled name rfl))

/-- What the handles of these nodes are created from is found or pending. -/
structure IsPassed (g : Graph) (pending : Option String) (found : List String)
    (passed : Finset NodeId) : Prop where
  inside : ∀ id ∈ passed, id < g.size
  parents : ∀ id ∈ passed, ∀ t, g.element? id = some (.type t) →
    ∀ parent, t.parents.head? = some parent → parent ∈ found ∨ pending = some parent

theorem IsPassed.insert {name : String} {id : NodeId} {t : TypeDecl} {passed : Finset NodeId}
    (isPassed : IsPassed g (some name) found passed) (node : g.element? id = some (.type t)) :
    IsPassed g t.parents.head? (found ++ [name]) (insert id passed) where
  inside other mem := by
    rcases Finset.mem_insert.1 mem with rfl | mem
    · exact Graph.lt_size_of_element? node
    · exact isPassed.inside other mem
  parents other mem t' node' parent first := by
    rcases Finset.mem_insert.1 mem with rfl | mem
    · cases node.symm.trans node'
      exact .inr first
    · rcases isPassed.parents other mem t' node' parent first with known | same
      · exact .inl (List.mem_append_left _ known)
      · cases same
        exact .inl (List.mem_append_right _ List.mem_cons_self)

/-- With a step for every node that is not passed, and one more, the search comes to its end. -/
theorem walk_follow_of_isPassed {passed : Finset NodeId} (isPassed : IsPassed g pending found passed)
    {n : Nat} (enough : g.size < n + passed.card) : Walk g pending found (follow g n pending found) := by
  induction n generalizing pending found passed with
  | zero =>
    have few : passed.card ≤ (Finset.range g.size).card :=
      Finset.card_le_card fun id mem => Finset.mem_range.2 (isPassed.inside id mem)
    rw [Finset.card_range] at few
    omega
  | succ n ih =>
    cases pending with
    | none => exact .done
    | some name =>
      unfold follow
      cases isHandle : parent? g name with
      | none =>
        refine .stop fun handle => ?_
        rw [IsHandle, isHandle] at handle
        cases handle
      | some parent =>
        dsimp only
        split
        · next known => exact .stop fun _ => List.contains_iff_mem.1 known
        · next new =>
          have new : name ∉ found := fun mem => new (List.contains_iff_mem.2 mem)
          refine .next isHandle new ?_
          obtain ⟨id, t, -, node, -, rfl⟩ := parent?_eq_some.1 isHandle
          by_cases again : id ∈ passed
          · -- Another name of a node that was passed leads on to what is found already.
            have settled (parent : String) (first : t.parents.head? = some parent) :
                parent ∈ found ++ [name] := by
              rcases isPassed.parents id again t node parent first with known | same
              · exact List.mem_append_left _ known
              · cases same
                exact List.mem_append_right _ List.mem_cons_self
            rw [follow_of_settled settled]
            exact .of_settled settled
          · refine ih (isPassed.insert node) ?_
            rw [Finset.card_insert_of_notMem again]
            omega

theorem walk_follow (g : Graph) (pending : Option String) (found : List String) :
    Walk g pending found (follow g (g.size + 1) pending found) := by
  have isPassed : IsPassed g pending found ∅ := ⟨nofun, nofun⟩
  exact walk_follow_of_isPassed isPassed (by simp)

end Bound

theorem Walk.unique {pending : Option String} {found after after' : List String}
    (walk : Walk g pending found after) (other : Walk g pending found after') : after = after' := by
  induction walk with
  | done => cases other; rfl
  | stop settled =>
    cases other with
    | stop _ => rfl
    | next isHandle new _ => exact absurd (settled (by simp [IsHandle, isHandle])) new
  | next isHandle new later ih =>
    cases other with
    | stop settled => exact absurd (settled (by simp [IsHandle, isHandle])) new
    | next isHandle' _ later' =>
      cases isHandle.symm.trans isHandle'
      exact ih later'

inductive Walks (g : Graph) : List (Option String) → List String → List String → Prop where
  | done {found : List String} : Walks g [] found found
  | next {start : Option String} {starts : List (Option String)} {found between after : List String}
      (first : Walk g start found between) (later : Walks g starts between after) :
      Walks g (start :: starts) found after

theorem Walks.unique {starts : List (Option String)} {found after after' : List String}
    (walks : Walks g starts found after) (other : Walks g starts found after') :
    after = after' := by
  induction walks with
  | done => cases other; rfl
  | next first _ ih =>
    cases other with
    | next first' later' =>
      cases first.unique first'
      exact ih later'

def starts (config : Config) (items : List Item) : List (Option String) :=
  ((Item.commands items).filter fun c => !config.isGlobalProc c.name.c).map
    fun c => c.params.head?.map (·.typeName)

theorem walks_handles (g : Graph) (config : Config) (items : List Item) :
    Walks g (starts config items) [] (handles g config items) := by
  have all (starts : List (Option String)) (found : List String) : Walks g starts found
      (starts.foldl (fun found start => follow g (g.size + 1) start found) found) := by
    induction starts generalizing found with
    | nil => exact .done
    | cons start rest ih => exact .next (walk_follow g start found) (ih _)
  have walks := all (starts config items) []
  unfold starts at walks
  rwa [List.foldl_map] at walks

/-- Different handles, with all that they are created from except `pending`. -/
structure IsTrail (g : Graph) (pending : Option String) (found : List String) : Prop where
  distinct : found.Nodup
  handles : ∀ name ∈ found, IsHandle g name
  closed : ∀ name ∈ found, ∀ parent, CreatedFrom g name parent →
    parent ∈ found ∨ pending = some parent

namespace IsTrail

variable {pending : Option String} {found after : List String}

theorem nil : IsTrail g none [] := ⟨.nil, nofun, nofun⟩

theorem start (trail : IsTrail g none found) : IsTrail g pending found where
  distinct := trail.distinct
  handles := trail.handles
  closed name mem parent created := .inl ((trail.closed name mem parent created).resolve_right nofun)

theorem settle {name : String} (trail : IsTrail g (some name) found)
    (settled : IsHandle g name → name ∈ found) : IsTrail g none found where
  distinct := trail.distinct
  handles := trail.handles
  closed child mem parent created := by
    rcases trail.closed child mem parent created with known | same
    · exact .inl known
    · cases same
      exact .inl (settled created.2)

theorem extend {name : String} {parent : Option String} (trail : IsTrail g (some name) found)
    (isHandle : parent? g name = some parent) (new : name ∉ found) :
    IsTrail g parent (found ++ [name]) where
  distinct := by simpa using trail.distinct.concat new
  handles other mem := by
    rcases List.mem_append.1 mem with mem | last
    · exact trail.handles other mem
    · rw [List.mem_singleton.1 last]
      simp [IsHandle, isHandle]
  closed child mem other created := by
    rcases List.mem_append.1 mem with mem | last
    · rcases trail.closed child mem other created with known | same
      · exact .inl (List.mem_append_left _ known)
      · cases same
        exact .inl (List.mem_append_right _ List.mem_cons_self)
    · rw [List.mem_singleton.1 last] at created
      exact .inr (Option.some.inj (isHandle.symm.trans created.1))

theorem walk (trail : IsTrail g pending found) (walk : Walk g pending found after) :
    IsTrail g none after ∧ found ⊆ after ∧
      ∀ first, pending = some first → IsHandle g first → first ∈ after := by
  induction walk with
  | done => exact ⟨trail, List.Subset.refl _, nofun⟩
  | stop settled =>
    refine ⟨trail.settle settled, List.Subset.refl _, ?_⟩
    rintro _ ⟨⟩ handle
    exact settled handle
  | next isHandle new _ ih =>
    obtain ⟨whole, kept, -⟩ := ih (trail.extend isHandle new)
    refine ⟨whole, fun other mem => kept (List.mem_append_left _ mem), ?_⟩
    rintro _ ⟨⟩ -
    exact kept (List.mem_append_right _ List.mem_cons_self)

theorem walks {starts : List (Option String)} (trail : IsTrail g none found)
    (walks : Walks g starts found after) :
    IsTrail g none after ∧ found ⊆ after ∧
      ∀ first, some first ∈ starts → IsHandle g first → first ∈ after := by
  induction walks with
  | done => exact ⟨trail, List.Subset.refl _, nofun⟩
  | next first _ ih =>
    obtain ⟨between, kept, started⟩ := trail.start.walk first
    obtain ⟨whole, keptLater, startedLater⟩ := ih between
    refine ⟨whole, List.Subset.trans kept keptLater, fun name listed handle => ?_⟩
    rcases List.mem_cons.1 listed with same | later
    · exact keptLater (started name same.symm handle)
    · exact startedLater name later handle

theorem mem_of_leads {first name : String} (trail : IsTrail g none found) (mem : first ∈ found)
    (leads : Relation.ReflTransGen (CreatedFrom g) first name) : name ∈ found := by
  induction leads with
  | refl => exact mem
  | tail _ created ih => exact (trail.closed _ ih _ created).resolve_right nofun

end IsTrail

theorem Walk.mem {pending : Option String} {found after : List String} {name : String}
    (walk : Walk g pending found after) (mem : name ∈ after) :
    name ∈ found ∨ ∃ first, pending = some first ∧ IsHandle g first ∧
      Relation.ReflTransGen (CreatedFrom g) first name := by
  induction walk with
  | done => exact .inl mem
  | stop _ => exact .inl mem
  | @next first parent found after isHandle new _ ih =>
    have handle : IsHandle g first := by simp [IsHandle, isHandle]
    rcases ih mem with mem | ⟨second, rfl, handle', leads⟩
    · rcases List.mem_append.1 mem with mem | last
      · exact .inl mem
      · rw [List.mem_singleton.1 last]
        exact .inr ⟨first, rfl, handle, .refl⟩
    · exact .inr ⟨first, rfl, handle, leads.head ⟨isHandle, handle'⟩⟩

theorem Walks.mem {starts : List (Option String)} {found after : List String} {name : String}
    (walks : Walks g starts found after) (mem : name ∈ after) :
    name ∈ found ∨ ∃ first, some first ∈ starts ∧ IsHandle g first ∧
      Relation.ReflTransGen (CreatedFrom g) first name := by
  induction walks with
  | done => exact .inl mem
  | next walk _ ih =>
    rcases ih mem with mem | ⟨first, listed, leads⟩
    · rcases walk.mem mem with mem | ⟨first, rfl, leads⟩
      · exact .inl mem
      · exact .inr ⟨first, List.mem_cons_self, leads⟩
    · exact .inr ⟨first, List.mem_cons_of_mem _ listed, leads⟩

/-- What a command is invoked on, if it is invoked on a handle. -/
def InvokedOn (g : Graph) (config : Config) (command : CommandItem) (name : String) : Prop :=
  config.isGlobalProc command.name.c = false ∧
    (∃ p, command.params.head? = some p ∧ p.typeName = name) ∧ IsHandle g name

theorem mem_starts {config : Config} {items : List Item} {name : String} :
    some name ∈ starts config items ∧ IsHandle g name ↔
      ∃ command ∈ Item.commands items, InvokedOn g config command name := by
  simp only [starts, InvokedOn, List.mem_map, List.mem_filter, Option.map_eq_some_iff,
    Bool.not_eq_true']
  constructor
  · rintro ⟨⟨command, ⟨mem, invoked⟩, first⟩, handle⟩
    exact ⟨command, mem, invoked, first, handle⟩
  · rintro ⟨command, mem, invoked, first, handle⟩
    exact ⟨⟨command, ⟨mem, invoked⟩, first⟩, handle⟩

/-- The handles with a facade: those of the commands, and what they are created from. -/
theorem mem_handles (config : Config) {items : List Item} {name : String} :
    name ∈ handles g config items ↔
      ∃ command ∈ Item.commands items, ∃ first, InvokedOn g config command first ∧
        Relation.ReflTransGen (CreatedFrom g) first name := by
  have walks := walks_handles g config items
  constructor
  · intro mem
    obtain ⟨first, listed, handle, leads⟩ := (walks.mem mem).resolve_left nofun
    obtain ⟨command, mem, invoked⟩ := mem_starts.1 ⟨listed, handle⟩
    exact ⟨command, mem, first, invoked, leads⟩
  · rintro ⟨command, mem, first, invoked, leads⟩
    obtain ⟨listed, handle⟩ := mem_starts.2 ⟨command, mem, invoked⟩
    obtain ⟨trail, -, begun⟩ := IsTrail.nil.walks walks
    exact trail.mem_of_leads (begun first listed handle) leads

theorem mem_handles_of_createdFrom {config : Config} {items : List Item} {name parent : String}
    (mem : name ∈ handles g config items) (created : CreatedFrom g name parent) :
    parent ∈ handles g config items := by
  obtain ⟨command, listed, first, invoked, leads⟩ := (mem_handles config).1 mem
  exact (mem_handles config).2 ⟨command, listed, first, invoked, leads.tail created⟩

end Facade

end VulkanBindings
