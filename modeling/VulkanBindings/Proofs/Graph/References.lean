import VulkanBindings.Proofs.Graph.Defined
import VulkanBindings.Proofs.Graph.Rules

/-! What a registry's elements refer to by name, and that its graph has exactly this: a reference
becomes an edge, or a missing name where nothing defines it. -/

set_option autoImplicit false

namespace VulkanBindings

/-- What refers to names: an element under its own name, or an enum block by its place among the
blocks, since blocks have no names of their own. -/
inductive Referrer where
  | named (name : String)
  | block (index : Nat)
  deriving DecidableEq, Repr

abbrev Reference := Referrer × String

namespace Referrer

def refersTo (owner : Referrer) (names : List String) : List Reference := names.map (owner, ·)

end Referrer

/-- What refers to which names in a registry, by the rules of each element. An enum block refers to its
values, and each value to the one that it is another name for. -/
inductive Registry.Refers (r : Registry) (enabled : List String) : Referrer → String → Prop where
  | type {t : TypeDecl} {name : String} (listed : t ∈ r.types) (refers : t.Refers name) :
      r.Refers enabled (.named t.name) name
  | value {i : Nat} {b : EnumBlock} {v : EnumValue} (listed : r.enums[i]? = some b) (among : v ∈ b.values) :
      r.Refers enabled (.block i) v.name
  | aliasedValue {b : EnumBlock} {v : EnumValue} {name : String} (listed : b ∈ r.enums)
      (among : v ∈ b.values) (given : v.aliasOf = some name) : r.Refers enabled (.named v.name) name
  | command {c : Command} {name : String} (listed : c ∈ r.commands) (refers : c.Refers name) :
      r.Refers enabled (.named c.name) name
  | feature {f : Feature} {b : RequireBlock} {name : String} (listed : f ∈ r.features)
      (among : b ∈ f.require) (applies : b.Applies enabled) (refers : b.Refers name) :
      r.Refers enabled (.named f.name) name
  | extension {e : Extension} {b : RequireBlock} {name : String} (listed : e ∈ r.extensions)
      (among : b ∈ e.require) (applies : b.Applies enabled) (refers : b.Refers name) :
      r.Refers enabled (.named e.name) name
  | platform {e : Extension} {name : String} (listed : e ∈ r.extensions) (given : e.platform = some name) :
      r.Refers enabled (.named e.name) name
  | dependency {e : Extension} {name : String} (listed : e ∈ r.extensions)
      (depends : e.DependsOn enabled name) : r.Refers enabled (.named e.name) name

def EnumValue.references (index : Nat) (v : EnumValue) : List Reference :=
  Referrer.refersTo (.block index) [v.name] ++ Referrer.refersTo (.named v.name) v.aliasOf.toList

namespace Graph

variable {g after base : Graph}

def references (g : Graph) (r : Registry) : List Reference :=
  (r.types.flatMap fun t => Referrer.refersTo (.named t.name) t.references) ++
    (r.enums.zipIdx.flatMap fun (b, i) => b.values.flatMap (·.references i)) ++
    (r.commands.flatMap fun c => Referrer.refersTo (.named c.name) c.references) ++
    (r.features.flatMap fun f => Referrer.refersTo (.named f.name) (g.requiredNames f.require)) ++
    r.extensions.flatMap fun e => Referrer.refersTo (.named e.name)
      (g.requiredNames e.require ++ e.platform.toList ++ g.dependencies e)

/-- What is linked for a registry is what the rules give. -/
theorem mem_references {r : Registry} {owner : Referrer} {name : String} :
    (owner, name) ∈ g.references r ↔ r.Refers g.enabled owner name := by
  simp only [references, EnumValue.references, Referrer.refersTo, List.mem_append, List.mem_flatMap,
    List.mem_map, Prod.mk.injEq, Prod.exists, List.mem_zipIdx_iff_getElem?, TypeDecl.mem_references,
    Command.mem_references, mem_requiredNames, mem_dependencies, Option.mem_toList]
  constructor
  · rintro ((((⟨t, listed, _, refers, rfl, rfl⟩ | ⟨b, i, listed, v, among, ⟨_, mem, rfl, rfl⟩ |
      ⟨_, given, rfl, rfl⟩⟩) | ⟨c, listed, _, refers, rfl, rfl⟩) | ⟨f, listed, _,
      ⟨b, among, applies, refers⟩, rfl, rfl⟩) | ⟨e, listed, _,
      (⟨b, among, applies, refers⟩ | given) | depends, rfl, rfl⟩)
    · exact .type listed refers
    · obtain rfl := List.mem_singleton.1 mem
      exact .value listed among
    · exact .aliasedValue (List.mem_of_getElem? listed) among given
    · exact .command listed refers
    · exact .feature listed among applies refers
    · exact .extension listed among applies refers
    · exact .platform listed given
    · exact .dependency listed depends
  · intro refers
    cases refers with
    | type listed refers => exact .inl (.inl (.inl (.inl ⟨_, listed, _, refers, rfl, rfl⟩)))
    | value listed among =>
      exact .inl (.inl (.inl (.inr ⟨_, _, listed, _, among, .inl ⟨_, List.mem_singleton_self _, rfl, rfl⟩⟩)))
    | aliasedValue listed among given =>
      obtain ⟨i, listed⟩ := List.getElem?_of_mem listed
      exact .inl (.inl (.inl (.inr ⟨_, i, listed, _, among, .inr ⟨_, given, rfl, rfl⟩⟩)))
    | command listed refers => exact .inl (.inl (.inr ⟨_, listed, _, refers, rfl, rfl⟩))
    | feature listed among applies refers =>
      exact .inl (.inr ⟨_, listed, _, ⟨_, among, applies, refers⟩, rfl, rfl⟩)
    | extension listed among applies refers =>
      exact .inr ⟨_, listed, _, .inl (.inl ⟨_, among, applies, refers⟩), rfl, rfl⟩
    | platform listed given => exact .inr ⟨_, listed, _, .inl (.inr given), rfl, rfl⟩
    | dependency listed depends => exact .inr ⟨_, listed, _, .inr depends, rfl, rfl⟩

instance (r : Registry) (enabled : List String) (owner : Referrer) (name : String) :
    Decidable (r.Refers enabled owner name) :=
  decidable_of_iff ((owner, name) ∈ { empty with enabled }.references r) mem_references

def nodeOf? (g : Graph) : Referrer → Option NodeId
  | .named name => g.lookup name
  | .block index => some (g.dictionary.size + 1 + index)

def resolve (g : Graph) (refs : List Reference) : List (NodeId × String) :=
  refs.filterMap fun (owner, name) => (g.nodeOf? owner).map (·, name)

theorem mem_resolve {refs : List Reference} {id : NodeId} {name : String} :
    (id, name) ∈ g.resolve refs ↔ ∃ owner, (owner, name) ∈ refs ∧ g.nodeOf? owner = some id := by
  simp [resolve, List.mem_filterMap, Option.map_eq_some_iff]

@[simp] theorem resolve_append (refs more : List Reference) :
    g.resolve (refs ++ more) = g.resolve refs ++ g.resolve more :=
  List.filterMap_append

theorem resolve_refersTo (owner : Referrer) (names : List String) :
    g.resolve (owner.refersTo names) =
      (g.nodeOf? owner).elim [] fun id => names.map (id, ·) := by
  unfold resolve Referrer.refersTo
  rw [List.filterMap_map]
  cases owned : g.nodeOf? owner <;> simp [owned]

section Grows

variable (h : Grows g after)

include h

theorem Grows.requiredNames (blocks : List RequireBlock) :
    after.requiredNames blocks = g.requiredNames blocks := by
  unfold Graph.requiredNames
  simp only [h.isSatisfied]

theorem Grows.dependencyNames? (depends : String) :
    after.dependencyNames? depends = g.dependencyNames? depends := by
  unfold Graph.dependencyNames?
  have same : after.isEnabled = g.isEnabled := by
    unfold isEnabled
    rw [h.enabled]
  rw [same]

theorem Grows.dependencies (e : Extension) : after.dependencies e = g.dependencies e := by
  unfold Graph.dependencies
  rw [funext h.dependencyNames?]

theorem Grows.references (r : Registry) : after.references r = g.references r := by
  unfold Graph.references
  simp only [h.requiredNames, h.dependencies]

theorem Grows.nodeOf? (owner : Referrer) : after.nodeOf? owner = g.nodeOf? owner := by
  cases owner with
  | named name => exact h.lookup name
  | block index =>
    unfold Graph.nodeOf?
    rw [h.dictionary]

theorem Grows.resolve (refs : List Reference) : after.resolve refs = g.resolve refs := by
  unfold Graph.resolve
  simp only [h.nodeOf?]

end Grows

theorem mem_missing_link {child id : NodeId} {name target : String} :
    target ∈ (g.link child name).missing id ↔ target ∈ g.missing id ∨
      id = child ∧ child < g.size ∧ target = Text.trim name ∧ target ≠ "" ∧
        g.lookup target = none := by
  simp only [link]
  split
  · next empty =>
    rw [String.isEmpty_iff.1 empty]
    grind
  · next nonempty =>
    rw [String.isEmpty_iff] at nonempty
    cases known : g.lookup (Text.trim name) with
    | none =>
      rw [missing_addMissing]
      grind
    | some parent =>
      rw [missing_addParent]
      grind

/-- The edges and the missing names of a graph are what references give. Enum blocks, which have no
names, are left out. -/
structure Records (g : Graph) (refs : List (NodeId × String)) : Prop extends Linked g where
  edges : ∀ id parent, ¬g.HasKind parent .block →
    (parent ∈ g.parents id ↔ parent ≠ id ∧
      ∃ name, (id, name) ∈ refs ∧ Text.trim name ≠ "" ∧ g.lookup (Text.trim name) = some parent)
  unknown : ∀ id target, target ∈ g.missing id ↔ target ≠ "" ∧ g.lookup target = none ∧
    ∃ name, (id, name) ∈ refs ∧ Text.trim name = target

namespace Records

variable {refs : List (NodeId × String)}

theorem of_named (h : g.Named) : g.Records [] where
  toLinked := h.linked g.enabled
  edges id parent _ := by simp [h.edgeless]
  unknown id target := by simp [h.complete]

theorem link (h : g.Records refs) {child : NodeId} (inside : child < g.size) (name : String) :
    (g.link child name).Records (refs ++ [(child, name)]) where
  toLinked := h.steps (LinkSteps.link g child name)
  edges id parent notBlock := by
    have old : ¬g.HasKind parent .block := by simpa [HasKind] using notBlock
    rw [mem_parents_link, h.edges id parent old]
    simp only [lookup_link, List.mem_append, List.mem_singleton, Prod.mk.injEq]
    grind
  unknown id target := by
    rw [mem_missing_link, h.unknown id target]
    simp only [lookup_link, List.mem_append, List.mem_singleton, Prod.mk.injEq]
    grind

theorem linkAll (h : g.Records refs) {child : NodeId} (inside : child < g.size)
    (names : List String) : (g.linkAll child names).Records (refs ++ names.map (child, ·)) := by
  induction names generalizing g refs with
  | nil =>
    rw [List.map_nil, List.append_nil]
    exact h
  | cons name rest ih =>
    rw [List.map_cons, List.append_cons]
    exact ih (h.link inside name) (by rwa [size_link])

theorem attach (h : g.Records refs) (b : EnumBlock) :
    (g.attach ((g.lookup b.name).getD constants) (.block b.info)).Records refs where
  toLinked := h.step (.block b)
  edges id parent notBlock := by
    simp only [hasKind_attach, not_or, not_and] at notBlock
    have old : parent ≠ g.size := fun last => notBlock.1 last rfl
    simp only [mem_parents_attach, h.edges id parent notBlock.2, lookup_attach, old, and_false,
      or_false]
  unknown id target := by
    simpa [Graph.attach] using h.unknown id target

end Records

theorem value_linkExtension (g : Graph) (e : Extension) :
    (g.linkExtension e).value = (g.lookup e.name).elim g fun id =>
      g.linkAll id (g.requiredNames e.require ++ e.platform.toList ++ g.dependencies e) := by
  unfold linkExtension dependencies
  cases known : g.lookup e.name with
  | none => rfl
  | some id =>
    have before (names : List String) : Grows g (g.linkAll id names) :=
      (NamedLinks.linkSteps (NamedLinks.linkAll known names)).grows
    have join (first more : List String) :
        (g.linkAll id first).linkAll id more = g.linkAll id (first ++ more) :=
      List.foldl_append.symm
    dsimp only
    rw [linkRequire_eq_linkAll, join, Option.elim_some, ← requiredNames]
    cases depends : e.depends with
    | none => simp
    | some text =>
      dsimp only
      unfold linkDepends
      rw [(before _).dependencyNames?, Option.bind_some]
      cases g.dependencyNames? text with
      | none => simp
      | some names => exact join _ names

/-- A graph on the way from its names to all links of a registry, with the references that are
linked so far. -/
structure Progress (base g : Graph) (refs : List Reference) : Prop where
  records : g.Records (base.resolve refs)
  grows : Grows base g

theorem NamedLinks.size (links : NamedLinks g after) : after.size = g.size := by
  induction links with
  | refl => rfl
  | tail _ step ih =>
    obtain ⟨-, target⟩ := step
    rw [size_link, ih]

theorem size_linkValue (block : NodeId) (g : Graph) (v : EnumValue) :
    (linkValue block g v).size = g.size := by
  unfold linkValue
  dsimp only
  split <;> simp

@[simp] theorem size_linkBlock (g : Graph) (b : EnumBlock) : (g.linkBlock b).size = g.size + 1 := by
  have values (vs : List EnumValue) (block : NodeId) (g : Graph) :
      (vs.foldl (linkValue block) g).size = g.size := by
    induction vs generalizing g with
    | nil => rfl
    | cons v vs ih => rw [List.foldl_cons, ih, size_linkValue]
  unfold linkBlock
  dsimp only
  rw [values, size_addParent, size_push]

namespace Progress

variable {refs : List Reference}

theorem linkNamed (h : Progress base g refs) (name : String) (targets : List String) :
    Progress base ((g.lookup name).elim g fun id => g.linkAll id targets)
      (refs ++ Referrer.refersTo (.named name) targets) where
  records := by
    rw [resolve_append, resolve_refersTo, nodeOf?, ← h.grows.lookup]
    cases known : g.lookup name with
    | none => simpa using h.records
    | some id => exact h.records.linkAll (h.records.names name id known).1 targets
  grows := by
    cases known : g.lookup name with
    | none => exact h.grows
    | some id => exact h.grows.trans (NamedLinks.linkSteps (NamedLinks.linkAll known targets)).grows

theorem foldl {α : Type} {f : Graph → α → Graph} {own : α → List Reference}
    (each : ∀ {g refs} a, Progress base g refs → Progress base (f g a) (refs ++ own a)) (xs : List α)
    (h : Progress base g refs) : Progress base (xs.foldl f g) (refs ++ xs.flatMap own) := by
  induction xs generalizing g refs with
  | nil => simpa using h
  | cons a xs ih =>
    rw [List.flatMap_cons, ← List.append_assoc]
    exact ih (each a h)

theorem linkType (h : Progress base g refs) (t : TypeDecl) :
    Progress base (g.linkType t) (refs ++ Referrer.refersTo (.named t.name) t.references) := by
  have linked := h.linkNamed t.name t.references
  unfold Graph.linkType
  cases known : g.lookup t.name <;> simpa [known] using linked

theorem linkCommand (h : Progress base g refs) (c : Command) :
    Progress base (g.linkCommand c) (refs ++ Referrer.refersTo (.named c.name) c.references) := by
  have linked := h.linkNamed c.name c.references
  unfold Graph.linkCommand
  cases known : g.lookup c.name <;> simpa [known] using linked

theorem linkFeature (h : Progress base g refs) (f : Feature) :
    Progress base (g.linkFeature f)
      (refs ++ Referrer.refersTo (.named f.name) (base.requiredNames f.require)) := by
  have linked := h.linkNamed f.name (base.requiredNames f.require)
  rw [← h.grows.requiredNames] at linked ⊢
  unfold Graph.linkFeature
  cases known : g.lookup f.name with
  | none => simpa [known] using linked
  | some id =>
    rw [known] at linked
    dsimp only
    rw [linkRequire_eq_linkAll]
    exact linked

theorem linkExtension (h : Progress base g refs) (e : Extension) :
    Progress base (g.linkExtension e).value (refs ++ Referrer.refersTo (.named e.name)
      (base.requiredNames e.require ++ e.platform.toList ++ base.dependencies e)) := by
  have linked := h.linkNamed e.name
    (base.requiredNames e.require ++ e.platform.toList ++ base.dependencies e)
  rw [← h.grows.requiredNames, ← h.grows.dependencies] at linked ⊢
  rwa [value_linkExtension]

theorem linkValue (h : Progress base g refs) {index : Nat} {block : NodeId}
    (isBlock : base.nodeOf? (.block index) = some block) (inside : block < g.size) (v : EnumValue) :
    Progress base (Graph.linkValue block g v) (refs ++ v.references index) := by
  have first : Progress base (g.link block v.name)
      (refs ++ Referrer.refersTo (.block index) [v.name]) := by
    refine ⟨?_, h.grows.trans (LinkSteps.link g block v.name).grows⟩
    rw [resolve_append, resolve_refersTo, isBlock]
    exact h.records.link inside v.name
  have linked := first.linkNamed v.name v.aliasOf.toList
  unfold Graph.linkValue EnumValue.references
  rw [← List.append_assoc]
  cases known : (g.link block v.name).lookup v.name with
  | none => simpa [known] using linked
  | some id => cases target : v.aliasOf <;> simpa [known, target, linkAll] using linked

theorem linkValues (h : Progress base g refs) {index : Nat} {block : NodeId}
    (isBlock : base.nodeOf? (.block index) = some block) (inside : block < g.size)
    (vs : List EnumValue) :
    Progress base (vs.foldl (Graph.linkValue block) g) (refs ++ vs.flatMap (·.references index)) := by
  induction vs generalizing g refs with
  | nil => simpa using h
  | cons v vs ih =>
    rw [List.flatMap_cons, ← List.append_assoc]
    exact ih (h.linkValue isBlock inside v)
      (Nat.lt_of_lt_of_le inside (LinkSteps.linkValue block g v).grows.size_le)

theorem linkBlock (h : Progress base g refs) {index : Nat}
    (next : g.size = base.dictionary.size + 1 + index) (b : EnumBlock) :
    Progress base (g.linkBlock b) (refs ++ b.values.flatMap (·.references index)) := by
  have attached : Progress base (g.attach ((g.lookup b.name).getD constants) (.block b.info)) refs :=
    ⟨h.records.attach b, h.grows.trans (Grows.attach g _ _)⟩
  exact attached.linkValues (by rw [nodeOf?, next]) (by simp) b.values

theorem linkBlocks (h : Progress base g refs) {index : Nat}
    (next : g.size = base.dictionary.size + 1 + index) (bs : List EnumBlock) :
    Progress base (bs.foldl Graph.linkBlock g)
      (refs ++ (bs.zipIdx index).flatMap fun (b, i) => b.values.flatMap (·.references i)) := by
  induction bs generalizing g refs index with
  | nil => simpa using h
  | cons b bs ih =>
    rw [List.zipIdx_cons, List.flatMap_cons, ← List.append_assoc]
    exact ih (h.linkBlock next b) (by rw [size_linkBlock, next, Nat.add_assoc])

theorem linkRegistry (h : Progress g g []) (counted : g.size = g.dictionary.size + 1)
    (r : Registry) : Progress g (g.linkRegistry r) (g.references r) := by
  have types := foldl (fun t h => h.linkType t) r.types h
  have size : (r.types.foldl Graph.linkType g).size = g.dictionary.size + 1 + 0 :=
    (NamedLinks.size (steps_foldl NamedLinks.linkType r.types g)).trans counted
  have blocks := types.linkBlocks size r.enums
  have commands := foldl (fun c h => h.linkCommand c) r.commands blocks
  have features := foldl (fun f h => h.linkFeature f) r.features commands
  exact foldl (fun e h => h.linkExtension e) r.extensions features

end Progress

/-- A name that a node refers to is its own, or that of a parent, or is missing, unless there is no
name at all. -/
def Resolved (g : Graph) (id : NodeId) (name : String) : Prop :=
  name = "" ∨ g.lookup name = some id ∨
    (∃ parent ∈ g.parents id, g.lookup name = some parent) ∨
    g.lookup name = none ∧ name ∈ g.missing id

theorem Records.resolved {refs : List (NodeId × String)} (h : g.Records refs) {id : NodeId}
    {name : String} (mem : (id, name) ∈ refs) : g.Resolved id (Text.trim name) := by
  by_cases empty : Text.trim name = ""
  · exact .inl empty
  cases known : g.lookup (Text.trim name) with
  | none =>
    exact .inr (.inr (.inr ⟨known, (h.unknown id _).2 ⟨empty, known, name, mem, rfl⟩⟩))
  | some parent =>
    by_cases own : parent = id
    · exact .inr (.inl (own ▸ known))
    · have notBlock := (h.names _ parent known).2.2.1
      refine .inr (.inr (.inl ⟨parent, ?_, known⟩))
      exact (h.edges id parent notBlock).2 ⟨own, name, mem, empty, known⟩

theorem element?_linkBlocks {bs : List EnumBlock} {i : Nat} {b : EnumBlock}
    (listed : bs[i]? = some b) :
    (bs.foldl linkBlock g).element? (g.size + i) = some (.block b.info) := by
  induction bs generalizing g i with
  | nil => cases listed
  | cons first bs ih =>
    cases i with
    | zero =>
      obtain rfl : first = b := by simpa using listed
      have placed : (g.linkBlock first).element? g.size = some (.block first.info) := by
        have values := LinkSteps.grows (steps_foldl (LinkSteps.linkValue g.size) first.values
          (g.attach ((g.lookup first.name).getD constants) (.block first.info)))
        exact values.element?_of_some (by rw [element?_attach, if_pos rfl])
      exact (LinkSteps.grows (steps_foldl LinkSteps.linkBlock bs _)).element?_of_some placed
    | succ i =>
      have next : g.size + (i + 1) = (g.linkBlock first).size + i := by
        rw [size_linkBlock]
        omega
      rw [List.foldl_cons, next]
      exact ih (by simpa using listed)

theorem size_of_definitions {r : Registry} {named : Graph}
    (ok : (r.definitions.foldlM define empty).run.value = .ok named) :
    named.size = named.dictionary.size + 1 := by
  refine Logged.of_foldlM_eq_ok (P := fun g : Graph => g.size = g.dictionary.size + 1)
    (fun g d _ after counted ok => ?_) rfl ok
  rcases (define_eq_ok d).1 ok with ⟨unknown, rfl⟩ | ⟨_, -, -, rfl⟩
  · have fresh : ¬g.dictionary.contains d.name := by
      simpa [lookup] using unknown
    rw [size_enter, counted, enter, Std.TreeMap.size_insert, if_neg fresh]
  · exact counted

section Build

variable {r : Registry} {enabled : List String}

variable (accepted : (build r enabled).run.value = .ok g)

include accepted

/-- A registry's graph records its references, and its blocks come after its names. -/
theorem records_of_build :
    g.enabled = enabled ∧ g.Records (g.resolve (g.references r)) ∧
      ∀ i b, r.enums[i]? = some b →
        ∃ id, g.nodeOf? (.block i) = some id ∧ g.element? id = some (.block b.info) := by
  obtain ⟨named, defined, rfl⟩ := exists_definitions_of_build accepted
  have isNamed := (named_of_definitions defined).withEnabled enabled
  have counted := size_of_definitions defined
  have whole := Progress.linkRegistry ⟨.of_named isNamed, .refl _⟩ counted r
  obtain ⟨typed, before, after⟩ := exists_linkBlocks { named with enabled } r
  refine ⟨whole.grows.enabled, ?_, fun i b listed => ⟨typed.size + i, ?_, ?_⟩⟩
  · rw [whole.grows.references, whole.grows.resolve]
    exact whole.records
  · rw [whole.grows.nodeOf?, NamedLinks.size before]
    exact congrArg (fun n => some (n + i)) counted.symm
  · exact (NamedLinks.linkSteps after).grows.element?_of_some (element?_linkBlocks listed)

omit accepted in
theorem exists_nodeOf_of_refers (h : g.Defines r.definitions) {owner : Referrer} {name : String}
    (refers : r.Refers enabled owner name) : ∃ id, g.nodeOf? owner = some id := by
  have defined {d : Element} (mem : d ∈ r.definitions) : ∃ id, g.lookup d.name = some id :=
    let ⟨id, _, known, _⟩ := h.complete d mem
    ⟨id, known⟩
  cases refers with
  | type listed => exact defined (Registry.type_mem_definitions.2 listed)
  | value => exact ⟨_, rfl⟩
  | aliasedValue listed among => exact defined (Registry.value_mem_definitions listed among)
  | command listed => exact defined (Registry.command_mem_definitions.2 listed)
  | feature listed => exact defined (Registry.feature_mem_definitions.2 listed)
  | extension listed | platform listed | dependency listed =>
    exact defined (Registry.extension_mem_definitions.2 listed)

/-- No reference of a registry is lost in its graph, and none is made up. -/
theorem references_resolved :
    (∀ i b, r.enums[i]? = some b →
      ∃ id, g.nodeOf? (.block i) = some id ∧ g.element? id = some (.block b.info)) ∧
      (∀ owner name, r.Refers enabled owner name →
        ∃ id, g.nodeOf? owner = some id ∧ g.Resolved id (Text.trim name)) ∧
      (∀ id, ∀ parent ∈ g.parents id, ¬g.HasKind parent .block →
        ∃ owner name, r.Refers enabled owner name ∧ g.nodeOf? owner = some id ∧
          g.lookup (Text.trim name) = some parent) ∧
      ∀ id, ∀ target ∈ g.missing id,
        ∃ owner name, r.Refers enabled owner name ∧ g.nodeOf? owner = some id ∧
          Text.trim name = target := by
  obtain ⟨rfl, records, blocks⟩ := records_of_build accepted
  refine ⟨blocks, fun owner name refers => ?_, fun id parent edge notBlock => ?_,
    fun id target noted => ?_⟩
  · obtain ⟨id, owned⟩ := exists_nodeOf_of_refers (defines_of_build accepted) refers
    exact ⟨id, owned, records.resolved (mem_resolve.2 ⟨owner, mem_references.2 refers, owned⟩)⟩
  · obtain ⟨-, name, mem, -, known⟩ := (records.edges id parent notBlock).1 edge
    obtain ⟨owner, mem, owned⟩ := mem_resolve.1 mem
    exact ⟨owner, name, mem_references.1 mem, owned, known⟩
  · obtain ⟨-, -, name, mem, same⟩ := (records.unknown id target).1 noted
    obtain ⟨owner, mem, owned⟩ := mem_resolve.1 mem
    exact ⟨owner, name, mem_references.1 mem, owned, same⟩

end Build

-- A type that is declared twice, with members that refer to different names, a block of one value, and
-- what requires them. Nothing defines some of the names, and one require block does not apply.
def flagFleet : TypeDecl where
  name := "VkFleet"
  category := .struct
  requires := some "VkHarbor"
  parent := some "VkFlag, ,VkPort"
  objTypeEnum := some "VK_OBJECT_FLEET"
  typeTags := ["void"]
  members := [{ name := "flag", typeName := " VkFlag", enumRef := some "VK_RANK_LOW" }]

def bannerFlag : TypeDecl where
  name := "VkFlag"
  category := .handle
  aliasOf := some "VkBanner"

def lowRank : EnumValue where
  name := "VK_RANK_LOW"
  aliasOf := some "VK_RANK_MATE"

def fleetCommands : List Command := [
  { proto := { typeName := "VkFleet", name := "vkSail" },
    params := [{ name := "flag", typeName := "VkFlag" }] },
  { aliasOf := some "vkSail", nameAttr := some "vkSailKHR" }]

def fleetFeature : Feature where
  name := "VK_VERSION_1_0"
  require := [
    { commands := ["vkSail"], types := ["VkFleet"]
      enums := [{ element := { name := "VK_RANK_LOW" }, extends? := some "VkRank" }] },
    { depends := some "VK_KHR_oar", types := ["VkOar"] }]

def fleetExtensions : List Extension := [
  { name := "VK_KHR_sail", platform := some "harbor", depends := some "VK_VERSION_1_0+VK_KHR_mast"
    require := [{ depends := some "VK_VERSION_1_0", commands := ["vkSailKHR"] }] },
  { name := "VK_KHR_boat", depends := some "VK_KHR_sail, VK_VERSION_1_0 ,VK_KHR_oar" }]

def fleetRegistry : Registry where
  types := [flagFleet, bannerFlag, { flagFleet with members := [{ name := "crew", typeName := "VkCrew" }] }]
  enums := [{ name := "VkRank", values := [lowRank] }]
  commands := fleetCommands
  features := [fleetFeature]
  extensions := fleetExtensions

def fleetEnabled : List String := ["VK_VERSION_1_0", "VK_KHR_sail"]

def fleetGraph : Graph where
  nodes := #[⟨.virtual "API Constants", [9], []⟩,
    ⟨.type flagFleet, [2, 3], ["VkHarbor", "VkPort", "VK_OBJECT_FLEET", "void", "VkCrew"]⟩,
    ⟨.type bannerFlag, [], ["VkBanner"]⟩,
    ⟨.value lowRank, [], ["VK_RANK_MATE"]⟩,
    ⟨.command fleetCommands[0], [1, 2], []⟩,
    ⟨.command fleetCommands[1], [4], []⟩,
    ⟨.feature fleetFeature, [4, 1, 3], ["VkRank"]⟩,
    ⟨.extension fleetExtensions[0], [5, 6], ["harbor", "VK_KHR_mast"]⟩,
    ⟨.extension fleetExtensions[1], [6], []⟩,
    ⟨.block ⟨"VkRank", .other, none, none⟩, [3], []⟩]
  dictionary := (((((((∅ : Std.TreeMap String NodeId).insert "VkFleet" 1).insert "VkFlag" 2).insert
    "VK_RANK_LOW" 3).insert "vkSail" 4).insert "vkSailKHR" 5).insert "VK_VERSION_1_0" 6).insert
    "VK_KHR_sail" 7 |>.insert "VK_KHR_boat" 8
  enabled := fleetEnabled

def fleetReferences : List Reference := [
  (.named "VkFleet", "VkPort"),
  (.named "VkFleet", " VkFlag"),
  (.block 0, "VK_RANK_LOW"),
  (.named "VK_RANK_LOW", "VK_RANK_MATE"),
  (.named "vkSail", "VkFlag"),
  (.named "VK_VERSION_1_0", "VkRank"),
  (.named "VK_KHR_sail", "vkSailKHR"),
  (.named "VK_KHR_sail", "VK_KHR_mast"),
  (.named "VK_KHR_boat", "VK_VERSION_1_0")]

theorem references_fleet :
    (build fleetRegistry fleetEnabled).run.value = .ok fleetGraph ∧
      (∀ refers ∈ fleetReferences, ∃ id, fleetGraph.nodeOf? refers.1 = some id ∧
        fleetGraph.Resolved id (Text.trim refers.2)) ∧
      ¬fleetRegistry.Refers fleetEnabled (.named "VK_VERSION_1_0") "VkOar" ∧
      (∃ owner name, fleetRegistry.Refers fleetEnabled owner name ∧
        fleetGraph.nodeOf? owner = some 6 ∧ fleetGraph.lookup (Text.trim name) = some 3) ∧
      ∃ owner name, fleetRegistry.Refers fleetEnabled owner name ∧
        fleetGraph.nodeOf? owner = some 7 ∧ Text.trim name = "VK_KHR_mast" := by
  have accepted : (build fleetRegistry fleetEnabled).run.value = .ok fleetGraph := rfl
  have listed : ∀ refers ∈ fleetReferences, fleetRegistry.Refers fleetEnabled refers.1 refers.2 := by
    decide +kernel
  obtain ⟨-, resolved, linked, noted⟩ := references_resolved accepted
  refine ⟨accepted, fun refers mem => resolved _ _ (listed refers mem), by decide +kernel,
    linked 6 3 (by decide +kernel) ?_, noted 7 "VK_KHR_mast" (by decide +kernel)⟩
  rintro ⟨e, found, isBlock⟩
  cases found
  cases isBlock

end Graph

end VulkanBindings
