import VulkanBindings.Proofs.Graph.Defined

/-! The enum blocks of a registry's graph: a node for each block, in order, that is owned by the
type of its name or else by the constants. Its parents are values that the block lists. -/

set_option autoImplicit false

namespace VulkanBindings.Graph

variable {g : Graph} {r : Registry} {placed : List (NodeId × EnumBlock)}

def ownerOf (g : Graph) (b : EnumBlock) : NodeId := (g.lookup b.name).getD constants

/-- The blocks of a graph while it is linked, each with its node, in order. -/
structure Placed (g : Graph) (placed : List (NodeId × EnumBlock)) : Prop extends Linked g where
  elements : ∀ p ∈ placed, g.element? p.1 = some (.block p.2.info)
  listed : ∀ p ∈ placed, ∀ id ∈ g.parents p.1,
    ∃ v ∈ p.2.values, g.lookup (Text.trim v.name) = some id
  blocksOf : ∀ owner, g.blocksOf owner = (placed.filter (g.ownerOf ·.2 = owner)).map (·.1)

namespace Placed

theorem of_named (h : g.Named) : g.Placed [] where
  toLinked := h.linked g.enabled
  elements := by simp
  listed := by simp
  blocksOf owner := by simp [Graph.blocksOf, parentsOfKind, h.edgeless]

theorem hasKind (h : g.Placed placed) {p : NodeId × EnumBlock} (mem : p ∈ placed) :
    g.HasKind p.1 .block :=
  ⟨_, h.elements p mem, rfl⟩

theorem not_hasKind_ownerOf (h : g.Placed placed) (b : EnumBlock) :
    ¬g.HasKind (g.ownerOf b) .block := by
  unfold ownerOf
  cases known : g.lookup b.name with
  | none => exact fun has => by cases has.unique ⟨_, h.constants, rfl⟩
  | some id => exact (h.names b.name id known).2.2.1

theorem ownerOf_lt_size (h : g.Placed placed) (b : EnumBlock) : g.ownerOf b < g.size := by
  unfold ownerOf
  cases known : g.lookup b.name with
  | none => exact h.constants_lt_size
  | some id => exact (h.names b.name id known).1

theorem ownerOf_eq_iff (h : g.Placed placed) {name : String} {id : NodeId}
    (known : g.lookup name = some id) {b : EnumBlock} : g.ownerOf b = id ↔ b.name = name := by
  obtain ⟨-, named, -, notVirtual⟩ := h.names name id known
  constructor
  · unfold ownerOf
    cases block : g.lookup b.name with
    | none =>
      rintro rfl
      exact absurd ⟨_, h.constants, rfl⟩ notVirtual
    | some id' =>
      rintro rfl
      have same := (h.names b.name id' block).2.1
      exact Option.some.inj (same.symm.trans named)
  · rintro rfl
    rw [ownerOf, known, Option.getD_some]

theorem link (h : g.Placed placed) {child : NodeId} {target : String}
    (ofBlock : ∀ p ∈ placed, p.1 = child → ∃ v ∈ p.2.values, v.name = target) :
    (g.link child target).Placed placed where
  toLinked := h.steps (LinkSteps.link g child target)
  elements p mem := by rw [element?_link, h.elements p mem]
  listed p mem id edge := by
    simp only [lookup_link]
    rcases mem_parents_link.1 edge with edge | ⟨same, -, -, -, known⟩
    · exact h.listed p mem id edge
    · obtain ⟨v, listed, rfl⟩ := ofBlock p mem same
      exact ⟨v, listed, known⟩
  blocksOf owner := by
    have grows := (LinkSteps.link g child target).grows
    obtain ⟨new, parents⟩ := grows.parents owner
    -- Only what has a name is a new parent, and no block has one.
    have unnamed : ∀ id ∈ new, ¬g.HasKind id .block := by
      intro id mem has
      have edge : id ∈ (g.link child target).parents owner := by simp [← parents, mem]
      have fresh : id ∉ g.parents owner := by
        have distinct := ((h.steps (LinkSteps.link g child target)).parents owner).1
        rw [← parents] at distinct
        exact fun old => List.disjoint_of_nodup_append distinct old mem
      rcases mem_parents_link.1 edge with old | ⟨-, -, -, -, known⟩
      · exact fresh old
      · exact (h.names _ id known).2.2.1 has
    have none : new.filter (fun id => (g.element? id).any (·.kind = .block)) = [] := by
      refine List.filter_eq_nil_iff.2 fun id mem isBlock => unnamed id mem ?_
      obtain ⟨e, found, kind⟩ := (Option.any_eq_true _ _).1 isBlock
      exact ⟨e, found, by simpa using kind⟩
    have owners := h.blocksOf owner
    unfold Graph.blocksOf parentsOfKind at owners ⊢
    simp only [element?_link, ← parents, List.filter_append, none, List.append_nil, owners]
    unfold ownerOf
    simp only [lookup_link]

theorem linkNamed (h : g.Placed placed) {name : String} {child : NodeId}
    (known : g.lookup name = some child) (target : String) : (g.link child target).Placed placed := by
  refine h.link fun p mem same => ?_
  exact absurd (same ▸ h.hasKind mem) (h.names name child known).2.2.1

theorem namedLinks (h : g.Placed placed) {after : Graph} (links : NamedLinks g after) :
    after.Placed placed := by
  induction links with
  | refl => exact h
  | tail _ step ih =>
    obtain ⟨known, target⟩ := step
    exact ih.linkNamed known target

theorem linkValues (h : g.Placed placed) {block : NodeId} {vs : List EnumValue}
    (ofBlock : ∀ p ∈ placed, p.1 = block → ∀ v ∈ vs, v ∈ p.2.values) :
    (vs.foldl (linkValue block) g).Placed placed := by
  induction vs generalizing g with
  | nil => exact h
  | cons v rest ih =>
    have first : (g.link block v.name).Placed placed :=
      h.link fun p mem same => ⟨v, ofBlock p mem same v List.mem_cons_self, rfl⟩
    have linked : (linkValue block g v).Placed placed := by
      unfold linkValue
      dsimp only
      split
      · next known _ => exact first.linkNamed known _
      · exact first
    rw [List.foldl_cons]
    exact ih linked fun p mem same v' listed => ofBlock p mem same v' (List.mem_cons_of_mem v listed)

theorem attach (h : g.Placed placed) (b : EnumBlock) :
    (g.attach (g.ownerOf b) (.block b.info)).Placed (placed ++ [(g.size, b)]) where
  toLinked := h.step (.block b)
  elements p mem := by
    rw [element?_attach]
    rcases List.mem_append.1 mem with mem | last
    · rw [if_neg (Nat.ne_of_lt (h.hasKind mem).lt_size), h.elements p mem]
    · obtain rfl := List.mem_singleton.1 last
      rw [if_pos rfl]
  listed p mem id edge := by
    rw [h.parents_attach (h.ownerOf_lt_size b)] at edge
    simp only [lookup_attach]
    rcases List.mem_append.1 mem with mem | last
    · have other : p.1 ≠ g.ownerOf b := by
        intro same
        exact h.not_hasKind_ownerOf b (same ▸ h.hasKind mem)
      rw [if_neg other] at edge
      exact h.listed p mem id edge
    · obtain rfl := List.mem_singleton.1 last
      rw [if_neg (Nat.ne_of_gt (h.ownerOf_lt_size b)), parents_eq_nil (Nat.le_refl _)] at edge
      cases edge
  blocksOf owner := by
    have owners := h.blocksOf owner
    unfold Graph.blocksOf at owners ⊢
    rw [h.parentsOfKind_attach (h.ownerOf_lt_size b), owners]
    have same (b' : EnumBlock) :
        (g.attach (g.ownerOf b) (.block b.info)).ownerOf b' = g.ownerOf b' := by
      simp [ownerOf]
    by_cases own : owner = g.ownerOf b
    · simp [same, own, Element.kind]
    · simp [same, own, Ne.symm own]

theorem linkBlock (h : g.Placed placed) (b : EnumBlock) :
    (g.linkBlock b).Placed (placed ++ [(g.size, b)]) := by
  refine (h.attach b).linkValues fun p mem same v listed => ?_
  rcases List.mem_append.1 mem with mem | last
  · exact absurd same (Nat.ne_of_lt (h.hasKind mem).lt_size)
  · obtain rfl := List.mem_singleton.1 last
    exact listed

theorem linkBlocks (h : g.Placed placed) (bs : List EnumBlock) :
    ∃ new, new.map (·.2) = bs ∧ (bs.foldl Graph.linkBlock g).Placed (placed ++ new) := by
  induction bs generalizing g placed with
  | nil => exact ⟨[], rfl, by simpa using h⟩
  | cons b rest ih =>
    obtain ⟨new, blocks, whole⟩ := ih (h.linkBlock b)
    exact ⟨(g.size, b) :: new, by simp [blocks], by simpa using whole⟩

theorem head?_blocksOf (h : g.Placed placed) {name : String} {id : NodeId}
    (known : g.lookup name = some id) :
    (g.blocksOf id).head? = (placed.find? (·.2.name = name)).map (·.1) := by
  rw [h.blocksOf, List.head?_map, List.head?_filter]
  simp only [h.ownerOf_eq_iff known]

end Placed

theorem exists_placed_of_build {enabled : List String}
    (accepted : (build r enabled).run.value = .ok g) :
    ∃ placed, placed.map (·.2) = r.enums ∧ g.Placed placed := by
  obtain ⟨named, isNamed, -, -, rfl⟩ := exists_named_of_build accepted
  obtain ⟨typed, before, after⟩ := exists_linkBlocks named r
  obtain ⟨placed, blocks, whole⟩ := ((Placed.of_named isNamed).namedLinks before).linkBlocks r.enums
  exact ⟨placed, blocks, whole.namedLinks after⟩

end VulkanBindings.Graph
