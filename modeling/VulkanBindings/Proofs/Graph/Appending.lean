import VulkanBindings.Proofs.Graph.Restriction

/-! Starts that are put behind others. A search takes the paths on its stack from the top, so the
paths at the bottom change nothing of what is collected before they are reached: with more starts
that come last it goes on where it would have ended. -/

set_option autoImplicit false

namespace VulkanBindings

section Sorting

variable {α : Type} {key : α → Nat} {a : α} {xs ys : List α}

theorem insertBy_append_of_le (above : ∀ b ∈ ys, key a ≤ key b) :
    insertBy key a (xs ++ ys) = insertBy key a xs ++ ys := by
  induction xs with
  | nil => exact insertBy_of_le above
  | cons b rest ih =>
    rw [List.cons_append, insertBy, insertBy, ih]
    split <;> rfl

theorem sortBy_append (later : ∀ a ∈ xs, ∀ b ∈ ys, key a ≤ key b) :
    sortBy key (xs ++ ys) = sortBy key xs ++ sortBy key ys := by
  induction xs with
  | nil => rfl
  | cons a rest ih =>
    obtain ⟨first, others⟩ := List.forall_mem_cons.1 later
    change insertBy key a (sortBy key (rest ++ ys)) = insertBy key a (sortBy key rest) ++ sortBy key ys
    rw [ih others, insertBy_append_of_le fun b mem => first b (mem_sortBy.1 mem)]

end Sorting

namespace Graph

variable {g : Graph}

namespace Search

def above (s : Search) (rest : List Path) : Search := { s with stack := s.stack ++ rest }

variable {s : Search} {path : Path} {stack : List Path}

theorem step_above (filled : s.stack = path :: stack) (rest : List Path) :
    (s.above rest).step g = (s.step g).above rest := by
  have more : (s.above rest).stack = path :: (stack ++ rest) := by
    rw [above, filled, List.cons_append]
  have same : (s.above rest).isTracked = s.isTracked := rfl
  unfold step
  rw [filled, more]
  cases path with
  | nil => rfl
  | cons current before =>
    dsimp only
    rw [same]
    split
    · rfl
    · split
      · rfl
      · simp [above]

theorem collected_step (g : Graph) (s : Search) : s.collected <:+ (s.step g).collected := by
  unfold step
  split
  · exact List.suffix_rfl
  · exact List.suffix_rfl
  · split
    · exact List.suffix_rfl
    · dsimp only
      split
      · exact List.suffix_cons ..
      · exact List.suffix_rfl

theorem collected_run (g : Graph) (n : Nat) (s : Search) : s.collected <:+ (s.run g n).collected := by
  induction n generalizing s with
  | zero => exact List.suffix_rfl
  | succ n ih =>
    rw [run]
    split
    · exact List.suffix_rfl
    · exact (collected_step g s).trans (ih _)

/-- What is collected stays collected when there is more on the stack and more steps are taken. -/
theorem collected_run_above {n m : Nat} (fewer : n ≤ m) (s : Search) (rest : List Path) :
    (s.run g n).collected <:+ ((s.above rest).run g m).collected := by
  induction n generalizing s m with
  | zero => exact collected_run g m (s.above rest)
  | succ n ih =>
    cases filled : s.stack with
    | nil =>
      rw [run_of_stack_eq_nil filled]
      exact collected_run g m (s.above rest)
    | cons path stack =>
      obtain ⟨m, rfl⟩ := Nat.exists_eq_add_of_le' (Nat.le_trans (Nat.succ_pos n) fewer)
      have more : (s.above rest).stack = path :: (stack ++ rest) := by
        rw [above, filled, List.cons_append]
      rw [run_succ filled, run_succ more, step_above filled]
      exact ih (Nat.le_of_succ_le_succ fewer) _

end Search

theorem depthFirst_append {starts more : List NodeId}
    (later : ∀ a ∈ starts, ∀ b ∈ more, g.siblingKey a ≤ g.siblingKey b) :
    g.depthFirst starts <+: g.depthFirst (starts ++ more) := by
  have sorted : g.sort (starts ++ more) = g.sort starts ++ g.sort more :=
    sortBy_append fun a mem b mem' => orderOf_le_orderOf.2 (later a mem b mem')
  have start : Search.start g (starts ++ more) =
      (Search.start g starts).above ((g.sort more).map ([·])) := by
    simp [Search.start, Search.above, sorted]
  have fewer : g.searchBound starts ≤ g.searchBound (starts ++ more) := by
    rw [searchBound_eq, searchBound_eq, List.length_append]
    omega
  unfold depthFirst
  rw [List.reverse_prefix, start]
  exact Search.collected_run_above fewer _ _

/-- With names that come no earlier among siblings put behind others, what is emitted for the
others comes first, as it is without them. -/
theorem emissionOrder_append (g : Graph) (names more : List String)
    (later : ∀ a ∈ names, ∀ b ∈ more, ∀ id ∈ g.lookup a, ∀ id' ∈ g.lookup b,
      g.siblingKey id ≤ g.siblingKey id') :
    (g.emissionOrder names).value <+: (g.emissionOrder (names ++ more)).value := by
  rw [value_emissionOrder, value_emissionOrder, List.filterMap_append]
  refine (depthFirst_append fun id mem id' mem' => ?_).filterMap _
  obtain ⟨a, known, found⟩ := List.mem_filterMap.1 mem
  obtain ⟨b, known', found'⟩ := List.mem_filterMap.1 mem'
  exact later a known b known' id found id' found'

/-- Of the added names one is not defined, one is a start already, one is reached from it, and the
extension comes last. -/
theorem oarGraph_appends :
    (∀ a ∈ ["VkOar"], ∀ b ∈ ["VK_KHR_oar", "VkRudder", "VkOar", "VK_MOVE_AHEAD_BIT"],
      ∀ id ∈ oarGraph.lookup a, ∀ id' ∈ oarGraph.lookup b,
        oarGraph.siblingKey id ≤ oarGraph.siblingKey id') ∧
    (oarGraph.emissionOrder ["VkOar"]).value = [3, 6, 1, 2] ∧
    (oarGraph.emissionOrder
      (["VkOar"] ++ ["VK_KHR_oar", "VkRudder", "VkOar", "VK_MOVE_AHEAD_BIT"])).value =
        [3, 6, 1, 2, 5, 4] ∧
    (oarGraph.emissionOrder ["VkOar"]).value <+:
      (oarGraph.emissionOrder
        (["VkOar"] ++ ["VK_KHR_oar", "VkRudder", "VkOar", "VK_MOVE_AHEAD_BIT"])).value := by
  have later : ∀ a ∈ ["VkOar"], ∀ b ∈ ["VK_KHR_oar", "VkRudder", "VkOar", "VK_MOVE_AHEAD_BIT"],
      ∀ id ∈ oarGraph.lookup a, ∀ id' ∈ oarGraph.lookup b,
        oarGraph.siblingKey id ≤ oarGraph.siblingKey id' := by decide +kernel
  exact ⟨later, by decide +kernel, by decide +kernel, emissionOrder_append oarGraph _ _ later⟩

end Graph

end VulkanBindings
