import Mathlib.Logic.Function.Iterate
import VulkanBindings.Proofs.Graph.Search

/-! How long the search takes, on every graph and from any starts. While the path to an expanded
node waits on the stack, all paths above it go through the node, and among them are those to the
parents that the node waits for. So no node is expanded twice, and the parents of all nodes bound
how many paths are put on the stack. -/

set_option autoImplicit false

namespace VulkanBindings.Graph.Search

variable {g : Graph} {s s' : Search} {id : NodeId}

def after (g : Graph) (starts : List NodeId) (n : Nat) : Search := (step g)^[n] (start g starts)

/-- The step puts the path to a node back on the stack, below paths that extend it. -/
def Expands (g : Graph) (s : Search) (id : NodeId) : Prop :=
  ∃ before rest children, s.stack = (id :: before) :: rest ∧ children ≠ [] ∧
    (s.step g).stack = children.map (· :: id :: before) ++ s.stack

/-- The parents that extend the path to a node: those that the search has left to visit. -/
structure IsExtension (g : Graph) (s : Search) (id : NodeId) (before : Path)
    (children : List NodeId) : Prop where
  fresh : s.isTracked id = false
  nonempty : children ≠ []
  few : children.length ≤ (g.parents id).length
  mem_iff : ∀ parent, parent ∈ children ↔
    parent ∈ g.followed id ∧ s.isTracked parent = false ∧ parent ∉ id :: before

inductive Step (g : Graph) (s : Search) : Search → Prop where
  | drop {path : Path} {rest : List Path} (stack : s.stack = path :: rest)
      (seen : ∀ id ∈ path.head?, s.isTracked id) : Step g s { s with stack := rest }
  | collect {id : NodeId} {before : Path} {rest : List Path}
      (stack : s.stack = (id :: before) :: rest) :
      Step g s ⟨rest, (id :: before) :: s.collected, s.tracked.setIfInBounds id true⟩
  | expand {id : NodeId} {before : Path} {rest : List Path} {children : List NodeId}
      (stack : s.stack = (id :: before) :: rest) (extension : IsExtension g s id before children) :
      Step g s { s with stack := children.map (· :: id :: before) ++ s.stack }

theorem step_step (nonempty : s.stack ≠ []) : Step g s (s.step g) := by
  unfold step
  split
  · next empty => exact absurd empty nonempty
  · next rest stack => exact .drop stack nofun
  · next current before rest stack =>
    split
    · next seen =>
      refine .drop stack ?_
      rintro _ ⟨⟩
      exact seen
    · next fresh =>
      dsimp only
      split
      · exact .collect stack
      · next some =>
        rw [← stack]
        refine .expand stack ⟨Bool.eq_false_iff.2 fresh, ?_, ?_, fun parent => ?_⟩
        · intro none
          rw [← List.length_eq_zero_iff, sort, length_sortBy, List.length_eq_zero_iff] at none
          exact some (List.isEmpty_iff.2 none)
        · rw [sort, length_sortBy]
          refine Nat.le_trans (List.length_filter_le _ _) ?_
          unfold followed
          split <;> simp
        · rw [sort, mem_sortBy, List.mem_filter]
          simp

theorem isTracked_collect (rest collected : List Path) (n : NodeId) :
    isTracked ⟨rest, collected, s.tracked.setIfInBounds id true⟩ n =
      (decide (n = id) || s.isTracked n) := by
  unfold isTracked
  rw [Array.getElem?_setIfInBounds]
  by_cases same : id = n
  · subst same
    by_cases inside : id < s.tracked.size <;> simp [inside]
  · simp [same, Ne.symm same]

theorem Step.isTracked_of_isTracked (step : Step g s s') {n : NodeId} (seen : s.isTracked n) :
    s'.isTracked n := by
  cases step with
  | drop stack _ => exact seen
  | collect stack => rw [isTracked_collect, seen, Bool.or_true]
  | expand stack _ => exact seen

/-- The path to an expanded node waits for the paths above it, which all go through the node. -/
def IsWaiting (g : Graph) (s : Search) (id : NodeId) : Prop :=
  ∃ above before below, s.stack = above ++ (id :: before) :: below ∧
    (∀ path ∈ above, ∃ last rest, path = last :: rest ∧ last ∉ rest ∧ id ∈ rest) ∧
    ∀ parent ∈ g.followed id,
      s.isTracked parent ∨ parent ∈ id :: before ∨ (parent :: id :: before) ∈ above

def IsSpent (g : Graph) (s : Search) (id : NodeId) : Prop := s.isTracked id ∨ IsWaiting g s id

theorem IsSpent.not_isExtension (spent : IsSpent g s id) {before : Path} {rest : List Path}
    {children : List NodeId} (stack : s.stack = (id :: before) :: rest) :
    ¬IsExtension g s id before children := by
  intro extension
  obtain seen | ⟨above, before', below, shape, through, parents⟩ := spent
  · rw [extension.fresh] at seen
    cases seen
  rw [shape] at stack
  cases above with
  | nil =>
    cases stack
    obtain ⟨child, mem⟩ := List.exists_mem_of_ne_nil children extension.nonempty
    obtain ⟨edge, unseen, off⟩ := (extension.mem_iff child).1 mem
    rcases parents child edge with seen | on | lies
    · rw [seen] at unseen
      cases unseen
    · exact off on
    · cases lies
  | cons path above =>
    cases stack
    obtain ⟨last, rest, same, off, mem⟩ := through _ List.mem_cons_self
    cases same
    exact off mem

theorem IsSpent.step (spent : IsSpent g s id) (step : Step g s s') : IsSpent g s' id := by
  obtain seen | ⟨above, before, below, shape, through, parents⟩ := spent
  · exact .inl (step.isTracked_of_isTracked seen)
  -- Once the path on top is gone, its last node is collected.
  have pop {path : Path} {rest : List Path} (stack : s.stack = path :: rest)
      (rests : s'.stack = rest) (seen : ∀ n ∈ path.head?, s'.isTracked n) : IsSpent g s' id := by
    rw [shape] at stack
    cases above with
    | nil =>
      cases stack
      exact .inl (seen id rfl)
    | cons first above =>
      cases stack
      refine .inr ⟨above, before, below, rests, (List.forall_mem_cons.1 through).2,
        fun parent edge => ?_⟩
      rcases parents parent edge with seen' | on | lies
      · exact .inl (step.isTracked_of_isTracked seen')
      · exact .inr (.inl on)
      · rcases List.mem_cons.1 lies with rfl | lies
        · exact .inl (seen parent rfl)
        · exact .inr (.inr lies)
  cases step with
  | drop stack seen => exact pop stack rfl seen
  | collect stack =>
    refine pop stack rfl ?_
    rintro _ ⟨⟩
    rw [isTracked_collect, decide_eq_true rfl, Bool.true_or]
  | @expand current front rest children stack extension =>
    cases above with
    | nil =>
      rw [shape] at stack
      cases stack
      have spent : IsSpent g s id := .inr ⟨[], before, below, shape, through, parents⟩
      exact absurd extension (spent.not_isExtension shape)
    | cons first above =>
      obtain rfl : first = current :: front := by
        rw [shape] at stack
        exact (List.cons.inj stack).1
      obtain ⟨last, rest, same, -, mem⟩ := through _ List.mem_cons_self
      refine .inr ⟨children.map (· :: current :: front) ++ (current :: front) :: above, before,
        below, by simp [shape], fun path lies => ?_, fun parent edge => ?_⟩
      · rcases List.mem_append.1 lies with extended | lies
        · obtain ⟨child, listed, rfl⟩ := List.mem_map.1 extended
          refine ⟨child, _, rfl, ((extension.mem_iff child).1 listed).2.2, ?_⟩
          rw [same]
          exact List.mem_cons_of_mem last mem
        · exact through path lies
      · rcases parents parent edge with seen | on | lies
        · exact .inl seen
        · exact .inr (.inl on)
        · exact .inr (.inr (List.mem_append_right _ lies))

theorem IsExtension.isSpent {before : Path} {rest : List Path} {children : List NodeId}
    (stack : s.stack = (id :: before) :: rest) (extension : IsExtension g s id before children) :
    IsSpent g { s with stack := children.map (· :: id :: before) ++ s.stack } id := by
  refine .inr ⟨children.map (· :: id :: before), before, rest, by rw [stack], fun path lies => ?_,
    fun parent edge => ?_⟩
  · obtain ⟨child, listed, rfl⟩ := List.mem_map.1 lies
    exact ⟨child, _, rfl, ((extension.mem_iff child).1 listed).2.2, List.mem_cons_self⟩
  · by_cases seen : s.isTracked parent
    · exact .inl seen
    by_cases on : parent ∈ id :: before
    · exact .inr (.inl on)
    · have listed := (extension.mem_iff parent).2 ⟨edge, Bool.eq_false_iff.2 seen, on⟩
      exact .inr (.inr (List.mem_map_of_mem listed))

theorem Expands.exists_isExtension (expands : Expands g s id) :
    ∃ before rest children, s.stack = (id :: before) :: rest ∧
      IsExtension g s id before children ∧
      s.step g = { s with stack := children.map (· :: id :: before) ++ s.stack } := by
  obtain ⟨before, rest, children, stack, nonempty, grown⟩ := expands
  have longer : s.stack.length < (s.step g).stack.length := by
    rw [grown, List.length_append, List.length_map]
    exact Nat.lt_add_of_pos_left (List.length_pos_iff.2 nonempty)
  have step : Step g s (s.step g) := step_step (by simp [stack])
  generalize s.step g = next at step longer ⊢
  cases step with
  | drop stack' _ =>
    rw [stack', List.length_cons] at longer
    exact absurd longer (Nat.not_lt.2 (Nat.le_succ _))
  | collect stack' =>
    rw [stack', List.length_cons] at longer
    exact absurd longer (Nat.not_lt.2 (Nat.le_succ _))
  | expand stack' extension =>
    obtain ⟨same, -⟩ := List.cons.inj (stack.symm.trans stack')
    cases same
    exact ⟨_, _, _, stack', extension, rfl⟩

section Run

variable (g) (starts : List NodeId)

theorem after_succ (n : Nat) : after g starts (n + 1) = (after g starts n).step g :=
  Function.iterate_succ_apply' (step g) n _

variable {g starts}

theorem after_succ_of_stack_eq_nil {n : Nat} (empty : (after g starts n).stack = []) :
    after g starts (n + 1) = after g starts n := by
  rw [after_succ, step, empty]

theorem IsSpent.after_le {n m : Nat} (spent : IsSpent g (after g starts n) id) (le : n ≤ m) :
    IsSpent g (after g starts m) id := by
  induction m, le using Nat.le_induction with
  | base => exact spent
  | succ m _ ih =>
    by_cases empty : (after g starts m).stack = []
    · rwa [after_succ_of_stack_eq_nil empty]
    · rw [after_succ]
      exact ih.step (step_step empty)

theorem Expands.not_lt {n m : Nat} (first : Expands g (after g starts n) id)
    (second : Expands g (after g starts m) id) : ¬n < m := by
  intro lt
  obtain ⟨_, _, _, stack, extension, next⟩ := first.exists_isExtension
  have spent : IsSpent g (after g starts (n + 1)) id := by
    rw [after_succ, next]
    exact extension.isSpent stack
  obtain ⟨_, _, _, stack', extension', -⟩ := second.exists_isExtension
  exact (spent.after_le lt).not_isExtension stack' extension'

end Run

/-- How many paths the nodes that are not spent can still put on the stack. -/
def unspent (g : Graph) (spent : Finset NodeId) : Nat :=
  ∑ id ∈ Finset.range g.size \ spent, (1 + (g.parents id).length)

theorem unspent_insert {spent : Finset NodeId} (inside : id < g.size) (new : id ∉ spent) :
    unspent g (insert id spent) + (1 + (g.parents id).length) = unspent g spent := by
  have mem : id ∈ Finset.range g.size \ spent :=
    Finset.mem_sdiff.2 ⟨Finset.mem_range.2 inside, new⟩
  unfold unspent
  rw [Finset.sdiff_insert]
  exact Finset.sum_erase_add _ _ mem

/-- The steps so far, and those that the stack and the nodes that are not spent leave for later,
stay within the bound. -/
structure IsWithin (g : Graph) (bound n : Nat) (s : Search) : Prop where
  size : s.tracked.size = g.size
  steps : ∃ spent : Finset NodeId, (∀ id ∈ spent, IsSpent g s id) ∧
    n + s.stack.length + unspent g spent ≤ bound

theorem IsWithin.step {bound n : Nat} (within : IsWithin g bound n s) (step : Step g s s') :
    IsWithin g bound (n + 1) s' := by
  obtain ⟨size, spent, all, few⟩ := within
  have later := fun id mem => (all id mem).step step
  cases step with
  | drop stack _ =>
    refine ⟨size, spent, later, ?_⟩
    rw [stack, List.length_cons] at few
    dsimp only
    omega
  | collect stack =>
    refine ⟨by rw [Array.size_setIfInBounds, size], spent, later, ?_⟩
    rw [stack, List.length_cons] at few
    dsimp only
    omega
  | @expand id before rest children stack extension =>
    -- A node is expanded once. What its parents cost was counted as unspent before.
    have new : id ∉ spent := fun mem => (all id mem).not_isExtension stack extension
    have inside : id < g.size := by
      have fresh := extension.fresh
      unfold isTracked at fresh
      rw [← size]
      by_contra outside
      simp [outside] at fresh
    refine ⟨size, insert id spent, fun other mem => ?_, ?_⟩
    · rcases Finset.mem_insert.1 mem with rfl | mem
      · exact extension.isSpent stack
      · exact later other mem
    · have paid := unspent_insert inside new
      have children := extension.few
      rw [List.length_append, List.length_map]
      omega

variable (g) in
theorem isWithin_after (starts : List NodeId) {n : Nat}
    (running : ∀ m < n, (after g starts m).stack ≠ []) :
    IsWithin g (starts.length + unspent g ∅) n (after g starts n) := by
  induction n with
  | zero => exact ⟨by simp [after, start], ∅, nofun, by simp [after, start, sort]⟩
  | succ n ih =>
    rw [after_succ]
    exact (ih fun m lt => running m (Nat.lt_succ_of_lt lt)).step
      (step_step (running n (Nat.lt_succ_self n)))

variable (g) in
theorem exists_end (starts : List NodeId) :
    ∃ n ≤ starts.length + unspent g ∅,
      (∀ m < n, (after g starts m).stack ≠ []) ∧ (after g starts n).stack = [] := by
  have ends : ∃ n, (after g starts n).stack = [] := by
    by_contra endless
    obtain ⟨-, spent, -, few⟩ := isWithin_after g starts (n := starts.length + unspent g ∅ + 1)
      fun m _ empty => endless ⟨m, empty⟩
    omega
  have running := fun m lt => Nat.find_min ends (m := m) lt
  obtain ⟨-, spent, -, few⟩ := isWithin_after g starts running
  exact ⟨Nat.find ends, by omega, running, Nat.find_spec ends⟩

theorem run_eq_iterate (n : Nat) (s : Search) : s.run g n = (step g)^[n] s := by
  induction n generalizing s with
  | zero => rfl
  | succ n ih =>
    rw [Function.iterate_succ_apply, ← ih, run]
    split
    · next empty =>
      have empty := List.isEmpty_iff.1 empty
      rw [step, empty]
      exact (run_of_stack_eq_nil empty n).symm
    · rfl

theorem after_eq_of_le {starts : List NodeId} {n m : Nat} (empty : (after g starts n).stack = [])
    (le : n ≤ m) : after g starts m = after g starts n := by
  induction m, le using Nat.le_induction with
  | base => rfl
  | succ m _ ih => rw [after_succ_of_stack_eq_nil (ih ▸ empty), ih]

/-- The search ends, on every graph: no node is expanded twice, and there are no more steps than
there are starts, nodes and parents. -/
theorem depthFirst_ends (g : Graph) (starts : List NodeId) :
    (∀ id n m, Expands g (after g starts n) id → Expands g (after g starts m) id → n = m) ∧
    ∃ n ≤ starts.length + ∑ id ∈ Finset.range g.size, (1 + (g.parents id).length),
      (∀ m < n, (after g starts m).stack ≠ []) ∧ (after g starts n).stack = [] ∧
        g.depthFirst starts = (after g starts n).collected.reverse := by
  refine ⟨fun id n m first second => ?_, ?_⟩
  · exact Nat.le_antisymm (Nat.not_lt.1 (second.not_lt first)) (Nat.not_lt.1 (first.not_lt second))
  · obtain ⟨n, few, running, empty⟩ := exists_end g starts
    have enough : n ≤ g.searchBound starts := by
      rw [searchBound_eq]
      simpa [unspent, pending, isCollected, Nat.add_comm] using few
    refine ⟨n, by simpa [unspent] using few, running, empty, ?_⟩
    unfold depthFirst
    rw [run_eq_iterate]
    exact congrArg (·.collected.reverse) (after_eq_of_le empty enough)

-- Of the two structures the first is expanded, once, and the second is not: it leads back.
theorem mutualStructs_end :
    Expands mutualStructs (after mutualStructs [5] 2) 1 ∧
      (∀ n, Expands mutualStructs (after mutualStructs [5] n) 1 → n = 2) ∧
      (after mutualStructs [5] 6).stack ≠ [] ∧ (after mutualStructs [5] 7).stack = [] := by
  have expands : Expands mutualStructs (after mutualStructs [5] 2) 1 :=
    ⟨[5], [[2, 5], [5]], [2], by decide +kernel, by decide, by decide +kernel⟩
  refine ⟨expands, fun n again => ?_, by decide +kernel, by decide +kernel⟩
  exact (depthFirst_ends mutualStructs [5]).1 1 n 2 again expands

end VulkanBindings.Graph.Search
