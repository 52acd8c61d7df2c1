import Mathlib.Data.List.Nodup
import Mathlib.Logic.Relation
import VulkanBindings.Proofs.Graph.PostOrder

/-! The visits that a post-order consists of, as a derivation. What holds of the collected paths
is proved by induction on it: they are simple paths from the starts, each node has one, and a
path comes after those of all nodes that its last node depends on, but for the nodes on it. -/

set_option autoImplicit false

namespace VulkanBindings.Graph

variable {g : Graph}

/-- `Visits g collected paths after`: visiting the paths in order leads from one list of
collected paths to the other. -/
inductive Visits (g : Graph) : List Path → List Path → List Path → Prop where
  | done {collected : List Path} : Visits g collected [] collected
  | skip {collected rest after : List Path} {current : NodeId} {before : Path}
      (seen : isCollected collected current) (later : Visits g collected rest after) :
      Visits g collected ((current :: before) :: rest) after
  | collect {collected between rest after : List Path} {current : NodeId} {before : Path}
      (fresh : isCollected collected current = false)
      (parents : Visits g collected
        ((g.unvisited collected (current :: before)).map (· :: current :: before)) between)
      (later : Visits g (between ++ [current :: before]) rest after) :
      Visits g collected ((current :: before) :: rest) after

namespace Visits

theorem of_foldl {path : Path} (ids : List NodeId)
    (each : ∀ id ∈ ids, ∀ collected rest after, Visits g (g.visit collected (id :: path)) rest after →
      Visits g collected ((id :: path) :: rest) after) (collected : List Path) :
    Visits g collected (ids.map (· :: path))
      (ids.foldl (fun collected id => g.visit collected (id :: path)) collected) := by
  induction ids generalizing collected with
  | nil => exact .done
  | cons id ids ih =>
    refine each id List.mem_cons_self _ _ _ ?_
    exact ih (fun other mem => each other (List.mem_cons_of_mem id mem)) _

theorem of_visit {collected rest after : List Path} (current : NodeId) (before : Path)
    (later : Visits g (g.visit collected (current :: before)) rest after) :
    Visits g collected ((current :: before) :: rest) after := by
  -- The path grows by a node that edges lead to, of which there are finitely many.
  induction size : (g.offPath (current :: before)).card using Nat.strong_induction_on
    generalizing collected rest after current before with
  | _ n ih =>
    cases seen : isCollected collected current with
    | true =>
      rw [visit_of_collected seen] at later
      exact .skip seen later
    | false =>
      rw [visit_of_not_collected seen] at later
      refine .collect seen (of_foldl _ (fun id mem _ _ _ visited => ?_) collected) later
      obtain ⟨edge, -, off⟩ := mem_unvisited.1 mem
      exact ih _ (size ▸ card_offPath_lt edge off) id (current :: before) visited rfl

theorem postOrder (g : Graph) (starts : List NodeId) :
    Visits g [] ((g.inSiblingOrder starts).map ([·])) (g.postOrder starts) :=
  of_foldl _ (fun start _ _ _ _ => of_visit start []) []

variable {collected paths after : List Path}

/-- What holds of the visited paths and stays when a path is extended holds of all paths that
are collected. -/
theorem forall_new {P : Path → Prop}
    (extend : ∀ current before, P (current :: before) → ∀ id, g.DependsOn current id →
      id ∉ current :: before → P (id :: current :: before))
    (visits : Visits g collected paths after) (all : ∀ path ∈ paths, P path) :
    ∃ new, after = collected ++ new ∧ ∀ path ∈ new, P path := by
  induction visits with
  | done => exact ⟨[], by simp⟩
  | skip seen later ih => exact ih fun path mem => all path (List.mem_cons_of_mem _ mem)
  | @collect collected between rest after current before fresh parents later ihParents ihLater =>
    have here : P (current :: before) := all _ List.mem_cons_self
    have grown : ∀ path ∈ (g.unvisited collected (current :: before)).map (· :: current :: before),
        P path := by
      intro path mem
      obtain ⟨id, unseen, rfl⟩ := List.mem_map.1 mem
      obtain ⟨edge, -, off⟩ := mem_unvisited.1 unseen
      exact extend current before here id edge off
    obtain ⟨first, rfl, firstP⟩ := ihParents grown
    obtain ⟨second, rfl, secondP⟩ := ihLater fun path mem => all path (List.mem_cons_of_mem _ mem)
    refine ⟨first ++ (current :: before) :: second, by simp, fun path mem => ?_⟩
    rcases List.mem_append.1 mem with mem | mem
    · exact firstP path mem
    · rcases List.mem_cons.1 mem with rfl | mem
      · exact here
      · exact secondP path mem

theorem isPrefix (visits : Visits g collected paths after) : collected <+: after := by
  obtain ⟨new, rfl, -⟩ := visits.forall_new (P := fun _ => True) (by simp) (by simp)
  exact List.prefix_append collected new

theorem isCollected_of_isCollected {id : NodeId} (visits : Visits g collected paths after)
    (seen : isCollected collected id) : isCollected after id := by
  obtain ⟨new, rfl⟩ := visits.isPrefix
  simp [seen]

theorem isCollected_of_mem {current : NodeId} {before : Path}
    (visits : Visits g collected paths after) (mem : (current :: before) ∈ paths) :
    isCollected after current := by
  induction visits with
  | done => simp at mem
  | skip seen later ih =>
    rcases List.mem_cons.1 mem with same | mem
    · cases same
      exact later.isCollected_of_isCollected seen
    · exact ih mem
  | collect fresh parents later ihParents ihLater =>
    rcases List.mem_cons.1 mem with same | mem
    · cases same
      exact later.isCollected_of_isCollected (by simp)
    · exact ihLater mem

-- Visiting what extends a path collects none of the nodes on it. This is why a path can be
-- collected when it is on top again: its last node is not collected meanwhile.
theorem isCollected_eq_false {current id : NodeId} {before : Path} {collected between : List Path}
    (parents : Visits g collected
      ((g.unvisited collected (current :: before)).map (· :: current :: before)) between)
    (mem : id ∈ current :: before)
    (fresh : isCollected collected id = false) : isCollected between id = false := by
  obtain ⟨new, rfl, extended⟩ := parents.forall_new
    (P := fun path => ∃ head rest, path = head :: rest ∧ head ∉ rest ∧ current :: before ⊆ rest)
    (by
      rintro head rest ⟨_, _, same, -, within⟩ id - off
      cases same
      exact ⟨id, head :: rest, rfl, off, fun _ mem => List.mem_cons_of_mem _ (within mem)⟩)
    (by
      intro path mem
      obtain ⟨id, unseen, rfl⟩ := List.mem_map.1 mem
      exact ⟨id, _, rfl, (mem_unvisited.1 unseen).2.2, List.Subset.refl _⟩)
  rw [isCollected_append, fresh, Bool.false_or, Bool.eq_false_iff]
  intro seen
  obtain ⟨path, memNew, last⟩ := isCollected_iff.1 seen
  obtain ⟨head, rest, rfl, off, within⟩ := extended path memNew
  cases last
  exact off (within mem)

end Visits

end VulkanBindings.Graph
