import VulkanBindings.Proofs.Graph.Changes
import VulkanBindings.Proofs.Graph.Definitions

/-! Which registries have a dictionary. Each definition is compared only with the first one of its
name; since having the same definition is an equivalence, that is enough to see whether any two
definitions of a name disagree. -/

set_option autoImplicit false

namespace VulkanBindings

namespace Element

/-- An element with nothing but what defines it. Commands, features and extensions are defined
once, so there is nothing that a second definition could agree with. -/
def defining? : Element → Option Element
  | .platform p => some (.platform p)
  | .type t => some (.type { t with members := [], comment := none })
  | .value v => some (.value { v with comment := none })
  | _ => none

theorem sameDefinition_iff {a b : Element} :
    a.sameDefinition b ↔ ∃ e, a.defining? = some e ∧ b.defining? = some e := by
  cases a <;> cases b <;>
    simp [sameDefinition, defining?, TypeDecl.sameDefinition, EnumValue.sameDefinition, and_assoc]
  all_goals grind

/-- Two definitions may stand in one registry. -/
def Agree (a b : Element) : Prop :=
  a.name = b.name → ∃ e, a.defining? = some e ∧ b.defining? = some e

def firsts : List Element → List Element
  | [] => []
  | d :: ds => d :: (firsts ds).filter (·.name ≠ d.name)

theorem firsts_sublist (ds : List Element) : (firsts ds).Sublist ds := by
  induction ds with
  | nil => exact .slnil
  | cons d ds ih => exact (List.filter_sublist.trans ih).cons_cons d

theorem find?_firsts (name : String) (ds : List Element) :
    (firsts ds).find? (·.name = name) = ds.find? (·.name = name) := by
  induction ds with
  | nil => rfl
  | cons d ds ih =>
    by_cases same : d.name = name
    · simp [firsts, same]
    · rw [firsts, List.find?_cons_of_neg (by simpa using same),
        List.find?_cons_of_neg (by simpa using same), ← ih, List.find?_filter]
      congr 1
      funext e
      grind

theorem firsts_concat (ds : List Element) (d : Element) :
    firsts (ds ++ [d]) = if d.name ∈ ds.map name then firsts ds else firsts ds ++ [d] := by
  induction ds with
  | nil => simp [firsts]
  | cons first ds ih =>
    rw [List.cons_append, firsts, ih, firsts]
    by_cases known : d.name ∈ ds.map name
    · rw [if_pos known, if_pos (by simp_all)]
    · rw [if_neg known, List.filter_append]
      by_cases same : d.name = first.name
      · rw [if_pos (by simp [same])]
        simp [same]
      · rw [if_neg (by simp_all)]
        simp [same]

end Element

open Element (Agree firsts)

/-- Any two definitions of one name are the same. -/
def Consistent (ds : List Element) : Prop := ds.Pairwise Agree

-- The first definition of a name stands for all of them.
theorem Consistent.concat_iff {ds : List Element} (h : Consistent ds) (d : Element) :
    Consistent (ds ++ [d]) ↔ ∀ first, ds.find? (·.name = d.name) = some first → Agree first d := by
  unfold Consistent
  rw [List.pairwise_append]
  constructor
  · rintro ⟨-, -, agree⟩ first found
    exact agree first (List.mem_of_find?_eq_some found) d List.mem_cons_self
  · intro agree
    refine ⟨h, List.pairwise_singleton _ _, fun a mem d' mem' same => ?_⟩
    obtain rfl := List.mem_singleton.1 mem'
    cases found : ds.find? (·.name = d'.name) with
    | none => exact absurd same (by simpa using List.find?_eq_none.1 found a mem)
    | some first =>
      have agreeing := agree first found
      obtain ⟨named, before, after, rfl, others⟩ := List.find?_eq_some_iff_append.1 found
      obtain ⟨e, ofFirst, ofLast⟩ := agreeing (by simpa using named)
      rcases List.mem_append.1 mem with mem | mem
      · exact absurd same (by simpa using others a mem)
      · rcases List.mem_cons.1 mem with rfl | mem
        · exact ⟨e, ofFirst, ofLast⟩
        · have later := (List.pairwise_cons.1 (List.pairwise_append.1 h).2.1).1 a mem
          obtain ⟨e', ofFirst', ofLater⟩ := later (by simpa [same] using named)
          cases ofFirst.symm.trans ofFirst'
          exact ⟨e, ofLater, ofLast⟩

/-- The first definition that disagrees with one before it. -/
def FirstConflict (ds : List Element) (d : Element) : Prop :=
  ∃ earlier later, ds = earlier ++ d :: later ∧ Consistent earlier ∧
    ∃ a ∈ earlier, ¬Agree a d

theorem FirstConflict.not_consistent {ds : List Element} {d : Element} (h : FirstConflict ds d) :
    ¬Consistent ds := by
  obtain ⟨earlier, later, rfl, -, a, mem, conflict⟩ := h
  exact fun consistent =>
    conflict ((List.pairwise_append.1 consistent).2.2 a mem d List.mem_cons_self)

namespace Graph

variable {g : Graph}

/-- The graph of the first definition of each name, in order, after the node of the constants. -/
structure Indexes (g : Graph) (ds : List Element) : Prop where
  nodes : g.nodes.toList =
    ⟨.virtual "API Constants", [], []⟩ :: (firsts ds).map fun e => ⟨e, [], []⟩
  lookup : ∀ name id, g.lookup name = some id ↔
    ∃ i e, (firsts ds)[i]? = some e ∧ e.name = name ∧ id = i + 1

theorem indexes_empty : empty.Indexes [] where
  nodes := rfl
  lookup name id := by
    have unknown : empty.lookup name = none := Std.TreeMap.getElem?_emptyc
    simp [unknown, firsts]

theorem value_define (g : Graph) (d : Element) :
    (g.define d).run.value =
      match g.lookup d.name with
      | none => .ok (g.enter d)
      | some id => if (g.element? id).any (·.sameDefinition d) then .ok g else .error ⟨d.name⟩ := by
  unfold define
  cases g.lookup d.name with
  | none => rfl
  | some id => dsimp only; split <;> rfl

namespace Indexes

variable {ds : List Element}

theorem size_eq (h : g.Indexes ds) : g.size = (firsts ds).length + 1 := by
  simpa [size] using congrArg List.length h.nodes

theorem element?_succ (h : g.Indexes ds) (i : Nat) : g.element? (i + 1) = (firsts ds)[i]? := by
  rw [element?, node?, ← Array.getElem?_toList, h.nodes, List.getElem?_cons_succ, List.getElem?_map,
    Option.map_map]
  exact Option.map_id'

theorem lookup_eq_none (h : g.Indexes ds) {name : String}
    (absent : ds.find? (·.name = name) = none) : g.lookup name = none := by
  rw [Option.eq_none_iff_forall_ne_some]
  intro id known
  obtain ⟨i, e, found, named, -⟩ := (h.lookup name id).1 known
  rw [← Element.find?_firsts, List.find?_eq_none] at absent
  exact absent e (List.mem_of_getElem? found) (by simpa using named)

theorem exists_lookup (h : g.Indexes ds) {name : String} {first : Element}
    (found : ds.find? (·.name = name) = some first) :
    ∃ id, g.lookup name = some id ∧ g.element? id = some first := by
  rw [← Element.find?_firsts] at found
  obtain ⟨i, here⟩ := List.mem_iff_getElem?.1 (List.mem_of_find?_eq_some found)
  have named : first.name = name := by simpa using List.find?_some found
  exact ⟨i + 1, (h.lookup name _).2 ⟨i, first, here, named, rfl⟩, by rw [h.element?_succ, here]⟩

theorem enter (h : g.Indexes ds) {d : Element} (fresh : d.name ∉ ds.map Element.name) :
    (g.enter d).Indexes (ds ++ [d]) where
  nodes := by
    rw [Element.firsts_concat, if_neg fresh, List.map_append, ← List.cons_append, ← h.nodes]
    simp [Graph.enter, push]
  lookup name id := by
    rw [Element.firsts_concat, if_neg fresh, lookup_enter, h.size_eq]
    constructor
    · intro known
      split at known
      · next named =>
        cases known
        exact ⟨_, d, List.getElem?_concat_length, named, rfl⟩
      · obtain ⟨i, e, found, named, rfl⟩ := (h.lookup name id).1 known
        exact ⟨i, e, by rwa [List.getElem?_append_left (List.getElem?_eq_some_iff.1 found).1], named,
          rfl⟩
    · rintro ⟨i, e, found, rfl, rfl⟩
      rcases Nat.lt_or_ge i (firsts ds).length with old | new
      · rw [List.getElem?_append_left old] at found
        have mem := (Element.firsts_sublist ds).subset (List.mem_of_getElem? found)
        have other : d.name ≠ e.name := fun same => fresh (same ▸ List.mem_map_of_mem mem)
        rw [if_neg other]
        exact (h.lookup e.name _).2 ⟨i, e, found, rfl, rfl⟩
      · rw [List.getElem?_append_right new, List.getElem?_singleton] at found
        split at found
        · cases found
          rw [if_pos rfl]
          congr 2
          omega
        · cases found

theorem enter_again (h : g.Indexes ds) {d : Element} (known : d.name ∈ ds.map Element.name) :
    g.Indexes (ds ++ [d]) := by
  have same : firsts (ds ++ [d]) = firsts ds := by rw [Element.firsts_concat, if_pos known]
  exact ⟨same ▸ h.nodes, same ▸ h.lookup⟩

/-- A definition is entered if it agrees with all before it, and is refused otherwise. -/
theorem define (h : g.Indexes ds) (consistent : Consistent ds) (d : Element) :
    (Consistent (ds ++ [d]) ∧ ∃ after, (g.define d).run.value = .ok after ∧
      after.Indexes (ds ++ [d])) ∨
    ((∃ a ∈ ds, ¬Agree a d) ∧ (g.define d).run.value = .error ⟨d.name⟩) := by
  rw [consistent.concat_iff, value_define]
  cases found : ds.find? (·.name = d.name) with
  | none =>
    have fresh : d.name ∉ ds.map Element.name := by simpa using found
    rw [h.lookup_eq_none found]
    exact .inl ⟨by simp, g.enter d, rfl, h.enter fresh⟩
  | some first =>
    obtain ⟨id, known, here⟩ := h.exists_lookup found
    have mem := List.mem_of_find?_eq_some found
    have named : first.name = d.name := by simpa using List.find?_some found
    have agree : (g.element? id).any (·.sameDefinition d) ↔ Agree first d := by
      rw [here, Option.any_some, Element.sameDefinition_iff]
      exact ⟨fun same _ => same, fun agree => agree named⟩
    simp only [known]
    by_cases same : (g.element? id).any (·.sameDefinition d)
    · refine .inl ⟨?_, g, if_pos same, h.enter_again (named ▸ List.mem_map_of_mem mem)⟩
      rintro _ ⟨⟩
      exact agree.1 same
    · exact .inr ⟨⟨first, mem, fun agrees => same (agree.2 agrees)⟩, if_neg same⟩

theorem foldlM_define (h : g.Indexes ds) (consistent : Consistent ds) (more : List Element) :
    (Consistent (ds ++ more) ∧ ∃ after, (more.foldlM Graph.define g).run.value = .ok after ∧
      after.Indexes (ds ++ more)) ∨
    ∃ d, FirstConflict (ds ++ more) d ∧
      (more.foldlM Graph.define g).run.value = .error ⟨d.name⟩ := by
  induction more generalizing g ds with
  | nil =>
    rw [List.append_nil]
    exact .inl ⟨consistent, g, rfl, h⟩
  | cons d more ih =>
    rw [List.foldlM_cons, Logged.value_run_bind, List.append_cons]
    rcases h.define consistent d with ⟨consistent', after, ok, h'⟩ | ⟨conflict, refused⟩
    · rw [ok]
      exact ih h' consistent'
    · rw [refused, ← List.append_cons]
      exact .inr ⟨d, ⟨ds, more, rfl, consistent, conflict⟩, rfl⟩

end Indexes

/-- A registry has a dictionary if and only if no two of its definitions of one name disagree. The
dictionary then leads from each name to its first definition; otherwise the first definition that
disagrees with one before it is reported. -/
theorem ofDefinitions_outcome (r : Registry) :
    ((∃ g, (ofDefinitions r).run.value = .ok g) ↔ Consistent r.definitions) ∧
      (∀ g, (ofDefinitions r).run.value = .ok g → g.Indexes r.definitions) ∧
      ∀ e, (ofDefinitions r).run.value = .error e →
        ∃ d, FirstConflict r.definitions d ∧ e = ⟨d.name⟩ := by
  have outcome := indexes_empty.foldlM_define List.Pairwise.nil r.definitions
  rw [List.nil_append, ← value_ofDefinitions] at outcome
  rcases outcome with ⟨consistent, g, ok, indexes⟩ | ⟨d, conflict, refused⟩
  · rw [ok]
    exact ⟨⟨fun _ => consistent, fun _ => ⟨g, rfl⟩⟩, fun _ same => by cases same; exact indexes, nofun⟩
  · rw [refused]
    exact ⟨⟨nofun, fun consistent => absurd consistent conflict.not_consistent⟩, nofun,
      fun _ same => by cases same; exact ⟨d, conflict, rfl⟩⟩

end Graph

end VulkanBindings
