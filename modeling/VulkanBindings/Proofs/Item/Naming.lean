import Mathlib.Data.List.Forall2
import Std.Data.TreeMap.Lemmas
import VulkanBindings.Item.Build

/-! Names in the items. Whatever is spelled while items are made, a name is spelled as a scalar or
as the public form of itself, and only the names of defines in camel case. -/

set_option autoImplicit false

namespace VulkanBindings

namespace Glossary

variable {stripped : List String} {defined : String → Prop} {name : String}

/-- The spellings that a name may have. -/
inductive Spells (stripped : List String) (defined : String → Prop) (name : String) :
    Spelling → Prop where
  | scalar {s : Scalar} (listed : s ∈ Scalar.all) (same : s.c = name) :
      Spells stripped defined name (.scalar s)
  | typedef : Spells stripped defined name (.exported (.typedef name) stripped)
  | struct : Spells stripped defined name (.exported (.struct name) stripped)
  | camel (defines : defined name) : Spells stripped defined name (.exported (.camel name) stripped)

theorem Spells.c_eq {s : Spelling} (spells : Spells stripped defined name s) : s.c = name := by
  cases spells with
  | scalar listed same => exact same
  | typedef => rfl
  | struct => rfl
  | camel defines => rfl

/-- A glossary that spells each name as that name. -/
structure Faithful (stripped : List String) (defined : String → Prop) (g : Glossary) : Prop where
  strips : g.stripped = stripped
  spells : ∀ name s, g.find? name = some s → Spells stripped defined name s

theorem Faithful.insert {entries : Std.TreeMap String Spelling} {s : Spelling}
    (h : Faithful stripped defined ⟨entries, stripped⟩) (spells : Spells stripped defined name s) :
    Faithful stripped defined ⟨entries.insert name s, stripped⟩ where
  strips := rfl
  spells other t found := by
    unfold find? at found
    rw [Std.TreeMap.getElem?_insert] at found
    split at found
    · next same =>
      cases found
      obtain rfl : name = other := by simpa using same
      exact spells
    · exact h.spells other t found

theorem faithful_ofScalars : (ofScalars stripped).Faithful stripped defined := by
  have each (scalars : List Scalar) (listed : scalars ⊆ Scalar.all)
      {entries : Std.TreeMap String Spelling} (h : Faithful stripped defined ⟨entries, stripped⟩) :
      Faithful stripped defined
        ⟨scalars.foldl (fun entries s => entries.insert s.c (.scalar s)) entries, stripped⟩ := by
    induction scalars generalizing entries with
    | nil => exact h
    | cons first rest ih =>
      apply ih fun _ mem => listed (List.mem_cons_of_mem first mem)
      exact h.insert (.scalar (listed List.mem_cons_self) rfl)
  apply each Scalar.all (List.Subset.refl _)
  refine ⟨rfl, fun name s found => ?_⟩
  simp [find?] at found

theorem Faithful.enter {g : Glossary} {s : Spelling} (h : g.Faithful stripped defined)
    (spells : Spells stripped defined name (.exported s stripped)) :
    Spells stripped defined name ((enter name s).run g).1 ∧
      ((enter name s).run g).2.Faithful stripped defined := by
  obtain ⟨entries, stripped'⟩ := g
  obtain rfl : stripped' = stripped := h.strips
  unfold Glossary.enter
  simp only [StateT.run]
  -- A name that is there keeps its spelling, whatever it is asked for as.
  cases known : find? ⟨entries, stripped'⟩ name with
  | some t => exact ⟨h.spells name t known, h⟩
  | none => exact ⟨spells, h.insert spells⟩

theorem find?_enter (g : Glossary) (name other : String) (s : Spelling) :
    ((Glossary.enter name s).run g).2.find? other =
      if other = name then some ((g.find? name).getD (g.exported s)) else g.find? other := by
  unfold Glossary.enter
  simp only [StateT.run]
  by_cases same : other = name
  · rw [if_pos same, same]
    cases known : g.find? name with
    | some t => exact known
    | none => simp [find?]
  · rw [if_neg same]
    cases known : g.find? name with
    | some t => rfl
    | none => simp [find?, Std.TreeMap.getElem?_insert, Ne.symm same]

theorem find?_enter_of_known {g : Glossary} {other : String} {known : Spelling}
    (spelled : g.find? other = some known) (s : Spelling) :
    ((Glossary.enter name s).run g).2.find? other = some known := by
  rw [find?_enter]
  split
  · next same => rw [← same, spelled, Option.getD_some]
  · exact spelled

structure Continues (stripped : List String) (defined : String → Prop) (before after : Glossary) :
    Prop where
  faithful : after.Faithful stripped defined
  keeps : ∀ name s, before.find? name = some s → after.find? name = some s

theorem Faithful.continues {g : Glossary} (faithful : g.Faithful stripped defined) :
    Continues stripped defined g g :=
  ⟨faithful, fun _ _ known => known⟩

theorem Continues.enter {before g : Glossary} {s : Spelling}
    (continues : Continues stripped defined before g)
    (spells : Spells stripped defined name (.exported s stripped)) :
    Continues stripped defined before ((Glossary.enter name s).run g).2 where
  faithful := (continues.faithful.enter spells).2
  keeps other t known := find?_enter_of_known (continues.keeps other t known) s

end Glossary

namespace Naming

section Pairs

variable {α β : Type} {Q : α → β → Prop} {as : List α} {bs : List β}

theorem exists_right (pairs : List.Forall₂ Q as bs) : ∀ a ∈ as, ∃ b ∈ bs, Q a b := by
  induction pairs with
  | nil => simp
  | cons holds _ ih => simp_all

theorem exists_left (pairs : List.Forall₂ Q as bs) : ∀ b ∈ bs, ∃ a ∈ as, Q a b := by
  induction pairs with
  | nil => simp
  | cons holds _ ih => simp_all

theorem filterMap_eq {γ : Type} {f : α → Option γ} {g : β → Option γ}
    (pairs : List.Forall₂ (fun a b => f a = g b) as bs) : as.filterMap f = bs.filterMap g := by
  induction pairs with
  | nil => rfl
  | cons same _ ih => simp only [List.filterMap_cons, same, ih]

theorem map_eq_map {γ : Type} {f : α → γ} {h : β → γ}
    (pairs : List.Forall₂ (fun a b => f a = h b) as bs) : as.map f = bs.map h := by
  induction pairs with
  | nil => rfl
  | cons same _ ih => rw [List.map_cons, List.map_cons, same, ih]

theorem exists_middle {γ : Type} {R : α → γ → Prop} {S : β → γ → Prop}
    (pairs : List.Forall₂ (fun a b => ∃ c, R a c ∧ S b c) as bs) :
    ∃ cs, List.Forall₂ R as cs ∧ List.Forall₂ S bs cs := by
  induction pairs with
  | nil => exact ⟨[], .nil, .nil⟩
  | cons between _ ih =>
    obtain ⟨c, left, right⟩ := between
    obtain ⟨cs, lefts, rights⟩ := ih
    exact ⟨c :: cs, .cons left lefts, .cons right rights⟩

end Pairs

variable {α β : Type} {P : Glossary → Prop}

/-- From a glossary of which `P` holds, a computation gives a result of which `Q` holds, and `P`
still holds afterwards. -/
def Meets (P : Glossary → Prop) (f : Naming α) (Q : α → Prop) : Prop :=
  ∀ g, P g → Q (f.run g).value.1 ∧ P (f.run g).value.2

namespace Meets

variable {Q : α → Prop} {R : β → Prop}

theorem pure {a : α} (holds : Q a) : Meets P (pure a) Q := fun _ h => ⟨holds, h⟩

theorem bind {f : Naming α} {k : α → Naming β} (first : Meets P f Q)
    (rest : ∀ a, Q a → Meets P (k a) R) : Meets P (f >>= k) R := by
  intro g h
  rw [StateT.run_bind, Logged.value_bind]
  obtain ⟨holds, kept⟩ := first g h
  exact rest _ holds _ kept

theorem mono {f : Naming α} {Q' : α → Prop} (meets : Meets P f Q) (weaker : ∀ a, Q a → Q' a) :
    Meets P f Q' := by
  intro g h
  obtain ⟨holds, kept⟩ := meets g h
  exact ⟨weaker _ holds, kept⟩

theorem log (level : Level) (text : String) :
    Meets P (liftM (VulkanBindings.log level text)) fun _ => True := fun _ h => ⟨trivial, h⟩

theorem get : Meets P MonadState.get P := fun _ h => ⟨h, h⟩

theorem mapM {f : α → Naming β} {Q : α → β → Prop} (each : ∀ a, Meets P (f a) (Q a))
    (as : List α) : Meets P (as.mapM f) fun bs => List.Forall₂ Q as bs := by
  induction as with
  | nil => exact pure .nil
  | cons a as ih =>
    rw [List.mapM_cons]
    exact bind (each a) fun b holds => bind ih fun bs all => pure (.cons holds all)

end Meets

section Spell

open Glossary

variable {stripped : List String} {defined : String → Prop}

/-- What is kept while names are spelled, and says that each is spelled as that name. -/
structure Keeps (stripped : List String) (defined : String → Prop) (P : Glossary → Prop) : Prop where
  faithful : ∀ g, P g → g.Faithful stripped defined
  enter : ∀ g name s, P g → Spells stripped defined name (.exported s stripped) →
    P ((Glossary.enter name s).run g).2

theorem keeps_continues (before : Glossary) :
    Keeps stripped defined (Continues stripped defined before) where
  faithful _ continues := continues.faithful
  enter _ _ _ continues spells := continues.enter spells

theorem Meets.enter_known {before : Glossary} {name : String} {known s : Spelling}
    (spelled : before.find? name = some known) :
    Meets (Continues stripped defined before) (spell (Glossary.enter name s)) (· = known) := by
  intro g continues
  have kept := continues.keeps name known spelled
  unfold spell Glossary.enter
  simp only [StateT.run, kept]
  exact ⟨rfl, continues⟩

namespace Keeps

variable (keeps : Keeps stripped defined P)

include keeps

theorem spells {name : String} {s : Spelling}
    (declares : Spells stripped defined name (.exported s stripped)) :
    Meets P (spell (Glossary.enter name s)) (Spells stripped defined name) :=
  fun g h => ⟨((keeps.faithful g h).enter declares).1, keeps.enter g name s h declares⟩

theorem named (name : String) :
    Meets P (spell (Glossary.named name)) (Spells stripped defined name) :=
  keeps.spells .typedef

theorem struct (name : String) :
    Meets P (spell (Glossary.struct name)) (Spells stripped defined name) :=
  keeps.spells .struct

theorem define {name : String} (defines : defined name) :
    Meets P (spell (Glossary.define name)) (Spells stripped defined name) :=
  keeps.spells (.camel defines)

end Keeps

end Spell

end Naming

end VulkanBindings
