import Mathlib.Data.List.Basic
import VulkanBindings.Graph.Build

/-! The rules by which the elements of a registry refer to names, with a case for each rule. What is
linked for an element is what the rules give. -/

set_option autoImplicit false

namespace VulkanBindings

inductive TypeDecl.Refers (t : TypeDecl) : String → Prop where
  | required {name : String} (given : t.requires = some name) : t.Refers name
  | aliased {name : String} (given : t.aliasOf = some name) : t.Refers name
  | parent {list part : String} (given : t.parent = some list) (listed : part ∈ Text.split ',' list)
      (nonempty : Text.trim part ≠ "") : t.Refers (Text.trim part)
  | member {m : Member} (listed : m ∈ t.members) : t.Refers m.typeName
  | memberEnum {m : Member} {name : String} (listed : m ∈ t.members) (given : m.enumRef = some name) :
      t.Refers name
  | objectType {name : String} (given : t.objTypeEnum = some name) : t.Refers name
  | tag {name : String} (listed : name ∈ t.typeTags) : t.Refers name

inductive Command.Refers (c : Command) : String → Prop where
  | aliased {name : String} (given : c.aliasOf = some name) : c.Refers name
  | result : c.Refers c.proto.typeName
  | parameter {p : Parameter} (listed : p ∈ c.params) : c.Refers p.typeName

inductive RequireBlock.Refers (b : RequireBlock) : String → Prop where
  | command {name : String} (listed : name ∈ b.commands) : b.Refers name
  | type {name : String} (listed : name ∈ b.types) : b.Refers name
  | extended {e : RequiredEnum} {name : String} (listed : e ∈ b.enums) (given : e.extends? = some name) :
      b.Refers name
  | value {e : RequiredEnum} (listed : e ∈ b.enums) : b.Refers e.element.name

/-- Whether the condition of a block holds. -/
def RequireBlock.Applies (b : RequireBlock) (enabled : List String) : Prop :=
  ∀ text, b.depends = some text → Depends.satisfied text enabled = true

/-- An extension depends on all names of a conjunction, and on the last of several alternatives that is
enabled. Dependencies of both kinds and grouped ones are not followed. -/
inductive Extension.DependsOn (e : Extension) (enabled : List String) : String → Prop where
  | all {text part : String} (given : e.depends = some text)
      (plain : ∀ c ∈ [',', '(', ')'], c ∉ text.toList) (listed : part ∈ Text.split '+' text) :
      e.DependsOn enabled part
  | any {text part : String} {front back : List String} (given : e.depends = some text)
      (several : ',' ∈ text.toList) (plain : ∀ c ∈ ['+', '(', ')'], c ∉ text.toList)
      (listed : Text.split ',' text = front ++ part :: back) (isEnabled : Text.trim part ∈ enabled)
      (isLast : ∀ other ∈ back, Text.trim other ∉ enabled) : e.DependsOn enabled (Text.trim part)

theorem Text.mem_commaList {list name : String} :
    name ∈ commaList list ↔ ∃ part ∈ split ',' list, trim part ≠ "" ∧ trim part = name := by
  simp only [commaList, List.mem_filter, List.mem_map, Bool.not_eq_true', String.isEmpty_eq_false_iff]
  constructor
  · rintro ⟨⟨part, listed, rfl⟩, nonempty⟩
    exact ⟨part, listed, nonempty, rfl⟩
  · rintro ⟨part, listed, nonempty, rfl⟩
    exact ⟨⟨part, listed, rfl⟩, nonempty⟩

theorem TypeDecl.mem_parents {t : TypeDecl} {name : String} :
    name ∈ t.parents ↔ ∃ list, t.parent = some list ∧
      ∃ part ∈ Text.split ',' list, Text.trim part ≠ "" ∧ Text.trim part = name := by
  unfold parents
  cases t.parent with
  | none => simp
  | some list => simp [Text.mem_commaList]

theorem TypeDecl.mem_references {t : TypeDecl} {name : String} : name ∈ t.references ↔ t.Refers name := by
  simp only [references, List.mem_append, List.mem_flatMap, List.mem_cons, Option.mem_toList, mem_parents]
  constructor
  · rintro (((((given | given) | ⟨list, given, part, listed, nonempty, rfl⟩) |
      ⟨m, listed, rfl | given⟩) | given) | listed)
    · exact .required given
    · exact .aliased given
    · exact .parent given listed nonempty
    · exact .member listed
    · exact .memberEnum listed given
    · exact .objectType given
    · exact .tag listed
  · intro refers
    cases refers with
    | required given => exact .inl (.inl (.inl (.inl (.inl given))))
    | aliased given => exact .inl (.inl (.inl (.inl (.inr given))))
    | parent given listed nonempty => exact .inl (.inl (.inl (.inr ⟨_, given, _, listed, nonempty, rfl⟩)))
    | member listed => exact .inl (.inl (.inr ⟨_, listed, .inl rfl⟩))
    | memberEnum listed given => exact .inl (.inl (.inr ⟨_, listed, .inr given⟩))
    | objectType given => exact .inl (.inr given)
    | tag listed => exact .inr listed

theorem Command.mem_references {c : Command} {name : String} : name ∈ c.references ↔ c.Refers name := by
  simp only [references, List.mem_append, List.mem_cons, List.mem_map, Option.mem_toList]
  constructor
  · rintro (given | rfl | ⟨p, listed, rfl⟩)
    · exact .aliased given
    · exact .result
    · exact .parameter listed
  · intro refers
    cases refers with
    | aliased given => exact .inl given
    | result => exact .inr (.inl rfl)
    | parameter listed => exact .inr (.inr ⟨_, listed, rfl⟩)

theorem RequireBlock.mem_references {b : RequireBlock} {name : String} :
    name ∈ b.references ↔ b.Refers name := by
  simp only [references, List.mem_append, List.mem_flatMap, List.mem_singleton, Option.mem_toList]
  constructor
  · rintro ((listed | listed) | ⟨e, listed, given | rfl⟩)
    · exact .command listed
    · exact .type listed
    · exact .extended listed given
    · exact .value listed
  · intro refers
    cases refers with
    | command listed => exact .inl (.inl listed)
    | type listed => exact .inl (.inr listed)
    | extended listed given => exact .inr ⟨_, listed, .inl given⟩
    | value listed => exact .inr ⟨_, listed, .inr rfl⟩

namespace Graph

variable {g : Graph}

theorem isSatisfied_iff_applies {b : RequireBlock} : g.isSatisfied b.depends ↔ b.Applies g.enabled := by
  unfold isSatisfied RequireBlock.Applies
  cases b.depends <;> simp

def requiredNames (g : Graph) (blocks : List RequireBlock) : List String :=
  (blocks.filter fun b => g.isSatisfied b.depends).flatMap (·.references)

/-- The names that an extension depends on, if they can be told. -/
def dependencies (g : Graph) (e : Extension) : List String :=
  (e.depends.bind g.dependencyNames?).getD []

theorem mem_requiredNames {blocks : List RequireBlock} {name : String} :
    name ∈ g.requiredNames blocks ↔ ∃ b ∈ blocks, b.Applies g.enabled ∧ b.Refers name := by
  simp only [requiredNames, List.mem_flatMap, List.mem_filter, isSatisfied_iff_applies,
    RequireBlock.mem_references, and_assoc]

theorem getLast?_enabled {parts : List String} {name : String} :
    ((parts.map Text.trim).filter g.isEnabled).getLast? = some name ↔
      ∃ front part back, parts = front ++ part :: back ∧ Text.trim part = name ∧
        Text.trim part ∈ g.enabled ∧ ∀ other ∈ back, Text.trim other ∉ g.enabled := by
  -- It is the first one from the end.
  rw [List.getLast?_eq_head?_reverse, ← List.filter_reverse, List.head?_filter, ← List.map_reverse,
    List.find?_map, Option.map_eq_some_iff]
  simp only [List.find?_eq_some_iff_append, Function.comp_apply, isEnabled, Bool.not_eq_true',
    List.contains_eq_mem, decide_eq_false_iff_not, decide_eq_true_iff]
  constructor
  · rintro ⟨part, ⟨isEnabled, back, front, same, isLast⟩, rfl⟩
    refine ⟨front.reverse, part, back.reverse, ?_, rfl, isEnabled, ?_⟩
    · rw [List.reverse_eq_iff.1 same]
      simp
    · exact fun other mem => isLast other (List.mem_reverse.1 mem)
  · rintro ⟨front, part, back, rfl, rfl, isEnabled, isLast⟩
    refine ⟨part, ⟨isEnabled, back.reverse, front.reverse, by simp, ?_⟩, rfl⟩
    exact fun other mem => isLast other (List.mem_reverse.1 mem)

section Dependency

variable {text : String}

theorem dependencyNames?_of_all (plain : ∀ c ∈ [',', '(', ')'], c ∉ text.toList) :
    g.dependencyNames? text = some (Text.split '+' text) := by
  simp_all [dependencyNames?]

theorem dependencyNames?_of_any (several : ',' ∈ text.toList)
    (plain : ∀ c ∈ ['+', '(', ')'], c ∉ text.toList) :
    g.dependencyNames? text =
      some (((Text.split ',' text).map Text.trim).filter g.isEnabled).getLast?.toList := by
  simp_all [dependencyNames?]

theorem plain_of_dependencyNames? {names : List String} (told : g.dependencyNames? text = some names) :
    (∀ c ∈ [',', '(', ')'], c ∉ text.toList) ∨
      ',' ∈ text.toList ∧ ∀ c ∈ ['+', '(', ')'], c ∉ text.toList := by
  simp only [dependencyNames?] at told
  split at told
  · cases told
  · next simple =>
    simp only [Bool.or_eq_true, Bool.and_eq_true, List.contains_iff_mem, not_or, not_and] at simple
    by_cases several : ',' ∈ text.toList <;> simp_all

end Dependency

theorem mem_dependencies {e : Extension} {name : String} :
    name ∈ g.dependencies e ↔ e.DependsOn g.enabled name := by
  unfold dependencies
  constructor
  · intro mem
    cases given : e.depends with
    | none => simp [given] at mem
    | some text =>
      rw [given, Option.bind_some] at mem
      cases told : g.dependencyNames? text with
      | none => simp [told] at mem
      | some names =>
        obtain plain | ⟨several, plain⟩ := plain_of_dependencyNames? told
        · rw [dependencyNames?_of_all plain] at mem
          exact .all given plain mem
        · rw [dependencyNames?_of_any several plain, Option.getD_some, Option.mem_toList,
            getLast?_enabled] at mem
          obtain ⟨front, part, back, listed, rfl, isEnabled, isLast⟩ := mem
          exact .any given several plain listed isEnabled isLast
  · intro depends
    cases depends with
    | all given plain listed =>
      rw [given, Option.bind_some, dependencyNames?_of_all plain]
      exact listed
    | any given several plain listed isEnabled isLast =>
      rw [given, Option.bind_some, dependencyNames?_of_any several plain, Option.getD_some,
        Option.mem_toList, getLast?_enabled]
      exact ⟨_, _, _, listed, rfl, isEnabled, isLast⟩

end Graph

end VulkanBindings
