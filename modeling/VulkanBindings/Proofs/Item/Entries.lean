import VulkanBindings.Proofs.Graph.Agreement
import VulkanBindings.Proofs.Item.Naming

/-! What items say of the nodes that they are made of: the item of an enum type has an entry for
each value of the type that says what it stands for. -/

set_option autoImplicit false

namespace VulkanBindings

open Glossary Naming

variable {stripped : List String} {defined : String → Prop}

def EnumValue.Stands (stripped : List String) (defined : String → Prop) (v : EnumValue)
    (s : Spelling) : Prop :=
  match v.aliasOf, v.value, v.bitPos with
  | some target, _, _ => s = .literal target ∨ Spells stripped defined target s
  | none, some text, _ => s = .literal text
  | none, none, some position => s = .bit position
  | none, none, none => False

namespace Item

structure IsEntryOf (stripped : List String) (defined : String → Prop) (v : EnumValue)
    (entry : EnumEntry) : Prop where
  name : Spells stripped defined v.name entry.name
  value : v.Stands stripped defined entry.value

/-- The entries are those of the values that are more than a name. -/
structure Lists (stripped : List String) (defined : String → Prop) (values : List EnumValue)
    (entries : List EnumEntry) : Prop where
  complete : ∀ v ∈ values, ¬v.isBare → ∃ entry ∈ entries, IsEntryOf stripped defined v entry
  sound : ∀ entry ∈ entries, ∃ v ∈ values, IsEntryOf stripped defined v entry

section Meets

variable {P : Glossary → Prop} (keeps : Keeps stripped defined P)

include keeps

theorem meets_entryOf (owner : String) (v : EnumValue) :
    Meets P (entryOf owner v) fun made =>
      (¬v.isBare → made.isSome) ∧ ∀ entry ∈ made, IsEntryOf stripped defined v entry := by
  unfold entryOf
  refine .bind .get fun glossary known => ?_
  have entry {s : Spelling} (isAlias : Bool) (stands : v.Stands stripped defined s) :
      Meets P
        (do return some ⟨← spell (Glossary.named v.name), s, isAlias⟩) fun made =>
          (¬v.isBare → made.isSome) ∧ ∀ entry ∈ made, IsEntryOf stripped defined v entry :=
    .bind (keeps.named v.name) fun name spells => .pure
      ⟨fun _ => rfl, fun entry same => by cases same; exact ⟨spells, stands⟩⟩
  -- An alias comes first, then a text, then a bit.
  cases other : v.aliasOf with
  | some target =>
    apply entry true
    simp only [EnumValue.Stands, other]
    cases found : glossary.find? target with
    | none => exact .inl rfl
    | some s => exact .inr ((keeps.faithful glossary known).spells target s found)
  | none =>
    cases text : v.value with
    | some text' => exact entry false (by simp only [EnumValue.Stands, other, text])
    | none =>
      cases bit : v.bitPos with
      | some position => exact entry false (by simp only [EnumValue.Stands, other, text, bit])
      | none =>
        refine .bind (.log _ _) fun _ _ => .pure ⟨fun valued => ?_, by simp⟩
        exact absurd (by simp [EnumValue.isBare, other, text, bit]) valued

theorem meets_constantsOf (g : Graph) :
    Meets P (constantsOf g) fun item => ∃ entries, item = .constants entries := by
  have each (v : EnumValue) : Meets P (constant? v) fun _ => True := by
    unfold constant?
    split
    · exact .bind (keeps.named v.name) fun _ _ => .pure trivial
    · exact .bind (keeps.named v.name) fun _ _ => .bind (keeps.named _) fun _ _ => .pure trivial
    · exact .pure trivial
  exact .bind (.mapM each _) fun entries _ => .pure ⟨_, rfl⟩

theorem meets_ofEnum (g : Graph) (id : NodeId) (t : TypeDecl) :
    Meets P (ofEnum g id t) fun item =>
      Spells stripped defined t.name item.name ∧
        Lists stripped defined (g.enumValues id) item.entries := by
  unfold ofEnum
  refine .bind (.mapM (meets_entryOf keeps t.name) _) fun entries all => ?_
  refine .bind (keeps.named t.name) fun name spells => .pure ⟨spells, ?_⟩
  constructor
  · intro v mem valued
    obtain ⟨made, listed, given, describes⟩ := exists_right all v mem
    obtain ⟨entry, rfl⟩ := Option.isSome_iff_exists.1 (given valued)
    exact ⟨entry, List.mem_filterMap.2 ⟨_, listed, rfl⟩, describes entry rfl⟩
  · intro entry mem
    obtain ⟨made, listed, rfl⟩ := List.mem_filterMap.1 mem
    obtain ⟨v, value, -, describes⟩ := exists_left all _ listed
    exact ⟨v, value, describes entry rfl⟩

end Meets

def HasTextDefaults (item : StructItem) : Prop :=
  ∀ field ∈ item.fields, ∀ value ∈ field.value, ∃ text, value = .literal text

/-- What the item of a node says of the node: an enum type has one with the values of the type. -/
structure IsItemOf (stripped : List String) (defined : String → Prop) (g : Graph) (id : NodeId)
    (item? : Option Item) : Prop where
  enum : ∀ t, g.element? id = some (.type t) → t.category = .enum → t.aliasOf = none →
    ∃ item, item? = some (.enum item) ∧ Spells stripped defined t.name item.name ∧
      Lists stripped defined (g.enumValues id) item.entries
  defaults : ∀ item, item? = some (.struct item) → HasTextDefaults item

structure IsStructOf (stripped : List String) (defined : String → Prop) (P : Glossary → Prop)
    (t : TypeDecl) (item : StructItem) : Prop where
  name : Spells stripped defined t.name item.name
  fields : ∃ glossary, P glossary ∧ item.fields = t.members.map (fieldOf glossary t.members)

structure IsCommandOf (stripped : List String) (defined : String → Prop) (P : Glossary → Prop)
    (command : Command) (item : CommandItem) : Prop where
  name : Spells stripped defined command.name item.name
  types : ∃ glossary, P glossary ∧ item.result = resultOf glossary command.proto ∧
    item.params = command.params.map (parameterOf glossary)

/-- What the item of a node is made of. Commands have one unless they are other names. -/
structure IsMadeOf (stripped : List String) (defined : String → Prop) (P : Glossary → Prop)
    (g : Graph) (id : NodeId) (item? : Option Item) : Prop
    extends IsItemOf stripped defined g id item? where
  enumerated : ∀ item, item? = some (.enum item) →
    ∃ t, g.element? id = some (.type t) ∧ t.category = .enum ∧ t.aliasOf = none
  struct : ∀ item, item? = some (.struct item) →
    ∃ t, g.element? id = some (.type t) ∧ t.category = .struct ∧
      IsStructOf stripped defined P t item
  command : ∀ item, item? = some (.command item) →
    ∃ command, g.element? id = some (.command command) ∧ command.aliasOf = none ∧
      IsCommandOf stripped defined P command item
  declared : ∀ command, g.element? id = some (.command command) → command.aliasOf = none →
    ∃ item, item? = some (.command item)

def IsOther (item? : Option Item) : Prop :=
  (∀ item, item? ≠ some (.enum item)) ∧ (∀ item, item? ≠ some (.struct item)) ∧
    ∀ item, item? ≠ some (.command item)

theorem isOther_none : IsOther none := ⟨nofun, nofun, nofun⟩

theorem IsOther.isMadeOf {P : Glossary → Prop} {g : Graph} {id : NodeId} {item? : Option Item}
    (other : IsOther item?)
    (renamed : ∀ t, g.element? id = some (.type t) → t.category = .enum → t.aliasOf ≠ none)
    (aliased : ∀ command, g.element? id = some (.command command) → command.aliasOf ≠ none) :
    IsMadeOf stripped defined P g id item? where
  enum t found isEnum original := absurd original (renamed t found isEnum)
  enumerated item same := absurd same (other.1 item)
  defaults item same := absurd same (other.2.1 item)
  struct item same := absurd same (other.2.1 item)
  command item same := absurd same (other.2.2 item)
  declared command found original := absurd original (aliased command found)

theorem IsStructOf.hasTextDefaults {P : Glossary → Prop} {t : TypeDecl} {item : StructItem}
    (isStruct : IsStructOf stripped defined P t item) : HasTextDefaults item := by
  obtain ⟨glossary, -, fields⟩ := isStruct.fields
  intro field mem value only
  rw [fields] at mem
  obtain ⟨m, -, rfl⟩ := List.mem_map.1 mem
  change onlyValue? m = some value at only
  unfold onlyValue? at only
  split at only
  · split at only
    · exact ⟨_, (Option.some.inj only).symm⟩
    · cases only
  · cases only

section Meets

variable {P : Glossary → Prop} (keeps : Keeps stripped defined P)

include keeps

theorem meets_ofStruct (t : TypeDecl) :
    Meets P (ofStruct t) (IsStructOf stripped defined P t) := by
  unfold ofStruct
  refine .bind .get fun glossary known => .bind (keeps.struct t.name) fun name spells => .pure ?_
  exact ⟨spells, glossary, known, rfl⟩

theorem meets_ofAlias (t : TypeDecl) (target : String) : Meets P (ofAlias t target) IsOther := by
  unfold ofAlias
  refine .bind .get fun glossary _ => ?_
  split
  · refine .bind (Q := Spells stripped defined t.name) ?_ fun name _ => .pure ⟨nofun, nofun, nofun⟩
    split
    · exact keeps.struct t.name
    · exact keeps.named t.name
  · exact .bind (.log _ _) fun _ _ => .pure isOther_none

theorem meets_ofBasetype (t : TypeDecl) : Meets P (ofBasetype t) IsOther := by
  unfold ofBasetype
  split
  · exact .bind (.log _ _) fun _ _ => .pure isOther_none
  · dsimp only
    split
    · exact .bind (keeps.named t.name) fun name _ => .pure ⟨nofun, nofun, nofun⟩
    · exact .bind (.log _ _) fun _ _ => .pure isOther_none

theorem meets_ofCommand (command : Command) :
    Meets P (ofCommand command) fun item? =>
      if command.aliasOf.isSome then item? = none
      else ∃ item, item? = some (.command item) ∧ IsCommandOf stripped defined P command item := by
  unfold ofCommand
  split
  · exact .bind (.log _ _) fun _ _ => .pure rfl
  · exact .bind .get fun glossary known => .bind (keeps.named command.name) fun name spells =>
      .pure ⟨_, rfl, spells, glossary, known, rfl, rfl⟩

section Versions

variable (version : defined "VK_API_VERSION") (header : defined "VK_HEADER_VERSION")

include version header

theorem meets_versionOf (config : Config) (value : String) :
    Meets P (versionOf config value) fun _ => True :=
  .bind (keeps.define version) fun _ _ => .bind (keeps.define header) fun _ _ => .pure trivial

theorem meets_ofDefine (config : Config) (t : TypeDecl) : Meets P (ofDefine config t) IsOther := by
  unfold ofDefine
  split
  · exact .bind (.log _ _) fun _ _ => .pure isOther_none
  · dsimp only
    split
    · split
      · exact .bind (meets_versionOf keeps version header config _) fun v _ =>
          .pure ⟨nofun, nofun, nofun⟩
      · exact .bind (.log _ _) fun _ _ => .pure isOther_none
    · split
      · split
        · exact .bind (meets_versionOf keeps version header config _) fun v _ =>
            .pure ⟨nofun, nofun, nofun⟩
        · exact .bind (.log _ _) fun _ _ => .pure isOther_none
      · exact .bind (.log _ _) fun _ _ => .pure isOther_none

theorem meets_ofType (config : Config) {g : Graph} {id : NodeId} {t : TypeDecl}
    (found : g.element? id = some (.type t)) :
    Meets P (ofType config g id t) (IsMadeOf stripped defined P g id) := by
  have notCommand (command : Command) (found' : g.element? id = some (.command command)) :
      command.aliasOf ≠ none := by cases found.symm.trans found'
  -- What is said of enum types holds of other nodes for want of one.
  have ofOther {item? : Option Item} (other : IsOther item?)
      (notEnum : t.category = .enum → t.aliasOf ≠ none) :
      IsMadeOf stripped defined P g id item? := by
    refine other.isMadeOf (fun t' found' isEnum => ?_) notCommand
    cases found.symm.trans found'
    exact notEnum isEnum
  unfold ofType
  cases renamed : t.aliasOf with
  | some target =>
    exact (meets_ofAlias keeps t target).mono fun _ other => ofOther other (by simp [renamed])
  | none =>
    cases category : t.category with
    | enum =>
      refine .bind (meets_ofEnum keeps g id t) fun item holds => .pure ⟨⟨fun t' found' _ _ => ?_,
        nofun⟩, fun _ _ => ⟨t, found, category, renamed⟩, nofun, nofun,
        fun command found' original => absurd original (notCommand command found')⟩
      cases found.symm.trans found'
      exact ⟨item, rfl, holds⟩
    | struct =>
      refine .bind (meets_ofStruct keeps t) fun item holds => .pure ⟨⟨fun t' found' isEnum _ => ?_,
        ?_⟩, nofun, ?_, nofun,
        fun command found' original => absurd original (notCommand command found')⟩
      · cases found.symm.trans found'
        rw [category] at isEnum
        cases isEnum
      · rintro _ ⟨⟩
        exact holds.hasTextDefaults
      · rintro _ ⟨⟩
        exact ⟨t, found, category, holds⟩
    | define =>
      exact (meets_ofDefine keeps version header config t).mono fun _ other =>
        ofOther other (by simp [category])
    | basetype =>
      exact (meets_ofBasetype keeps t).mono fun _ other => ofOther other (by simp [category])
    | handle =>
      refine .bind (keeps.named t.name) fun name _ => ?_
      split
      · exact .bind (keeps.named _) fun parent _ =>
          .pure (ofOther ⟨nofun, nofun, nofun⟩ (by simp [category]))
      · exact .pure (ofOther ⟨nofun, nofun, nofun⟩ (by simp [category]))
    | bitmask =>
      exact .bind (keeps.named t.name) fun name _ => .bind .get fun glossary _ =>
        .pure (ofOther ⟨nofun, nofun, nofun⟩ (by simp [category]))
    | funcpointer =>
      exact .bind (keeps.named t.name) fun name _ =>
        .pure (ofOther ⟨nofun, nofun, nofun⟩ (by simp [category]))
    | union =>
      exact .bind (keeps.named t.name) fun name _ =>
        .pure (ofOther ⟨nofun, nofun, nofun⟩ (by simp [category]))
    | _ => exact .pure (ofOther isOther_none (by simp [category]))

theorem meets_ofNode (config : Config) (g : Graph) (id : NodeId) :
    Meets P (ofNode config g id) (IsMadeOf stripped defined P g id) := by
  have notEnum {e : Element} (found : g.element? id = some e) (notType : e.type? = none)
      {R : TypeDecl → Prop} (t : TypeDecl) (found' : g.element? id = some (.type t)) : R t := by
    cases found.symm.trans found'
    cases notType
  unfold ofNode
  split
  · next t found => exact meets_ofType keeps version header config found
  · next command found =>
    refine (meets_ofCommand keeps command).mono fun item? made => ?_
    split at made
    · next isAlias =>
      subst made
      refine isOther_none.isMadeOf (notEnum found rfl) fun command' found' => ?_
      cases found.symm.trans found'
      exact Option.isSome_iff_ne_none.1 isAlias
    · next original =>
      obtain ⟨item, rfl, isCommand⟩ := made
      refine ⟨⟨notEnum found rfl, nofun⟩, nofun, nofun, ?_, fun _ _ _ => ⟨item, rfl⟩⟩
      rintro _ ⟨⟩
      exact ⟨command, found, by simpa using original, isCommand⟩
  · next notType notCommand =>
    exact .pure (isOther_none.isMadeOf (fun t found => absurd found (notType t))
      fun command found => absurd found (notCommand command))

end Versions

theorem meets_ofOrder {Q : NodeId → Option Item → Prop} (config : Config) (g : Graph)
    (each : ∀ id, Meets P (ofNode config g id) (Q id)) (order : List NodeId) :
    Meets P (ofOrder config g order) fun items =>
      ∃ constants items?, items = .constants constants :: items?.filterMap (fun item => item) ∧
        List.Forall₂ Q order items? := by
  refine .bind (meets_constantsOf keeps g) ?_
  rintro _ ⟨constants, rfl⟩
  refine .bind (.mapM each order) fun items? all => ?_
  exact .pure ⟨constants, items?, rfl, all⟩

end Meets

/-- The names that are spelled in camel case: those of emitted defines and of the versions. -/
def IsDefine (g : Graph) (order : List NodeId) (name : String) : Prop :=
  name = "VK_API_VERSION" ∨ name = "VK_HEADER_VERSION" ∨
    ∃ id ∈ order, ∃ t, g.element? id = some (.type t) ∧ t.category = .define ∧ t.name = name

theorem faithful_declare {g : Graph} {order : List NodeId} {e : Element}
    (emitted : ∃ id ∈ order, g.element? id = some e) {glossary : Glossary}
    (h : glossary.Faithful stripped (IsDefine g order)) :
    ((declare e).run glossary).2.Faithful stripped (IsDefine g order) := by
  cases e with
  | type t =>
    change ((typeDecl t).run glossary).2.Faithful stripped _
    unfold typeDecl
    cases category : t.category with
    | define =>
      obtain ⟨id, listed, found⟩ := emitted
      exact (h.enter (.camel (.inr (.inr ⟨id, listed, t, found, category, rfl⟩)))).2
    | struct => exact (h.enter .struct).2
    | header => exact h
    | group => exact h
    | other => exact h
    | _ => exact (h.enter .typedef).2
  | command c => exact (h.enter .typedef).2
  | _ => exact h

theorem faithful_ofOrder (stripped : List String) (g : Graph) (order : List NodeId) :
    (Glossary.ofOrder stripped g order).Faithful stripped (IsDefine g order) := by
  -- The elements that are left are emitted too, and find a glossary that is faithful so far.
  have each (elements : List Element) (emitted : ∀ e ∈ elements, ∃ id ∈ order, g.element? id = some e)
      {glossary : Glossary} (h : glossary.Faithful stripped (IsDefine g order)) :
      ((elements.forM declare).run glossary).2.Faithful stripped (IsDefine g order) := by
    induction elements generalizing glossary with
    | nil => exact h
    | cons e rest ih =>
      have first := faithful_declare (emitted e List.mem_cons_self) h
      exact ih (fun e' mem => emitted e' (List.mem_cons_of_mem e mem)) first
  refine each _ (fun e mem => ?_) faithful_ofScalars
  obtain ⟨id, listed, found⟩ := List.mem_filterMap.1 mem
  exact ⟨id, listed, found⟩

/-- While items are made, names that are spelled for the order keep their spelling. -/
def IsKnown (config : Config) (g : Graph) (order : List NodeId) : Glossary → Prop :=
  Continues config.exportPrefixes (IsDefine g order) (.ofOrder config.exportPrefixes g order)

theorem isKnown_ofOrder (config : Config) (g : Graph) (order : List NodeId) :
    IsKnown config g order (.ofOrder config.exportPrefixes g order) :=
  (faithful_ofOrder config.exportPrefixes g order).continues

section Build

variable (config : Config) {g : Graph} {order : List NodeId}

/-- What is true of the item of each node, whatever was spelled before, is true of the items. -/
theorem value_build_of {Q : NodeId → Option Item → Prop}
    (each : ∀ id, Meets (IsKnown config g order) (ofNode config g id) (Q id)) :
    ∃ constants items?,
      (build config g order).value = .constants constants :: items?.filterMap (fun item => item) ∧
        List.Forall₂ Q order items? := by
  exact (meets_ofOrder (keeps_continues _) config g each order _ (isKnown_ofOrder config g order)).1

theorem meets_node (id : NodeId) :
    Meets (IsKnown config g order) (ofNode config g id)
      (IsMadeOf config.exportPrefixes (IsDefine g order) (IsKnown config g order) g id) :=
  meets_ofNode (keeps_continues _) (.inl rfl) (.inr (.inl rfl)) config g id

structure IsSpellingOf (config : Config) (g : Graph) (order : List NodeId) (name : String)
    (s : Spelling) : Prop where
  named : s.c = name
  known : ∀ known, (Glossary.ofOrder config.exportPrefixes g order).find? name = some known →
    s = known

theorem meets_spelled {name : String} {s : Spelling}
    (spells : Spells config.exportPrefixes (IsDefine g order) name
      (.exported s config.exportPrefixes)) :
    Meets (IsKnown config g order) (spell (Glossary.enter name s))
      (IsSpellingOf config g order name) := by
  cases before : (Glossary.ofOrder config.exportPrefixes g order).find? name with
  | some known =>
    have faithful := faithful_ofOrder config.exportPrefixes g order
    refine (Meets.enter_known before).mono ?_
    rintro _ rfl
    exact ⟨(faithful.spells _ _ before).c_eq, fun _ same => Option.some.inj (before.symm.trans same)⟩
  | none =>
    refine ((keeps_continues _).spells spells).mono fun _ spelled => ⟨spelled.c_eq, ?_⟩
    rw [before]
    exact nofun

theorem meets_named (name : String) :
    Meets (IsKnown config g order) (spell (Glossary.named name))
      (IsSpellingOf config g order name) :=
  meets_spelled config .typedef

theorem meets_struct (name : String) :
    Meets (IsKnown config g order) (spell (Glossary.struct name))
      (IsSpellingOf config g order name) :=
  meets_spelled config .struct

variable (g order) in
theorem value_build :
    ∃ constants items?,
      (build config g order).value = .constants constants :: items?.filterMap (fun item => item) ∧
        List.Forall₂ (IsMadeOf config.exportPrefixes (IsDefine g order) (IsKnown config g order) g)
          order items? :=
  value_build_of config (meets_node config)

theorem exists_item_of_node {id : NodeId} {Q : Option Item → Prop} (emitted : id ∈ order)
    (meets : Meets (IsKnown config g order) (ofNode config g id) Q) :
    ∃ item?, Q item? ∧ ∀ item, item? = some item → item ∈ (build config g order).value := by
  have each (other : NodeId) :
      Meets (IsKnown config g order) (ofNode config g other) fun item? => other = id → Q item? := by
    by_cases same : other = id
    · exact same ▸ meets.mono fun _ holds _ => holds
    · exact (meets_node config other).mono fun _ _ same' => absurd same' same
  obtain ⟨constants, items?, items, all⟩ := value_build_of config each
  obtain ⟨item?, listed, holds⟩ := exists_right all id emitted
  refine ⟨item?, holds rfl, ?_⟩
  rintro item rfl
  rw [items]
  exact List.mem_cons_of_mem _ (List.mem_filterMap.2 ⟨_, listed, rfl⟩)

/-- The items after the constants are each made of an emitted node. -/
theorem exists_node_of_item {item : Item} (mem : item ∈ (build config g order).value)
    (other : ∀ entries, item ≠ .constants entries) :
    ∃ id ∈ order, IsMadeOf config.exportPrefixes (IsDefine g order) (IsKnown config g order) g id
      (some item) := by
  obtain ⟨constants, items?, items, all⟩ := value_build config g order
  rw [items] at mem
  rcases List.mem_cons.1 mem with same | mem
  · exact absurd same (other constants)
  · obtain ⟨item?, listed, rfl⟩ := List.mem_filterMap.1 mem
    exact exists_left all _ listed

end Build

theorem exists_enum (config : Config) {g : Graph} {order : List NodeId} {id : NodeId} {t : TypeDecl}
    (emitted : id ∈ order) (found : g.element? id = some (.type t)) (isEnum : t.category = .enum)
    (original : t.aliasOf = none) :
    ∃ item, .enum item ∈ (build config g order).value ∧
      Spells config.exportPrefixes (IsDefine g order) t.name item.name ∧
      Lists config.exportPrefixes (IsDefine g order) (g.enumValues id) item.entries := by
  obtain ⟨item?, made, listed⟩ := exists_item_of_node config emitted (meets_node config id)
  obtain ⟨item, rfl, spells, lists⟩ := made.enum t found isEnum original
  exact ⟨item, listed _ rfl, spells, lists⟩

theorem hasTextDefaults (config : Config) {g : Graph} {order : List NodeId} {item : StructItem}
    (mem : .struct item ∈ (build config g order).value) : HasTextDefaults item := by
  obtain ⟨id, -, made⟩ := exists_node_of_item config mem (by simp)
  exact made.defaults item rfl

end Item

end VulkanBindings
