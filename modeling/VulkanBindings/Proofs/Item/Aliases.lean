import VulkanBindings.Proofs.Item.Results

/-! Enum values that are other names for one another. The entries of an enum are spelled in their
order, and one that is another name takes the spelling that the other value has by then. Without a
spelling it takes the name as it is in the registry, which need not be the one that is declared. -/

set_option autoImplicit false

namespace VulkanBindings

open Naming

namespace Glossary

variable {stripped : List String} {defined : String → Prop} {g : Glossary}

theorem run_named (name : String) : ((Glossary.named name).run g).1 =
    (g.find? name).getD (g.exported (.typedef name)) := by
  unfold named enter
  simp only [StateT.run]
  cases g.find? name <;> rfl

theorem find?_named (name other : String) : ((Glossary.named name).run g).2.find? other =
    if other = name then some ((Glossary.named name).run g).1 else g.find? other := by
  rw [run_named]
  exact find?_enter g name other (.typedef name)

end Glossary

namespace Item

variable {stripped : List String} {defined : String → Prop}

/-- The entry of a value, with what is spelled before it. -/
structure IsEntryAt (glossary : Glossary) (v : EnumValue) (entry : EnumEntry) : Prop where
  name : entry.name = ((Glossary.named v.name).run glossary).1
  value : entry.isAlias = true → ∃ target, v.aliasOf = some target ∧
    entry.value = (glossary.find? target).getD (.literal target)

namespace IsEntryAt

variable {glossary : Glossary} {v : EnumValue} {entry : EnumEntry} (here : IsEntryAt glossary v entry)
  (faithful : glossary.Faithful stripped defined)

include here faithful

theorem c_name : entry.name.c = v.name := by
  rw [here.name]
  exact (faithful.enter .typedef).1.c_eq

/-- The value of another name is a spelling of the name that the registry has there. -/
theorem of_isAlias (isAlias : entry.isAlias = true) : v.aliasOf = some entry.value.c ∧
    entry.value = (glossary.find? entry.value.c).getD (.literal entry.value.c) := by
  obtain ⟨target, other, value⟩ := here.value isAlias
  have same : entry.value.c = target := by
    rw [value]
    cases known : glossary.find? target with
    | none => rfl
    | some s => exact (faithful.spells _ _ known).c_eq
  rw [same]
  exact ⟨other, value⟩

end IsEntryAt

/-- The entries of values, one after the other. A value that is no more than a name has none. -/
inductive Enters : Glossary → List EnumValue → List EnumEntry → Glossary → Prop where
  | nil {glossary : Glossary} : Enters glossary [] [] glossary
  | skip {glossary last : Glossary} {v : EnumValue} {values : List EnumValue}
      {entries : List EnumEntry} (later : Enters glossary values entries last) :
      Enters glossary (v :: values) entries last
  | cons {glossary last : Glossary} {v : EnumValue} {values : List EnumValue} {entry : EnumEntry}
      {entries : List EnumEntry} (here : IsEntryAt glossary v entry)
      (later : Enters ((Glossary.named v.name).run glossary).2 values entries last) :
      Enters glossary (v :: values) (entry :: entries) last

theorem run_entryOf (owner : String) (v : EnumValue) (glossary : Glossary) :
    ((entryOf owner v).run glossary).value = (none, glossary) ∨
      ∃ entry, IsEntryAt glossary v entry ∧ ((entryOf owner v).run glossary).value =
        (some entry, ((Glossary.named v.name).run glossary).2) := by
  unfold entryOf
  cases other : v.aliasOf with
  | some target => exact .inr ⟨_, ⟨rfl, fun _ => ⟨target, other, rfl⟩⟩, rfl⟩
  | none =>
    cases v.value with
    | some text => exact .inr ⟨_, ⟨rfl, by nofun⟩, rfl⟩
    | none =>
      cases v.bitPos with
      | some position => exact .inr ⟨_, ⟨rfl, by nofun⟩, rfl⟩
      | none => exact .inl rfl

theorem enters_mapM (owner : String) (values : List EnumValue) (glossary : Glossary) :
    Enters glossary values
      (((values.mapM (entryOf owner)).run glossary).value.1.filterMap fun entry => entry)
      ((values.mapM (entryOf owner)).run glossary).value.2 := by
  induction values generalizing glossary with
  | nil => exact .nil
  | cons v values ih =>
    simp only [List.mapM_cons, StateT.run_bind, Logged.value_bind]
    rcases run_entryOf owner v glossary with skipped | ⟨entry, here, made⟩
    · rw [skipped]
      exact .skip (ih glossary)
    · rw [made]
      exact .cons here (ih _)

def IsSpelledBy (glossary : Glossary) (entries : List EnumEntry) (name : String) : Prop :=
  (∃ entry ∈ entries, entry.name.c = name) ∨ (glossary.find? name).isSome

namespace Enters

variable {glossary last : Glossary} {values : List EnumValue} {entries : List EnumEntry}

theorem faithful (enters : Enters glossary values entries last)
    (start : glossary.Faithful stripped defined) : last.Faithful stripped defined := by
  induction enters with
  | nil => exact start
  | skip _ ih => exact ih start
  | cons _ _ ih => exact ih (start.enter .typedef).2

theorem find?_of_known (enters : Enters glossary values entries last) {name : String} {s : Spelling}
    (known : glossary.find? name = some s) : last.find? name = some s := by
  induction enters with
  | nil => exact known
  | skip _ ih => exact ih known
  | cons _ _ ih => exact ih (Glossary.find?_enter_of_known known _)

theorem find?_entry (enters : Enters glossary values entries last)
    (start : glossary.Faithful stripped defined) {entry : EnumEntry} (mem : entry ∈ entries) :
    last.find? entry.name.c = some entry.name := by
  induction enters with
  | nil => cases mem
  | skip _ ih => exact ih start mem
  | cons here later ih =>
    rcases List.mem_cons.1 mem with rfl | mem
    · refine later.find?_of_known ?_
      rw [here.c_name start, Glossary.find?_named, if_pos rfl, here.name]
    · exact ih (start.enter .typedef).2 mem

theorem isSome_find?_iff (enters : Enters glossary values entries last)
    (start : glossary.Faithful stripped defined) (name : String) :
    (last.find? name).isSome ↔ IsSpelledBy glossary entries name := by
  unfold IsSpelledBy
  induction enters with
  | nil => simp
  | skip _ ih => exact ih start
  | @cons glossary _ v _ entry _ here _ ih =>
    have next : (((Glossary.named v.name).run glossary).2.find? name).isSome ↔
        entry.name.c = name ∨ (glossary.find? name).isSome := by
      rw [Glossary.find?_named, here.c_name start]
      by_cases same : name = v.name
      · simp [same]
      · simp [same, Ne.symm same]
    rw [ih (start.enter .typedef).2, next, List.exists_mem_cons_iff, or_left_comm, or_assoc]

theorem split {before after : List EnumEntry} {entry : EnumEntry}
    (enters : Enters glossary values (before ++ entry :: after) last) :
    ∃ earlier v later between, values = earlier ++ v :: later ∧
      Enters glossary earlier before between ∧ IsEntryAt between v entry ∧
      Enters ((Glossary.named v.name).run between).2 later after last := by
  generalize whole : before ++ entry :: after = entries at enters
  induction enters generalizing before with
  | nil => simp at whole
  | @skip _ _ first _ _ _ ih =>
    obtain ⟨earlier, v, later, between, rfl, front, here, back⟩ := ih whole
    exact ⟨first :: earlier, v, later, between, rfl, front.skip, here, back⟩
  | @cons glossary _ v values _ _ here back ih =>
    cases before with
    | nil =>
      obtain ⟨same, rest⟩ := List.cons.inj whole
      subst same rest
      exact ⟨[], v, values, glossary, rfl, .nil, here, back⟩
    | cons first before =>
      obtain ⟨same, rest⟩ := List.cons.inj whole
      subst same
      obtain ⟨earlier, v', later, between, rfl, front, here', back⟩ := ih rest
      exact ⟨v :: earlier, v', later, between, rfl, front.cons here, here', back⟩

section Alias

variable {before after : List EnumEntry} {other : EnumEntry}
  (enters : Enters glossary values (before ++ other :: after) last)
  (start : glossary.Faithful stripped defined) (isAlias : other.isAlias = true)

include enters start isAlias

theorem exists_value : ∃ v ∈ values, v.name = other.name.c ∧ v.aliasOf = some other.value.c := by
  obtain ⟨earlier, v, later, between, rfl, front, here, -⟩ := enters.split
  have faithful := front.faithful start
  exact ⟨v, by simp, (here.c_name faithful).symm, (here.of_isAlias faithful isAlias).1⟩

/-- Another name stands for what is declared if that is spelled by then, and for a text otherwise. -/
theorem value_eq {target : EnumEntry} (mem : target ∈ before ++ other :: after)
    (same : target.name.c = other.value.c) :
    (IsSpelledBy glossary before other.value.c → other.value = target.name) ∧
      (¬IsSpelledBy glossary before other.value.c → other.value = .literal other.value.c) := by
  have declared := enters.find?_entry start mem
  rw [same] at declared
  obtain ⟨earlier, v, later, between, rfl, front, here, back⟩ := enters.split
  obtain ⟨-, value⟩ := here.of_isAlias (front.faithful start) isAlias
  rw [← front.isSome_find?_iff start]
  cases known : between.find? other.value.c with
  | some s =>
    have kept := back.find?_of_known (Glossary.find?_enter_of_known known _)
    rw [declared] at kept
    rw [known, Option.getD_some] at value
    exact ⟨fun _ => value.trans (Option.some.inj kept).symm, fun unknown => absurd rfl unknown⟩
  | none =>
    rw [known, Option.getD_none] at value
    exact ⟨nofun, fun _ => value⟩

theorem go_value_eq_iff {target : EnumEntry} (mem : target ∈ before ++ other :: after)
    (same : target.name.c = other.value.c) :
    other.value.go = target.name.go ↔
      IsSpelledBy glossary before other.value.c ∨ target.name.go = other.value.c := by
  obtain ⟨declared, literal⟩ := enters.value_eq start isAlias mem same
  by_cases spelled : IsSpelledBy glossary before other.value.c
  · exact iff_of_true (congrArg Spelling.go (declared spelled)) (.inl spelled)
  · have text : other.value.go = other.value.c := by
      rw [literal spelled]
      rfl
    rw [text]
    exact ⟨fun same => .inr same.symm, fun or => (or.resolve_left spelled).symm⟩

end Alias

end Enters

variable {config : Config} {g : Graph} {order : List NodeId}

theorem exists_enum_of_item {item : EnumItem} (mem : .enum item ∈ (build config g order).value) :
    ∃ front id back t, order = front ++ id :: back ∧ g.element? id = some (.type t) ∧
      t.category = .enum ∧ t.aliasOf = none ∧ item.name.c = t.name ∧
      ∃ last, Enters (glossaryAfter config g order front) (g.enumValues id) item.entries last := by
  obtain ⟨front, id, back, same, made⟩ := exists_front_of_item mem (by simp)
  obtain ⟨isMade, -⟩ := meets_node config id _ (isKnown_glossaryAfter config g order front)
  obtain ⟨t, found, isEnum, original⟩ := isMade.enumerated item made
  obtain ⟨item', made', spells, -⟩ := isMade.enum t found isEnum original
  cases made.symm.trans made'
  refine ⟨front, id, back, t, same, found, isEnum, original, spells.c_eq, ?_⟩
  have run : ((ofNode config g id).run (glossaryAfter config g order front)).value.1 =
      some (.enum ((ofEnum g id t).run (glossaryAfter config g order front)).value.1) := by
    rw [ofNode, found]
    change ((ofType config g id t).run _).value.1 = _
    rw [ofType, original]
    dsimp only
    rw [isEnum]
    rfl
  rw [run] at made
  cases made
  exact ⟨_, enters_mapM t.name (g.enumValues id) (glossaryAfter config g order front)⟩

/-- An entry that is another name has the name in Go that its target is declared under, if that is
listed before it or spelled before the enum, or declared under the name that the registry has. -/
theorem aliases_spelled {item : EnumItem} (mem : .enum item ∈ (build config g order).value) :
    ∃ front id back t, order = front ++ id :: back ∧ g.element? id = some (.type t) ∧
      t.category = .enum ∧ t.aliasOf = none ∧ item.name.c = t.name ∧
      ∀ before other after, item.entries = before ++ other :: after → other.isAlias = true →
        (∃ v ∈ g.enumValues id, v.name = other.name.c ∧ v.aliasOf = some other.value.c) ∧
        ∀ target ∈ item.entries, target.name.c = other.value.c →
          (other.value.go = target.name.go ↔
            IsSpelledBy (glossaryAfter config g order front) before other.value.c ∨
              target.name.go = other.value.c) := by
  obtain ⟨front, id, back, t, same, found, isEnum, original, name, last, enters⟩ :=
    exists_enum_of_item mem
  refine ⟨front, id, back, t, same, found, isEnum, original, name, ?_⟩
  intro before other after entries isAlias
  have start := (isKnown_glossaryAfter config g order front).faithful
  rw [entries] at enters ⊢
  exact ⟨enters.exists_value start isAlias, fun target => enters.go_value_eq_iff start isAlias⟩

-- One value with a name before it and a name after it.
def tackValues : List EnumValue := [
  { name := "VK_TACK_LARBOARD", aliasOf := some "VK_TACK_PORT" },
  { name := "VK_TACK_PORT", value := some "0" },
  { name := "VK_TACK_LEFT", aliasOf := some "VK_TACK_PORT" }]

def tackRegistry : Registry where
  types := [{ name := "VkTack", category := .enum }]
  enums := [{ name := "VkTack", kind := .enum, values := tackValues }]
  extensions := [{ name := "VK_KHR_tack", number := 1, require := [{ types := ["VkTack"] }] }]

def tackConfig : Config where
  features := []
  extensions := ["VK_KHR_tack"]
  exportPrefixes := ["VK_"]

def tackGraph : Graph :=
  ((Graph.ofConfig tackRegistry tackConfig).run.value.toOption).getD .empty

def tackName (name : String) : Spelling := .exported (.typedef name) tackConfig.exportPrefixes

def larboardEntry : EnumEntry := ⟨tackName "VK_TACK_LARBOARD", .literal "VK_TACK_PORT", true⟩

def portEntry : EnumEntry := ⟨tackName "VK_TACK_PORT", .literal "0", false⟩

def leftEntry : EnumEntry := ⟨tackName "VK_TACK_LEFT", tackName "VK_TACK_PORT", true⟩

def tackItem : EnumItem where
  name := tackName "VkTack"
  type := .scalar .uint32
  entries := [larboardEntry, portEntry, leftEntry]

theorem left_spelled :
    (Graph.ofConfig tackRegistry tackConfig).run.value = .ok tackGraph ∧
      .enum tackItem ∈
        (build tackConfig tackGraph (tackGraph.emissionOrder tackConfig.enabled).value).value ∧
      leftEntry.value.go = portEntry.name.go := by
  have mem : .enum tackItem ∈
      (build tackConfig tackGraph (tackGraph.emissionOrder tackConfig.enabled).value).value := by
    decide +kernel
  obtain ⟨front, id, back, t, -, -, -, -, -, spelled⟩ := aliases_spelled mem
  obtain ⟨-, targets⟩ := spelled [larboardEntry, portEntry] leftEntry [] rfl rfl
  refine ⟨rfl, mem, (targets portEntry (by decide) rfl).2 (.inl (.inl ⟨portEntry, ?_, rfl⟩))⟩
  decide

/-- A name before its target is the target's as it is in the registry, though that is declared under
another one. -/
theorem larboard_not_spelled :
    (Graph.ofConfig tackRegistry tackConfig).run.value = .ok tackGraph ∧
      .enum tackItem ∈
        (build tackConfig tackGraph (tackGraph.emissionOrder tackConfig.enabled).value).value ∧
      larboardEntry ∈ tackItem.entries ∧ larboardEntry.isAlias = true ∧
      portEntry ∈ tackItem.entries ∧ portEntry.name.c = larboardEntry.value.c ∧
      larboardEntry.value.go = "VK_TACK_PORT" ∧ portEntry.name.go = "TACK_PORT" :=
  ⟨rfl, by decide +kernel, by decide, rfl, by decide, rfl, rfl, by decide +kernel⟩

end Item

end VulkanBindings
