import VulkanBindings.Proofs.Registry.Kinds

/-! The attributes of an element, in whatever order they come. Each of them is read into a place of its
own, except for two that are joined to what is read of another one; so what is read of all of them does
not depend on their order. -/

set_option autoImplicit false

namespace VulkanBindings.Registry

open Xml (Node Content Error Step Kept textName)

namespace Kind

def attributeEntry (field : String × String) : String × Node :=
  (field.1, .leaf (.attribute (.ok field.2)))

/-- What becomes of the state of a reader with an attribute, if that can be read. -/
def put (k : Kind) (s : k.State) (field : String × String) : Option k.State :=
  match k.step s field.1 (attributeEntry field).2 with
  | .ok (.next s) => some s
  | _ => none

section Attributes

variable {k : Kind} {s : k.State} {field field' : String × String}

theorem step_attribute_eq_ok {r : Step k.State} :
    k.step s field.1 (attributeEntry field).2 = .ok r ↔
      ∃ s', k.put s field = some s' ∧ r = .next s' := by
  unfold put
  cases taken : k.step s field.1 (attributeEntry field).2 with
  | error e => simp
  | ok r' =>
    cases r' with
    | next s' => simp [eq_comm]
    | choose chosen =>
      obtain ⟨-, _, _, _, same⟩ := element_of_choose taken
      cases same

theorem put_unknown (unknown : field.1 ∉ k.known) : k.put s field = some s := by
  unfold put
  rw [step_unknown k unknown]
  rfl

end Attributes

/-- A place for what is read at most once. -/
structure Slot (σ : Type) where
  {α : Type}
  get : σ → Option α
  set : σ → Option α → σ
  read : Node → Except Error α

namespace Slot

variable {σ : Type}

def fill (slot : Slot σ) (name : String) (s : σ) (node : Node) : Except Error σ := do
  return slot.set s (← Xml.once name (slot.get s) (slot.read node))

/-- What is put into one of the places is not seen in the other one. -/
structure Apart (a b : Slot σ) : Prop where
  get_set : ∀ s x, a.get (b.set s x) = a.get s
  get_set' : ∀ s x, b.get (a.set s x) = b.get s
  set_set : ∀ s x y, a.set (b.set s y) x = b.set (a.set s x) y

theorem Apart.symm {a b : Slot σ} (apart : a.Apart b) : b.Apart a :=
  ⟨apart.get_set', apart.get_set, fun s x y => (apart.set_set s y x).symm⟩

theorem fill_eq_ok {slot : Slot σ} {name : String} {s s' : σ} {node : Node} :
    slot.fill name s node = .ok s' ↔
      slot.get s = none ∧ ∃ a, slot.read node = .ok a ∧ s' = slot.set s (some a) := by
  unfold fill Xml.once
  cases slot.get s with
  | some a => simp [bind, Except.bind]
  | none =>
    cases slot.read node <;>
      simp [bind, Except.bind, Functor.map, Except.map, pure, Except.pure, eq_comm]

theorem Apart.fill_comm {a b : Slot σ} (apart : a.Apart b) {n m : String} {x y : Node} {s s' s'' : σ}
    (first : a.fill n s x = .ok s') (second : b.fill m s' y = .ok s'') :
    ∃ t, b.fill m s y = .ok t ∧ a.fill n t x = .ok s'' := by
  obtain ⟨free, v, read, rfl⟩ := fill_eq_ok.1 first
  obtain ⟨free', w, read', rfl⟩ := fill_eq_ok.1 second
  rw [apart.get_set'] at free'
  exact ⟨_, fill_eq_ok.2 ⟨free', w, read', rfl⟩,
    fill_eq_ok.2 ⟨(apart.get_set ..).trans free, v, read, (apart.set_set ..).symm⟩⟩

end Slot

def platformSlot : String → Slot Platform.Partial
  | "name" => ⟨(·.name), fun s a => { s with name := a }, Node.text⟩
  | "protect" => ⟨(·.protect), fun s a => { s with protect := a }, Node.text⟩
  | _ => ⟨(·.comment), fun s a => { s with comment := a }, Node.text⟩

def valueSlot : String → Slot EnumValue.Partial
  | "name" => ⟨(·.name), fun s a => { s with name := a }, Node.text⟩
  | "value" => ⟨(·.value.value), fun s a => { s with value := { s.value with value := a } }, Node.text⟩
  | "bitpos" => ⟨(·.value.bitPos), fun s a => { s with value := { s.value with bitPos := a } }, Node.number⟩
  | "alias" => ⟨(·.value.aliasOf), fun s a => { s with value := { s.value with aliasOf := a } }, Node.text⟩
  | "api" => ⟨(·.value.api), fun s a => { s with value := { s.value with api := a } }, Node.text⟩
  | "type" => ⟨(·.value.typeAttr), fun s a => { s with value := { s.value with typeAttr := a } }, Node.text⟩
  | "deprecated" =>
    ⟨(·.value.deprecated), fun s a => { s with value := { s.value with deprecated := a } }, Node.text⟩
  | "protect" => ⟨(·.value.protect), fun s a => { s with value := { s.value with protect := a } }, Node.text⟩
  | _ => ⟨(·.value.comment), fun s a => { s with value := { s.value with comment := a } }, Node.text⟩

def Slot.within (slot : Slot EnumValue.Partial) : Slot RequiredEnum.Partial :=
  ⟨fun s => slot.get s.element, fun s a => { s with element := slot.set s.element a }, slot.read⟩

def requiredSlot : String → Slot RequiredEnum.Partial
  | "extends" =>
    ⟨(·.rest.extends?), fun s a => { s with rest := { s.rest with extends? := a } }, Node.text⟩
  | "extnumber" =>
    ⟨(·.rest.extNumber), fun s a => { s with rest := { s.rest with extNumber := a } }, Node.number⟩
  | "offset" => ⟨(·.rest.offset), fun s a => { s with rest := { s.rest with offset := a } }, Node.number⟩
  | "dir" => ⟨(·.rest.dir), fun s a => { s with rest := { s.rest with dir := a } }, Node.text⟩
  | name => (valueSlot name).within

section Slots

variable {name name' : String}

theorem platformSlot_apart (mem : name ∈ platform.known) (mem' : name' ∈ platform.known)
    (ne : name ≠ name') : (platformSlot name).Apart (platformSlot name') := by
  fin_cases mem <;> fin_cases mem' <;>
    first | exact absurd rfl ne | exact ⟨fun _ _ => rfl, fun _ _ => rfl, fun _ _ _ => rfl⟩

theorem valueSlot_apart (mem : name ∈ value.known) (mem' : name' ∈ value.known) (ne : name ≠ name') :
    (valueSlot name).Apart (valueSlot name') := by
  fin_cases mem <;> fin_cases mem' <;>
    first | exact absurd rfl ne | exact ⟨fun _ _ => rfl, fun _ _ => rfl, fun _ _ _ => rfl⟩

theorem requiredSlot_apart (mem : name ∈ requiredEnum.known) (mem' : name' ∈ requiredEnum.known)
    (ne : name ≠ name') : (requiredSlot name).Apart (requiredSlot name') := by
  fin_cases mem <;> fin_cases mem' <;>
    first | exact absurd rfl ne | exact ⟨fun _ _ => rfl, fun _ _ => rfl, fun _ _ _ => rfl⟩

theorem step_platform (mem : name ∈ platform.known) (s : platform.State) (node : Node) :
    platform.step s name node = .next <$> (platformSlot name).fill name s node := by
  fin_cases mem <;> rfl

theorem step_value (mem : name ∈ value.known) (s : value.State) (node : Node) :
    value.step s name node = .next <$> (valueSlot name).fill name s node := by
  fin_cases mem <;> rfl

theorem Slot.fill_within (slot : Slot EnumValue.Partial) (s : RequiredEnum.Partial) (node : Node) :
    slot.within.fill name s node = do return { s with element := ← slot.fill name s.element node } := by
  unfold Slot.fill
  rw [bind_assoc]
  rfl

theorem step_requiredEnum (mem : name ∈ requiredEnum.known) (s : requiredEnum.State) (node : Node) :
    requiredEnum.step s name node = .next <$> (requiredSlot name).fill name s node := by
  obtain shared | own : name ∈ value.known ∨ name ∈ ["extends", "extnumber", "offset", "dir"] :=
    List.mem_append.1 mem
  · have place : requiredSlot name = (valueSlot name).within := by fin_cases shared <;> rfl
    rw [place, Slot.fill_within]
    fin_cases shared <;> rfl
  · fin_cases own <;> rfl

end Slots

def Joins (k : Kind) (name name' : String) : Prop :=
  k.joined = some (name, name') ∨ k.joined = some (name', name)

/-- What becomes of a state with two attributes is the same in either order. -/
def Commute (k : Kind) (field field' : String × String) : Prop :=
  ∀ s, (k.put s field).bind (k.put · field') = (k.put s field').bind (k.put · field)

section Pairs

variable {k : Kind} {field field' : String × String} {text : String}

theorem Commute.symm (commute : k.Commute field field') : k.Commute field' field :=
  fun s => (commute s).symm

theorem Commute.of_unknown (unknown : field.1 ∉ k.known) : k.Commute field field' := by
  intro s
  rw [put_unknown unknown, Option.bind_some]
  cases k.put s field' with
  | none => rfl
  | some s' => exact (put_unknown unknown).symm

theorem put_eq_some_of_fill {slot : Slot k.State} (fills : ∀ s node,
    k.step s field.1 node = .next <$> slot.fill field.1 s node) {s s' : k.State} :
    k.put s field = some s' ↔ slot.fill field.1 s (attributeEntry field).2 = .ok s' := by
  unfold put
  rw [fills]
  cases slot.fill field.1 s (attributeEntry field).2 <;> simp [Functor.map, Except.map]

theorem Commute.of_apart {slot slot' : Slot k.State} (apart : slot.Apart slot')
    (fills : ∀ s node, k.step s field.1 node = .next <$> slot.fill field.1 s node)
    (fills' : ∀ s node, k.step s field'.1 node = .next <$> slot'.fill field'.1 s node) :
    k.Commute field field' := by
  intro s
  ext t
  simp only [Option.bind_eq_some_iff, put_eq_some_of_fill fills, put_eq_some_of_fill fills']
  constructor
  · rintro ⟨s', first, second⟩
    exact apart.fill_comm first second
  · rintro ⟨s', first, second⟩
    exact apart.symm.fill_comm first second

theorem number_attribute (name : String) : (attributeEntry (name, text)).2.number =
    match Text.word32? text.toList with
    | some n => .ok n
    | none => .error (.unreadable text "u32") := rfl

theorem put_number (s : Extension.Partial) : extension.put s ("number", text) =
    (Text.word32? text.toList).map fun n => ({ s with number := some n } : Extension.Partial) := by
  unfold put
  simp only [step, plainly, Extension.step, number_attribute]
  cases Text.word32? text.toList <;> rfl

theorem put_bitwidth (s : Option String × EnumBlock) : enums.put s ("bitwidth", text) =
    (Text.word32? text.toList).map fun n => (s.1, { s.2 with bitWidth := some n }) := by
  unfold put
  simp only [step, EnumBlock.step, number_attribute]
  cases Text.word32? text.toList <;> rfl

theorem commute_number (mem : field.1 ∈ extension.known) (ne : "number" ≠ field.1) :
    extension.Commute ("number", text) field := by
  obtain ⟨name, text'⟩ := field
  intro s
  fin_cases mem
  case «1» => exact absurd rfl ne
  all_goals
    simp only [put_number]
    cases Text.word32? text.toList <;> rfl

theorem commute_bitwidth (mem : field.1 ∈ enums.known) (ne : "bitwidth" ≠ field.1) :
    enums.Commute ("bitwidth", text) field := by
  obtain ⟨name, text'⟩ := field
  intro s
  fin_cases mem
  case «3» => exact absurd rfl ne
  all_goals
    simp only [put_bitwidth]
    cases Text.word32? text.toList <;> rfl

/-- Every two attributes of an element can be read in either order, unless they go to one place. -/
theorem commute (k : Kind) (ne : field.1 ≠ field'.1) (apart : ¬k.Joins field.1 field'.1) :
    k.Commute field field' := by
  by_cases mem : field.1 ∈ k.known
  case neg => exact .of_unknown mem
  by_cases mem' : field'.1 ∈ k.known
  case neg => exact (Commute.of_unknown mem').symm
  cases k
  case platform =>
    exact .of_apart (platformSlot_apart mem mem' ne) (step_platform mem) (step_platform mem')
  case value =>
    exact .of_apart (valueSlot_apart mem mem' ne) (step_value mem) (step_value mem')
  case requiredEnum =>
    exact .of_apart (requiredSlot_apart mem mem' ne) (step_requiredEnum mem) (step_requiredEnum mem')
  -- A number may be refused, so its attribute has a lemma of its own. All other pairs are tried one by one.
  case enums =>
    obtain ⟨name, text⟩ := field
    obtain ⟨name', text'⟩ := field'
    by_cases number : name = "bitwidth"
    · subst number
      exact commute_bitwidth mem' ne
    by_cases number' : name' = "bitwidth"
    · subst number'
      exact (commute_bitwidth mem ne.symm).symm
    intro s
    fin_cases mem <;> fin_cases mem' <;> first
      | rfl
      | exact absurd rfl ne
      | exact absurd rfl number
      | exact absurd rfl number'
  case extension =>
    obtain ⟨name, text⟩ := field
    obtain ⟨name', text'⟩ := field'
    by_cases number : name = "number"
    · subst number
      exact commute_number mem' ne
    by_cases number' : name' = "number"
    · subst number'
      exact (commute_number mem ne.symm).symm
    intro s
    fin_cases mem <;> fin_cases mem' <;> first
      | rfl
      | exact absurd rfl ne
      | exact absurd rfl number
      | exact absurd rfl number'
      | exact absurd (.inl rfl) apart
      | exact absurd (.inr rfl) apart
  all_goals
    obtain ⟨name, text⟩ := field
    obtain ⟨name', text'⟩ := field'
    intro s
    fin_cases mem <;> fin_cases mem' <;> first
      | rfl
      | exact absurd rfl ne
      | exact absurd (.inl rfl) apart
      | exact absurd (.inr rfl) apart

end Pairs

def putAll (k : Kind) (s : k.State) (fields : List (String × String)) : Option k.State :=
  fields.foldlM k.put s

/-- Attributes in another order, no two of one name and no two that are read into one place. -/
structure Shuffled (kind : Option Kind) (fields fields' : List (String × String)) : Prop where
  perm : fields.Perm fields'
  distinct : (fields.map Prod.fst).Nodup
  plain : ∀ field ∈ fields, field.1 ≠ textName
  apart : ∀ k ∈ kind, ∀ names, k.joined = some names →
    ¬(names.1 ∈ fields.map Prod.fst ∧ names.2 ∈ fields.map Prod.fst)

namespace Shuffled

variable {kind : Option Kind} {k : Kind} {fields fields' : List (String × String)}

theorem not_joins (shuffled : Shuffled (some k) fields fields') {field field' : String × String}
    (mem : field ∈ fields) (mem' : field' ∈ fields) : ¬k.Joins field.1 field'.1 := by
  have first := List.mem_map_of_mem (f := Prod.fst) mem
  have second := List.mem_map_of_mem (f := Prod.fst) mem'
  rintro (joined | joined)
  · exact shuffled.apart k rfl _ joined ⟨first, second⟩
  · exact shuffled.apart k rfl _ joined ⟨second, first⟩

theorem putAll_eq (shuffled : Shuffled (some k) fields fields') (s : k.State) :
    k.putAll s fields = k.putAll s fields' := by
  rw [putAll, putAll, List.foldlM_eq_foldl, List.foldlM_eq_foldl]
  refine shuffled.perm.foldl_eq' (fun field mem field' mem' state => ?_) _
  by_cases same : field.1 = field'.1
  · obtain rfl := List.inj_on_of_nodup_map shuffled.distinct mem mem' same
    rfl
  · cases state with
    | none => rfl
    | some s => exact k.commute same (shuffled.not_joins mem mem') s

end Shuffled

section Folds

variable {σ : Type} {step : σ → String → Node → Except Error (Step σ)} {d : Content} {s : σ}

def awaited (step : σ → String → Node → Except Error (Step σ)) (d : Content) (chosen : String → σ) :
    List (String × Node) → Except Error σ
  | [] => do
    let _ ← d.ending
    .error .missingChoice
  | (name, node) :: rest => do
    node.skip
    Content.foldChoices.go step d (chosen name) rest

theorem go_cons (name : String) (node : Node) (rest : List (String × Node)) :
    Content.foldChoices.go step d s ((name, node) :: rest) = step s name node >>= fun
      | .next s => Content.foldChoices.go step d s rest
      | .choose chosen => awaited step d chosen rest := by
  rw [Content.foldChoices.go]
  rfl

theorem go_attributes {k : Kind} {fields : List (String × String)} {more : List (String × Node)}
    {s a : k.State} : Content.foldChoices.go k.step d s (fields.map attributeEntry ++ more) = .ok a ↔
      ∃ s', k.putAll s fields = some s' ∧ Content.foldChoices.go k.step d s' more = .ok a := by
  induction fields generalizing s with
  | nil => simp [putAll]
  | cons field fields ih =>
    have entry : attributeEntry field = (field.1, (attributeEntry field).2) := rfl
    have first : k.putAll s (field :: fields) = (k.put s field).bind (k.putAll · fields) :=
      List.foldlM_cons ..
    rw [List.map_cons, List.cons_append, entry, go_cons, first]
    constructor
    · intro found
      obtain ⟨r, taken, found⟩ := Xml.exists_of_bind_eq_ok found
      obtain ⟨t, puts, rfl⟩ := step_attribute_eq_ok.1 taken
      obtain ⟨s', all, found⟩ := ih.1 found
      exact ⟨s', by rw [puts]; exact all, found⟩
    · rintro ⟨s', all, found⟩
      obtain ⟨t, puts, all⟩ := Option.bind_eq_some_iff.1 all
      rw [step_attribute_eq_ok.2 ⟨t, puts, rfl⟩]
      exact ih.2 ⟨s', all, found⟩

end Folds

end Kind

end VulkanBindings.Registry
