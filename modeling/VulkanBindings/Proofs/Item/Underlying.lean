import VulkanBindings.Generate
import VulkanBindings.Proofs.Item.Enumerated
import VulkanBindings.Proofs.Spelling.Integer

/-! The type of an enum's values in Go, and which integers it can represent. -/

set_option autoImplicit false

namespace VulkanBindings

open Naming
open Text (Word)

/-- The integers that a type of Go can represent. -/
def goWord? : String → Option Word
  | "int8" => some ⟨true, 8⟩
  | "int16" => some ⟨true, 16⟩
  | "int32" => some ⟨true, 32⟩
  | "int64" => some ⟨true, 64⟩
  | "byte" => some ⟨false, 8⟩
  | "uint16" => some ⟨false, 16⟩
  | "uint32" => some ⟨false, 32⟩
  | "uint64" => some ⟨false, 64⟩
  | _ => none

namespace Spelling

/-- The integer that the value of an enumerator stands for. -/
inductive Denotes : Spelling → Int → Prop
  | literal {text : String} {n : Int} (written : Constant.IsInteger text.toList n) : Denotes (.literal text) n
  | bit (position : Nat) : Denotes (.bit position) (2 ^ position)

theorem Denotes.unique {s : Spelling} {n m : Int} (denotes : s.Denotes n) (other : s.Denotes m) : n = m := by
  cases denotes with
  | literal written =>
    cases other with
    | literal written' => exact written.unique written'
  | bit =>
    cases other
    rfl

theorem denotes_of_toString {text : String} {n : Int} (same : toString n = text) :
    (literal text).Denotes n := by
  subst same
  exact .literal (Constant.isInteger_toString n)

def number? : Spelling → Option Int
  | .literal text => Constant.value? text
  | .bit position => Constant.bitValue? position
  | _ => none

theorem Denotes.number?_eq {s : Spelling} {n : Int} (denotes : s.Denotes n) (fits : n.natAbs < 2 ^ 64) :
    s.number? = some n := by
  cases denotes with
  | literal written => exact written.value?_eq (by omega)
  | bit position =>
    have small : position < 64 := by
      rw [Int.natAbs_pow] at fits
      exact (Nat.pow_lt_pow_iff_right (by decide)).1 fits
    have inside : position + 1 < Constant.valueWord.bits := by
      change position + 1 < 128
      omega
    rw [number?, Constant.bitValue?, if_pos inside]
    simp

end Spelling

/-- The value of an entry, unless that is another enumerator. -/
def EnumEntry.own? (entry : EnumEntry) : Option Spelling :=
  if entry.isAlias then none else some entry.value

def EnumValue.own? (v : EnumValue) : Option Spelling :=
  match v.aliasOf, v.value, v.bitPos with
  | none, some text, _ => some (.literal text)
  | none, none, some position => some (.bit position)
  | _, _, _ => none

theorem EnumValue.valueOf?_eq (v : EnumValue) : Item.valueOf? v = v.own?.bind Spelling.number? := by
  unfold Item.valueOf? EnumValue.own?
  cases v.aliasOf <;> cases v.value <;> cases v.bitPos <;> rfl

namespace EnumItem

/-- The values are integers of which `P` holds. Entries that are other names are left out. -/
def AllValues (item : EnumItem) (P : Int → Prop) : Prop :=
  ∀ s ∈ item.entries.filterMap EnumEntry.own?, ∃ n, s.Denotes n ∧ P n

def FitsIn (item : EnumItem) (w : Word) : Prop := item.AllValues (w.holds · = true)

theorem AllValues.and {item : EnumItem} {P Q : Int → Prop} (first : item.AllValues P)
    (second : item.AllValues Q) :
    item.AllValues fun n => P n ∧ Q n := by
  intro s mem
  obtain ⟨n, denotes, holds⟩ := first s mem
  obtain ⟨m, denotes', holds'⟩ := second s mem
  cases denotes.unique denotes'
  exact ⟨n, denotes, holds, holds'⟩

theorem AllValues.mono {item : EnumItem} {P Q : Int → Prop} (all : item.AllValues P)
    (weaker : ∀ n, P n → Q n) :
    item.AllValues Q := by
  intro s mem
  obtain ⟨n, denotes, holds⟩ := all s mem
  exact ⟨n, denotes, weaker n holds⟩

/-- The numbers of the values are all there is to say of them, if computing has room for them. -/
theorem AllValues.iff {item : EnumItem} (small : item.AllValues (·.natAbs < 2 ^ 64)) (P : Int → Prop) :
    item.AllValues P ↔ ∀ n ∈ (item.entries.filterMap EnumEntry.own?).filterMap Spelling.number?, P n := by
  constructor
  · intro all n mem
    obtain ⟨s, listed, number⟩ := List.mem_filterMap.1 mem
    obtain ⟨m, denotes, fits, holds⟩ := small.and all s listed
    cases number.symm.trans (denotes.number?_eq fits)
    exact holds
  · intro all s listed
    obtain ⟨n, denotes, fits⟩ := small s listed
    exact ⟨n, denotes, all n (List.mem_filterMap.2 ⟨s, listed, denotes.number?_eq fits⟩)⟩

end EnumItem

namespace Item

theorem meets_own (owner : String) (v : EnumValue) :
    Meets (fun _ => True) (entryOf owner v) fun made => v.own? = made.bind EnumEntry.own? := by
  have spelled (s : Spelling) (isAlias : Bool) (own : v.own? = if isAlias then none else some s) :
      Meets (fun _ => True) (do return some ⟨← spell (Glossary.named v.name), s, isAlias⟩)
        fun made : Option EnumEntry => v.own? = made.bind EnumEntry.own? :=
    .bind (Q := fun _ => True) (fun _ _ => ⟨trivial, trivial⟩) fun _ _ => .pure own
  unfold entryOf
  refine .bind .get fun glossary _ => ?_
  cases other : v.aliasOf with
  | some target => exact spelled _ true (by simp [EnumValue.own?, other])
  | none =>
    cases text : v.value with
    | some text' => exact spelled _ false (by simp [EnumValue.own?, other, text])
    | none =>
      cases bit : v.bitPos with
      | some position => exact spelled _ false (by simp [EnumValue.own?, other, text, bit])
      | none => exact .bind (.log _ _) fun _ _ => .pure (by simp [EnumValue.own?, other, text, bit])

theorem own_ofEnum (g : Graph) (id : NodeId) (t : TypeDecl) (glossary : Glossary) :
    ((ofEnum g id t).run glossary).value.1.entries.filterMap EnumEntry.own? =
      (g.enumValues id).filterMap EnumValue.own? := by
  have all := (Meets.mapM (meets_own t.name) (g.enumValues id) glossary trivial).1
  change (List.filterMap (fun entry => entry) _).filterMap EnumEntry.own? = _
  rw [List.filterMap_filterMap]
  exact (filterMap_eq all).symm

section Range

theorem go_underlying_mem (isWide : Bool) (least greatest : Int) :
    (underlying isWide least greatest).go ∈ ["uint32", "int32", "int64", "uint64"] := by
  unfold underlying
  split_ifs <;> decide

theorem exists_goWord?_underlying {isWide : Bool} {numbers : List Int}
    (integers : (∀ n ∈ numbers, Word.holds ⟨true, 64⟩ n = true) ∨
      ∀ n ∈ numbers, Word.holds ⟨false, 64⟩ n = true)
    (wide : isWide = true → ∀ n ∈ numbers, 0 ≤ n)
    (small : (∀ n ∈ numbers, n ≤ Word.greatest ⟨true, 32⟩) → ∀ n ∈ numbers, Word.least ⟨true, 32⟩ ≤ n) :
    ∃ w, goWord? (underlying isWide (numbers.foldl min 0) (numbers.foldl max 0)).go = some w ∧
      ∀ n ∈ numbers, w.holds n = true := by
  obtain ⟨lowMem, isLeast⟩ := List.min?_eq_some_iff.1 (@List.min?_cons' _ 0 _ numbers)
  obtain ⟨-, isGreatest⟩ := List.max?_eq_some_iff.1 (@List.max?_cons' _ 0 _ numbers)
  generalize numbers.foldl min 0 = low at *
  generalize numbers.foldl max 0 = high at *
  have low_le : ∀ n ∈ numbers, low ≤ n := fun n mem => isLeast n (.tail _ mem)
  have le_high : ∀ n ∈ numbers, n ≤ high := fun n mem => isGreatest n (.tail _ mem)
  -- Without negative numbers either range lies within that of 64 bits without a sign.
  have natural (nonneg : ∀ n ∈ numbers, 0 ≤ n) : ∀ n ∈ numbers, Word.holds ⟨false, 64⟩ n = true := by
    obtain signed | unsigned := integers
    · intro n mem
      have inside := Word.holds_int64.1 (signed n mem)
      exact Word.holds_uint64.2 ⟨nonneg n mem, by omega⟩
    · exact unsigned
  unfold underlying
  split
  · next isWide => exact ⟨_, rfl, natural (wide isWide)⟩
  · split
    · next negative =>
      split
      · next fits =>
        have le_greatest : ∀ n ∈ numbers, n ≤ Word.greatest ⟨true, 32⟩ :=
          fun n mem => (le_high n mem).trans fits
        refine ⟨_, rfl, fun n mem => ?_⟩
        rw [Word.holds_iff]
        exact ⟨small le_greatest n mem, le_greatest n mem⟩
      · -- The least number is negative, so that all are in the signed range.
        refine ⟨_, rfl, integers.resolve_right fun unsigned => ?_⟩
        have listed : low ∈ numbers := (List.mem_cons.1 lowMem).resolve_left negative.ne
        exact absurd (Word.holds_uint64.1 (unsigned low listed)).1 negative.not_ge
    · next nonneg =>
      have zero_le : ∀ n ∈ numbers, 0 ≤ n := fun n mem => (Int.not_lt.1 nonneg).trans (low_le n mem)
      split
      · exact ⟨_, rfl, natural zero_le⟩
      · next fits =>
        refine ⟨_, rfl, fun n mem => ?_⟩
        rw [Word.holds_iff]
        exact ⟨zero_le n mem, (le_high n mem).trans (Int.not_lt.1 fits)⟩

end Range

/-- The type of an enum can represent its values, if they are in the range of 64 bits. An enum of which a
block is said to have 64 bits must have no negative values, and one without values above those of 32 bits
none below. -/
theorem underlying_fits (g : Graph) (id : NodeId) (t : TypeDecl) (glossary : Glossary) {item : EnumItem}
    (made : ((ofEnum g id t).run glossary).value.1 = item)
    (integers : item.FitsIn ⟨true, 64⟩ ∨ item.FitsIn ⟨false, 64⟩)
    (wide : g.isWide id = true → item.AllValues (0 ≤ ·))
    (small : item.AllValues (· ≤ Word.greatest ⟨true, 32⟩) → item.AllValues (Word.least ⟨true, 32⟩ ≤ ·)) :
    item.type.go ∈ ["uint32", "int32", "int64", "uint64"] ∧
      ∃ w, goWord? item.type.go = some w ∧ item.FitsIn w := by
  subst made
  have own := own_ofEnum g id t glossary
  have type : ((ofEnum g id t).run glossary).value.1.type =
    .scalar (underlyingOf (g.isWide id) (g.enumValues id)) := rfl
  generalize ((ofEnum g id t).run glossary).value.1 = item at *
  have inRange : item.AllValues (·.natAbs < 2 ^ 64) := by
    obtain signed | unsigned := integers
    · apply signed.mono
      intro n fits
      have := Word.holds_int64.1 fits
      omega
    · apply unsigned.mono
      intro n fits
      have := Word.holds_uint64.1 fits
      omega
  have numbers : (item.entries.filterMap EnumEntry.own?).filterMap Spelling.number? =
      (g.enumValues id).filterMap valueOf? := by
    rw [own, List.filterMap_filterMap]
    exact congrArg (List.filterMap · _) (funext fun v => v.valueOf?_eq.symm)
  unfold EnumItem.FitsIn at integers ⊢
  simp only [inRange.iff, numbers] at integers wide small ⊢
  rw [type]
  exact ⟨go_underlying_mem _ _ _, exists_goWord?_underlying integers wide small⟩

theorem allValues_of_single {item : EnumItem} {name s : Spelling} {n : Int} {P : Int → Prop}
    (only : item.entries = [⟨name, s, false⟩]) (denotes : s.Denotes n) : item.AllValues P ↔ P n := by
  have own : item.entries.filterMap EnumEntry.own? = [s] := by
    rw [only]
    rfl
  unfold EnumItem.AllValues
  rw [own, List.forall_mem_singleton]
  constructor
  · rintro ⟨m, denotes', holds⟩
    cases denotes.unique denotes'
    exact holds
  · exact fun holds => ⟨n, denotes, holds⟩

def soundingRegistry : Registry where
  types := [
    { name := "VkDepth", category := .enum },
    { name := "VkTide", category := .enum },
    { name := "VkCourse", category := .enum }]
  enums := [
    { name := "VkDepth", kind := .enum, bitWidth := some 64,
      values := [{ name := "VK_DEPTH_LOW", value := some "-1" }] },
    { name := "VkTide", kind := .enum, values := [{ name := "VK_TIDE_LOW", value := some "-3000000000" }] },
    { name := "VkCourse", kind := .enum,
      values := [
        { name := "VK_COURSE_BACK", value := some "-1" },
        { name := "VK_COURSE_FAR", bitPos := some 30 }] }]
  extensions := [
    { name := "VK_KHR_lead", number := 1, require := [{ types := ["VkDepth", "VkTide", "VkCourse"] }] }]

def soundingConfig : Config where
  features := []
  extensions := ["VK_KHR_lead"]

def soundingGraph : Graph :=
  ((Graph.ofConfig soundingRegistry soundingConfig).run.value.toOption).getD .empty

def courseItem : EnumItem where
  name := publicName "VkCourse"
  type := .scalar .int32
  entries := [
    ⟨publicName "VK_COURSE_BACK", .literal "-1", false⟩,
    ⟨publicName "VK_COURSE_FAR", .bit 30, false⟩]

theorem course_fits :
    ((ofEnum soundingGraph 3 soundingRegistry.types[2]).run (.ofScalars ["Vk", "vk"])).value.1 = courseItem ∧
      courseItem.FitsIn ⟨true, 64⟩ ∧ soundingGraph.isWide 3 = false ∧
      courseItem.AllValues (Word.least ⟨true, 32⟩ ≤ ·) ∧
      ∃ w, goWord? "int32" = some w ∧ courseItem.FitsIn w := by
  have made : ((ofEnum soundingGraph 3 soundingRegistry.types[2]).run (.ofScalars ["Vk", "vk"])).value.1 =
      courseItem := by decide +kernel
  have values {P : Int → Prop} (back : P (-1)) (far : P (2 ^ 30)) : courseItem.AllValues P := by
    have own : courseItem.entries.filterMap EnumEntry.own? = [.literal "-1", .bit 30] := rfl
    unfold EnumItem.AllValues
    rw [own, List.forall_mem_cons, List.forall_mem_singleton]
    exact ⟨⟨-1, Spelling.denotes_of_toString (by decide), back⟩, 2 ^ 30, .bit 30, far⟩
  have signed : courseItem.FitsIn ⟨true, 64⟩ := values (by decide) (by decide)
  have narrow : soundingGraph.isWide 3 = false := by decide +kernel
  have atLeast : courseItem.AllValues (Word.least ⟨true, 32⟩ ≤ ·) := values (by decide) (by decide)
  have fits := underlying_fits soundingGraph 3 _ _ made (.inl signed) (by simp [narrow]) fun _ => atLeast
  exact ⟨made, signed, narrow, atLeast, fits.2⟩

def depthItem : EnumItem where
  name := publicName "VkDepth"
  type := .scalar .uint64
  entries := [⟨publicName "VK_DEPTH_LOW", .literal "-1", false⟩]

def tideItem : EnumItem where
  name := publicName "VkTide"
  type := .scalar .int32
  entries := [⟨publicName "VK_TIDE_LOW", .literal "-3000000000", false⟩]

/-- A negative value in a block that is said to have 64 bits, and one below the range of 32 bits without one
above it, have types that cannot represent them. -/
theorem soundings_do_not_fit :
    (Graph.ofConfig soundingRegistry soundingConfig).run.value = .ok soundingGraph ∧
      (build soundingConfig soundingGraph (soundingGraph.emissionOrder soundingConfig.enabled).value).value =
        [.constants [], .enum depthItem, .enum tideItem, .enum courseItem] ∧
      (depthItem.FitsIn ⟨true, 64⟩ ∧ goWord? depthItem.type.go = some ⟨false, 64⟩ ∧
        ¬depthItem.FitsIn ⟨false, 64⟩) ∧
      tideItem.FitsIn ⟨true, 64⟩ ∧ goWord? tideItem.type.go = some ⟨true, 32⟩ ∧
        ¬tideItem.FitsIn ⟨true, 32⟩ := by
  have depth {P : Int → Prop} : depthItem.AllValues P ↔ P (-1) :=
    allValues_of_single rfl (Spelling.denotes_of_toString (by decide))
  have tide {P : Int → Prop} : tideItem.AllValues P ↔ P (-3000000000) :=
    allValues_of_single rfl (Spelling.denotes_of_toString (by decide))
  refine ⟨rfl, by decide +kernel, ⟨?_, rfl, ?_⟩, ?_, rfl, ?_⟩
  · exact depth.2 (by decide)
  · exact fun fits => absurd (depth.1 fits) (by decide)
  · exact tide.2 (by decide)
  · exact fun fits => absurd (tide.1 fits) (by decide)

end Item

end VulkanBindings
