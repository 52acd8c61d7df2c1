import VulkanBindings.Item.Build
import VulkanBindings.Proofs.Graph.Enumerators
import VulkanBindings.Proofs.Spelling.Integer

/-! The numbers of enumerators that extensions add: they are computed within a word of 64 bits, no
two places share one, and an item reads from the graph the number that was put into it. -/

set_option autoImplicit false

namespace VulkanBindings

open Text (Word)

/-- The value that an extension gives, as it is computed in a word: none if there is a step that the
word has no room for. -/
def extensionValueIn? (w : Word) (number offset : Nat) (negative : Bool) : Option Int := do
  let step (n : Int) : Option Int := Option.guard w.holds n
  let before ← step ((← step number) - 1)
  let start ← step (1000000000 + (← step (before * 1000)))
  let value ← step (start + (← step offset))
  if negative then step (-value) else return value

section Numbers

variable {number number' offset offset' : Nat} {negative negative' : Bool}

theorem eq_of_extensionValueIn? {w : Word} {n : Int}
    (computed : extensionValueIn? w number offset negative = some n) :
    n = extensionValue number offset negative ∧ w.holds n = true := by
  simp only [extensionValueIn?, Option.bind_eq_bind, Option.bind_eq_some_iff, Option.guard_eq_some_iff]
    at computed
  obtain ⟨_, ⟨rfl, -⟩, _, ⟨rfl, -⟩, _, ⟨rfl, -⟩, _, ⟨rfl, -⟩, _, ⟨rfl, -⟩, _, ⟨rfl, holds⟩, last⟩ :=
    computed
  unfold extensionValue
  split at last
  · next isNegative =>
    rw [if_pos isNegative]
    obtain ⟨rfl, negated⟩ := Option.guard_eq_some_iff.1 last
    exact ⟨rfl, negated⟩
  · next isPositive =>
    rw [if_neg isPositive]
    cases last
    exact ⟨rfl, holds⟩

/-- A word of 64 bits has room for every step, whatever the numbers of 32 bits are. -/
theorem extensionValueIn?_int64 (numbered : number < 2 ^ 32) (placed : offset < 2 ^ 32) (negative : Bool) :
    extensionValueIn? ⟨true, 64⟩ number offset negative = some (extensionValue number offset negative) := by
  have room {n : Int} (least : -2 ^ 63 ≤ n) (greatest : n ≤ 2 ^ 63 - 1) :
      Option.guard (Word.holds ⟨true, 64⟩) n = some n :=
    Option.guard_eq_some_iff.2 ⟨rfl, Word.holds_int64.2 ⟨least, greatest⟩⟩
  cases negative
  all_goals
    simp (disch := omega) only [extensionValueIn?, extensionValue, Option.bind_eq_bind, Option.bind_some,
      Option.pure_def, room, Bool.false_eq_true, if_false, if_true]

theorem extensionValue_pos (number offset : Nat) : 0 < extensionValue number offset false := by
  simp only [extensionValue, Bool.false_eq_true, if_false]
  omega

theorem extensionValue_negative (number offset : Nat) :
    extensionValue number offset true = -extensionValue number offset false := by
  simp [extensionValue]

theorem extensionValue_lt (before : number < number') (inRange : offset < 1000) :
    extensionValue number offset false < extensionValue number' offset' false := by
  simp only [extensionValue, Bool.false_eq_true, if_false]
  omega

theorem magnitude_inj (inRange : offset < 1000) (inRange' : offset' < 1000)
    (same : extensionValue number offset false = extensionValue number' offset' false) :
    number = number' ∧ offset = offset' := by
  have sameNumber : number = number' := by
    by_contra other
    obtain before | after := Nat.lt_or_gt_of_ne other
    · exact (extensionValue_lt before inRange).ne same
    · exact (extensionValue_lt after inRange').ne' same
  subst sameNumber
  simp only [extensionValue, Bool.false_eq_true, if_false] at same
  exact ⟨rfl, by omega⟩

theorem extensionValue_inj (inRange : offset < 1000) (inRange' : offset' < 1000) :
    extensionValue number offset negative = extensionValue number' offset' negative' ↔
      number = number' ∧ offset = offset' ∧ negative = negative' := by
  have positive := extensionValue_pos number offset
  have positive' := extensionValue_pos number' offset'
  constructor
  · intro same
    cases negative <;> cases negative'
    · exact and_assoc.1 ⟨magnitude_inj inRange inRange' same, rfl⟩
    · rw [extensionValue_negative] at same
      omega
    · rw [extensionValue_negative] at same
      omega
    · rw [extensionValue_negative, extensionValue_negative, Int.neg_inj] at same
      exact and_assoc.1 ⟨magnitude_inj inRange inRange' same, rfl⟩
  · rintro ⟨rfl, rfl, rfl⟩
    rfl

theorem Constant.value?_toString {n : Int} (holds : Word.holds ⟨true, 64⟩ n = true) :
    value? (toString n) = some n := by
  have inside := Word.holds_int64.1 holds
  exact (isInteger_toString n).value?_eq (by omega)

end Numbers

theorem Requirement.exists_extensionValue {q : Requirement} {isBitmask : Bool} {v : EnumValue}
    (computed : q.isComputed isBitmask) (has : q.value? isBitmask = some v) :
    ∃ number offset, q.enum.extNumber.or q.number = some number ∧ q.enum.offset = some offset ∧
      (number < 2 ^ 32 → offset < 2 ^ 32 →
        Item.valueOf? v = some (extensionValue number offset (q.enum.dir = some "-"))) := by
  rw [value?, if_pos computed] at has
  obtain ⟨n, written, rfl⟩ := Option.map_eq_some_iff.1 has
  simp only [computed?, Option.bind_eq_bind, Option.bind_eq_some_iff] at written
  obtain ⟨number, numbered, offset, placed, same⟩ := written
  cases same
  refine ⟨number, offset, numbered, placed, fun fits fits' => ?_⟩
  have noAlias : q.enum.element.aliasOf = none := by
    simp only [isComputed, Bool.and_eq_true, Option.isNone_iff_eq_none] at computed
    exact computed.1.2
  have inside := (eq_of_extensionValueIn? (extensionValueIn?_int64 fits fits' (q.enum.dir = some "-"))).2
  simp only [Item.valueOf?, noAlias]
  exact Constant.value?_toString inside

namespace Graph

/-- The values of a node after applications: those that it had, and what is required of its blocks. -/
theorem mem_enumValues_applyAll {r : Registry} {enabled : List String} {g : Graph}
    (accepted : (build r enabled).run.value = .ok g) {applications : List Application} {id : NodeId}
    {v : EnumValue} (mem : v ∈ (g.applyAll applications).value.enumValues id) :
    v ∈ g.enumValues id ∨ ∃ application ∈ applications, ∃ q ∈ g.requirements application,
      ∃ block ∈ g.blocksOf id, g.block? q = some block ∧ q.value? (g.isBitmask block) = some v := by
  have h := wellFormed_of_build accepted
  have gains := h.gainsValues (Additions.applyAll g applications)
  rw [enumValues_eq_flatMap] at mem ⊢
  obtain ⟨block, owned, listed⟩ := List.mem_flatMap.1 mem
  rw [gains.blocksOf] at owned
  have isBlock := (mem_parentsOfKind.1 owned).2
  rw [h.valuesIn_applyAll applications isBlock] at listed
  obtain old | new := List.mem_append.1 listed
  · exact .inl (List.mem_flatMap.2 ⟨block, owned, old⟩)
  · obtain ⟨application, applied, q, required, offered⟩ :=
      mem_offersTo.1 (EnumValue.mem_of_mem_firsts new)
    exact .inr ⟨application, applied, q, required, block, owned, offered⟩

end Graph

/-- Numbers of 32 bits are enough for a value in 64 bits at every step. Places below a thousand share no
value, whichever the sign. Integers of 64 bits are read as they are written, so that an item has the
number that an application has put into the graph. -/
theorem computed_values :
    (∀ number offset negative, number < 2 ^ 32 → offset < 2 ^ 32 →
      extensionValueIn? ⟨true, 64⟩ number offset negative = some (extensionValue number offset negative)) ∧
    (∀ number number' offset offset' negative negative', offset < 1000 → offset' < 1000 →
      (extensionValue number offset negative = extensionValue number' offset' negative' ↔
        number = number' ∧ offset = offset' ∧ negative = negative')) ∧
    (∀ n, Word.holds ⟨true, 64⟩ n = true → Constant.value? (toString n) = some n) ∧
    ∀ (r : Registry) (enabled : List String) (g : Graph), (Graph.build r enabled).run.value = .ok g →
      ∀ applications id, ∀ v ∈ (g.applyAll applications).value.enumValues id, v ∉ g.enumValues id →
        ∃ application ∈ applications, ∃ q ∈ g.requirements application, ∃ block ∈ g.blocksOf id,
          g.block? q = some block ∧ q.value? (g.isBitmask block) = some v ∧
          (q.isComputed (g.isBitmask block) →
            ∃ number offset, q.enum.extNumber.or q.number = some number ∧ q.enum.offset = some offset ∧
              (number < 2 ^ 32 → offset < 2 ^ 32 →
                Item.valueOf? v = some (extensionValue number offset (q.enum.dir = some "-")))) := by
  refine ⟨fun number offset negative fits fits' => extensionValueIn?_int64 fits fits' negative,
    fun _ _ _ _ _ _ inRange inRange' => extensionValue_inj inRange inRange',
    fun n holds => Constant.value?_toString holds, ?_⟩
  intro r enabled g accepted applications id v mem new
  obtain ⟨application, applied, q, required, block, owned, target, has⟩ :=
    (Graph.mem_enumValues_applyAll accepted mem).resolve_left new
  exact ⟨application, applied, q, required, block, owned, target, has,
    fun computed => Requirement.exists_extensionValue computed has⟩

/-- The value of the first place of the seventh extension, which is the only one that is added. -/
theorem turnBack_computed :
    (Graph.build Graph.turnRegistry []).run.value = .ok Graph.turnGraph ∧
      { name := "VK_TURN_BACK", value := some "1000006001" } ∈
        (Graph.turnGraph.applyAll [.extension "VK_KHR_turn_back"]).value.enumValues 1 ∧
      Item.valueOf? { name := "VK_TURN_BACK", value := some "1000006001" } =
        some (extensionValue 7 1 false) := by
  have accepted : (Graph.build Graph.turnRegistry []).run.value = .ok Graph.turnGraph := rfl
  have added : { name := "VK_TURN_BACK", value := some "1000006001" } ∈
      (Graph.turnGraph.applyAll [.extension "VK_KHR_turn_back"]).value.enumValues 1 := by decide +kernel
  have new : { name := "VK_TURN_BACK", value := some "1000006001" } ∉ Graph.turnGraph.enumValues 1 := by
    decide +kernel
  have required : Graph.turnGraph.requirements (.extension "VK_KHR_turn_back") = [
      ⟨{ element := { name := "VK_TURN_BACK" }, extends? := some "VkTurn", offset := some 1 }, some 7⟩,
      ⟨{ element := { name := "VK_TURN_LEFT", value := some "0" }, extends? := some "VkTurn" }, some 7⟩] := by
    decide +kernel
  have only : Graph.turnGraph.blocksOf 1 = [5] := by decide +kernel
  obtain ⟨-, -, -, run⟩ := computed_values
  obtain ⟨_, applied, q, listed, block, owned, -, has, read⟩ := run _ _ _ accepted _ _ _ added new
  cases List.mem_singleton.1 applied
  rw [required] at listed
  rw [only] at owned
  cases List.mem_singleton.1 owned
  obtain rfl | rfl : q = _ ∨ q = _ := by simpa using listed
  · obtain ⟨number, offset, numbered, placed, value⟩ := read (by decide +kernel)
    cases numbered
    cases placed
    exact ⟨accepted, added, value (by decide) (by decide)⟩
  · exact absurd (Requirement.name_of_value? has) (by decide)

end VulkanBindings
