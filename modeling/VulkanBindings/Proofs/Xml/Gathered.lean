import VulkanBindings.Proofs.Xml.Delivery

/-! Reading bytes that need not be a text, in blocks and from one block. Single characters and the
faults in them come out the same. A run up to a delimiter comes out the same too, unless the part of
it that lies in one block is no text. -/

set_option autoImplicit false

namespace VulkanBindings.Xml.Input

open Text.Utf8 (bytes)

/-- The second input delivers at once what the first one delivers in blocks. -/
structure Gathered (a b : Input) : Prop where
  whole : b.blocks = [a.blocks.flatten]
  left : a.left = b.left

section Take

variable {blocks : List (List UInt8)}

theorem take?_of_flatten_short {n : Nat} (short : blocks.flatten.length < n) : take? n blocks = none := by
  induction n generalizing blocks with
  | zero => exact absurd short (Nat.not_lt_zero _)
  | succ n ih =>
    rw [take?]
    cases filled : blocks.flatten with
    | nil => rw [uncons?_of_flatten_nil filled]; rfl
    | cons b rest =>
      obtain ⟨later, first, more⟩ := uncons?_flatten filled
      rw [filled, List.length_cons] at short
      rw [first]
      exact congrArg (Option.bind · _) (ih (more ▸ Nat.lt_of_succ_lt_succ short))

theorem take?_gathered (n : Nat) (blocks : List (List UInt8)) :
    (take? n blocks = none ∧ take? n [blocks.flatten] = none) ∨
      ∃ taken later, taken.length = n ∧ take? n blocks = some (taken, later) ∧
        take? n [blocks.flatten] = some (taken, [later.flatten]) := by
  by_cases enough : n ≤ blocks.flatten.length
  · have parts := List.take_append_drop n blocks.flatten
    have length := List.length_take_of_le enough
    obtain ⟨later, taken, rest⟩ := take?_flatten parts.symm
    have single := take?_block (blocks.flatten.take n) (blocks.flatten.drop n) []
    rw [length, parts] at single
    rw [length] at taken
    exact .inr ⟨_, later, length, taken, rest ▸ single⟩
  · have short := Nat.lt_of_not_le enough
    exact .inl ⟨take?_of_flatten_short short, take?_of_flatten_short (by simpa using short)⟩

end Take

variable {a b : Input}

theorem next_gathered (gathered : Gathered a b) :
    Torn False (fun r r' => r.1 = r'.1 ∧ Gathered r.2 r'.2) a.next b.next := by
  obtain ⟨blocks, left⟩ := a
  obtain ⟨_, _⟩ := b
  obtain ⟨rfl, rfl⟩ := gathered
  cases filled : blocks.flatten with
  | nil =>
    have none : uncons? [[]] = none := rfl
    simp only [next, uncons?_of_flatten_nil filled, none]
    exact .error _
  | cons lead rest =>
    obtain ⟨later, first, rfl⟩ := uncons?_flatten filled
    have single : uncons? [lead :: later.flatten] = some (lead, [later.flatten]) := rfl
    simp only [next, first, single]
    obtain ⟨none, none'⟩ | ⟨tail, last, -, some, some'⟩ := take?_gathered (tailLength lead) later
    · rw [none, none']
      exact .error _
    · rw [some, some']
      dsimp only
      cases Text.Utf8.decode (lead :: tail) with
      | error fault => exact .error _
      | ok text =>
        cases text with
        | nil => exact .error _
        | cons c text => exact .ok ⟨rfl, rfl, rfl⟩

theorem skip_gathered (gathered : Gathered a b) : Gathered a.skip b.skip := by
  obtain ⟨blocks, left⟩ := a
  obtain ⟨_, _⟩ := b
  obtain ⟨rfl, rfl⟩ := gathered
  cases filled : blocks.flatten with
  | nil =>
    have none : uncons? [[]] = none := rfl
    simp only [skip, uncons?_of_flatten_nil filled, none]
    exact ⟨congrArg ([·]) filled.symm, rfl⟩
  | cons lead rest =>
    obtain ⟨later, first, rfl⟩ := uncons?_flatten filled
    have single : uncons? [lead :: later.flatten] = some (lead, [later.flatten]) := rfl
    simp only [skip, first, single]
    exact ⟨rfl, rfl⟩

section Until

variable {stop : UInt8 → Bool}

theorem textUntil_singleton (stop : UInt8 → Bool) (block : List UInt8) : textUntil stop [block] =
    match Text.Utf8.decode (block.takeWhile (!stop ·)), block.dropWhile (!stop ·) with
    | .error fault, _ => .error (.invalidText fault)
    | .ok text, b :: rest => .ok (text, b, [b :: rest])
    | .ok _, [] => .error .endOfDocument := by
  rw [textUntil]
  cases Text.Utf8.decode (block.takeWhile (!stop ·)) with
  | error fault => rfl
  | ok text => cases block.dropWhile (!stop ·) <;> rfl

theorem textUntil_gathered (stop : UInt8 → Bool) (blocks : List (List UInt8)) :
    Torn True (fun r r' => r.1 = r'.1 ∧ r.2.1 = r'.2.1 ∧ r'.2.2 = [r.2.2.flatten])
      (textUntil stop blocks) (textUntil stop [blocks.flatten]) := by
  induction blocks with
  | nil => exact .error _
  | cons block later ih =>
    have parts := List.takeWhile_append_dropWhile (p := (!stop ·)) (l := block)
    rw [textUntil]
    cases decoded : Text.Utf8.decode (block.takeWhile (!stop ·)) with
    | error fault => exact .torn trivial fault _
    | ok piece =>
      cases after : block.dropWhile (!stop ·) with
      | cons b rest =>
        -- The delimiter is in this block, and the text before it is all that is decoded.
        have stops : ¬(!stop b) = true := by
          have := List.head?_dropWhile_not (!stop ·) block
          rw [after] at this
          simpa using this
        have goesOn : ∀ c ∈ block.takeWhile (!stop ·), (!stop c) = true :=
          fun c mem => List.mem_takeWhile_imp (p := (!stop ·)) mem
        rw [textUntil_singleton, List.flatten_cons, ← parts, after, List.append_assoc,
          List.takeWhile_append_of_pos goesOn, List.dropWhile_append_of_pos goesOn, List.cons_append,
          List.takeWhile_cons_of_neg (p := (!stop ·)) stops,
          List.dropWhile_cons_of_neg (p := (!stop ·)) stops, List.append_nil, decoded]
        exact .ok ⟨rfl, rfl, rfl⟩
      | nil =>
        -- The whole block is before the delimiter.
        rw [after, List.append_nil] at parts
        have goesOn : ∀ c ∈ block, (!stop c) = true :=
          fun c mem => List.mem_takeWhile_imp (p := (!stop ·)) (parts.symm ▸ mem)
        rw [parts, Text.Utf8.decode_eq_ok] at decoded
        rw [textUntil_singleton, List.flatten_cons, List.takeWhile_append_of_pos goesOn,
          List.dropWhile_append_of_pos goesOn]
        rw [textUntil_singleton] at ih
        generalize textUntil stop later = read at ih ⊢
        cases more : Text.Utf8.decode (later.flatten.takeWhile (!stop ·)) with
        | error fault =>
          rw [more] at ih
          cases ih with
          | error => exact .torn trivial fault _
          | torn isCut fault => exact .torn isCut fault _
        | ok text =>
          have joined : Text.Utf8.decode (block ++ later.flatten.takeWhile (!stop ·)) =
              .ok (piece ++ text) := by
            rw [Text.Utf8.decode_eq_ok, Text.Utf8.bytes_append, decoded, Text.Utf8.decode_eq_ok.1 more]
          rw [more] at ih
          rw [joined]
          generalize later.flatten.dropWhile (!stop ·) = after at ih ⊢
          cases after with
          | nil =>
            cases ih with
            | error => exact .error _
            | torn isCut fault => exact .torn isCut fault _
          | cons b rest =>
            cases ih with
            | @ok read _ related =>
              obtain ⟨_, _, blocks⟩ := read
              obtain ⟨rfl, rfl, whole⟩ := related
              exact .ok ⟨rfl, rfl, whole⟩
            | torn isCut fault => exact .torn isCut fault _

/-- The same text before the same delimiter, from which on both can go on. -/
theorem readUntil_gathered (stop : UInt8 → Bool) (gathered : Gathered a b) :
    Torn True (fun r r' => r.1 = r'.1 ∧ r.2.1 = r'.2.1 ∧ Gathered r.2.2 r'.2.2)
      (a.readUntil stop) (b.readUntil stop) := by
  obtain ⟨blocks, left⟩ := a
  obtain ⟨_, _⟩ := b
  obtain ⟨rfl, rfl⟩ := gathered
  refine (textUntil_gathered stop blocks).bind ?_
  rintro ⟨text, b, rest⟩ ⟨_, _, rest'⟩ ⟨rfl, rfl, whole⟩
  exact .ok ⟨rfl, rfl, whole, rfl⟩

end Until

end VulkanBindings.Xml.Input
