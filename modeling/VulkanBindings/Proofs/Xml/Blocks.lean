import VulkanBindings.Proofs.Xml.Gathered

/-! What a document delivers at its start, as one block and in blocks of one size. The ends of
blocks are harmless where no character lies across them. -/

set_option autoImplicit false

namespace VulkanBindings.Xml

open Text.Utf8 (bytes bytes_cons)

/-- A character of the text lies across the byte at `offset`. -/
def Across (offset : Nat) (text : List Char) : Prop :=
  ∃ before c after, text = before ++ c :: after ∧
    (bytes before).length < offset ∧ offset < (bytes before).length + c.utf8Size

/-- A character of the text is cut when its bytes are delivered in blocks of `size`. -/
def CutBy (size : Nat) (text : List Char) : Prop := ∃ k, Across (k * size) text

theorem Across.append {offset : Nat} {text : List Char} (piece : List Char)
    (across : Across offset text) : Across ((bytes piece).length + offset) (piece ++ text) := by
  obtain ⟨before, c, after, rfl, starts, ends⟩ := across
  refine ⟨piece ++ before, c, after, by simp, ?_, ?_⟩
  · rw [Text.Utf8.bytes_append, List.length_append]
    omega
  · rw [Text.Utf8.bytes_append, List.length_append]
    omega

theorem exists_append_of_not_across {offset : Nat} {text : List Char} (clear : ¬Across offset text) :
    ∃ piece more, text = piece ++ more ∧ (bytes text).take offset = bytes piece ∧
      (bytes text).drop offset = bytes more := by
  induction text generalizing offset with
  | nil => exact ⟨[], [], rfl, List.take_nil, List.drop_nil⟩
  | cons c text ih =>
    have size := String.length_utf8EncodeChar c
    by_cases whole : c.utf8Size ≤ offset
    · have later : ¬Across (offset - c.utf8Size) text := fun across => clear <| by
        have := across.append [c]
        rwa [bytes_cons, List.length_append, size, Text.Utf8.bytes_nil, List.length_nil, Nat.add_zero,
          Nat.add_sub_cancel' whole] at this
      obtain ⟨piece, more, rfl, taken, dropped⟩ := ih later
      refine ⟨c :: piece, more, rfl, ?_, ?_⟩
      · rw [bytes_cons, List.take_append, size, taken, List.take_of_length_le (size ▸ whole), bytes_cons]
      · rw [bytes_cons, List.drop_append, size, dropped, List.drop_of_length_le (size ▸ whole)]
        rfl
    · obtain rfl | some := Nat.eq_zero_or_pos offset
      · exact ⟨[], c :: text, rfl, rfl, rfl⟩
      · exact absurd ⟨[], c, text, rfl, some, by simpa using whole⟩ clear

namespace Input

theorem flatten_cut (size n : Nat) (bs : List UInt8) : (cut size n bs).flatten = bs := by
  induction n generalizing bs with
  | zero => cases bs <;> simp [cut]
  | succ n ih => cases bs <;> simp [cut, ih]

theorem isText_of_mem_cut {size n : Nat} {text : List Char} (clear : ¬CutBy size text)
    {block : List UInt8} (mem : block ∈ cut size n (bytes text)) : IsText block := by
  induction n generalizing text with
  | zero =>
    cases filled : bytes text with
    | nil => rw [filled] at mem; cases mem
    | cons b rest =>
      rw [filled, cut, List.mem_singleton, ← filled] at mem
      · exact ⟨text, mem⟩
      · exact List.cons_ne_nil b rest
  | succ n ih =>
    obtain ⟨piece, more, whole, taken, dropped⟩ :=
      exists_append_of_not_across fun across => clear ⟨1, by simpa using across⟩
    cases filled : bytes text with
    | nil => rw [filled] at mem; cases mem
    | cons b rest =>
      rw [filled, cut, ← filled, taken, dropped] at mem
      · obtain rfl | mem := List.mem_cons.1 mem
        · exact ⟨piece, rfl⟩
        · refine ih (fun ⟨k, across⟩ => clear ⟨k + 1, ?_⟩) mem
          -- Something is left, so the first block is a full one.
          have full : (bytes piece).length = size := by
            have lengths := congrArg List.length taken
            rw [List.length_take] at lengths
            obtain ⟨before, c, after, rfl, -⟩ := across
            have left : 0 < (bytes (c :: after)).length := List.length_pos_iff.2 Text.Utf8.bytes_ne_nil
            have := congrArg List.length dropped
            simp only [List.length_drop, Text.Utf8.bytes_append, List.length_append] at this
            omega
          have := across.append piece
          rwa [full, ← whole, Nat.add_comm, ← Nat.succ_mul] at this
      · exact List.cons_ne_nil b rest

def unmarkedText : List Char → List Char
  | [] => []
  | c :: text => if c = '\uFEFF' then text else c :: text

theorem unmarkedText_eq_self {text : List Char} (plain : text.head? ≠ some '\uFEFF') :
    unmarkedText text = text := by
  cases text with
  | nil => rfl
  | cons c text => exact if_neg fun mark => plain (congrArg some mark)

theorem bytes_mark : bytes ['\uFEFF'] = byteOrderMark := by decide

theorem ofBlocks_delivers {cut : Prop} {block : List UInt8} {later : List (List UInt8)}
    {text : List Char} (whole : (block :: later).flatten = bytes text)
    (long : 3 ≤ block.length ∨ later = []) (intact : ¬cut → ∀ b ∈ block :: later, IsText b) :
    Delivers cut (.ofBlocks (block :: later)) (unmarkedText text) := by
  have laterIntact (notCut : ¬cut) : ∀ b ∈ later, IsText b :=
    fun b mem => intact notCut b (List.mem_cons_of_mem _ mem)
  rw [List.flatten_cons] at whole
  by_cases marked : byteOrderMark.isPrefixOf block
  · obtain ⟨rest, rfl⟩ := List.isPrefixOf_iff_prefix.1 marked
    rw [← bytes_mark, List.append_assoc] at whole
    obtain ⟨more, rfl, after⟩ := Text.Utf8.exists_of_bytes_append whole
    have blocks : unmarked ((byteOrderMark ++ rest) :: later) = rest :: later := by
      rw [unmarked, if_pos marked]
      rfl
    rw [ofBlocks, blocks]
    refine ⟨after, congrArg _ after, fun notCut => List.forall_mem_cons.2 ⟨?_, laterIntact notCut⟩⟩
    obtain ⟨own, isText⟩ := intact notCut _ List.mem_cons_self
    obtain ⟨remaining, -, isText⟩ := Text.Utf8.exists_of_bytes_append (bytes_mark ▸ isText)
    exact ⟨remaining, isText⟩
  · have blocks : unmarked (block :: later) = block :: later := by
      rw [unmarked, if_neg marked]
    have same : unmarkedText text = text := by
      refine unmarkedText_eq_self fun mark => marked (List.isPrefixOf_iff_prefix.2 ?_)
      obtain ⟨text, rfl⟩ := List.head?_eq_some_iff.1 mark
      have start : byteOrderMark <+: block ++ later.flatten := by
        rw [whole, ← List.singleton_append, Text.Utf8.bytes_append, bytes_mark]
        exact List.prefix_append ..
      -- The mark could be cut only if the first block were shorter than it.
      obtain long | rfl := long
      · exact List.prefix_of_prefix_length_le start (List.prefix_append ..) long
      · simpa using start
    rw [ofBlocks, blocks, same]
    exact ⟨whole, congrArg _ whole, intact⟩

theorem ofBytes_delivers (text : List Char) :
    Delivers False (.ofBytes (bytes text) none) (unmarkedText text) :=
  ofBlocks_delivers (List.append_nil _) (.inr rfl) fun _ _ mem => ⟨text, List.mem_singleton.1 mem⟩

-- Only the last block may be shorter.
theorem long_of_cut {size : Nat} {bs block : List UInt8} {later : List (List UInt8)}
    (blocks : cut size bs.length bs = block :: later) : size ≤ block.length ∨ later = [] := by
  cases bs with
  | nil => cases blocks
  | cons b rest =>
    rw [List.length_cons, cut] at blocks
    · cases blocks
      by_cases full : size ≤ (b :: rest).length
      · exact .inl (List.length_take_of_le full).ge
      · rw [List.drop_of_length_le (Nat.le_of_not_le full)]
        cases rest <;> exact .inr rfl
    · exact List.cons_ne_nil b rest

theorem ofBytes_delivers_of_size {size : Nat} (text : List Char) (large : 4 ≤ size) :
    Delivers (CutBy size text) (.ofBytes (bytes text) (some size)) (unmarkedText text) := by
  have flat := flatten_cut size (bytes text).length (bytes text)
  have intact (clear : ¬CutBy size text) :
      ∀ block ∈ cut size (bytes text).length (bytes text), IsText block :=
    fun _ => isText_of_mem_cut clear
  unfold ofBytes
  dsimp only
  cases blocks : cut size (bytes text).length (bytes text) with
  | nil =>
    rw [blocks] at flat
    cases text with
    | nil => exact ⟨rfl, rfl, fun _ _ => nofun⟩
    | cons c text => exact absurd flat.symm Text.Utf8.bytes_ne_nil
  | cons block later =>
    rw [blocks] at flat intact
    exact ofBlocks_delivers flat ((long_of_cut blocks).imp_left (Nat.le_trans (by omega))) intact

/-- The mark is found in the first block if it is there at all. -/
theorem flatten_unmarked {block : List UInt8} {later : List (List UInt8)}
    (long : 3 ≤ block.length ∨ later = []) :
    unmarked [(block :: later).flatten] = [(unmarked (block :: later)).flatten] := by
  obtain long | rfl := long
  · rw [unmarked, unmarked, List.flatten_cons, List.flatten_cons]
    by_cases marked : byteOrderMark.isPrefixOf block
    · have start := (List.isPrefixOf_iff_prefix.1 marked).trans (List.prefix_append block later.flatten)
      rw [if_pos marked, if_pos (List.isPrefixOf_iff_prefix.2 start), List.drop_append_of_le_length long]
    · have none : ¬byteOrderMark.isPrefixOf (block ++ later.flatten) := fun start =>
        marked <| List.isPrefixOf_iff_prefix.2 <| List.prefix_of_prefix_length_le
          (List.isPrefixOf_iff_prefix.1 start) (List.prefix_append ..) long
      rw [if_neg marked, if_neg none]
  · simp [unmarked]

theorem ofBytes_gathered {size : Nat} (bs : List UInt8) (large : 4 ≤ size) :
    Gathered (.ofBytes bs (some size)) (.ofBytes bs none) := by
  have flat := flatten_cut size bs.length bs
  unfold ofBytes ofBlocks
  dsimp only
  cases blocks : cut size bs.length bs with
  | nil =>
    rw [blocks] at flat
    subst flat
    exact ⟨rfl, rfl⟩
  | cons block later =>
    have whole := flatten_unmarked ((long_of_cut blocks).imp_left (Nat.le_trans (by omega)))
    rw [← blocks, flat, blocks] at whole
    exact ⟨whole, by rw [whole, List.flatten_singleton]⟩

end Input

end VulkanBindings.Xml
