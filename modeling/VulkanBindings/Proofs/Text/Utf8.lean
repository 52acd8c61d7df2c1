import VulkanBindings.Text.Utf8

/-! Decoding accepts exactly the bytes of texts, and gives the text. The bytes of one text never
continue into those of another, so that a document can be read character by character. -/

set_option autoImplicit false

namespace VulkanBindings.Text.Utf8

def bytes (text : List Char) : List UInt8 := text.flatMap String.utf8EncodeChar

@[simp] theorem bytes_nil : bytes [] = [] := rfl

theorem bytes_cons (c : Char) (text : List Char) :
    bytes (c :: text) = String.utf8EncodeChar c ++ bytes text := List.flatMap_cons

@[simp] theorem bytes_append (text more : List Char) : bytes (text ++ more) = bytes text ++ bytes more :=
  List.flatMap_append

theorem encode_eq_bytes (text : String) : encode text = bytes text.toList := by
  unfold encode bytes
  rw [← String.utf8Encode_toList]
  simp [List.utf8Encode]

section Bytes

variable (b lead : UInt8)

theorem isTail_iff : isTail b ↔ 0x80 ≤ b.toNat ∧ b.toNat ≤ 0xBF := by
  simp [isTail, UInt8.le_iff_toNat_le]

theorem isSecond_iff : isSecond lead b ↔ 0x80 ≤ b.toNat ∧ b.toNat ≤ 0xBF ∧
    (lead.toNat = 0xE0 → 0xA0 ≤ b.toNat) ∧ (lead.toNat = 0xED → b.toNat ≤ 0x9F) ∧
    (lead.toNat = 0xF0 → 0x90 ≤ b.toNat) ∧ (lead.toNat = 0xF4 → b.toNat ≤ 0x8F) := by
  unfold isSecond
  simp only [← UInt8.toNat_inj, UInt8.le_iff_toNat_le, isTail]
  grind

theorem width?_eq : width? lead =
    if lead.toNat < 0x80 then some 1
    else if 0xC2 ≤ lead.toNat ∧ lead.toNat ≤ 0xDF then some 2
    else if 0xE0 ≤ lead.toNat ∧ lead.toNat ≤ 0xEF then some 3
    else if 0xF0 ≤ lead.toNat ∧ lead.toNat ≤ 0xF4 then some 4
    else none := by
  unfold width?
  simp only [UInt8.lt_iff_toNat_lt, UInt8.le_iff_toNat_le, Bool.and_eq_true, decide_eq_true_eq]
  rfl

end Bytes

theorem utf8Size_eq (c : Char) : c.utf8Size =
    if c.toNat ≤ 0x7F then 1 else if c.toNat ≤ 0x7FF then 2 else if c.toNat ≤ 0xFFFF then 3 else 4 := by
  unfold Char.utf8Size
  simp only [UInt32.le_iff_toNat_le]
  rfl

theorem toNat_lt (c : Char) : c.toNat < 0xD800 ∨ 0xDFFF < c.toNat ∧ c.toNat < 0x110000 := c.valid

section Widths

variable {index : Nat} {lead b c d : UInt8} {rest : List UInt8}

theorem decodeAt_one (width : width? lead = some 1) :
    decodeAt index (lead :: rest) = (.ofNat lead.toNat :: ·) <$> decodeAt (index + 1) rest := by
  rw [decodeAt.eq_def]
  simp only [width]
  exact bind_pure_comp _ _

theorem decodeAt_two (width : width? lead = some 2) (second : isTail b) :
    decodeAt index (lead :: b :: rest) =
      (assemble (lead.toNat % 32) [b] :: ·) <$> decodeAt (index + 2) rest := by
  rw [decodeAt.eq_def]
  simp only [width]
  rw [if_pos second]
  exact bind_pure_comp _ _

theorem decodeAt_three (width : width? lead = some 3) (second : isSecond lead b) (third : isTail c) :
    decodeAt index (lead :: b :: c :: rest) =
      (assemble (lead.toNat % 16) [b, c] :: ·) <$> decodeAt (index + 3) rest := by
  rw [decodeAt.eq_def]
  simp only [width]
  rw [if_pos second, if_pos third]
  exact bind_pure_comp _ _

theorem decodeAt_four (width : width? lead = some 4) (second : isSecond lead b) (third : isTail c)
    (fourth : isTail d) :
    decodeAt index (lead :: b :: c :: d :: rest) =
      (assemble (lead.toNat % 8) [b, c, d] :: ·) <$> decodeAt (index + 4) rest := by
  rw [decodeAt.eq_def]
  simp only [width]
  rw [if_pos second, if_pos third, if_pos fourth]
  exact bind_pure_comp _ _

end Widths

theorem utf8EncodeChar_eq (c : Char) : String.utf8EncodeChar c =
    if c.toNat ≤ 0x7F then [.ofNat c.toNat]
    else if c.toNat ≤ 0x7FF then [.ofNat (c.toNat / 64 % 32 + 192), .ofNat (c.toNat % 64 + 128)]
    else if c.toNat ≤ 0xFFFF then
      [.ofNat (c.toNat / 4096 % 16 + 224), .ofNat (c.toNat / 64 % 64 + 128),
        .ofNat (c.toNat % 64 + 128)]
    else
      [.ofNat (c.toNat / 262144 % 8 + 240), .ofNat (c.toNat / 4096 % 64 + 128),
        .ofNat (c.toNat / 64 % 64 + 128), .ofNat (c.toNat % 64 + 128)] := rfl

theorem decodeAt_char (index : Nat) (c : Char) (rest : List UInt8) :
    decodeAt index (String.utf8EncodeChar c ++ rest) =
      (c :: ·) <$> decodeAt (index + c.utf8Size) rest := by
  have bound := toNat_lt c
  have whole {n : Nat} (same : n = c.toNat) : Char.ofNat n = c := same ▸ Char.ofNat_toNat c
  rw [utf8EncodeChar_eq, utf8Size_eq]
  by_cases one : c.toNat ≤ 0x7F
  · rw [if_pos one, if_pos one, List.cons_append, List.nil_append, decodeAt_one, UInt8.toNat_ofNat',
      whole]
    · omega
    · rw [width?_eq, UInt8.toNat_ofNat', if_pos]
      omega
  by_cases two : c.toNat ≤ 0x7FF
  · rw [if_neg one, if_neg one, if_pos two, if_pos two, List.cons_append, List.cons_append,
      List.nil_append, decodeAt_two, assemble, whole]
    · simp only [List.foldl_cons, List.foldl_nil, UInt8.toNat_ofNat']
      omega
    · rw [width?_eq, UInt8.toNat_ofNat', if_neg, if_pos] <;> omega
    · rw [isTail_iff, UInt8.toNat_ofNat']
      omega
  by_cases three : c.toNat ≤ 0xFFFF
  · rw [if_neg one, if_neg one, if_neg two, if_neg two, if_pos three, if_pos three, List.cons_append,
      List.cons_append, List.cons_append, List.nil_append, decodeAt_three, assemble, whole]
    · simp only [List.foldl_cons, List.foldl_nil, UInt8.toNat_ofNat']
      omega
    · rw [width?_eq, UInt8.toNat_ofNat', if_neg, if_neg, if_pos] <;> omega
    · rw [isSecond_iff, UInt8.toNat_ofNat', UInt8.toNat_ofNat']
      omega
    · rw [isTail_iff, UInt8.toNat_ofNat']
      omega
  · rw [if_neg one, if_neg one, if_neg two, if_neg two, if_neg three, if_neg three, List.cons_append,
      List.cons_append, List.cons_append, List.cons_append, List.nil_append, decodeAt_four, assemble,
      whole]
    · simp only [List.foldl_cons, List.foldl_nil, UInt8.toNat_ofNat']
      omega
    · rw [width?_eq, UInt8.toNat_ofNat', if_neg, if_neg, if_neg, if_pos] <;> omega
    · rw [isSecond_iff, UInt8.toNat_ofNat', UInt8.toNat_ofNat']
      omega
    · rw [isTail_iff, UInt8.toNat_ofNat']
      omega
    · rw [isTail_iff, UInt8.toNat_ofNat']
      omega

section Characters

variable {lead b c d : UInt8}

theorem toNat_ofNat {n : Nat} (valid : n < 0xD800 ∨ 0xDFFF < n ∧ n < 0x110000) :
    (Char.ofNat n).toNat = n := by
  have isChar : n.isValidChar := valid
  unfold Char.ofNat
  rw [dif_pos isChar]
  rfl

theorem exists_char_one (width : width? lead = some 1) : ∃ char, String.utf8EncodeChar char = [lead] := by
  rw [width?_eq] at width
  refine ⟨.ofNat lead.toNat, ?_⟩
  rw [utf8EncodeChar_eq, toNat_ofNat (by grind), if_pos (by grind), UInt8.ofNat_toNat]

theorem exists_char_two (width : width? lead = some 2) (second : isTail b) :
    ∃ char, String.utf8EncodeChar char = [lead, b] := by
  rw [width?_eq] at width
  rw [isTail_iff] at second
  have range : 0xC2 ≤ lead.toNat ∧ lead.toNat ≤ 0xDF := by grind
  refine ⟨.ofNat (lead.toNat % 32 * 64 + b.toNat % 64), ?_⟩
  rw [utf8EncodeChar_eq, toNat_ofNat (by omega), if_neg (by omega), if_pos (by omega)]
  simp only [List.cons.injEq, ← UInt8.toNat_inj, UInt8.toNat_ofNat', and_true]
  omega

theorem exists_char_three (width : width? lead = some 3) (second : isSecond lead b)
    (third : isTail c) : ∃ char, String.utf8EncodeChar char = [lead, b, c] := by
  rw [width?_eq] at width
  rw [isSecond_iff] at second
  rw [isTail_iff] at third
  have range : 0xE0 ≤ lead.toNat ∧ lead.toNat ≤ 0xEF := by grind
  refine ⟨.ofNat ((lead.toNat % 16 * 64 + b.toNat % 64) * 64 + c.toNat % 64), ?_⟩
  rw [utf8EncodeChar_eq, toNat_ofNat (by omega), if_neg (by omega), if_neg (by omega),
    if_pos (by omega)]
  simp only [List.cons.injEq, ← UInt8.toNat_inj, UInt8.toNat_ofNat', and_true]
  omega

theorem exists_char_four (width : width? lead = some 4) (second : isSecond lead b)
    (third : isTail c) (fourth : isTail d) :
    ∃ char, String.utf8EncodeChar char = [lead, b, c, d] := by
  rw [width?_eq] at width
  rw [isSecond_iff] at second
  rw [isTail_iff] at third fourth
  have range : 0xF0 ≤ lead.toNat ∧ lead.toNat ≤ 0xF4 := by grind
  refine ⟨.ofNat (((lead.toNat % 8 * 64 + b.toNat % 64) * 64 + c.toNat % 64) * 64 + d.toNat % 64), ?_⟩
  rw [utf8EncodeChar_eq, toNat_ofNat (by omega), if_neg (by omega), if_neg (by omega),
    if_neg (by omega)]
  simp only [List.cons.injEq, ← UInt8.toNat_inj, UInt8.toNat_ofNat', and_true]
  omega

theorem exists_char_of_decodeAt {index : Nat} {rest : List UInt8} {text : List Char}
    (ok : decodeAt index (lead :: rest) = .ok text) :
    ∃ char more, lead :: rest = String.utf8EncodeChar char ++ more := by
  rw [decodeAt.eq_def] at ok
  dsimp only at ok
  split at ok
  · cases ok
  · next width =>
    obtain ⟨char, encoded⟩ := exists_char_one width
    exact ⟨char, rest, by rw [encoded]; rfl⟩
  · next width =>
    split at ok
    · cases ok
    · next b more =>
      split at ok
      · next second =>
        obtain ⟨char, encoded⟩ := exists_char_two width second
        exact ⟨char, more, by rw [encoded]; rfl⟩
      · cases ok
  · next width =>
    -- Decoding looks at the tails one by one and fails at the first that is missing.
    obtain _ | ⟨b, _ | ⟨c, more⟩⟩ := rest
    · cases ok
    · dsimp only at ok
      split at ok <;> cases ok
    · dsimp only at ok
      split at ok
      · next second =>
        split at ok
        · next third =>
          obtain ⟨char, encoded⟩ := exists_char_three width second third
          exact ⟨char, more, by rw [encoded]; rfl⟩
        · cases ok
      · cases ok
  · next n notOne notTwo notThree width =>
    have width : width? lead = some 4 := by
      rw [width?_eq] at width ⊢
      grind
    obtain _ | ⟨b, _ | ⟨c, _ | ⟨d, more⟩⟩⟩ := rest
    · cases ok
    · dsimp only at ok
      split at ok <;> cases ok
    · dsimp only at ok
      split at ok
      · split at ok <;> cases ok
      · cases ok
    · dsimp only at ok
      split at ok
      · next second =>
        split at ok
        · next third =>
          split at ok
          · next fourth =>
            obtain ⟨char, encoded⟩ := exists_char_four width second third fourth
            exact ⟨char, more, by rw [encoded]; rfl⟩
          · cases ok
        · cases ok
      · cases ok

end Characters

theorem bytes_ne_nil {c : Char} {text : List Char} : bytes (c :: text) ≠ [] := by
  rw [bytes_cons]
  exact List.append_ne_nil_of_left_ne_nil String.utf8EncodeChar_ne_nil _

theorem decodeAt_bytes (index : Nat) (text : List Char) (rest : List UInt8) :
    decodeAt index (bytes text ++ rest) = (text ++ ·) <$> decodeAt (index + size text) rest := by
  induction text generalizing index with
  | nil => exact (id_map _).symm
  | cons c text ih =>
    rw [bytes_cons, List.append_assoc, decodeAt_char, ih]
    simp [size, Nat.add_assoc]

/-- Decoding accepts the bytes of texts and nothing else. -/
theorem decodeAt_eq_ok {index : Nat} {bs : List UInt8} {text : List Char} :
    decodeAt index bs = .ok text ↔ bs = bytes text := by
  constructor
  · intro ok
    induction text generalizing index bs with
    | nil =>
      cases bs with
      | nil => rfl
      | cons lead rest =>
        obtain ⟨c, more, whole⟩ := exists_char_of_decodeAt ok
        rw [whole, decodeAt_char] at ok
        cases decoded : decodeAt (index + c.utf8Size) more <;> rw [decoded] at ok <;> cases ok
    | cons c text ih =>
      cases bs with
      | nil => cases ok
      | cons lead rest =>
        obtain ⟨c', more, whole⟩ := exists_char_of_decodeAt ok
        rw [whole, decodeAt_char] at ok
        cases decoded : decodeAt (index + c'.utf8Size) more with
        | error fault => rw [decoded] at ok; cases ok
        | ok text' =>
          rw [decoded] at ok
          cases ok
          rw [whole, bytes_cons, ih decoded]
  · rintro rfl
    have whole := decodeAt_bytes index text []
    rw [List.append_nil] at whole
    rw [whole]
    exact congrArg Except.ok (List.append_nil text)

theorem decode_eq_ok {bs : List UInt8} {text : List Char} : decode bs = .ok text ↔ bs = bytes text :=
  decodeAt_eq_ok

theorem size_eq_length (text : List Char) : size text = (bytes text).length := by
  induction text with
  | nil => rfl
  | cons c text ih =>
    rw [bytes_cons, List.length_append, ← ih, String.length_utf8EncodeChar]
    rfl

/-- A text ends where a character does, so what comes after it in a longer text is a text too. -/
theorem exists_of_bytes_append {text whole : List Char} {rest : List UInt8}
    (same : bytes text ++ rest = bytes whole) : ∃ more, whole = text ++ more ∧ rest = bytes more := by
  have decoded := decode_eq_ok.2 same
  rw [decode, decodeAt_bytes] at decoded
  cases later : decodeAt (0 + size text) rest with
  | error fault => rw [later] at decoded; cases decoded
  | ok more =>
    rw [later] at decoded
    cases decoded
    exact ⟨more, rfl, decodeAt_eq_ok.1 later⟩

section Ascii

variable {c : Char}

theorem utf8EncodeChar_ascii (ascii : c.toNat < 0x80) : String.utf8EncodeChar c = [c.toUInt8] := by
  rw [utf8EncodeChar_eq, if_pos (Nat.le_of_lt_succ ascii)]
  rfl

-- The bytes of all other characters are apart from those of ASCII.
theorem le_of_mem_utf8EncodeChar (other : ¬c.toNat < 0x80) {b : UInt8}
    (mem : b ∈ String.utf8EncodeChar c) : 0x80 ≤ b.toNat := by
  have bound := toNat_lt c
  rw [utf8EncodeChar_eq] at mem
  grind [UInt8.toNat_ofNat']

def stopsAt (stop : UInt8 → Bool) (c : Char) : Bool := c.toNat < 0x80 && stop c.toUInt8

def StopsInAscii (stop : UInt8 → Bool) : Prop := ∀ b, stop b → b.toNat < 0x80

end Ascii

end VulkanBindings.Text.Utf8
