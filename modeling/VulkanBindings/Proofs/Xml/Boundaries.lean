import VulkanBindings.Proofs.Xml.Blocks
import VulkanBindings.Proofs.Xml.Failures
import VulkanBindings.Proofs.Xml.Steps

/-! A text that comes at once is read character by character. Single characters are decoded, runs up to a
delimiter are looked for byte by byte, and delimiters are passed over as bytes; but whatever is read, what
is left begins with a character, so that no read fails for the bytes that it finds. -/

set_option autoImplicit false

namespace VulkanBindings.Xml

open Text.Utf8 (bytes stopsAt StopsInAscii)

def Error.IsLegible : Error → Prop
  | .invalidText _ | .endOfCharacter => False
  | _ => True

theorem Error.isLegible_iff {e : Error} :
    e.IsLegible ↔ (∀ fault, e ≠ .invalidText fault) ∧ e ≠ .endOfCharacter := by
  cases e <;> simp [IsLegible]

theorem Characters.readUntil_of_goesOn {stop : UInt8 → Bool} {text : List Char}
    (goesOn : ∀ c ∈ text, stopsAt stop c = false) : readUntil stop text = .error .endOfDocument := by
  have none := Input.readUntil_append text [] goesOn
  rwa [List.append_nil] at none

namespace Input

section Reads

variable {input : Input} {text : List Char} {stop : UInt8 → Bool}

theorem readUntil_of_goesOn (ascii : StopsInAscii stop) (delivers : Delivers False input text)
    (goesOn : ∀ c ∈ text, stopsAt stop c = false) : input.readUntil stop = .error .endOfDocument := by
  have reads := readUntil_torn ascii delivers
  rw [Characters.readUntil_of_goesOn goesOn] at reads
  generalize input.readUntil stop = r at reads ⊢
  cases reads with
  | error => rfl
  | torn isCut => exact isCut.elim

/-- A run either comes to the end of the document or takes what stands before the first delimiter. -/
theorem readUntil_cases (ascii : StopsInAscii stop) (delivers : Delivers False input text) :
    input.readUntil stop = .error .endOfDocument ∨ ∃ before c after later, text = before ++ c :: after ∧
      input.readUntil stop = .ok (before, c.toUInt8, later) ∧
      Delivers False later (c :: after) ∧ Delivers False later.skip after := by
  have parts := List.takeWhile_append_dropWhile (p := (!stopsAt stop ·)) (l := text)
  have goesOn : ∀ c ∈ text.takeWhile (!stopsAt stop ·), stopsAt stop c = false := fun c mem => by
    simpa using List.mem_takeWhile_imp mem
  generalize text.takeWhile (!stopsAt stop ·) = before at parts goesOn
  cases rest : text.dropWhile (!stopsAt stop ·) with
  | nil =>
    rw [rest, List.append_nil] at parts
    exact .inl (readUntil_of_goesOn ascii delivers (parts ▸ goesOn))
  | cons c after =>
    have stops : stopsAt stop c := List.find?_some
      (by rw [List.find?_eq_head?_dropWhile_not, rest]; rfl : text.find? (stopsAt stop) = some c)
    rw [rest] at parts
    subst parts
    obtain ⟨later, read, whole, skipped⟩ := readUntil_ok ascii delivers goesOn stops
    exact .inr ⟨before, c, after, later, rfl, read, whole, skipped⟩

end Reads

variable {start input : Input} {text : List Char}

/-- What is left of a text are the last of its characters, whole. -/
theorem Leaves.exists_delivers (left : Leaves start input) (delivers : Delivers False start text) :
    ∃ rest, rest <:+ text ∧ Delivers False input rest := by
  induction left with
  | start => exact ⟨text, List.suffix_refl text, delivers⟩
  | next _ read ih =>
    obtain ⟨rest, suffix, delivers⟩ := ih
    cases rest with
    | nil =>
      rw [next_nil delivers] at read
      cases read
    | cons c rest =>
      obtain ⟨later, read', delivers⟩ := next_cons delivers
      cases read.symm.trans read'
      exact ⟨rest, (List.suffix_cons ..).trans suffix, delivers⟩
  | readUntil _ ascii read ih =>
    obtain ⟨rest, suffix, delivers⟩ := ih
    obtain ends | ⟨before, c, after, later, rfl, read', whole, -⟩ := readUntil_cases ascii delivers
    · cases read.symm.trans ends
    · cases read.symm.trans read'
      exact ⟨_, (List.suffix_append ..).trans suffix, whole⟩
  | skip _ ascii read ih =>
    obtain ⟨rest, suffix, delivers⟩ := ih
    obtain ends | ⟨before, c, after, later, rfl, read', -, skipped⟩ := readUntil_cases ascii delivers
    · cases read.symm.trans ends
    · cases read.symm.trans read'
      exact ⟨after, (List.suffix_cons ..).trans ((List.suffix_append ..).trans suffix), skipped⟩

theorem unmarkedText_suffix (text : List Char) : unmarkedText text <:+ text := by
  cases text with
  | nil => exact List.suffix_refl _
  | cons c text =>
    rw [unmarkedText]
    split
    · exact List.suffix_cons c text
    · exact List.suffix_refl _

def IsIntact (input : Input) : Prop := ∃ text, Delivers False input text

/-- The scanner fails for what the text says, not for its bytes. -/
theorem legible_guarantee : Guarantee Error.IsLegible IsIntact where
  next := by
    rintro input ⟨_ | ⟨c, text⟩, delivers⟩
    · exact next_nil delivers ▸ .of_kind trivial
    · obtain ⟨later, read, -⟩ := next_cons delivers
      exact read ▸ .ok _
  readUntil := by
    rintro input stop ⟨text, delivers⟩ ascii
    obtain ends | ⟨before, c, after, later, -, read, -⟩ := readUntil_cases ascii delivers
    · exact ends ▸ .of_kind trivial
    · exact read ▸ .ok _
  kept := by
    rintro input rest ⟨text, delivers⟩ left
    obtain ⟨text', -, delivers'⟩ := left.exists_delivers delivers
    exact ⟨text', delivers'⟩
  ended := trivial
  unexpected _ _ := trivial
  closingTag _ _ := trivial

/-- The bytes that are left are those of this text. A character is read as the next one, and up to a
delimiter just what stands before the first one. -/
structure ReadsCharacters (input : Input) (text : List Char) : Prop where
  whole : input.blocks.flatten = bytes text
  next_nil : text = [] → input.next = .error .endOfDocument
  next_cons : ∀ c rest, text = c :: rest →
    ∃ later, input.next = .ok (c, later) ∧ later.blocks.flatten = bytes rest
  readUntil_end : ∀ stop, StopsInAscii stop → (∀ c ∈ text, stopsAt stop c = false) →
    input.readUntil stop = .error .endOfDocument
  readUntil_delimiter : ∀ stop, StopsInAscii stop → ∀ before c after, text = before ++ c :: after →
    (∀ d ∈ before, stopsAt stop d = false) → stopsAt stop c = true →
      ∃ later, input.readUntil stop = .ok (before, c.toUInt8, later) ∧
        later.blocks.flatten = bytes (c :: after) ∧ later.skip.blocks.flatten = bytes after

theorem Delivers.readsCharacters (delivers : Delivers False input text) : input.ReadsCharacters text where
  whole := delivers.whole
  next_nil none := Input.next_nil (none ▸ delivers)
  next_cons c rest same := by
    obtain ⟨later, read, left⟩ := Input.next_cons (same ▸ delivers)
    exact ⟨later, read, left.whole⟩
  readUntil_end stop ascii goesOn := readUntil_of_goesOn ascii delivers goesOn
  readUntil_delimiter stop ascii before c after same goesOn stops := by
    obtain ⟨later, read, left, skipped⟩ := readUntil_ok ascii (same ▸ delivers) goesOn stops
    exact ⟨later, read, left.whole, skipped.whole⟩

end Input

end VulkanBindings.Xml
