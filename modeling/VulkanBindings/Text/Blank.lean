/-! White space as Unicode's property White_Space lists it, and the ways of cutting a text
that every reader here shares: trimming its ends and splitting it at a character. -/

set_option autoImplicit false

namespace VulkanBindings.Text

/-- The characters with the property White_Space. -/
def isBlank (c : Char) : Bool :=
  let n := c.toNat
  (0x09 ≤ n && n ≤ 0x0D) || n == 0x20 || n == 0x85 || n == 0xA0 || n == 0x1680 ||
    (0x2000 ≤ n && n ≤ 0x200A) || n == 0x2028 || n == 0x2029 || n == 0x202F || n == 0x205F ||
    n == 0x3000

def trimEnd (text : List Char) : List Char :=
  text.foldr (fun c rest => if rest.isEmpty && isBlank c then [] else c :: rest) []

def trimChars (text : List Char) : List Char :=
  trimEnd (text.dropWhile isBlank)

def trim (text : String) : String :=
  .ofList (trimChars text.toList)

/-- The pieces between the separators: one more than there are separators. -/
def pieces (separator : Char) (text : List Char) : List (List Char) :=
  text.foldr
    (fun c ps =>
      if c = separator then [] :: ps
      else match ps with
        | [] => [[c]]
        | p :: rest => (c :: p) :: rest)
    [[]]

theorem pieces_ne_nil (separator : Char) (text : List Char) : pieces separator text ≠ [] := by
  induction text with
  | nil => simp [pieces]
  | cons c text ih =>
    rw [pieces, List.foldr_cons]
    split
    · simp
    · split <;> simp

theorem takeWhile_ne_append {stop : Char} {front : List Char} (absent : stop ∉ front)
    (rest : List Char) : (front ++ stop :: rest).takeWhile (· ≠ stop) = front := by
  have inside : ∀ c ∈ front, decide (c ≠ stop) = true := by
    intro c mem
    exact decide_eq_true fun same => absent (same ▸ mem)
  rw [List.takeWhile_append_of_pos inside, List.takeWhile_cons_of_neg (by simp), List.append_nil]

theorem exists_pieces_cons (separator c : Char) (text : List Char) :
    ∃ piece more, pieces separator text = piece :: more ∧ pieces separator (c :: text) =
      if c = separator then [] :: piece :: more else (c :: piece) :: more := by
  obtain ⟨piece, more, cut⟩ := List.exists_cons_of_ne_nil (pieces_ne_nil separator text)
  refine ⟨piece, more, cut, ?_⟩
  unfold pieces at cut ⊢
  rw [List.foldr_cons, cut]

theorem intercalate_pieces (separator : Char) (text : List Char) :
    [separator].intercalate (pieces separator text) = text := by
  induction text with
  | nil => rfl
  | cons c text ih =>
    obtain ⟨piece, more, cut, step⟩ := exists_pieces_cons separator c text
    rw [cut] at ih
    rw [step]
    split
    · next same => simp [List.intercalate, ← ih, same]
    · cases more <;> simp [List.intercalate, ← ih]

def split (separator : Char) (text : String) : List String :=
  (pieces separator text.toList).map .ofList

/-- The entries of a comma separated list, trimmed, without the empty ones. -/
def commaList (text : String) : List String :=
  ((split ',' text).map trim).filter (!·.isEmpty)

def afterStart? : List Char → List Char → Option (List Char)
  | [], text => some text
  | _ :: _, [] => none
  | s :: start, c :: text => if s = c then afterStart? start text else none

theorem afterStart?_eq_some {start text rest : List Char} :
    afterStart? start text = some rest ↔ text = start ++ rest := by
  induction start generalizing text with
  | nil => simp [afterStart?]
  | cons s start ih =>
    cases text with
    | nil => simp [afterStart?]
    | cons c text =>
      by_cases same : s = c
      · simp [afterStart?, same, ih]
      · simp [afterStart?, same, Ne.symm same]

def beforeEnd? (ending text : List Char) : Option (List Char) :=
  (afterStart? ending.reverse text.reverse).map .reverse

theorem beforeEnd?_eq_some {ending text rest : List Char} :
    beforeEnd? ending text = some rest ↔ text = rest ++ ending := by
  simp only [beforeEnd?, Option.map_eq_some_iff, afterStart?_eq_some]
  constructor
  · rintro ⟨found, whole, rfl⟩
    simpa using congrArg List.reverse whole
  · rintro rfl
    exact ⟨rest.reverse, by simp⟩

end VulkanBindings.Text
