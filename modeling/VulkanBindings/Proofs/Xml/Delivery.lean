import Mathlib.Data.List.TakeWhile
import VulkanBindings.Proofs.Text.Utf8
import VulkanBindings.Xml.Input

/-! Reading a text from an input that delivers its bytes in blocks. Single characters come out the
same wherever the blocks end. A run up to a delimiter comes out the same, unless a block ends
inside one of its characters. -/

set_option autoImplicit false

namespace VulkanBindings.Xml

open Text.Utf8 (bytes bytes_cons stopsAt StopsInAscii)

theorem exists_of_bind_eq_ok {ε α β : Type} {x : Except ε α} {f : α → Except ε β} {b : β}
    (read : x >>= f = .ok b) : ∃ a, x = .ok a ∧ f a = .ok b := by
  cases x with
  | error e => cases read
  | ok a => exact ⟨a, rfl, read⟩

theorem exists_of_map_eq_ok {ε α β : Type} {x : Except ε α} {f : α → β} {b : β}
    (read : f <$> x = .ok b) : ∃ a, x = .ok a ∧ b = f a := by
  cases x with
  | error e => cases read
  | ok a =>
    cases read
    exact ⟨a, rfl, rfl⟩

/-- A result that is the same as another one, unless the end of a block has cut a character. -/
inductive Torn (cut : Prop) {α β : Type} (same : α → β → Prop) :
    Except Error α → Except Error β → Prop
  | ok {a : α} {b : β} (related : same a b) : Torn cut same (.ok a) (.ok b)
  | error (e : Error) : Torn cut same (.error e) (.error e)
  | torn (isCut : cut) (fault : Text.Utf8.Fault) (other : Except Error β) :
    Torn cut same (.error (.invalidText fault)) other

namespace Torn

variable {cut : Prop} {α β γ δ : Type} {same : α → β → Prop} {also : γ → δ → Prop}

theorem bind {x : Except Error α} {y : Except Error β} {f : α → Except Error γ}
    {g : β → Except Error δ} (first : Torn cut same x y)
    (later : ∀ a b, same a b → Torn cut also (f a) (g b)) : Torn cut also (x >>= f) (y >>= g) := by
  cases first with
  | ok related => exact later _ _ related
  | error e => exact .error e
  | torn isCut fault => exact .torn isCut fault _

theorem mono {x : Except Error α} {y : Except Error β} {weaker : α → β → Prop}
    (torn : Torn cut same x y) (implies : ∀ a b, same a b → weaker a b) : Torn cut weaker x y := by
  cases torn with
  | ok related => exact .ok (implies _ _ related)
  | error e => exact .error e
  | torn isCut fault => exact .torn isCut fault _

theorem imp {also : Prop} {x : Except Error α} {y : Except Error β} (torn : Torn cut same x y)
    (implies : cut → also) : Torn also same x y := by
  cases torn with
  | ok related => exact .ok related
  | error e => exact .error e
  | torn isCut fault => exact .torn (implies isCut) fault _

theorem refl (x : Except Error α) : Torn cut Eq x x := by
  cases x with
  | error e => exact .error e
  | ok a => exact .ok rfl

theorem andThen {x y : Except Error α} {f : α → Except Error γ} {g : α → Except Error δ}
    (first : Torn cut Eq x y) (later : ∀ a, Torn cut also (f a) (g a)) :
    Torn cut also (x >>= f) (y >>= g) :=
  first.bind fun a _ same => same ▸ later a

theorem next {x y : Except Error α} (first : Torn cut Eq x y) (f : α → Except Error γ) :
    Torn cut Eq (x >>= f) (y >>= f) :=
  first.andThen fun _ => .refl _

theorem join {ε : Type} {x : Except Error α} {y : Except Error β} {z : Except Error ε}
    {fromText : α → ε → Prop} {uncut : β → ε → Prop} (first : Torn cut fromText x z)
    (second : Torn False uncut y z) :
    Torn cut (fun a b => ∃ c, fromText a c ∧ uncut b c) x y := by
  cases first with
  | torn isCut fault => exact .torn isCut fault _
  | error e =>
    cases second with
    | error => exact .error e
    | torn isCut => exact isCut.elim
  | ok related =>
    cases second with
    | ok uncut => exact .ok ⟨_, related, uncut⟩
    | torn isCut => exact isCut.elim

theorem eq_or {x y : Except Error α} (torn : Torn cut Eq x y) :
    x = y ∨ cut ∧ ∃ fault, x = .error (.invalidText fault) := by
  cases torn with
  | ok same => exact .inl (congrArg _ same)
  | error => exact .inl rfl
  | torn isCut fault => exact .inr ⟨isCut, fault, rfl⟩

end Torn

/-! What the operations of an input are on the text that it delivers. -/

namespace Characters

def next : List Char → Except Error (Char × List Char)
  | [] => .error .endOfDocument
  | c :: text => .ok (c, text)

def readUntil (stop : UInt8 → Bool) : List Char → Except Error (List Char × Char × List Char)
  | [] => .error .endOfDocument
  | c :: text =>
    if stopsAt stop c then .ok ([], c, text)
    else do
      let (before, delimiter, after) ← readUntil stop text
      return (c :: before, delimiter, after)

def run {σ β : Type} (step : σ → Char → Except Error (σ ⊕ β)) (state : σ) :
    List Char → Except Error (β × List Char)
  | [] => .error .endOfDocument
  | c :: text => do
    match ← step state c with
    | .inl state => run step state text
    | .inr result => .ok (result, text)

end Characters

namespace Input

def IsText (block : List UInt8) : Prop := ∃ text, block = bytes text

/-- The input holds the bytes of a text. Unless `cut`, every block is a text of its own. -/
structure Delivers (cut : Prop) (input : Input) (text : List Char) : Prop where
  whole : input.blocks.flatten = bytes text
  left : input.left = (bytes text).length
  intact : ¬cut → ∀ block ∈ input.blocks, IsText block

section Take

variable {blocks : List (List UInt8)}

theorem uncons?_flatten {b : UInt8} {rest : List UInt8} (whole : blocks.flatten = b :: rest) :
    ∃ later, uncons? blocks = some (b, later) ∧ later.flatten = rest := by
  induction blocks with
  | nil => cases whole
  | cons block blocks ih =>
    cases block with
    | nil => exact ih whole
    | cons b' block =>
      cases whole
      exact ⟨block :: blocks, rfl, rfl⟩

theorem uncons?_of_flatten_nil (whole : blocks.flatten = []) : uncons? blocks = none := by
  induction blocks with
  | nil => rfl
  | cons block blocks ih =>
    obtain ⟨rfl, later⟩ := List.append_eq_nil_iff.1 whole
    exact ih later

theorem take?_flatten {taken rest : List UInt8} (whole : blocks.flatten = taken ++ rest) :
    ∃ later, take? taken.length blocks = some (taken, later) ∧ later.flatten = rest := by
  induction taken generalizing blocks with
  | nil => exact ⟨blocks, rfl, whole⟩
  | cons b taken ih =>
    obtain ⟨blocks', first, more⟩ := uncons?_flatten whole
    obtain ⟨later, taken, rest⟩ := ih more
    exact ⟨later, by simp [take?, first, taken], rest⟩

theorem take?_block (taken rest : List UInt8) (later : List (List UInt8)) :
    take? taken.length ((taken ++ rest) :: later) = some (taken, rest :: later) := by
  induction taken with
  | nil => rfl
  | cons b taken ih => simp [take?, uncons?, ih]

-- A block that is a text begins with a whole character, which is then taken from it alone.
theorem intact_of_take? {c : Char} {text : List Char} {later : List (List UInt8)}
    (whole : blocks.flatten = bytes (c :: text)) (intact : ∀ block ∈ blocks, IsText block)
    (taken : take? (String.utf8EncodeChar c).length blocks = some (String.utf8EncodeChar c, later)) :
    ∀ block ∈ later, IsText block := by
  induction blocks with
  | nil => exact absurd whole.symm Text.Utf8.bytes_ne_nil
  | cons block blocks ih =>
    obtain ⟨piece, rfl⟩ := intact _ List.mem_cons_self
    have others : ∀ block ∈ blocks, IsText block := fun _ mem => intact _ (List.mem_cons_of_mem _ mem)
    cases piece with
    | nil =>
      refine ih whole others ?_
      obtain ⟨b, tail, encoded⟩ := List.exists_cons_of_ne_nil (String.utf8EncodeChar_ne_nil (c := c))
      rw [encoded] at taken ⊢
      exact taken
    | cons c' piece =>
      obtain ⟨more, same, _⟩ := Text.Utf8.exists_of_bytes_append whole
      cases same
      rw [bytes_cons, take?_block] at taken
      cases taken
      exact List.forall_mem_cons.2 ⟨⟨piece, rfl⟩, others⟩

end Take

theorem tailLength_eq {c : Char} {lead : UInt8} {tail : List UInt8}
    (encoded : String.utf8EncodeChar c = lead :: tail) : tailLength lead = tail.length := by
  have bound := Text.Utf8.toNat_lt c
  have lengths : tailLength lead = if lead.toNat < 0x80 then 0
      else if 0xC0 ≤ lead.toNat ∧ lead.toNat < 0xE0 then 1
      else if 0xE0 ≤ lead.toNat ∧ lead.toNat < 0xF0 then 2 else 3 := by
    simp only [tailLength, UInt8.lt_iff_toNat_lt, UInt8.le_iff_toNat_le, Bool.and_eq_true,
      decide_eq_true_eq]
    rfl
  rw [Text.Utf8.utf8EncodeChar_eq] at encoded
  rw [lengths]
  grind [UInt8.toNat_ofNat']

variable {cut : Prop} {input : Input} {text : List Char}

theorem next_nil (delivers : Delivers cut input []) : input.next = .error .endOfDocument := by
  rw [next, uncons?_of_flatten_nil delivers.whole]

theorem next_cons {c : Char} (delivers : Delivers cut input (c :: text)) :
    ∃ later, input.next = .ok (c, later) ∧ Delivers cut later text := by
  obtain ⟨later, taken, rest⟩ := take?_flatten ((bytes_cons c text) ▸ delivers.whole)
  have intact (notCut : ¬cut) := intact_of_take? delivers.whole (delivers.intact notCut) taken
  obtain ⟨lead, tail, encoded⟩ := List.exists_cons_of_ne_nil (String.utf8EncodeChar_ne_nil (c := c))
  have decoded : Text.Utf8.decode (lead :: tail) = .ok [c] := by
    rw [Text.Utf8.decode_eq_ok, bytes_cons, encoded, Text.Utf8.bytes_nil, List.append_nil]
  rw [encoded] at taken
  obtain ⟨⟨_, blocks⟩, first, more⟩ := Option.bind_eq_some_iff.1 taken
  obtain ⟨⟨_, _⟩, tails, same⟩ := Option.bind_eq_some_iff.1 more
  cases same
  refine ⟨⟨later, input.left - (tail.length + 1)⟩, ?_, rest, ?_, intact⟩
  · simp only [next, first, tailLength_eq encoded, tails, decoded]
  · simp [delivers.left, bytes_cons, encoded]

theorem next_delivers (delivers : Delivers cut input text) :
    Torn False (fun r r' => r.1 = r'.1 ∧ Delivers cut r.2 r'.2) input.next (Characters.next text) := by
  cases text with
  | nil =>
    rw [next_nil delivers]
    exact .error _
  | cons c text =>
    obtain ⟨later, read, delivers⟩ := next_cons delivers
    rw [read]
    exact .ok ⟨rfl, delivers⟩

theorem skip_delivers {c : Char} (delivers : Delivers cut input (c :: text)) (ascii : c.toNat < 0x80) :
    Delivers cut input.skip text := by
  have encoded := Text.Utf8.utf8EncodeChar_ascii ascii
  have whole := delivers.whole
  rw [bytes_cons, encoded] at whole
  obtain ⟨later, first, rest⟩ := uncons?_flatten whole
  rw [skip, first]
  refine ⟨rest, ?_, fun notCut => ?_⟩
  · simp [delivers.left, bytes_cons, encoded]
  · refine intact_of_take? delivers.whole (delivers.intact notCut) ?_
    rw [encoded]
    simp [take?, first]

section Until

variable {stop : UInt8 → Bool}

theorem not_stop_of_mem {c : Char} (ascii : StopsInAscii stop) (goesOn : stopsAt stop c = false)
    {b : UInt8} (mem : b ∈ String.utf8EncodeChar c) : stop b = false := by
  by_cases small : c.toNat < 0x80
  · rw [Text.Utf8.utf8EncodeChar_ascii small, List.mem_singleton] at mem
    simpa [stopsAt, small, mem] using goesOn
  · have large := Text.Utf8.le_of_mem_utf8EncodeChar small mem
    exact Bool.eq_false_iff.2 fun stops => absurd (ascii b stops) (by omega)

theorem readUntil_append (piece more : List Char) (goesOn : ∀ c ∈ piece, stopsAt stop c = false) :
    Characters.readUntil stop (piece ++ more) = do
      let (before, delimiter, after) ← Characters.readUntil stop more
      return (piece ++ before, delimiter, after) := by
  induction piece with
  | nil => exact (bind_pure _).symm
  | cons c piece ih =>
    obtain ⟨here, later⟩ := List.forall_mem_cons.1 goesOn
    simp only [List.cons_append, Characters.readUntil, here, Bool.false_eq_true, if_false, ih later]
    cases Characters.readUntil stop more <;> rfl

theorem goesOn_of_bytes {piece : List Char} (none : ∀ b ∈ bytes piece, stop b = false) :
    ∀ c ∈ piece, stopsAt stop c = false := by
  refine fun c mem => Bool.eq_false_iff.2 fun stops => ?_
  simp only [stopsAt, Bool.and_eq_true, decide_eq_true_eq] at stops
  have byte : c.toUInt8 ∈ bytes piece :=
    List.mem_flatMap.2 ⟨c, mem, by simp [Text.Utf8.utf8EncodeChar_ascii stops.1]⟩
  exact Bool.false_ne_true ((none _ byte).symm.trans stops.2)

theorem exists_stopsAt {b : UInt8} {rest : List UInt8} {more : List Char} (ascii : StopsInAscii stop)
    (stops : stop b) (same : b :: rest = bytes more) :
    ∃ c later, more = c :: later ∧ stopsAt stop c ∧ c.toUInt8 = b := by
  cases more with
  | nil => cases same
  | cons c later =>
    obtain ⟨lead, tail, encoded⟩ := List.exists_cons_of_ne_nil (String.utf8EncodeChar_ne_nil (c := c))
    have first : b = lead := by
      rw [bytes_cons, encoded] at same
      exact (List.cons.inj same).1
    by_cases small : c.toNat < 0x80
    · rw [Text.Utf8.utf8EncodeChar_ascii small] at encoded
      cases encoded
      exact ⟨c, later, rfl, by simp [stopsAt, small, ← first, stops], first.symm⟩
    · have large := Text.Utf8.le_of_mem_utf8EncodeChar small (encoded ▸ List.mem_cons_self)
      exact absurd (first ▸ ascii b stops) (by omega)

theorem takeWhile_bytes (ascii : StopsInAscii stop) (piece : List Char) :
    (bytes piece).takeWhile (!stop ·) = bytes (piece.takeWhile (!stopsAt stop ·)) := by
  induction piece with
  | nil => rfl
  | cons c piece ih =>
    cases stops : stopsAt stop c with
    | true =>
      have ⟨small, stopsHere⟩ : c.toNat < 0x80 ∧ stop c.toUInt8 := by simpa [stopsAt] using stops
      simp [bytes_cons, Text.Utf8.utf8EncodeChar_ascii small, stopsHere, stops]
    | false =>
      have goesOn : ∀ b ∈ String.utf8EncodeChar c, (!stop b) = true := fun b mem => by
        simp [not_stop_of_mem ascii stops mem]
      rw [bytes_cons, List.takeWhile_append_of_pos goesOn, ih, List.takeWhile_cons_of_pos (by simp [stops]),
        bytes_cons]

theorem textUntil_torn (ascii : StopsInAscii stop) {blocks : List (List UInt8)}
    (whole : blocks.flatten = bytes text) (intact : ¬cut → ∀ block ∈ blocks, IsText block) :
    Torn cut (fun r r' => r.1 = r'.1 ∧ r.2.1 = r'.2.1.toUInt8 ∧ r'.2.1.toNat < 0x80 ∧
        text = r'.1 ++ r'.2.1 :: r'.2.2 ∧ r.2.2.flatten = bytes (r'.2.1 :: r'.2.2) ∧
        (¬cut → ∀ block ∈ r.2.2, IsText block))
      (textUntil stop blocks) (Characters.readUntil stop text) := by
  induction blocks generalizing text with
  | nil =>
    cases text with
    | nil => exact .error _
    | cons c text => exact absurd whole.symm Text.Utf8.bytes_ne_nil
  | cons block later ih =>
    have parts := List.takeWhile_append_dropWhile (p := (!stop ·)) (l := block)
    have before : ∀ b ∈ block.takeWhile (!stop ·), stop b = false := fun b mem => by
      simpa using List.mem_takeWhile_imp mem
    have laterIntact (notCut : ¬cut) : ∀ block ∈ later, IsText block :=
      fun b mem => intact notCut b (List.mem_cons_of_mem _ mem)
    rw [textUntil]
    -- A part of a text that is none itself was cut within a character.
    cases decoded : Text.Utf8.decode (block.takeWhile (!stop ·)) with
    | error fault =>
      refine .torn (Classical.byContradiction fun notCut => ?_) fault _
      obtain ⟨piece, rfl⟩ := intact notCut block List.mem_cons_self
      rw [takeWhile_bytes ascii, Text.Utf8.decode_eq_ok.2 rfl] at decoded
      cases decoded
    | ok piece =>
      rw [List.flatten_cons, ← parts, List.append_assoc] at whole
      rw [Text.Utf8.decode_eq_ok.1 decoded] at whole parts before
      obtain ⟨more, rfl, rest⟩ := Text.Utf8.exists_of_bytes_append whole
      rw [readUntil_append piece more (goesOn_of_bytes before)]
      -- Either the delimiter is in a later block, or it is the first byte that is left of this one.
      cases after : block.dropWhile (!stop ·) with
      | nil =>
        rw [after] at rest
        refine (ih rest laterIntact).bind ?_
        rintro ⟨_, _, blocks⟩ ⟨before, c, after⟩ ⟨rfl, same, small, rfl, flat, intact'⟩
        exact .ok ⟨rfl, same, small, (List.append_assoc ..).symm, flat, intact'⟩
      | cons b tail =>
        have stops : stop b := List.find?_some
          (by rw [List.find?_eq_head?_dropWhile_not, after]; rfl : block.find? stop = some b)
        rw [after] at rest parts
        obtain ⟨c, later', rfl, stopsHere, rfl⟩ := exists_stopsAt ascii stops rest
        rw [Characters.readUntil, if_pos stopsHere]
        have small : c.toNat < 0x80 := by simpa using (Bool.and_eq_true_iff.1 stopsHere).1
        refine .ok ⟨(List.append_nil _).symm, rfl, small, by simp, rest, fun notCut => ?_⟩
        obtain ⟨own, isText⟩ := intact notCut block List.mem_cons_self
        obtain ⟨remaining, -, isText⟩ := Text.Utf8.exists_of_bytes_append (parts.trans isText)
        exact List.forall_mem_cons.2 ⟨⟨remaining, isText⟩, laterIntact notCut⟩

/-- What is read up to a delimiter, which is a single byte of a single block. -/
structure ReadUntil (cut : Prop) (r : List Char × UInt8 × Input) (r' : List Char × Char × List Char) :
    Prop where
  before : r.1 = r'.1
  delimiter : r.2.1 = r'.2.1.toUInt8
  ascii : r'.2.1.toNat < 0x80
  delivers : Delivers cut r.2.2 (r'.2.1 :: r'.2.2)

theorem readUntil_torn (ascii : StopsInAscii stop) (delivers : Delivers cut input text) :
    Torn cut (ReadUntil cut) (input.readUntil stop) (Characters.readUntil stop text) := by
  rw [← bind_pure (Characters.readUntil stop text)]
  refine (textUntil_torn ascii delivers.whole delivers.intact).bind ?_
  rintro ⟨_, _, blocks⟩ ⟨before, c, after⟩ ⟨rfl, same, small, rfl, flat, intact⟩
  refine .ok ⟨rfl, same, small, flat, ?_, intact⟩
  simp [delivers.left, Text.Utf8.size_eq_length]

end Until

section Run

variable {σ β : Type}

theorem length_le_bytes (text : List Char) : text.length ≤ (bytes text).length := by
  induction text with
  | nil => exact Nat.zero_le _
  | cons c text ih =>
    have one := c.utf8Size_pos
    rw [bytes_cons, List.length_append, String.length_utf8EncodeChar, List.length_cons]
    omega

theorem run_delivers (step : σ → Char → Except Error (σ ⊕ β)) (state : σ)
    (delivers : Delivers cut input text) :
    Torn False (fun r r' => r.1 = r'.1 ∧ Delivers cut r.2 r'.2)
      (input.run step state) (Characters.run step state text) := by
  have enough : text.length ≤ input.left := delivers.left ▸ length_le_bytes text
  rw [run]
  generalize input.left = fuel at enough
  induction text generalizing fuel state input with
  | nil =>
    cases fuel with
    | zero => exact .error _
    | succ fuel =>
      rw [run.go, next_nil delivers]
      exact .error _
  | cons c text ih =>
    obtain ⟨fuel, rfl⟩ := Nat.exists_eq_add_of_le' enough
    obtain ⟨later, read, delivers⟩ := next_cons delivers
    rw [List.length_cons, ← Nat.add_assoc, run.go, read]
    refine (Torn.refl (step state c)).bind ?_
    rintro (state | result) _ rfl
    · exact ih state delivers (fuel + text.length) (Nat.le_add_left ..)
    · exact .ok ⟨rfl, delivers⟩

end Run

end Input

end VulkanBindings.Xml
