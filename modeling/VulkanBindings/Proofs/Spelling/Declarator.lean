import VulkanBindings.Spelling.Declarator

/-! What the layers around a declared type come to: how they are spelled, and how stars, lengths and a
size in brackets make them. -/

set_option autoImplicit false

namespace VulkanBindings

def repeated : Nat → String → String
  | 0, _ => ""
  | n + 1, text => text ++ repeated n text

theorem repeated_add (n m : Nat) (text : String) :
    repeated (n + m) text = repeated n text ++ repeated m text := by
  induction n with
  | zero => rw [Nat.zero_add, repeated, String.empty_append]
  | succ n ih => rw [Nat.add_right_comm, repeated, repeated, ih, String.append_assoc]

namespace Declarator

section Spellings

variable {view : Spelling → String} {layer : Spelling → Spelling} {mark : String}

theorem view_wrap_before (each : ∀ s, view (layer s) = mark ++ view s) (n : Nat) (s : Spelling) :
    view (wrap layer n s) = repeated n mark ++ view s := by
  induction n generalizing s with
  | zero => rw [wrap, repeated, String.empty_append]
  | succ n ih =>
    rw [wrap, ih, each, repeated_add n 1, repeated, repeated, String.append_empty, String.append_assoc]

theorem view_wrap_behind (each : ∀ s, view (layer s) = view s ++ mark) (n : Nat) (s : Spelling) :
    view (wrap layer n s) = view s ++ repeated n mark := by
  induction n generalizing s with
  | zero => rw [wrap, repeated, String.append_empty]
  | succ n ih => rw [wrap, ih, each, repeated, String.append_assoc]

end Spellings

def bracketed (size : String) : String := "[" ++ size ++ "]"

namespace Layers

/-- The size as it stands behind a type in C, and in front of it in cgo. -/
def brackets (l : Layers) : String := l.size.elim "" bracketed

theorem c_apply (l : Layers) (s : Spelling) :
    (l.apply s).c = s.c ++ repeated (l.pointers + l.slices) "*" ++ l.brackets := by
  have inner : (wrap .slice l.slices (wrap .pointer l.pointers s)).c =
      s.c ++ repeated (l.pointers + l.slices) "*" := by
    rw [view_wrap_behind (fun _ => rfl : ∀ s, (Spelling.slice s).c = s.c ++ "*"),
      view_wrap_behind (fun _ => rfl : ∀ s, (Spelling.pointer s).c = s.c ++ "*"), repeated_add,
      String.append_assoc]
  unfold apply brackets bracketed
  cases l.size with
  | none => rw [Option.elim_none, String.append_empty, inner]
  | some size => simp [Spelling.c, inner, toString, String.append_assoc]

theorem cgo_apply (l : Layers) (s : Spelling) :
    (l.apply s).cgo = l.brackets ++ repeated (l.pointers + l.slices) "*" ++ s.cgo := by
  have inner : (wrap .slice l.slices (wrap .pointer l.pointers s)).cgo =
      repeated (l.pointers + l.slices) "*" ++ s.cgo := by
    rw [view_wrap_before (fun _ => rfl : ∀ s, (Spelling.slice s).cgo = "*" ++ s.cgo),
      view_wrap_before (fun _ => rfl : ∀ s, (Spelling.pointer s).cgo = "*" ++ s.cgo), Nat.add_comm,
      repeated_add, String.append_assoc]
  unfold apply brackets bracketed
  cases l.size with
  | none => rw [Option.elim_none, String.empty_append, inner]
  | some size => simp [Spelling.cgo, inner, toString, String.append_assoc]

theorem go_apply (l : Layers) (unsized : l.size = none) (s : Spelling) :
    (l.apply s).go = repeated l.slices "[]" ++ repeated l.pointers "*" ++ s.go := by
  unfold apply
  rw [unsized, view_wrap_before (fun _ => rfl : ∀ s, (Spelling.slice s).go = "[]" ++ s.go),
    view_wrap_before (fun _ => rfl : ∀ s, (Spelling.pointer s).go = "*" ++ s.go), String.append_assoc]

end Layers

section Size

variable {accepts : List Char → Bool} {front size rest text : List Char}

theorem size?_append (unsized : '[' ∉ front) : size? accepts (front ++ text) = size? accepts text := by
  induction front with
  | nil => rfl
  | cons c front ih =>
    rw [List.mem_cons, not_or] at unsized
    rw [List.cons_append, size?, if_neg (Ne.symm unsized.1), ih unsized.2]
    rfl

theorem size?_eq_none (unsized : '[' ∉ text) : size? accepts text = none := by
  rw [← List.append_nil text, size?_append unsized, size?]

theorem arraySize?_eq_none (unsized : '[' ∉ text) : arraySize? text = none := by
  unfold arraySize?
  rw [size?_eq_none unsized, size?_eq_none unsized]
  rfl

theorem before?_append {stop : Char} (absent : stop ∉ front) :
    before? stop (front ++ stop :: rest) = some front := by
  unfold before?
  rw [if_pos (by simp), Text.takeWhile_ne_append absent]

theorem size?_brackets (closed : ']' ∉ size) (only : '[' ∉ size ++ ']' :: rest) :
    size? accepts ('[' :: (size ++ ']' :: rest)) = (some size).filter accepts := by
  rw [size?, if_pos rfl, before?_append closed, size?_eq_none only, Option.filter_some]
  cases accepts size <;> rfl

end Size

/-- A declaration with one size in brackets. -/
structure HasSize (raw : String) (size : List Char) : Prop where
  filled : size ≠ []
  closed : ']' ∉ size
  written : ∃ front rest, raw.toList = front ++ '[' :: (size ++ ']' :: rest) ∧
    '[' ∉ front ∧ '[' ∉ size ++ ']' :: rest

namespace HasSize

variable {raw : String} {size : List Char}

theorem arraySize?_eq (sized : HasSize raw size) : arraySize? raw.toList = some (untagged size) := by
  obtain ⟨front, rest, same, before, only⟩ := sized.written
  have found (accepts : List Char → Bool) : size? accepts raw.toList = (some size).filter accepts := by
    rw [same, size?_append before, size?_brackets sized.closed only]
  unfold arraySize?
  rw [found, found, Option.filter_some, Option.filter_some]
  cases isNumber size <;> simp [sized.filled]

theorem mem (sized : HasSize raw size) : '[' ∈ raw.toList := by
  obtain ⟨front, rest, same, -⟩ := sized.written
  simp [same]

end HasSize

/-- How many stars a declaration has. -/
def stars (raw : String) : Nat := raw.toList.count '*'

section Counts

variable {raw : String} {len : Option String} {size : List Char}

theorem layers_unsized (unsized : '[' ∉ raw.toList) :
    layers false len raw = ⟨stars raw - lengths len, lengths len, none⟩ := by
  simp [layers, stars, unsized, arraySize?_eq_none unsized]

/-- One of the stars is a part of `void*`. -/
theorem layers_void_unsized (unsized : '[' ∉ raw.toList) :
    layers true len raw =
      ⟨stars raw - lengths len - 1,
        if lengths len < stars raw then lengths len else lengths len - 1, none⟩ := by
  unfold layers stars
  by_cases more : lengths len < raw.toList.count '*'
  · simp [unsized, arraySize?_eq_none unsized, more]
  · simp [unsized, arraySize?_eq_none unsized, more]
    omega

/-- The size takes a star, as a list does. -/
theorem layers_sized (sized : HasSize raw size) :
    layers false none raw = ⟨stars raw - 1, 0, some (.ofList (untagged size))⟩ := by
  simp [layers, stars, lengths, sized.mem, sized.arraySize?_eq]

/-- With one star only, `void*` has it from the size, which is lost. -/
theorem layers_void_sized (sized : HasSize raw size) :
    layers true none raw =
      if 1 < stars raw then
        ⟨stars raw - 2, 0, some (.ofList (untagged size))⟩
      else ⟨0, 0, none⟩ := by
  unfold layers stars
  by_cases more : 1 < raw.toList.count '*'
  · have left : (1 : Int) < raw.toList.count '*' := by exact_mod_cast more
    simp [lengths, sized.mem, sized.arraySize?_eq, more, left]
    omega
  · have few : ¬(1 : Int) < raw.toList.count '*' := by exact_mod_cast more
    simp [lengths, sized.mem, more, few]
    omega

end Counts

section Name

variable {name raw : String}

def declaredName (name : String) : String := if name.isEmpty then "uint32_t" else name

theorem declaredName_eq (nonempty : name ≠ "") : declaredName name = name := by
  simp [declaredName, nonempty]

theorem baseName_void (pointed : 0 < stars raw) : baseName "void" raw = "void*" := by
  simpa [baseName, stars, List.count_pos_iff] using pointed

theorem baseName_of_ne (raw : String) (notVoid : name ≠ "void") :
    baseName name raw = declaredName name := by
  by_cases empty : name = ""
  · simp [baseName, declaredName, empty]
  · simp [baseName, declaredName, empty, notVoid]

theorem baseName_void_of_unpointed (unpointed : stars raw = 0) : baseName "void" raw = "void" := by
  have none : '*' ∉ raw.toList := List.count_eq_zero.1 unpointed
  simp [baseName, none]

theorem baseName_eq (raw : String) (nonempty : name ≠ "") (notVoid : name ≠ "void") :
    baseName name raw = name := by
  rw [baseName_of_ne raw notVoid, declaredName_eq nonempty]

end Name

theorem untagged_eq_self {text : List Char} (plain : '<' ∉ text) : untagged text = text := by
  unfold untagged
  induction text with
  | nil => rfl
  | cons c rest ih =>
    rw [List.mem_cons, not_or] at plain
    rw [untaggedAfter, if_neg (Ne.symm plain.1), ih plain.2]

end Declarator

end VulkanBindings
