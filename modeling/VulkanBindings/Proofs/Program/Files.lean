import Mathlib.Data.List.Infix
import VulkanBindings.Folder

/-! What is read of a folder after a file of it was written. The folders below it are the same, so
that paths lead where they led before, and only what leads to the file is read anew. -/

set_option autoImplicit false

namespace VulkanBindings.Folder

variable {f after : Folder} {place parent : Place} {name : String}

theorem isFolder_of_above {below : Place} (isFolder : f.isFolder below) (above : place <+: below) :
    f.isFolder place := by
  unfold Folder.isFolder at *
  simp only [Bool.or_eq_true, List.isEmpty_iff, List.any_eq_true, Bool.and_eq_true,
    List.isPrefixOf_iff_prefix, bne_iff_ne] at *
  rcases isFolder with rfl | ⟨file, mem, within, apart⟩
  · exact .inl (List.prefix_nil.1 above)
  · refine .inr ⟨file, mem, above.trans within, ?_⟩
    rintro rfl
    exact apart (within.eq_of_length_le above.length_le)

/-- A place that a path may lead to: a folder, or a name in one. -/
def IsPlace (f : Folder) (place : Place) : Prop :=
  f.isFolder place ∨ ∃ parent name, f.isFolder parent ∧ place = parent ++ [name]

theorem isPlace_of_walk {names : List String} {target : Place} (start : f.IsPlace place)
    (leads : f.walk place names = some target) : f.IsPlace target := by
  induction names generalizing place with
  | nil =>
    cases leads
    exact start
  | cons name rest ih =>
    unfold walk at leads
    split at leads
    · cases leads
    · next isFolder =>
      have isFolder : f.isFolder place := by simpa using isFolder
      split at leads
      · exact ih start leads
      · split at leads
        · split at leads
          · cases leads
          · exact ih (.inl (isFolder_of_above isFolder (List.dropLast_prefix place))) leads
        · split at leads
          · exact ih (.inr ⟨place, name, isFolder, rfl⟩) leads
          · cases leads

theorem isPlace_of_place? {path : String} (leads : f.place? path = some place) : f.IsPlace place := by
  unfold place? at leads
  split at leads
  · cases leads
  · exact isPlace_of_walk (.inl rfl) leads

theorem isFolder_put (isFolder : f.isFolder parent) (name : String) (bytes : List UInt8)
    (other : Place) : (f.put (parent ++ [name]) bytes).isFolder other = f.isFolder other := by
  unfold put
  split
  · unfold Folder.isFolder
    simp only [List.any_map, Function.comp_def]
  · rw [Bool.eq_iff_iff]
    constructor
    · intro more
      unfold Folder.isFolder at more
      rw [List.any_append, ← Bool.or_assoc, Bool.or_eq_true] at more
      rcases more with old | new
      · exact old
      · simp only [List.any_cons, List.any_nil, Bool.or_false, Bool.and_eq_true,
          List.isPrefixOf_iff_prefix, bne_iff_ne] at new
        refine isFolder_of_above isFolder ((List.prefix_concat_iff.1 ?_).resolve_left new.2)
        simpa using new.1
    · intro old
      unfold Folder.isFolder at old ⊢
      rw [List.any_append, ← Bool.or_assoc, old, Bool.true_or]

theorem walk_congr (same : ∀ other, after.isFolder other = f.isFolder other) (place : Place)
    (names : List String) : after.walk place names = f.walk place names := by
  induction names generalizing place with
  | nil => rfl
  | cons name rest ih =>
    unfold walk
    simp only [same, ih]

theorem place?_congr (same : ∀ other, after.isFolder other = f.isFolder other) (path : String) :
    after.place? path = f.place? path := by
  unfold place?
  rw [walk_congr same]

/-- What is known after a file was written: paths lead where they led before, and those that lead to
the file lead to its new content. -/
structure Written (f after : Folder) (path : String) (bytes : List UInt8) : Prop where
  folders : ∀ place, after.isFolder place = f.isFolder place
  places : ∀ other, after.place? other = f.place? other
  same : ∀ other, f.place? other = f.place? path → after.look other = some (.file bytes)
  others : ∀ other, f.place? other ≠ f.place? path → after.look other = f.look other

theorem written_of_write? {path : String} {bytes : List UInt8}
    (written : f.write? path bytes = some after) : Written f after path bytes := by
  obtain ⟨place, leads, written⟩ := Option.bind_eq_some_iff.1 written
  split at written
  · cases written
  next notFolder =>
    cases written
    obtain ⟨parent, name, isFolder, rfl⟩ := (isPlace_of_place? leads).resolve_left notFolder
    have folders := isFolder_put isFolder name bytes
    refine ⟨folders, place?_congr folders, fun other same => ?_, fun other apart => ?_⟩
    · unfold look
      rw [place?_congr folders, same, leads]
      simp only [Option.bind_eq_bind, Option.bind_some, folders, notFolder, content?_put]
      rfl
    · unfold look
      rw [place?_congr folders]
      cases leads' : f.place? other with
      | none => rfl
      | some place =>
        have apart : place ≠ parent ++ [name] := by
          rintro rfl
          exact apart (leads'.trans leads.symm)
        simp only [Option.bind_eq_bind, Option.bind_some, folders, content?_put, if_neg apart]

theorem Written.isSome_write? {path : String} {bytes : List UInt8}
    (written : Written f after path bytes) (other : String) (bytes' : List UInt8) :
    (after.write? other bytes').isSome = (f.write? other bytes').isSome := by
  unfold write?
  rw [written.places]
  cases f.place? other with
  | none => rfl
  | some place =>
    simp only [Option.bind_eq_bind, Option.bind_some, written.folders]
    cases f.isFolder place <;> rfl

/-- The files that some paths lead to are there and empty, and all others are as they were. -/
structure Emptied (f after : Folder) (paths : List String) : Prop where
  places : ∀ other, after.place? other = f.place? other
  empty : ∀ path ∈ paths, after.look path = some (.file [])
  others : ∀ other, (∀ path ∈ paths, f.place? other ≠ f.place? path) → after.look other = f.look other

theorem Emptied.nil (f : Folder) : Emptied f f [] := ⟨fun _ => rfl, nofun, fun _ _ => rfl⟩

theorem Emptied.append {paths : List String} {path : String} {last : Folder}
    (emptied : Emptied f after paths) (written : Written after last path []) :
    Emptied f last (paths ++ [path]) where
  places other := (written.places other).trans (emptied.places other)
  empty other mem := by
    by_cases same : after.place? other = after.place? path
    · exact written.same other same
    · rw [written.others other same]
      rcases List.mem_append.1 mem with mem | now
      · exact emptied.empty other mem
      · exact absurd (congrArg after.place? (List.mem_singleton.1 now)) same
  others other apart := by
    have apartNow := apart path (List.mem_append_right _ List.mem_cons_self)
    rw [← emptied.places, ← emptied.places] at apartNow
    rw [written.others other apartNow]
    exact emptied.others other fun earlier mem => apart earlier (List.mem_append_left _ mem)

end VulkanBindings.Folder
