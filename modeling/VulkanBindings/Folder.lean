import VulkanBindings.Script
import VulkanBindings.Text.Blank
import VulkanBindings.Text.Utf8

/-! A folder as a value: the files below it by the names that lead to them. A folder below it is
there as long as a file is. -/

set_option autoImplicit false

namespace VulkanBindings

/-- The names on the way to a file or a folder. -/
abbrev Place := List String

structure Folder where
  files : List (Place × List UInt8) := []
  deriving DecidableEq, Repr

namespace Folder

def content? (f : Folder) (place : Place) : Option (List UInt8) := f.files.lookup place

def isFolder (f : Folder) (place : Place) : Bool :=
  place.isEmpty || f.files.any fun (path, _) => place.isPrefixOf path && place != path

def isName (name : String) : Bool :=
  name.utf8ByteSize ≤ 255 && name.toList.all (· != '\x00')

-- Where a path leads from `place`, none where it goes through what is no folder or out of the
-- folder.
def walk (f : Folder) (place : Place) : List String → Option Place
  | [] => some place
  | name :: rest =>
    if !f.isFolder place then none
    else if name == "" || name == "." then walk f place rest
    else if name == ".." then if place.isEmpty then none else walk f place.dropLast rest
    else if isName name then walk f (place ++ [name]) rest
    else none

/-- Where a path leads. Nothing is known of what lies outside of the folder. -/
def place? (f : Folder) (path : String) : Option Place :=
  if path.isEmpty || path.toList.head? = some '/' then none
  else f.walk [] (Text.split '/' path)

def look (f : Folder) (path : String) : Option Entry := do
  let place ← f.place? path
  if f.isFolder place then return .folder else (f.content? place).map .file

def put (f : Folder) (place : Place) (bytes : List UInt8) : Folder :=
  if (f.content? place).isSome then
    { files := f.files.map fun (path, old) => (path, if path = place then bytes else old) }
  else { files := f.files ++ [(place, bytes)] }

theorem lookup_map_set (files : List (Place × List UInt8)) (place other : Place)
    (bytes : List UInt8) :
    (files.map fun (path, old) => (path, if path = place then bytes else old)).lookup other =
      (files.lookup other).map fun old => if other = place then bytes else old := by
  induction files with
  | nil => rfl
  | cons file rest ih =>
    obtain ⟨path, old⟩ := file
    by_cases same : other = path
    · simp [same]
    · have different : (other == path) = false := beq_false_of_ne same
      simpa [List.lookup_cons, different] using ih

/-- A file that was given a content has it, and the others keep theirs. -/
theorem content?_put (f : Folder) (place other : Place) (bytes : List UInt8) :
    (f.put place bytes).content? other = if other = place then some bytes else f.content? other := by
  unfold put
  split
  · next known =>
    obtain ⟨old, found⟩ := Option.isSome_iff_exists.1 known
    rw [content?, lookup_map_set]
    by_cases same : other = place
    · subst same
      simp [content?] at found
      simp [found]
    · simp [content?, same]
  · next unknown =>
    have absent : f.files.lookup place = none := Option.not_isSome_iff_eq_none.1 unknown
    by_cases same : other = place
    · subst same
      simp [content?, List.lookup_append, absent]
    · have different : (other == place) = false := beq_false_of_ne same
      simp [content?, List.lookup_append, List.lookup_cons, different, same]

def write? (f : Folder) (path : String) (bytes : List UInt8) : Option Folder := do
  let place ← f.place? path
  if f.isFolder place then none else return f.put place bytes

def changes (before after : Folder) : List (Place × List UInt8) :=
  after.files.filter fun (place, bytes) => before.content? place != some bytes

end Folder

namespace Script

variable {α : Type}

def run : Script α → Folder → Logged (α × Folder)
  | .done a, f => pure (a, f)
  | .look path next, f => (next (f.look path)).run f
  | .create path next, f =>
    match f.write? path [] with
    | some f => (next true).run f
    | none => (next false).run f
  | .write path text next, f => next.run ((f.write? path (Text.Utf8.encode text)).getD f)
  | .report record next, f => do
    log record.level record.text
    next.run f

end Script

end VulkanBindings
