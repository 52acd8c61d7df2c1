import VulkanBindings.CommandLine

/-! The command: it performs the steps of the program on the files of the machine. -/

set_option autoImplicit false

namespace VulkanBindings

/-- What a path leads to. A folder can be opened, but not read. -/
def Entry.find (path : String) : IO (Option Entry) := do
  match ← (IO.FS.Handle.mk path .read).toBaseIO with
  | .error _ => return none
  | .ok handle =>
    match ← handle.readBinToEnd.toBaseIO with
    | .error _ => return some .folder
    | .ok bytes => return some (.file bytes.data.toList)

def Script.perform {α : Type} (level : Level) : Script α → IO α
  | .done a => return a
  | .look path next => do (next (← Entry.find path)).perform level
  | .create path next => do
    match ← (IO.FS.writeFile path "").toBaseIO with
    | .ok _ => (next true).perform level
    | .error _ => (next false).perform level
  | .write path text next => do
    IO.FS.writeFile path text
    next.perform level
  | .report record next => do
    if record.level.rank ≤ level.rank then
      IO.eprintln (record.level.name ++ " " ++ record.text)
    next.perform level

end VulkanBindings

def main (arguments : List String) : IO UInt32 := do
  match VulkanBindings.CommandLine.Arguments.parse arguments with
  | .error stop =>
    if stop = .usage then IO.eprint stop.text else IO.print stop.text
    return stop.exitCode.toUInt32
  | .ok a => return (← a.execute.perform a.level).toUInt32
