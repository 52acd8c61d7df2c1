import VulkanBindings.Log

/-! What the program does to files, as a tree of steps: each asks something of the files and
goes on with the answer. The steps mean the same wherever they are run. -/

set_option autoImplicit false

namespace VulkanBindings

inductive Entry where
  | file (bytes : List UInt8)
  | folder
  deriving DecidableEq, Repr

inductive Script (α : Type) where
  | done (value : α)
  | look (path : String) (next : Option Entry → Script α)
  /-- Makes a new file or empties the one that is there; the answer is whether that was done. -/
  | create (path : String) (next : Bool → Script α)
  | write (path text : String) (next : Script α)
  | report (record : Record) (next : Script α)

namespace Script

variable {α β : Type}

def bind : Script α → (α → Script β) → Script β
  | .done a, f => f a
  | .look path next, f => .look path fun entry => (next entry).bind f
  | .create path next, f => .create path fun made => (next made).bind f
  | .write path text next, f => .write path text (next.bind f)
  | .report record next, f => .report record (next.bind f)

instance : Monad Script where
  pure := .done
  bind := bind

theorem bind_done (s : Script α) : s.bind .done = s := by
  induction s with
  | done _ => rfl
  | look path next ih => exact congrArg (Script.look path) (funext ih)
  | create path next ih => exact congrArg (Script.create path) (funext ih)
  | write path text next ih => exact congrArg (Script.write path text) ih
  | report record next ih => exact congrArg (Script.report record) ih

theorem bind_bind {γ : Type} (s : Script α) (f : α → Script β) (g : β → Script γ) :
    (s.bind f).bind g = s.bind fun a => (f a).bind g := by
  induction s with
  | done _ => rfl
  | look path next ih => exact congrArg (Script.look path) (funext ih)
  | create path next ih => exact congrArg (Script.create path) (funext ih)
  | write path text next ih => exact congrArg (Script.write path text) ih
  | report record next ih => exact congrArg (Script.report record) ih

instance : LawfulMonad Script := .mk' Script bind_done (fun _ _ => rfl) bind_bind

def ofLogged (x : Logged α) : Script α :=
  x.records.foldr .report (.done x.value)

end Script

end VulkanBindings
