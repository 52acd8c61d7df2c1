import VulkanBindings.Config.Reader
import VulkanBindings.Generate
import VulkanBindings.Registry.Reader
import VulkanBindings.Script

/-! The program: it reads a configuration and a registry from files, and writes the three files
that it generates. They are created before the graph is built, so that after a failure there
they are empty. -/

set_option autoImplicit false

namespace VulkanBindings

inductive Failure where
  | file (path : String)
  | config
  | registry (cause : Xml.Error)
  | redefined (cause : Redefined)
  deriving DecidableEq, Repr

def Failure.message : Failure → String
  | .file path => s!"io error: `{path}` cannot be opened"
  | .config => "invalid config"
  | .registry cause => s!"failed to read registry: {cause.message}"
  | .redefined cause => cause.message

abbrev Program (α : Type) := ExceptT Failure Script α

namespace Program

variable {α : Type}

def look (path : String) : Program Entry :=
  ExceptT.mk (.look path fun
    | some entry => .done (.ok entry)
    | none => .done (.error (.file path)))

def create (path : String) : Program Unit :=
  ExceptT.mk (.create path fun made => .done (if made then .ok () else .error (.file path)))

def write (path text : String) : Program Unit :=
  ExceptT.mk (.write path text (.done (.ok ())))

def ofLogged (x : Logged α) : Program α :=
  ExceptT.lift (.ofLogged x)

end Program

/-- The path of a file in the folder that `dir` leads to. An absolute path stays. -/
def joinPath (dir file : String) : String :=
  if dir.isEmpty || file.toList.head? = some '/' then file
  else if dir.toList.getLast? = some '/' then dir ++ file
  else dir ++ "/" ++ file

def blockSize : Nat := 8192

def Config.load (path : String) : Program Config := do
  .ofLogged (log .debug s!"loading config `{path}`")
  match ← Program.look path with
  | .folder => throw .config
  | .file bytes =>
    match Text.Utf8.decode bytes with
    | .error _ => throw .config
    | .ok text =>
      match Config.ofYaml? (.ofList text) with
      | some config => return config
      | none => throw .config

def Registry.load (path api : String) : Program Registry := do
  .ofLogged (log .info s!"reading registry `{path}`")
  match ← Program.look path with
  | .folder => throw (.registry .folder)
  | .file bytes =>
    match ← .ofLogged (Registry.read (.ofInput (.ofBytes bytes (some blockSize)))) with
    | .error cause => throw (.registry cause)
    | .ok registry => return registry.forApi api

def createFile (path : String) : Program Unit := do
  .ofLogged (log .debug s!"writing `{path}`")
  .create path

def generate (config : Config) (dir : String) : Program Unit := do
  let registry ← Registry.load config.registry config.api
  createFile (joinPath dir config.goFile)
  createFile (joinPath dir config.headerFile)
  createFile (joinPath dir config.cFile)
  match ← .ofLogged (Output.ofRegistry registry config).run with
  | .error cause => throw (.redefined cause)
  | .ok output =>
    .write (joinPath dir config.goFile) output.go
    .write (joinPath dir config.headerFile) output.header
    .write (joinPath dir config.cFile) output.c

end VulkanBindings
