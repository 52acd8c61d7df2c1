import VulkanBindings.Program

/-! The command line: options with a long name and most with a short one, and nothing else.
Short options can be written together, and the value of the last of them can follow at once. -/

set_option autoImplicit false

namespace VulkanBindings.CommandLine

inductive Switch where
  | config
  | registry
  | output
  | package
  | api
  | feature
  | extension
  | dir
  | verbose
  | quiet
  | help
  | version
  deriving DecidableEq, Repr

namespace Switch

def all : List Switch :=
  [config, registry, output, package, api, feature, extension, dir, verbose, quiet, help, version]

def longName : Switch → String
  | config => "config"
  | registry => "registry"
  | output => "output"
  | package => "package"
  | api => "api"
  | feature => "feature"
  | extension => "extension"
  | dir => "dir"
  | verbose => "verbose"
  | quiet => "quiet"
  | help => "help"
  | version => "version"

def shortName : Switch → Option Char
  | config => 'c'
  | registry => 'r'
  | output => 'o'
  | package => 'p'
  | api => none
  | feature => 'f'
  | extension => 'e'
  | dir => 'd'
  | verbose => 'v'
  | quiet => 'q'
  | help => 'h'
  | version => 'V'

def takesValue : Switch → Bool
  | verbose | quiet | help | version => false
  | _ => true

def describe : Switch → String
  | config => "YAML configuration, the defaults are used if absent"
  | registry => "Path of the registry"
  | output => "File stem of the generated files"
  | package => "Go package name"
  | api => "API whose elements are kept"
  | feature => "Feature to enable, replaces the configured features"
  | extension => "Extension to enable, replaces the configured extensions"
  | dir => "Directory the files are written to"
  | verbose => "More output, may be repeated"
  | quiet => "Only log errors"
  | help => "Print help"
  | version => "Print version"

end Switch

structure Arguments where
  config : Option String := none
  registry : Option String := none
  output : Option String := none
  package : Option String := none
  api : Option String := none
  features : List String := []
  extensions : List String := []
  dir : Option String := none
  verbosity : Nat := 0
  quiet : Bool := false
  deriving DecidableEq, Repr

inductive Stop where
  | usage
  | help
  | version
  deriving DecidableEq, Repr

namespace Arguments

def once (old : Option String) (value : String) : Except Stop (Option String) :=
  if old.isSome then .error .usage else .ok value

/-- A path, which is not empty and may be given once. -/
def path (old : Option String) (value : String) : Except Stop (Option String) :=
  if value.isEmpty then .error .usage else once old value

def set (a : Arguments) (value : String) : Switch → Except Stop Arguments
  | .config => return { a with config := ← path a.config value }
  | .registry => return { a with registry := ← path a.registry value }
  | .output => return { a with output := ← once a.output value }
  | .package => return { a with package := ← once a.package value }
  | .api => return { a with api := ← once a.api value }
  | .feature => .ok { a with features := a.features ++ [value] }
  | .extension => .ok { a with extensions := a.extensions ++ [value] }
  | .dir => return { a with dir := ← path a.dir value }
  | _ => .error .usage

def turnOn (a : Arguments) : Switch → Except Stop Arguments
  | .verbose => .ok { a with verbosity := a.verbosity + 1 }
  | .quiet => if a.quiet then .error .usage else .ok { a with quiet := true }
  | .help => .error .help
  | .version => .error .version
  | _ => .error .usage

structure Progress where
  found : Arguments := {}
  awaited : Option Switch := none
  /-- Two dashes stood alone: no option follows. -/
  closed : Bool := false
  deriving DecidableEq, Repr

-- Reads short options that are written together. A value can follow at once, also after an
-- equals sign.
def cluster (a : Arguments) : List Char → Except Stop Progress
  | [] => .ok { found := a }
  | c :: rest =>
    match Switch.all.find? (·.shortName = some c) with
    | none => .error .usage
    | some option =>
      if option.takesValue then
        match rest with
        | [] => .ok { found := a, awaited := option }
        | '=' :: value => return { found := ← a.set (.ofList value) option }
        | value => return { found := ← a.set (.ofList value) option }
      else do cluster (← a.turnOn option) rest

def long (a : Arguments) (text : List Char) : Except Stop Progress :=
  match Switch.all.find? (·.longName.toList = text.takeWhile (· != '=')) with
  | none => .error .usage
  | some option =>
    match text.dropWhile (· != '=') with
    | _ :: value => return { found := ← a.set (.ofList value) option }
    | [] =>
      if option.takesValue then .ok { found := a, awaited := option }
      else return { found := ← a.turnOn option }

def step (p : Progress) (argument : String) : Except Stop Progress :=
  if p.closed then .error .usage
  else match argument.toList with
    | ['-', '-'] => .ok { p with closed := true }
    | '-' :: '-' :: name => if p.awaited.isSome then .error .usage else p.found.long name
    | '-' :: c :: rest => if p.awaited.isSome then .error .usage else p.found.cluster (c :: rest)
    | _ =>
      match p.awaited with
      | some option => return { found := ← p.found.set argument option }
      | none => .error .usage

/-- Reads all arguments; none may lack its value. -/
def parse (arguments : List String) : Except Stop Arguments := do
  let p ← arguments.foldlM step {}
  if p.awaited.isSome then .error .usage else return p.found

def level (a : Arguments) : Level :=
  if a.quiet then .error
  else match a.verbosity with
    | 0 => .info
    | 1 => .debug
    | _ => .trace

/-- A configuration in which what the options say stands for what it had. -/
def configure (a : Arguments) (c : Config) : Config :=
  { c with
    registry := a.registry.getD c.registry
    outputName := a.output.getD c.outputName
    packageName := a.package.getD c.packageName
    api := a.api.getD c.api
    features := if a.features.isEmpty then c.features else a.features
    extensions := if a.extensions.isEmpty then c.extensions else a.extensions }

def run (a : Arguments) : Program Unit := do
  let config ← match a.config with
    | some path => Config.load path
    | none => pure {}
  generate (a.configure config) (a.dir.getD ".")

end Arguments

def Switch.helpLine (option : Switch) : String :=
  let short := match option.shortName with
    | some c => "-" ++ String.singleton c ++ ", "
    | none => "    "
  let value := if option.takesValue then " <" ++ option.longName.toUpper ++ ">" else ""
  "  " ++ short ++ "--" ++ option.longName ++ value ++ "\n          " ++ option.describe ++ "\n"

def Stop.text : Stop → String
  | .usage => "error: the arguments are not understood\n\nFor more information, try --help.\n"
  | .help =>
    "Generates a Go (cgo) wrapper and dynamic-loading C glue from the Vulkan registry\n\n" ++
      "Options:\n" ++ String.join (Switch.all.map Switch.helpLine)
  | .version => "0.1.0\n"

def Stop.exitCode : Stop → Nat
  | .usage => 2
  | .help | .version => 0

def exitCode : Except Failure Unit → Nat
  | .ok () => 0
  | .error _ => 1

def Arguments.execute (a : Arguments) : Script Nat := do
  let result ← ExceptT.run a.run
  match result with
  | .ok () => pure ()
  | .error failure => Script.ofLogged (log .error failure.message)
  return exitCode result

def execute (arguments : List String) : Script Nat :=
  match Arguments.parse arguments with
  | .error stop => return stop.exitCode
  | .ok a => a.execute

end VulkanBindings.CommandLine
