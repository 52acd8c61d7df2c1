import VulkanBindings.Config.Basic
import VulkanBindings.Emit.Header
import VulkanBindings.Log

/-! The Go module: the declarations of all items, and for handles with a facade the commands as
its methods. -/

set_option autoImplicit false

namespace VulkanBindings.Go

structure Module where
  config : Config
  facades : List String

def Module.page (m : Module) (name : String) : String := m.config.docUrl ++ name ++ ".html"

def Module.hasFacade (m : Module) (name : Spelling) : Bool := m.facades.contains name.c

def opening (config : Config) : String :=
  lines [
    s!"package {config.packageName}",
    "",
    "//#cgo LDFLAGS: -lvulkan",
    "//#include <stdlib.h>",
    "//#include <string.h>",
    s!"//#include \"{config.headerFile}\"",
    "import \"C\"",
    "import (",
    "\t\"bytes\"",
    "\t\"fmt\"",
    "\t\"unsafe\"",
    ")",
    "",
    "// Init loads the Vulkan library and the global commands.",
    "func Init() Result \x7b",
    "\tret := C.vksDynamicLoad()",
    "\tptr := (*Result)(&ret)",
    "\treturn *ptr",
    "\x7d",
    "",
    "// Destroy unloads the Vulkan library.",
    "func Destroy() \x7b",
    "\tC.vksDynamicUnload()",
    "\x7d",
    "",
    "// NewCString copies s to the C heap, the copy must be released with FreeCString.",
    "func NewCString(s string) *byte \x7b",
    "\tb := nullTerminatedBuffer(s).Bytes()",
    "\tptr := C.malloc(C.ulong(len(b)))",
    "\tC.memcpy(ptr, unsafe.Pointer(&b[0]), C.ulong(len(b)))",
    "\treturn (*byte)(ptr)",
    "\x7d",
    "",
    "// FreeCString releases a string allocated by NewCString.",
    "func FreeCString(ptr *byte) \x7b",
    "\tif ptr != nil \x7b",
    "\t\tC.free(unsafe.Pointer(ptr))",
    "\t\x7d",
    "\x7d",
    "",
    ""]

def closing : String :=
  lines [
    "",
    "func newCBlock(sz C.ulong) unsafe.Pointer \x7b",
    "\tptr := C.malloc(sz)",
    "\tC.memset(ptr, 0, sz)",
    "\treturn ptr",
    "\x7d",
    "",
    "func nullTerminatedBuffer(s string) *bytes.Buffer \x7b",
    "\tvar str bytes.Buffer",
    "\tvar isNullTerminated bool",
    "\tfor _, c := range ([]byte)(s) \x7b",
    "\t\tif c == 0 \x7b",
    "\t\t\tisNullTerminated = true",
    "\t\t\x7d",
    "\t\tstr.WriteByte(c)",
    "\t\tif isNullTerminated \x7b",
    "\t\t\tbreak",
    "\t\t\x7d",
    "\t\x7d",
    "\tif !isNullTerminated \x7b",
    "\t\tstr.WriteByte(0)",
    "\t\x7d",
    "\treturn &str",
    "\x7d",
    ""]

def constants (entries : List (Spelling × Spelling)) : String :=
  lines (["// These are API constants.", "const ("] ++
    entries.map (fun (name, value) => s!"\t{name.go} = {value.go}") ++ [")"])

def headerVersion (m : Module) (item : VersionItem) : String :=
  let name := item.headerVersion.go
  lines [
    s!"// {name} is the version of the Vulkan headers this module was generated from.",
    s!"// {m.page item.headerVersion.c}",
    s!"const {name} = {item.value}"]

def completeVersion : String := "VK_HEADER_VERSION_COMPLETE"

def padded (name : String) : String :=
  name ++ .ofList (List.replicate (completeVersion.length - name.length) ' ')

def version (m : Module) (item : VersionItem) : String :=
  let name := item.name.go
  let header := item.headerVersion.go
  let page := m.page "VK_MAKE_API_VERSION"
  lines ([
    s!"// {name} is a packed Vulkan API version, see",
    s!"// {page}",
    s!"type {name} uint32",
    "",
    s!"// Make{name} packs a variant, major, minor and patch version.",
    s!"func Make{name}(v, j, n, p int) {name} \x7b",
    s!"\treturn {name}((uint32(v) << 29) | (uint32(j) << 22) | (uint32(n) << 12) | (uint32(p)))",
    "\x7d",
    "",
    s!"func (v {name}) Major() uint32   \x7b return uint32((v >> 22) & 0x7F) \x7d",
    s!"func (v {name}) Minor() uint32   \x7b return uint32((v >> 12) & 0x3FF) \x7d",
    s!"func (v {name}) Patch() uint32   \x7b return uint32(v & 0xFFF) \x7d",
    s!"func (v {name}) Variant() uint32 \x7b return uint32(v >> 29) \x7d",
    s!"func (v {name}) String() string \x7b",
    "\treturn fmt.Sprintf(\"%d[v.%d.%d.%d.%d]\", v, v.Variant(), v.Major(), v.Minor(), v.Patch())",
    "\x7d",
    "",
    "var ("] ++
    item.apiVersions.map (fun (version, args) =>
      s!"\t{padded version} {name} = Make{name}({args})") ++
    [s!"\t{completeVersion} {name} = Make{name}({item.value}, {header})",
    ")"])

def plainType (m : Module) (kind : String) (name : Spelling) (type : String) : String :=
  lines [
    s!"// {name.go} {kind}",
    s!"// {m.page name.c}",
    s!"type {name.go} {type}"]

-- How the facade of a handle is made: from a loader of its own, from the one of its parent, or
-- not at all.
def makeFacade (m : Module) (name : Spelling) (parent : Option Spelling) : List String :=
  let go := name.go
  let facade := name.goFacade
  let receiver := parent.elim "" fun p => s!"(parent {p.goFacade}) "
  let opened := s!"func {receiver}Make{facade}(x {go}) {facade} \x7b"
  let made (table : String) := [
    s!"\treturn {facade}\x7b",
    "\t\tH:     x,",
    s!"\t\tprocs: {table},",
    "\t\x7d",
    "\x7d"]
  match m.config.procLoader? name.c, parent with
  | some loader, none => [
    "",
    s!"// Make{facade} loads the proc addresses of x into a new facade.",
    opened,
    "\tvar addrs C.vksProcAddr",
    s!"\tC.{loader}({name.cgo}(x), &addrs)"] ++ made "&addrs"
  | some loader, some _ => [
    "",
    s!"// Make{facade} loads the proc addresses of x through the addresses of the parent facade.",
    opened,
    "\tvar addrs C.vksProcAddr",
    s!"\tC.{loader}({name.cgo}(x), &addrs, parent.procs)"] ++ made "&addrs"
  | none, some _ => [
    "",
    s!"// Make{facade} creates a facade sharing the proc addresses of the parent facade.",
    opened] ++ made "parent.procs"
  | none, none => []

def facadeType (name : Spelling) : List String :=
  let facade := name.goFacade
  [
    "",
    s!"// {facade} is a {name.go} handle with the proc addresses of its commands, which",
    "// are its methods.",
    "//",
    "// Use the H field to get the handle back.",
    s!"type {facade} struct \x7b",
    s!"\tH     {name.go} // The vulkan Handle",
    "\tprocs *C.vksProcAddr // The addresses for commands.",
    "\x7d"]

def handle (m : Module) (name : Spelling) (parent : Option Spelling) : String :=
  let go := name.go
  let via := parent.elim "" fun p => p.goFacade ++ "."
  lines (
    [s!"// {go} is a Handle to a vulkan resource."] ++
    (parent.map fun p => s!"// {go} is a child of {p.go}.").toList ++
    (if m.hasFacade name then [
      "//",
      s!"// Use {via}Make{name.goFacade} to create a facade around this object to invoke methods."]
     else []) ++
    ["//",
      s!"// {m.page name.c}",
      s!"type {go} {name.cgo}",
      "",
      s!"// Null{go} is a typed Null value for the {go} type.",
      s!"var Null{go} {go}"] ++
    (if m.hasFacade name then makeFacade m name parent ++ facadeType name else []))

/-- A facade that nothing can create. -/
def handleReport (m : Module) (name : Spelling) (parent : Option Spelling) : List Record :=
  if m.hasFacade name && parent.isNone && (m.config.procLoader? name.c).isNone then
    [⟨.warn, s!"`{name.c}` has neither a parent nor a proc loader, its facade cannot be created"⟩]
  else []

def enumeration (m : Module) (item : EnumItem) : String :=
  let name := item.name.go
  lines (
    [s!"// {name} enum/enums", s!"// {m.page item.name.c}", s!"type {name} {item.type.go}"] ++
    (if item.entries.isEmpty then [] else
      ["", "const ("] ++
      item.entries.map (fun e => s!"\t{e.name.go} {name} = {e.value.go}") ++
      [")",
        "",
        "var (",
        s!"\treverse{name} map[{name}]string = map[{name}]string\x7b"] ++
      (item.entries.filter (!·.isAlias)).map (fun e =>
        s!"\t\t{e.name.go}: \"{e.name.go}\",") ++
      ["\t\x7d",
        ")",
        "",
        s!"func (x {name}) String() string \x7b",
        s!"\tif s, ok := reverse{name}[x]; ok \x7b",
        "\t\treturn s",
        "\t\x7d",
        s!"\treturn fmt.Sprintf(\"{name}=%d\", x)",
        "\x7d"]))

def synonym (m : Module) (name target : Spelling) : String :=
  lines [
    s!"// {name.go} is an alias to {target.go}.",
    s!"// {m.page name.c}",
    "//",
    "// Deprecated: most aliases exist because an extension was promoted to a feature,",
    s!"// use {target.go} instead.",
    s!"type {name.go} = {target.go}"]

def structFrame (m : Module) (item : StructItem) : List String :=
  let name := item.name.go
  [
    s!"// {name} provides a go interface for {item.name.c}.",
    s!"// {m.page item.name.c}",
    s!"type {name} {item.name.cgo}",
    "",
    s!"// Sizeof{name} is the memory size of a {name}",
    s!"var Sizeof{name} int = int(unsafe.Sizeof({name}\x7b\x7d))",
    "",
    "// Free releases the memory allocated by AsCPtr, but not the memory its members point to.",
    s!"func (x *{name}) Free() \x7b",
    "\tC.free(unsafe.Pointer(x))",
    "\x7d",
    "",
    "// AsCPtr copies x to the C heap, the copy must be released with Free.",
    s!"func (x {name}) AsCPtr() *{name} \x7b",
    s!"\tclone := (*{name})(newCBlock(C.ulong(Sizeof{name})))",
    "\t*clone = x",
    "\treturn clone",
    "\x7d",
    "",
    s!"// {name}FreeCSlice releases the memory allocated by {name}MakeCSlice.",
    s!"func {name}FreeCSlice(x []{name}) \x7b",
    "\tif len(x) > 0 \x7b",
    "\t\tC.free(unsafe.Pointer(&x[0]))",
    "\t\x7d",
    "\x7d",
    "",
    s!"// {name}MakeCSlice copies x to the C heap and returns a slice of the copy, which",
    s!"// must be released with {name}FreeCSlice.",
    s!"func {name}MakeCSlice(x ...{name}) []{name} \x7b",
    "\tif len(x) == 0 \x7b",
    "\t\treturn nil",
    "\t\x7d",
    s!"\tsz := Sizeof{name} * len(x)",
    s!"\tdst := unsafe.Slice((*{name})(newCBlock(C.ulong(sz))), len(x))",
    "\tcopy(dst, x)",
    "\treturn dst",
    "\x7d"]

def getter (item : StructItem) (f : FieldItem) : List String := [
  "",
  s!"// {f.name.go} returns the value of {f.name.c} from {item.name.c}",
  s!"func (x {item.name.go}) {f.name.go}() {f.type.go} \x7b",
  s!"\tptr := {f.type.cToGo}(&x.{f.name.cgo})",
  "\treturn *ptr",
  "\x7d"]

def defaultSetter (item : StructItem) (f : FieldItem) (value : Spelling) : List String :=
  let name := item.name.go
  let field := f.name.go
  [
    "",
    s!"// WithDefault{field} sets {field} to the only value the registry allows.",
    s!"func (x {name}) WithDefault{field}() {name} \x7b",
    s!"\treturn x.With{field}({value.go})",
    "\x7d"]

def setter (item : StructItem) (f : FieldItem) : List String :=
  let name := item.name.go
  let field := f.name.go
  let length := f.length.bind fun i => item.fields[i]?
  ["",
    s!"// With{field} sets {field} on the underlying C structure."] ++
  length.elim [] (fun l => [
    "//",
    s!"// {l.name.go} is the length of this field and is set to the length of y."]) ++
  [s!"func (x {name}) With{field}(y {f.type.go}) {name} \x7b"] ++
  (if f.isCopied then [
    s!"\tptr := {f.type.goToC}(&y)",
    s!"\tcopy(x.{f.name.cgo}[:], unsafe.Slice(*ptr, len(y)))"]
  else [s!"\tx.{f.name.cgo} = *({f.type.goToC}(&y))"]) ++
  [length.elim "\treturn x" (fun l => s!"\treturn x.With{l.name.go}({l.type.go}(len(y)))"),
    "\x7d"]

/-- Whether a field can be set. Of what only the API fills, the head of the structure can. -/
def isSettable (item : StructItem) (f : FieldItem) : Bool :=
  !item.isReadOnly || f.name.go = "PNext" || f.name.go = "SType"

def field (item : StructItem) (f : FieldItem) : List String :=
  getter item f ++ (f.value.elim [] (defaultSetter item f)) ++
    (if isSettable item f then setter item f else [])

def struct (m : Module) (item : StructItem) : String :=
  lines (structFrame m item ++ item.fields.flatMap (field item))

/-- The parameter that a command is invoked on, if it is a method of a facade. -/
def receiver? (m : Module) (c : CommandItem) : Option ParameterItem :=
  if m.config.isGlobalProc c.name.c then none
  else c.params.head?.filter fun p => m.facades.contains p.typeName

def command (m : Module) (c : CommandItem) : String :=
  let name := c.name.go
  let receiver := receiver? m c
  let isVoid := c.result.c = "void"
  let params := ", ".intercalate
    ((c.params.drop (if receiver.isSome then 1 else 0)).map fun p => s!"{p.name.go} {p.type.go}")
  let on := receiver.elim "" fun p => s!"(x {p.type.goFacade}) "
  let result := if isVoid then "" else c.result.go ++ " "
  let table := if receiver.isSome then "x.procs" else "&C.vksProcAddresses"
  let numbered := c.params.zip (List.range c.params.length)
  let args := texts (numbered.map fun (_, i) => s!", *p{i}")
  lines (
    [s!"// {name} command",
      s!"// {m.page c.name.c}",
      s!"func {on}{name}({params}) {result}\x7b",
      s!"\taddrs := {table}"] ++
    numbered.map (fun (p, i) =>
      let arg := if i = 0 && receiver.isSome then "x.H" else p.name.go
      s!"\tp{i} := {p.type.goToC}(&{arg})") ++
    (if isVoid then [s!"\t{c.name.cgo}(addrs{args})"]
    else [
      s!"\tret := {c.name.cgo}(addrs{args})",
      s!"\tretPtr := {c.result.cToGo}(&ret)",
      "\treturn *retPtr"]) ++
    ["\x7d"])

def item (m : Module) : Item → String
  | .constants entries => constants entries
  | .version v => version m v
  | .headerVersion v => headerVersion m v
  | .base name type => plainType m "basetype" name type.go
  | .handle name parent => handle m name parent
  | .enum e => enumeration m e
  | .bitmask name type => plainType m "bitmask" name type.go
  | .function name _ => plainType m "function pointer" name name.cgo
  | .struct s => struct m s
  | .synonym name target => synonym m name target
  | .union name => plainType m "union" name name.cgo
  | .command c => command m c

def text (m : Module) (items : List Item) : String :=
  opening m.config ++ texts (items.map fun i => item m i ++ "\n\n") ++ closing

def report (m : Module) (items : List Item) : List Record :=
  items.flatMap fun
    | .handle name parent => handleReport m name parent
    | _ => []

def write (config : Config) (facades : List String) (items : List Item) : Logged String :=
  ⟨text ⟨config, facades⟩ items, report ⟨config, facades⟩ items⟩

end VulkanBindings.Go
