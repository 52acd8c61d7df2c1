import VulkanBindings.Emit.Header
import VulkanBindings.Log

/-! The C implementation: it opens the library, fills tables of addresses, and forwards every
wrapper to the address in its table. -/

set_option autoImplicit false

namespace VulkanBindings.Loader

def instanceLookup : String := "vkGetInstanceProcAddr"

def deviceLookup : String := "vkGetDeviceProcAddr"

def opening (config : Config) : String :=
  lines [
    "#include <dlfcn.h>",
    s!"#include \"{config.headerFile}\"",
    "",
    "vksProcAddr vksProcAddresses;",
    "void *vulkanHandle = NULL;",
    "",
    "#if defined(_WIN64) || defined(_WIN32)",
    "\t#define LIB_NAME \"vulkan.dll\"",
    "#elif defined(__linux__) || defined(__FreeBSD__) || defined (__NetBSD__) || " ++
      "defined(__OpenBSD__) || defined(__DragonFly__)",
    "\t#define LIB_NAME \"libvulkan.so\"",
    "#elif defined(__APPLE__) || defined(__MACH__)",
    "\t#define LIB_NAME \"libvulkan.dylib\"",
    "#endif",
    "",
    "VkResult vksDynamicLoad() \x7b",
    "\tvulkanHandle = dlopen(LIB_NAME, RTLD_NOW | RTLD_LOCAL);",
    "\tif (vulkanHandle == NULL) \x7b",
    "\t\treturn VK_ERROR_UNKNOWN;",
    "\t\x7d",
    s!"\tvksProcAddresses.p{instanceLookup} = dlsym(vulkanHandle, \"{instanceLookup}\");",
    ""]

def globalAssignment (name : String) : String :=
  s!"\tvksProcAddresses.p{name} = {instanceLookup}(&vksProcAddresses, NULL, \"{name}\");\n"

def middle : String :=
  lines [
    "\treturn VK_SUCCESS;",
    "\x7d",
    "",
    "void vksDynamicUnload() \x7b",
    "\tdlclose(vulkanHandle);",
    "\x7d",
    "",
    ""]

def instanceAssignment (name : String) : String :=
  s!"\n\taddrs->p{name} = {instanceLookup}(&vksProcAddresses, hndl, \"{name}\");"

def deviceAssignment (name : String) : String :=
  s!"\n\taddrs->p{name} = {deviceLookup}(parent, hndl, \"{name}\");"

def instanceLoader (names : List String) : String :=
  "void vksLoadInstanceProcAddrs(VkInstance hndl, vksProcAddr* addrs) \x7b" ++
    texts (names.map instanceAssignment) ++ "\n\x7d\n"

def deviceLoader (names : List String) : String :=
  "\nvoid vksLoadDeviceProcAddrs(VkDevice hndl, vksProcAddr* addrs, vksProcAddr* parent) \x7b" ++
    texts (names.map deviceAssignment) ++ "\n\x7d\n"

def wrapper (c : CommandItem) : String :=
  let name := c.name.c
  let args := ", ".intercalate (c.params.map (·.name.c))
  let call := s!"((PFN_{name})addrs->p{name})({args});"
  let result := c.result.c
  let body := if result = "void" then s!"\t{call}\n" else s!"\t{result} ret = {call}\n\treturn ret;\n"
  s!"\n{c.signature} \x7b\n{body}\x7d\n"

/-- The commands without which the loaders cannot be compiled. -/
def missing (names : List String) : List String :=
  [instanceLookup, deviceLookup].filter (!names.contains ·)

/-- The global commands to load, other than the one that loads them. -/
def globals (config : Config) : List String :=
  config.globalProcs.filter (· ≠ instanceLookup)

def text (config : Config) (items : List Item) : String :=
  let commands := Item.commands items
  let names := commands.map (·.name.c)
  opening config ++ texts (((globals config).filter names.contains).map globalAssignment) ++
    middle ++ instanceLoader names ++ deviceLoader names ++ texts (commands.map wrapper)

def report (config : Config) (items : List Item) : List Record :=
  let names := (Item.commands items).map (·.name.c)
  (missing names).map (fun name =>
      ⟨.warn, s!"`{name}` is not emitted, the generated loaders will not compile"⟩) ++
    ((globals config).filter (!names.contains ·)).map fun name =>
      ⟨.debug, s!"global proc `{name}` is not emitted"⟩

def write (config : Config) (items : List Item) : Logged String :=
  ⟨text config items, report config items⟩

end VulkanBindings.Loader
