import VulkanBindings.Config.Basic
import VulkanBindings.Item.Basic

/-! The C header: a table with the address of every command, and a wrapper for each. -/

set_option autoImplicit false

namespace VulkanBindings

def lines (ls : List String) : String := "\n".intercalate ls

def texts (ts : List String) : String := ts.foldl (· ++ ·) ""

/-- The declaration of a command's wrapper, which takes the table of addresses first. -/
def CommandItem.signature (c : CommandItem) : String :=
  let params := texts (c.params.map fun p => ", " ++ p.type.cParameter p.name.c)
  s!"{c.result.c} {c.name.c}(vksProcAddr* addrs{params})"

namespace Header

def tableEntry (c : CommandItem) : String := s!"\n\tvoid* p{c.name.c};"

def declaration (c : CommandItem) : String := c.signature ++ ";\n"

def opening (config : Config) : String :=
  texts ((["#ifndef __VKS_H__", "#define __VKS_H__"] ++ config.headerLines).map (· ++ "\n")) ++
    "#include <stdlib.h>\n#include <string.h>\n#include \"vulkan/vulkan.h\"\n\n"

def table (commands : List CommandItem) : String :=
  "typedef struct vksProcAddr \x7b" ++ texts (commands.map tableEntry) ++ "\n\x7d vksProcAddr;\n\n"

def loaders : String :=
  "extern vksProcAddr vksProcAddresses;\n\n" ++
    "void vksLoadInstanceProcAddrs(VkInstance, vksProcAddr*);\n" ++
    "void vksLoadDeviceProcAddrs(VkDevice, vksProcAddr*, vksProcAddr*);\n" ++
    "VkResult vksDynamicLoad();\n" ++
    "void vksDynamicUnload();\n\n"

def text (config : Config) (items : List Item) : String :=
  let commands := Item.commands items
  opening config ++ table commands ++ loaders ++ texts (commands.map declaration) ++ "\n#endif\n"

end Header

end VulkanBindings
