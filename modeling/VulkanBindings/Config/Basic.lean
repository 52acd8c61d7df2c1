/-! What the generator is told: where the registry is, which part of it is wanted, and how the
generated files are named. -/

set_option autoImplicit false

namespace VulkanBindings

structure Config where
  registry : String := "/usr/local/share/vulkan/registry/vk.xml"
  api : String := "vulkan"
  outputName : String := "vk_wrapper"
  packageName : String := "vks"
  features : List String := ["VK_VERSION_1_0", "VK_VERSION_1_1", "VK_VERSION_1_2"]
  extensions : List String :=
    ["VK_KHR_surface", "VK_KHR_swapchain", "VK_KHR_display", "VK_KHR_display_swapchain"]
  /-- Commands that are loaded with the library and called without a facade. -/
  globalProcs : List String :=
    ["vkGetInstanceProcAddr", "vkEnumerateInstanceVersion",
      "vkEnumerateInstanceExtensionProperties", "vkEnumerateInstanceLayerProperties",
      "vkCreateInstance"]
  /-- For types of handles, the C function that fills a table of addresses for one. -/
  procLoaders : List (String × String) :=
    [("VkInstance", "vksLoadInstanceProcAddrs"), ("VkDevice", "vksLoadDeviceProcAddrs")]
  headerLines : List String := ["#define VK_ENABLE_BETA_EXTENSIONS", "#define VK_NO_PROTOTYPES"]
  /-- What Go names are stripped of at their start, in order. -/
  exportPrefixes : List String := ["Vk", "vk"]
  docUrl : String := "https://www.khronos.org/registry/vulkan/specs/1.2-extensions/man/html/"
  deriving DecidableEq, Repr

namespace Config

/-- What conditions are decided by: features, then extensions. -/
def enabled (c : Config) : List String := c.features ++ c.extensions

def isGlobalProc (c : Config) (name : String) : Bool := c.globalProcs.contains name

def procLoader? (c : Config) (handle : String) : Option String := c.procLoaders.lookup handle

def goFile (c : Config) : String := c.outputName ++ ".go"

def headerFile (c : Config) : String := c.outputName ++ ".h"

def cFile (c : Config) : String := c.outputName ++ ".c"

end Config

end VulkanBindings
