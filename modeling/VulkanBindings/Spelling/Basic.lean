import VulkanBindings.Text.Blank
import VulkanBindings.Text.Casing

/-! Names and types as they are spelled in C, in C seen from Go, and in Go, and the Go functions
that convert pointers between the last two. -/

set_option autoImplicit false

namespace VulkanBindings

structure Scalar where
  c : String
  cgo : String
  go : String
  deriving DecidableEq, Repr

namespace Scalar

def int32 : Scalar := ⟨"int32_t", "C.int", "int32"⟩

def int64 : Scalar := ⟨"int64_t", "C.longlong", "int64"⟩

def uint32 : Scalar := ⟨"uint32_t", "C.uint", "uint32"⟩

def uint64 : Scalar := ⟨"uint64_t", "C.ulonglong", "uint64"⟩

def voidPointer : Scalar := ⟨"void*", "unsafe.Pointer", "unsafe.Pointer"⟩

def all : List Scalar := [
  ⟨"int8_t", "C.schar", "int8"⟩,
  ⟨"int16_t", "C.short", "int16"⟩,
  int32,
  int64,
  ⟨"uint8_t", "C.uchar", "byte"⟩,
  ⟨"uint16_t", "C.ushort", "uint16"⟩,
  uint32,
  uint64,
  ⟨"size_t", "C.ulong", "uint64"⟩,
  ⟨"float", "C.float", "float32"⟩,
  ⟨"double", "C.double", "float64"⟩,
  ⟨"char", "C.char", "byte"⟩,
  voidPointer]

def find? (name : String) : Option Scalar := all.find? (·.c = name)

end Scalar

inductive Spelling where
  | literal (text : String)
  | bit (position : Nat)
  | reserved (inner : Spelling)
  /-- In Go, the words between underscores joined with capitals. -/
  | camel (name : String)
  | typedef (name : String)
  | struct (name : String)
  | exported (inner : Spelling) (stripped : List String)
  | scalar (scalar : Scalar)
  | pointer (inner : Spelling)
  /-- A pointer to as many elements as another member or parameter says. -/
  | slice (inner : Spelling)
  | array (inner : Spelling) (size : String)
  deriving DecidableEq, Repr

namespace Spelling

def isReserved (word : String) : Bool :=
  word = "type" || word = "range" || word = "func"

def capital : List Char → List Char
  | [] => []
  | c :: rest => Text.Casing.upperChar c ++ rest

def camelCase (name : String) : String :=
  if name.toList.contains '_' then
    match Text.pieces '_' (Text.Casing.lower name.toList) with
    | [] => ""
    | first :: rest => .ofList (first ++ rest.flatMap capital)
  else name

/-- A text without each of the beginnings that it then has, in order. -/
def strip (beginnings : List String) (text : List Char) : List Char :=
  beginnings.foldl (fun text start => (Text.afterStart? start.toList text).getD text) text

def c : Spelling → String
  | .literal text => text
  | .bit position => s!"(1 << {position})"
  | .reserved inner => inner.c
  | .camel name | .typedef name | .struct name => name
  | .exported inner _ => inner.c
  | .scalar s => s.c
  | .pointer inner | .slice inner => inner.c ++ "*"
  | .array inner size => s!"{inner.c}[{size}]"

def cgo : Spelling → String
  | .literal text => text
  | .bit position => s!"(1 << {position})"
  | .reserved inner => if isReserved inner.cgo then "_" ++ inner.cgo else inner.cgo
  | .camel name => name
  | .typedef name => "C." ++ name
  | .struct name => "C.struct_" ++ name
  | .exported inner _ => inner.cgo
  | .scalar s => s.cgo
  | .pointer inner | .slice inner => "*" ++ inner.cgo
  | .array inner size => s!"[{size}]{inner.cgo}"

def go : Spelling → String
  | .literal text => text
  | .bit position => s!"(1 << {position})"
  | .reserved inner => if isReserved inner.go then inner.go ++ "_" else inner.go
  | .camel name => camelCase name
  | .typedef name | .struct name => name
  | .exported inner stripped => .ofList (capital (strip stripped inner.go.toList))
  | .scalar s => s.go
  | .pointer inner => "*" ++ inner.go
  | .slice inner | .array inner _ => "[]" ++ inner.go

def goFacade (s : Spelling) : String := s.go ++ "Facade"

def conversion (source target note body : String) : String :=
  s!"func(x *{source}) *{target} \x7b /* {note} */ {body} \x7d"

def unchanged (target : String) : String :=
  s!"return (*{target})(unsafe.Pointer(x))"

/-- A Go function from a pointer to the C value to one to the Go value. -/
def cToGo (s : Spelling) : String :=
  match s with
  | .scalar _ => conversion s.cgo s.go "Scalar" (unchanged s.go)
  | .pointer _ => conversion s.cgo s.go "Pointer" (unchanged s.go)
  | .slice inner =>
    conversion s.cgo s.go "Slice"
      s!"slc := unsafe.Slice((*{inner.go})(unsafe.Pointer(*x)), (1 << 31)); return &slc"
  | .array inner size =>
    conversion s.cgo s.go "Array"
      s!"slc := unsafe.Slice((*{inner.go})(unsafe.Pointer(x)), {size}); return &slc"
  | _ => s!"/* typedef */ (*{s.go})"

def firstElement (target pointer : String) : String :=
  s!"if len(*x) > 0 \x7b slc := ({target})(unsafe.Pointer(&((*x)[0]))); return &slc \x7d; " ++
    s!"var ptr unsafe.Pointer; return ({pointer})(unsafe.Pointer((&ptr)))"

def goToC (s : Spelling) : String :=
  match s with
  | .scalar _ => conversion s.go s.cgo "Scalar" (unchanged s.cgo)
  | .pointer _ => conversion s.go s.cgo "Pointer" (unchanged s.cgo)
  | .slice _ => conversion s.go s.cgo "Slice" (firstElement s.cgo ("*" ++ s.cgo))
  | .array inner _ =>
    conversion s.go ("*" ++ inner.cgo) "Array"
      (firstElement ("*" ++ inner.cgo) ("**" ++ inner.cgo))
  | _ => s!"/* typedef */ (*{s.cgo})"

def cParameter (s : Spelling) (name : String) : String :=
  match s with
  | .array inner size => s!"{inner.c} {name}[{size}]"
  | _ => s!"{s.c} {name}"

end Spelling

end VulkanBindings
