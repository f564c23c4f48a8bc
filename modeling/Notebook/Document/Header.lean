import Notebook.Fault

/-!
# The header of a saved notebook

A saved notebook begins with five bytes: four that say what kind of file it is, and the version of
the format. Reading a header takes any five bytes, and whether they are the right ones is asked
separately: first the kind, then the version.
-/

set_option autoImplicit false

namespace Notebook

/-- The bytes in front of a saved notebook. -/
structure Header where
  /-- What kind of file it is. -/
  magic : Vector UInt8 4 := #v[0x44, 0x46, 0x4E, 0x42]
  /-- The version of the format. -/
  version : UInt8 := 1
  deriving DecidableEq

namespace Header

/-- The header of a notebook that is saved now. -/
def current : Header := {}

/-- The number of bytes of a header. -/
def size : Nat := 5

def toBytes (h : Header) : List UInt8 :=
  h.magic.toList ++ [h.version]

/-- Reads a header from the front of a file. -/
def ofBytes (bytes : ByteArray) : Except Fault Header :=
  match (bytes.extract 0 size).data.toList with
  | [a, b, c, d, version] => .ok ⟨#v[a, b, c, d], version⟩
  | _ => .error (.deserialization "Header too short")

/-- Is it the header of a notebook, in the version that is known? -/
def validate (h : Header) : Except Fault Unit :=
  if h.magic ≠ current.magic then .error (.deserialization "Invalid magic bytes")
  else if h.version ≠ current.version then
    .error (.deserialization
      s!"Unsupported version: {h.version.toNat} (expected {current.version.toNat})")
  else .ok ()

end Header

end Notebook
