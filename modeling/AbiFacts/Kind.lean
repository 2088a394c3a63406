import AbiFacts.Named
import AbiFacts.Text.Blank

/-! # The kinds of C++ ABI

The closed set of ABI kinds, their names and one-line summaries, and the lenient reading of a kind
from a text: blanks around the name, ASCII case and `_` for `-` are all forgiven.
-/
namespace AbiFacts

inductive Kind where
  | genericItanium
  | genericArm
  | ios
  | ios64
  | watchos
  | genericAarch64
  | genericMips
  | webAssembly
  | fuchsia
  | microsoft
  deriving DecidableEq

namespace Kind

/-- Generic Itanium stands in for an ABI that is not yet resolved. -/
instance : Inhabited Kind := ⟨genericItanium⟩

def list : List Kind :=
  [genericItanium, genericArm, ios, ios64, watchos, genericAarch64, genericMips, webAssembly,
    fuchsia, microsoft]

def name : Kind → String
  | genericItanium => "generic-itanium"
  | genericArm => "generic-arm"
  | ios => "ios"
  | ios64 => "ios64"
  | watchos => "watchos"
  | genericAarch64 => "generic-aarch64"
  | genericMips => "generic-mips"
  | webAssembly => "webassembly"
  | fuchsia => "fuchsia"
  | microsoft => "microsoft"

/-- How the kind departs from generic Itanium, in one line. -/
def summary : Kind → String
  | genericItanium => "Standard Itanium C++ ABI (most Unix-like platforms)"
  | genericArm => "ARM C++ ABI: Thumb-safe member pointers, this-returning ctors, small guards"
  | ios => "Partial ARM ABI as shipped with the first iOS compilers"
  | ios64 => "ARM 64-bit C++ ABI as used by iOS, C++11 POD tail padding"
  | watchos => "iOS64 ABI ported to 32 bits, unique RTTI"
  | genericAarch64 => "AArch64 C++ ABI: ARM member pointers, small guards"
  | genericMips => "Itanium with ARM-style member function pointers"
  | webAssembly => "Itanium variant for wasm, unaligned member functions"
  | fuchsia => "Itanium with this-returning ctors and dtors"
  | microsoft => "Microsoft Visual C++ ABI"

instance : Named Kind where
  all := list
  name := name
  mem_all := by intro a; cases a <;> decide
  nodup_all := by decide
  name_injective := by intro a b; cases a <;> cases b <;> decide

/-- One character as the lenient reading sees it: an ASCII capital is its small letter and an
underscore is a hyphen. -/
def fold (c : Char) : Char :=
  if c = '_' then '-' else c.toLower

/-- The kind that a text names, blanks at its ends, ASCII case and underscores aside. -/
def parse? (text : String) : Option Kind :=
  list.find? fun kind => (Text.trim text.toList).map fold == kind.name.toList

end Kind
end AbiFacts
