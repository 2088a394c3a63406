import AbiFacts.Kind
import AbiFacts.TailPadding

/-! # The ABI descriptor

A descriptor holds one ABI kind, and every layout fact is a function of it.
-/
namespace AbiFacts

/-- The target ABI. An ABI that is not yet resolved is generic Itanium. -/
structure Descriptor where
  kind : Kind := default
  deriving DecidableEq

namespace Descriptor

def isMicrosoft (abi : Descriptor) : Bool :=
  match abi.kind with
  | .microsoft => true
  | _ => false

def isItaniumFamily (abi : Descriptor) : Bool :=
  match abi.kind with
  | .microsoft => false
  | _ => true

/-- Are member functions aligned, so that the low bit of their address is free? -/
def alignsMemberFunctions (abi : Descriptor) : Bool :=
  match abi.kind with
  | .webAssembly => false
  | _ => true

/-- Does the callee destroy the arguments of a call, from left to right? -/
def destroysArgsInCallee (abi : Descriptor) : Bool :=
  abi.isMicrosoft

/-- Do complete objects and base subobjects have constructors of their own? -/
def hasConstructorVariants (abi : Descriptor) : Bool :=
  abi.isItaniumFamily

def hasPrimaryVirtualBases (abi : Descriptor) : Bool :=
  abi.isItaniumFamily

/-- Is class data emitted beside the definition of a key function? -/
def hasKeyFunctions (abi : Descriptor) : Bool :=
  abi.isItaniumFamily

/-- Can a function that is defined inline outside the class be the key function? -/
def allowsInlineKeyFunction (abi : Descriptor) : Bool :=
  match abi.kind with
  | .fuchsia | .genericArm | .ios64 | .webAssembly | .watchos => false
  | .genericAarch64 | .genericItanium | .ios | .microsoft | .genericMips => true

/-- The rule for tail padding. Generic Itanium and its older relatives keep the C++03 reading of
plain old data, the newer ones the C++11 reading. -/
def tailPadding (abi : Descriptor) : TailPadding :=
  match abi.kind with
  | .genericItanium | .genericAarch64 | .genericArm | .ios | .genericMips => .unlessPod03
  | .fuchsia | .ios64 | .webAssembly | .watchos => .unlessPod11
  | .microsoft => .always

end Descriptor
end AbiFacts
