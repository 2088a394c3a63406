import AbiFacts.Descriptor

/-! # The boolean facts of an ABI

Each boolean fact has a stable key and is evaluated on a descriptor. Keys are ordered by the order
of their facts.
-/
namespace AbiFacts

inductive Property where
  | itaniumFamily
  | microsoft
  | memberFunctionsAligned
  | argsDestroyedInCallee
  | constructorVariants
  | primaryVirtualBases
  | keyFunctions
  | inlineKeyFunction
  deriving DecidableEq, Ord

namespace Property

def list : List Property :=
  [itaniumFamily, microsoft, memberFunctionsAligned, argsDestroyedInCallee, constructorVariants,
    primaryVirtualBases, keyFunctions, inlineKeyFunction]

def key : Property → String
  | itaniumFamily => "itanium-family"
  | microsoft => "microsoft"
  | memberFunctionsAligned => "member-functions-aligned"
  | argsDestroyedInCallee => "args-destroyed-left-to-right-in-callee"
  | constructorVariants => "constructor-variants"
  | primaryVirtualBases => "primary-vbases"
  | keyFunctions => "key-functions"
  | inlineKeyFunction => "key-function-can-be-inline"

instance : Named Property where
  all := list
  name := key
  mem_all := by intro a; cases a <;> decide
  nodup_all := by decide
  name_injective := by intro a b; cases a <;> cases b <;> decide

def eval : Property → Descriptor → Bool
  | itaniumFamily => Descriptor.isItaniumFamily
  | microsoft => Descriptor.isMicrosoft
  | memberFunctionsAligned => Descriptor.alignsMemberFunctions
  | argsDestroyedInCallee => Descriptor.destroysArgsInCallee
  | constructorVariants => Descriptor.hasConstructorVariants
  | primaryVirtualBases => Descriptor.hasPrimaryVirtualBases
  | keyFunctions => Descriptor.hasKeyFunctions
  | inlineKeyFunction => Descriptor.allowsInlineKeyFunction

end Property
end AbiFacts
