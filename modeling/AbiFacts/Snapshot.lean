import AbiFacts.Property

/-! # Snapshots of the facts

A snapshot records a kind with a value for every fact, so that facts can leave the program and be
compared by key. The values need not agree with the kind: a snapshot may have been read from a
document.
-/
namespace AbiFacts

structure Snapshot where
  kind : Kind
  itaniumFamily : Bool
  microsoft : Bool
  memberFunctionsAligned : Bool
  argsDestroyedInCallee : Bool
  constructorVariants : Bool
  primaryVirtualBases : Bool
  keyFunctions : Bool
  inlineKeyFunction : Bool
  tailPadding : TailPadding
  deriving DecidableEq

namespace Snapshot

def value (snapshot : Snapshot) : Property → Bool
  | .itaniumFamily => snapshot.itaniumFamily
  | .microsoft => snapshot.microsoft
  | .memberFunctionsAligned => snapshot.memberFunctionsAligned
  | .argsDestroyedInCallee => snapshot.argsDestroyedInCallee
  | .constructorVariants => snapshot.constructorVariants
  | .primaryVirtualBases => snapshot.primaryVirtualBases
  | .keyFunctions => snapshot.keyFunctions
  | .inlineKeyFunction => snapshot.inlineKeyFunction

def ofValues (kind : Kind) (value : Property → Bool) (tailPadding : TailPadding) : Snapshot where
  kind := kind
  itaniumFamily := value .itaniumFamily
  microsoft := value .microsoft
  memberFunctionsAligned := value .memberFunctionsAligned
  argsDestroyedInCallee := value .argsDestroyedInCallee
  constructorVariants := value .constructorVariants
  primaryVirtualBases := value .primaryVirtualBases
  keyFunctions := value .keyFunctions
  inlineKeyFunction := value .inlineKeyFunction
  tailPadding := tailPadding

section
variable (kind : Kind) (values : Property → Bool) (rule : TailPadding)

@[simp] theorem kind_ofValues : (ofValues kind values rule).kind = kind := rfl

@[simp] theorem value_ofValues (property : Property) :
    (ofValues kind values rule).value property = values property := by
  cases property <;> rfl

@[simp] theorem tailPadding_ofValues : (ofValues kind values rule).tailPadding = rule := rfl

end

/-- A snapshot is made of its values. -/
theorem ofValues_eta (snapshot : Snapshot) :
    ofValues snapshot.kind snapshot.value snapshot.tailPadding = snapshot := rfl

def entries (snapshot : Snapshot) : List (Property × Bool) :=
  Property.list.map fun property => (property, snapshot.value property)

end Snapshot

namespace Descriptor

def snapshot (abi : Descriptor) : Snapshot where
  kind := abi.kind
  itaniumFamily := abi.isItaniumFamily
  microsoft := abi.isMicrosoft
  memberFunctionsAligned := abi.alignsMemberFunctions
  argsDestroyedInCallee := abi.destroysArgsInCallee
  constructorVariants := abi.hasConstructorVariants
  primaryVirtualBases := abi.hasPrimaryVirtualBases
  keyFunctions := abi.hasKeyFunctions
  inlineKeyFunction := abi.allowsInlineKeyFunction
  tailPadding := abi.tailPadding

/-- A snapshot has the value of each fact under this fact. -/
@[simp] theorem value_snapshot (abi : Descriptor) (property : Property) :
    abi.snapshot.value property = property.eval abi := by
  cases property <;> rfl

end Descriptor
end AbiFacts
