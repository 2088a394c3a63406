import AbiFacts.Documented
import AbiFacts.Snapshot
import AbiFacts.Text.Kebab

/-! # The names of kinds, facts and fields in documents

Kinds are written by names that are given one by one. Facts, rules and fields are written by their
identifiers in kebab case, and one fact is renamed, both as a value and as a field. All these names
are those by which the values are known elsewhere.
-/
namespace AbiFacts

open Text (kebab)

/-! ## Kinds -/

namespace Kind

def documentName : Kind → String
  | genericItanium => "generic-itanium"
  | genericArm => "generic-arm"
  | ios => "ios"
  | ios64 => "ios64"
  | watchos => "watchos"
  | genericAarch64 => "generic-aarch64"
  | genericMips => "generic-mips"
  | webAssembly => "webassembly"
  | fuchsia => "fuchsia"
  | microsoft => "microsoft"

theorem documentName_eq_name (kind : Kind) : kind.documentName = kind.name := by
  cases kind <;> rfl

instance : Documented Kind := ⟨documentName, documentName_eq_name⟩

end Kind

/-! ## Facts -/

namespace Property

def identifier : Property → String
  | itaniumFamily => "ItaniumFamily"
  | microsoft => "Microsoft"
  | memberFunctionsAligned => "MemberFunctionsAligned"
  | argsDestroyedInCallee => "ArgsDestroyedLeftToRightInCallee"
  | constructorVariants => "ConstructorVariants"
  | primaryVirtualBases => "PrimaryVBases"
  | keyFunctions => "KeyFunctions"
  | inlineKeyFunction => "KeyFunctionCanBeInline"

def documentName : Property → String
  | primaryVirtualBases => "primary-vbases"
  | property => kebab property.identifier

theorem documentName_eq_key (property : Property) : property.documentName = property.key := by
  cases property <;> decide +kernel

example : kebab primaryVirtualBases.identifier = "primary-v-bases" := by decide +kernel

instance : Documented Property := ⟨documentName, documentName_eq_key⟩

end Property

/-! ## Rules for tail padding -/

namespace TailPadding

def identifier : TailPadding → String
  | always => "AlwaysUseTailPadding"
  | unlessPod03 => "UseTailPaddingUnlessPod03"
  | unlessPod11 => "UseTailPaddingUnlessPod11"

def documentName (rule : TailPadding) : String := kebab rule.identifier

theorem documentName_eq_name (rule : TailPadding) : rule.documentName = rule.name := by
  cases rule <;> decide +kernel

instance : Documented TailPadding := ⟨documentName, documentName_eq_name⟩

end TailPadding

def Decode.tailPaddingKey : String := "tail-padding"

/-! ## Fields -/

/-- The field of expectations beside its pins. -/
inductive Expectations.Field where
  | tailPadding
  deriving DecidableEq

namespace Expectations.Field

instance : Named Expectations.Field where
  all := [.tailPadding]
  name _ := Decode.tailPaddingKey
  mem_all := by rintro ⟨⟩; decide
  nodup_all := by decide
  name_injective := by rintro ⟨⟩ ⟨⟩ _; rfl

def documentName : Expectations.Field → String
  | .tailPadding => kebab "tail_padding"

theorem documentName_tailPadding : tailPadding.documentName = Decode.tailPaddingKey := by
  decide +kernel

instance : Documented Expectations.Field := ⟨documentName, fun _ => documentName_tailPadding⟩

end Expectations.Field

inductive Snapshot.Field where
  | kind
  | value (property : Property)
  | tailPadding
  deriving DecidableEq

namespace Snapshot.Field

instance : Named Snapshot.Field where
  all := .kind :: Property.list.map .value ++ [.tailPadding]
  name
    | .kind => "kind"
    | .value property => property.key
    | .tailPadding => Decode.tailPaddingKey
  mem_all := by
    intro a
    rcases a with _ | p | _
    · decide
    · cases p <;> decide
    · decide
  nodup_all := by decide
  name_injective := by
    intro a b
    rcases a with _ | p | _ <;> rcases b with _ | q | _ <;> try cases p
    all_goals try cases q
    all_goals decide

def identifier : Snapshot.Field → String
  | .kind => "kind"
  | .value .itaniumFamily => "itanium_family"
  | .value .microsoft => "microsoft"
  | .value .memberFunctionsAligned => "member_functions_aligned"
  | .value .argsDestroyedInCallee => "args_destroyed_left_to_right_in_callee"
  | .value .constructorVariants => "constructor_variants"
  | .value .primaryVirtualBases => "primary_vbases"
  | .value .keyFunctions => "key_functions"
  | .value .inlineKeyFunction => "key_function_can_be_inline"
  | .tailPadding => "tail_padding"

def documentName : Snapshot.Field → String
  | .value .primaryVirtualBases => "primary-vbases"
  | field => kebab field.identifier

theorem documentName_eq_name (field : Snapshot.Field) : field.documentName = Named.name field := by
  rcases field with _ | property | _
  · decide +kernel
  · cases property <;> decide +kernel
  · decide +kernel

instance : Documented Snapshot.Field := ⟨documentName, documentName_eq_name⟩

end Snapshot.Field
end AbiFacts
