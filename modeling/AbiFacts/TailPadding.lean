import AbiFacts.Named

/-! # Reuse of tail padding

When record layout may place fields of a derived class in the tail padding of a base class. Older
rules exempt bases that are plain old data, under one of two definitions of that term.
-/
namespace AbiFacts

/-- Whether a base class is plain old data, under the C++03 and under the C++11 definition. -/
structure Podness where
  pod03 : Bool := false
  pod11 : Bool := false
  deriving DecidableEq

inductive TailPadding where
  /-- The padding of every base may be reused. -/
  | always
  /-- Only the padding of bases that are not C++03 plain old data. -/
  | unlessPod03
  /-- Only the padding of bases that are not C++11 plain old data. -/
  | unlessPod11
  deriving DecidableEq

namespace TailPadding

def name : TailPadding → String
  | always => "always-use-tail-padding"
  | unlessPod03 => "use-tail-padding-unless-pod03"
  | unlessPod11 => "use-tail-padding-unless-pod11"

instance : Named TailPadding where
  all := [always, unlessPod03, unlessPod11]
  name := name
  mem_all := by intro a; cases a <;> decide
  nodup_all := by decide
  name_injective := by intro a b; cases a <;> cases b <;> decide

/-- May fields be laid out in the tail padding of this base? -/
def allowsReuse : TailPadding → Podness → Bool
  | always, _ => true
  | unlessPod03, base => !base.pod03
  | unlessPod11, base => !base.pod11

end TailPadding
end AbiFacts
