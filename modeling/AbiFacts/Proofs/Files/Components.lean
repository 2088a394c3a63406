import AbiFacts.Proofs.Files.Entries

/-! # The components of paths

What a path says, without repeated slashes, a slash at the end, or dots that stay where they are. A
plain name that is joined to a path is one more component of it (`components_join`).
-/
namespace AbiFacts.Files

inductive Component where
  | root
  /-- The dot that a relative path may begin with. -/
  | current
  | parent
  | normal (name : Name)
  deriving DecidableEq

def Component.ofName? (name : Name) : Option Component :=
  if name = Path.dot then none
  else if name = Path.dotDot then some .parent
  else some (.normal name)

namespace Path

def lead (path : Path) : List Component :=
  if path.isAbsolute then [.root]
  else if (split path.bytes).head? = some dot then [.current]
  else []

def components (path : Path) : List Component :=
  path.lead ++ path.names.filterMap Component.ofName?

/-- The last name of a path, unless it goes up there. -/
def fileName? (path : Path) : Option Name :=
  match path.components.getLast? with
  | some (.normal name) => some name
  | _ => none

theorem split_of_slash_notMem {name : Name} (h : slash ∉ name) : split name = [name] := by
  have hsplit := split_joined (List.forall_mem_singleton.mpr h) (List.cons_ne_nil _ _)
  simpa [joined] using hsplit

theorem head?_split_append (first rest : List UInt8) :
    (split (first ++ slash :: rest)).head? = (split first).head? := by
  rcases List.exists_cons_of_ne_nil (split_ne_nil first) with ⟨part, parts, hsplit⟩
  rw [split_append_slash, hsplit, List.cons_append, List.head?_cons, List.head?_cons]

/-- One more name does not change how a path begins. -/
theorem lead_join (directory : Path) {name : Name} (hname : name.IsPlain) (hslash : slash ∉ name) :
    (directory.join ⟨name⟩).lead = directory.lead := by
  have habsolute := (isEntry_join directory hname.ne_nil hslash).isAbsolute
  have hrelative : isAbsolute ⟨name⟩ = false := by
    simpa [isAbsolute] using fun h => hslash (List.mem_of_head? h)
  have hdot : (split (directory.join ⟨name⟩).bytes).head? = some dot ↔
      (split directory.bytes).head? = some dot := by
    rw [join, hrelative, if_neg Bool.false_ne_true]
    split
    case isTrue hends =>
      rcases List.eq_nil_or_concat directory.bytes with hnil | ⟨first, last, hconcat⟩
      · have hne := hname.ne_dot
        simpa [hnil, split_of_slash_notMem hslash, split, dot] using hne
      · have hlast : last = slash := by simpa [endsInSlash, hconcat] using hends
        rw [hconcat, hlast, List.concat_eq_append, List.append_assoc, List.singleton_append,
          head?_split_append, head?_split_append]
    case isFalse => rw [head?_split_append]
  simp only [lead, habsolute, hdot]

/-- A plain name joined to a path is one more component of it. -/
theorem components_join (directory : Path) {name : Name} (hname : name.IsPlain)
    (hslash : slash ∉ name) :
    (directory.join ⟨name⟩).components = directory.components ++ [.normal name] := by
  have hentry := isEntry_join directory hname.ne_nil hslash
  rw [components, components, lead_join directory hname hslash, hentry.names,
    List.filterMap_append, List.append_assoc]
  simp [Component.ofName?, hname.ne_dot, hname.ne_dotDot]

example : ((ofString "./a//b/../.").join (ofString "c.toml")).components =
    (ofString "./a/b/..").components ++ [.normal (Name.ofString "c.toml")] := by decide +kernel

theorem fileName?_join (directory : Path) {name : Name} (hname : name.IsPlain)
    (hslash : slash ∉ name) : (directory.join ⟨name⟩).fileName? = some name := by
  rw [fileName?, components_join directory hname hslash, List.getLast?_append]
  rfl

end Path
end AbiFacts.Files
