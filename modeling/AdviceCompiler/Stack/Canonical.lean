import AdviceCompiler.Stack.Layout

/-!
# Canonical layout pairs

Stack instructions compare slot names only for equality, so a pair of layouts
may be renamed freely.  The canonical form of a pair numbers its names from `0`
in order of first appearance, first in the source and then in the target.
-/

namespace AdviceCompiler

/-- The names met so far, in order of first appearance.  A name is renamed to
its index. -/
abbrev Renaming := List UInt32

namespace Renaming

/-- The new name of `id`, and the renaming that knows it.  An unknown name is
numbered by the count of names met before it. -/
def rename (known : Renaming) (id : UInt32) : UInt32 × Renaming :=
  match known.idxOf? id with
  | some index => (UInt32.ofNat index, known)
  | none => (UInt32.ofNat known.length, known ++ [id])

def renameLayout (known : Renaming) : Layout → Layout × Renaming
  | [] => ([], known)
  | slot :: rest =>
      let (id, known) := known.rename slot.id
      let (renamed, known) := renameLayout known rest
      (⟨id, slot.category⟩ :: renamed, known)

end Renaming

namespace Layout

/-- Renames both layouts by one renaming, the source first. -/
def canonicalPair (source target : Layout) : Layout × Layout :=
  let (source, known) := Renaming.renameLayout [] source
  let (target, _) := Renaming.renameLayout known target
  (source, target)

end Layout

end AdviceCompiler
