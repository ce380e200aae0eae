import FilterScript.Source.Span
import FilterScript.Tree.Ident

/-! # Imports

An import names many things at once: a group in braces stands for each of its
members in turn.
-/

namespace FilterScript

mutual

/-- Parts with dots between them. -/
structure ImportPath (σ ν : Type) where
  parts : List (ImportPart σ ν)
  span : σ

/-- A name, or a group of paths to choose from. -/
inductive ImportPart (σ ν : Type) where
  | name (ident : Ident σ ν)
  | group (members : List (ImportPath σ ν)) (span : σ)

end

variable {σ ν : Type}

/-- Each way to go on from each of the beginnings, in this order. -/
def extendEach {α : Type} (beginnings continuations : List (List α)) : List (List α) :=
  beginnings.flatMap fun beginning => continuations.map fun continuation =>
    beginning ++ continuation

mutual

/-- The sequences of names that an import path stands for, in the order in which
they are written. A group with no members leaves none, and a sequence without
names stands for nothing. -/
def ImportPath.targets : ImportPath σ ν → List (List (Ident σ ν))
  | ⟨parts, _⟩ => (targetsFrom [[]] parts).filter fun names => !names.isEmpty

/-- The sequences that parts make when they follow the given beginnings. -/
def targetsFrom (beginnings : List (List (Ident σ ν))) :
    List (ImportPart σ ν) → List (List (Ident σ ν))
  | [] => beginnings
  | .name ident :: rest => targetsFrom (beginnings.map (· ++ [ident])) rest
  | .group members _ :: rest =>
      targetsFrom (extendEach beginnings (targetsOfEach members)) rest

/-- The sequences of each member in turn. -/
def targetsOfEach : List (ImportPath σ ν) → List (List (Ident σ ν))
  | [] => []
  | member :: rest => member.targets ++ targetsOfEach rest

end

/-- The path that names make, if there are any: it runs from the first to the
last of them. -/
def Path.ofSegments? {ν : Type} : List (Ident Span ν) → Option (Path Span ν)
  | [] => none
  | first :: rest => some ⟨first, rest, first.span.hull (rest.getLastD first).span⟩

/-- Every path that an import stands for. -/
def ImportPath.expand {ν : Type} (path : ImportPath Span ν) : List (Path Span ν) :=
  path.targets.filterMap Path.ofSegments?

end FilterScript
