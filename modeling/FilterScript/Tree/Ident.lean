/-! # Identifiers and paths

The parts of the tree that names are made of. Every tree type takes two
parameters: what is noted at each node (`σ`: its span, or nothing) and what
names are (`ν`: symbols, or texts).
-/

namespace FilterScript

/-- A name where it stands. `raw` says that it was written with the escape mark,
which is not part of the name. -/
structure Ident (σ ν : Type) where
  name : ν
  raw : Bool
  span : σ
deriving DecidableEq, Repr

/-- Names with dots between them. There is at least one. -/
structure Path (σ ν : Type) where
  first : Ident σ ν
  rest : List (Ident σ ν)
  span : σ
deriving DecidableEq, Repr

/-- A name and what it is given: a value, or a type. -/
structure Field (σ ν α : Type) where
  name : Ident σ ν
  value : α
  span : σ
deriving Repr

/-- Fields in braces, in the order they are written. A name may come twice. -/
structure Record (σ ν α : Type) where
  fields : List (Field σ ν α)
  span : σ
deriving Repr

namespace Path

variable {σ ν : Type}

/-- All names of a path. -/
def segments (path : Path σ ν) : List (Ident σ ν) :=
  path.first :: path.rest

/-- The last name of a path. -/
def last (path : Path σ ν) : Ident σ ν :=
  path.rest.getLastD path.first

end Path

end FilterScript
