import FilterScript.Diagnostic.Excerpt

/-! # Named sources

Diagnostics are printed about sources that were registered before, each under
the number of its turn. About other numbers there is nothing to print.
-/

namespace FilterScript

/-- The names and texts of registered sources, in the order of registration. -/
structure Sources where
  entries : List (String × String)

namespace Sources

def empty : Sources :=
  ⟨[]⟩

/-- Register a source and give its number. -/
def add (sources : Sources) (name source : String) : Nat × Sources :=
  (sources.entries.length, ⟨sources.entries ++ [(name, source)]⟩)

/-- The text of a registered source. -/
def source? (sources : Sources) (id : Nat) : Option String :=
  (sources.entries[id]?).map Prod.snd

/-- A diagnostic about a registered source, as text. -/
def render (sources : Sources) (id : Nat) (diagnostic : Diagnostic) : String :=
  match sources.entries[id]? with
  | some (name, source) => diagnostic.render name source
  | none => ""

end Sources

end FilterScript
