import FilterScript.Unicode.Range

/-! # White space

The characters that Unicode calls `White_Space`.
-/

namespace FilterScript.Unicode

/-- The twenty-five characters of `White_Space`. -/
def blankRanges : List Range := [
  ⟨0x9, 0xD⟩, ⟨0x20, 0x20⟩, ⟨0x85, 0x85⟩, ⟨0xA0, 0xA0⟩, ⟨0x1680, 0x1680⟩, ⟨0x2000, 0x200A⟩,
  ⟨0x2028, 0x2029⟩, ⟨0x202F, 0x202F⟩, ⟨0x205F, 0x205F⟩, ⟨0x3000, 0x3000⟩]

/-- A space, a line break or another character that only separates. -/
def isBlank (c : Char) : Bool :=
  contains blankRanges c

end FilterScript.Unicode
