import FilterScript.Proofs.Completeness.Fitting
import FilterScript.Proofs.Completeness.Scanned
import FilterScript.Proofs.Completeness.Scripts
import FilterScript.Proofs.Completeness.Shapes
import FilterScript.Proofs.Levels.Limit

/-!
# Written scripts are read back

A script that can be written down is written with its tokens and single blanks
between them, and nothing that could be left out. Parsing this text gives the
script back, with places in the text for its spans.
-/

namespace FilterScript

/-! ## The round trip -/

theorem Trims.required (slots : List Slot) :
    Trims slots (FilterScript.required slots) (FilterScript.required slots) := by
  induction slots with
  | nil => exact .nil
  | cons slot rest ih =>
      cases slot with
      | token kind => exact .token kind ih
      | spareComma => exact .spare .noComma ih
      | spareBrackets => exact .spare .noBrackets ih

/-- A script that can be written down: its parts fit where they stand, its tokens
can be written, and it nests no deeper than the limit. -/
structure Script.IsCanonical (script : Script Unit String) : Prop where
  fits : ∀ item ∈ script.items, item.Fits
  writable : ∀ kind ∈ script.flatten id, kind.IsWritable
  nest_le : script.nest ≤ nestingLimit

/-- A canonical script is what its written form is read as. -/
theorem Script.IsCanonical.readBack {target : Script Unit String} (h : target.IsCanonical) :
    ∃ parsed, parse (writeTokens (target.flatten id)) = .ok parsed ∧
      parsed.tree.map noNote parsed.names.text = target := by
  obtain ⟨tokens, hscans, htokens⟩ := scans_writeTokens h.writable
  have hspells : Spells (target.slots id) tokens := by
    unfold Spells
    rw [htokens]
    exact Trims.required _
  obtain ⟨parsed, hrun, hshape⟩ := parseWithin_gives hscans h.fits hspells
  have hnest : parsed.tree.nest ≤ nestingLimit := by
    have hle := h.nest_le
    rwa [← hshape, Script.nest_map] at hle
  exact ⟨parsed, runOn_of_le Grammar.script_opens hrun hnest, hshape⟩

/-- What is left when spare tokens are deleted has been written. -/
theorem Trims.mem_of_mem_kept {slots : List Slot} {written kept : List Kind}
    (h : Trims slots written kept) : ∀ kind ∈ kept, kind ∈ written := by
  induction h with
  | nil => simp
  | token kind _ ih =>
      intro other hother
      rcases List.mem_cons.mp hother with rfl | hother
      · exact List.mem_cons_self
      · exact List.mem_cons_of_mem _ (ih other hother)
  | spare _ _ ih => exact fun kind hkind => List.mem_append_right _ (ih kind hkind)

/-- Every script that is accepted is canonical, however it was written. -/
theorem isCanonical_of_parse {source : String} {parsed : Parsed (Script Span Symbol)}
    (h : parse source = .ok parsed) :
    (parsed.tree.map noNote parsed.names.text).IsCanonical := by
  obtain ⟨tokens, hscans, hspells⟩ := runOn_reads (fun _ _ => Grammar.script_reads) h
  constructor
  case fits =>
    intro item hitem
    obtain ⟨whole, hwhole, rfl⟩ := List.mem_map.mp hitem
    exact (whole.fits_map noNote parsed.names.text).mpr (fits_of_parse h whole hwhole)
  case writable =>
    intro kind hkind
    rw [Script.flatten, Script.slots_map] at hkind
    have hmem : kind ∈ tokens.map Token.kind := Trims.mem_of_mem_kept hspells kind hkind
    obtain ⟨token, htoken, rfl⟩ := List.mem_map.mp hmem
    have hrounds : (Cursor.ofSource source).rest.length ≤ source.toList.length := Nat.le_refl _
    exact Cursor.scans_isWritable hrounds hscans token htoken
  case nest_le =>
    rw [Script.nest_map]
    exact nest_le_of_parseWithin h

/-- The canonical scripts are those that are read back: written with single blanks
between their tokens and nothing that could be left out, they are accepted, and
but for the spans the tree is the script that was written. -/
theorem parse_writeTokens_iff (target : Script Unit String) :
    (∃ parsed, parse (writeTokens (target.flatten id)) = .ok parsed ∧
      parsed.tree.map noNote parsed.names.text = target) ↔ target.IsCanonical := by
  constructor
  · rintro ⟨parsed, hrun, hshape⟩
    rw [← hshape]
    exact isCanonical_of_parse hrun
  · exact Script.IsCanonical.readBack

end FilterScript
