import FilterScript.Grammar.Import
import FilterScript.Grammar.Type
import FilterScript.Proofs.Levels.Counts
import FilterScript.Proofs.Levels.Tree

/-!
# The levels of lists, imports and types

A production opens as many levels as its result has.
-/

namespace FilterScript

namespace Grammar

open Parse

variable {α : Type} {input : List Scan}

/-- The production opens as many levels as the number of its result says. -/
def Opens (number : α → Nat) (production : Parse α) : Prop :=
  ∀ input, Counts input production fun result levels => levels = number result

theorem opens_of_plain {production : Parse α} (h : Plain production) : Opens (fun _ => 0) production :=
  fun _ => .of_plain h fun _ _ => rfl

theorem pathContinues_plain : Plain pathContinues :=
  (Plain.nextIs _).bind fun found => by
    cases found
    · exact .pure _
    · exact (Plain.peekAt 1).bind fun _ => .pure _

theorem path_opens : Opens (fun _ => 0) path := by
  intro input
  refine .bind_plain .ident fun first rest => ?_
  have hrounds : Counts rest (repeated pathRound []) fun _ levels => levels = 0 := by
    refine .repeated (fun _ levels => levels = 0) rfl fun names levels rest hlevels => ?_
    refine .bind_plain pathContinues_plain fun continues rest => ?_
    cases continues with
    | false => exact .pure (by simpa using hlevels)
    | true =>
        refine .bind_plain .advance fun dot rest => .bind_plain .ident fun name rest => .pure ?_
        simpa using hlevels
  refine .bind hrounds ?_
  rintro names _ rest rfl
  exact .pure rfl

theorem loneComma_plain (close : Kind) : Plain (loneComma close) :=
  (Plain.nextIs _).bind fun found => by
    cases found
    · exact .pure _
    · exact (Plain.peekAt 1).bind fun _ => .pure _

theorem commaList_opens {close : Kind} {number : α → Nat} {element : Parse α}
    (helement : Opens number element) : Opens (most number) (commaList close element) := by
  intro input
  refine .bind_plain (loneComma_plain close) fun lone rest => ?_
  cases lone with
  | true => exact .bind_plain .advance fun _ _ => .pure rfl
  | false =>
      refine .repeated (fun elements levels => levels = most number elements) rfl ?_
      rintro elements _ rest rfl
      refine .bind_plain (.accepts close) fun closes rest => ?_
      cases closes with
      | true => exact .pure (by simp)
      | false =>
          refine .bind (helement rest) ?_
          rintro next _ rest rfl
          refine .bind_plain (.takes _) fun found rest => ?_
          cases found <;> exact .pure (by simp [most_append, most])

theorem field_opens {spanOf : α → Span} {number : α → Nat} {value : Parse α}
    (hvalue : Opens number value) :
    Opens (fun field : Field Span Symbol α => number field.value) (field spanOf value) := by
  intro input
  refine .bind_plain .ident fun name rest => .bind_plain (.expect _) fun colon rest => ?_
  refine .bind (hvalue rest) ?_
  rintro given _ rest rfl
  exact .pure (by simp)

theorem record_opens {spanOf : α → Span} {number : α → Nat} {value : Parse α}
    (hvalue : Opens number value) :
    Opens (fun record : Record Span Symbol α => most (fun field => number field.value) record.fields)
      (record spanOf value) := by
  intro input
  refine .bind_plain (.expect _) fun left rest => ?_
  refine .bind (.withRecords (commaList_opens (field_opens hvalue) rest)) ?_
  rintro fields _ rest rfl
  exact .bind_plain (.expect _) fun right rest => .pure (by simp)

/-! ## Imports -/

theorem importPart_opens {member : Parse (ImportPath Span Symbol)}
    (hmember : Opens ImportPath.levels member) :
    Opens (fun part => ImportPart.levelsList [part.1]) (importPart member) := by
  refine fun input => .bind_peek fun token _ => ?_
  split
  next =>
    refine .bind_plain .advance fun left rest => ?_
    refine .bind (commaList_opens hmember rest) ?_
    rintro members _ rest rfl
    refine .bind_plain (.expect _) fun right rest => .pure ?_
    simp [ImportPart.levelsList, ImportPath.levelsList_eq_most]
  next => exact .bind_plain .ident fun name rest => .pure (by simp [ImportPart.levelsList])
  next => exact .bind_plain (.want _) fun _ _ => .bind_plain (.want _) fun _ _ => .refuse

theorem importPathWithin_opens (levels : Nat) : Opens ImportPath.levels (importPathWithin levels) := by
  induction levels with
  | zero => exact fun _ => .refuse
  | succ levels ih =>
      have hparts : ∀ input, Counts input (repeated (importRound (importPathWithin levels)) [])
          fun parts levels => levels = ImportPart.levelsList parts.1 := by
        intro input
        refine .repeated (fun parts levels => levels = ImportPart.levelsList parts)
          (by simp [ImportPart.levelsList]) ?_
        rintro parts _ rest rfl
        refine .bind (importPart_opens ih rest) ?_
        rintro part _ rest rfl
        refine .bind_plain (.takes _) fun found rest => ?_
        cases found <;> exact .pure (by simp [ImportPart.levelsList_append])
      refine fun input => .nested (.bind .peek) (.bind_plain .peek fun start rest => ?_)
      refine .bind (hparts rest) ?_
      rintro ⟨parts, last⟩ _ rest rfl
      exact .pure (by simp [ImportPath.levels])

theorem importPath_opens : Opens ImportPath.levels importPath :=
  fun input => .bounded fun levels => importPathWithin_opens levels input

theorem importDeclaration_opens :
    Opens (fun declared => ImportPath.levels declared.1) importDeclaration := by
  refine fun input => .bind_plain (.expect _) fun start rest => ?_
  refine .bind (importPath_opens rest) ?_
  rintro path _ rest rfl
  exact .bind_plain (.expect _) fun stop rest => .pure (by simp)

/-! ## Types -/

theorem typeAtom_opens {type : Parse (TypeExpr Span Symbol)} (htype : Opens TypeExpr.levels type) :
    Counts input (typeAtom type) fun atom levels => atom.levels = levels + 1 := by
  refine .bind_peek fun token _ => ?_
  split
  next => exact .bind_plain .advance fun mark rest => .pure rfl
  next =>
    exact .bind_plain .advance fun left rest => .bind_plain (.expect _) fun right rest => .pure rfl
  next =>
    refine .bind (record_opens htype input) ?_
    rintro ⟨fields, span⟩ _ rest rfl
    exact .pure (by simp [TypeExpr.levels, TypeExpr.levelsFields_eq_most])
  next =>
    refine .bind (path_opens input) ?_
    rintro name _ rest rfl
    refine .bind_plain (.nextIs _) fun found rest => ?_
    cases found with
    | true =>
        refine .bind_plain .advance fun left rest => .bind (commaList_opens htype rest) ?_
        rintro arguments _ rest rfl
        refine .bind_plain (.expect _) fun right rest => .pure ?_
        simp [TypeExpr.levels, TypeExpr.levelsList_eq_most]
    | false => exact .pure (by simp [TypeExpr.levels, TypeExpr.levelsList])
  next => exact .bind_plain (.want _) fun _ _ => .refuse

theorem typeWithin_opens (levels : Nat) : Opens TypeExpr.levels (typeWithin levels) := by
  induction levels with
  | zero => exact fun _ => .refuse
  | succ levels ih =>
      refine fun input => .nested (.bind (.bind .peek)) (.bind (typeAtom_opens ih) ?_)
      intro atom levels rest hatom
      refine .repeated (fun type more => more = 0 ∧ type.levels = levels + 1) ⟨rfl, hatom⟩ ?_
      rintro type _ rest ⟨rfl, htype⟩
      refine .bind_plain (.nextIs _) fun found rest => ?_
      cases found with
      | false => exact .pure (by simp [htype])
      | true =>
          refine .bind_plain .advance fun mark rest => ?_
          cases type.isOptional with
          | true => exact .bind_plain (.warn _ _) fun _ rest => .pure (by simp [TypeExpr.levels, htype])
          | false => exact .pure (by simp [TypeExpr.levels, htype])

theorem type_opens : Opens TypeExpr.levels type :=
  fun input => .bounded fun levels => typeWithin_opens levels input

theorem parameters_opens : Opens TypeExpr.levelsFields parameters := by
  refine fun input => .bind_plain (.expect _) fun left rest => ?_
  refine .bind (commaList_opens (field_opens type_opens) rest) ?_
  rintro list _ rest rfl
  refine .bind_plain (.expect _) fun right rest => .pure ?_
  simp [TypeExpr.levelsFields_eq_most]

theorem typeAfter_opens (mark : Punct) :
    Opens TypeExpr.levelsOption (do if ← takes mark then return some (← type) else return none) := by
  refine fun input => .bind_plain (.takes _) fun found rest => ?_
  cases found with
  | false => exact .pure rfl
  | true =>
      refine .bind (type_opens rest) ?_
      rintro type _ rest rfl
      exact .pure (by simp [TypeExpr.levelsOption])

end Grammar

end FilterScript
