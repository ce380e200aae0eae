import FilterScript.Proofs.Layout.Rows
import FilterScript.Proofs.Spans.Lists

/-!
# The layout of names, lists, imports and types

The list production takes nothing but its elements and the commas between them. What
holds of every element that it reads holds of all of them in the list.
-/

namespace FilterScript

theorem Path.getLast?_segments {σ ν : Type} (path : Path σ ν) :
    path.segments.getLast? = some path.last := by
  rw [segments, last, List.getLast?_cons, ← List.getLastD_eq_getLast?]

namespace Grammar

open Parse Outline

variable {α : Type} {final : Names} {records : Bool} {input : List Scan}

/-- All nodes of every result are arranged as their sort asks for. -/
def Arranges (final : Names) (outline : α → Outline Span Symbol) (production : Parse α) : Prop :=
  ∀ records input, Reads final records input production fun result taken _ =>
    Every (Arranged final) [outline result] taken

/-- A tree so far, given the tokens taken for it: it covers these, and its nodes are
arranged over them. -/
structure Laid (final : Names) (outline : Outline Span Symbol) (tokens : List Token) : Prop where
  covers : outline.Covers tokens
  every : Every (Arranged final) [outline] tokens

theorem Covered.laid {outline : α → Outline Span Symbol} {production : Parse α}
    (hcovered : Covered final outline production) (h : Arranges final outline production) :
    Reads final records input production fun result taken _ => Laid final (outline result) taken :=
  ((hcovered records input).and (h records input)).mono
    fun _ _ _ _ ⟨hcovers, hevery⟩ => ⟨hcovers, hevery⟩

/-! ## Names and lists -/

theorem ident_arranges : Arranges final Ident.outline ident := by
  refine fun records input => Reads.named.mono ?_
  rintro ident _ rest - ⟨token, text, rfl, -, hkind, hspan, htext⟩
  exact .node ⟨token, text, rfl, hkind, hspan, htext⟩ .nil

theorem path_arranges : Arranges final Path.outline path := by
  intro records input
  refine .bind (ident_arranges records input) fun first taken rest _ hfirst => ?_
  have hrounds : Reads final records rest (repeated pathRound []) fun names more _ =>
      Every (Arranged final) (names.map Ident.outline) more := by
    refine .repeated (fun names more _ => Every (Arranged final) (names.map Ident.outline) more)
      .nil fun names taken rest hnames => ?_
    refine .bind pathContinues_reads ?_
    rintro continues _ _ _ ⟨rfl, rfl, hcontinues⟩
    cases continues with
    | false => exact .pure (by simpa using hnames)
    | true =>
        refine .bind_advance (hcontinues.mp rfl).1 rfl fun dot rest _ _ => ?_
        refine .bind (ident_arranges records rest) fun name more rest _ hname => .pure ?_
        simpa using hnames.append (hname.skip [dot])
  refine .bind hrounds fun names more rest _ hnames => .pure ?_
  refine .node ?_ (by simpa [Path.segments] using hfirst.append hnames)
  refine ⟨first.outline, rfl, ((names.getLastD first).outline), ?_, rfl⟩
  rw [Option.mem_def, List.getLast?_map, Path.getLast?_segments]
  rfl

/-- A list takes its elements and the commas between them, nothing else. -/
theorem commaList_arranges {close : Kind} {outline : α → Outline Span Symbol} {element : Parse α}
    (hcovered : Covered final outline element) (helement : Arranges final outline element) :
    Reads final records input (commaList close element) fun elements taken _ =>
      Listed (elements.map outline) taken ∧
        Every (Arranged final) (elements.map outline) taken := by
  refine .bind loneComma_reads ?_
  rintro lone _ _ _ ⟨rfl, rfl, hlone⟩
  cases lone with
  | true =>
      exact .bind_advance (hlone rfl) rfl fun comma rest _ hcomma =>
        .pure ⟨.inr ⟨rfl, comma, rfl, hcomma⟩, .nil⟩
  | false =>
      -- Only after a comma there is another round.
      refine .repeated (fun elements taken _ => Row true (elements.map outline) taken ∧
        Every (Arranged final) (elements.map outline) taken) ⟨.nil, .nil⟩ ?_
      rintro elements taken rest ⟨hrow, helements⟩
      refine .bind_accepts (fun _ => .pure ⟨.inl ⟨true, ?_⟩, ?_⟩) fun _ => ?_
      · simpa using hrow
      · simpa using helements
      refine .bind (hcovered.laid helement) fun next more rest _ hnext => ?_
      have hrow : Row false ((elements ++ [next]).map outline) (taken ++ more) := by
        simpa using hrow.element hnext.covers.joins
      have helements : Every (Arranged final) ((elements ++ [next]).map outline)
          (taken ++ more) := by
        simpa using helements.append hnext.every
      refine .bind_takes rfl (fun comma rest _ hcomma => .pure ⟨?_, ?_⟩) fun _ =>
        .pure ⟨.inl ⟨false, ?_⟩, ?_⟩
      · simpa using hrow.comma hcomma
      · simpa using helements.trail [comma]
      · simpa using hrow
      · simpa using helements

section Fields

variable (tag : Tag Span Symbol) {spanOf : α → Span} {outline : α → Outline Span Symbol}
  {value : Parse α}

theorem field_arranges
    (htag : ∀ span children tokens, Arranged final (.node tag span children) tokens)
    (hvalue : Arranges final outline value) :
    Arranges final (Field.outline tag outline) (field spanOf value) := by
  intro records input
  refine .bind (ident_arranges records input) fun name taken rest _ hname => ?_
  refine .bind_expect rfl fun colon rest _ _ => ?_
  refine .bind (hvalue records rest) fun given more rest _ hgiven => .pure (.node (htag _ _ _) ?_)
  simpa using hname.append (hgiven.skip [colon])

/-- Fields in braces, whatever the tags are. -/
theorem record_arranges
    (htag : ∀ span children tokens, Arranged final (.node tag span children) tokens)
    (hspan : ∀ value, (outline value).note = spanOf value) (hcovered : Covered final outline value)
    (hvalue : Arranges final outline value) :
    Reads final records input (record spanOf value) fun record taken _ =>
      (record.span.Joins taken ∧ Enclosed .lbrace .rbrace (· = [])
        (Listed (record.fields.map (Field.outline tag outline))) (· = []) taken) ∧
      Every (Arranged final) (record.fields.map (Field.outline tag outline)) taken := by
  refine .bind_expect rfl fun left rest _ hleft => ?_
  refine .bind (.withRecords (commaList_arranges (field_covered tag hspan hcovered)
    (field_arranges tag htag hvalue))) ?_
  rintro fields taken rest _ ⟨hlisted, hfields⟩
  refine .bind_expect rfl fun right rest _ hright => .pure ⟨⟨?_, ?_⟩, ?_⟩
  · simpa using (Span.Joins.single left).hull taken (.single right)
  · exact .of_tokens [] taken rfl hleft hlisted hright
  · simpa using (hfields.skip [left]).trail [right]

end Fields

/-! ## Imports -/

theorem importPart_arranges {member : Parse (ImportPath Span Symbol)}
    (hcovered : Covered final ImportPath.outline member)
    (hmember : Arranges final ImportPath.outline member) :
    Reads final records input (importPart member) fun part taken _ =>
      Every (Arranged final) [part.1.outline] taken := by
  refine .bind_peek fun token hshows => ?_
  split
  next hkind =>
    have hnext : Next Punct.lbrace input := ⟨token, hshows, congrArg Kind.variant hkind⟩
    refine .bind_advance hnext rfl fun left rest _ hleft => ?_
    refine .bind (commaList_arranges hcovered hmember) ?_
    rintro members taken rest _ ⟨hlisted, hmembers⟩
    refine .bind_expect rfl fun right rest _ hright => .pure (.node ⟨?_, ?_⟩ ?_)
    · simpa using (Span.Joins.single left).hull taken (.single right)
    · exact .of_tokens [] taken rfl hleft hlisted hright
    · simpa using (hmembers.skip [left]).trail [right]
  next =>
    refine .bind (ident_arranges records input) fun name taken rest _ hname => .pure ?_
    simpa [ImportPart.outline] using hname
  next => exact .bind_want (.bind_want .refuse)

theorem importPathWithin_arranges (levels : Nat) :
    Arranges final ImportPath.outline (importPathWithin levels) := by
  induction levels with
  | zero => exact fun _ _ => .refuse
  | succ levels ih =>
      refine fun records input => .nested (.bind_peek fun start _ => ?_)
      have hparts : Reads final records input (repeated (importRound (importPathWithin levels)) [])
          fun parts taken _ => parts.1 ≠ [] ∧
            Every (Arranged final) (parts.1.map ImportPart.outline) taken := by
        refine .repeated (fun parts taken _ =>
          Every (Arranged final) (parts.map ImportPart.outline) taken) .nil
            fun parts taken rest hparts => ?_
        refine .bind (importPart_arranges (importPathWithin_covered levels) ih) ?_
        rintro ⟨part, span⟩ more rest _ hpart
        refine .bind_takes rfl (fun dot rest _ _ => .pure ?_) fun _ => .pure ⟨by simp, ?_⟩
        · simpa using hparts.append (hpart.trail [dot])
        · simpa using hparts.append hpart
      refine .bind hparts ?_
      rintro ⟨parts, span⟩ taken rest _ ⟨hne, hparts⟩
      refine .pure ?_
      rw [List.append_nil, ImportPath.outline, ImportPart.outlineList_eq_map]
      exact .node (show parts.map ImportPart.outline ≠ [] by simpa using hne) hparts

theorem importPath_arranges : Arranges final ImportPath.outline importPath :=
  fun records input => .bounded fun levels => importPathWithin_arranges levels records input

theorem importDeclaration_arranges :
    Reads final records input importDeclaration fun declared taken _ =>
      Every (Arranged final) [declared.1.outline] taken := by
  refine .bind_expect rfl fun start rest _ _ => ?_
  refine .bind (importPath_arranges records rest) fun path taken rest _ hpath => ?_
  refine .bind_expect rfl fun stop rest _ _ => .pure ?_
  simpa using (hpath.skip [start]).trail [stop]

/-! ## Types -/

theorem namedType_arranges {type : Parse (TypeExpr Span Symbol)}
    (hcovered : Covered final TypeExpr.outline type)
    (htype : Arranges final TypeExpr.outline type) :
    Arranges final TypeExpr.outline (namedType type) := by
  intro records input
  refine .bind (path_covered.laid path_arranges) fun name taken rest _ hname => ?_
  refine .bind_nextIs (fun hnext => ?_) fun _ => .pure ?_
  · refine .bind_advance hnext rfl fun left rest _ hleft => ?_
    refine .bind (commaList_arranges hcovered htype) ?_
    rintro arguments more rest _ ⟨hlisted, harguments⟩
    refine .bind_expect rfl fun right rest _ hright => .pure ?_
    rw [TypeExpr.outline, TypeExpr.outlineList_eq_map]
    refine .node ?_ (by simpa using hname.every.append ((harguments.skip [left]).trail [right]))
    cases arguments with
    | nil => trivial
    | cons first others =>
        refine ⟨?_, .of_tokens taken more hname.covers.joins hleft hlisted hright⟩
        simpa using hname.covers.joins.hull (left :: more) (.single right)
  · rw [TypeExpr.outline, TypeExpr.outlineList, List.append_nil]
    exact .node trivial hname.every

theorem typeAtom_arranges {type : Parse (TypeExpr Span Symbol)}
    (hcovered : Covered final TypeExpr.outline type)
    (htype : Arranges final TypeExpr.outline type) :
    Arranges final TypeExpr.outline (typeAtom type) := by
  intro records input
  refine .bind_peek fun token hshows => ?_
  split
  next hkind =>
    refine .bind_advance ⟨token, hshows, congrArg Kind.variant hkind⟩ rfl fun mark rest _ _ => ?_
    exact .pure (.node trivial .nil)
  next hkind =>
    refine .bind_advance ⟨token, hshows, congrArg Kind.variant hkind⟩ rfl fun left rest _ _ => ?_
    exact .bind_expect rfl fun right rest _ _ => .pure (.node trivial .nil)
  next =>
    refine .bind (record_arranges .typeField (fun _ _ _ => trivial) TypeExpr.note_outline
      hcovered htype) ?_
    rintro ⟨fields, span⟩ taken rest _ ⟨hlists, hfields⟩
    refine .pure ?_
    rw [TypeExpr.outline, TypeExpr.outlineFields_eq_map, List.append_nil]
    exact .node trivial (.node hlists hfields)
  next => exact namedType_arranges hcovered htype records input
  next => exact .bind_want .refuse

theorem optionalRound_arranges {type : TypeExpr Span Symbol} {before : List Token}
    (htype : Laid final type.outline before) :
    Reads final records input (optionalRound type)
      (Reads.Keeps (fun type taken _ => Laid final type.outline taken)
        (fun type taken _ => Laid final type.outline taken) before) := by
  refine .bind_nextIs (fun hnext => ?_) fun _ => .pure (by simpa using htype)
  refine .bind_advance hnext rfl fun mark rest _ _ => ?_
  have hjoins : (type.span.hull mark.span).Joins (before ++ [mark]) := by
    simpa using htype.covers.joins.hull [] (.single mark)
  have hoptional : Laid final (TypeExpr.optional type (type.span.hull mark.span)).outline
      (before ++ [mark]) := by
    refine ⟨covers_node.mpr ⟨hjoins, htype.covers.coverIn.trail [mark]⟩, ?_⟩
    exact .node ⟨hjoins, before, mark, rfl, htype.covers.coverIn⟩ (htype.every.trail [mark])
  cases type.isOptional with
  | true => exact .bind_warn (.pure hoptional)
  | false => exact .pure hoptional

theorem typeWithin_arranges (levels : Nat) :
    Arranges final TypeExpr.outline (typeWithin levels) := by
  induction levels with
  | zero => exact fun _ _ => .refuse
  | succ levels ih =>
      have hcovered : Covered final TypeExpr.outline (typeWithin levels) :=
        typeWithin_covered levels
      refine fun records input => .nested (.bind ((typeAtom_covered hcovered).laid
        (typeAtom_arranges hcovered ih)) fun atom taken rest _ hatom => ?_)
      have hrounds : Reads final records rest (repeated optionalRound atom) fun type more _ =>
          Laid final type.outline (taken ++ more) := by
        refine .repeated (fun type more _ => Laid final type.outline (taken ++ more))
          (by simpa using hatom) fun type more rest htype => ?_
        refine (optionalRound_arranges htype).mono fun result last rest _ hresult => ?_
        cases result <;> simpa using hresult
      exact hrounds.mono fun type more rest _ htype => htype.every

theorem type_arranges : Arranges final TypeExpr.outline type :=
  fun records input => .bounded fun levels => typeWithin_arranges levels records input

theorem parameters_arranges :
    Reads final records input parameters fun list taken _ =>
      Enclosed .lparen .rparen (· = []) (Listed (list.map Parameter.outline)) (· = []) taken ∧
        Every (Arranged final) (list.map Parameter.outline) taken := by
  refine .bind_expect rfl fun left rest _ hleft => ?_
  refine .bind (commaList_arranges
    (field_covered .parameter TypeExpr.note_outline type_covered)
    (field_arranges .parameter (fun _ _ _ => trivial) type_arranges)) ?_
  rintro list taken rest _ ⟨hlisted, hlist⟩
  refine .bind_expect rfl fun right rest _ hright => .pure ⟨?_, ?_⟩
  · exact .of_tokens [] taken rfl hleft hlisted hright
  · have hparameters : Every (Arranged final) (list.map Parameter.outline) taken := hlist
    simpa using (hparameters.skip [left]).trail [right]

/-- The type behind a mark, whatever the mark is. -/
theorem typeAfter_arranges (mark : Punct) :
    Reads final records input (do if ← takes mark then return some (← type) else return none)
      fun found taken _ => Every (Arranged final) (found.map TypeExpr.outline).toList taken := by
  refine .bind_takes rfl (fun token rest _ _ => ?_) fun _ => .pure .nil
  refine .bind (type_arranges records rest) fun type taken rest _ htype => .pure ?_
  simpa using htype.skip [token]

end Grammar

end FilterScript
