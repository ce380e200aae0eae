import FilterScript.Proofs.Spans.Covers
import FilterScript.Proofs.Spelling.Scripts

/-!
# The spans of names, lists, imports and types

A production gives its result a span that runs from the first token taken for it
to the last, and what the result is made of was taken in between, one part behind
the other.
-/

namespace FilterScript

variable {σ ν α : Type}

/-! ## Outlines of parts -/

@[simp] theorem Ident.note_outline (ident : Ident σ ν) : ident.outline.note = ident.span := rfl

@[simp] theorem Path.note_outline (path : Path σ ν) : path.outline.note = path.span := rfl

@[simp] theorem Pattern.note_outline (pattern : Pattern σ ν) :
    pattern.outline.note = pattern.span := rfl

@[simp] theorem TypeExpr.note_outline (type : TypeExpr σ ν) : type.outline.note = type.span := by
  cases type <;> simp [outline, span]

@[simp] theorem ImportPath.note_outline (path : ImportPath σ ν) : path.outline.note = path.span := by
  cases path
  simp [outline]

@[simp] theorem Expr.note_outline (expr : Expr σ ν) : expr.outline.note = expr.span := by
  cases expr with
  | typedRecord path fields span => cases fields; simp [outline, Expr.span]
  | _ => simp [outline, span]

@[simp] theorem Block.note_outline (block : Block σ ν) : block.outline.note = block.span := by
  cases block
  simp [outline]

@[simp] theorem ArmBody.note_outline (body : ArmBody σ ν) : body.outline.note = body.span := by
  cases body <;> simp [outline, span]

/-- A name with what it is given, as a node with this tag. -/
def Field.outline (tag : Tag σ ν) (outline : α → Outline σ ν) (field : Field σ ν α) :
    Outline σ ν :=
  .node tag field.span [field.name.outline, outline field.value]

/-- A part of an import path. -/
def ImportPart.outline : ImportPart σ ν → Outline σ ν
  | .name ident => ident.outline
  | .group members span => .node .group span (members.map ImportPath.outline)

theorem TypeExpr.outlineList_eq_map (types : List (TypeExpr σ ν)) :
    TypeExpr.outlineList types = types.map TypeExpr.outline := by
  induction types with
  | nil => rfl
  | cons type rest ih => rw [outlineList, ih, List.map_cons]

theorem TypeExpr.outlineFields_eq_map (fields : List (Field σ ν (TypeExpr σ ν))) :
    TypeExpr.outlineFields fields = fields.map (Field.outline .typeField TypeExpr.outline) := by
  induction fields with
  | nil => rfl
  | cons field rest ih => rw [outlineFields, ih, List.map_cons, Field.outline]

theorem Expr.outlineList_eq_map (exprs : List (Expr σ ν)) :
    Expr.outlineList exprs = exprs.map Expr.outline := by
  induction exprs with
  | nil => simp [outlineList]
  | cons expr rest ih => rw [outlineList, ih, List.map_cons]

theorem Expr.outlineFields_eq_map (fields : List (Field σ ν (Expr σ ν))) :
    Expr.outlineFields fields = fields.map (Field.outline .field Expr.outline) := by
  induction fields with
  | nil => simp [outlineFields]
  | cons field rest ih => rw [outlineFields, ih, List.map_cons, Field.outline]

theorem Arm.outlineList_eq_map (arms : List (Arm σ ν)) :
    Arm.outlineList arms = arms.map Arm.outline := by
  induction arms with
  | nil => simp [outlineList]
  | cons arm rest ih => rw [outlineList, ih, List.map_cons]

theorem Statement.outlineList_eq_map (statements : List (Statement σ ν)) :
    Statement.outlineList statements = statements.map Statement.outline := by
  induction statements with
  | nil => simp [outlineList]
  | cons statement rest ih => rw [outlineList, ih, List.map_cons]

theorem ImportPath.outlineList_eq_map (paths : List (ImportPath σ ν)) :
    ImportPath.outlineList paths = paths.map ImportPath.outline := by
  induction paths with
  | nil => simp [outlineList]
  | cons path rest ih => rw [outlineList, ih, List.map_cons]

theorem ImportPart.outlineList_eq_map (parts : List (ImportPart σ ν)) :
    ImportPart.outlineList parts = parts.map ImportPart.outline := by
  induction parts with
  | nil => simp [outlineList]
  | cons part rest ih =>
      cases part with
      | name ident => rw [outlineList, ih, List.map_cons, ImportPart.outline]
      | group members span =>
          rw [outlineList, ih, List.map_cons, ImportPart.outline, ImportPath.outlineList_eq_map]

/-- What is shown before tokens are taken is the first of them. -/
theorem Shows.mem_head? {token : Token} {taken : List Token} {rest : List Scan}
    (h : Shows 0 (taken.map .ok ++ rest) token) (htaken : taken ≠ []) : token ∈ taken.head? := by
  match taken, htaken with
  | first :: _, _ => exact congrArg some (show token = first from h).symm

namespace Grammar

open Parse Outline

variable {final : Names} {records : Bool} {input : List Scan}

/-- The outline of every result covers the tokens taken for it. -/
def Covered (final : Names) (outline : α → Outline Span Symbol) (production : Parse α) : Prop :=
  ∀ records input, Reads final records input production fun result taken _ =>
    (outline result).Covers taken

theorem ident_covered : Covered final Ident.outline ident := by
  intro records input
  refine .mono .ident ?_
  rintro ident _ rest _ ⟨token, rfl, -, -, hspan⟩
  exact covers_leaf (hspan ▸ .single token)

theorem path_covered : Covered final Path.outline path := by
  intro records input
  refine .bind .ident ?_
  rintro first _ rest _ ⟨token, rfl, -, -, hspan⟩
  have hrounds : Reads final records rest (repeated pathRound []) fun names more _ =>
      CoverIn (names.map Ident.outline) more ∧
        ∃ last ∈ (token :: more).getLast?, last.span = (names.getLastD first).span := by
    refine .repeated
      (fun names more _ => CoverIn (names.map Ident.outline) more ∧
        ∃ last ∈ (token :: more).getLast?, last.span = (names.getLastD first).span)
      ⟨coverIn_nil, token, rfl, hspan⟩ fun names taken rest hnames => ?_
    refine .bind pathContinues_reads ?_
    rintro continues _ _ _ ⟨rfl, rfl, hcontinues⟩
    cases continues with
    | false => exact .pure (by simpa using hnames)
    | true =>
        refine .bind_advance (hcontinues.mp rfl).1 rfl fun dot rest _ _ => ?_
        refine .bind .ident ?_
        rintro name _ rest _ ⟨last, rfl, -, -, hlast⟩
        have hname : name.outline.Covers [last] := covers_leaf (hlast ▸ .single last)
        have hmem : last ∈ (token :: (taken ++ [dot, last])).getLast? :=
          List.getLast?_eq_some_iff.mpr ⟨token :: (taken ++ [dot]), by simp⟩
        refine .pure ⟨?_, last, by simpa using hmem, by simpa using hlast⟩
        simpa using hnames.1.append (hname.coverIn.skip [dot])
  refine .bind hrounds ?_
  rintro names more rest _ ⟨hnames, last, hmem, hlast⟩
  have hfirst : first.outline.Covers [token] := covers_leaf (hspan ▸ .single token)
  refine .pure (covers_node.mpr ⟨?_, ?_⟩)
  · rw [← hspan, ← hlast]
    exact .of_tokens rfl (by simpa using hmem)
  · simpa [Path.segments] using hfirst.cons hnames

theorem commaList_covered {close : Kind} {outline : α → Outline Span Symbol} {element : Parse α}
    (helement : Covered final outline element) :
    Reads final records input (commaList close element) fun elements taken _ =>
      CoverIn (elements.map outline) taken := by
  refine .bind loneComma_reads ?_
  rintro lone _ _ _ ⟨rfl, rfl, hlone⟩
  cases lone with
  | true => exact .bind_advance (hlone rfl) rfl fun comma rest _ _ => .pure coverIn_nil
  | false =>
      refine .repeated (fun elements taken _ => CoverIn (elements.map outline) taken)
        coverIn_nil fun elements taken rest helements => ?_
      refine .bind_accepts (fun _ => .pure (by simpa using helements)) fun _ => ?_
      refine .bind (helement _ _) fun next more rest _ hnext => ?_
      refine .bind_takes rfl (fun comma rest _ _ => .pure ?_) fun _ => .pure ?_
      · simpa using helements.append (hnext.coverIn.trail [comma])
      · simpa using helements.append hnext.coverIn

theorem field_covered (tag : Tag Span Symbol) {spanOf : α → Span}
    {outline : α → Outline Span Symbol} {value : Parse α}
    (hspan : ∀ value, (outline value).note = spanOf value) (hvalue : Covered final outline value) :
    Covered final (Field.outline tag outline) (field spanOf value) := by
  intro records input
  refine .bind (ident_covered records input) fun name taken rest _ hname => ?_
  refine .bind_expect rfl fun colon rest _ _ => ?_
  refine .bind (hvalue records rest) fun given more rest _ hgiven => .pure ?_
  refine covers_node.mpr ⟨?_, ?_⟩
  · rw [← hspan]
    simpa using hname.joins.hull [colon] hgiven.joins
  · simpa using hname.cons (hgiven.coverIn.skip [colon])

/-- Fields in braces, whatever the tags are. -/
theorem record_covered (whole tag : Tag Span Symbol) {spanOf : α → Span}
    {outline : α → Outline Span Symbol} {value : Parse α}
    (hspan : ∀ value, (outline value).note = spanOf value) (hvalue : Covered final outline value) :
    Covered final
      (fun record => .node whole record.span (record.fields.map (Field.outline tag outline)))
      (record spanOf value) := by
  intro records input
  refine .bind_expect rfl fun left rest _ _ => ?_
  refine .bind (.withRecords (commaList_covered (field_covered tag hspan hvalue)))
    fun fields taken rest _ hfields => ?_
  refine .bind_expect rfl fun right rest _ _ => .pure (covers_node.mpr ⟨?_, ?_⟩)
  · simpa using (Span.Joins.single left).hull taken (.single right)
  · simpa using (hfields.skip [left]).trail [right]

/-! ## Imports -/

/-- A part of an import path, and the span of its last token. -/
def CoveredPart (part : ImportPart Span Symbol × Span) (taken : List Token) : Prop :=
  part.1.outline.Covers taken ∧ ∃ last ∈ taken.getLast?, last.span = part.2

theorem importPart_covered {member : Parse (ImportPath Span Symbol)}
    (hmember : Covered final ImportPath.outline member) :
    Reads final records input (importPart member) fun part taken _ => CoveredPart part taken := by
  refine .bind_peek fun token hshows => ?_
  split
  next hkind =>
    refine .bind_advance ⟨token, hshows, congrArg Kind.variant hkind⟩ rfl fun left rest _ _ => ?_
    refine .bind (commaList_covered hmember) fun members taken rest _ hmembers => ?_
    refine .bind_expect rfl fun right rest _ _ => .pure ⟨covers_node.mpr ⟨?_, ?_⟩, right, ?_, rfl⟩
    · simpa using (Span.Joins.single left).hull taken (.single right)
    · simpa using (hmembers.skip [left]).trail [right]
    · exact List.getLast?_eq_some_iff.mpr ⟨left :: taken, by simp⟩
  next =>
    refine .bind .ident ?_
    rintro name _ rest _ ⟨token, rfl, -, -, hspan⟩
    exact .pure ⟨covers_leaf (hspan ▸ .single token), token, rfl, hspan⟩
  next => exact .bind_want (.bind_want .refuse)

theorem importPathWithin_covered (levels : Nat) :
    Covered final ImportPath.outline (importPathWithin levels) := by
  induction levels with
  | zero => exact fun _ _ => .refuse
  | succ levels ih =>
      refine fun records input => .nested (.bind_peek fun start hstart => ?_)
      have hparts : Reads final records input (repeated (importRound (importPathWithin levels)) [])
          fun parts taken _ => CoverIn (parts.1.map ImportPart.outline) taken ∧
            ∃ last ∈ taken.getLast?, last.span = parts.2 := by
        refine .repeated (fun parts taken _ => CoverIn (parts.map ImportPart.outline) taken)
          coverIn_nil fun parts taken rest hparts => ?_
        refine .bind (importPart_covered ih) ?_
        rintro ⟨part, span⟩ more rest _ ⟨hpart, last, hmem, hlast⟩
        refine .bind_takes rfl (fun dot rest _ _ => .pure ?_) fun _ => .pure ⟨?_, last, ?_, hlast⟩
        · simpa using hparts.append (hpart.coverIn.trail [dot])
        · simpa using hparts.append hpart.coverIn
        · simp [List.getLast?_append, Option.mem_def.mp hmem]
      refine .bind hparts ?_
      rintro ⟨parts, span⟩ taken rest rfl ⟨hcover, last, hmem, rfl⟩
      have hstart := hstart.mem_head? (by rintro rfl; cases hmem)
      refine .pure ?_
      rw [List.append_nil, ImportPath.outline, ImportPart.outlineList_eq_map]
      exact covers_node.mpr ⟨.of_tokens hstart hmem, hcover⟩

theorem importPath_covered : Covered final ImportPath.outline importPath :=
  fun records input => .bounded fun levels => importPathWithin_covered levels records input

theorem importDeclaration_covered :
    Reads final records input importDeclaration fun declared taken _ =>
      declared.2.Joins taken ∧ CoverIn [declared.1.outline] taken := by
  refine .bind_expect rfl fun start rest _ _ => ?_
  refine .bind (importPath_covered records rest) fun path taken rest _ hpath => ?_
  refine .bind_expect rfl fun stop rest _ _ => .pure ⟨?_, ?_⟩
  · simpa using (Span.Joins.single start).hull taken (.single stop)
  · simpa using (hpath.coverIn.skip [start]).trail [stop]

/-! ## Types -/

theorem namedType_covered {type : Parse (TypeExpr Span Symbol)}
    (htype : Covered final TypeExpr.outline type) :
    Covered final TypeExpr.outline (namedType type) := by
  intro records input
  refine .bind (path_covered records input) fun name taken rest _ hname => ?_
  refine .bind_nextIs (fun hnext => ?_) fun _ => .pure ?_
  · refine .bind_advance hnext rfl fun left rest _ _ => ?_
    refine .bind (commaList_covered htype) fun arguments more rest _ harguments => ?_
    refine .bind_expect rfl fun right rest _ _ => .pure ?_
    rw [TypeExpr.outline, TypeExpr.outlineList_eq_map]
    refine covers_node.mpr ⟨?_, ?_⟩
    · simpa using hname.joins.hull (left :: more) (.single right)
    · simpa using hname.cons ((harguments.skip [left]).trail [right])
  · rw [TypeExpr.outline, TypeExpr.outlineList, List.append_nil]
    exact covers_node.mpr ⟨hname.joins, hname.coverIn⟩

theorem typeAtom_covered {type : Parse (TypeExpr Span Symbol)}
    (htype : Covered final TypeExpr.outline type) :
    Covered final TypeExpr.outline (typeAtom type) := by
  intro records input
  refine .bind_peek fun token hshows => ?_
  split
  next hkind =>
    refine .bind_advance ⟨token, hshows, congrArg Kind.variant hkind⟩ rfl fun mark rest _ _ => ?_
    exact .pure (covers_leaf (.single mark))
  next hkind =>
    refine .bind_advance ⟨token, hshows, congrArg Kind.variant hkind⟩ rfl fun left rest _ _ => ?_
    refine .bind_expect rfl fun right rest _ _ => .pure (covers_leaf ?_)
    exact (Span.Joins.single left).hull [] (.single right)
  next =>
    refine .bind (record_covered .typeFields .typeField TypeExpr.note_outline htype records input) ?_
    rintro ⟨fields, span⟩ taken rest _ hfields
    refine .pure ?_
    rw [TypeExpr.outline, TypeExpr.outlineFields_eq_map, List.append_nil]
    exact covers_node.mpr ⟨hfields.joins, hfields.coverIn⟩
  next => exact namedType_covered htype records input
  next => exact .bind_want .refuse

theorem optionalRound_covered {type : TypeExpr Span Symbol} {before : List Token}
    (htype : type.outline.Covers before) :
    Reads final records input (optionalRound type)
      (Reads.Keeps (fun type taken _ => type.outline.Covers taken)
        (fun type taken _ => type.outline.Covers taken) before) := by
  refine .bind_nextIs (fun hnext => ?_) fun _ => .pure (by simpa using htype)
  refine .bind_advance hnext rfl fun mark rest _ _ => ?_
  have hoptional : (TypeExpr.optional type (type.span.hull mark.span)).outline.Covers
      (before ++ [mark]) := by
    refine covers_node.mpr ⟨?_, htype.coverIn.trail [mark]⟩
    simpa using htype.joins.hull [] (.single mark)
  cases type.isOptional with
  | true => exact .bind_warn (.pure hoptional)
  | false => exact .pure hoptional

theorem typeWithin_covered (levels : Nat) :
    Covered final TypeExpr.outline (typeWithin levels) := by
  induction levels with
  | zero => exact fun _ _ => .refuse
  | succ levels ih =>
      refine fun records input => .nested ?_
      refine .bind (typeAtom_covered ih records input) fun atom taken rest _ hatom => ?_
      refine .repeated (fun type more _ => type.outline.Covers (taken ++ more))
        (by simpa using hatom) fun type more rest htype => ?_
      refine (optionalRound_covered htype).mono fun result last rest _ hresult => ?_
      cases result <;> simpa using hresult

theorem type_covered : Covered final TypeExpr.outline type :=
  fun records input => .bounded fun levels => typeWithin_covered levels records input

theorem parameters_covered :
    Reads final records input parameters fun list taken _ =>
      CoverIn (list.map Parameter.outline) taken := by
  refine .bind_expect rfl fun left rest _ _ => ?_
  refine .bind (commaList_covered (field_covered .parameter TypeExpr.note_outline type_covered))
    fun list taken rest _ hlist => ?_
  refine .bind_expect rfl fun right rest _ _ => .pure ?_
  have hparameters : CoverIn (list.map Parameter.outline) taken := hlist
  simpa using (hparameters.skip [left]).trail [right]

/-- The type behind a mark, whatever the mark is. -/
theorem typeAfter_covered (mark : Punct) :
    Reads final records input (do if ← takes mark then return some (← type) else return none)
      fun found taken _ => CoverIn (found.map TypeExpr.outline).toList taken := by
  refine .bind_takes rfl (fun token rest _ _ => ?_) fun _ => .pure coverIn_nil
  refine .bind (type_covered records rest) fun type taken rest _ htype => .pure ?_
  simpa using htype.coverIn.skip [token]

end Grammar

end FilterScript
