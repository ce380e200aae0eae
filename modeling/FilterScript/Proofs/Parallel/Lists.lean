import FilterScript.Proofs.Parallel.Runs

/-!
# Two runs through names, lists, imports and types

Each production comes with two statements. One is about a single run that has the
fork right in front of it: which tokens there get it past. The other is about two
runs that are together: they end together with results that look the same, unless
one of them gets past the fork.
-/

namespace FilterScript

variable {α γ : Type}

/-- Two results that look the same, with at least one token taken. -/
structure Alike (view : α → γ) (common : List Twin) (results : Side → α) (rest : List Twin) :
    Prop where
  shorter : rest.length < common.length
  view : view (results .left) = view (results .right)

/-- Two results that look the same. -/
def Same (view : α → γ) (results : Side → α) (_ : List Twin) : Prop :=
  view (results .left) = view (results .right)

namespace Same

variable {view : α → γ} {lists : Side → List α} {common rest : List Twin}

theorem nil : Same (List.map view) (fun _ => []) common := rfl

theorem length_eq (h : Same (List.map view) lists common) (side : Side) :
    (lists side).length = (lists .left).length :=
  Side.eq_left (fun side => (lists side).length) (by simpa using congrArg List.length h) side

theorem snoc {elements : Side → α} (h : Same (List.map view) lists common)
    (helements : view (elements .left) = view (elements .right)) :
    Same (List.map view) (fun side => lists side ++ [elements side]) rest := by
  unfold Same at h ⊢
  rw [List.map_append, List.map_append, h, List.map_singleton, List.map_singleton, helements]

end Same

namespace Grammar

open Parse Parallel

variable {fork : Fork} {records : Bool} {common : List Twin} {place : Stream} {token : Token}
  {bound : Nat}

/-- Two runs with fewer shared tokens in front of them than the bound says take
at least one and give results that look the same. -/
def Mirrors (fork : Fork) (bound : Nat) (view : α → γ) (production : Side → Parse α) : Prop :=
  ∀ records common, common.length < bound →
    Parallel fork records common production Never (Alike view common)

/-- Results that look the same behind a token that is already taken. -/
theorem alike_of_same {production : Side → Parse α} {view : α → γ} {stop : α → Kind → Prop}
    {rest : List Twin} (hshorter : rest.length < common.length)
    (h : Parallel fork records rest production stop (Same view)) :
    Parallel fork records rest production stop (Alike view common) := by
  apply h.mono
  intro results left hleft hview
  exact ⟨Nat.lt_of_le_of_lt hleft.length_le hshorter, hview⟩

/-- A production that recurs with a bound on its levels. The bound that a run
starts with is never reached: each level takes a token. -/
theorem Mirrors.bounded {production : Nat → Parse α} {view : α → γ}
    (h : ∀ {bound : Nat} {levels : Side → Nat}, (∀ side, bound ≤ levels side) →
      Mirrors fork bound view fun side => production (levels side)) :
    Parallel fork records common (fun _ => bounded production) Never (Alike view common) := by
  apply Parallel.bounded
  intro most hmost
  have hlevels (side : Side) : common.length + 1 ≤ most side := by
    have := hmost side
    omega
  exact h hlevels records common (Nat.lt_succ_self _)

/-! ## Names and paths -/

theorem ident_passes (hshown : place.lookahead 0 = .ok token) (hname : token.kind.isName = true) :
    Passes place [] records ident Never := by
  obtain ⟨kind, span⟩ := token
  cases kind with
  | name text raw =>
      refine Passes.bind_peek hshown ?_
      exact .bind_any (.advance hshown Kind.noConfusion)
  | _ => cases hname

theorem bind_ident {β : Type} {next : Ident Span Symbol → Parse β} {stop : β → Kind → Prop}
    {ahead : List Token} (hname : token.kind.isName = true)
    (h : ∀ ident, Passes place ahead records (next ident) stop) :
    Passes place (token :: ahead) records (ident >>= next) stop := by
  obtain ⟨kind, span⟩ := token
  obtain ⟨text, raw, rfl⟩ := Kind.eq_name_of_isName hname
  unfold ident
  rw [bind_assoc]
  refine Passes.bind_peek rfl ?_
  rw [bind_assoc]
  apply Passes.bind_advance
  rw [bind_assoc]
  apply Passes.bind_intern
  intro symbol
  exact h _

/-- Names look all the same. -/
theorem ident_parallel : Parallel fork records common (fun _ => ident) Never
    (Alike (Outline.shape ∘ Ident.outline) common) := by
  apply bind_peek Kind.isName rfl Kind.isName_shape
  · rintro twin rest rfl hname
    choose text raw hkind using twin.exists_name hname
    simp only [hkind]
    apply bind_advance
    apply bind_intern
    intro symbols
    exact .pure ⟨Nat.lt_succ_self _, by simp⟩
  · intro tokens hshown hname
    apply Parallel.congr (want_refuse .identifier hshown hname)
    intro side
    split
    next hkind => simpa [hkind, Kind.isName] using hname side
    next => rfl
  · intro _ _ side token hshown hname
    exact ident_passes hshown hname

theorem ident_mirrors : Mirrors fork bound (Outline.shape ∘ Ident.outline) fun _ => ident :=
  fun _ _ _ => ident_parallel

section

variable {β : Type} {yes no : Parse β}

theorem if_pathContinues_eq :
    (do if ← pathContinues then yes else no) =
      (do if ← nextIs Punct.dot then (do if (← peekAt 1).kind.isName then yes else no) else no) := by
  unfold pathContinues
  rw [bind_assoc]
  refine congrArg (nextIs Punct.dot >>= ·) (funext fun found => ?_)
  cases found with
  | true => simp only [↓reduceIte, bind_assoc, pure_bind]
  | false => rfl

theorem if_loneComma_eq (close : Kind) :
    (do if ← loneComma close then yes else no) =
      (do if ← nextIs Punct.comma then
            (do if (← peekAt 1).kind.variant == close.variant then yes else no)
          else no) := by
  unfold loneComma
  rw [bind_assoc]
  refine congrArg (nextIs Punct.comma >>= ·) (funext fun found => ?_)
  cases found with
  | true => simp only [↓reduceIte, bind_assoc, pure_bind]
  | false => rfl

end

/-- A dot with a name behind it goes on with a path. -/
theorem pathRound_parallel {rests : Side → List (Ident Span Symbol)}
    (hrests : Same (List.map (Outline.shape ∘ Ident.outline)) rests common) :
    Parallel fork records common (fun side => pathRound (rests side)) (Round.Stops Never Never)
      (Round.Agree (Same (List.map (Outline.shape ∘ Ident.outline)))
        (Same (List.map (Outline.shape ∘ Ident.outline))) common) := by
  unfold pathRound
  simp only [if_pathContinues_eq]
  apply if_nextTwo rfl Kind.isName rfl Kind.isName_shape
  · rintro dot name rest rfl _ _
    apply bind_advance
    apply ident_parallel.bind_never
    intro names rest' _ hnames
    refine .pure (.more ?_ (hrests.snoc hnames.view))
    exact Nat.lt_succ_of_lt hnames.shorter
  · exact .pure (.done hrests)
  · intro _ _ side token hshown hdot
    exact .bind_any (.advance hshown (hdot ▸ Kind.noConfusion))
  · intro _ dot _ side token hshown hname
    apply Passes.bind_advance
    exact .bind_any (ident_passes hshown hname)

theorem path_passes (hshown : place.lookahead 0 = .ok token) (hname : token.kind.isName = true) :
    Passes place [] records path Never :=
  .bind_any (ident_passes hshown hname)

theorem path_parallel : Parallel fork records common (fun _ => path) Never
    (Alike (Outline.shape ∘ Path.outline) common) := by
  apply ident_parallel.bind_never
  intro firsts rest _ hfirsts
  have hrounds : Parallel fork records rest (fun _ => repeated pathRound []) Never
      (Same (List.map (Outline.shape ∘ Ident.outline))) := by
    apply repeated_never (Same (List.map (Outline.shape ∘ Ident.outline))) .nil
    exact fun _ _ _ hrests => pathRound_parallel hrests
  apply hrounds.bind_never
  intro rests left hleft hrests
  refine .pure ⟨Nat.lt_of_le_of_lt hleft.length_le hfirsts.shorter, ?_⟩
  simpa [Path.outline, Path.segments, Same, Tag.shape] using hrests

/-! ## Lists and records -/

section Lists

variable {close : Kind} {view : α → γ}

theorem commaList_passes {ahead : List Token} {element : Parse α} [Steady element]
    (hshown : (place.before ahead).lookahead 0 = .ok token)
    (hcomma : (token.kind.variant == Kind.variant Punct.comma) = false)
    (hclose : (token.kind.variant == close.variant) = false)
    (h : Passes place ahead records element Never) :
    Passes place ahead records (commaList close element) Never := by
  unfold commaList
  rw [if_loneComma_eq]
  refine Passes.if_nextIs_not hshown hcomma ?_
  apply Passes.repeated
  refine Passes.if_accepts_not hshown hclose ?_
  exact .bind_any h

variable {element : Side → Parse α} [∀ side, Steady (element side)]

/-- A run stops where its list is closed. -/
theorem commaList_parallel (hclose : close.isFixed) (helement : Mirrors fork bound view element)
    (hbound : common.length < bound) :
    Parallel fork records common (fun side => commaList close (element side)) (StopsAt close)
      (Same (List.map view)) := by
  unfold commaList
  simp only [if_loneComma_eq]
  apply if_nextTwo rfl fun found => found.variant == close.variant
  · exact beq_false_of_ne (Kind.variant_endOfFile_ne hclose)
  · exact Kind.variant_shape_beq hclose
  · rintro comma last rest rfl _ _
    exact bind_advance (.pure .nil)
  · apply repeated_never (Same (List.map view)) .nil
    intro lists rest hrest hlists
    apply if_accepts hclose
    · exact fun _ _ _ _ => .pure (.done hlists)
    · apply (helement records rest (Nat.lt_of_le_of_lt hrest.length_le hbound)).bind_never
      intro elements left _ helements
      apply if_takes rfl
      · rintro comma tail rfl _
        refine .pure (.more ?_ (hlists.snoc helements.view))
        exact Nat.lt_of_succ_lt helements.shorter
      · exact .pure (.done (hlists.snoc helements.view))
    · intro _ _ side token hshown hkind
      exact .pure hshown hkind
  · intro _ _ side token hshown hkind
    exact .bind_any (.advance hshown (hkind ▸ Kind.noConfusion))
  · -- A list of one comma: the run stops at the bracket behind it.
    intro _ comma _ side token hshown hvariant
    apply Passes.bind_advance
    exact .pure hshown (Kind.eq_of_variant_eq hclose (beq_iff_eq.mp hvariant))

end Lists

section Records

variable {spanOf : α → Span}

section

variable {value : Parse α} [Steady value]

theorem field_passes (hshown : place.lookahead 0 = .ok token)
    (hname : token.kind.isName = true) : Passes place [] records (field spanOf value) Never :=
  .bind_any (ident_passes hshown hname)

/-- The colon behind the name of a field. -/
theorem field_colon_passes {name : Token}
    (hname : name.kind.isName = true) (hshown : place.lookahead 0 = .ok token)
    (hkind : token.kind = Punct.colon) : Passes place [name] records (field spanOf value) Never := by
  apply bind_ident hname
  intro ident
  exact .bind_any (.expect hshown Kind.noConfusion hkind)

theorem record_passes (hshown : place.lookahead 0 = .ok token)
    (hkind : token.kind = Punct.lbrace) : Passes place [] records (record spanOf value) Never :=
  .bind_any (.expect hshown Kind.noConfusion hkind)

/-- The first field of a record, behind its brace. -/
theorem record_field_passes {left : Token} {ahead : List Token}
    (hleft : left.kind = Punct.lbrace) (hshown : (place.before ahead).lookahead 0 = .ok token)
    (hname : token.kind.isName = true) (h : Passes place ahead true (field spanOf value) Never) :
    Passes place (left :: ahead) records (record spanOf value) Never := by
  apply Passes.bind_expect hleft
  apply Passes.bind_any
  apply Passes.withRecords
  exact commaList_passes hshown (Kind.variant_beq_of_isName hname rfl)
    (Kind.variant_beq_of_isName hname rfl) h

end

variable {value : Side → Parse α} [∀ side, Steady (value side)]
  {outline : α → Outline Span Symbol} {tag : Tag Span Symbol}

theorem field_mirrors (hvalue : Mirrors fork bound (Outline.shape ∘ outline) value) :
    Mirrors fork bound (Outline.shape ∘ Field.outline tag outline)
      fun side => field spanOf (value side) := by
  intro records common hbound
  apply ident_parallel.bind_never
  intro names rest _ hnames
  apply bind_expect rfl
  rintro colon rest' rfl _
  have hshorter : rest'.length < common.length := Nat.lt_of_succ_lt hnames.shorter
  apply (hvalue records rest' (hshorter.trans hbound)).bind_never
  intro values left _ hvalues
  refine .pure ⟨hvalues.shorter.trans hshorter, ?_⟩
  have := hvalues.view
  simp_all [Field.outline]

theorem record_parallel (hvalue : Mirrors fork bound (Outline.shape ∘ outline) value)
    (hbound : common.length ≤ bound) :
    Parallel fork records common (fun side => record spanOf (value side)) Never
      (Alike (fun record => record.fields.map (Outline.shape ∘ Field.outline tag outline))
        common) := by
  apply bind_expect rfl
  rintro left rest rfl _
  have hfields : Parallel fork records rest
      (fun side => withRecords true (commaList Punct.rbrace (field spanOf (value side))))
      (StopsAt Punct.rbrace) (Same (List.map (Outline.shape ∘ Field.outline tag outline))) :=
    .withRecords (commaList_parallel rfl (field_mirrors hvalue) hbound)
  apply bind_closed hfields rfl
  intro fields right last hlast hfields
  refine .pure ⟨?_, hfields⟩
  exact Nat.lt_succ_of_lt (Nat.lt_of_succ_le hlast.length_le)

end Records

/-- What may follow a mark, or be left out together with it. -/
theorem optional_parallel {mark : Kind} {view : α → γ} {value : Side → Parse α}
    [∀ side, Steady (value side)] (hmark : mark.isFixed) (hvalue : Mirrors fork bound view value)
    (hbound : common.length ≤ bound) :
    Parallel fork records common
      (fun side => do if ← takes mark then return some (← value side) else return none) Never
      (Same (Option.map view)) := by
  apply if_takes hmark
  · rintro first rest rfl _
    apply (hvalue records rest hbound).bind_never
    intro values left _ hvalues
    exact .pure (congrArg some hvalues.view)
  · exact .pure rfl

/-! ## Imports -/

/-- A part of a path is a name or a group. -/
def beginsPart (kind : Kind) : Bool :=
  Expected.identifier.meets kind || (Expected.token Punct.lbrace).meets kind

theorem beginsPart_iff {kind : Kind} :
    beginsPart kind = true ↔ kind.isName = true ∨ kind = Punct.lbrace := by
  simp only [beginsPart, Bool.or_eq_true, Expected.meets, beq_iff_eq]
  exact or_congr_right ⟨Kind.eq_of_variant_eq rfl, congrArg Kind.variant⟩

section Imports

theorem importPart_passes {member : Parse (ImportPath Span Symbol)} [Steady member]
    (hshown : place.lookahead 0 = .ok token) (hbegins : beginsPart token.kind = true) :
    Passes place [] records (importPart member) Never := by
  obtain ⟨kind, span⟩ := token
  refine Passes.bind_peek hshown ?_
  rcases beginsPart_iff.mp hbegins with hname | rfl
  · obtain ⟨text, raw, rfl⟩ := Kind.eq_name_of_isName hname
    exact .bind_any (ident_passes hshown rfl)
  · exact .bind_any (.advance hshown Kind.noConfusion)

variable {member : Side → Parse (ImportPath Span Symbol)} [∀ side, Steady (member side)]

theorem importPart_parallel (hmember : Mirrors fork bound (Outline.shape ∘ ImportPath.outline) member)
    (hbound : common.length ≤ bound) :
    Parallel fork records common (fun side => importPart (member side)) Never
      (Alike (fun part => part.1.outline.shape) common) := by
  apply bind_peek beginsPart rfl
  · intro kind
    cases kind <;> rfl
  · rintro twin rest rfl hbegins
    rcases beginsPart_iff.mp hbegins with hname | hbrace
    · choose text raw hkind using twin.exists_name hname
      simp only [hkind]
      apply ident_parallel.bind_never
      intro names left _ hnames
      exact .pure ⟨hnames.shorter, hnames.view⟩
    · simp only [twin.kind_of_shape rfl hbrace]
      apply bind_advance
      apply bind_closed (commaList_parallel rfl hmember hbound) rfl
      intro members right last hlast hmembers
      refine .pure ⟨?_, ?_⟩
      · exact Nat.lt_succ_of_lt (Nat.lt_of_succ_le hlast.length_le)
      · simpa [ImportPart.outline, Same] using hmembers
  · intro tokens hshown hbegins
    have hrefuse : Parallel fork records common (fun _ => do
        want .identifier
        want (.token Punct.lbrace)
        refuse) Never (Alike (fun part : ImportPart Span Symbol × Span => part.1.outline.shape)
          common) := by
      apply bind_want_shown hshown fun side => (Bool.or_eq_false_iff.mp (hbegins side)).1
      exact want_refuse _ hshown fun side => (Bool.or_eq_false_iff.mp (hbegins side)).2
    apply hrefuse.congr
    intro side
    have hkind := hbegins side
    split <;> first | rfl | simp_all [beginsPart, Expected.meets, Kind.isName, Kind.variant]
  · intro _ _ side token hshown hbegins
    exact importPart_passes hshown hbegins

theorem importRound_parallel (hmember : Mirrors fork bound (Outline.shape ∘ ImportPath.outline) member)
    (hbound : common.length ≤ bound) {parts : Side → List (ImportPart Span Symbol)}
    (hparts : Same (List.map (Outline.shape ∘ ImportPart.outline)) parts common) :
    Parallel fork records common (fun side => importRound (member side) (parts side))
      (Round.Stops Never Never)
      (Round.Agree (Same (List.map (Outline.shape ∘ ImportPart.outline)))
        (Alike (fun result => result.1.map (Outline.shape ∘ ImportPart.outline)) common) common) := by
  apply (importPart_parallel hmember hbound).bind_never
  intro results rest _ hresults
  have hsnoc : Same (List.map (Outline.shape ∘ ImportPart.outline))
      (fun side => parts side ++ [(results side).1]) common := hparts.snoc hresults.view
  apply if_takes rfl
  · rintro dot left rfl _
    exact .pure (.more (Nat.lt_of_succ_lt hresults.shorter) hsnoc)
  · exact .pure (.done ⟨hresults.shorter, hsnoc⟩)

end Imports

theorem importPathWithin_mirrors {levels : Side → Nat} (hlevels : ∀ side, bound ≤ levels side) :
    Mirrors fork bound (Outline.shape ∘ ImportPath.outline)
      fun side => importPathWithin (levels side) := by
  induction bound generalizing levels with
  | zero => exact fun _ _ hbound => absurd hbound (Nat.not_lt_zero _)
  | succ bound ih =>
      obtain ⟨less, hless⟩ := Side.exists_less hlevels
      simp only [hless] at hlevels ⊢
      intro records common hbound
      -- The members of a group are one level down, with the brace taken.
      have hmember := ih fun side => Nat.le_of_succ_le_succ (hlevels side)
      have hparts : Parallel fork records common
          (fun side => repeated (importRound (importPathWithin (less side))) []) Never
          (Alike (fun result => result.1.map (Outline.shape ∘ ImportPart.outline)) common) := by
        apply repeated_never (Same (List.map (Outline.shape ∘ ImportPart.outline))) .nil
        intro parts rest hrest hparts
        have hshort := hrest.length_le
        apply (importRound_parallel hmember (by omega) hparts).mono
        rintro _ _ _ (⟨hshorter, hmore⟩ | hdone)
        · exact .more hshorter hmore
        · exact .done ⟨Nat.lt_of_lt_of_le hdone.shorter hshort, hdone.view⟩
      apply Parallel.nested
      apply bind_peek_any
      intro starts
      apply hparts.bind_never
      intro results rest _ hresults
      refine .pure ⟨hresults.shorter, ?_⟩
      have := hresults.view
      simpa [ImportPath.outline, ImportPart.outlineList_eq_map, Tag.shape] using this

theorem importPath_parallel : Parallel fork records common (fun _ => importPath) Never
    (Alike (Outline.shape ∘ ImportPath.outline) common) :=
  Mirrors.bounded importPathWithin_mirrors

theorem importDeclaration_passes (hshown : place.lookahead 0 = .ok token)
    (hkind : token.kind = Keyword.import_) : Passes place [] records importDeclaration Never :=
  .bind_any (.expect hshown Kind.noConfusion hkind)

theorem importDeclaration_parallel : Parallel fork records common (fun _ => importDeclaration) Never
    (Alike (fun result => result.1.outline.shape) common) := by
  apply bind_expect rfl
  rintro start rest rfl _
  apply importPath_parallel.bind_never
  intro paths left _ hpaths
  apply bind_expect rfl
  rintro stop last rfl _
  exact .pure ⟨Nat.lt_succ_of_lt (Nat.lt_of_succ_lt hpaths.shorter), hpaths.view⟩

/-! ## Types -/

theorem meets_type_iff {kind : Kind} : Expected.type.meets kind = true ↔
    kind.isName = true ∨ kind = Punct.bang ∨ kind = Punct.lparen ∨ kind = Punct.lbrace := by
  simp only [Expected.meets, Bool.or_eq_true, beq_iff_eq, or_assoc]

section Types

theorem typeAtom_passes {type : Parse (TypeExpr Span Symbol)} [Steady type]
    (hshown : place.lookahead 0 = .ok token) (hmeets : Expected.type.meets token.kind = true) :
    Passes place [] records (typeAtom type) Never := by
  obtain ⟨kind, span⟩ := token
  refine Passes.bind_peek hshown ?_
  rcases meets_type_iff.mp hmeets with hname | rfl | rfl | rfl
  · obtain ⟨text, raw, rfl⟩ := Kind.eq_name_of_isName hname
    exact .bind_any (path_passes hshown rfl)
  · exact .bind_any (.advance hshown Kind.noConfusion)
  · exact .bind_any (.advance hshown Kind.noConfusion)
  · exact .bind_any (record_passes hshown rfl)

variable {type : Side → Parse (TypeExpr Span Symbol)} [∀ side, Steady (type side)]

theorem namedType_parallel (htype : Mirrors fork bound (Outline.shape ∘ TypeExpr.outline) type)
    (hbound : common.length ≤ bound) :
    Parallel fork records common (fun side => namedType (type side)) Never
      (Alike (Outline.shape ∘ TypeExpr.outline) common) := by
  apply path_parallel.bind_never
  intro names rest _ hnames
  have hview := hnames.view
  apply if_nextIs rfl
  · rintro left tail rfl _
    apply bind_advance
    have hshorter := hnames.shorter
    have htail : tail.length < common.length := Nat.lt_of_succ_lt hshorter
    apply bind_closed (commaList_parallel rfl htype (Nat.lt_of_lt_of_le htail hbound)) rfl
    intro arguments right last hlast harguments
    refine .pure ⟨(Nat.lt_of_succ_le hlast.length_le).trans htail, ?_⟩
    simp_all [TypeExpr.outline, TypeExpr.outlineList_eq_map, Same]
  · intro _
    refine .pure ⟨hnames.shorter, ?_⟩
    simp_all [TypeExpr.outline, TypeExpr.outlineList_eq_map]
  · intro _ _ side token hshown hkind
    exact .bind_any (.advance hshown (hkind ▸ Kind.noConfusion))

theorem typeAtom_parallel (htype : Mirrors fork bound (Outline.shape ∘ TypeExpr.outline) type)
    (hbound : common.length ≤ bound) :
    Parallel fork records common (fun side => typeAtom (type side)) Never
      (Alike (Outline.shape ∘ TypeExpr.outline) common) := by
  apply bind_peek Expected.type.meets rfl
  · intro kind
    cases kind <;> rfl
  · rintro twin rest rfl hmeets
    rcases meets_type_iff.mp hmeets with hname | hbang | hparen | hbrace
    · choose text raw hkind using twin.exists_name hname
      simp only [hkind]
      exact namedType_parallel htype hbound
    · simp only [twin.kind_of_shape rfl hbang]
      exact bind_advance (.pure ⟨Nat.lt_succ_self _, rfl⟩)
    · simp only [twin.kind_of_shape rfl hparen]
      apply bind_advance
      apply bind_expect rfl
      rintro right last rfl _
      exact .pure ⟨Nat.lt_succ_of_lt (Nat.lt_succ_self _), rfl⟩
    · simp only [twin.kind_of_shape rfl hbrace]
      have hrecord : Parallel fork records (twin :: rest)
          (fun side => record TypeExpr.span (type side)) Never
          (Alike (fun record => record.fields.map
            (Outline.shape ∘ Field.outline .typeField TypeExpr.outline)) (twin :: rest)) :=
        record_parallel htype hbound
      apply hrecord.bind_never
      intro fields left _ hfields
      refine .pure ⟨hfields.shorter, ?_⟩
      have := hfields.view
      simp_all [TypeExpr.outline, TypeExpr.outlineFields_eq_map, Tag.shape]
  · intro tokens hshown hmeets
    apply (want_refuse .type hshown hmeets).congr
    intro side
    have hkind := hmeets side
    split <;> first | rfl | simp_all [Expected.meets, Kind.isName]
  · intro _ _ side token hshown hmeets
    exact typeAtom_passes hshown hmeets

end Types

/-- The shape of a type tells whether it has a question mark. -/
theorem isOptional_eq {type other : TypeExpr Span Symbol}
    (h : type.outline.shape = other.outline.shape) : type.isOptional = other.isOptional := by
  cases type <;> cases other <;> first | rfl | simp [TypeExpr.outline, Tag.shape] at h

theorem optionalRound_parallel {types : Side → TypeExpr Span Symbol}
    (htypes : Same (Outline.shape ∘ TypeExpr.outline) types common) :
    Parallel fork records common (fun side => optionalRound (types side)) (Round.Stops Never Never)
      (Round.Agree (Same (Outline.shape ∘ TypeExpr.outline))
        (Same (Outline.shape ∘ TypeExpr.outline)) common) := by
  unfold optionalRound
  apply if_nextIs rfl
  · rintro mark rest rfl _
    apply bind_advance
    have hoptional : ∀ side, (types side).isOptional = (types .left).isOptional :=
      Side.eq_left (fun side => (types side).isOptional) (isOptional_eq htypes)
    have hmore : Same (Outline.shape ∘ TypeExpr.outline) (fun side =>
        (types side).optional ((types side).span.hull (mark.token side).span)) rest := by
      simpa [Same, TypeExpr.outline] using htypes
    simp only [hoptional]
    cases (types .left).isOptional with
    | true => exact bind_warn (.pure (.more (Nat.lt_succ_self _) hmore))
    | false => exact .pure (.more (Nat.lt_succ_self _) hmore)
  · exact fun _ => .pure (.done htypes)
  · intro _ _ side token hshown hkind
    exact .bind_any (.advance hshown (hkind ▸ Kind.noConfusion))

theorem typeWithin_mirrors {levels : Side → Nat} (hlevels : ∀ side, bound ≤ levels side) :
    Mirrors fork bound (Outline.shape ∘ TypeExpr.outline) fun side => typeWithin (levels side) := by
  induction bound generalizing levels with
  | zero => exact fun _ _ hbound => absurd hbound (Nat.not_lt_zero _)
  | succ bound ih =>
      obtain ⟨less, hless⟩ := Side.exists_less hlevels
      simp only [hless] at hlevels ⊢
      intro records common hbound
      have htype := ih fun side => Nat.le_of_succ_le_succ (hlevels side)
      apply Parallel.nested
      apply (typeAtom_parallel htype (Nat.le_of_lt_succ hbound)).bind_never
      intro atoms rest _ hatoms
      have hmarks : Parallel fork records rest (fun side => repeated optionalRound (atoms side)) Never
          (Same (Outline.shape ∘ TypeExpr.outline)) := by
        apply repeated_never (Same (Outline.shape ∘ TypeExpr.outline)) hatoms.view
        exact fun _ _ _ htypes => optionalRound_parallel htypes
      exact alike_of_same hatoms.shorter hmarks

theorem type_mirrors : Mirrors fork bound (Outline.shape ∘ TypeExpr.outline) fun _ => type :=
  fun _ _ _ => Mirrors.bounded typeWithin_mirrors

theorem parameters_parallel : Parallel fork records common (fun _ => parameters) Never
    (Same (List.map (Outline.shape ∘ Parameter.outline))) := by
  apply bind_expect rfl
  rintro left rest rfl _
  have hfields : Mirrors fork (rest.length + 1)
      (Outline.shape ∘ Field.outline .parameter TypeExpr.outline)
      fun _ => field TypeExpr.span type := field_mirrors type_mirrors
  apply bind_closed (commaList_parallel rfl hfields (Nat.lt_succ_self _)) rfl
  intro fields right last _ hfields
  exact .pure hfields

end Grammar

end FilterScript
