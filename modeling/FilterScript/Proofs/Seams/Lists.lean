import FilterScript.Proofs.Seams.Runs

/-!
# Names, lists, imports and types in front of a seam

Two runs of a production in front of a seam come to trees that differ in their
spans by as much as the inputs do, and in their symbols as the tables do.
-/

namespace FilterScript

/-! ## Trees that are the same but for their place -/

section Spans

variable {σ τ ν μ α β : Type} (f : σ → τ) (g : ν → μ)

theorem TypeExpr.span_map (type : TypeExpr σ ν) : (type.map f g).span = f type.span := by
  rcases type with _ | _ | _ | _ | ⟨_, _⟩ <;> simp [span]

def Record.mapValues (value : α → β) (record : Record σ ν α) : Record τ μ β :=
  ⟨record.fields.map (Field.mapValue f g value), f record.span⟩

end Spans

namespace Seam

variable {α β : Type} (seam : Seam)

/-- The second of two trees is what the first one is, moved by as much as the
second input is. Names are compared by their texts. -/
def Same (map : (Span → Span) → (Symbol → String) → α → β) (first second : α) : Prop :=
  map (·.shift seam.bytes) seam.leftNames.text first = map id seam.rightNames.text second

variable {seam} in
theorem Same.eq {map : (Span → Span) → (Symbol → String) → α → β} {first second : α}
    (h : seam.Same map first second) :
    map (·.shift seam.bytes) seam.leftNames.text first = map id seam.rightNames.text second := h

/-- What is done to a tree, done to each tree of a list. -/
abbrev listOf (map : (Span → Span) → (Symbol → String) → α → β) (f : Span → Span)
    (g : Symbol → String) : List α → List β :=
  List.map (map f g)

/-- What is done to a tree, done to a tree that may be missing. -/
abbrev optionOf (map : (Span → Span) → (Symbol → String) → α → β) (f : Span → Span)
    (g : Symbol → String) : Option α → Option β :=
  Option.map (map f g)

variable {seam} {map : (Span → Span) → (Symbol → String) → α → β}

theorem Same.nil : seam.Same (listOf map) [] [] := rfl

theorem Same.snoc {list list' : List α} {element element' : α} (h : seam.Same (listOf map) list list')
    (helement : seam.Same map element element') :
    seam.Same (listOf map) (list ++ [element]) (list' ++ [element']) := by
  simp only [Same, listOf, List.map_append, List.map_singleton] at *
  rw [h, helement]

theorem Same.span {first second : α} {spanOf : α → Span} {spanOf' : β → Span} (h : seam.Same map first second)
    (hspan : ∀ f g tree, spanOf' (map f g tree) = f (spanOf tree)) :
    spanOf second = (spanOf first).shift seam.bytes := by
  have := congrArg spanOf' h
  rw [hspan, hspan] at this
  exact this.symm

theorem Same.ident_span {first second : Ident Span Symbol} (h : seam.Same Ident.map first second) :
    second.span = first.span.shift seam.bytes :=
  (congrArg Ident.span h).symm

theorem Same.path_span {first second : Path Span Symbol} (h : seam.Same Path.map first second) :
    second.span = first.span.shift seam.bytes :=
  (congrArg Path.span h).symm

theorem Same.type_span {first second : TypeExpr Span Symbol}
    (h : seam.Same TypeExpr.map first second) : second.span = first.span.shift seam.bytes :=
  h.span TypeExpr.span_map

theorem Same.record_span {first second : Record Span Symbol α}
    (h : seam.Same (fun f g => Record.mapValues f g (map f g)) first second) :
    second.span = first.span.shift seam.bytes :=
  (congrArg Record.span h).symm

end Seam

namespace Grammar

open Parse Parse.Echoes

variable {α β : Type} {seam : Seam} {common : List Scan} {edge : Bool}
  {map : (Span → Span) → (Symbol → String) → α → β}

/-! ## Names and paths -/

theorem intern_eq (text : String) (state : State) :
    intern text state = .ok (state.names.intern text).1
      { state with names := (state.names.intern text).2 } := rfl

/-- A name is entered into both tables. -/
theorem ident_echoes : Echoes seam common false ident ident (seam.Same Ident.map) := by
  apply bind_peek
  rintro ⟨kind, span⟩ hshown
  cases kind with
  | name text raw =>
      intro state other hclear hbeside
      obtain ⟨rest, rfl⟩ := exists_cons hclear hshown Kind.noConfusion
      have hrun : advance state = .ok ⟨.name text raw, span⟩
          { state with input := seam.left.precededBy rest, expected := [] } := by
        unfold advance
        rw [hbeside.left]
        rfl
      have hrun' : advance other = .ok ⟨.name text raw, span.shift seam.bytes⟩
          { other with input := seam.moved rest, expected := [] } := by
        unfold advance
        rw [hbeside.right]
        rfl
      have hleft := hbeside.leftNames
      have hright := hbeside.rightNames
      rw [hbeside.left] at hleft
      rw [hbeside.right] at hright
      dsimp only [Token.kind_shift]
      rw [bind_eq_of_ok hrun, bind_eq_of_ok hrun', bind_eq_of_ok (intern_eq text _),
        bind_eq_of_ok (intern_eq text _)]
      -- Both symbols stand for the text from now on.
      have htext := Names.text_intern ((Names.within_enter _ _).trans hleft)
      have htext' := Names.text_intern ((Names.within_enter _ _).trans hright)
      apply of_clear rfl
      intro hrest
      apply Echoes.pure
      · simp only [Seam.Same, Ident.map, htext, htext']
        rfl
      · exact hrest
      · exact ⟨rfl, rfl, rfl, hbeside.context, hbeside.limit, hbeside.warnings, hleft, hright⟩
  | _ => exact bind_want .refuse

/-- Behind a dot another token is looked at. -/
theorem pathRound_echoes {names names' : List (Ident Span Symbol)}
    (hnames : seam.Same (Seam.listOf Ident.map) names names') :
    Echoes seam common false (pathRound names) (pathRound names')
      (Round.Related (seam.Same (Seam.listOf Ident.map)) (seam.Same (Seam.listOf Ident.map))) := by
  unfold pathRound
  rw [if_pathContinues_eq, if_pathContinues_eq]
  apply if_nextIs _ (.pure (.done hnames))
  intro dot hshown hvariant
  have hdot : dot.kind = Punct.dot := Kind.eq_of_variant_eq rfl hvariant
  apply bind_peekAt fun hclear => hclear.second hshown (hdot ▸ rfl)
  intro token _
  rw [Token.kind_shift]
  split
  next =>
    apply advance_of_variant rfl hshown hvariant
    intro rest _
    exact ident_echoes.bind fun _ _ _ _ hname => .pure (.more (hnames.snoc hname))
  next => exact .pure (.done hnames)

theorem path_echoes : Echoes seam common false path path (seam.Same Path.map) := by
  apply ident_echoes.bind
  intro rest first first' _ hfirst
  have hnames : Echoes seam rest false (repeated pathRound []) (repeated pathRound [])
      (seam.Same (Seam.listOf Ident.map)) :=
    .repeated _ .nil fun _ _ _ _ hnames => pathRound_echoes hnames
  apply hnames.map
  intro names names' hnames
  have hlast : seam.Same Ident.map (names.getLastD first) (names'.getLastD first') :=
    List.getLastD_map.symm.trans ((congrArg₂ List.getLastD hnames hfirst).trans List.getLastD_map)
  have hspan := hfirst.ident_span
  have hspan' := hlast.ident_span
  simp_all [Seam.Same, Path.map, Span.hull_shift]

/-! ## Lists and records -/

section Lists

variable {close : Kind} {element element' : Parse α} [Steady element]

theorem commaList_echoes (helement : ∀ rest, rest.length ≤ common.length →
      Echoes seam rest false element element' (seam.Same map)) :
    Echoes seam common false (commaList close element) (commaList close element')
      (seam.Same (Seam.listOf map)) := by
  unfold commaList
  rw [if_loneComma_eq, if_loneComma_eq]
  have hrounds : Echoes seam common false (repeated (listRound close element) [])
      (repeated (listRound close element') []) (seam.Same (Seam.listOf map)) := by
    apply Echoes.repeated (seam.Same (Seam.listOf map)) .nil
    intro rest list list' hle hlist
    apply if_accepts fun _ _ _ => .pure (.done hlist)
    apply (helement rest hle).bind
    intro later next next' _ hnext
    apply if_takes rfl
    · exact fun _ _ _ => .pure (.more (hlist.snoc hnext))
    · exact .pure (.done (hlist.snoc hnext))
  apply if_nextIs _ hrounds
  intro comma hshown hvariant
  have hcomma : comma.kind = Punct.comma := Kind.eq_of_variant_eq rfl hvariant
  apply bind_peekAt fun hclear => hclear.second hshown (hcomma ▸ rfl)
  intro token _
  rw [Token.kind_shift]
  split
  next => exact advance_of_variant rfl hshown hvariant fun _ _ => .pure .nil
  next => exact hrounds

end Lists

section Records

variable {spanOf : α → Span} {value value' : Parse α} [Steady value]

theorem field_echoes
    (hspan : ∀ given given', seam.Same map given given' →
      spanOf given' = (spanOf given).shift seam.bytes)
    (hvalue : ∀ rest, rest.length < common.length →
      Echoes seam rest false value value' (seam.Same map)) :
    Echoes seam common false (field spanOf value) (field spanOf value')
      (seam.Same fun f g => Field.mapValue f g (map f g)) := by
  apply ident_echoes.bind_shorter
  intro rest name name' hlt hname
  apply bind_expect rfl
  rintro colon rest rfl
  apply (hvalue rest (Nat.lt_of_succ_lt hlt)).map
  intro given given' hgiven
  have hgivenSpan := hspan given given' hgiven
  have hnameSpan := hname.ident_span
  simp_all [Seam.Same, Field.mapValue, Span.hull_shift]

instance : Settles true (record spanOf value) := by
  unfold record
  infer_instance

/-- A record may end at the edge. -/
theorem record_echoes
    (hspan : ∀ given given', seam.Same map given given' →
      spanOf given' = (spanOf given).shift seam.bytes)
    (hvalue : ∀ rest, rest.length < common.length →
      Echoes seam rest false value value' (seam.Same map)) :
    Echoes seam common true (record spanOf value) (record spanOf value')
      (seam.Same fun f g => Record.mapValues f g (map f g)) := by
  apply bind_expect rfl
  rintro left rest rfl
  have hfields : Echoes seam rest false
      (withRecords true (commaList Punct.rbrace (field spanOf value)))
      (withRecords true (commaList Punct.rbrace (field spanOf value')))
      (seam.Same (Seam.listOf fun f g => Field.mapValue f g (map f g))) := by
    apply Echoes.withRecords
    apply commaList_echoes
    intro later hlater
    apply field_echoes hspan
    exact fun last hlast => hvalue last (Nat.lt_succ_of_lt (Nat.lt_of_lt_of_le hlast hlater))
  apply hfields.bind
  intro later fields fields' _ hfields
  apply (Echoes.expect rfl).map
  rintro right _ rfl
  simp_all [Seam.Same, Record.mapValues, Span.hull_shift]

end Records

/-! ## Imports -/

section Imports

variable {member member' : Parse (ImportPath Span Symbol)} [Steady member]

/-- A part of a path, and the span of its last token. -/
def SamePart (seam : Seam) (first second : ImportPart Span Symbol × Span) : Prop :=
  seam.Same ImportPart.mapList [first.1] [second.1] ∧ second.2 = first.2.shift seam.bytes

theorem importPart_echoes
    (hmember : ∀ rest, rest.length < common.length →
      Echoes seam rest false member member' (seam.Same ImportPath.map)) :
    Echoes seam common false (importPart member) (importPart member') (SamePart seam) := by
  apply bind_peek
  rintro ⟨kind, span⟩ hshown
  cases kind with
  | punct mark =>
      cases mark with
      | lbrace =>
          apply bind_advance hshown rfl Kind.noConfusion
          rintro rest rfl
          have hmembers : Echoes seam rest false (commaList Punct.rbrace member)
              (commaList Punct.rbrace member') (seam.Same (Seam.listOf ImportPath.map)) :=
            commaList_echoes fun later hlater => hmember later (Nat.lt_succ_of_le hlater)
          apply hmembers.bind
          intro later members members' _ hmembers
          apply (Echoes.expect rfl).map
          rintro right _ rfl
          refine ⟨?_, rfl⟩
          simp_all [Seam.Same, ImportPath.mapList_eq_map, Span.hull_shift]
      | _ => exact bind_want (bind_want .refuse)
  | name text raw =>
      apply ident_echoes.map
      intro name name' hname
      refine ⟨?_, hname.ident_span⟩
      simp_all [Seam.Same]
  | _ => exact bind_want (bind_want .refuse)

/-- The parts of a path, and the span of the last token. -/
def SameParts (seam : Seam) (first second : List (ImportPart Span Symbol) × Span) : Prop :=
  seam.Same ImportPart.mapList first.1 second.1 ∧ second.2 = first.2.shift seam.bytes

theorem SamePart.after {seam : Seam} {parts parts' : List (ImportPart Span Symbol)}
    {part part' : ImportPart Span Symbol × Span} (h : SamePart seam part part')
    (hparts : seam.Same ImportPart.mapList parts parts') :
    seam.Same ImportPart.mapList (parts ++ [part.1]) (parts' ++ [part'.1]) := by
  have hpart := h.1
  simp_all [Seam.Same, ImportPart.mapList_append]

theorem importRound_echoes {parts parts' : List (ImportPart Span Symbol)}
    (hparts : seam.Same ImportPart.mapList parts parts')
    (hmember : ∀ rest, rest.length < common.length →
      Echoes seam rest false member member' (seam.Same ImportPath.map)) :
    Echoes seam common false (importRound member parts) (importRound member' parts')
      (Round.Related (seam.Same ImportPart.mapList) (SameParts seam)) := by
  have (parts : List (ImportPart Span Symbol)) (first : ImportPart Span Symbol × Span) :
      Steady (do
        if ← takes Punct.dot then
          return Round.more (parts ++ [first.1])
        else
          return Round.done (parts ++ [first.1], first.2)) := by
    infer_instance
  apply (importPart_echoes hmember).bind
  rintro rest ⟨part, span⟩ ⟨part', span'⟩ _ hpart
  apply if_takes rfl
  · exact fun _ _ _ => .pure (.more (hpart.after hparts))
  · exact .pure (.done ⟨hpart.after hparts, hpart.2⟩)

end Imports

theorem importPathWithin_echoes {levels levels' : Nat} (h : common.length < levels)
    (h' : common.length < levels') :
    Echoes seam common false (importPathWithin levels) (importPathWithin levels')
      (seam.Same ImportPath.map) := by
  induction levels generalizing common levels' with
  | zero => exact absurd h (Nat.not_lt_zero _)
  | succ levels ih =>
      obtain ⟨levels', rfl⟩ : ∃ less, levels' = less + 1 := ⟨levels' - 1, by omega⟩
      have hparts : Echoes seam common false
          (repeated (importRound (importPathWithin levels)) [])
          (repeated (importRound (importPathWithin levels')) []) (SameParts seam) := by
        have hnil : seam.Same ImportPart.mapList [] [] := by simp [Seam.Same]
        apply Echoes.repeated _ hnil
        intro rest parts parts' hle hparts
        exact importRound_echoes hparts fun later hlater => ih (by omega) (by omega)
      apply Echoes.nested
      apply bind_peek
      intro start _
      apply hparts.map
      rintro ⟨parts, last⟩ ⟨parts', last'⟩ ⟨hparts, rfl⟩
      simp_all [Seam.Same, Span.hull_shift]

theorem importPath_echoes :
    Echoes seam common false importPath importPath (seam.Same ImportPath.map) :=
  .bounded fun _ _ => importPathWithin_echoes

instance : Settles true importDeclaration := by
  unfold importDeclaration
  infer_instance

/-- The whole of an import may end at the edge. -/
theorem importDeclaration_echoes :
    Echoes seam common true importDeclaration importDeclaration fun first second =>
      seam.Same ImportPath.map first.1 second.1 ∧ second.2 = first.2.shift seam.bytes := by
  apply bind_expect rfl
  rintro start rest rfl
  apply importPath_echoes.bind
  intro later path path' _ hpath
  apply (Echoes.expect rfl).map
  rintro stop _ rfl
  exact ⟨hpath, Span.hull_shift _ _ _⟩

/-! ## Types -/

section Types

variable {type type' : Parse (TypeExpr Span Symbol)} [Steady type]

theorem namedType_echoes
    (htype : ∀ rest, rest.length < common.length →
      Echoes seam rest false type type' (seam.Same TypeExpr.map)) :
    Echoes seam common false (namedType type) (namedType type') (seam.Same TypeExpr.map) := by
  apply path_echoes.bind_shorter
  intro rest name name' hlt hname
  have hspan := hname.path_span
  apply if_nextIs
  · intro left hshown hvariant
    apply advance_of_variant rfl hshown hvariant
    rintro rest rfl
    have harguments : Echoes seam rest false (commaList Punct.rbracket type)
        (commaList Punct.rbracket type') (seam.Same (Seam.listOf TypeExpr.map)) :=
      commaList_echoes fun later hlater => htype later (by simp at hlt; omega)
    apply harguments.bind
    intro later arguments arguments' _ harguments
    apply (Echoes.expect rfl).map
    rintro right _ rfl
    simp_all [Seam.Same, TypeExpr.mapList_eq_map, Span.hull_shift]
  · apply Echoes.pure
    simp_all [Seam.Same, TypeExpr.mapList]

theorem typeAtom_echoes
    (htype : ∀ rest, rest.length < common.length →
      Echoes seam rest false type type' (seam.Same TypeExpr.map)) :
    Echoes seam common false (typeAtom type) (typeAtom type') (seam.Same TypeExpr.map) := by
  apply bind_peek
  rintro ⟨kind, span⟩ hshown
  cases kind with
  | punct mark =>
      cases mark with
      | bang =>
          apply bind_advance hshown rfl Kind.noConfusion
          intro rest _
          exact .pure (by simp [Seam.Same])
      | lparen =>
          apply bind_advance hshown rfl Kind.noConfusion
          intro rest _
          apply (Echoes.expect rfl).map
          rintro right _ rfl
          simp [Seam.Same, Span.hull_shift]
      | lbrace =>
          apply (record_echoes (fun _ _ => Seam.Same.type_span) htype).inside.map
          rintro ⟨fields, span⟩ ⟨fields', span'⟩ hrecord
          simpa [Seam.Same, Record.mapValues, TypeExpr.mapFields_eq_map] using hrecord
      | _ => exact bind_want .refuse
  | name text raw => exact namedType_echoes htype
  | _ => exact bind_want .refuse

end Types

theorem isOptional_of_same {type type' : TypeExpr Span Symbol}
    (h : seam.Same TypeExpr.map type type') : type'.isOptional = type.isOptional := by
  have hmap (f : Span → Span) (g : Symbol → String) (type : TypeExpr Span Symbol) :
      (type.map f g).isOptional = type.isOptional := by
    rcases type with _ | _ | _ | _ | ⟨_, _⟩ <;> simp [TypeExpr.isOptional]
  have := congrArg TypeExpr.isOptional h
  rw [hmap, hmap] at this
  exact this.symm

theorem optionalRound_echoes {type type' : TypeExpr Span Symbol}
    (htype : seam.Same TypeExpr.map type type') :
    Echoes seam common false (optionalRound type) (optionalRound type')
      (Round.Related (seam.Same TypeExpr.map) (seam.Same TypeExpr.map)) := by
  apply if_nextIs _ (.pure (.done htype))
  intro mark hshown hvariant
  apply advance_of_variant rfl hshown hvariant
  intro rest _
  have hspan : type'.span.hull (mark.shift seam.bytes).span =
      (type.span.hull mark.span).shift seam.bytes := by
    rw [htype.type_span, Token.span_shift, Span.hull_shift]
  have hlast : seam.Same TypeExpr.map (.optional type (type.span.hull mark.span))
      (.optional type' (type'.span.hull (mark.shift seam.bytes).span)) := by
    simp_all [Seam.Same]
  rw [isOptional_of_same htype]
  cases type.isOptional with
  | true =>
      dsimp only [↓reduceIte]
      rw [hspan] at hlast ⊢
      exact bind_warn (.pure (.more hlast))
  | false => exact .pure (.more hlast)

theorem typeWithin_echoes {levels levels' : Nat} (h : common.length < levels)
    (h' : common.length < levels') :
    Echoes seam common false (typeWithin levels) (typeWithin levels')
      (seam.Same TypeExpr.map) := by
  induction levels generalizing common levels' with
  | zero => exact absurd h (Nat.not_lt_zero _)
  | succ levels ih =>
      obtain ⟨levels', rfl⟩ : ∃ less, levels' = less + 1 := ⟨levels' - 1, by omega⟩
      apply Echoes.nested
      apply (typeAtom_echoes fun rest hrest => ih (by omega) (by omega)).bind
      intro rest atom atom' _ hatom
      exact .repeated _ hatom fun _ _ _ _ htype => optionalRound_echoes htype

theorem type_echoes : Echoes seam common false type type (seam.Same TypeExpr.map) :=
  .bounded fun _ _ => typeWithin_echoes

theorem parameters_echoes : Echoes seam common false parameters parameters
    (seam.Same TypeExpr.mapFields) := by
  apply bind_expect rfl
  rintro left rest rfl
  have hlist : Echoes seam rest false (commaList Punct.rparen (field TypeExpr.span type))
      (commaList Punct.rparen (field TypeExpr.span type))
      (seam.Same (Seam.listOf fun f g => Field.mapValue f g (TypeExpr.map f g))) :=
    commaList_echoes fun _ _ => field_echoes (fun _ _ => Seam.Same.type_span) fun _ _ => type_echoes
  apply hlist.bind
  intro later list list' _ hlist
  apply (Echoes.expect rfl).map
  intro _ _ _
  simpa [Seam.Same, TypeExpr.mapFields_eq_map] using hlist

/-- What may follow a mark, or be left out together with it. -/
theorem optional_echoes {mark : Kind} {value value' : Parse α} [Steady value]
    (hmark : mark.isFixed)
    (hvalue : ∀ rest, rest.length < common.length →
      Echoes seam rest false value value' (seam.Same map)) :
    Echoes seam common false
      (do if ← takes mark then return some (← value) else return none)
      (do if ← takes mark then return some (← value') else return none)
      (seam.Same (Seam.optionOf map)) := by
  apply if_takes hmark
  · rintro token rest rfl
    apply (hvalue rest (Nat.lt_succ_self _)).map
    intro _ _ h
    exact congrArg some h
  · exact .pure rfl

end Grammar

end FilterScript
