import FilterScript.Grammar.Import
import FilterScript.Grammar.Type
import FilterScript.Proofs.Reads
import FilterScript.Proofs.Spelling.Slots

/-!
# The tokens of names, lists, imports and types

A production is spelled by the places of its results when the tokens that a
successful run takes always are one way to write the places of its result. Names
are looked up in the final table.
-/

namespace FilterScript

/-! ## Ways to write places -/

@[simp] theorem required_nil : required [] = [] := rfl

@[simp] theorem required_append (first second : List Slot) :
    required (first ++ second) = required first ++ required second :=
  List.filterMap_append

@[simp] theorem required_token (kind : Kind) (slots : List Slot) :
    required (.token kind :: slots) = kind :: required slots := rfl

theorem Trims.append {first second : List Slot} {written more kept left : List Kind}
    (h : Trims first written kept) (h' : Trims second more left) :
    Trims (first ++ second) (written ++ more) (kept ++ left) := by
  induction h with
  | nil => exact h'
  | token kind _ ih => exact .token kind ih
  | spare choice _ ih =>
      rw [List.append_assoc]
      exact .spare choice ih

/-- What remains once the spare tokens are deleted is settled by the places. -/
theorem Trims.kept_eq {slots : List Slot} {written kept : List Kind}
    (h : Trims slots written kept) : kept = required slots := by
  induction h with
  | nil => rfl
  | token kind _ ih => rw [ih, required_token]
  | spare choice _ ih => cases choice <;> exact ih

theorem Trims.of_append {first second : List Slot} {written kept : List Kind}
    (h : Trims (first ++ second) written kept) :
    ∃ front back, written = front ++ back ∧ Trims first front (required first) ∧
      Trims second back (required second) := by
  induction first generalizing written kept with
  | nil => exact ⟨[], written, rfl, .nil, h.kept_eq ▸ h⟩
  | cons slot rest ih =>
      cases h with
      | token kind h =>
          obtain ⟨front, back, rfl, hfront, hback⟩ := ih h
          exact ⟨_ :: front, back, rfl, .token _ hfront, hback⟩
      | spare choice h =>
          obtain ⟨front, back, rfl, hfront, hback⟩ := ih h
          have hslot := Trims.spare choice hfront
          exact ⟨_, back, (List.append_assoc ..).symm, hslot.kept_eq ▸ hslot, hback⟩

/-- The tokens are one way to write the places. -/
def Spells (slots : List Slot) (tokens : List Token) : Prop :=
  Trims slots (tokens.map Token.kind) (required slots)

namespace Spells

variable {slots more : List Slot} {tokens others : List Token}

protected theorem nil : Spells [] [] :=
  Trims.nil

theorem append (h : Spells slots tokens) (h' : Spells more others) :
    Spells (slots ++ more) (tokens ++ others) := by
  unfold Spells
  rw [List.map_append, required_append]
  exact Trims.append h h'

theorem append_iff :
    Spells (slots ++ more) tokens ↔
      ∃ front back, tokens = front ++ back ∧ Spells slots front ∧ Spells more back := by
  constructor
  · intro h
    obtain ⟨front, back, htokens, hfront, hback⟩ := Trims.of_append h
    obtain ⟨front, back, rfl, rfl, rfl⟩ := List.map_eq_append_iff.mp htokens
    exact ⟨front, back, rfl, hfront, hback⟩
  · rintro ⟨front, back, rfl, hfront, hback⟩
    exact hfront.append hback

theorem nil_iff : Spells [] tokens ↔ tokens = [] := by
  constructor
  · intro h
    unfold Spells at h
    generalize hkinds : tokens.map Token.kind = kinds at h
    cases h
    simpa using hkinds
  · rintro rfl
    exact .nil

theorem single_iff {kind : Kind} :
    Spells [.token kind] tokens ↔ ∃ token, tokens = [token] ∧ token.kind = kind := by
  constructor
  · intro h
    unfold Spells at h
    generalize hkinds : tokens.map Token.kind = kinds at h
    cases h with
    | token _ rest =>
        cases rest
        exact List.map_eq_singleton_iff.mp hkinds
    | spare choice _ => cases choice
  · rintro ⟨token, rfl, rfl⟩
    exact Trims.token _ .nil

theorem spareComma_iff :
    Spells [.spareComma] tokens ↔
      tokens = [] ∨ ∃ token, tokens = [token] ∧ token.kind = Punct.comma := by
  constructor
  · intro h
    unfold Spells at h
    generalize hkinds : tokens.map Token.kind = kinds at h
    cases h with
    | spare choice rest =>
        cases rest
        cases choice with
        | noComma => exact .inl (by simpa using hkinds)
        | comma => exact .inr (List.map_eq_singleton_iff.mp hkinds)
  · rintro (rfl | ⟨token, rfl, hkind⟩)
    · exact Trims.spare .noComma .nil
    · unfold Spells
      rw [List.map_singleton, hkind]
      exact Trims.spare .comma .nil

theorem single {kind : Kind} {token : Token} (hkind : token.kind = kind) :
    Spells [.token kind] [token] :=
  single_iff.mpr ⟨token, rfl, hkind⟩

theorem token {kind : Kind} {token : Token} (hkind : token.kind = kind)
    (h : Spells slots tokens) : Spells (.token kind :: slots) (token :: tokens) :=
  (single hkind).append h

theorem token_iff {kind : Kind} :
    Spells (.token kind :: slots) tokens ↔
      ∃ token rest, tokens = token :: rest ∧ token.kind = kind ∧ Spells slots rest := by
  rw [show Slot.token kind :: slots = [.token kind] ++ slots from rfl, append_iff]
  constructor
  · rintro ⟨front, back, rfl, hfront, hback⟩
    obtain ⟨token, rfl, hkind⟩ := single_iff.mp hfront
    exact ⟨token, back, rfl, hkind, hback⟩
  · rintro ⟨token, rest, rfl, hkind, h⟩
    exact ⟨[token], rest, rfl, single hkind, h⟩

/-- Brackets with nothing but perhaps a comma between them may be left out. -/
theorem spareBrackets {left right : Token} (hleft : left.kind = Punct.lbracket)
    (h : Spells [.spareComma] tokens) (hright : right.kind = Punct.rbracket) :
    Spells [.spareBrackets] (left :: (tokens ++ [right])) := by
  unfold Spells
  rcases spareComma_iff.mp h with rfl | ⟨comma, rfl, hcomma⟩
  · rw [List.nil_append, List.map_cons, List.map_singleton, hleft, hright]
    exact Trims.spare .brackets .nil
  · rw [List.singleton_append, List.map_cons, List.map_cons, List.map_singleton, hleft, hcomma,
      hright]
    exact Trims.spare .bracketsAroundComma .nil

theorem noBrackets : Spells [.spareBrackets] [] :=
  Trims.spare .noBrackets .nil

theorem of_spareBrackets (h : Spells [.spareBrackets] tokens) :
    tokens = [] ∨ ∃ (left : Token) (inner : List Token) (right : Token),
      tokens = left :: (inner ++ [right]) ∧ left.kind = Punct.lbracket ∧
        Spells [.spareComma] inner ∧ right.kind = Punct.rbracket := by
  unfold Spells at h
  generalize hkinds : tokens.map Token.kind = kinds at h
  cases h with
  | spare choice rest =>
      cases rest
      cases choice with
      | noBrackets => exact .inl (by simpa using hkinds)
      | brackets =>
          obtain ⟨left, others, rfl, hleft, hothers⟩ := List.map_eq_cons_iff.mp hkinds
          obtain ⟨right, rfl, hright⟩ := List.map_eq_singleton_iff.mp hothers
          exact .inr ⟨left, [], right, rfl, hleft, spareComma_iff.mpr (.inl rfl), hright⟩
      | bracketsAroundComma =>
          obtain ⟨left, others, rfl, hleft, hothers⟩ := List.map_eq_cons_iff.mp hkinds
          obtain ⟨comma, last, rfl, hcomma, hlast⟩ := List.map_eq_cons_iff.mp hothers
          obtain ⟨right, rfl, hright⟩ := List.map_eq_singleton_iff.mp hlast
          exact .inr ⟨left, [comma], right, rfl, hleft,
            spareComma_iff.mpr (.inr ⟨comma, rfl, hcomma⟩), hright⟩

end Spells

/-! ## Separators -/

/-- What is written while a list still goes on: every element with a separator
behind it. -/
def openList (separator : Punct) (elements : List (List Slot)) : List Slot :=
  elements.flatMap (· ++ [.token separator])

theorem openList_append (separator : Punct) (elements : List (List Slot)) (last : List Slot) :
    openList separator (elements ++ [last]) =
      openList separator elements ++ (last ++ [.token separator]) := by
  simp [openList]

theorem joined_append (separator : Punct) (elements : List (List Slot)) (last : List Slot) :
    joined separator (elements ++ [last]) = openList separator elements ++ last := by
  unfold joined
  induction elements with
  | nil => simp [openList]
  | cons first rest ih =>
      cases rest with
      | nil => simp [openList, List.intercalate_cons_cons]
      | cons second rest =>
          rw [List.cons_append, List.cons_append, List.intercalate_cons_cons]
          rw [List.cons_append] at ih
          simp [ih, openList]

/-- A list that could have gone on may also end: its last comma is spare then. -/
theorem Spells.commaSlots_of_openList {elements : List (List Slot)} {tokens : List Token}
    (h : Spells (openList .comma elements) tokens) : Spells (commaSlots elements) tokens := by
  unfold commaSlots
  rcases List.eq_nil_or_concat elements with rfl | ⟨front, last, rfl⟩
  · obtain rfl := nil_iff.mp h
    exact spareComma_iff.mpr (.inl rfl)
  · rw [List.concat_eq_append, openList_append, ← List.append_assoc] at h
    obtain ⟨tokens, comma, rfl, htokens, hcomma⟩ := append_iff.mp h
    rw [List.concat_eq_append, joined_append]
    exact htokens.append (spareComma_iff.mpr (.inr (single_iff.mp hcomma)))

theorem Spells.commaSlots_of_last {elements : List (List Slot)} {last : List Slot}
    {tokens others : List Token} (h : Spells (openList .comma elements) tokens)
    (hlast : Spells last others) : Spells (commaSlots (elements ++ [last])) (tokens ++ others) := by
  have hcomma : Spells [.spareComma] [] := spareComma_iff.mpr (.inl rfl)
  unfold commaSlots
  rw [joined_append]
  simpa using (h.append hlast).append hcomma

theorem joined_cons (separator : Punct) (first : List Slot) (rest : List (List Slot)) :
    joined separator (first :: rest) = first ++ rest.flatMap (.token separator :: ·) := by
  unfold joined
  induction rest generalizing first with
  | nil => simp
  | cons second rest ih => rw [List.intercalate_cons_cons, ih second]; simp

/-! ## Places of lists as lists of places -/

variable {σ ν α : Type} (text : ν → String)

/-- A name, a colon and the places of what the name is given. -/
def Field.slots (slots : α → List Slot) (field : Field σ ν α) : List Slot :=
  field.name.slots text ++ .token Punct.colon :: slots field.value

/-- Fields in braces. -/
def Record.slots (slots : α → List Slot) (record : Record σ ν α) : List Slot :=
  .token Punct.lbrace :: commaSlots (record.fields.map (Field.slots text slots)) ++
    [.token Punct.rbrace]

theorem TypeExpr.slotsList_eq_map (types : List (TypeExpr σ ν)) :
    TypeExpr.slotsList text types = types.map (TypeExpr.slots text) := by
  induction types with
  | nil => rfl
  | cons type rest ih => rw [slotsList, ih, List.map_cons]

theorem TypeExpr.slotsFields_eq_map (fields : List (Field σ ν (TypeExpr σ ν))) :
    TypeExpr.slotsFields text fields = fields.map (Field.slots text (TypeExpr.slots text)) := by
  induction fields with
  | nil => rfl
  | cons field rest ih => rw [slotsFields, ih, List.map_cons, Field.slots]

theorem Expr.slotsList_eq_map (exprs : List (Expr σ ν)) :
    Expr.slotsList text exprs = exprs.map (Expr.slots text) := by
  induction exprs with
  | nil => simp [slotsList]
  | cons expr rest ih => rw [slotsList, ih, List.map_cons]

theorem Expr.slotsFields_eq_map (fields : List (Field σ ν (Expr σ ν))) :
    Expr.slotsFields text fields = fields.map (Field.slots text (Expr.slots text)) := by
  induction fields with
  | nil => simp [slotsFields]
  | cons field rest ih => rw [slotsFields, ih, List.map_cons, Field.slots]

theorem ImportPath.slotsList_eq_map (paths : List (ImportPath σ ν)) :
    ImportPath.slotsList text paths = paths.map (ImportPath.slots text) := by
  induction paths with
  | nil => simp [slotsList]
  | cons path rest ih => rw [slotsList, ih, List.map_cons]

/-- A name, or a group in braces. -/
def ImportPart.slots : ImportPart σ ν → List Slot
  | .name ident => ident.slots text
  | .group members _ =>
      .token Punct.lbrace :: commaSlots (members.map (ImportPath.slots text)) ++
        [.token Punct.rbrace]

theorem ImportPart.slotsList_eq_map (parts : List (ImportPart σ ν)) :
    ImportPart.slotsList text parts = parts.map (ImportPart.slots text) := by
  induction parts with
  | nil => simp [slotsList]
  | cons part rest ih =>
      cases part with
      | name ident => rw [slotsList, ih, List.map_cons, ImportPart.slots]
      | group members span =>
          rw [slotsList, ih, List.map_cons, ImportPart.slots, ImportPath.slotsList_eq_map]

theorem Statement.slotsList_append (statements : List (Statement σ ν))
    (statement : Statement σ ν) :
    Statement.slotsList text (statements ++ [statement]) =
      Statement.slotsList text statements ++ statement.slots text := by
  induction statements with
  | nil => simp [slotsList]
  | cons first rest ih => rw [List.cons_append, slotsList, slotsList, ih, List.append_assoc]

/-! ## Productions -/

namespace Grammar

open Parse

variable {final : Names}

/-- Whatever a successful run of the production takes is one way to write the
places of its result. Names have their texts in the final table. -/
def Spelled (final : Names) (slots : α → List Slot) (production : Parse α) : Prop :=
  ∀ records input, Reads final records input production fun result taken _ =>
    Spells (slots result) taken

theorem ident_spelled : Spelled final (Ident.slots final.text) ident := by
  intro records input
  refine .mono .ident fun ident taken rest _ ⟨token, htaken, _, hkind, _⟩ => ?_
  subst htaken
  exact .single hkind

/-- A dot comes next, and behind it a name. -/
def PathContinues (input : List Scan) : Prop :=
  Next Punct.dot input ∧ ∃ token, Shows 1 input token ∧ token.kind.isName = true

theorem pathContinues_reads {records : Bool} {input : List Scan} :
    Reads final records input pathContinues fun continues taken rest =>
      taken = [] ∧ rest = input ∧ (continues = true ↔ PathContinues input) := by
  refine .bind_nextIs (fun hdot => .bind_peekAt fun token hshows => .pure ⟨rfl, rfl, ?_⟩)
    fun hno => .pure ⟨rfl, rfl, by simp [PathContinues, hno]⟩
  constructor
  · exact fun hname => ⟨hdot, token, hshows, hname⟩
  · rintro ⟨_, other, hother, hname⟩
    rwa [hshows.kind_unique hother]

theorem path_spelled : Spelled final (Path.slots final.text) path := by
  intro records input
  refine .bind (ident_spelled records input) fun first taken rest _ hfirst => ?_
  have hrounds : Reads final records rest (repeated pathRound []) fun names more _ =>
      Spells (names.flatMap (.token Punct.dot :: Ident.slots final.text ·)) more := by
    refine .repeated
      (fun names more _ => Spells (names.flatMap (.token Punct.dot :: Ident.slots final.text ·)) more)
      .nil fun names taken rest hnames => ?_
    refine .bind pathContinues_reads ?_
    rintro continues _ _ _ ⟨rfl, rfl, hcontinues⟩
    cases continues with
    | false => exact .pure (by simpa using hnames)
    | true =>
        refine .bind_advance (hcontinues.mp rfl).1 rfl fun dot rest _ hdot => ?_
        refine .bind (ident_spelled records rest) fun name more rest _ hname => .pure ?_
        simpa using hnames.append (.token hdot hname)
  refine .bind hrounds fun names more rest _ hnames => .pure ?_
  unfold Path.slots Path.segments
  rw [List.map_cons, joined_cons, List.flatMap_map]
  simpa using hfirst.append hnames

theorem loneComma_reads {close : Kind} {records : Bool} {input : List Scan} :
    Reads final records input (loneComma close) fun lone taken rest =>
      taken = [] ∧ rest = input ∧ (lone = true → Next Punct.comma input) :=
  .bind_nextIs (fun hcomma => .bind_peekAt fun _ _ => .pure ⟨rfl, rfl, fun _ => hcomma⟩)
    fun _ => .pure ⟨rfl, rfl, fun h => by cases h⟩

theorem commaList_spelled {close : Kind} {slots : α → List Slot} {element : Parse α}
    (helement : Spelled final slots element) :
    Spelled final (fun elements => commaSlots (elements.map slots)) (commaList close element) := by
  intro records input
  refine .bind loneComma_reads ?_
  rintro lone _ _ _ ⟨rfl, rfl, hlone⟩
  cases lone with
  | true =>
      refine .bind_advance (hlone rfl) rfl fun comma rest _ hcomma => .pure ?_
      exact Spells.spareComma_iff.mpr (.inr ⟨comma, rfl, hcomma⟩)
  | false =>
      -- As long as the list goes on there is a comma behind every element.
      refine .repeated (fun elements taken _ => Spells (openList .comma (elements.map slots)) taken)
        .nil fun elements taken rest helements => ?_
      refine .bind_accepts (fun _ => .pure ?_) fun _ => ?_
      · simpa using Spells.commaSlots_of_openList helements
      · refine .bind (helement records rest) fun next more rest _ hnext => ?_
        refine .bind_takes rfl (fun comma rest _ hcomma => .pure ?_) fun _ => .pure ?_
        · simpa [openList_append] using helements.append (hnext.append (.single hcomma))
        · simpa using helements.commaSlots_of_last hnext

theorem field_spelled {spanOf : α → Span} {slots : α → List Slot} {value : Parse α}
    (hvalue : Spelled final slots value) :
    Spelled final (Field.slots final.text slots) (field spanOf value) := by
  intro records input
  refine .bind (ident_spelled records input) fun name taken rest _ hname => ?_
  refine .bind_expect rfl fun colon rest _ hcolon => ?_
  refine .bind (hvalue records rest) fun given more rest _ hgiven => .pure ?_
  simpa [Field.slots] using hname.append (.token hcolon hgiven)

theorem record_spelled {spanOf : α → Span} {slots : α → List Slot} {value : Parse α}
    (hvalue : Spelled final slots value) :
    Spelled final (Record.slots final.text slots) (record spanOf value) := by
  intro records input
  refine .bind_expect rfl fun left rest _ hleft => ?_
  refine .bind (.withRecords (commaList_spelled (field_spelled hvalue) true rest)) fun fields taken rest _ hlist => ?_
  refine .bind_expect rfl fun right rest _ hright => .pure ?_
  simpa [Record.slots] using Spells.token hleft (hlist.append (.single hright))

/-! ## Imports -/

theorem importPart_spelled {member : Parse (ImportPath Span Symbol)}
    (hmember : Spelled final (ImportPath.slots final.text) member) :
    Spelled final (fun part => ImportPart.slots final.text part.1) (importPart member) := by
  intro records input
  refine .bind_peek fun token hshows => ?_
  split
  next hkind =>
    refine .bind_advance ⟨token, hshows, congrArg Kind.variant hkind⟩ rfl fun left rest _ hleft => ?_
    refine .bind (commaList_spelled hmember records rest) fun members taken rest _ hmembers => ?_
    refine .bind_expect rfl fun right rest _ hright => .pure ?_
    simpa [ImportPart.slots] using Spells.token hleft (hmembers.append (.single hright))
  next =>
    refine .bind (ident_spelled records input) fun name taken rest _ hname => .pure ?_
    simpa [ImportPart.slots] using hname
  next => exact .bind_want (.bind_want .refuse)

theorem importPathWithin_spelled (levels : Nat) :
    Spelled final (ImportPath.slots final.text) (importPathWithin levels) := by
  induction levels with
  | zero => exact fun _ _ => .refuse
  | succ levels ih =>
      refine fun records input => .nested (.bind_peek fun start _ => ?_)
      have hparts : Reads final records input (repeated (importRound (importPathWithin levels)) [])
          fun parts taken _ => Spells (joined .dot (ImportPart.slotsList final.text parts.1)) taken := by
        refine .repeated
          (fun parts taken _ => Spells (openList .dot (parts.map (ImportPart.slots final.text))) taken)
          .nil fun parts taken rest hparts => ?_
        refine .bind (importPart_spelled ih records rest) fun part more rest _ hpart => ?_
        refine .bind_takes rfl (fun dot rest _ hdot => .pure ?_) fun _ => .pure ?_
        · simpa [openList_append] using hparts.append (hpart.append (.single hdot))
        · simpa [ImportPart.slotsList_eq_map, joined_append] using hparts.append hpart
      exact .bind hparts fun parts taken rest _ hparts => .pure (by simpa [ImportPath.slots] using hparts)

theorem importPath_spelled : Spelled final (ImportPath.slots final.text) importPath :=
  fun records input => .bounded fun levels => importPathWithin_spelled levels records input

theorem importDeclaration_spelled :
    Spelled final (fun declared => ImportPath.declarationSlots final.text declared.1)
      importDeclaration := by
  intro records input
  refine .bind_expect rfl fun start rest _ hstart => ?_
  refine .bind (importPath_spelled records rest) fun path taken rest _ hpath => ?_
  refine .bind_expect rfl fun stop rest _ hstop => .pure ?_
  simpa [ImportPath.declarationSlots] using Spells.token hstart (hpath.append (.single hstop))

/-! ## Types -/

theorem namedType_spelled {type : Parse (TypeExpr Span Symbol)}
    (htype : Spelled final (TypeExpr.slots final.text) type) :
    Spelled final (TypeExpr.slots final.text) (namedType type) := by
  intro records input
  refine .bind (path_spelled records input) fun name taken rest _ hname => ?_
  refine .bind_nextIs (fun hnext => ?_) fun _ => .pure ?_
  · refine .bind_advance hnext rfl fun left rest _ hleft => ?_
    refine .bind (commaList_spelled htype records rest) fun arguments more rest _ harguments => ?_
    refine .bind_expect rfl fun right rest _ hright => .pure ?_
    cases arguments with
    | nil =>
        have hspare := Spells.spareBrackets hleft (by simpa [commaSlots, joined] using harguments) hright
        simpa [TypeExpr.slots] using hname.append hspare
    | cons first others =>
        rw [TypeExpr.slots, TypeExpr.slotsList_eq_map]
        simpa using hname.append (.token hleft (harguments.append (.single hright)))
  · simpa [TypeExpr.slots] using hname.append .noBrackets

theorem typeAtom_spelled {type : Parse (TypeExpr Span Symbol)}
    (htype : Spelled final (TypeExpr.slots final.text) type) :
    Spelled final (TypeExpr.slots final.text) (typeAtom type) := by
  intro records input
  refine .bind_peek fun token hshows => ?_
  split
  next hkind =>
    refine .bind_advance ⟨token, hshows, congrArg Kind.variant hkind⟩ rfl fun mark rest _ hmark => ?_
    exact .pure (by simpa [TypeExpr.slots] using Spells.single hmark)
  next hkind =>
    refine .bind_advance ⟨token, hshows, congrArg Kind.variant hkind⟩ rfl fun left rest _ hleft => ?_
    refine .bind_expect rfl fun right rest _ hright => .pure ?_
    simpa [TypeExpr.slots] using Spells.token hleft (.single hright)
  next =>
    refine .bind (record_spelled htype records input) fun ⟨fields, span⟩ taken rest _ hfields => .pure ?_
    simpa [TypeExpr.slots, TypeExpr.slotsFields_eq_map, Record.slots] using hfields
  next => exact namedType_spelled htype records input
  next => exact .bind_want .refuse

theorem optionalRound_reads {records : Bool} {input : List Scan} (type : TypeExpr Span Symbol) :
    Reads final records input (optionalRound type) fun result taken rest =>
      (result = .done type ∧ taken = [] ∧ rest = input ∧ ¬ Next Punct.question input) ∨
        ∃ mark span, result = .more (.optional type span) ∧ taken = [mark] ∧
          mark.kind = Punct.question := by
  refine .bind_nextIs (fun hnext => ?_) fun hno => .pure (.inl ⟨rfl, rfl, rfl, hno⟩)
  refine .bind_advance hnext rfl fun mark rest _ hmark => ?_
  cases type.isOptional with
  | true => exact .bind_warn (.pure (.inr ⟨mark, _, rfl, rfl, hmark⟩))
  | false => exact .pure (.inr ⟨mark, _, rfl, rfl, hmark⟩)

theorem typeWithin_spelled (levels : Nat) :
    Spelled final (TypeExpr.slots final.text) (typeWithin levels) := by
  induction levels with
  | zero => exact fun _ _ => .refuse
  | succ levels ih =>
      refine fun records input => .nested ?_
      refine .bind (typeAtom_spelled ih records input) fun atom taken rest _ hatom => ?_
      refine .repeated (fun type more _ => Spells (type.slots final.text) (taken ++ more))
        (by simpa using hatom) fun type more rest htype => ?_
      refine (optionalRound_reads type).mono fun result last rest _ hresult => ?_
      rcases hresult with ⟨rfl, rfl, -, -⟩ | ⟨mark, span, rfl, rfl, hmark⟩
      · simpa using htype
      · simpa [TypeExpr.slots] using htype.append (.single hmark)

theorem type_spelled : Spelled final (TypeExpr.slots final.text) type :=
  fun records input => .bounded fun levels => typeWithin_spelled levels records input

theorem parameters_spelled :
    Spelled final (Parameter.slotsList final.text) parameters := by
  intro records input
  refine .bind_expect rfl fun left rest _ hleft => ?_
  refine .bind (commaList_spelled (field_spelled type_spelled) records rest) fun list taken rest _ hlist => ?_
  refine .bind_expect rfl fun right rest _ hright => .pure ?_
  simpa [Parameter.slotsList, TypeExpr.slotsFields_eq_map] using
    Spells.token hleft (hlist.append (.single hright))

/-- The type behind a mark, whatever the mark is. -/
theorem typeAfter_spelled (mark : Punct) :
    Spelled final (TypeExpr.slotsAfter final.text mark)
      (do if ← takes mark then return some (← type) else return none) := by
  intro records input
  refine .bind_takes rfl (fun token rest _ htoken => ?_) fun _ => .pure .nil
  refine .bind (type_spelled records rest) fun type taken rest _ htype => .pure ?_
  simpa [TypeExpr.slotsAfter] using Spells.token htoken htype

end Grammar

end FilterScript
