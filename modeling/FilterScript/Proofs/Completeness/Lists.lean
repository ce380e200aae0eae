import FilterScript.Proofs.Completeness.Canonical
import FilterScript.Proofs.Completeness.Gives
import FilterScript.Proofs.Spelling.Lists

/-!
# Reading written names, lists, imports and types

A written tree is read back as far as the production that reads it can tell where
it ends: every lemma says what may stand behind. Trees are compared by shape,
without spans and with texts for symbols.
-/

namespace FilterScript

/-! ## Shapes -/

section Shapes

variable {σ τ ν μ α β : Type} (f : σ → τ) (g : ν → μ)

def Field.mapValue (value : α → β) (field : Field σ ν α) : Field τ μ β :=
  ⟨field.name.map f g, value field.value, f field.span⟩

theorem TypeExpr.mapList_eq_map (types : List (TypeExpr σ ν)) :
    TypeExpr.mapList f g types = types.map (TypeExpr.map f g) := by
  induction types with
  | nil => rfl
  | cons type rest ih => rw [mapList, ih, List.map_cons]

theorem TypeExpr.mapFields_eq_map (fields : List (Field σ ν (TypeExpr σ ν))) :
    TypeExpr.mapFields f g fields = fields.map (Field.mapValue f g (TypeExpr.map f g)) := by
  induction fields with
  | nil => rfl
  | cons field rest ih => rw [mapFields, ih, List.map_cons, Field.mapValue]

theorem ImportPath.mapList_eq_map (paths : List (ImportPath σ ν)) :
    ImportPath.mapList f g paths = paths.map (ImportPath.map f g) := by
  induction paths with
  | nil => simp [mapList]
  | cons path rest ih => rw [mapList, ih, List.map_cons]

theorem ImportPart.mapList_append (first second : List (ImportPart σ ν)) :
    ImportPart.mapList f g (first ++ second) =
      ImportPart.mapList f g first ++ ImportPart.mapList f g second := by
  induction first with
  | nil => simp [mapList]
  | cons part rest ih => cases part <;> simp [mapList, ih]

end Shapes

attribute [simp] TypeExpr.map ImportPath.map ImportPart.mapList Expr.map Expr.mapOption
  Alternative.mapOption Block.map Statement.map Arm.map ArmBody.map

/-- Nothing is noted at the nodes of a shape. -/
def noNote (_ : Span) : Unit :=
  ()

/-! ## What stands first -/

theorem kindAt_of_spells {kind : Kind} {slots : List Slot} {taken rest : List Token}
    (h : Spells (.token kind :: slots) taken) : kindAt 0 (taken ++ rest) = kind := by
  obtain ⟨token, more, rfl, hkind, _⟩ := Spells.token_iff.mp h
  exact hkind

/-- The places begin with a token that has to be there and of which the statement
holds. -/
def BeginsWith (test : Kind → Prop) (slots : List Slot) : Prop :=
  ∃ kind more, slots = .token kind :: more ∧ test kind

theorem BeginsWith.append {test : Kind → Prop} {slots : List Slot} (h : BeginsWith test slots)
    (more : List Slot) : BeginsWith test (slots ++ more) := by
  obtain ⟨kind, others, rfl, htest⟩ := h
  exact ⟨kind, others ++ more, rfl, htest⟩

theorem BeginsWith.kindAt {test : Kind → Prop} {slots : List Slot} {taken rest : List Token}
    (h : BeginsWith test slots) (hspells : Spells slots taken) :
    test (FilterScript.kindAt 0 (taken ++ rest)) := by
  obtain ⟨kind, more, rfl, htest⟩ := h
  rwa [kindAt_of_spells hspells]

theorem BeginsWith.ne_nil {test : Kind → Prop} {slots : List Slot} {taken : List Token}
    (h : BeginsWith test slots) (hspells : Spells slots taken) : taken ≠ [] := by
  obtain ⟨kind, more, rfl, _⟩ := h
  obtain ⟨token, others, rfl, _⟩ := Spells.token_iff.mp hspells
  simp

namespace Grammar

open Parse Parse.Gives

variable {α β : Type} {final : Names} {records : Bool} {taken rest : List Token}

theorem ident_gives {ident : Ident Unit String} (h : Spells (ident.slots id) taken) :
    Gives final records taken rest Grammar.ident fun result =>
      result.map noNote final.text = ident := by
  obtain ⟨token, rfl, hkind⟩ := Spells.single_iff.mp h
  apply (Gives.ident hkind).mono
  rintro result ⟨htext, hraw⟩
  unfold Ident.map
  rw [htext, hraw]
  rfl

/-- A path would go on here. -/
def PathGoesOn (rest : List Token) : Prop :=
  kindAt 0 rest = Punct.dot ∧ (kindAt 1 rest).isName = true

theorem bind_pathContinues_yes {next : Bool → Parse β} {last : β → Prop}
    (hpath : PathGoesOn (taken ++ rest)) (h : Gives final records taken rest (next true) last) :
    Gives final records taken rest (pathContinues >>= next) last := by
  unfold pathContinues
  rw [bind_assoc]
  apply bind_nextIs_yes hpath.1
  simp only [if_true, bind_assoc]
  apply bind_peekAt
  intro token hkind
  rw [hkind, hpath.2, pure_bind]
  exact h

theorem bind_pathContinues_no {next : Bool → Parse β} {last : β → Prop}
    (hpath : ¬ PathGoesOn (taken ++ rest)) (h : Gives final records taken rest (next false) last) :
    Gives final records taken rest (pathContinues >>= next) last := by
  unfold pathContinues
  rw [bind_assoc]
  by_cases hdot : kindAt 0 (taken ++ rest) = Punct.dot
  · apply bind_nextIs_yes hdot
    simp only [if_true, bind_assoc]
    apply bind_peekAt
    intro token hkind
    have hname : token.kind.isName = false := by
      rw [hkind, ← Bool.not_eq_true]
      exact fun hname => hpath ⟨hdot, hname⟩
    rw [hname, pure_bind]
    exact h
  · apply bind_nextIs_no rfl hdot
    simpa using h

/-- The rest of a path, each name with the dot in front of it. -/
theorem pathRounds_give {more : List (Ident Unit String)} {names : List (Ident Span Symbol)}
    (h : Spells (more.flatMap (.token Punct.dot :: Ident.slots id ·)) taken)
    (hstop : ¬ PathGoesOn rest) :
    Loops final records taken rest pathRound names fun result =>
      result.map (Ident.map noNote final.text) = names.map (Ident.map noNote final.text) ++ more := by
  induction more generalizing names taken with
  | nil =>
      obtain rfl := Spells.nil_iff.mp h
      refine Loops.finish (bind_pathContinues_no hstop (.pure ?_))
      exact ⟨names, rfl, (List.append_nil _).symm⟩
  | cons next more ih =>
      rw [List.flatMap_cons, List.cons_append] at h
      obtain ⟨dot, tokens, rfl, hdot, h⟩ := Spells.token_iff.mp h
      obtain ⟨part, back, rfl, hpart, hback⟩ := Spells.append_iff.mp h
      obtain ⟨name, rfl, hname⟩ := Spells.single_iff.mp hpart
      have hround : Gives final records [dot, name] (back ++ rest) (pathRound names) fun result =>
          ∃ longer, result = .more longer ∧ Loops final records back rest pathRound longer fun result =>
            result.map (Ident.map noNote final.text) =
              names.map (Ident.map noNote final.text) ++ next :: more := by
        have hpath : PathGoesOn ([dot, name] ++ (back ++ rest)) :=
          ⟨hdot, by simp [hname, Ident.kind, Kind.isName]⟩
        refine bind_pathContinues_yes hpath (bind_advance (by rw [hdot]; rfl) ?_)
        rw [← List.append_nil [name]]
        refine .bind (ident_gives (.single hname)) fun result hresult => .pure ⟨_, rfl, ?_⟩
        have hloops : Loops final records back rest pathRound (names ++ [result]) _ := ih hback
        simpa [hresult] using hloops
      exact Loops.step (by simp) hround

theorem path_gives {path : Path Unit String} (h : Spells (path.slots id) taken)
    (hstop : ¬ PathGoesOn rest) :
    Gives final records taken rest Grammar.path fun result =>
      result.map noNote final.text = path := by
  rw [Path.slots, Path.segments, List.map_cons, joined_cons, List.flatMap_map] at h
  obtain ⟨front, back, rfl, hfirst, hmore⟩ := Spells.append_iff.mp h
  unfold Grammar.path
  refine .bind (ident_gives hfirst) fun first hfirst => ?_
  rw [← List.append_nil back]
  refine .bind (pathRounds_give hmore hstop).repeated fun names hnames => .pure ?_
  unfold Path.map
  rw [hfirst, hnames]
  rfl

/-! ## Lists -/

section Lists

variable {close : Kind} {slots : β → List Slot} {shape : α → β} {element : Parse α}
  {targets : List β}

/-- Reading one element of a list gives the target, with a comma or the end of
the list behind it. The element has no more tokens than the number says. -/
def GivesElement (final : Names) (records : Bool) (close : Kind) (slots : β → List Slot)
    (shape : α → β) (element : Parse α) (bound : Nat) (target : β) : Prop :=
  ∀ taken rest, Spells (slots target) taken → taken.length ≤ bound →
    (kindAt 0 rest = Punct.comma ∨ kindAt 0 rest = close) →
    Gives final records taken rest element fun result => shape result = target

/-- What an element of a list begins with: neither a comma nor the end. -/
def BeginsElement (close : Kind) : List Slot → Prop :=
  BeginsWith fun kind => kind ≠ Kind.punct .comma ∧ kind ≠ close

/-- The first element of a written list, and either the end or a comma and the
rest of the list. -/
theorem spells_commaSlots_cons {first : List Slot} {others : List (List Slot)}
    (h : Spells (commaSlots (first :: others)) taken) :
    ∃ part, Spells first part ∧
      (others = [] ∧ taken = part ∨
        ∃ (comma : Token) (back : List Token), taken = part ++ comma :: back ∧
          comma.kind = Punct.comma ∧ Spells (commaSlots others) back ∧
          (others = [] → back = [])) := by
  unfold commaSlots at h ⊢
  cases others with
  | nil =>
      obtain ⟨part, back, rfl, hpart, hback⟩ := Spells.append_iff.mp h
      rw [joined_cons, List.flatMap_nil, List.append_nil] at hpart
      refine ⟨part, hpart, ?_⟩
      rcases Spells.spareComma_iff.mp hback with rfl | ⟨comma, rfl, hcomma⟩
      · exact .inl ⟨rfl, List.append_nil _⟩
      · exact .inr ⟨comma, [], rfl, hcomma, Spells.spareComma_iff.mpr (.inl rfl), fun _ => rfl⟩
  | cons second others =>
      rw [joined_cons, List.flatMap_cons, List.append_assoc, List.append_assoc] at h
      obtain ⟨part, tokens, rfl, hpart, h⟩ := Spells.append_iff.mp h
      obtain ⟨comma, back, rfl, hcomma, hback⟩ := Spells.token_iff.mp h
      refine ⟨part, hpart, .inr ⟨comma, back, rfl, hcomma, ?_, fun h => by cases h⟩⟩
      rwa [joined_cons, List.append_assoc]

/-- The elements that are still to come, unless a comma stands there alone. -/
theorem listRounds_give (hclose : close.isFixed) (hcomma : close ≠ Punct.comma)
    (hbegins : ∀ target ∈ targets, BeginsElement close (slots target)) {bound : Nat}
    (helement : ∀ target ∈ targets, GivesElement final records close slots shape element bound target)
    {elements : List α} (hspells : Spells (commaSlots (targets.map slots)) taken)
    (hbound : taken.length ≤ bound) (halone : targets = [] → taken = [])
    (hrest : kindAt 0 rest = close) :
    Loops final records taken rest (listRound close element) elements fun result =>
      result.map shape = elements.map shape ++ targets := by
  induction targets generalizing elements taken with
  | nil =>
      obtain rfl := halone rfl
      refine Loops.finish (bind_accepts_yes hrest (.pure ⟨elements, rfl, ?_⟩))
      exact (List.append_nil _).symm
  | cons target others ih =>
      have hfirst := hbegins target List.mem_cons_self
      have hgives := helement target List.mem_cons_self
      obtain ⟨part, hpart, hback⟩ := spells_commaSlots_cons hspells
      have hnext : ∀ more, kindAt 0 (part ++ more) ≠ close := fun _ => (hfirst.kindAt hpart).2
      rcases hback with ⟨hothers, rfl⟩ | ⟨comma, back, rfl, hkind, hback, halone⟩
      · obtain rfl := List.map_eq_nil_iff.mp hothers
        refine Loops.finish (bind_accepts_no hclose (hnext _) ?_)
        rw [← List.append_nil taken]
        refine .bind (hgives taken _ hpart hbound (.inr hrest)) fun result hresult => ?_
        refine bind_takes_no rfl (by simpa [hrest] using hcomma) (.pure ⟨_, rfl, ?_⟩)
        simp [hresult]
      · rw [List.length_append, List.length_cons] at hbound
        have hround : Gives final records (part ++ [comma]) (back ++ rest)
            (listRound close element elements) fun result => ∃ longer, result = .more longer ∧
              Loops final records back rest (listRound close element) longer fun result =>
                result.map shape = elements.map shape ++ target :: others := by
          refine bind_accepts_no hclose (by simpa using hnext _) ?_
          refine .bind (hgives part _ hpart (by omega) (.inl hkind)) fun result hresult => ?_
          refine bind_takes_yes rfl hkind (.pure ⟨_, rfl, ?_⟩)
          have hloops : Loops final records back rest (listRound close element)
              (elements ++ [result]) _ :=
            ih (fun target hmem => hbegins target (List.mem_cons_of_mem _ hmem))
              (fun target hmem => helement target (List.mem_cons_of_mem _ hmem)) hback (by omega)
              (fun hothers => halone (by simp [hothers]))
          simpa [hresult] using hloops
        have hloops := Loops.step (by simp) hround
        simpa using hloops

theorem bind_loneComma_yes {next : Bool → Parse β} {last : β → Prop}
    (hcomma : kindAt 0 (taken ++ rest) = Punct.comma) (hclose : kindAt 1 (taken ++ rest) = close)
    (h : Gives final records taken rest (next true) last) :
    Gives final records taken rest (loneComma close >>= next) last := by
  unfold loneComma
  rw [bind_assoc]
  refine bind_nextIs_yes hcomma ?_
  simp only [if_true, bind_assoc]
  refine bind_peekAt fun token hkind => ?_
  rw [hkind, hclose, beq_self_eq_true, pure_bind]
  exact h

theorem bind_loneComma_no {next : Bool → Parse β} {last : β → Prop}
    (hcomma : kindAt 0 (taken ++ rest) ≠ Punct.comma)
    (h : Gives final records taken rest (next false) last) :
    Gives final records taken rest (loneComma close >>= next) last := by
  unfold loneComma
  rw [bind_assoc]
  refine bind_nextIs_no rfl hcomma ?_
  simpa using h

/-- A list is read back up to its closing token, whether it has a spare comma or
not. -/
theorem commaList_gives (hclose : close.isFixed) (hcomma : close ≠ Punct.comma)
    (hbegins : ∀ target ∈ targets, BeginsElement close (slots target))
    (helement : ∀ target ∈ targets,
      GivesElement final records close slots shape element taken.length target)
    (hspells : Spells (commaSlots (targets.map slots)) taken) (hrest : kindAt 0 rest = close) :
    Gives final records taken rest (commaList close element) fun result =>
      result.map shape = targets := by
  have hrounds : (targets = [] → taken = []) →
      Gives final records taken rest (repeated (listRound close element) []) fun result =>
        result.map shape = targets :=
    fun halone =>
      (listRounds_give hclose hcomma hbegins helement hspells (Nat.le_refl _) halone hrest).repeated
  cases targets with
  | nil =>
      rcases Spells.spareComma_iff.mp hspells with rfl | ⟨comma, rfl, hkind⟩
      · exact bind_loneComma_no (by simpa [hrest] using hcomma) (hrounds fun _ => rfl)
      · refine bind_loneComma_yes hkind (by simpa using hrest) ?_
        exact bind_advance (by rw [hkind]; rfl) (.pure rfl)
  | cons target others =>
      obtain ⟨part, hpart, hback⟩ := spells_commaSlots_cons hspells
      have hnext : ∀ more, kindAt 0 (part ++ more) ≠ Punct.comma :=
        fun _ => ((hbegins target List.mem_cons_self).kindAt hpart).1
      refine bind_loneComma_no ?_ (hrounds fun h => by cases h)
      rcases hback with ⟨_, rfl⟩ | ⟨comma, back, rfl, _, _, _⟩
      · exact hnext _
      · simpa using hnext _

theorem field_gives {spanOf : α → Span} {target : Field Unit String β} {bound : Nat}
    (hvalue : GivesElement final records close slots shape element bound target.value) :
    GivesElement final records close (Field.slots id slots)
      (Field.mapValue noNote final.text shape) (field spanOf element) bound target := by
  intro taken rest hspells hbound hrest
  obtain ⟨front, tokens, rfl, hname, hspells⟩ := Spells.append_iff.mp hspells
  obtain ⟨colon, back, rfl, hcolon, hback⟩ := Spells.token_iff.mp hspells
  rw [List.length_append, List.length_cons] at hbound
  unfold field
  refine .bind (ident_gives hname) fun name hname => bind_expect rfl hcolon ?_
  rw [← List.append_nil back]
  refine .bind (hvalue back _ hback (by omega) hrest) fun given hgiven => .pure ?_
  unfold Field.mapValue
  rw [hname, hgiven]

theorem field_begins (target : Field Unit String β) :
    BeginsElement Punct.rbrace (Field.slots id slots target) :=
  ⟨_, _, rfl, by simp [Ident.kind], by simp [Ident.kind]⟩

/-- Fields in braces, whatever stands behind them. -/
theorem record_gives {spanOf : α → Span} {target : Record Unit String β}
    (hvalue : ∀ field ∈ target.fields, ∀ bound < taken.length,
      GivesElement final true Punct.rbrace slots shape element bound field.value)
    (hspells : Spells (Record.slots id slots target) taken) :
    Gives final records taken rest (record spanOf element) fun result =>
      result.fields.map (Field.mapValue noNote final.text shape) = target.fields := by
  obtain ⟨left, tokens, rfl, hleft, hspells⟩ := Spells.token_iff.mp hspells
  obtain ⟨inner, back, rfl, hinner, hback⟩ := Spells.append_iff.mp hspells
  obtain ⟨right, rfl, hright⟩ := Spells.single_iff.mp hback
  have hfields : Gives final true inner ([right] ++ rest)
      (commaList Punct.rbrace (field spanOf element)) fun result =>
        result.map (Field.mapValue noNote final.text shape) = target.fields := by
    refine commaList_gives rfl (by simp) (fun field _ => field_begins field) ?_ hinner hright
    intro field hmem
    apply field_gives
    apply hvalue field hmem
    simp only [List.length_cons, List.length_append]
    omega
  unfold record
  refine bind_expect rfl hleft (.bind hfields.withRecords fun fields hfields => ?_)
  exact bind_expect rfl hright (.pure hfields)

end Lists

/-! ## Imports -/

theorem importPart_begins (part : ImportPart Unit String) :
    BeginsWith (fun kind => kind ≠ Kind.punct .comma ∧ kind ≠ Kind.punct .rbrace)
      (ImportPart.slots id part) := by
  cases part with
  | name ident => exact ⟨_, [], rfl, by simp [Ident.kind], by simp [Ident.kind]⟩
  | group members span => exact ⟨_, _, rfl, by simp, by simp⟩

theorem importPath_begins {path : ImportPath Unit String} (h : path.Fits) :
    BeginsElement Punct.rbrace (path.slots id) := by
  obtain ⟨parts, span⟩ := path
  rw [ImportPath.slots, ImportPart.slotsList_eq_map]
  cases parts with
  | nil => exact absurd rfl h.1
  | cons first others =>
      rw [List.map_cons, joined_cons]
      exact (importPart_begins first).append _

/-- One part of an import path, given that paths in groups are read back. -/
theorem importPart_gives {member : Parse (ImportPath Span Symbol)} {part : ImportPart Unit String}
    (hmember : ∀ path : ImportPath Unit String, path.Fits → ∀ bound < taken.length,
      GivesElement final records Punct.rbrace (ImportPath.slots id) (ImportPath.map noNote final.text)
        member bound path)
    (hfits : ImportPart.FitsList [part]) (hspells : Spells (ImportPart.slots id part) taken) :
    Gives final records taken rest (importPart member) fun result =>
      ImportPart.mapList noNote final.text [result.1] = [part] := by
  cases part with
  | name ident =>
      obtain ⟨token, rfl, hkind⟩ := Spells.single_iff.mp hspells
      refine bind_peek fun shown hshown => ?_
      have hname : shown.kind = .name ident.name ident.raw := hshown.trans hkind
      rw [hname, ← List.append_nil [token]]
      refine .bind (ident_gives hspells) fun name hname => .pure ?_
      simp [hname]
  | group members span =>
      have hmembers : ImportPath.FitsList members := hfits.1
      obtain ⟨left, tokens, rfl, hleft, hspells⟩ := Spells.token_iff.mp hspells
      obtain ⟨inner, back, rfl, hinner, hback⟩ := Spells.append_iff.mp hspells
      obtain ⟨right, rfl, hright⟩ := Spells.single_iff.mp hback
      have hlist : Gives final records inner ([right] ++ rest) (commaList Punct.rbrace member)
          fun result => result.map (ImportPath.map noNote final.text) = members := by
        refine commaList_gives rfl (by simp) ?_ ?_ hinner hright
        · exact fun path hmem => importPath_begins (ImportPath.fitsList_iff.mp hmembers path hmem)
        · intro path hmem
          apply hmember path (ImportPath.fitsList_iff.mp hmembers path hmem)
          simp only [List.length_cons, List.length_append]
          omega
      refine bind_peek fun shown hshown => ?_
      have hlbrace : shown.kind = Punct.lbrace := hshown.trans hleft
      rw [hlbrace]
      refine bind_advance (by rw [hleft]; rfl) (.bind hlist fun result hresult => ?_)
      refine bind_expect rfl hright (.pure ?_)
      simp [ImportPath.mapList_eq_map, hresult]

theorem importPart_fits_cons {first : ImportPart Unit String}
    {others : List (ImportPart Unit String)} (h : ImportPart.FitsList (first :: others)) :
    ImportPart.FitsList [first] ∧ ImportPart.FitsList others := by
  cases first <;> simp_all

/-- The parts that are still to come, one at least. -/
theorem importRounds_give {member : Parse (ImportPath Span Symbol)}
    {first : ImportPart Unit String} {others : List (ImportPart Unit String)} {bound : Nat}
    (hmember : ∀ path : ImportPath Unit String, path.Fits → ∀ length < bound,
      GivesElement final records Punct.rbrace (ImportPath.slots id) (ImportPath.map noNote final.text)
        member length path)
    {parts : List (ImportPart Span Symbol)} (hfits : ImportPart.FitsList (first :: others))
    (hspells : Spells (joined .dot ((first :: others).map (ImportPart.slots id))) taken)
    (hbound : taken.length ≤ bound) (hrest : kindAt 0 rest ≠ Punct.dot) :
    Loops final records taken rest (importRound member) parts fun result =>
      ImportPart.mapList noNote final.text result.1 =
        ImportPart.mapList noNote final.text parts ++ first :: others := by
  have hpart : ∀ {part : ImportPart Unit String} {front behind : List Token},
      ImportPart.FitsList [part] → Spells (part.slots id) front → front.length ≤ bound →
      Gives final records front behind (importPart member) fun result =>
        ImportPart.mapList noNote final.text [result.1] = [part] :=
    fun hpart hfront hlength => importPart_gives
      (fun path hpath length hshorter => hmember path hpath length (by omega)) hpart hfront
  induction others generalizing first taken parts with
  | nil =>
      rw [List.map_singleton, joined_cons, List.flatMap_nil, List.append_nil] at hspells
      apply Loops.finish
      unfold importRound
      rw [← List.append_nil taken]
      refine .bind (hpart hfits hspells hbound) fun part hpart => ?_
      refine bind_takes_no rfl hrest (.pure ⟨_, rfl, ?_⟩)
      rw [ImportPart.mapList_append, hpart]
  | cons second others ih =>
      rw [List.map_cons, joined_cons, List.map_cons, List.flatMap_cons, List.cons_append,
        ← joined_cons, ← List.map_cons] at hspells
      obtain ⟨front, tokens, rfl, hfront, hspells⟩ := Spells.append_iff.mp hspells
      obtain ⟨dot, back, rfl, hdot, hback⟩ := Spells.token_iff.mp hspells
      rw [List.length_append, List.length_cons] at hbound
      have hround : Gives final records (front ++ [dot]) (back ++ rest) (importRound member parts)
          fun result => ∃ longer, result = .more longer ∧
            Loops final records back rest (importRound member) longer fun result =>
              ImportPart.mapList noNote final.text result.1 =
                ImportPart.mapList noNote final.text parts ++ first :: second :: others := by
        obtain ⟨hfirst, hothers⟩ := importPart_fits_cons hfits
        refine .bind (hpart hfirst hfront (by omega)) fun part hpart => ?_
        refine bind_takes_yes rfl hdot (.pure ⟨_, rfl, ?_⟩)
        have hloops : Loops final records back rest (importRound member) (parts ++ [part.1]) _ :=
          ih hothers hback (by omega)
        rw [ImportPart.mapList_append, hpart] at hloops
        simpa using hloops
      simpa using Loops.step (by simp) hround

/-- Levels enough for all the tokens are enough for the groups in a path. -/
theorem importPathWithin_gives {levels : Nat} {path : ImportPath Unit String} (hfits : path.Fits)
    (hspells : Spells (path.slots id) taken) (hlevels : taken.length < levels)
    (hrest : kindAt 0 rest ≠ Punct.dot) :
    Gives final records taken rest (importPathWithin levels) fun result =>
      result.map noNote final.text = path := by
  induction levels generalizing path taken rest with
  | zero => exact absurd hlevels (Nat.not_lt_zero _)
  | succ levels ih =>
      obtain ⟨parts, span⟩ := path
      cases parts with
      | nil => exact absurd rfl hfits.1
      | cons first others =>
          rw [ImportPath.slots, ImportPart.slotsList_eq_map] at hspells
          have hmember : ∀ path : ImportPath Unit String, path.Fits → ∀ length < taken.length,
              GivesElement final records Punct.rbrace (ImportPath.slots id)
                (ImportPath.map noNote final.text) (importPathWithin levels) length path := by
            intro path hpath length hlength part behind hpart hbound hbehind
            refine ih hpath hpart (by omega) ?_
            rcases hbehind with h | h <;> simp [h]
          have hrounds : Loops final records taken rest (importRound (importPathWithin levels)) [] _ :=
            importRounds_give hmember hfits.2 hspells (Nat.le_refl _) hrest
          refine .nested (bind_peek fun start _ => ?_)
          rw [← List.append_nil taken]
          refine .bind hrounds.repeated fun result hresult => .pure ?_
          rw [ImportPath.map, hresult]
          simp

theorem importPath_gives {path : ImportPath Unit String} (hfits : path.Fits)
    (hspells : Spells (path.slots id) taken) (hrest : kindAt 0 rest ≠ Punct.dot) :
    Gives final records taken rest importPath fun result =>
      result.map noNote final.text = path :=
  .bounded fun _ hlevels => importPathWithin_gives hfits hspells hlevels hrest

theorem importDeclaration_gives {path : ImportPath Unit String} (hfits : path.Fits)
    (hspells : Spells (path.declarationSlots id) taken) :
    Gives final records taken rest importDeclaration fun result =>
      result.1.map noNote final.text = path := by
  obtain ⟨start, tokens, rfl, hstart, hspells⟩ := Spells.token_iff.mp hspells
  obtain ⟨inner, back, rfl, hinner, hback⟩ := Spells.append_iff.mp hspells
  obtain ⟨stop, rfl, hstop⟩ := Spells.single_iff.mp hback
  refine bind_expect rfl hstart (.bind (importPath_gives hfits hinner ?_) fun result hresult => ?_)
  · rw [List.singleton_append, kindAt_zero, hstop]
    simp
  · exact bind_expect rfl hstop (.pure hresult)

/-! ## Types -/

/-- No type goes on with this token. -/
def StopsType (kind : Kind) : Prop :=
  kind ≠ Punct.dot ∧ kind ≠ Punct.lbracket ∧ kind ≠ Punct.question

/-- The production reads back every type that has fewer tokens than the number
says. -/
def GivesTypes (final : Names) (type : Parse (TypeExpr Span Symbol)) (bound : Nat) : Prop :=
  ∀ (records : Bool) (target : TypeExpr Unit String) (taken rest : List Token),
    Spells (target.slots id) taken → taken.length < bound → StopsType (kindAt 0 rest) →
    Gives final records taken rest type fun result => result.map noNote final.text = target

theorem GivesTypes.element {type : Parse (TypeExpr Span Symbol)} {bound length : Nat} {close : Kind}
    (h : GivesTypes final type bound) (hlength : length < bound) (hclose : StopsType close)
    (target : TypeExpr Unit String) :
    GivesElement final records close (TypeExpr.slots id) (TypeExpr.map noNote final.text) type length
      target := by
  intro taken rest hspells hbound hrest
  refine h records target taken rest hspells (by omega) ?_
  rcases hrest with hcomma | hrest
  · rw [hcomma]
    exact ⟨by simp, by simp, by simp⟩
  · rwa [hrest]

theorem path_begins (path : Path Unit String) :
    BeginsWith (fun kind => ∃ text raw, kind = .name text raw) (path.slots id) := by
  rw [Path.slots, Path.segments, List.map_cons, joined_cons]
  exact ⟨_, _, rfl, _, _, rfl⟩

theorem type_begins (type : TypeExpr Unit String) :
    BeginsElement Punct.rbracket (type.slots id) := by
  match type with
  | .named path [] span =>
      obtain ⟨_, more, hpath, text, raw, rfl⟩ := path_begins path
      exact ⟨_, _, by rw [TypeExpr.slots, hpath]; rfl, by simp, by simp⟩
  | .named path (first :: others) span =>
      obtain ⟨_, more, hpath, text, raw, rfl⟩ := path_begins path
      exact ⟨_, _, by rw [TypeExpr.slots, hpath]; rfl, by simp, by simp⟩
  | .optional inner span => exact (type_begins inner).append _
  | .never span => exact ⟨_, _, rfl, by simp, by simp⟩
  | .unit span => exact ⟨_, _, rfl, by simp, by simp⟩
  | .record ⟨fields, span⟩ => exact ⟨_, _, rfl, by simp, by simp⟩

/-- A path, which may have brackets without a type in them. -/
theorem namedType_gives {type : Parse (TypeExpr Span Symbol)} {path : Path Unit String}
    {arguments : List (TypeExpr Unit String)} {span : Unit}
    (htype : GivesTypes final type taken.length)
    (hspells : Spells ((TypeExpr.named path arguments span).slots id) taken)
    (hdot : kindAt 0 rest ≠ Punct.dot) (hbracket : kindAt 0 rest ≠ Punct.lbracket) :
    Gives final records taken rest (namedType type) fun result =>
      result.map noNote final.text = .named path arguments span := by
  have hbrackets : ∀ {front inner : List Token} {left right : Token},
      taken = front ++ left :: (inner ++ [right]) → Spells (path.slots id) front →
      left.kind = Punct.lbracket → Spells (commaSlots (arguments.map (TypeExpr.slots id))) inner →
      right.kind = Punct.rbracket →
      Gives final records taken rest (namedType type) fun result =>
        result.map noNote final.text = .named path arguments span := by
    rintro front inner left right rfl hfront hleft hinner hright
    have hlist : Gives final records inner ([right] ++ rest) (commaList Punct.rbracket type)
        fun result => result.map (TypeExpr.map noNote final.text) = arguments := by
      refine commaList_gives rfl (by simp) (fun type _ => type_begins type) ?_ hinner hright
      have hlength : inner.length < (front ++ left :: (inner ++ [right])).length := by
        simp only [List.length_cons, List.length_append]
        omega
      exact fun type _ => htype.element hlength ⟨by simp, by simp, by simp⟩ type
    unfold namedType
    refine .bind (path_gives hfront fun h => ?_) fun name hname => ?_
    · have hkind := hleft.symm.trans h.1
      simp at hkind
    · refine bind_nextIs_yes hleft (bind_advance (by rw [hleft]; rfl) (.bind hlist fun result hresult => ?_))
      refine bind_expect rfl hright (.pure ?_)
      rw [TypeExpr.map, hname, TypeExpr.mapList_eq_map, hresult]
  have hnone : arguments = [] → Spells (path.slots id) taken →
      Gives final records taken rest (namedType type) fun result =>
        result.map noNote final.text = .named path arguments span := by
    rintro rfl hpath
    unfold namedType
    rw [← List.append_nil taken]
    refine .bind (path_gives hpath fun h => hdot h.1) fun name hname => ?_
    refine bind_nextIs_no rfl hbracket (.pure ?_)
    rw [TypeExpr.map, hname]
    simp [TypeExpr.mapList]
  cases arguments with
  | nil =>
      obtain ⟨front, back, htaken, hfront, hback⟩ := Spells.append_iff.mp hspells
      rcases hback.of_spareBrackets with rfl | ⟨left, inner, right, rfl, hleft, hinner, hright⟩
      · exact hnone rfl (by rwa [htaken, List.append_nil])
      · exact hbrackets htaken hfront hleft hinner hright
  | cons first others =>
      rw [TypeExpr.slots, TypeExpr.slotsList_eq_map, List.append_assoc] at hspells
      obtain ⟨front, tokens, htaken, hfront, hspells⟩ := Spells.append_iff.mp hspells
      obtain ⟨left, tokens, rfl, hleft, hspells⟩ := Spells.token_iff.mp hspells
      obtain ⟨inner, back, rfl, hinner, hback⟩ := Spells.append_iff.mp hspells
      obtain ⟨right, rfl, hright⟩ := Spells.single_iff.mp hback
      exact hbrackets htaken hfront hleft hinner hright

/-- A type without a question mark behind it. -/
theorem typeAtom_gives {type : Parse (TypeExpr Span Symbol)} {target : TypeExpr Unit String}
    (hoptional : target.isOptional = false) (htype : GivesTypes final type taken.length)
    (hspells : Spells (target.slots id) taken) (hdot : kindAt 0 rest ≠ Punct.dot)
    (hbracket : kindAt 0 rest ≠ Punct.lbracket) :
    Gives final records taken rest (typeAtom type) fun result =>
      result.map noNote final.text = target := by
  refine bind_peek fun shown hshown => ?_
  match target with
  | .optional inner span => cases hoptional
  | .never span =>
      obtain ⟨mark, rfl, hmark⟩ := Spells.single_iff.mp hspells
      rw [show shown.kind = Punct.bang from hshown.trans hmark]
      exact bind_advance (by rw [hmark]; rfl) (.pure rfl)
  | .unit span =>
      obtain ⟨left, tokens, rfl, hleft, hspells⟩ := Spells.token_iff.mp hspells
      obtain ⟨right, rfl, hright⟩ := Spells.single_iff.mp hspells
      rw [show shown.kind = Punct.lparen from hshown.trans hleft]
      exact bind_advance (by rw [hleft]; rfl) (bind_expect rfl hright (.pure rfl))
  | .record ⟨fields, span⟩ =>
      have hspells : Spells (Record.slots id (TypeExpr.slots id) ⟨fields, span⟩) taken := by
        rwa [TypeExpr.slots, TypeExpr.slotsFields_eq_map] at hspells
      rw [show shown.kind = Punct.lbrace from hshown.trans (kindAt_of_spells hspells)]
      have hrecord : Gives final records taken rest (record TypeExpr.span type) fun result =>
          result.fields.map (Field.mapValue noNote final.text (TypeExpr.map noNote final.text)) =
            fields := by
        refine record_gives (fun field _ bound hbound => ?_) hspells
        exact htype.element hbound ⟨by simp, by simp, by simp⟩ field.value
      rw [← List.append_nil taken]
      refine .bind hrecord fun result hresult => .pure ?_
      rw [TypeExpr.map, TypeExpr.mapFields_eq_map, hresult]
  | .named path arguments span =>
      have hbegins : BeginsWith (fun kind => ∃ text raw, kind = .name text raw)
          ((TypeExpr.named path arguments span).slots id) := by
        cases arguments with
        | nil => exact (path_begins path).append _
        | cons first others => exact ((path_begins path).append _).append _
      obtain ⟨text, raw, hname⟩ := hbegins.kindAt hspells
      rw [hshown.trans hname]
      exact namedType_gives htype hspells hdot hbracket

/-- The type that question marks stand behind. -/
def TypeExpr.atom : TypeExpr Unit String → TypeExpr Unit String
  | .optional inner _ => atom inner
  | type => type

theorem TypeExpr.isOptional_atom (type : TypeExpr Unit String) :
    (TypeExpr.atom type).isOptional = false := by
  match type with
  | .optional inner _ => exact TypeExpr.isOptional_atom inner
  | .named _ _ _ => rfl
  | .never _ => rfl
  | .unit _ => rfl
  | .record _ => rfl

/-- A written type is its atom and question marks, and from the atom on the loop
reads just these. -/
theorem optionalRounds_give {target : TypeExpr Unit String} {taken behind : List Token}
    {last : TypeExpr Span Symbol → Prop} (hspells : Spells (target.slots id) taken)
    (hlast : ∀ type : TypeExpr Span Symbol, type.map noNote final.text = target →
      Loops final records behind rest optionalRound type last) :
    ∃ front back, taken = front ++ back ∧ Spells ((TypeExpr.atom target).slots id) front ∧
      (back = [] ∨ ∀ others, kindAt 0 (back ++ others) = Punct.question) ∧
      ∀ type : TypeExpr Span Symbol, type.map noNote final.text = TypeExpr.atom target →
        Loops final records (back ++ behind) rest optionalRound type last := by
  match target with
  | .optional inner span =>
      obtain ⟨tokens, marks, rfl, hinner, hmarks⟩ := Spells.append_iff.mp hspells
      obtain ⟨mark, rfl, hmark⟩ := Spells.single_iff.mp hmarks
      have hstep : ∀ type : TypeExpr Span Symbol, type.map noNote final.text = inner →
          Loops final records ([mark] ++ behind) rest optionalRound type last := by
        intro type htype
        refine Loops.step (by simp) (bind_nextIs_yes hmark (bind_advance (by rw [hmark]; rfl) ?_))
        have hloops : ∀ span, Loops final records behind rest optionalRound (.optional type span) last :=
          fun _ => hlast _ (by rw [TypeExpr.map, htype])
        cases type.isOptional with
        | true => exact bind_warn (.pure ⟨_, rfl, hloops _⟩)
        | false => exact .pure ⟨_, rfl, hloops _⟩
      obtain ⟨front, back, rfl, hfront, hback, hloops⟩ := optionalRounds_give hinner hstep
      refine ⟨front, back ++ [mark], List.append_assoc .., hfront, .inr fun others => ?_, ?_⟩
      · rcases hback with rfl | hback
        · exact hmark
        · rw [List.append_assoc]
          exact hback _
      · simpa [TypeExpr.atom] using hloops
  | .named path arguments span => exact ⟨taken, [], by simp, hspells, .inl rfl, hlast⟩
  | .never span => exact ⟨taken, [], by simp, hspells, .inl rfl, hlast⟩
  | .unit span => exact ⟨taken, [], by simp, hspells, .inl rfl, hlast⟩
  | .record fields => exact ⟨taken, [], by simp, hspells, .inl rfl, hlast⟩

/-- Levels enough for all the tokens are enough for the types in a type. -/
theorem typeWithin_gives (levels : Nat) : GivesTypes final (typeWithin levels) levels := by
  induction levels with
  | zero => exact fun _ _ _ _ _ hlength => absurd hlength (Nat.not_lt_zero _)
  | succ levels ih =>
      intro records target taken rest hspells hlength hrest
      have hdone : ∀ type : TypeExpr Span Symbol, type.map noNote final.text = target →
          Loops final records [] rest optionalRound type fun result =>
            result.map noNote final.text = target :=
        fun type htype => Loops.finish (bind_nextIs_no rfl hrest.2.2 (.pure ⟨type, rfl, htype⟩))
      obtain ⟨front, back, rfl, hfront, hback, hloops⟩ := optionalRounds_give hspells hdone
      rw [List.length_append] at hlength
      have hstops : kindAt 0 (back ++ rest) ≠ Punct.dot ∧ kindAt 0 (back ++ rest) ≠ Punct.lbracket := by
        rcases hback with rfl | hback
        · exact ⟨hrest.1, hrest.2.1⟩
        · rw [hback]
          exact ⟨by simp, by simp⟩
      have htypes : GivesTypes final (typeWithin levels) front.length :=
        fun records target taken rest hspells hshorter => ih records target taken rest hspells (by omega)
      refine .nested (.bind (typeAtom_gives (TypeExpr.isOptional_atom target) htypes hfront hstops.1
        hstops.2) fun atom hatom => ?_)
      simpa using (hloops atom hatom).repeated

theorem type_gives {target : TypeExpr Unit String} (hspells : Spells (target.slots id) taken)
    (hrest : StopsType (kindAt 0 rest)) :
    Gives final records taken rest type fun result => result.map noNote final.text = target :=
  .bounded fun _ hlevels => typeWithin_gives _ records target taken rest hspells hlevels hrest

theorem parameters_gives {targets : List (Parameter Unit String)}
    (hspells : Spells (Parameter.slotsList id targets) taken) :
    Gives final records taken rest parameters fun result =>
      result.map (Field.mapValue noNote final.text (TypeExpr.map noNote final.text)) = targets := by
  rw [Parameter.slotsList, TypeExpr.slotsFields_eq_map] at hspells
  obtain ⟨left, tokens, rfl, hleft, hspells⟩ := Spells.token_iff.mp hspells
  obtain ⟨inner, back, rfl, hinner, hback⟩ := Spells.append_iff.mp hspells
  obtain ⟨right, rfl, hright⟩ := Spells.single_iff.mp hback
  have hlist : Gives final records inner ([right] ++ rest)
      (commaList Punct.rparen (field TypeExpr.span type)) fun result =>
        result.map (Field.mapValue noNote final.text (TypeExpr.map noNote final.text)) = targets := by
    refine commaList_gives rfl (by simp) (fun _ _ => ?_) (fun field _ => field_gives ?_) hinner hright
    · exact ⟨_, _, rfl, by simp [Ident.kind], by simp [Ident.kind]⟩
    · intro part behind hpart _ hbehind
      refine type_gives hpart ?_
      rcases hbehind with h | h <;> rw [h] <;> exact ⟨by simp, by simp, by simp⟩
  exact bind_expect rfl hleft (.bind hlist fun result hresult =>
    bind_expect rfl hright (.pure hresult))

/-- The type behind a mark, if one is written there. -/
theorem typeAfter_gives {mark : Punct} {target : Option (TypeExpr Unit String)}
    (hspells : Spells (TypeExpr.slotsAfter id mark target) taken)
    (hrest : StopsType (kindAt 0 rest)) (hmark : kindAt 0 rest ≠ mark) :
    Gives final records taken rest
      (do if ← takes mark then return some (← type) else return none) fun result =>
        result.map (TypeExpr.map noNote final.text) = target := by
  cases target with
  | none =>
      obtain rfl := Spells.nil_iff.mp hspells
      exact bind_takes_no rfl hmark (.pure rfl)
  | some target =>
      obtain ⟨token, part, rfl, htoken, hpart⟩ := Spells.token_iff.mp hspells
      refine bind_takes_yes rfl htoken ?_
      rw [← List.append_nil part]
      refine .bind (type_gives hpart hrest) fun result hresult => .pure ?_
      rw [Option.map_some, hresult]

end Grammar

end FilterScript
