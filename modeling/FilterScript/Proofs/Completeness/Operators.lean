import FilterScript.Proofs.Completeness.Edges

/-!
# Reading written operators and postfixes

What follows a first operand is read by a loop, so that the expression as a whole
comes apart into its leftmost operand and the rounds behind it. Going down the
left side of the expression, each round is put in front of those that the
operands further right have already been shown to take.
-/

namespace FilterScript

/-! ## Shapes -/

section Shapes

variable {σ τ ν μ : Type} (f : σ → τ) (g : ν → μ)

theorem Expr.mapList_eq_map (exprs : List (Expr σ ν)) :
    Expr.mapList f g exprs = exprs.map (Expr.map f g) := by
  induction exprs with
  | nil => simp [mapList]
  | cons expr rest ih => rw [mapList, ih, List.map_cons]

theorem Expr.mapFields_eq_map (fields : List (Field σ ν (Expr σ ν))) :
    Expr.mapFields f g fields = fields.map (Field.mapValue f g (Expr.map f g)) := by
  induction fields with
  | nil => simp [mapFields]
  | cons field rest ih => rw [mapFields, ih, List.map_cons, Field.mapValue]

end Shapes

variable {σ ν : Type}

/-- What stands left of all binary operators. -/
def Expr.firstOperand : Expr σ ν → Expr σ ν
  | .binary _ left _ _ => left.firstOperand
  | expr => expr

/-- What accesses, calls and question marks stand behind. -/
def Expr.base : Expr σ ν → Expr σ ν
  | .access receiver _ _ => receiver.base
  | .call callee _ _ => callee.base
  | .question inner _ => inner.base
  | expr => expr

def Expr.IsBinary : Expr σ ν → Prop
  | .binary .. => True
  | _ => False

theorem Expr.not_isBinary_firstOperand (expr : Expr σ ν) : ¬ expr.firstOperand.IsBinary := by
  match expr with
  | .binary _ left _ _ => exact left.not_isBinary_firstOperand
  | .literal .. | .path _ | .access .. | .call .. | .record _ | .typedRecord .. | .unary ..
  | .question .. | .exit .. | .conditional .. | .loop .. | .select .. | .paren .. =>
    simp [firstOperand, IsBinary]

namespace Grammar

open Parse Parse.Gives

variable {final : Names} {rules : Rules} {bound : Nat} {records : Bool} {taken rest : List Token}

/-! ## What stops an expression -/

/-- With this token no operand goes on: it is no access, call or question mark,
no brace of a record and no `else`, and it begins no value of an early exit but
for a minus sign. -/
def StopsOperand (records : Bool) (kind : Kind) : Prop :=
  (kind.beginsExpression = true → kind = Punct.minus ∨ kind = Punct.lbrace ∧ records = false) ∧
    kind ≠ Punct.dot ∧ kind ≠ Punct.question ∧ kind ≠ Keyword.else_

/-- With this token the expression does not go on where operators are read that
hold at least as tightly as the number says. -/
def StopsExpr (records : Bool) (least : Nat) (target : Expr Unit String) (kind : Kind) : Prop :=
  StopsOperand records kind ∧
    ∀ op : BinaryOp, kind = op.punct → op.precedence < least ∧ target.EndsBefore op

/-- With this token the expression goes on as the left operand of an operator, if
at all. -/
def StopsLeft (records : Bool) (target : Expr Unit String) (kind : Kind) : Prop :=
  StopsOperand records kind ∧
    ∀ op : BinaryOp, kind = op.punct → target.HoldsAtLeast op.precedence ∧ target.EndsBefore op

/-- No expression goes on with this token or begins with it. -/
def Closes (kind : Kind) : Prop :=
  kind.beginsExpression = false ∧ BinaryOp.ofKind? kind = none ∧
    kind ≠ Punct.dot ∧ kind ≠ Punct.question ∧ kind ≠ Keyword.else_

theorem stopsOperand_punct (records : Bool) (op : BinaryOp) : StopsOperand records op.punct := by
  cases op <;> simp [StopsOperand, BinaryOp.punct, Kind.beginsExpression]

theorem StopsOperand.ne_lparen {kind : Kind} (h : StopsOperand records kind) :
    kind ≠ Punct.lparen := by
  rintro rfl
  have hbegins := h.1 rfl
  simp at hbegins

theorem Closes.stops {kind : Kind} (h : Closes kind) (least : Nat) (target : Expr Unit String) :
    StopsExpr records least target kind := by
  obtain ⟨hbegins, hnone, hothers⟩ := h
  refine ⟨⟨fun h => by simp [hbegins] at h, hothers⟩, ?_⟩
  intro op hop
  rw [BinaryOp.ofKind?_eq_some_iff.mpr hop] at hnone
  cases hnone

theorem stopsExpr_lbrace (least : Nat) (target : Expr Unit String) :
    StopsExpr false least target Punct.lbrace := by
  refine ⟨⟨fun _ => .inr ⟨rfl, rfl⟩, by simp, by simp, by simp⟩, ?_⟩
  intro op hop
  cases op <;> cases hop

theorem Expr.HoldsAtLeast.mono {target : Expr Unit String} {least lower : Nat}
    (h : target.HoldsAtLeast least) (hle : lower ≤ least) : target.HoldsAtLeast lower := by
  cases target with
  | binary op _ _ _ => exact Nat.le_trans hle h
  | _ => trivial

theorem StopsExpr.left {least : Nat} {target : Expr Unit String} {kind : Kind}
    (h : StopsExpr records least target kind) (hleast : target.HoldsAtLeast least) :
    StopsLeft records target kind :=
  ⟨h.1, fun op hop => ⟨Expr.HoldsAtLeast.mono hleast (Nat.le_of_lt (h.2 op hop).1), (h.2 op hop).2⟩⟩

/-! ## The productions that others go back to -/

/-- The production reads back this expression. -/
def GivesExpr (final : Names) (records : Bool) (taken rest : List Token)
    (production : Parse (Expr Span Symbol)) (target : Expr Unit String) : Prop :=
  Gives final records taken rest production fun result => result.map noNote final.text = target

/-- The three productions read back all that has fewer tokens than the number
says and fits where it stands. -/
structure RulesGive (final : Names) (rules : Rules) (bound : Nat) : Prop where
  expr : ∀ {records : Bool} {least : Nat} {target : Expr Unit String} {taken rest : List Token},
    target.Fits records → target.HoldsAtLeast least → Spells (target.slots id) taken →
    taken.length < bound → StopsExpr records least target (kindAt 0 rest) →
    GivesExpr final records taken rest (rules.expr least) target
  block : ∀ {records : Bool} {target : Block Unit String} {taken rest : List Token},
    target.Fits → Spells (target.slots id) taken → taken.length < bound →
    Gives final records taken rest rules.block fun result => result.map noNote final.text = target
  elseIf : ∀ {records : Bool} {target : Expr Unit String} {taken rest : List Token},
    target.IsConditional → target.Fits records → Spells (target.slots id) taken →
    taken.length < bound → kindAt 0 rest ≠ Keyword.else_ →
    GivesExpr final records taken rest rules.elseIf target

theorem holdsAtLeast_zero (target : Expr Unit String) : target.HoldsAtLeast 0 := by
  cases target <;> simp

/-- An expression of any operators. -/
theorem RulesGive.whole (h : RulesGive final rules bound) {target : Expr Unit String}
    (hfits : target.Fits records) (hspells : Spells (target.slots id) taken)
    (hbound : taken.length < bound) (hrest : StopsExpr records 0 target (kindAt 0 rest)) :
    GivesExpr final records taken rest (rules.expr 0) target :=
  h.expr hfits (holdsAtLeast_zero target) hspells hbound hrest

theorem RulesGive.element (h : RulesGive final rules bound) {close : Kind} (hclose : Closes close)
    {target : Expr Unit String} (hfits : target.Fits true) {length : Nat} (hlength : length < bound) :
    GivesElement final true close (Expr.slots id) (Expr.map noNote final.text) (rules.expr 0) length
      target := by
  intro taken rest hspells hbound hrest
  refine h.whole hfits hspells (by omega) ?_
  rcases hrest with hcomma | hrest
  · rw [hcomma]
    exact Closes.stops ⟨rfl, rfl, by simp, by simp, by simp⟩ 0 target
  · rw [hrest]
    exact hclose.stops 0 target

/-! ## First parts -/

/-- An expression is written as its first part and the tokens behind that, which
the loop takes from there on. At the start of a statement these go on with a
conditional, loop or match. -/
structure Leads (final : Names) (records : Bool) (behind rest : List Token)
    (round : Expr Span Symbol → Parse (Round (Expr Span Symbol) (Expr Span Symbol)))
    (last : Expr Span Symbol → Prop) (target first : Expr Unit String) (front back : List Token) :
    Prop where
  spells : Spells (first.slots id) front
  fits : first.Fits records
  goesOn : target.GoesOn → first.GoesOn
  control : target.GoesOn → first.isControl = true →
    back = [] ∧ target = first ∨ ∀ more, continuesExpr (kindAt 0 (back ++ more)) = true
  loops : ∀ value : Expr Span Symbol, value.map noNote final.text = first →
    Loops final records (back ++ behind) rest round value last

section Leads

variable {behind front back : List Token} {last : Expr Span Symbol → Prop}
  {round : Expr Span Symbol → Parse (Round (Expr Span Symbol) (Expr Span Symbol))}
  {target inner first : Expr Unit String}

/-- The first part is all there is. -/
theorem Leads.stay (hspells : Spells (target.slots id) taken) (hfits : target.Fits records)
    (hloops : ∀ value : Expr Span Symbol, value.map noNote final.text = target →
      Loops final records behind rest round value last) :
    Leads final records behind rest round last target target taken [] where
  spells := hspells
  fits := hfits
  goesOn := id
  control _ _ := .inl ⟨rfl, rfl⟩
  loops := hloops

/-- The first part of an expression is that of a larger one, which has more tokens
behind it. -/
theorem Leads.extend {others : List Token}
    (h : Leads final records (others ++ behind) rest round last inner first front back)
    (hgoes : target.GoesOn → inner.GoesOn)
    (hcontrol : target.GoesOn → inner.isControl = true →
      ∀ more, continuesExpr (kindAt 0 (others ++ more)) = true) :
    Leads final records behind rest round last target first front (back ++ others) where
  spells := h.spells
  fits := h.fits
  goesOn htarget := h.goesOn (hgoes htarget)
  control htarget hfirst := by
    right
    intro more
    rcases h.control (hgoes htarget) hfirst with ⟨rfl, rfl⟩ | hback
    · exact hcontrol htarget hfirst more
    · rw [List.append_assoc]
      exact hback (others ++ more)
  loops value hvalue := by
    rw [List.append_assoc]
    exact h.loops value hvalue

end Leads

/-! ## Operators -/

theorem continuesExpr_punct {op : BinaryOp} (h : op ≠ .sub) : continuesExpr op.punct = true := by
  cases op <;> first | rfl | exact absurd rfl h

/-- One operator and its right operand. -/
theorem operatorRound_gives (h : RulesGive final rules bound) {least : Nat} {op : BinaryOp}
    {left right : Expr Unit String} {value : Expr Span Symbol} {token : Token}
    (hleast : least ≤ op.precedence) (hright : right.Fits records)
    (hholds : right.HoldsAtLeast (op.precedence + 1)) (htoken : token.kind = op.punct)
    (hspells : Spells (right.slots id) taken) (hbound : taken.length < bound)
    (hrest : StopsExpr records (op.precedence + 1) right (kindAt 0 rest))
    (hvalue : value.map noNote final.text = left) :
    Gives final records (token :: taken) rest (operatorRound rules least value) fun result =>
      ∃ value, result = .more value ∧ value.map noNote final.text = .binary op left right () := by
  refine bind_peek fun shown hshown => ?_
  have hkind : shown.kind = op.punct := hshown.trans htoken
  rw [hkind, BinaryOp.ofKind?_eq_some_iff.mpr rfl]
  simp only [if_neg (Nat.not_lt.mpr hleast)]
  refine bind_advance (by rw [htoken]; rfl) ?_
  rw [← List.append_nil taken]
  refine .bind (h.expr hright hholds hspells hbound hrest) fun result hresult => .pure ⟨_, rfl, ?_⟩
  rw [Expr.map, hvalue, hresult]

/-- The leftmost operand, and from there on the operators and operands behind
it. -/
theorem operatorRounds_give (h : RulesGive final rules bound) {least : Nat}
    {target : Expr Unit String} {taken behind : List Token} {last : Expr Span Symbol → Prop}
    (hfits : target.Fits records) (hleast : target.HoldsAtLeast least)
    (hspells : Spells (target.slots id) taken) (hbound : taken.length ≤ bound)
    (hstops : StopsLeft records target (kindAt 0 (behind ++ rest)))
    (hlast : ∀ value : Expr Span Symbol, value.map noNote final.text = target →
      Loops final records behind rest (operatorRound rules least) value last) :
    ∃ front back, taken = front ++ back ∧
      StopsLeft records target.firstOperand (kindAt 0 (back ++ (behind ++ rest))) ∧
      Leads final records behind rest (operatorRound rules least) last target target.firstOperand
        front back := by
  match target with
  | .binary op left right span =>
      obtain ⟨hholds, hends, hleft, hrightHolds, hright⟩ := hfits
      obtain ⟨tokens, others, rfl, hspellsLeft, hspells⟩ := Spells.append_iff.mp hspells
      obtain ⟨token, part, rfl, htoken, hpart⟩ := Spells.token_iff.mp hspells
      rw [List.length_append, List.length_cons] at hbound
      have hrest : StopsExpr records (op.precedence + 1) right (kindAt 0 (behind ++ rest)) :=
        ⟨hstops.1, fun other hother => ⟨Nat.lt_succ_of_le (hstops.2 other hother).1,
          (hstops.2 other hother).2⟩⟩
      have hround : ∀ value : Expr Span Symbol, value.map noNote final.text = left →
          Loops final records (token :: part ++ behind) rest (operatorRound rules least) value
            last := by
        intro value hvalue
        refine Loops.step (by simp) ((operatorRound_gives h hleast hright hrightHolds htoken hpart
          (by omega) hrest hvalue).mono ?_)
        rintro _ ⟨value, rfl, hvalue⟩
        exact ⟨value, rfl, hlast value hvalue⟩
      have hnext : StopsLeft records left (kindAt 0 ((token :: part ++ behind) ++ rest)) := by
        rw [List.append_assoc, List.cons_append, kindAt_zero, htoken]
        refine ⟨stopsOperand_punct records op, fun other hother => ?_⟩
        obtain rfl : op = other := by cases op <;> cases other <;> first | rfl | cases hother
        exact ⟨hholds, hends⟩
      obtain ⟨front, back, rfl, hstopsFirst, hleads⟩ := operatorRounds_give h hleft
        (Expr.HoldsAtLeast.mono hholds hleast) hspellsLeft (by omega) hnext hround
      refine ⟨front, back ++ token :: part, List.append_assoc .., ?_, hleads.extend ?_ ?_⟩
      · simpa [Expr.firstOperand] using hstopsFirst
      · exact fun hgoes => hgoes.2
      · intro hgoes hcontrol more
        rw [List.cons_append, kindAt_zero, htoken]
        exact continuesExpr_punct (hgoes.1 hcontrol)
  | .literal .. | .path _ | .access .. | .call .. | .record _ | .typedRecord .. | .unary ..
  | .question .. | .exit .. | .conditional .. | .loop .. | .select .. | .paren .. =>
      exact ⟨taken, [], by simp, hstops, .stay hspells hfits hlast⟩

/-! ## Accesses, calls and question marks -/

/-- What may stand behind an expression that accesses, calls and question marks
stand behind. -/
def StopsPrimary (records : Bool) (target : Expr Unit String) (kind : Kind) : Prop :=
  kind ≠ Keyword.else_ ∧ (target.IsPath → kind ≠ Punct.dot) ∧ (records = true → kind ≠ Punct.lbrace)

theorem StopsOperand.primary {target : Expr Unit String} {kind : Kind}
    (h : StopsOperand records kind) : StopsPrimary records target kind := by
  obtain ⟨hbegins, hdot, _, helse⟩ := h
  refine ⟨helse, fun _ => hdot, ?_⟩
  rintro hrecords rfl
  rcases hbegins rfl with hminus | ⟨_, hfalse⟩
  · simp at hminus
  · rw [hrecords] at hfalse
    cases hfalse

theorem arguments_give (h : RulesGive final rules bound) {targets : List (Expr Unit String)}
    (hfits : Expr.FitsList targets) (hspells : Spells (commaSlots (Expr.slotsList id targets)) taken)
    (hbound : taken.length < bound) (hrest : kindAt 0 rest = Punct.rparen) :
    Gives final records taken rest (withRecords true (commaList Punct.rparen (rules.expr 0)))
      fun result => Expr.mapList noNote final.text result = targets := by
  rw [Expr.slotsList_eq_map] at hspells
  simp only [Expr.mapList_eq_map]
  have hmem := Expr.fitsList_iff.mp hfits
  refine .withRecords (commaList_gives rfl (by simp) ?_ ?_ hspells hrest)
  · intro target htarget
    obtain ⟨kind, more, hslots, hbegins, _⟩ := expr_begins target (hmem target htarget)
    refine ⟨kind, more, hslots, ?_, ?_⟩ <;> rintro rfl <;> cases hbegins
  · intro target htarget
    exact h.element ⟨rfl, rfl, by simp, by simp, by simp⟩ (hmem target htarget) hbound

section Rounds

variable {behind part : List Token} {last : Expr Span Symbol → Prop}
  {inner : Expr Unit String} {value : Expr Span Symbol} {span : Unit}

/-- What stands behind an access is read behind its receiver after one round more. -/
theorem accessRound_loops {field : Ident Unit String} {dot : Token} (hdot : dot.kind = Punct.dot)
    (hpart : Spells (field.slots id) part) (hvalue : value.map noNote final.text = inner)
    (hlast : ∀ value : Expr Span Symbol, value.map noNote final.text = .access inner field span →
      Loops final records behind rest (postfixRound rules) value last) :
    Loops final records (dot :: part ++ behind) rest (postfixRound rules) value last := by
  refine Loops.step (by simp) (bind_takes_yes rfl hdot ?_)
  rw [← List.append_nil part]
  refine .bind (ident_gives hpart) fun name hname => .pure ⟨_, rfl, hlast _ ?_⟩
  rw [Expr.map, hvalue, hname]

theorem callRound_loops (h : RulesGive final rules bound) {arguments : List (Expr Unit String)}
    {left right : Token} (hleft : left.kind = Punct.lparen) (hright : right.kind = Punct.rparen)
    (hfits : Expr.FitsList arguments)
    (hpart : Spells (commaSlots (Expr.slotsList id arguments)) part) (hbound : part.length < bound)
    (hvalue : value.map noNote final.text = inner)
    (hlast : ∀ value : Expr Span Symbol, value.map noNote final.text = .call inner arguments span →
      Loops final records behind rest (postfixRound rules) value last) :
    Loops final records (left :: (part ++ [right]) ++ behind) rest (postfixRound rules) value
      last := by
  refine Loops.step (by simp) (bind_takes_no rfl ?_ (bind_takes_yes rfl hleft ?_))
  · rw [List.cons_append, kindAt_zero, hleft]
    simp
  · refine .bind (arguments_give h hfits hpart hbound hright) fun result hresult =>
      bind_expect rfl hright (.pure ⟨_, rfl, hlast _ ?_⟩)
    rw [Expr.map, hvalue, hresult]

theorem questionRound_loops {mark : Token} (hmark : mark.kind = Punct.question)
    (hvalue : value.map noNote final.text = inner)
    (hlast : ∀ value : Expr Span Symbol, value.map noNote final.text = .question inner span →
      Loops final records behind rest (postfixRound rules) value last) :
    Loops final records ([mark] ++ behind) rest (postfixRound rules) value last := by
  have hother : ∀ other : Punct, other ≠ .question →
      kindAt 0 ([mark] ++ (behind ++ rest)) ≠ other := by
    intro other hother
    rw [List.cons_append, kindAt_zero, hmark]
    simpa using hother.symm
  refine Loops.step (by simp) (bind_takes_no rfl (hother _ (by simp)) (bind_takes_no rfl
    (hother _ (by simp)) (bind_nextIs_yes hmark (bind_advance (by rw [hmark]; rfl)
      (.pure ⟨_, rfl, hlast _ ?_⟩)))))
  rw [Expr.map, hvalue]

/-- What accesses, calls and question marks stand behind, and from there on all of
these. The induction is on the expression in front of the last one, whose round is
put in front of those behind. -/
theorem postfixRounds_give (h : RulesGive final rules bound) {target : Expr Unit String}
    {taken behind : List Token} {last : Expr Span Symbol → Prop}
    (htakes : target.TakesPostfix) (hfits : target.Fits records)
    (hspells : Spells (target.slots id) taken) (hbound : taken.length ≤ bound)
    (hstops : StopsPrimary records target (kindAt 0 (behind ++ rest)))
    (hlast : ∀ value : Expr Span Symbol, value.map noNote final.text = target →
      Loops final records behind rest (postfixRound rules) value last) :
    ∃ front back, taken = front ++ back ∧
      StopsPrimary records target.base (kindAt 0 (back ++ (behind ++ rest))) ∧
      Leads final records behind rest (postfixRound rules) last target target.base front back := by
  match target with
  | .access receiver field span =>
      obtain ⟨hreceiver, hpath, hfits⟩ := hfits
      obtain ⟨tokens, others, rfl, hspellsReceiver, hspells⟩ := Spells.append_iff.mp hspells
      obtain ⟨dot, part, rfl, hdot, hpart⟩ := Spells.token_iff.mp hspells
      rw [List.length_append, List.length_cons] at hbound
      have hnext : StopsPrimary records receiver (kindAt 0 ((dot :: part ++ behind) ++ rest)) := by
        rw [List.append_assoc, List.cons_append, kindAt_zero, hdot]
        exact ⟨by simp, fun h => absurd h hpath, by simp⟩
      obtain ⟨front, back, rfl, hstopsFirst, hleads⟩ := postfixRounds_give h hreceiver hfits
        hspellsReceiver (by omega) hnext fun _ hvalue => accessRound_loops hdot hpart hvalue hlast
      refine ⟨front, back ++ dot :: part, List.append_assoc .., ?_, hleads.extend ?_ ?_⟩
      · simpa [Expr.base] using hstopsFirst
      · exact fun hgoes => hgoes
      · intro _ _ more
        rw [List.cons_append, kindAt_zero, hdot]
        rfl
  | .call callee arguments span =>
      obtain ⟨hcallee, hfits, harguments⟩ := hfits
      rw [Expr.slots, List.append_assoc] at hspells
      obtain ⟨tokens, others, rfl, hspellsCallee, hspells⟩ := Spells.append_iff.mp hspells
      obtain ⟨left, others, rfl, hleft, hspells⟩ := Spells.token_iff.mp hspells
      obtain ⟨inner, others, rfl, hinner, hspells⟩ := Spells.append_iff.mp hspells
      obtain ⟨right, rfl, hright⟩ := Spells.single_iff.mp hspells
      simp only [List.length_append, List.length_cons] at hbound
      have hnext : StopsPrimary records callee
          (kindAt 0 ((left :: (inner ++ [right]) ++ behind) ++ rest)) := by
        rw [List.append_assoc, List.cons_append, kindAt_zero, hleft]
        exact ⟨by simp, by simp, by simp⟩
      have hinside : inner.length < bound := by omega
      obtain ⟨front, back, rfl, hstopsFirst, hleads⟩ := postfixRounds_give h hcallee hfits
        hspellsCallee (by omega) hnext fun _ hvalue =>
          callRound_loops h hleft hright harguments hinner hinside hvalue hlast
      refine ⟨front, back ++ left :: (inner ++ [right]), List.append_assoc .., ?_,
        hleads.extend ?_ ?_⟩
      · simpa [Expr.base] using hstopsFirst
      · exact fun hgoes => hgoes.2
      · intro hgoes hcontrol
        rw [hgoes.1] at hcontrol
        cases hcontrol
  | .question inner span =>
      obtain ⟨hinner, hfits⟩ := hfits
      obtain ⟨tokens, others, rfl, hspellsInner, hspells⟩ := Spells.append_iff.mp hspells
      obtain ⟨mark, rfl, hmark⟩ := Spells.single_iff.mp hspells
      rw [List.length_append, List.length_singleton] at hbound
      have hnext : StopsPrimary records inner (kindAt 0 (([mark] ++ behind) ++ rest)) := by
        rw [List.append_assoc, List.cons_append, kindAt_zero, hmark]
        exact ⟨by simp, by simp, by simp⟩
      obtain ⟨front, back, rfl, hstopsFirst, hleads⟩ := postfixRounds_give h hinner hfits
        hspellsInner (by omega) hnext fun _ hvalue => questionRound_loops hmark hvalue hlast
      refine ⟨front, back ++ [mark], List.append_assoc .., ?_, hleads.extend ?_ ?_⟩
      · simpa [Expr.base] using hstopsFirst
      · exact fun hgoes => hgoes
      · intro _ _ more
        rw [List.cons_append, kindAt_zero, hmark]
        rfl
  | .literal .. | .path _ | .record _ | .typedRecord .. | .unary .. | .binary .. | .exit ..
  | .conditional .. | .loop .. | .select .. | .paren .. =>
      exact ⟨taken, [], by simp, hstops, .stay hspells hfits hlast⟩

end Rounds

/-- Behind the last access, call or question mark the loop ends. -/
theorem postfixRounds_done {target : Expr Unit String} {value : Expr Span Symbol}
    (hvalue : value.map noNote final.text = target) (hdot : kindAt 0 rest ≠ Punct.dot)
    (hparen : kindAt 0 rest ≠ Punct.lparen) (hmark : kindAt 0 rest ≠ Punct.question) :
    Loops final records [] rest (postfixRound rules) value fun result =>
      result.map noNote final.text = target :=
  Loops.finish (bind_takes_no rfl hdot (bind_takes_no rfl hparen (bind_nextIs_no rfl hmark
    (.pure ⟨value, rfl, hvalue⟩))))

/-- Behind the last operand the loop ends. -/
theorem operatorRounds_done {least : Nat} {target : Expr Unit String} {value : Expr Span Symbol}
    (hvalue : value.map noNote final.text = target)
    (hrest : StopsExpr records least target (kindAt 0 rest)) :
    Loops final records [] rest (operatorRound rules least) value fun result =>
      result.map noNote final.text = target := by
  refine Loops.finish (bind_peek fun shown hshown => ?_)
  have hkind : shown.kind = kindAt 0 rest := hshown
  cases hop : BinaryOp.ofKind? shown.kind with
  | none => exact .pure ⟨value, rfl, hvalue⟩
  | some op =>
      have hleast := (hrest.2 op (hkind ▸ BinaryOp.ofKind?_eq_some_iff.mp hop)).1
      simp only [if_pos hleast]
      exact .pure ⟨value, rfl, hvalue⟩

/-! ## First parts of whole expressions -/

/-- An expression is written as its first part and the tokens behind that, and from
the first part on the loop gives the whole. -/
def LeadsTo (final : Names) (records : Bool) (rest : List Token)
    (round : Expr Span Symbol → Parse (Round (Expr Span Symbol) (Expr Span Symbol)))
    (target first : Expr Unit String) (front back : List Token) : Prop :=
  Leads final records [] rest round (fun result => result.map noNote final.text = target) target first
    front back

theorem LeadsTo.gives {target first : Expr Unit String} {front back : List Token}
    {round : Expr Span Symbol → Parse (Round (Expr Span Symbol) (Expr Span Symbol))}
    {value : Expr Span Symbol} (h : LeadsTo final records rest round target first front back)
    (hvalue : value.map noNote final.text = first) :
    GivesExpr final records back rest (repeated round value) target := by
  have hloops := h.loops value hvalue
  rw [List.append_nil] at hloops
  exact hloops.repeated

theorem operators_lead (h : RulesGive final rules bound) {least : Nat} {target : Expr Unit String}
    (hfits : target.Fits records) (hleast : target.HoldsAtLeast least)
    (hspells : Spells (target.slots id) taken) (hbound : taken.length ≤ bound)
    (hrest : StopsExpr records least target (kindAt 0 rest)) :
    ∃ front back, taken = front ++ back ∧
      StopsLeft records target.firstOperand (kindAt 0 (back ++ rest)) ∧
      LeadsTo final records rest (operatorRound rules least) target target.firstOperand front back := by
  have hleft : StopsLeft records target (kindAt 0 ([] ++ rest)) := hrest.left hleast
  exact operatorRounds_give h hfits hleast hspells hbound hleft
    fun value hvalue => operatorRounds_done hvalue hrest

theorem postfixes_lead (h : RulesGive final rules bound) {target : Expr Unit String}
    (htakes : target.TakesPostfix) (hfits : target.Fits records)
    (hspells : Spells (target.slots id) taken) (hbound : taken.length ≤ bound)
    (hrest : StopsOperand records (kindAt 0 rest)) :
    ∃ front back, taken = front ++ back ∧
      StopsPrimary records target.base (kindAt 0 (back ++ rest)) ∧
      LeadsTo final records rest (postfixRound rules) target target.base front back := by
  have hprimary : StopsPrimary records target (kindAt 0 ([] ++ rest)) := hrest.primary
  have hparen : kindAt 0 rest ≠ Punct.lparen := hrest.ne_lparen
  exact postfixRounds_give h htakes hfits hspells hbound hprimary
    fun value hvalue => postfixRounds_done hvalue hrest.2.1 hparen hrest.2.2.1

end Grammar

end FilterScript
