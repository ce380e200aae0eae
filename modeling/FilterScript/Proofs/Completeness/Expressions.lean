import FilterScript.Proofs.Completeness.Operators
import FilterScript.Proofs.Spelling.Expressions

/-!
# Reading written expressions

Every form of expression is read back, given that the productions it goes back to
read back what is smaller. An operand is told apart from the others by its first
token, the body of an arm by its first three.
-/

namespace FilterScript

variable {σ ν : Type}

/-- The expression is told apart from all others by its first token. -/
def Expr.IsPrimary : Expr σ ν → Prop
  | .access .. | .call .. | .question .. | .unary .. | .binary .. | .exit .. => False
  | _ => True

theorem Expr.isPrimary_base {records : Bool} (expr : Expr σ ν) (h : expr.Fits records)
    (htakes : expr.TakesPostfix) : expr.base.IsPrimary := by
  match expr with
  | .access receiver _ _ => exact receiver.isPrimary_base h.2.2 h.1
  | .call callee _ _ => exact callee.isPrimary_base h.2.1 h.1
  | .question inner _ => exact inner.isPrimary_base h.2 h.1
  | .literal .. | .path _ | .record _ | .typedRecord .. | .conditional .. | .loop .. | .select ..
  | .paren .. => trivial

/-- What stands behind a block of a conditional is read back. -/
def Alternative.FitsOption (records : Bool) : Option (Alternative σ ν) → Prop
  | none => True
  | some (.block body) => body.Fits
  | some (.conditional next) => next.IsConditional ∧ next.Fits records

theorem Expr.fits_conditional {records : Bool} {condition : Expr σ ν} {consequence : Block σ ν}
    {alternative : Option (Alternative σ ν)} {span : σ}
    (h : (Expr.conditional condition consequence alternative span).Fits records) :
    condition.Fits false ∧ consequence.Fits ∧ Alternative.FitsOption records alternative := by
  match alternative with
  | none => exact ⟨h.1, h.2, trivial⟩
  | some (.block body) => exact h
  | some (.conditional next) => exact h

theorem Arm.mapList_eq_map {σ τ ν μ : Type} (f : σ → τ) (g : ν → μ) (arms : List (Arm σ ν)) :
    Arm.mapList f g arms = arms.map (Arm.map f g) := by
  induction arms with
  | nil => simp [mapList]
  | cons arm rest ih => rw [mapList, ih, List.map_cons]

namespace Grammar

open Parse Parse.Gives

variable {β : Type} {final : Names} {rules : Rules} {bound : Nat} {records : Bool}
  {taken rest : List Token}

/-! ## Conditionals and loops -/

theorem conditional_begins {target : Expr Unit String} (h : target.IsConditional) :
    BeginsWith (· = Kind.keyword .if_) (target.slots id) := by
  match target, h with
  | .conditional condition consequence alternative _, _ => exact ⟨_, _, rfl, rfl⟩

theorem alternative_gives (h : RulesGive final rules bound)
    {target : Option (Alternative Unit String)} (hfits : Alternative.FitsOption records target)
    (hspells : Spells (Alternative.slotsOption id target) taken) (hbound : taken.length ≤ bound)
    (hrest : kindAt 0 rest ≠ Keyword.else_) :
    Gives final records taken rest (alternative rules) fun result =>
      Alternative.mapOption noNote final.text result = target := by
  match target with
  | none =>
      obtain rfl := Spells.nil_iff.mp hspells
      exact bind_takes_no rfl hrest (.pure rfl)
  | some (.block body) =>
      obtain ⟨token, part, rfl, htoken, hpart⟩ := Spells.token_iff.mp hspells
      have hnext : kindAt 0 (part ++ rest) ≠ Keyword.if_ := by
        rw [(block_begins body).kindAt hpart]
        simp
      refine bind_takes_yes rfl htoken (bind_nextIs_no rfl hnext ?_)
      rw [← List.append_nil part]
      refine .bind (h.block hfits hpart hbound) fun result hresult => .pure ?_
      rw [Alternative.mapOption, hresult]
  | some (.conditional next) =>
      obtain ⟨token, part, rfl, htoken, hpart⟩ := Spells.token_iff.mp hspells
      obtain ⟨hnext, hfits⟩ := hfits
      refine bind_takes_yes rfl htoken (bind_nextIs_yes ((conditional_begins hnext).kindAt hpart) ?_)
      rw [← List.append_nil part]
      refine .bind (h.elseIf hnext hfits hpart hbound hrest) fun result hresult => .pure ?_
      rw [Alternative.mapOption, hresult]

theorem condition_gives (h : RulesGive final rules bound) {target : Expr Unit String}
    (hfits : target.Fits false) (hspells : Spells (target.slots id) taken)
    (hbound : taken.length < bound) (hrest : kindAt 0 rest = Punct.lbrace) :
    GivesExpr final records taken rest (withRecords false (rules.expr 0)) target :=
  .withRecords (h.whole hfits hspells hbound (hrest ▸ stopsExpr_lbrace 0 target))

theorem conditional_gives (h : RulesGive final rules bound) {target : Expr Unit String}
    (hconditional : target.IsConditional) (hfits : target.Fits records)
    (hspells : Spells (target.slots id) taken) (hbound : taken.length ≤ bound)
    (hrest : kindAt 0 rest ≠ Keyword.else_) :
    GivesExpr final records taken rest (conditional rules) target := by
  match target, hconditional with
  | .conditional condition consequence other span, _ =>
      obtain ⟨hcondition, hconsequence, hother⟩ := Expr.fits_conditional hfits
      obtain ⟨tokens, last, rfl, hspells, hlast⟩ := Spells.append_iff.mp hspells
      obtain ⟨tokens, body, rfl, hspells, hbody⟩ := Spells.append_iff.mp hspells
      obtain ⟨start, part, rfl, hstart, hpart⟩ := Spells.token_iff.mp hspells
      simp only [List.length_append, List.length_cons] at hbound
      rw [List.append_assoc, List.cons_append]
      have hbrace : kindAt 0 (body ++ last ++ rest) = Punct.lbrace := by
        rw [List.append_assoc]
        exact (block_begins consequence).kindAt hbody
      refine bind_expect rfl hstart (.bind (condition_gives h hcondition hpart (by omega) hbrace)
        fun condition hcondition => .bind (h.block hconsequence hbody (by omega))
          fun consequence hconsequence => ?_)
      rw [← List.append_nil last]
      refine .bind (alternative_gives h hother hlast (by omega) hrest) fun other hother => .pure ?_
      rw [Expr.map, hcondition, hconsequence, hother]

theorem whileLoop_gives (h : RulesGive final rules bound) {condition : Expr Unit String}
    {body : Block Unit String} {span : Unit} (hfits : (Expr.loop condition body span).Fits records)
    (hspells : Spells ((Expr.loop condition body span).slots id) taken)
    (hbound : taken.length ≤ bound) :
    GivesExpr final records taken rest (whileLoop rules) (.loop condition body span) := by
  obtain ⟨hcondition, hbody⟩ := hfits
  obtain ⟨tokens, last, rfl, hspells, hlast⟩ := Spells.append_iff.mp hspells
  obtain ⟨start, part, rfl, hstart, hpart⟩ := Spells.token_iff.mp hspells
  simp only [List.length_append, List.length_cons] at hbound
  rw [List.cons_append]
  refine bind_expect rfl hstart (.bind (condition_gives h hcondition hpart (by omega)
    ((block_begins body).kindAt hlast)) fun condition hcondition => ?_)
  rw [← List.append_nil last]
  refine .bind (h.block hbody hlast (by omega)) fun body hbody => .pure ?_
  rw [Expr.map, hcondition, hbody]

/-! ## Matches -/

theorem pattern_begins (target : Pattern Unit String) :
    BeginsWith (fun kind => ∃ text raw, kind = .name text raw) (target.slots id) :=
  (path_begins target.path).append _

/-- A pattern is read back where neither a dot nor a parenthesis stands behind
it. -/
theorem pattern_gives {target : Pattern Unit String} (hspells : Spells (target.slots id) taken)
    (hdot : kindAt 0 rest ≠ Punct.dot) (hparen : kindAt 0 rest ≠ Punct.lparen) :
    Gives final records taken rest pattern fun result =>
      result.map noNote final.text = target := by
  obtain ⟨text, raw, hname⟩ : ∃ text raw, kindAt 0 (taken ++ rest) = .name text raw :=
    (pattern_begins target).kindAt hspells
  obtain ⟨path, bindings, span⟩ := target
  obtain ⟨front, back, rfl, hpath, hback⟩ := Spells.append_iff.mp hspells
  refine bind_peek fun shown hshown => ?_
  rw [hshown, hname]
  cases bindings with
  | none =>
      obtain rfl := Spells.nil_iff.mp hback
      refine .bind (path_gives hpath fun h => hdot h.1) fun variant hvariant => ?_
      refine bind_nextIs_no rfl hparen (.pure ?_)
      rw [Pattern.map, hvariant]
      rfl
  | some names =>
      obtain ⟨left, tokens, rfl, hleft, hspells⟩ := Spells.token_iff.mp hback
      obtain ⟨inner, last, rfl, hinner, hlast⟩ := Spells.append_iff.mp hspells
      obtain ⟨right, rfl, hright⟩ := Spells.single_iff.mp hlast
      have hnames : Gives final records inner ([right] ++ rest) (commaList Punct.rparen ident)
          fun result => result.map (Ident.map noNote final.text) = names := by
        refine commaList_gives rfl (by simp) ?_ ?_ hinner hright
        · exact fun name _ => ⟨_, _, rfl, by simp [Ident.kind], by simp [Ident.kind]⟩
        · exact fun name _ part behind hpart _ _ => ident_gives hpart
      refine .bind (path_gives hpath fun h => ?_) fun variant hvariant => ?_
      · have hkind := hleft.symm.trans h.1
        simp at hkind
      · refine bind_nextIs_yes hleft (bind_advance (by rw [hleft]; rfl) (.bind hnames
          fun result hresult => bind_expect rfl hright (.pure ?_)))
        rw [Pattern.map, hvariant, Option.map_some, hresult]

/-- The condition behind a bar, if one is written there. -/
theorem guard_gives (h : RulesGive final rules bound) {target : Option (Expr Unit String)}
    (hfits : ∀ guard ∈ target, guard.Fits records) (hspells : Spells (guardSlots id target) taken)
    (hbound : taken.length < bound) (hrest : kindAt 0 rest = Punct.arrow) :
    Gives final records taken rest (guard rules) fun result =>
      Expr.mapOption noNote final.text result = target := by
  cases target with
  | none =>
      obtain rfl := Spells.nil_iff.mp hspells
      exact bind_takes_no rfl (by rw [List.nil_append, hrest]; simp) (.pure rfl)
  | some target =>
      obtain ⟨bar, part, rfl, hbar, hpart⟩ := Spells.token_iff.mp hspells
      rw [List.length_cons] at hbound
      have hstops : StopsExpr records 0 target (kindAt 0 rest) := by
        rw [hrest]
        exact Closes.stops ⟨rfl, rfl, by simp, by simp, by simp⟩ 0 target
      refine bind_takes_yes rfl hbar ?_
      rw [← List.append_nil part]
      refine .bind (h.whole (hfits target rfl) hpart (by omega) hstops) fun result hresult => .pure ?_
      rw [Expr.mapOption, hresult]

theorem bind_blockNext_yes {next : Bool → Parse β} {last : β → Prop}
    (hbrace : kindAt 0 (taken ++ rest) = Punct.lbrace)
    (hfield : (kindAt 1 (taken ++ rest)).isName = true → kindAt 2 (taken ++ rest) ≠ Punct.colon)
    (h : Gives final records taken rest (next true) last) :
    Gives final records taken rest (blockNext >>= next) last := by
  unfold blockNext
  rw [bind_assoc]
  refine bind_nextIs_yes hbrace ?_
  simp only [if_true, bind_assoc]
  refine bind_peekAt fun first hfirst => ?_
  cases hname : first.kind.isName with
  | true =>
      rw [hfirst] at hname
      simp only [if_true, bind_assoc]
      refine bind_peekAt fun second hsecond => ?_
      have hne : second.kind ≠ Punct.colon := hsecond ▸ hfield hname
      rw [bne, Kind.beq_variant_of_ne rfl hne, pure_bind]
      exact h
  | false => simpa using h

theorem bind_blockNext_no {next : Bool → Parse β} {last : β → Prop}
    (hfield : kindAt 0 (taken ++ rest) = Punct.lbrace →
      (kindAt 1 (taken ++ rest)).isName = true ∧ kindAt 2 (taken ++ rest) = Punct.colon)
    (h : Gives final records taken rest (next false) last) :
    Gives final records taken rest (blockNext >>= next) last := by
  unfold blockNext
  rw [bind_assoc]
  by_cases hbrace : kindAt 0 (taken ++ rest) = Punct.lbrace
  · obtain ⟨hname, hcolon⟩ := hfield hbrace
    refine bind_nextIs_yes hbrace ?_
    simp only [if_true, bind_assoc]
    refine bind_peekAt fun first hfirst => ?_
    rw [hfirst, hname]
    simp only [if_true, bind_assoc]
    refine bind_peekAt fun second hsecond => ?_
    rw [hsecond, hcolon, bne_self_eq_false, pure_bind]
    exact h
  · refine bind_nextIs_no rfl hbrace ?_
    simpa using h

/-- A block behind an arrow is seen to be one. -/
theorem NoFieldFirst.kindAt {slots : List Slot} (h : NoFieldFirst slots)
    (hspells : Spells (.token Punct.lbrace :: slots) taken) :
    (FilterScript.kindAt 1 (taken ++ rest)).isName = true →
      FilterScript.kindAt 2 (taken ++ rest) ≠ Punct.colon := by
  obtain ⟨left, tokens, rfl, _, hspells⟩ := Spells.token_iff.mp hspells
  obtain ⟨kind, more, rfl, hfield⟩ := h
  obtain ⟨first, tokens, rfl, hfirst, hspells⟩ := Spells.token_iff.mp hspells
  intro hname
  obtain ⟨next, others, rfl, hnext⟩ := hfield (hfirst ▸ hname)
  obtain ⟨second, tokens, rfl, hsecond, _⟩ := Spells.token_iff.mp hspells
  exact fun hcolon => hnext (hsecond.symm.trans hcolon)

/-- A record behind an arrow is seen to be one. -/
theorem NoBlockFirst.kindAt {slots : List Slot} (h : NoBlockFirst slots)
    (hspells : Spells slots taken) : FilterScript.kindAt 0 (taken ++ rest) = Punct.lbrace →
      (FilterScript.kindAt 1 (taken ++ rest)).isName = true ∧
        FilterScript.kindAt 2 (taken ++ rest) = Punct.colon := by
  intro hbrace
  rcases h with hbegins | ⟨text, raw, more, rfl⟩
  · exact absurd hbrace (hbegins.kindAt hspells)
  · obtain ⟨left, tokens, rfl, _, hspells⟩ := Spells.token_iff.mp hspells
    obtain ⟨first, tokens, rfl, hfirst, hspells⟩ := Spells.token_iff.mp hspells
    obtain ⟨second, tokens, rfl, hsecond, _⟩ := Spells.token_iff.mp hspells
    exact ⟨by simp [hfirst, Kind.isName], hsecond⟩

/-- The body of an arm and the comma behind it, in front of the next arm or of the
end. -/
theorem armBody_gives (h : RulesGive final rules bound) {target : ArmBody Unit String} {last : Bool}
    (hfits : target.Fits) (hspells : Spells (target.slots id ++ [target.separator last]) taken)
    (hbound : taken.length < bound) (hcomma : kindAt 0 rest ≠ Punct.comma)
    (hlast : last = true → kindAt 0 rest = Punct.rbrace) :
    Gives final true taken rest (armBody rules) fun result =>
      result.map noNote final.text = target := by
  obtain ⟨front, back, rfl, hfront, hback⟩ := Spells.append_iff.mp hspells
  rw [List.length_append] at hbound
  cases target with
  | block body =>
      obtain ⟨slots, hslots, hfield⟩ := block_noFieldFirst hfits
      have hbrace : Spells (.token Punct.lbrace :: slots) front := hslots ▸ hfront
      refine bind_blockNext_yes ?_ ?_ (.bind (h.block hfits hfront (by omega)) fun result hresult => ?_)
      · rw [List.append_assoc]
        exact kindAt_of_spells hbrace
      · rw [List.append_assoc]
        exact hfield.kindAt hbrace
      · have hshape : (ArmBody.block result).map noNote final.text = .block body := by
          rw [ArmBody.map, hresult]
        rcases Spells.spareComma_iff.mp hback with rfl | ⟨comma, rfl, hkind⟩
        · exact bind_takes_no rfl hcomma (.pure hshape)
        · exact bind_takes_yes rfl hkind (.pure hshape)
  | expr value =>
      obtain ⟨hrecord, hfits⟩ := hfits
      have hblock : NoBlockFirst (value.slots id) := expr_noBlockFirst value hfits hrecord
      have hvalue : Closes (kindAt 0 (back ++ rest)) →
          GivesExpr final true front (back ++ rest) (rules.expr 0) value :=
        fun hcloses => h.whole hfits hfront (by omega) (hcloses.stops 0 value)
      refine bind_blockNext_no ?_ ?_
      · rw [List.append_assoc]
        exact hblock.kindAt hfront
      · have hshape : ∀ result : Expr Span Symbol, result.map noNote final.text = value →
            (ArmBody.expr result).map noNote final.text = .expr value := by
          intro result hresult
          rw [ArmBody.map, hresult]
        have hend : back = [] ∧ last = true ∨
            ∃ comma : Token, back = [comma] ∧ comma.kind = Punct.comma := by
          cases last with
          | true => exact (Spells.spareComma_iff.mp hback).imp_left fun hnil => ⟨hnil, rfl⟩
          | false => exact .inr (Spells.single_iff.mp hback)
        rcases hend with ⟨rfl, rfl⟩ | ⟨comma, rfl, hkind⟩
        · have hrbrace := hlast rfl
          refine .bind (hvalue ?_) fun result hresult => ?_
          · rw [List.nil_append, hrbrace]
            exact ⟨rfl, rfl, by simp, by simp, by simp⟩
          · refine bind_takes_no rfl hcomma (bind_accepts_yes hrbrace (.pure (hshape result hresult)))
        · refine .bind (hvalue ?_) fun result hresult => ?_
          · rw [List.cons_append, kindAt_zero, hkind]
            exact ⟨rfl, rfl, by simp, by simp, by simp⟩
          · exact bind_takes_yes rfl hkind (.pure (hshape result hresult))

/-- An arm and the comma behind it. It is the last one if the match ends there. -/
theorem arm_gives (h : RulesGive final rules bound) {target : Arm Unit String} (hfits : target.Fits)
    (hspells : Spells (target.slots id ++ [target.body.separator target.last]) taken)
    (hbound : taken.length < bound) (hcomma : kindAt 0 rest ≠ Punct.comma)
    (hlast : kindAt 0 rest = Punct.rbrace ↔ target.last = true) :
    Gives final true taken rest (arm rules) fun result =>
      result.map noNote final.text = target := by
  obtain ⟨variant, condition, body, last, span⟩ := target
  have hslots : (Arm.mk variant condition body last span).slots id =
      variant.slots id ++ (guardSlots id condition ++ .token Punct.arrow :: body.slots id) := by
    cases condition <;> simp [guardSlots]
  have hfits : (∀ guard ∈ condition, guard.Fits true) ∧ body.Fits := by
    cases condition with
    | none => exact ⟨by simp, hfits⟩
    | some condition => exact ⟨by simpa using hfits.1, hfits.2⟩
  rw [hslots, List.append_assoc, List.append_assoc, List.cons_append] at hspells
  obtain ⟨front, tokens, rfl, hfront, hspells⟩ := Spells.append_iff.mp hspells
  obtain ⟨inner, tokens, rfl, hinner, hspells⟩ := Spells.append_iff.mp hspells
  obtain ⟨arrow, back, rfl, harrow, hback⟩ := Spells.token_iff.mp hspells
  simp only [List.length_append, List.length_cons] at hbound
  have hstop : kindAt 0 (inner ++ (arrow :: back ++ rest)) = Punct.arrow ∨
      kindAt 0 (inner ++ (arrow :: back ++ rest)) = Punct.bar := by
    cases condition with
    | none =>
        obtain rfl := Spells.nil_iff.mp hinner
        exact .inl harrow
    | some condition => exact .inr (kindAt_of_spells hinner)
  have hvariant : Gives final true front (inner ++ arrow :: back ++ rest) pattern fun result =>
      result.map noNote final.text = variant := by
    rw [List.append_assoc]
    refine pattern_gives hfront ?_ ?_ <;> rcases hstop with h | h <;> rw [h] <;> simp
  unfold arm
  refine .bind hvariant fun variant hvariant => .bind (guard_gives h hfits.1 hinner (by omega) harrow)
    fun condition hcondition => bind_expect rfl harrow ?_
  rw [← List.append_nil back]
  refine .bind (armBody_gives h hfits.2 hback (by omega) hcomma hlast.mpr) fun body hbody => ?_
  have hend : ((kindAt 0 ([] ++ rest)).variant == (Kind.punct .rbrace).variant) = last := by
    rw [List.nil_append]
    cases last with
    | true => rw [hlast.mpr rfl, beq_self_eq_true]
    | false => exact Kind.beq_variant_of_ne rfl fun h => Bool.false_ne_true (hlast.mp h)
  refine bind_nextIs (.pure ?_)
  rw [Arm.map, hvariant, hcondition, hbody, hend]

theorem arm_begins (target : Arm Unit String) :
    BeginsWith (fun kind => ∃ text raw, kind = .name text raw) (target.slots id) := by
  obtain ⟨variant, condition, body, last, span⟩ := target
  cases condition with
  | none => exact (pattern_begins variant).append _
  | some condition => exact ((pattern_begins variant).append _).append _

/-- The arms that are still to come. -/
theorem armRounds_give (h : RulesGive final rules bound) {targets : List (Arm Unit String)}
    {arms : List (Arm Span Symbol)} (hfits : Arm.FitsList targets)
    (hspells : Spells (Arm.slotsList id targets) taken) (hbound : taken.length < bound)
    (hrest : kindAt 0 rest = Punct.rbrace) :
    Loops final true taken rest (armRound rules) arms fun result =>
      Arm.mapList noNote final.text result = Arm.mapList noNote final.text arms ++ targets := by
  induction targets generalizing arms taken with
  | nil =>
      obtain rfl := Spells.nil_iff.mp hspells
      refine Loops.finish (bind_accepts_yes hrest (.pure ⟨arms, rfl, ?_⟩))
      exact (List.append_nil _).symm
  | cons target others ih =>
      obtain ⟨hlast, hfits, hothers⟩ := hfits
      rw [Arm.slotsList, List.append_cons, ← hlast] at hspells
      obtain ⟨front, back, rfl, hfront, hback⟩ := Spells.append_iff.mp hspells
      rw [List.length_append] at hbound
      -- Behind the comma stands the name that the next arm begins with, or the end.
      have hnext : kindAt 0 (back ++ rest) ≠ Punct.comma ∧
          (kindAt 0 (back ++ rest) = Punct.rbrace ↔ target.last = true) := by
        rw [hlast]
        cases others with
        | nil =>
            obtain rfl := Spells.nil_iff.mp hback
            exact ⟨by rw [List.nil_append, hrest]; simp, by simpa using hrest⟩
        | cons second others =>
            obtain ⟨text, raw, hname⟩ : ∃ text raw, kindAt 0 (back ++ rest) = .name text raw :=
              ((arm_begins second).append _).kindAt hback
            rw [hname]
            exact ⟨by simp, by simp⟩
      obtain ⟨text, raw, hname⟩ : ∃ text raw, kindAt 0 (front ++ (back ++ rest)) = .name text raw :=
        ((arm_begins target).append _).kindAt hfront
      have hfrontNe : front ≠ [] := ((arm_begins target).append _).ne_nil hfront
      refine Loops.step hfrontNe (bind_accepts_no rfl (by rw [hname]; simp) ?_)
      rw [← List.append_nil front]
      refine .bind (arm_gives h hfits hfront (by omega) hnext.1 hnext.2) fun result hresult =>
        .pure ⟨_, rfl, ?_⟩
      have hloops : Loops final true back rest (armRound rules) (arms ++ [result]) _ :=
        ih hothers hback (by omega)
      simpa [Arm.mapList_eq_map, hresult] using hloops

theorem select_gives (h : RulesGive final rules bound) {scrutinee : Expr Unit String}
    {arms : List (Arm Unit String)} {span : Unit}
    (hfits : (Expr.select scrutinee arms span).Fits records)
    (hspells : Spells ((Expr.select scrutinee arms span).slots id) taken)
    (hbound : taken.length ≤ bound) :
    GivesExpr final records taken rest (select rules) (.select scrutinee arms span) := by
  obtain ⟨hscrutinee, harms⟩ := hfits
  rw [Expr.slots, List.append_assoc] at hspells
  obtain ⟨tokens, others, rfl, hspells, hothers⟩ := Spells.append_iff.mp hspells
  obtain ⟨start, part, rfl, hstart, hpart⟩ := Spells.token_iff.mp hspells
  obtain ⟨left, others, rfl, hleft, hothers⟩ := Spells.token_iff.mp hothers
  obtain ⟨inner, last, rfl, hinner, hlast⟩ := Spells.append_iff.mp hothers
  obtain ⟨right, rfl, hright⟩ := Spells.single_iff.mp hlast
  simp only [List.length_append, List.length_cons] at hbound
  have hrounds : Loops final true inner ([right] ++ rest) (armRound rules) [] fun result =>
      Arm.mapList noNote final.text result = arms := by
    have hloops : Loops final true inner ([right] ++ rest) (armRound rules) [] _ :=
      armRounds_give h harms hinner (by omega) hright
    simpa [Arm.mapList] using hloops
  rw [List.cons_append]
  refine bind_expect rfl hstart (.bind (condition_gives h hscrutinee hpart (by omega) hleft)
    fun value hvalue => bind_expect rfl hleft (.bind hrounds.repeated.withRecords
      fun result hresult => bind_expect rfl hright ?_))
  have hshape : ∀ span, (Expr.select value result span).map noNote final.text =
      .select scrutinee arms () := by
    intro span
    rw [Expr.map, hvalue, hresult]
  cases hempty : result.isEmpty with
  | true => exact bind_warn (.pure (hshape _))
  | false => exact .pure (hshape _)

/-! ## Operands -/

theorem bind_recordNext_yes {next : Bool → Parse β} {last : β → Prop} (hrecords : records = true)
    (hbrace : kindAt 0 (taken ++ rest) = Punct.lbrace)
    (h : Gives final records taken rest (next true) last) :
    Gives final records taken rest (recordNext >>= next) last := by
  unfold recordNext
  rw [bind_assoc]
  refine bind_get fun state hstate => ?_
  rw [hstate, hrecords]
  exact bind_nextIs_yes hbrace (hrecords ▸ h)

theorem bind_recordNext_no {next : Bool → Parse β} {last : β → Prop}
    (hbrace : records = true → kindAt 0 (taken ++ rest) ≠ Punct.lbrace)
    (h : Gives final records taken rest (next false) last) :
    Gives final records taken rest (recordNext >>= next) last := by
  unfold recordNext
  rw [bind_assoc]
  refine bind_get fun state hstate => ?_
  rw [hstate]
  cases records with
  | true => exact bind_nextIs_no rfl (hbrace rfl) h
  | false => simpa using h

theorem fields_give (h : RulesGive final rules bound) {fields : List (Field Unit String (Expr Unit String))}
    (hfits : Expr.FitsFields fields)
    (hspells : Spells (.token Punct.lbrace :: commaSlots (Expr.slotsFields id fields) ++
      [.token Punct.rbrace]) taken) (hbound : taken.length ≤ bound) :
    Gives final records taken rest (record Expr.span (rules.expr 0)) fun result =>
      Expr.mapFields noNote final.text result.fields = fields := by
  simp only [Expr.mapFields_eq_map]
  rw [Expr.slotsFields_eq_map] at hspells
  have hrecord : Spells (Record.slots id (Expr.slots id) ⟨fields, ()⟩) taken := hspells
  refine record_gives (fun field hfield length hlength => ?_) hrecord
  exact h.element ⟨rfl, rfl, by simp, by simp, by simp⟩ (Expr.fitsFields_iff.mp hfits field hfield)
    (by omega)

theorem parenthesized_gives (h : RulesGive final rules bound) {inner : Expr Unit String}
    {span : Unit} (hfits : inner.Fits true)
    (hspells : Spells ((Expr.paren inner span).slots id) taken) (hbound : taken.length ≤ bound) :
    GivesExpr final records taken rest (parenthesized rules) (.paren inner span) := by
  obtain ⟨left, tokens, rfl, hleft, hspells⟩ := Spells.token_iff.mp hspells
  obtain ⟨part, last, rfl, hpart, hlast⟩ := Spells.append_iff.mp hspells
  obtain ⟨right, rfl, hright⟩ := Spells.single_iff.mp hlast
  simp only [List.length_append, List.length_cons] at hbound
  have hnext : kindAt 0 (part ++ [right] ++ rest) ≠ Punct.rparen := by
    have hbegins : BeginsExpr true inner.beginsWithControl (kindAt 0 (part ++ ([right] ++ rest))) :=
      (expr_begins inner hfits).kindAt hpart
    rw [List.append_assoc]
    intro hparen
    rw [hparen] at hbegins
    cases hbegins.1
  have hstops : StopsExpr true 0 inner (kindAt 0 ([right] ++ rest)) := by
    rw [List.singleton_append, kindAt_zero, hright]
    exact Closes.stops ⟨rfl, rfl, by simp, by simp, by simp⟩ 0 inner
  refine bind_expect rfl hleft (bind_nextIs_no rfl hnext ?_)
  refine .bind (h.whole hfits hpart (by omega) hstops).withRecords fun value hvalue =>
    bind_expect rfl hright (.pure ?_)
  rw [Expr.map, hvalue]

theorem pathExpr_gives_path {path : Path Unit String} (hspells : Spells (path.slots id) taken)
    (hdot : kindAt 0 rest ≠ Punct.dot) (hbrace : records = true → kindAt 0 rest ≠ Punct.lbrace) :
    GivesExpr final records taken rest (pathExpr rules) (.path path) := by
  unfold pathExpr
  rw [← List.append_nil taken]
  refine .bind (path_gives hspells fun h => hdot h.1) fun value hvalue => ?_
  refine bind_recordNext_no hbrace (.pure ?_)
  rw [Expr.map, hvalue]

theorem pathExpr_gives_record (h : RulesGive final rules bound) {path : Path Unit String}
    {fields : List (Field Unit String (Expr Unit String))} (hrecords : records = true)
    (hfits : Expr.FitsFields fields)
    (hspells : Spells (path.slots id ++ (.token Punct.lbrace ::
      commaSlots (Expr.slotsFields id fields) ++ [.token Punct.rbrace])) taken)
    (hbound : taken.length ≤ bound) :
    GivesExpr final records taken rest (pathExpr rules) (.typedRecord path ⟨fields, ()⟩ ()) := by
  obtain ⟨front, back, rfl, hfront, hback⟩ := Spells.append_iff.mp hspells
  rw [List.length_append] at hbound
  have hbrace : kindAt 0 (back ++ rest) = Punct.lbrace := kindAt_of_spells hback
  unfold pathExpr
  refine .bind (path_gives hfront fun h => ?_) fun value hvalue => ?_
  · have hkind := hbrace.symm.trans h.1
    simp at hkind
  · refine bind_recordNext_yes hrecords hbrace ?_
    rw [← List.append_nil back]
    refine .bind (fields_give h hfits hback (by omega)) fun result hresult => .pure ?_
    rw [Expr.map, hvalue, hresult]

/-- An expression that its first token tells apart from all others. -/
theorem primary_gives (h : RulesGive final rules bound) {target : Expr Unit String}
    (hprimary : target.IsPrimary) (hfits : target.Fits records)
    (hspells : Spells (target.slots id) taken) (hbound : taken.length ≤ bound)
    (hrest : StopsPrimary records target (kindAt 0 rest)) :
    GivesExpr final records taken rest (primary rules) target := by
  refine bind_peek fun shown hshown => ?_
  have hfirst : ∀ {kind : Kind} {slots : List Slot}, Spells (.token kind :: slots) taken →
      shown.kind = kind :=
    fun hspells => hshown.trans (kindAt_of_spells hspells)
  have hname : ∀ {slots : List Slot}, BeginsWith (fun kind => ∃ text raw, kind = .name text raw) slots →
      Spells slots taken → ∃ text raw, shown.kind = .name text raw :=
    fun hbegins hspells => by
      obtain ⟨text, raw, hname⟩ := hbegins.kindAt hspells
      exact ⟨text, raw, hshown.trans hname⟩
  match target with
  | .literal .unit span =>
      rw [hfirst hspells]
      obtain ⟨left, tokens, rfl, hleft, hspells⟩ := Spells.token_iff.mp hspells
      obtain ⟨right, rfl, hright⟩ := Spells.single_iff.mp hspells
      exact bind_expect rfl hleft (bind_nextIs_yes hright (bind_advance (by rw [hright]; rfl)
        (.pure rfl)))
  | .literal (.bool value) span =>
      cases value <;>
      · rw [hfirst hspells]
        obtain ⟨token, rfl, htoken⟩ := Spells.single_iff.mp hspells
        exact bind_advance (by rw [htoken]; rfl) (.pure rfl)
  | .literal (.integer digits) span | .literal (.ipv4 digits) span
  | .literal (.string content) span =>
      rw [hfirst hspells]
      obtain ⟨token, rfl, htoken⟩ := Spells.single_iff.mp hspells
      exact bind_advance (by rw [htoken]; rfl) (.pure rfl)
  | .path whole =>
      obtain ⟨text, raw, hname⟩ := hname (path_begins whole) hspells
      rw [hname]
      exact pathExpr_gives_path hspells (hrest.2.1 trivial) hrest.2.2
  | .typedRecord path ⟨fields, inner⟩ span =>
      rw [Expr.slots, List.append_assoc] at hspells
      obtain ⟨text, raw, hname⟩ := hname ((path_begins path).append _) hspells
      rw [hname]
      exact pathExpr_gives_record h hfits.1 hfits.2 hspells hbound
  | .record ⟨fields, span⟩ =>
      have hbrace : kindAt 0 (taken ++ rest) = Punct.lbrace := kindAt_of_spells hspells
      rw [hfirst hspells]
      refine bind_recordNext_yes hfits.1 hbrace ?_
      rw [← List.append_nil taken]
      refine .bind (fields_give h hfits.2 hspells hbound) fun result hresult => .pure ?_
      rw [Expr.map, hresult]
  | .conditional condition consequence alternative span =>
      rw [hfirst hspells]
      exact conditional_gives h trivial hfits hspells hbound hrest.1
  | .loop condition body span =>
      rw [hfirst hspells]
      exact whileLoop_gives h hfits hspells hbound
  | .select scrutinee arms span =>
      rw [hfirst hspells]
      exact select_gives h hfits hspells hbound
  | .paren inner span =>
      rw [hfirst hspells]
      exact parenthesized_gives h hfits hspells hbound

theorem bind_exprNext {next : Bool → Parse β} {last : β → Prop}
    (h : Gives final records taken rest
      (next ((kindAt 0 (taken ++ rest)).beginsExpression &&
        (records || (kindAt 0 (taken ++ rest)).variant != (Kind.punct .lbrace).variant))) last) :
    Gives final records taken rest (exprNext >>= next) last := by
  unfold exprNext
  rw [bind_assoc]
  refine bind_peek fun shown hshown => ?_
  rw [bind_assoc]
  refine bind_get fun state hstate => ?_
  rw [hshown, hstate, pure_bind]
  exact h

/-- An early exit with a value. -/
theorem earlyExit_gives_value (h : RulesGive final rules bound) {exit : ExitKind}
    {target : Expr Unit String} {token : Token} (hfits : target.Fits records)
    (htoken : token.kind = exit.keyword) (hspells : Spells (target.slots id) taken)
    (hbound : taken.length < bound) (hrest : StopsExpr records 0 target (kindAt 0 rest)) :
    GivesExpr final records (token :: taken) rest (earlyExit rules exit)
      (.exit exit (some target) ()) := by
  obtain ⟨hbegins, hbrace, _⟩ : BeginsExpr records target.beginsWithControl (kindAt 0 (taken ++ rest)) :=
    (expr_begins target hfits).kindAt hspells
  refine bind_advance (by rw [htoken]; rfl) (bind_exprNext ?_)
  have hallowed : (records ||
      (kindAt 0 (taken ++ rest)).variant != (Kind.punct .lbrace).variant) = true := by
    cases records with
    | true => rfl
    | false => rw [Bool.false_or, bne, Kind.beq_variant_of_ne rfl (hbrace rfl)]; rfl
  rw [hbegins, hallowed, ← List.append_nil taken]
  refine .bind (h.whole hfits hspells hbound hrest) fun value hvalue => .pure ?_
  rw [Expr.map, Expr.mapOption, hvalue]

/-- An early exit without a value, in front of what cannot be one. -/
theorem earlyExit_gives_none {exit : ExitKind} {token : Token} (htoken : token.kind = exit.keyword)
    (hrest : StopsLeft records (.exit exit none ()) (kindAt 0 rest)) :
    GivesExpr final records [token] rest (earlyExit rules exit) (.exit exit none ()) := by
  refine bind_advance (by rw [htoken]; rfl) (bind_exprNext ?_)
  have hnext : ((kindAt 0 ([] ++ rest)).beginsExpression && (records ||
      (kindAt 0 ([] ++ rest)).variant != (Kind.punct .lbrace).variant)) = false := by
    rw [List.nil_append]
    cases hbegins : (kindAt 0 rest).beginsExpression with
    | false => rfl
    | true =>
        rcases hrest.1.1 hbegins with hminus | ⟨hbrace, rfl⟩
        · exact absurd rfl (hrest.2 .sub hminus).2
        · rw [hbrace]
          rfl
  rw [hnext]
  exact .pure rfl

theorem precedence_le (op : BinaryOp) : op.precedence ≤ 4 := by
  cases op <;> decide

/-- An operand, in front of what it would not draw into itself. -/
theorem operand_gives (h : RulesGive final rules bound) {target : Expr Unit String}
    (hbinary : ¬ target.IsBinary) (hfits : target.Fits records)
    (hspells : Spells (target.slots id) taken) (hbound : taken.length ≤ bound)
    (hrest : StopsLeft records target (kindAt 0 rest)) :
    GivesExpr final records taken rest (operand rules) target := by
  have hpostfixes : target.TakesPostfix → GivesExpr final records taken rest (operand rules) target := by
    intro htakes
    obtain ⟨hunary, hexit⟩ : UnaryOp.ofKind? (kindAt 0 (taken ++ rest)) = none ∧
        ExitKind.ofKind? (kindAt 0 (taken ++ rest)) = none :=
      (postfix_begins target hfits htakes).kindAt hspells
    obtain ⟨front, back, rfl, hstops, hleads⟩ :=
      postfixes_lead h htakes hfits hspells hbound hrest.1
    rw [List.length_append] at hbound
    refine bind_peek fun shown hshown => ?_
    rw [hshown, hunary, hexit]
    exact .bind (primary_gives h (target.isPrimary_base hfits htakes) hleads.fits hleads.spells
      (by omega) hstops) fun value hvalue => hleads.gives hvalue
  match target with
  | .binary op left right span => exact absurd trivial hbinary
  | .unary op inner span =>
      obtain ⟨hholds, hfits⟩ := hfits
      obtain ⟨token, part, rfl, htoken, hpart⟩ := Spells.token_iff.mp hspells
      have hstops : StopsExpr records (op.precedence + 1) inner (kindAt 0 rest) := by
        refine ⟨hrest.1, fun other hother => ?_⟩
        have hends := (hrest.2 other hother).2
        cases op with
        | neg => exact ⟨Nat.lt_succ_of_le hends.1, hends.2⟩
        | not => exact ⟨Nat.lt_of_le_of_lt (precedence_le other) (by decide), hends⟩
      refine bind_peek fun shown hshown => ?_
      rw [hshown.trans htoken, UnaryOp.ofKind?_eq_some_iff.mpr rfl]
      refine bind_advance (by rw [htoken]; cases op <;> rfl) ?_
      rw [← List.append_nil part]
      refine .bind (h.expr hfits hholds hpart hbound hstops) fun value hvalue => .pure ?_
      rw [Expr.map, hvalue]
  | .exit exit none span =>
      obtain ⟨token, rfl, htoken⟩ := Spells.single_iff.mp hspells
      refine bind_peek fun shown hshown => ?_
      rw [hshown.trans htoken, ExitKind.ofKind?_eq_some_iff.mpr rfl]
      cases exit <;> exact earlyExit_gives_none htoken hrest
  | .exit exit (some value) span =>
      obtain ⟨token, part, rfl, htoken, hpart⟩ := Spells.token_iff.mp hspells
      have hstops : StopsExpr records 0 value (kindAt 0 rest) :=
        ⟨hrest.1, fun other hother => (hrest.2 other hother).2.elim⟩
      refine bind_peek fun shown hshown => ?_
      rw [hshown.trans htoken, ExitKind.ofKind?_eq_some_iff.mpr rfl]
      cases exit <;> exact earlyExit_gives_value h hfits htoken hpart hbound hstops
  | .literal .. | .path _ | .access .. | .call .. | .record _ | .typedRecord .. | .question ..
  | .conditional .. | .loop .. | .select .. | .paren .. => exact hpostfixes trivial

/-- An expression whose operators hold tightly enough, with something behind it
that does not. -/
theorem operation_gives (h : RulesGive final rules bound) {least : Nat} {target : Expr Unit String}
    (hfits : target.Fits records) (hleast : target.HoldsAtLeast least)
    (hspells : Spells (target.slots id) taken) (hbound : taken.length ≤ bound)
    (hrest : StopsExpr records least target (kindAt 0 rest)) :
    GivesExpr final records taken rest (operation rules least) target := by
  obtain ⟨front, back, rfl, hstops, hleads⟩ := operators_lead h hfits hleast hspells hbound hrest
  rw [List.length_append] at hbound
  exact .nested (.bind (operand_gives h target.not_isBinary_firstOperand hleads.fits hleads.spells
    (by omega) hstops) fun value hvalue => hleads.gives hvalue)

end Grammar

end FilterScript
