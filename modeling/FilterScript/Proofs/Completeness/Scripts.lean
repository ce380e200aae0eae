import FilterScript.Proofs.Completeness.Blocks
import FilterScript.Proofs.Spelling.Scripts

/-!
# Reading written scripts

A source whose tokens are one way to write a script is accepted, and what it is
read as has the shape of that script.
-/

namespace FilterScript

namespace Grammar

open Parse Parse.Gives

variable {final : Names} {records : Bool} {taken rest : List Token}

theorem filterItem_gives {kind : FilterKind} {name : Ident Unit String}
    {targets : List (Parameter Unit String)} {body : Block Unit String} {span : Unit}
    (hfits : body.Fits) (hspells : Spells ((Item.filter kind name targets body span).slots id) taken) :
    Gives final records taken rest (filterItem kind) fun result =>
      result.map noNote final.text = .filter kind name targets body span := by
  obtain ⟨tokens, back, rfl, hspells, hback⟩ := Spells.append_iff.mp hspells
  obtain ⟨tokens, middle, rfl, hspells, hmiddle⟩ := Spells.append_iff.mp hspells
  obtain ⟨start, front, rfl, hstart, hfront⟩ := Spells.token_iff.mp hspells
  rw [List.append_assoc, List.cons_append]
  refine bind_advance (by rw [hstart]; rfl) (.bind (ident_gives hfront) fun name hname => ?_)
  refine .bind (parameters_gives hmiddle) fun list hlist => ?_
  rw [← List.append_nil back]
  refine .bind (block_gives hfits hback) fun body hbody => .pure ?_
  rw [Item.map, hname, TypeExpr.mapFields_eq_map, hlist, hbody]

theorem functionItem_gives {name : Ident Unit String} {targets : List (Parameter Unit String)}
    {returns : Option (TypeExpr Unit String)} {body : Block Unit String} {span : Unit}
    (hfits : body.Fits)
    (hspells : Spells ((Item.function name targets returns body span).slots id) taken) :
    Gives final records taken rest functionItem fun result =>
      result.map noNote final.text = .function name targets returns body span := by
  obtain ⟨tokens, back, rfl, hspells, hback⟩ := Spells.append_iff.mp hspells
  obtain ⟨tokens, last, rfl, hspells, hlast⟩ := Spells.append_iff.mp hspells
  obtain ⟨tokens, middle, rfl, hspells, hmiddle⟩ := Spells.append_iff.mp hspells
  obtain ⟨start, front, rfl, hstart, hfront⟩ := Spells.token_iff.mp hspells
  have hbrace : kindAt 0 (back ++ rest) = Punct.lbrace := (block_begins body).kindAt hback
  have hreturns : Gives final records last (back ++ rest) returnType fun result =>
      result.map (TypeExpr.map noNote final.text) = returns := by
    refine typeAfter_gives hlast ?_ ?_
    · rw [hbrace]
      exact ⟨by simp, by simp, by simp⟩
    · rw [hbrace]
      simp
  rw [List.append_assoc, List.append_assoc, List.cons_append]
  refine bind_expect rfl hstart (.bind (ident_gives hfront) fun name hname => ?_)
  refine .bind (parameters_gives hmiddle) fun list hlist => ?_
  refine .bind hreturns fun result hresult => ?_
  rw [← List.append_nil back]
  refine .bind (block_gives hfits hback) fun body hbody => .pure ?_
  rw [Item.map, hname, TypeExpr.mapFields_eq_map, hlist, hresult, hbody]

theorem recordItem_gives {name : Ident Unit String}
    {fields : List (Field Unit String (TypeExpr Unit String))} {inner span : Unit}
    (hspells : Spells ((Item.record name ⟨fields, inner⟩ span).slots id) taken) :
    Gives final records taken rest recordItem fun result =>
      result.map noNote final.text = .record name ⟨fields, inner⟩ span := by
  rw [Item.slots, TypeExpr.slotsFields_eq_map, List.append_assoc] at hspells
  obtain ⟨tokens, back, rfl, hspells, hback⟩ := Spells.append_iff.mp hspells
  obtain ⟨start, front, rfl, hstart, hfront⟩ := Spells.token_iff.mp hspells
  have hback : Spells (Record.slots id (TypeExpr.slots id) ⟨fields, inner⟩) back := hback
  have hrecord : Gives final records back rest (record TypeExpr.span type) fun result =>
      result.fields.map (Field.mapValue noNote final.text (TypeExpr.map noNote final.text)) =
        fields := by
    refine record_gives (fun field _ length _ part behind hpart _ hbehind => ?_) hback
    refine type_gives hpart ?_
    rcases hbehind with h | h <;> rw [h] <;> exact ⟨by simp, by simp, by simp⟩
  rw [List.cons_append]
  refine bind_expect rfl hstart (.bind (ident_gives hfront) fun name hname => ?_)
  rw [← List.append_nil back]
  refine .bind hrecord fun result hresult => .pure ?_
  rw [Item.map, hname, TypeExpr.mapFields_eq_map, hresult]

theorem testItem_gives {name : Ident Unit String} {body : Block Unit String} {span : Unit}
    (hfits : body.Fits) (hspells : Spells ((Item.test name body span).slots id) taken) :
    Gives final records taken rest testItem fun result =>
      result.map noNote final.text = .test name body span := by
  obtain ⟨tokens, back, rfl, hspells, hback⟩ := Spells.append_iff.mp hspells
  obtain ⟨start, front, rfl, hstart, hfront⟩ := Spells.token_iff.mp hspells
  rw [List.cons_append]
  refine bind_expect rfl hstart (.bind (ident_gives hfront) fun name hname => ?_)
  rw [← List.append_nil back]
  refine .bind (block_gives hfits hback) fun body hbody => .pure ?_
  rw [Item.map, hname, hbody]

theorem importItem_gives {path : ImportPath Unit String} {span : Unit} (hfits : path.Fits)
    (hspells : Spells ((Item.import path span).slots id) taken) :
    Gives final records taken rest importItem fun result =>
      result.map noNote final.text = .import path span := by
  unfold importItem
  rw [← List.append_nil taken]
  refine .bind (importDeclaration_gives hfits hspells) fun result hresult => .pure ?_
  rw [Item.map, hresult]

theorem item_begins (target : Item Unit String) :
    BeginsWith (fun kind => ∃ word, kind = .keyword word) (target.slots id) := by
  match target with
  | .filter kind name targets body _ => exact ⟨_, _, rfl, _, rfl⟩
  | .function name targets returns body _ => exact ⟨_, _, rfl, _, rfl⟩
  | .record name ⟨fields, _⟩ _ => exact ⟨_, _, rfl, _, rfl⟩
  | .test name body _ => exact ⟨_, _, rfl, _, rfl⟩
  | .import path _ => exact ⟨_, _, rfl, _, rfl⟩

theorem item_gives {target : Item Unit String} (hfits : target.Fits)
    (hspells : Spells (target.slots id) taken) :
    Gives final records taken rest item fun result => result.map noNote final.text = target := by
  refine bind_peek fun shown hshown => ?_
  have hfirst : ∀ {kind : Kind} {slots : List Slot}, Spells (.token kind :: slots) taken →
      shown.kind = kind :=
    fun hspells => hshown.trans (kindAt_of_spells hspells)
  match target with
  | .filter kind name targets body span =>
      rw [hfirst hspells]
      cases kind <;> exact filterItem_gives hfits hspells
  | .function name targets returns body span =>
      rw [hfirst hspells]
      exact functionItem_gives hfits hspells
  | .record name ⟨fields, inner⟩ span =>
      rw [hfirst hspells]
      exact recordItem_gives hspells
  | .test name body span =>
      rw [hfirst hspells]
      exact testItem_gives hfits hspells
  | .import path span =>
      rw [hfirst hspells]
      exact importItem_gives hfits hspells

/-- The items that are still to come, up to the end of the source. -/
theorem itemRounds_give {targets : List (Item Unit String)} {items : List (Item Span Symbol)}
    (hfits : ∀ target ∈ targets, target.Fits)
    (hspells : Spells (targets.flatMap (Item.slots id)) taken) :
    Loops final records taken [] itemRound items fun result =>
      result.map (Item.map noNote final.text) = items.map (Item.map noNote final.text) ++ targets := by
  induction targets generalizing items taken with
  | nil =>
      obtain rfl := Spells.nil_iff.mp hspells
      exact Loops.finish (bind_nextIs_yes rfl (.pure ⟨items, rfl, (List.append_nil _).symm⟩))
  | cons target others ih =>
      rw [List.flatMap_cons] at hspells
      obtain ⟨front, back, rfl, hfront, hback⟩ := Spells.append_iff.mp hspells
      obtain ⟨word, hword⟩ : ∃ word, kindAt 0 (front ++ (back ++ [])) = .keyword word :=
        (item_begins target).kindAt hfront
      refine Loops.step ((item_begins target).ne_nil hfront) (bind_nextIs ?_)
      rw [hword, ← List.append_nil front]
      refine .bind (item_gives (hfits target List.mem_cons_self) hfront) fun result hresult =>
        .pure ⟨_, rfl, ?_⟩
      have hloops : Loops final records back [] itemRound (items ++ [result]) _ :=
        ih (fun target hmem => hfits target (List.mem_cons_of_mem _ hmem)) hback
      simpa [hresult] using hloops

theorem script_gives {target : Script Unit String} (hfits : ∀ item ∈ target.items, item.Fits)
    (hspells : Spells (target.slots id) taken) :
    Gives final records taken [] script fun result => result.map noNote final.text = target := by
  refine bind_peek fun first _ => ?_
  rw [← List.append_nil taken]
  refine .bind (itemRounds_give hfits hspells).repeated fun items hitems => ?_
  refine bind_peek fun stop _ => .pure ?_
  rw [Script.map, hitems]
  rfl

/-- An expression that ends with its source. -/
theorem loneExpr_gives {target : Expr Unit String} (hfits : target.Fits records)
    (hspells : Spells (target.slots id) taken) :
    Gives final records taken [] loneExpr fun result => result.map noNote final.text = target := by
  have hstops : StopsExpr records 0 target (kindAt 0 []) :=
    Closes.stops ⟨rfl, rfl, by simp, by simp, by simp⟩ 0 target
  have hexpr : GivesExpr final records taken [] expr target :=
    .bounded fun levels hlevels => (rulesWithin_give levels).whole hfits hspells hlevels hstops
  rw [← List.append_nil taken]
  exact .bind hexpr fun value hvalue => bind_accepts_yes rfl (.pure hvalue)

end Grammar

/-- A source on the tokens of which a production succeeds, as long as no limit is
set. -/
theorem runOn_gives {α : Type} {production : Parse α} {source : String} {tokens : List Token}
    (post : Names → α → Prop) (hscans : (Stream.ofSource source).scans = tokens.map .ok)
    (hreads : ∀ final input, Parse.Reads final true input production fun _ _ _ => True)
    (hgives : ∀ final, Parse.Gives final true tokens [] production (post final)) :
    ∃ parsed, runOn production none source = .ok parsed ∧ post parsed.names parsed.tree := by
  let scans := (Stream.ofSource source).scans
  let final := Names.empty.enter scans
  have hready : (State.ofSource none source).Ready final true (tokens ++ []) :=
    ⟨by rw [List.append_nil]; exact hscans, rfl, rfl, by rw [List.append_nil, ← hscans]; exact .refl _⟩
  obtain ⟨tree, after, hrun, hafter, htree⟩ := hgives final _ hready
  -- The run that gives the tree leaves the names of all tokens in its table.
  obtain ⟨taken, hinput, _, hnames, _⟩ :=
    hreads final scans (State.ofSource none source) tree after rfl rfl (.refl final) hrun
  have hfinal : after.names = final := by
    rw [hafter.scans, List.map_nil, List.append_nil] at hinput
    rw [hnames, ← hinput]
    rfl
  refine ⟨⟨tree, after.names, after.warnings⟩, ?_, ?_⟩
  · unfold runOn
    rw [hrun]
  · dsimp only
    rw [hfinal]
    exact htree

/-- A source whose tokens are one way to write a script is read as this script,
as long as no limit is set. -/
theorem parseWithin_gives {source : String} {tokens : List Token} {target : Script Unit String}
    (hscans : (Stream.ofSource source).scans = tokens.map .ok)
    (hfits : ∀ item ∈ target.items, item.Fits) (hspells : Spells (target.slots id) tokens) :
    ∃ parsed, parseWithin none source = .ok parsed ∧
      parsed.tree.map noNote parsed.names.text = target :=
  runOn_gives (fun names (tree : Script Span Symbol) => tree.map noNote names.text = target)
    hscans (fun _ _ => Grammar.script_reads.mono fun _ _ _ _ _ => trivial)
    fun _ => Grammar.script_gives hfits hspells

/-- A source whose tokens are one way to write an expression is read as this
expression, as long as no limit is set. -/
theorem runOn_loneExpr_gives {source : String} {tokens : List Token} {target : Expr Unit String}
    (hscans : (Stream.ofSource source).scans = tokens.map .ok) (hfits : target.Fits true)
    (hspells : Spells (target.slots id) tokens) :
    ∃ parsed, runOn Grammar.loneExpr none source = .ok parsed ∧
      parsed.tree.map noNote parsed.names.text = target :=
  runOn_gives (fun names (tree : Expr Span Symbol) => tree.map noNote names.text = target)
    hscans (fun _ _ => Grammar.loneExpr_reads.mono fun _ _ _ _ _ => trivial)
    fun _ => Grammar.loneExpr_gives hfits hspells

end FilterScript
