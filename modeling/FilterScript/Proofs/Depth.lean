import FilterScript.Proofs.Completeness.RoundTrip
import FilterScript.Proofs.Levels.Height

/-!
# The limit does not bound the depth of trees

However large a number is, some script with more nodes on one way through its
tree is accepted: a conditional with so many others behind `else`. What bounds
the nodes on a way are the steps without a level together with the limit.
-/

namespace FilterScript

/-- A conditional with this many others behind `else`, one behind the other. -/
def elseIfs : Nat → Expr Unit String
  | 0 => .conditional (.literal (.bool true) ()) ⟨[], none, ()⟩ none ()
  | count + 1 =>
      .conditional (.literal (.bool true) ()) ⟨[], none, ()⟩ (some (.conditional (elseIfs count))) ()

/-- A test with a conditional and this many others behind `else`. -/
def elseIfScript (count : Nat) : Script Unit String :=
  ⟨[.test ⟨"a", false, ()⟩ ⟨[], some (elseIfs count), ()⟩ ()], ()⟩

theorem fits_elseIfs (records : Bool) (count : Nat) :
    (elseIfs count).IsConditional ∧ (elseIfs count).Fits records := by
  induction count with
  | zero => exact ⟨trivial, by simp [elseIfs, Statement.FitsList]⟩
  | succ count ih => exact ⟨trivial, by simp [elseIfs, Statement.FitsList, ih]⟩

theorem goesOn_elseIfs (count : Nat) : (elseIfs count).GoesOn := by
  cases count <;> simp [elseIfs]

theorem levels_elseIfs (count : Nat) :
    (elseIfs count).levels = 1 ∧ (elseIfs count).beginsWithControl = true := by
  induction count with
  | zero => simp [elseIfs, Statement.levelsList]
  | succ count ih => simp [elseIfs, Statement.levelsList, ih.1]

theorem isFixed_elseIfs (count : Nat) :
    ∀ kind ∈ required ((elseIfs count).slots id), kind.isFixed = true := by
  induction count with
  | zero => simp [elseIfs, Literal.slots, Statement.slotsList, Kind.isFixed]
  | succ count ih =>
      simp only [elseIfs, Expr.slots, Alternative.slotsOption, required_append, required_token,
        List.forall_mem_append, List.forall_mem_cons]
      refine ⟨?_, rfl, ih⟩
      simp [Literal.slots, Statement.slotsList, Kind.isFixed]

theorem isWritable_elseIfScript (count : Nat) :
    ∀ kind ∈ (elseIfScript count).flatten id, kind.IsWritable := by
  have hfixed : ∀ {kind : Kind}, kind.isFixed = true → kind.IsWritable := by
    intro kind hkind
    cases kind <;> simp [Kind.isFixed, Kind.IsWritable] at hkind ⊢
  have hname : (Kind.name "a" false).IsWritable := by
    refine ⟨⟨'a', [], by decide, by decide, by simp⟩, fun _ word => ?_⟩
    cases word <;> decide
  have hslots : (elseIfScript count).flatten id =
      .keyword .test :: .name "a" false :: .punct .lbrace ::
        (required ((elseIfs count).slots id) ++ [.punct .rbrace]) := by
    simp [elseIfScript, Script.flatten, Script.slots, Item.slots, Ident.slots, Ident.kind,
      Statement.slotsList]
  rw [hslots]
  simp only [List.forall_mem_cons, List.forall_mem_append]
  exact ⟨trivial, hname, trivial, fun kind hkind => hfixed (isFixed_elseIfs count kind hkind), trivial,
    List.forall_mem_nil _⟩

theorem isCanonical_elseIfScript (count : Nat) : (elseIfScript count).IsCanonical where
  fits := by simp [elseIfScript, Item.Fits, Statement.FitsList, goesOn_elseIfs, fits_elseIfs]
  writable := isWritable_elseIfScript count
  nest_le := by
    simp [elseIfScript, Script.nest, Item.levels, levels_elseIfs, Statement.levelsList, nestingLimit]

/-- Every `else if` is a step without a level. -/
theorem le_links_of_elseIfs {f : Span → Unit} {g : Symbol → String} {count : Nat}
    {expr : Expr Span Symbol} (h : expr.map f g = elseIfs count) : count ≤ expr.outline.links := by
  induction count generalizing expr with
  | zero => exact Nat.zero_le _
  | succ count ih =>
      match expr with
      | .conditional condition consequence (some (.conditional next)) _ =>
          simp only [elseIfs, Expr.map, Alternative.mapOption, Expr.conditional.injEq, Option.some.injEq,
            Alternative.conditional.injEq] at h
          have hnext := ih h.2.2.1
          have hloose := next.isLoose_outline
          simp only [Expr.outline, Alternative.outlineOption, Outline.links, Outline.linksBelow,
            Nat.reduceAdd, hloose, if_true]
          omega
      | .conditional condition consequence none _ => simp [elseIfs] at h
      | .conditional condition consequence (some (.block body)) _ => simp [elseIfs] at h
      | .record ⟨fields, _⟩ | .typedRecord _ ⟨fields, _⟩ _ => simp [elseIfs] at h
      | .literal .. | .path _ | .access .. | .call .. | .unary .. | .binary .. | .question ..
      | .exit .. | .loop .. | .select .. | .paren .. => simp [elseIfs] at h

theorem le_links_of_elseIfScript {names : Names} {count : Nat} {script : Script Span Symbol}
    (h : script.map noNote names.text = elseIfScript count) : count ≤ script.outline.links := by
  obtain ⟨items, span⟩ := script
  simp only [Script.map, elseIfScript, Script.mk.injEq] at h
  obtain ⟨item, rfl, hitem⟩ := List.map_eq_singleton_iff.mp h.1
  cases item with
  | test name body span =>
      obtain ⟨statements, tail, _⟩ := body
      cases tail with
      | none => simp [Item.map] at hitem
      | some tail =>
          simp only [Item.map, Block.map, Expr.mapOption, Item.test.injEq, Block.mk.injEq,
            Option.some.injEq] at hitem
          have htail := le_links_of_elseIfs hitem.2.1.2.1
          have hblock := Outline.most_links_le_linksBelow (.block true : Tag Span Symbol) 0
            (Statement.outlineList statements ++ [tail.outline])
          rw [most_append] at hblock
          simp only [Script.outline, List.map_cons, List.map_nil, Item.outline, Block.outline,
            Expr.outlineOption, Option.isSome_some, Outline.links, Outline.linksBelow, most] at hblock ⊢
          omega
  | record name fields span =>
      obtain ⟨fields, inner⟩ := fields
      simp [Item.map] at hitem
  | _ => simp [Item.map] at hitem

/-- No number bounds the nodes on one way through the trees of all scripts that
are accepted. -/
theorem not_exists_height_le :
    ¬ ∃ bound, ∀ source parsed, parse source = .ok parsed → parsed.tree.outline.height ≤ bound := by
  rintro ⟨bound, hbound⟩
  obtain ⟨parsed, hrun, hshape⟩ := (isCanonical_elseIfScript bound).readBack
  have hlinks := le_links_of_elseIfScript hshape
  have hheight := hbound _ parsed hrun
  have hlt := Outline.links_lt_height parsed.tree.outline
  omega

/-- In every script that is accepted the nodes on one way are more than the steps
without a level, by no more than four for each level of the limit and five. -/
theorem parse_height {source : String} {parsed : Parsed (Script Span Symbol)}
    (h : parse source = .ok parsed) :
    parsed.tree.outline.links < parsed.tree.outline.height ∧
      parsed.tree.outline.height ≤ parsed.tree.outline.links + 4 * nestingLimit + 5 := by
  have hnest : parsed.tree.nest ≤ nestingLimit := nest_le_of_parseWithin h
  have hheight := parsed.tree.height_le
  constructor
  · exact Outline.links_lt_height _
  · omega

theorem parse_height_of_else_if :
    ∃ parsed, parse "test a \x7b if b \x7b \x7d else if c \x7b \x7d \x7d" = .ok parsed ∧
      parsed.tree.outline.links < parsed.tree.outline.height ∧
        parsed.tree.outline.height ≤ parsed.tree.outline.links + 4 * nestingLimit + 5 := by
  have haccepted :
      (parse "test a \x7b if b \x7b \x7d else if c \x7b \x7d \x7d").toBool = true := by
    decide +kernel
  cases hparsed : parse "test a \x7b if b \x7b \x7d else if c \x7b \x7d \x7d" with
  | ok parsed => exact ⟨parsed, rfl, parse_height hparsed⟩
  | error error => simp [hparsed, Except.toBool] at haccepted

end FilterScript
