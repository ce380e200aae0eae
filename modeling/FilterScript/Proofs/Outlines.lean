import FilterScript.Tree.Outline

/-!
# Outlines leave nothing out

A tree can be told from its outline: no two trees of one type have the same. What
is shown of outlines is shown of the trees themselves, and whether two trees are the
same is decided on their outlines.
-/

namespace FilterScript

variable {σ ν : Type}

theorem Ident.outline_injective : Function.Injective (Ident.outline : Ident σ ν → _) := by
  rintro ⟨name, raw, span⟩ ⟨name', raw', span'⟩ h
  simp only [outline, Outline.node.injEq, Tag.ident.injEq, and_true] at h
  obtain ⟨⟨rfl, rfl⟩, rfl⟩ := h
  rfl

theorem Path.outline_injective : Function.Injective (Path.outline : Path σ ν → _) := by
  rintro ⟨first, rest, span⟩ ⟨first', rest', span'⟩ h
  simp only [outline, segments, Outline.node.injEq, true_and] at h
  obtain ⟨rfl, hsegments⟩ := h
  cases (List.map_inj_right fun _ _ => @Ident.outline_injective σ ν _ _).mp hsegments
  rfl

/-- Whether a pattern has parentheses is part of its tag. -/
theorem Pattern.outline_injective : Function.Injective (Pattern.outline : Pattern σ ν → _) := by
  rintro ⟨path, bindings, span⟩ ⟨path', bindings', span'⟩ h
  simp only [outline, Outline.node.injEq, Tag.pattern.injEq, List.cons.injEq] at h
  obtain ⟨hlength, rfl, hpath, hbindings⟩ := h
  obtain rfl := Path.outline_injective hpath
  have hnames := (List.map_inj_right fun _ _ => @Ident.outline_injective σ ν _ _).mp hbindings
  cases bindings <;> cases bindings' <;> simp_all

/-! ## Types and imports -/

mutual

theorem TypeExpr.eq_of_outline : (type other : TypeExpr σ ν) →
    type.outline = other.outline → type = other
  | .named path arguments span, other, h => by
      cases other <;> simp only [TypeExpr.outline, Outline.node.injEq, List.cons.injEq,
        reduceCtorEq, false_and, true_and] at h
      obtain ⟨rfl, hpath, harguments⟩ := h
      rw [Path.outline_injective hpath, TypeExpr.eq_of_outlineList _ _ harguments]
  | .optional inner span, other, h => by
      cases other <;> simp only [TypeExpr.outline, Outline.node.injEq, List.cons.injEq,
        reduceCtorEq, false_and, true_and, and_true] at h
      obtain ⟨rfl, hinner⟩ := h
      rw [TypeExpr.eq_of_outline _ _ hinner]
  | .never span, other, h => by
      cases other <;> simp_all [TypeExpr.outline]
  | .unit span, other, h => by
      cases other <;> simp_all [TypeExpr.outline]
  | .record ⟨fields, span⟩, other, h => by
      cases other <;> simp only [TypeExpr.outline, Outline.node.injEq, List.cons.injEq,
        reduceCtorEq, false_and, true_and, and_true] at h
      obtain ⟨rfl, -, hfields⟩ := h
      rw [TypeExpr.eq_of_outlineFields _ _ hfields]

theorem TypeExpr.eq_of_outlineList : (types others : List (TypeExpr σ ν)) →
    outlineList types = outlineList others → types = others
  | [], others, h => by
      cases others <;> simp_all [outlineList]
  | type :: rest, others, h => by
      cases others <;> simp only [outlineList, List.cons.injEq, reduceCtorEq] at h
      rw [TypeExpr.eq_of_outline _ _ h.1, TypeExpr.eq_of_outlineList _ _ h.2]

theorem TypeExpr.eq_of_outlineFields : (fields others : List (Field σ ν (TypeExpr σ ν))) →
    outlineFields fields = outlineFields others → fields = others
  | [], others, h => by
      cases others <;> simp_all [outlineFields]
  | ⟨name, type, span⟩ :: rest, others, h => by
      cases others <;> simp only [outlineFields, List.cons.injEq, Outline.node.injEq, reduceCtorEq,
        true_and, and_true] at h
      obtain ⟨⟨rfl, hname, htype⟩, hrest⟩ := h
      rw [Ident.outline_injective hname, TypeExpr.eq_of_outline _ _ htype,
        TypeExpr.eq_of_outlineFields _ _ hrest]

end

theorem TypeExpr.eq_of_outlineOption {type other : Option (TypeExpr σ ν)}
    (h : (type.map outline).toList = (other.map outline).toList) : type = other := by
  cases type <;> cases other <;> simp only [Option.map_none, Option.map_some, Option.toList_none,
    Option.toList_some, List.cons.injEq, reduceCtorEq, and_true] at h
  · rfl
  · rw [eq_of_outline _ _ h]

theorem Parameter.outline_injective :
    Function.Injective (Parameter.outline : Parameter σ ν → _) := by
  rintro ⟨name, type, span⟩ ⟨name', type', span'⟩ h
  simp only [outline, Outline.node.injEq, List.cons.injEq, true_and, and_true] at h
  obtain ⟨rfl, hname, htype⟩ := h
  rw [Ident.outline_injective hname, TypeExpr.eq_of_outline _ _ htype]

mutual

theorem ImportPath.eq_of_outline : (path other : ImportPath σ ν) →
    path.outline = other.outline → path = other
  | ⟨parts, span⟩, other, h => by
      obtain ⟨parts', span'⟩ := other
      simp only [ImportPath.outline, Outline.node.injEq, true_and] at h
      obtain ⟨rfl, hparts⟩ := h
      rw [ImportPart.eq_of_outlineList _ _ hparts]

theorem ImportPart.eq_of_outlineList : (parts others : List (ImportPart σ ν)) →
    ImportPart.outlineList parts = ImportPart.outlineList others → parts = others
  | [], others, h => by
      rcases others with _ | ⟨_ | _, _⟩ <;> simp_all [ImportPart.outlineList]
  | .name ident :: rest, others, h => by
      rcases others with _ | ⟨ident' | _, rest'⟩
      · simp only [ImportPart.outlineList, reduceCtorEq] at h
      · simp only [ImportPart.outlineList, List.cons.injEq] at h
        rw [Ident.outline_injective h.1, ImportPart.eq_of_outlineList _ _ h.2]
      · simp only [ImportPart.outlineList, Ident.outline, List.cons.injEq, Outline.node.injEq,
          reduceCtorEq, false_and] at h
  | .group members span :: rest, others, h => by
      rcases others with _ | ⟨_ | _, rest'⟩ <;> simp only [ImportPart.outlineList, Ident.outline,
        List.cons.injEq, Outline.node.injEq, reduceCtorEq, false_and, true_and] at h
      obtain ⟨⟨rfl, hmembers⟩, hrest⟩ := h
      rw [ImportPath.eq_of_outlineList _ _ hmembers, ImportPart.eq_of_outlineList _ _ hrest]

theorem ImportPath.eq_of_outlineList : (paths others : List (ImportPath σ ν)) →
    ImportPath.outlineList paths = ImportPath.outlineList others → paths = others
  | [], others, h => by
      cases others <;> simp_all [ImportPath.outlineList]
  | path :: rest, others, h => by
      cases others <;> simp only [ImportPath.outlineList, List.cons.injEq, reduceCtorEq] at h
      rw [ImportPath.eq_of_outline _ _ h.1, ImportPath.eq_of_outlineList _ _ h.2]

end

/-! ## Expressions and blocks -/

theorem Block.outline_ne (block : Block σ ν) (expr : Expr σ ν) : block.outline ≠ expr.outline := by
  cases block
  cases expr <;> simp [Block.outline, Expr.outline]

mutual

theorem Expr.eq_of_outline : (expr other : Expr σ ν) → expr.outline = other.outline → expr = other
  | .literal value span, other, h => by
      cases other <;> simp_all [Expr.outline]
  | .path whole, other, h => by
      cases other <;> simp only [Expr.outline, Outline.node.injEq, List.cons.injEq, reduceCtorEq,
        false_and, true_and, and_true] at h
      rw [Path.outline_injective h.2]
  | .access receiver field span, other, h => by
      cases other <;> simp only [Expr.outline, Outline.node.injEq, List.cons.injEq, reduceCtorEq,
        false_and, true_and, and_true] at h
      obtain ⟨rfl, hreceiver, hfield⟩ := h
      rw [Expr.eq_of_outline _ _ hreceiver, Ident.outline_injective hfield]
  | .call callee arguments span, other, h => by
      cases other <;> simp only [Expr.outline, Outline.node.injEq, List.cons.injEq, reduceCtorEq,
        false_and, true_and] at h
      obtain ⟨rfl, hcallee, harguments⟩ := h
      rw [Expr.eq_of_outline _ _ hcallee, Expr.eq_of_outlineList _ _ harguments]
  | .record ⟨fields, span⟩, other, h => by
      cases other <;> simp only [Expr.outline, Outline.node.injEq, List.cons.injEq, reduceCtorEq,
        false_and, true_and, and_true] at h
      obtain ⟨rfl, -, hfields⟩ := h
      rw [Expr.eq_of_outlineFields _ _ hfields]
  | .typedRecord path ⟨fields, inner⟩ span, other, h => by
      cases other <;> simp only [Expr.outline, Outline.node.injEq, List.cons.injEq, reduceCtorEq,
        false_and, true_and, and_true] at h
      obtain ⟨rfl, hpath, rfl, hfields⟩ := h
      rw [Path.outline_injective hpath, Expr.eq_of_outlineFields _ _ hfields]
  | .unary op operand span, other, h => by
      cases other <;> simp only [Expr.outline, Outline.node.injEq, List.cons.injEq, reduceCtorEq,
        Tag.unary.injEq, false_and, and_true] at h
      obtain ⟨rfl, rfl, hoperand⟩ := h
      rw [Expr.eq_of_outline _ _ hoperand]
  | .binary op left right span, other, h => by
      cases other <;> simp only [Expr.outline, Outline.node.injEq, List.cons.injEq, reduceCtorEq,
        Tag.binary.injEq, false_and, and_true] at h
      obtain ⟨rfl, rfl, hleft, hright⟩ := h
      rw [Expr.eq_of_outline _ _ hleft, Expr.eq_of_outline _ _ hright]
  | .question inner span, other, h => by
      cases other <;> simp only [Expr.outline, Outline.node.injEq, List.cons.injEq, reduceCtorEq,
        false_and, true_and, and_true] at h
      obtain ⟨rfl, hinner⟩ := h
      rw [Expr.eq_of_outline _ _ hinner]
  | .exit kind value span, other, h => by
      cases other <;> simp only [Expr.outline, Outline.node.injEq, Tag.exit.injEq, reduceCtorEq,
        false_and] at h
      obtain ⟨rfl, rfl, hvalue⟩ := h
      rw [Expr.eq_of_outlineOption _ _ hvalue]
  | .conditional condition consequence alternative span, other, h => by
      cases other <;> simp only [Expr.outline, Outline.node.injEq, List.cons.injEq, reduceCtorEq,
        false_and, true_and] at h
      obtain ⟨rfl, hcondition, hconsequence, halternative⟩ := h
      rw [Expr.eq_of_outline _ _ hcondition, Block.eq_of_outline _ _ hconsequence,
        Alternative.eq_of_outlineOption _ _ halternative]
  | .loop condition body span, other, h => by
      cases other <;> simp only [Expr.outline, Outline.node.injEq, List.cons.injEq, reduceCtorEq,
        false_and, true_and, and_true] at h
      obtain ⟨rfl, hcondition, hbody⟩ := h
      rw [Expr.eq_of_outline _ _ hcondition, Block.eq_of_outline _ _ hbody]
  | .select scrutinee arms span, other, h => by
      cases other <;> simp only [Expr.outline, Outline.node.injEq, List.cons.injEq, reduceCtorEq,
        false_and, true_and] at h
      obtain ⟨rfl, hscrutinee, harms⟩ := h
      rw [Expr.eq_of_outline _ _ hscrutinee, Arm.eq_of_outlineList _ _ harms]
  | .paren inner span, other, h => by
      cases other <;> simp only [Expr.outline, Outline.node.injEq, List.cons.injEq, reduceCtorEq,
        false_and, true_and, and_true] at h
      obtain ⟨rfl, hinner⟩ := h
      rw [Expr.eq_of_outline _ _ hinner]

theorem Expr.eq_of_outlineList : (exprs others : List (Expr σ ν)) →
    Expr.outlineList exprs = Expr.outlineList others → exprs = others
  | [], others, h => by
      cases others <;> simp_all [Expr.outlineList]
  | expr :: rest, others, h => by
      cases others <;> simp only [Expr.outlineList, List.cons.injEq, reduceCtorEq] at h
      rw [Expr.eq_of_outline _ _ h.1, Expr.eq_of_outlineList _ _ h.2]

theorem Expr.eq_of_outlineOption : (expr other : Option (Expr σ ν)) →
    Expr.outlineOption expr = Expr.outlineOption other → expr = other
  | none, other, h => by
      cases other <;> simp_all [Expr.outlineOption]
  | some expr, other, h => by
      cases other <;> simp only [Expr.outlineOption, List.cons.injEq, reduceCtorEq, and_true] at h
      rw [Expr.eq_of_outline _ _ h]

theorem Expr.eq_of_outlineFields : (fields others : List (Field σ ν (Expr σ ν))) →
    Expr.outlineFields fields = Expr.outlineFields others → fields = others
  | [], others, h => by
      cases others <;> simp_all [Expr.outlineFields]
  | ⟨name, value, span⟩ :: rest, others, h => by
      cases others <;> simp only [Expr.outlineFields, List.cons.injEq, Outline.node.injEq,
        reduceCtorEq, true_and, and_true] at h
      obtain ⟨⟨rfl, hname, hvalue⟩, hrest⟩ := h
      rw [Ident.outline_injective hname, Expr.eq_of_outline _ _ hvalue,
        Expr.eq_of_outlineFields _ _ hrest]

theorem Alternative.eq_of_outlineOption : (alternative other : Option (Alternative σ ν)) →
    Alternative.outlineOption alternative = Alternative.outlineOption other → alternative = other
  | none, other, h => by
      rcases other with _ | ⟨_ | _⟩ <;> simp_all [Alternative.outlineOption]
  | some (.block body), other, h => by
      rcases other with _ | ⟨other | next⟩
      · simp only [Alternative.outlineOption, reduceCtorEq] at h
      · simp only [Alternative.outlineOption, List.cons.injEq, and_true] at h
        rw [Block.eq_of_outline _ _ h]
      · simp only [Alternative.outlineOption, List.cons.injEq, and_true] at h
        exact (Block.outline_ne body next h).elim
  | some (.conditional next), other, h => by
      rcases other with _ | ⟨body | other⟩
      · simp only [Alternative.outlineOption, reduceCtorEq] at h
      · simp only [Alternative.outlineOption, List.cons.injEq, and_true] at h
        exact (Block.outline_ne body next h.symm).elim
      · simp only [Alternative.outlineOption, List.cons.injEq, and_true] at h
        rw [Expr.eq_of_outline _ _ h]

/-- Whether a block has a value is part of its tag. -/
theorem Block.eq_of_outline : (block other : Block σ ν) → block.outline = other.outline →
    block = other
  | ⟨statements, tail, span⟩, other, h => by
      obtain ⟨statements', tail', span'⟩ := other
      simp only [Block.outline, Outline.node.injEq, Tag.block.injEq] at h
      obtain ⟨hsome, rfl, hcontents⟩ := h
      have hlength : (Expr.outlineOption tail).length = (Expr.outlineOption tail').length := by
        cases tail <;> cases tail' <;> simp_all [Expr.outlineOption]
      obtain ⟨hstatements, htail⟩ := List.append_inj' hcontents hlength
      rw [Statement.eq_of_outlineList _ _ hstatements, Expr.eq_of_outlineOption _ _ htail]

theorem Statement.eq_of_outline : (statement other : Statement σ ν) →
    statement.outline = other.outline → statement = other
  | .import path span, other, h => by
      cases other <;> simp_all [Statement.outline]
  | .binding name type value span, other, h => by
      cases other <;> simp only [Statement.outline, Outline.node.injEq, reduceCtorEq, false_and,
        true_and, List.cons_append, List.cons.injEq] at h
      obtain ⟨rfl, hname, hrest⟩ := h
      obtain ⟨htype, hvalue⟩ := List.append_inj' hrest rfl
      rw [Ident.outline_injective hname, TypeExpr.eq_of_outlineOption htype,
        Expr.eq_of_outline _ _ (List.cons.inj hvalue).1]
  | .expr value span, other, h => by
      cases other <;> simp only [Statement.outline, Outline.node.injEq, List.cons.injEq,
        reduceCtorEq, false_and, true_and, and_true] at h
      rw [Expr.eq_of_outline _ _ h.2, h.1]
  | .control value, other, h => by
      cases other <;> simp only [Statement.outline, Outline.node.injEq, List.cons.injEq,
        reduceCtorEq, false_and, true_and, and_true] at h
      rw [Expr.eq_of_outline _ _ h.2]

theorem Statement.eq_of_outlineList : (statements others : List (Statement σ ν)) →
    Statement.outlineList statements = Statement.outlineList others → statements = others
  | [], others, h => by
      cases others <;> simp_all [Statement.outlineList]
  | statement :: rest, others, h => by
      cases others <;> simp only [Statement.outlineList, List.cons.injEq, reduceCtorEq] at h
      rw [Statement.eq_of_outline _ _ h.1, Statement.eq_of_outlineList _ _ h.2]

/-- Whether an arm has a guard is part of its tag. -/
theorem Arm.eq_of_outline : (arm other : Arm σ ν) → arm.outline = other.outline → arm = other
  | ⟨pattern, guard, body, last, span⟩, other, h => by
      obtain ⟨pattern', guard', body', last', span'⟩ := other
      simp only [Arm.outline, Outline.node.injEq, Tag.arm.injEq, List.cons_append,
        List.cons.injEq] at h
      obtain ⟨⟨-, rfl⟩, rfl, hpattern, hrest⟩ := h
      obtain ⟨hguard, hbody⟩ := List.append_inj' hrest rfl
      rw [Pattern.outline_injective hpattern, Expr.eq_of_outlineOption _ _ hguard,
        ArmBody.eq_of_outline _ _ (List.cons.inj hbody).1]

theorem Arm.eq_of_outlineList : (arms others : List (Arm σ ν)) →
    Arm.outlineList arms = Arm.outlineList others → arms = others
  | [], others, h => by
      cases others <;> simp_all [Arm.outlineList]
  | arm :: rest, others, h => by
      cases others <;> simp only [Arm.outlineList, List.cons.injEq, reduceCtorEq] at h
      rw [Arm.eq_of_outline _ _ h.1, Arm.eq_of_outlineList _ _ h.2]

theorem ArmBody.eq_of_outline : (body other : ArmBody σ ν) → body.outline = other.outline →
    body = other
  | .block body, other, h => by
      rcases other with other | value
      · rw [Block.eq_of_outline _ _ h]
      · exact (Block.outline_ne body value h).elim
  | .expr value, other, h => by
      rcases other with body | other
      · exact (Block.outline_ne body value h.symm).elim
      · rw [Expr.eq_of_outline _ _ h]

end

/-! ## Items and scripts -/

theorem Parameter.eq_of_outlineList {parameters others : List (Parameter σ ν)}
    (h : parameters.map Parameter.outline = others.map Parameter.outline) : parameters = others :=
  (List.map_inj_right fun _ _ => @Parameter.outline_injective σ ν _ _).mp h

theorem Parameter.outline_ne (parameter : Parameter σ ν) (type : TypeExpr σ ν) :
    parameter.outline ≠ type.outline := by
  cases type <;> simp [Parameter.outline, TypeExpr.outline]

/-- Whether a function returns something can be told behind its parameters: a type
is no parameter. -/
theorem Item.eq_of_outlineList {parameters others : List (Parameter σ ν)}
    {returns other : Option (TypeExpr σ ν)}
    (h : parameters.map Parameter.outline ++ (returns.map TypeExpr.outline).toList =
      others.map Parameter.outline ++ (other.map TypeExpr.outline).toList) :
    parameters = others ∧ returns = other := by
  have hmissing {parameters others : List (Parameter σ ν)} {type : TypeExpr σ ν}
      (h : parameters.map Parameter.outline = others.map Parameter.outline ++ [type.outline]) :
      False := by
    have hmem : type.outline ∈ parameters.map Parameter.outline := by simp [h]
    obtain ⟨parameter, -, hparameter⟩ := List.mem_map.mp hmem
    exact parameter.outline_ne type hparameter
  cases returns with
  | none =>
      cases other with
      | none => exact ⟨Parameter.eq_of_outlineList (by simpa using h), rfl⟩
      | some type => exact (hmissing (by simpa using h)).elim
  | some type =>
      cases other with
      | none => exact (hmissing (by simpa using h.symm)).elim
      | some type' =>
          obtain ⟨hparameters, htype⟩ := List.append_inj' h rfl
          exact ⟨Parameter.eq_of_outlineList hparameters, TypeExpr.eq_of_outlineOption htype⟩

theorem Item.outline_injective : Function.Injective (Item.outline : Item σ ν → _) := by
  intro item other h
  cases item <;> cases other <;> simp only [outline, Outline.node.injEq, reduceCtorEq, false_and,
    true_and, List.cons_append, List.cons.injEq, Tag.filter.injEq, and_true] at h
  case filter.filter =>
    obtain ⟨rfl, rfl, hname, hrest⟩ := h
    obtain ⟨hparameters, hbody⟩ := List.append_inj' hrest rfl
    rw [Ident.outline_injective hname, Parameter.eq_of_outlineList hparameters,
      Block.eq_of_outline _ _ (List.cons.inj hbody).1]
  case function.function =>
    obtain ⟨rfl, hname, hrest⟩ := h
    obtain ⟨hsignature, hbody⟩ := List.append_inj' hrest rfl
    obtain ⟨rfl, rfl⟩ := eq_of_outlineList hsignature
    rw [Ident.outline_injective hname, Block.eq_of_outline _ _ (List.cons.inj hbody).1]
  case record.record name fields span name' fields' span' =>
    obtain ⟨rfl, hname, hinner, hfields⟩ := h
    obtain rfl : fields = fields' := by
      cases fields
      cases fields'
      rw [Record.mk.injEq]
      exact ⟨TypeExpr.eq_of_outlineFields _ _ hfields, hinner⟩
    rw [Ident.outline_injective hname]
  case test.test =>
    obtain ⟨rfl, hname, hbody⟩ := h
    rw [Ident.outline_injective hname, Block.eq_of_outline _ _ hbody]
  case import.import =>
    obtain ⟨hpath, rfl, -⟩ := h
    rw [Tag.importItem.inj hpath]

theorem Script.outline_injective : Function.Injective (Script.outline : Script σ ν → _) := by
  rintro ⟨items, span⟩ ⟨items', span'⟩ h
  simp only [outline, Outline.node.injEq, true_and] at h
  obtain ⟨rfl, hitems⟩ := h
  rw [(List.map_inj_right fun _ _ => @Item.outline_injective σ ν _ _).mp hitems]

/-! ## Whether two trees are the same

Import paths are compared first: the tags of their statements and items hold them. -/

section

variable [DecidableEq σ] [DecidableEq ν]

mutual

def ImportPath.decEq : (path other : ImportPath σ ν) → Decidable (path = other)
  | ⟨parts, span⟩, ⟨parts', span'⟩ =>
      have := ImportPart.decEqList parts parts'
      decidable_of_iff (parts = parts' ∧ span = span') (by simp)

def ImportPart.decEqList : (parts others : List (ImportPart σ ν)) → Decidable (parts = others)
  | [], [] => isTrue rfl
  | [], _ :: _ | _ :: _, [] => isFalse (by simp)
  | .name ident :: parts, .name ident' :: parts' =>
      have := ImportPart.decEqList parts parts'
      decidable_of_iff (ident = ident' ∧ parts = parts') (by simp)
  | .group members span :: parts, .group members' span' :: parts' =>
      have := ImportPath.decEqList members members'
      have := ImportPart.decEqList parts parts'
      decidable_of_iff ((members = members' ∧ span = span') ∧ parts = parts') (by simp)
  | .name _ :: _, .group _ _ :: _ | .group _ _ :: _, .name _ :: _ => isFalse (by simp)

def ImportPath.decEqList : (paths others : List (ImportPath σ ν)) → Decidable (paths = others)
  | [], [] => isTrue rfl
  | [], _ :: _ | _ :: _, [] => isFalse (by simp)
  | path :: paths, path' :: paths' =>
      have := ImportPath.decEq path path'
      have := ImportPath.decEqList paths paths'
      decidable_of_iff (path = path' ∧ paths = paths') (by simp)

end

instance : DecidableEq (ImportPath σ ν) :=
  ImportPath.decEq

deriving instance DecidableEq for Tag

mutual

def Outline.decEq : (outline other : Outline σ ν) → Decidable (outline = other)
  | .node tag note children, .node tag' note' children' =>
      have := Outline.decEqList children children'
      decidable_of_iff (tag = tag' ∧ note = note' ∧ children = children') (by simp)

def Outline.decEqList : (outlines others : List (Outline σ ν)) → Decidable (outlines = others)
  | [], [] => isTrue rfl
  | [], _ :: _ | _ :: _, [] => isFalse (by simp)
  | outline :: outlines, outline' :: outlines' =>
      have := Outline.decEq outline outline'
      have := Outline.decEqList outlines outlines'
      decidable_of_iff (outline = outline' ∧ outlines = outlines') (by simp)

end

instance : DecidableEq (Outline σ ν) :=
  Outline.decEq

instance : DecidableEq (Expr σ ν) := fun expr other =>
  decidable_of_iff (expr.outline = other.outline)
    ⟨Expr.eq_of_outline expr other, fun h => h ▸ rfl⟩

instance : DecidableEq (Script σ ν) := fun script other =>
  decidable_of_iff (script.outline = other.outline) Script.outline_injective.eq_iff

end

end FilterScript
