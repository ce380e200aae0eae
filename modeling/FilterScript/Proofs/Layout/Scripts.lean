import FilterScript.Proofs.Layout.Expressions
import FilterScript.Proofs.Operators.Powers
import FilterScript.Proofs.Statements.Boundaries

/-!
# Every tree is well formed

The types of the tree allow matches with several last arms, `else` followed by any
expression, import paths without parts and paths with the span of something else.
Parsing builds none of these: in every accepted source all nodes are as the grammar
has them, and every list holds what stands in the source, in the same order.
-/

namespace FilterScript

namespace Grammar

open Parse Outline

variable {final : Names} {records : Bool} {input : List Scan}

theorem filterItem_arranges {kind : FilterKind} (hnext : Next kind.keyword input) :
    Reads final records input (filterItem kind) fun item taken _ =>
      Every (Arranged final) [item.outline] taken := by
  refine .bind_advance hnext rfl fun start rest _ _ => ?_
  refine .bind (ident_covered.laid ident_arranges) fun name first rest _ hname => ?_
  refine .bind parameters_arranges ?_
  rintro parameters second rest _ ⟨hlisted, hparameters⟩
  refine .bind (block_covered.laid block_arranges) fun body third rest _ hbody => ?_
  refine .pure (.node ⟨?_, name.outline, parameters.map Parameter.outline, [body.outline], rfl,
    ?_, ?_, ?_⟩ ?_)
  · simpa using (Span.Joins.single start).hull (first ++ second) hbody.covers.joins
  · exact List.forall_mem_map.mpr fun _ _ => rfl
  · cases body
    simp [Block.outline]
  · simpa using hlisted.between (hname.covers.coverIn.skip [start]) hbody.covers.coverIn
  · simpa using (hname.every.append (hparameters.append hbody.every)).skip [start]

theorem functionItem_arranges : Arranges final Item.outline functionItem := by
  intro records input
  refine .bind_expect rfl fun start rest _ _ => ?_
  refine .bind (ident_covered.laid ident_arranges) fun name first rest _ hname => ?_
  refine .bind parameters_arranges ?_
  rintro parameters second rest _ ⟨hlisted, hparameters⟩
  refine .bind ((typeAfter_covered .arrow).and (typeAfter_arranges .arrow)) ?_
  rintro returns third rest _ ⟨hreturned, hreturns⟩
  refine .bind (block_covered.laid block_arranges) fun body fourth rest _ hbody => ?_
  refine .pure (.node ⟨?_, name.outline, parameters.map Parameter.outline,
    (returns.map TypeExpr.outline).toList ++ [body.outline], by simp, ?_, ?_, ?_⟩ ?_)
  · simpa using (Span.Joins.single start).hull (first ++ (second ++ third)) hbody.covers.joins
  · exact List.forall_mem_map.mpr fun _ _ => rfl
  · intro other hother
    rcases List.mem_append.mp hother with hother | hother
    · obtain ⟨type, -, rfl⟩ := Option.map_eq_some_iff.mp (Option.mem_toList.mp hother)
      cases type <;> simp [TypeExpr.outline]
    · obtain rfl := List.mem_singleton.mp hother
      cases body
      simp [Block.outline]
  · simpa using
      hlisted.between (hname.covers.coverIn.skip [start]) (hreturned.append hbody.covers.coverIn)
  · simpa using (hname.every.append (hparameters.append (hreturns.append hbody.every))).skip [start]

theorem recordItem_arranges : Arranges final Item.outline recordItem := by
  intro records input
  refine .bind_expect rfl fun start rest _ _ => ?_
  refine .bind (ident_arranges records rest) fun name first rest _ hname => ?_
  refine .bind (record_arranges .typeField (fun _ _ _ => trivial) TypeExpr.note_outline
    type_covered type_arranges) ?_
  rintro ⟨fields, span⟩ second rest _ ⟨hlists, hfields⟩
  refine .pure ?_
  rw [Item.outline, TypeExpr.outlineFields_eq_map, List.append_nil]
  have hinner : Every (Arranged final)
      [.node .typeFields span (fields.map (Field.outline .typeField TypeExpr.outline))] second :=
    .node hlists hfields
  exact .node trivial (by simpa using (hname.append hinner).skip [start])

theorem item_arranges : Arranges final Item.outline item := by
  refine fun records input => .bind_peek fun token hshows => ?_
  split
  next =>
    refine .bind importDeclaration_arranges ?_
    rintro ⟨path, span⟩ taken rest _ hpath
    exact .pure (.node trivial (by simpa using hpath))
  next hkind => exact filterItem_arranges ⟨token, hshows, congrArg Kind.variant hkind⟩
  next hkind => exact filterItem_arranges ⟨token, hshows, congrArg Kind.variant hkind⟩
  next => exact functionItem_arranges records input
  next => exact recordItem_arranges records input
  next =>
    refine .bind_expect rfl fun start rest _ _ => ?_
    refine .bind (ident_arranges records rest) fun name first rest _ hname => ?_
    refine .bind (block_arranges records rest) fun body second rest _ hbody => .pure ?_
    exact .node trivial (by simpa using (hname.append hbody).skip [start])
  next => exact .bind_want .refuse

theorem script_arranges :
    Reads final records input script fun script taken rest =>
      Every (Arranged final) [script.outline] taken ∧ Next .endOfFile rest := by
  refine .bind_peek fun first _ => ?_
  have hitems : Reads final records input (repeated itemRound []) fun items taken rest =>
      Every (Arranged final) (items.map Item.outline) taken ∧ Next .endOfFile rest := by
    refine .repeated (fun items taken _ => Every (Arranged final) (items.map Item.outline) taken)
      .nil fun items taken rest hitems => ?_
    refine .bind_nextIs (fun hend => .pure ?_) fun _ => ?_
    · simpa using ⟨hitems, hend⟩
    · refine .bind (item_arranges records rest) fun item more rest _ hitem => .pure ?_
      simpa using hitems.append hitem
  refine .bind hitems fun items taken rest _ ⟨hitems, hend⟩ => .bind_peek fun stop _ => .pure ?_
  rw [List.append_nil]
  exact ⟨.node trivial hitems, hend⟩

theorem loneExpr_arranges :
    Reads final records input loneExpr fun expr taken rest =>
      Every (Arranged final) [expr.outline] taken ∧ Next .endOfFile rest := by
  refine .bind (expr_arranges records input) fun value taken rest _ hvalue => ?_
  refine .bind_accepts (fun hend => .pure ?_) fun _ => .refuse
  simpa using ⟨hvalue, hend⟩

end Grammar

/-! ## Trees of sources -/

namespace Outline

/-- The tree is laid out over the tokens of a source: its nodes are arranged and cover
what was taken for them, and the table has the names among the tokens. Only a script
may reach beyond its first and last token. -/
structure LaidOut (names : Names) (tree : Outline Span Symbol) (tokens : List Token) : Prop where
  order : InOrder tokens
  names_eq : names = Names.empty.enter (tokens.map .ok)
  arranged : Every (Arranged names) [tree] tokens
  below : CoverIn tree.children tokens
  root : tree.tag ≠ .script → tree.Covers tokens

section

variable {names : Names} {tree node : Outline Span Symbol} {tokens : List Token}

/-- All nodes but the script stand where tokens do, with their children in order inside
of them. -/
theorem LaidOut.placed (h : tree.LaidOut names tokens) (hnode : node ∈ tree.subtrees)
    (htag : node.tag ≠ .script) : node.note.Bounded tokens ∧ node.Nests := by
  obtain ⟨tag, span, children⟩ := tree
  rw [subtrees] at hnode
  rcases List.mem_cons.mp hnode with rfl | hnode
  · exact (h.root htag).subtrees h.order _ (mem_subtrees_self _)
  · exact h.below.subtrees h.order node hnode

theorem LaidOut.exists_part (h : tree.LaidOut names tokens) (hnode : node ∈ tree.subtrees) :
    ∃ part, part <:+: tokens ∧ node.Arranged names part :=
  h.arranged node (by simpa using hnode)

theorem Arranged.lists (h : node.Arranged names tokens) : node.Lists tokens := by
  obtain ⟨tag, span, children⟩ := node
  cases tag <;> first | exact h | trivial

end

end Outline

/-- The tree of every accepted source is laid out over its tokens. -/
theorem parse_laidOut {source : String} {parsed : Parsed (Script Span Symbol)}
    (h : parse source = .ok parsed) :
    ∃ tokens : List Token, (Stream.ofSource source).scans = tokens.map .ok ∧
      parsed.tree.outline.LaidOut parsed.names tokens := by
  have hreads (final : Names) (input : List Scan) :
      Parse.Reads final true input Grammar.script fun script taken rest =>
        (Outline.CoverIn script.outline.children taken ∧
          Outline.Every (Outline.Arranged final) [script.outline] taken) ∧ Next .endOfFile rest :=
    (Grammar.script_covered.and Grammar.script_arranges).mono
      fun _ _ _ _ ⟨⟨⟨hcovers, _⟩, hend⟩, harranged, _⟩ => ⟨⟨hcovers, harranged⟩, hend⟩
  obtain ⟨tokens, hscans, hnames, hcovers, harranged⟩ := runOn_reads_entering hreads h
  obtain ⟨horder, -⟩ := inOrder_of_scans hscans
  exact ⟨tokens, hscans, horder, hnames, harranged, hcovers, fun htag => absurd rfl htag⟩

/-- The tree of a source that is one expression is laid out over its tokens. -/
theorem parseExpr_laidOut {source : String} {parsed : Parsed (Expr Span Symbol)}
    (h : parseExpr source = .ok parsed) :
    ∃ tokens : List Token, (Stream.ofSource source).scans = tokens.map .ok ∧
      parsed.tree.outline.LaidOut parsed.names tokens := by
  have hreads (final : Names) (input : List Scan) :
      Parse.Reads final true input Grammar.loneExpr fun expr taken rest =>
        (expr.outline.Covers taken ∧
          Outline.Every (Outline.Arranged final) [expr.outline] taken) ∧ Next .endOfFile rest :=
    (Grammar.loneExpr_covered.and Grammar.loneExpr_arranges).mono
      fun _ _ _ _ ⟨⟨hcovers, hend⟩, harranged, _⟩ => ⟨⟨hcovers, harranged⟩, hend⟩
  obtain ⟨tokens, hscans, hnames, hcovers, harranged⟩ := runOn_reads_entering hreads h
  obtain ⟨horder, -⟩ := inOrder_of_scans hscans
  refine ⟨tokens, hscans, horder, hnames, harranged, ?_, fun _ => hcovers⟩
  generalize parsed.tree.outline = tree at hcovers ⊢
  cases tree
  exact (Outline.covers_node.mp hcovers).2

namespace Outline

/-- Nodes in order are all in order, not only neighbours. -/
theorem pairwise_of_isChain {ν : Type} {outlines : List (Outline Span ν)}
    (hnonempty : ∀ outline ∈ outlines, outline.note.start < outline.note.stop)
    (h : outlines.IsChain fun outline next => outline.note.stop ≤ next.note.start) :
    outlines.Pairwise fun outline later => outline.note.stop ≤ later.note.start := by
  induction outlines with
  | nil => exact .nil
  | cons first rest ih =>
      obtain ⟨-, hrest⟩ := List.forall_mem_cons.mp hnonempty
      have hordered := ih hrest h.tail
      refine List.pairwise_cons.mpr ⟨fun later hlater => ?_, hordered⟩
      cases rest with
      | nil => cases hlater
      | cons next others =>
          have hnext := (List.isChain_cons_cons.mp h).1
          rcases List.mem_cons.mp hlater with rfl | hlater
          · exact hnext
          · have hstart := hrest next List.mem_cons_self
            have hlater := (List.pairwise_cons.mp hordered).1 later hlater
            omega

end Outline

/-- The hull of the first and the last of some names in order starts with the one and
ends with the other. -/
theorem Ident.hull_of_isChain {ν : Type} {first last : Ident Span ν} {rest : List (Ident Span ν)}
    (hnonempty : ∀ ident ∈ first :: rest, ident.span.start < ident.span.stop)
    (hchain : (first :: rest).IsChain fun ident next => ident.span.stop ≤ next.span.start)
    (hlast : last ∈ (first :: rest).getLast?) :
    first.span.hull last.span = ⟨first.span.start, last.span.stop⟩ := by
  -- The hull takes the least start and the greatest stop: these are where they should be.
  have hle : first.span.start ≤ last.span.start ∧ first.span.stop ≤ last.span.stop := by
    induction rest generalizing first with
    | nil =>
        obtain rfl : first = last := by simpa using hlast
        omega
    | cons next rest ih =>
        obtain ⟨hfirst, hnonempty⟩ := List.forall_mem_cons.mp hnonempty
        obtain ⟨hnext, hchain⟩ := List.isChain_cons_cons.mp hchain
        have hrest := ih hnonempty hchain (by simpa using hlast)
        have hnonempty := hnonempty next List.mem_cons_self
        omega
  simp only [Span.hull, Span.mk.injEq]
  omega

/-- What the types of the tree leave open is settled in the tree with these tokens. -/
structure Outline.WellFormed (tree : Outline Span Symbol) (tokens : List Token) : Prop where
  /-- The last arm of a match says so, and no other arm does. -/
  last : ∀ scrutinee front arm back span,
    (Expr.select scrutinee (front ++ arm :: back) span).outline ∈ tree.subtrees →
      arm.last = back.isEmpty
  /-- A comma follows every other arm whose body is an expression. -/
  comma : ∀ scrutinee front arm back span,
    (Expr.select scrutinee (front ++ arm :: back) span).outline ∈ tree.subtrees →
      back ≠ [] → ∀ value, arm.body = .expr value →
        ∃ comma : Token, comma.Follows tokens arm.span.stop ∧ comma.kind = Punct.comma
  /-- What follows `else` without a block of its own is a conditional. -/
  elseIf : ∀ condition consequence next span,
    (Expr.conditional condition consequence (some (.conditional next)) span).outline ∈
      tree.subtrees → next.IsConditional
  /-- A path has names, and it runs from the first to the last of them. -/
  path : ∀ path : Path Span Symbol, path.outline ∈ tree.subtrees →
    ∃ first ∈ path.segments.head?, ∃ last ∈ path.segments.getLast?,
      path.span = ⟨first.span.start, last.span.stop⟩
  /-- An import path has parts, and so have those in its groups. -/
  importPath : ∀ path : ImportPath Span Symbol, path.outline ∈ tree.subtrees → path.parts ≠ []
  /-- A list holds what stands in the source, in the same order. -/
  lists : ∀ node ∈ tree.subtrees, ∃ part, part <:+: tokens ∧ node.Lists part

namespace Outline.LaidOut

variable {names : Names} {tree : Outline Span Symbol} {tokens : List Token}

theorem armRow (h : tree.LaidOut names tokens) {scrutinee : Expr Span Symbol}
    {arms : List (Arm Span Symbol)} {span : Span}
    (hselect : (Expr.select scrutinee arms span).outline ∈ tree.subtrees) :
    ∃ part, part <:+: tokens ∧ ArmRow (!arms.isEmpty) arms part := by
  obtain ⟨part, hpart, harranged⟩ := h.exists_part hselect
  rw [Expr.outline] at harranged
  obtain ⟨-, _, others, hchildren, front, inner, back, opening, closing, rfl, -, -, -, hrow, -⟩ :=
    harranged
  rw [List.cons.injEq, ← Arm.outlineList_eq_map] at hchildren
  obtain rfl := Arm.eq_of_outlineList _ _ hchildren.2
  exact ⟨inner, List.IsInfix.trans ⟨front ++ [opening], closing :: back, by simp⟩ hpart, hrow⟩

theorem arm_last (h : tree.LaidOut names tokens) {scrutinee : Expr Span Symbol}
    {front back : List (Arm Span Symbol)} {arm : Arm Span Symbol} {span : Span}
    (hselect : (Expr.select scrutinee (front ++ arm :: back) span).outline ∈ tree.subtrees) :
    arm.last = back.isEmpty := by
  obtain ⟨part, -, hrow⟩ := h.armRow hselect
  cases front <;> simpa using hrow.last_eq

theorem path_span (h : tree.LaidOut names tokens) {path : Path Span Symbol}
    (hpath : path.outline ∈ tree.subtrees) :
    ∃ first ∈ path.segments.head?, ∃ last ∈ path.segments.getLast?,
      path.span = ⟨first.span.start, last.span.stop⟩ := by
  obtain ⟨-, hnests⟩ := h.placed hpath (by simp [Path.outline])
  have hnonempty : ∀ ident ∈ path.segments, ident.span.start < ident.span.stop := by
    intro ident hident
    have hchild := mem_subtrees_of_mem_children hpath (List.mem_map_of_mem hident)
    exact (h.placed hchild (by simp [Ident.outline])).1.nonempty
  obtain ⟨part, -, first, hfirst, last, hlast, hspan⟩ := h.exists_part hpath
  obtain rfl : path.first.outline = first := Option.some.inj hfirst
  rw [List.getLast?_map, Option.mem_def, Option.map_eq_some_iff] at hlast
  obtain ⟨ident, hident, rfl⟩ := hlast
  exact ⟨path.first, rfl, ident, hident, hspan.trans (Ident.hull_of_isChain hnonempty
    ((List.isChain_map _).mp hnests.ordered) hident)⟩

theorem parts_ne_nil (h : tree.LaidOut names tokens) {path : ImportPath Span Symbol}
    (hpath : path.outline ∈ tree.subtrees) : path.parts ≠ [] := by
  obtain ⟨part, -, hparts⟩ := h.exists_part hpath
  obtain ⟨parts, span⟩ := path
  rw [ImportPath.outline, ImportPart.outlineList_eq_map] at hparts
  rintro rfl
  exact hparts rfl

theorem wellFormed (h : tree.LaidOut names tokens) (hfits : AllFit [tree]) :
    tree.WellFormed tokens where
  last _ _ _ _ _ hselect := h.arm_last hselect
  comma scrutinee front arm back span hselect hback value hbody := by
    obtain ⟨part, hpart, hrow⟩ := h.armRow hselect
    have hlast : arm.last = false := (h.arm_last hselect).trans (by simpa using hback)
    have harm : arm ∈ front ++ arm :: back := by simp
    obtain ⟨own, more, hmore, hjoins, hends⟩ := hrow.exists_part harm
    -- Without a comma the arm would be the last one or its body a block.
    rcases hends with ⟨comma, rfl, hkind⟩ | ⟨-, hlast' | ⟨block, hblock⟩⟩
    · obtain ⟨front, stop, rfl⟩ := hjoins.exists_last
      have hown : front ++ [stop] <:+: tokens :=
        (List.prefix_append _ _).isInfix.trans (hmore.trans hpart)
      have hfollows : comma.Follows (front ++ [stop] ++ [comma]) arm.span.stop :=
        ⟨front, stop, [], by simp, hjoins.stop_eq (h.order.of_part hown)⟩
      exact ⟨comma, hfollows.mono (hmore.trans hpart), hkind⟩
    · rw [hlast] at hlast'
      cases hlast'
    · rw [hbody] at hblock
      cases hblock
  elseIf condition consequence next span hconditional := by
    have hmem : (Expr.conditional condition consequence (some (.conditional next)) span).outline ∈
        subtreesList [tree] := by
      rwa [subtreesList_singleton]
    obtain ⟨records, hfits⟩ := hfits _ hmem
    exact hfits.2.2.1
  path path hpath := h.path_span hpath
  importPath _ hpath := h.parts_ne_nil hpath
  lists node hnode := by
    obtain ⟨part, hpart, harranged⟩ := h.exists_part hnode
    exact ⟨part, hpart, harranged.lists⟩

end Outline.LaidOut

/-- The tree of every accepted source is well formed over its tokens, which stand in
order, and so is that of a source that is one expression. -/
theorem parse_wellFormed (source : String) :
    (∀ parsed, parse source = .ok parsed →
      ∃ tokens, tokenize source = .ok (tokens ++ [Token.atEnd (byteLength source.toList)]) ∧
        InOrder tokens ∧ parsed.tree.outline.WellFormed tokens) ∧
    (∀ parsed, parseExpr source = .ok parsed →
      ∃ tokens, tokenize source = .ok (tokens ++ [Token.atEnd (byteLength source.toList)]) ∧
        InOrder tokens ∧ parsed.tree.outline.WellFormed tokens) := by
  constructor
  · intro parsed hrun
    obtain ⟨tokens, hscans, hlaid⟩ := parse_laidOut hrun
    exact ⟨tokens, tokenize_of_scans hscans, hlaid.order,
      hlaid.wellFormed (parsed.tree.allFit (fits_of_parse hrun))⟩
  · intro parsed hrun
    obtain ⟨tokens, hscans, hlaid⟩ := parseExpr_laidOut hrun
    exact ⟨tokens, tokenize_of_scans hscans, hlaid.order,
      hlaid.wellFormed (parsed.tree.allFit (fits_of_parseExpr hrun))⟩

theorem parse_wellFormed_of_arms :
    ∃ parsed, parse "test a \x7b match b \x7b C(d, d) -> 1, E -> 2 \x7d \x7d" = .ok parsed ∧
      ∃ tokens,
        tokenize "test a \x7b match b \x7b C(d, d) -> 1, E -> 2 \x7d \x7d" =
          .ok (tokens ++ [Token.atEnd 43]) ∧
        InOrder tokens ∧ parsed.tree.outline.WellFormed tokens := by
  have haccepted :
      (parse "test a \x7b match b \x7b C(d, d) -> 1, E -> 2 \x7d \x7d").toBool = true := by
    decide +kernel
  cases hparsed : parse "test a \x7b match b \x7b C(d, d) -> 1, E -> 2 \x7d \x7d" with
  | ok parsed => exact ⟨parsed, rfl, (parse_wellFormed _).1 parsed hparsed⟩
  | error error => simp [hparsed, Except.toBool] at haccepted

end FilterScript
