import FilterScript.Proofs.Braces.Expressions
import FilterScript.Proofs.Spans.Scripts

/-!
# What a brace behind a path opens

In the tree of an accepted source a path in front of a brace is the end of a
condition or scrutinee that the brace opens a body for, or it is the type of a
record that the brace opens.
-/

namespace FilterScript

namespace Grammar

open Parse Outline

variable {final : Names} {records : Bool} {input : List Scan}

theorem parameters_settled :
    Reads final records input parameters fun list taken rest =>
      SettledIn (list.map Parameter.outline) taken rest :=
  parameters_covered.mono fun _ _ _ _ _ => settledBut_of_plain
    (List.forall_mem_map.mpr fun parameter _ => parameter.plain_outline)

/-- The name of an item and the keyword in front of it. -/
theorem name_settled {name : Ident Span Symbol} {taken : List Token} {rest : List Scan} :
    SettledIn [name.outline] taken rest :=
  settledBut_of_plain (List.forall_mem_singleton.mpr name.plain_outline)

theorem filterItem_settled {kind : FilterKind} (hnext : Next kind.keyword input) :
    Reads final records input (filterItem kind) fun item taken rest =>
      SettledIn [item.outline] taken rest := by
  refine .bind_advance hnext rfl fun start rest _ _ => ?_
  refine .bind .ident ?_
  rintro name _ rest _ ⟨token, rfl, -⟩
  refine .bind parameters_settled ?_
  rintro parameters second _ rfl hparameters
  refine .bind block_settled ?_
  rintro body third rest rfl hbody
  refine .pure ?_
  have hname : SettledIn [name.outline] [start, token] ((second ++ third).map .ok ++ rest) :=
    name_settled
  have hchildren := hname.append (hparameters.append hbody)
  rw [Item.outline]
  exact SettledBut.node (by simpa using hchildren) rfl

theorem functionItem_settled :
    Reads final records input functionItem fun item taken rest =>
      SettledIn [item.outline] taken rest := by
  refine .bind_expect rfl fun start rest _ _ => ?_
  refine .bind .ident ?_
  rintro name _ rest _ ⟨token, rfl, -⟩
  refine .bind parameters_settled ?_
  rintro parameters second _ rfl hparameters
  refine .bind (typeAfter_settled .arrow) ?_
  rintro returns third _ rfl hreturns
  refine .bind block_settled ?_
  rintro body fourth rest rfl hbody
  refine .pure ?_
  have hname : SettledIn [name.outline] [start, token]
      ((second ++ (third ++ fourth)).map .ok ++ rest) := name_settled
  have hparameters' : SettledIn (parameters.map Parameter.outline) second
      ((third ++ fourth).map .ok ++ rest) := by simpa using hparameters
  have hchildren := hname.append (hparameters'.append (hreturns.append hbody))
  rw [Item.outline]
  exact SettledBut.node (by simpa using hchildren) rfl

theorem testItem_settled :
    Reads final records input testItem fun item taken rest =>
      SettledIn [item.outline] taken rest := by
  refine .bind_expect rfl fun start rest _ _ => ?_
  refine .bind .ident ?_
  rintro name _ rest _ ⟨token, rfl, -⟩
  refine .bind block_settled ?_
  rintro body second rest rfl hbody
  refine .pure ?_
  have hname : SettledIn [name.outline] [start, token] (second.map .ok ++ rest) := name_settled
  have hchildren := hname.append hbody
  rw [Item.outline]
  exact SettledBut.node (by simpa using hchildren) rfl

theorem recordItem_settled :
    Reads final records input recordItem fun item taken rest =>
      SettledIn [item.outline] taken rest := by
  refine .bind_expect rfl fun start rest _ _ => ?_
  refine .bind (ident_covered records rest) fun name first rest _ _ => ?_
  refine .bind
    (record_covered .typeFields .typeField TypeExpr.note_outline type_covered records rest) ?_
  rintro ⟨fields, inner⟩ second rest _ -
  refine .pure ?_
  rw [Item.outline]
  refine SettledBut.node (settledBut_of_plain ?_) rfl
  exact List.forall_mem_cons.mpr ⟨name.plain_outline, List.forall_mem_singleton.mpr
    (declarative_node rfl (TypeExpr.declarative_outlineFields fields)).plain⟩

theorem importItem_settled :
    Reads final records input importItem fun item taken rest =>
      SettledIn [item.outline] taken rest := by
  refine .bind importDeclaration_covered ?_
  rintro ⟨path, span⟩ taken rest _ -
  refine .pure ?_
  rw [Item.outline]
  exact SettledBut.node (settledBut_of_plain (List.forall_mem_singleton.mpr path.plain_outline)) rfl

theorem item_settled :
    Reads final records input item fun item taken rest => SettledIn [item.outline] taken rest := by
  refine .bind_peek fun token hshows => ?_
  split
  next => exact importItem_settled
  next hkind => exact filterItem_settled ⟨token, hshows, congrArg Kind.variant hkind⟩
  next hkind => exact filterItem_settled ⟨token, hshows, congrArg Kind.variant hkind⟩
  next => exact functionItem_settled
  next => exact recordItem_settled
  next => exact testItem_settled
  next => exact .bind_want .refuse

theorem script_settled :
    Reads final records input script fun script taken rest =>
      SettledIn [script.outline] taken rest ∧ Next .endOfFile rest := by
  refine .bind_peek fun first hfirst => ?_
  have hitems : Reads final records input (repeated itemRound []) fun items taken rest =>
      SettledIn (items.map Item.outline) taken rest ∧ Next .endOfFile rest := by
    refine .repeated (fun items taken rest => SettledIn (items.map Item.outline) taken rest)
      .nil fun items taken rest hitems => ?_
    refine .bind_nextIs (fun hend => .pure ?_) fun _ => ?_
    · simpa using ⟨hitems, hend⟩
    · refine .bind item_settled ?_
      rintro item more rest rfl hitem
      refine .pure ?_
      simpa using hitems.append hitem
  refine .bind hitems ?_
  rintro items taken rest rfl ⟨hitems, hend⟩
  refine .bind_peek fun stop _ => .pure ⟨?_, hend⟩
  rw [Script.outline]
  exact SettledBut.node (by simpa using hitems) rfl

theorem loneExpr_settled :
    Reads final true input loneExpr fun expr taken rest =>
      SettledIn [expr.outline] taken rest ∧ Next .endOfFile rest := by
  refine .bind (expr_settled input) fun value taken rest _ hvalue => ?_
  refine .bind_accepts (fun hend => .pure ?_) fun _ => .refuse
  simpa using ⟨hvalue, hend⟩

end Grammar

/-- The token comes directly behind the one that ends at the place. -/
def Token.Follows (token : Token) (tokens : List Token) (place : Nat) : Prop :=
  ∃ front last back, tokens = front ++ last :: token :: back ∧ last.span.stop = place

namespace Outline

variable {ν : Type}

/-- Where the path ends that an expression is, or that the record it is begins with. -/
def pathStop? : Outline Span ν → Option Nat
  | node .pathExpr span _ => some span.stop
  | node .typedRecord _ (path :: _) => some path.note.stop
  | _ => none

/-- In the tree with these tokens it is clear what a brace behind a path opens. -/
structure TellsBraces (tree : Outline Span ν) (tokens : List Token) : Prop where
  /-- No record can be reached from a condition or scrutinee but through parentheses,
  arguments of a call, a block or an arm. -/
  heads : ∀ node ∈ tree.subtrees, ∀ head ∈ node.head?, ∀ reached ∈ head.exposed,
    reached.tag.isRecord = false
  /-- A path with a brace behind it can be reached from a condition or scrutinee in
  this way, and the brace opens the body behind that. -/
  paths : ∀ node ∈ tree.subtrees, node.tag = .pathExpr →
    ∀ brace : Token, brace.Follows tokens node.note.stop → brace.kind = Punct.lbrace →
      ∃ owner ∈ tree.subtrees, ∃ head ∈ owner.head?,
        node ∈ head.exposed ∧ owner.BodyOpens brace
  /-- Everywhere else a path with a brace behind it is the type of a record, and the
  brace opens its fields. -/
  elsewhere : ∀ node ∈ tree.subtrees, ∀ place ∈ node.pathStop?,
    ∀ brace : Token, brace.Follows tokens place → brace.kind = Punct.lbrace →
      (∀ owner ∈ tree.subtrees, ∀ head ∈ owner.head?, node ∉ head.exposed) →
        node.tag = .typedRecord ∧
          ∃ path fields, node.children = [path, fields] ∧ fields.note.start = brace.span.start
  /-- Behind the type of a record there is always such a brace. -/
  records : ∀ node ∈ tree.subtrees, node.tag = .typedRecord →
    ∃ path fields, node.children = [path, fields] ∧
      ∃ brace : Token, brace.Follows tokens path.note.stop ∧ brace.kind = Punct.lbrace ∧
        fields.note.start = brace.span.start

end Outline

section

variable {token other : Token} {tokens : List Token} {place : Nat}

theorem Token.Follows.behind (h : token.Follows tokens place) :
    ∃ rest, Behind (tokens.map .ok) place (.ok token :: rest) := by
  obtain ⟨front, last, back, rfl, hplace⟩ := h
  exact ⟨back.map .ok, front.map .ok, last, by simp, hplace⟩

theorem Behind.follows {rest : List Scan} (h : Behind (tokens.map .ok) place (.ok token :: rest)) :
    token.Follows tokens place := by
  obtain ⟨front, last, hscans, hplace⟩ := h
  obtain ⟨front, others, rfl, -, hothers⟩ := List.map_eq_append_iff.mp hscans
  obtain ⟨found, others, rfl, hfound, hbehind⟩ := List.map_eq_cons_iff.mp hothers
  obtain ⟨next, back, rfl, hnext, -⟩ := List.map_eq_cons_iff.mp hbehind
  cases hfound
  cases hnext
  exact ⟨front, last, back, rfl, hplace⟩

theorem Token.Follows.unique (horder : InOrder tokens) (h : token.Follows tokens place)
    (h' : other.Follows tokens place) : token = other := by
  obtain ⟨rest, hrest⟩ := h.behind
  obtain ⟨rest', hrest'⟩ := h'.behind
  exact Except.ok.inj (List.cons.inj (hrest.unique horder hrest')).1

end

namespace Outline

variable {ν : Type} {tree node : Outline Span ν} {nodes : List (Outline Span ν)}
  {tokens : List Token}

/-- A path with a brace behind it that is settled waits for the body of a node. -/
theorem Settled.exists_owner (h : node.Settled nodes (tokens.map .ok)) (horder : InOrder tokens)
    (htag : node.tag = .pathExpr) {brace : Token} (hfollows : brace.Follows tokens node.note.stop)
    (hbrace : brace.kind = Punct.lbrace) :
    ∃ owner ∈ nodes, ∃ head ∈ owner.head?, node ∈ head.exposed ∧ owner.BodyOpens brace := by
  rcases h.path htag with
    ⟨rest, hrest, hno⟩ | ⟨owner, howner, head, hhead, other, rest, hrest, -, hopens, hexposed⟩
  · obtain ⟨back, hbehind⟩ := hfollows.behind
    rw [hrest.unique horder hbehind] at hno
    exact absurd (Next.of_kind hbrace) hno
  · obtain rfl : other = brace := hrest.follows.unique horder hfollows
    exact ⟨owner, howner, head, hhead, hexposed, hopens⟩

theorem tellsBraces_of_settled (horder : InOrder tokens) (h : SettledIn [tree] tokens []) :
    tree.TellsBraces tokens := by
  have hsettled : ∀ node ∈ tree.subtrees, node.Settled tree.subtrees (tokens.map .ok) := by
    intro node hnode
    have hnode' : node ∈ subtreesList [tree] := by simpa using hnode
    simpa using h horder node hnode'
  refine ⟨fun node hnode => (hsettled node hnode).head, ?paths, ?elsewhere, ?records⟩
  case paths =>
    exact fun node hnode htag brace => (hsettled node hnode).exists_owner horder htag
  case elsewhere =>
    intro node hnode place hplace brace hfollows hbrace hhidden
    unfold pathStop? at hplace
    split at hplace
    next span children =>
      cases hplace
      obtain ⟨owner, howner, head, hhead, hexposed, -⟩ :=
        (hsettled _ hnode).exists_owner horder rfl hfollows hbrace
      exact absurd hexposed (hhidden owner howner head hhead)
    next span path rest =>
      cases hplace
      obtain ⟨first, fields, hchildren, other, _, hbehind, -, hopens⟩ :=
        (hsettled _ hnode).record rfl
      obtain ⟨rfl, -⟩ := List.cons.inj (show path :: rest = [first, fields] from hchildren)
      obtain rfl : other = brace := hbehind.follows.unique horder hfollows
      exact ⟨rfl, _, fields, hchildren, hopens⟩
    next => cases hplace
  case records =>
    intro node hnode htag
    obtain ⟨path, fields, hchildren, brace, rest, hbehind, hbrace, hopens⟩ :=
      (hsettled node hnode).record htag
    exact ⟨path, fields, hchildren, brace, hbehind.follows, hbrace, hopens⟩

end Outline

/-- In every accepted source it is clear what a brace behind a path opens, and
likewise in a source that is one expression. -/
theorem parse_tellsBraces (source : String) :
    (∀ parsed, parse source = .ok parsed →
      ∃ tokens, tokenize source = .ok (tokens ++ [Token.atEnd (byteLength source.toList)]) ∧
        parsed.tree.outline.TellsBraces tokens) ∧
    (∀ parsed, parseExpr source = .ok parsed →
      ∃ tokens, tokenize source = .ok (tokens ++ [Token.atEnd (byteLength source.toList)]) ∧
        parsed.tree.outline.TellsBraces tokens) := by
  constructor
  · intro parsed hrun
    obtain ⟨tokens, hscans, hsettled⟩ :=
      runOn_reads (fun _ _ => Grammar.script_settled) hrun
    exact ⟨tokens, tokenize_of_scans hscans,
      Outline.tellsBraces_of_settled (inOrder_of_scans hscans).1 hsettled⟩
  · intro parsed hrun
    obtain ⟨tokens, hscans, hsettled⟩ :=
      runOn_reads (fun _ _ => Grammar.loneExpr_settled) hrun
    exact ⟨tokens, tokenize_of_scans hscans,
      Outline.tellsBraces_of_settled (inOrder_of_scans hscans).1 hsettled⟩

theorem parse_tellsBraces_of_condition :
    ∃ parsed, parse "test a \x7b if b \x7b c \x7b d: 1 \x7d; \x7d \x7d" = .ok parsed ∧
      ∃ tokens,
        tokenize "test a \x7b if b \x7b c \x7b d: 1 \x7d; \x7d \x7d" =
          .ok (tokens ++ [Token.atEnd 31]) ∧
        parsed.tree.outline.TellsBraces tokens := by
  have haccepted :
      (parse "test a \x7b if b \x7b c \x7b d: 1 \x7d; \x7d \x7d").toBool = true := by decide +kernel
  cases hparsed : parse "test a \x7b if b \x7b c \x7b d: 1 \x7d; \x7d \x7d" with
  | ok parsed => exact ⟨parsed, rfl, (parse_tellsBraces _).1 parsed hparsed⟩
  | error error => simp [hparsed, Except.toBool] at haccepted

end FilterScript
