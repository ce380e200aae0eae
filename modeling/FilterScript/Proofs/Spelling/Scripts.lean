import FilterScript.Parsed
import FilterScript.Proofs.Scanning
import FilterScript.Proofs.Spelling.Expressions

/-!
# No token is lost, doubled or moved

A source that is accepted is one way to write its tree: its tokens, in their
order, are the tokens of the written tree with nothing added but commas and
brackets that may be left out.
-/

namespace FilterScript

theorem Stream.tokens_of_scans {stream : Stream} {tokens : List Token}
    (h : stream.scans = tokens.map .ok) :
    stream.tokens = .ok (tokens ++ [Token.atEnd stream.length]) := by
  unfold Stream.tokens
  rw [h]
  clear h
  induction tokens with
  | nil => rfl
  | cons token rest ih =>
      rw [List.map_cons, Stream.tokens.go, ih]
      rfl

variable {final : Names} {records : Bool} {input : List Scan}

namespace Grammar

open Parse

/-- A keyword that has been seen to come next and a name behind it. -/
theorem filterItem_spelled {kind : FilterKind} (hnext : Next kind.keyword input) :
    Reads final records input (filterItem kind) fun item taken _ =>
      Spells (item.slots final.text) taken := by
  refine .bind_advance hnext rfl fun start rest _ hstart => ?_
  refine .bind (ident_spelled records rest) fun name first rest _ hname => ?_
  refine .bind (parameters_spelled records rest) fun parameters second rest _ hparameters => ?_
  refine .bind (block_spelled records rest) fun body third rest _ hbody => .pure ?_
  simpa [Item.slots] using Spells.token hstart (hname.append (hparameters.append hbody))

theorem functionItem_spelled : Spelled final (Item.slots final.text) functionItem := by
  intro records input
  refine .bind_expect rfl fun start rest _ hstart => ?_
  refine .bind (ident_spelled records rest) fun name first rest _ hname => ?_
  refine .bind (parameters_spelled records rest) fun parameters second rest _ hparameters => ?_
  refine .bind (typeAfter_spelled .arrow records rest) fun returns third rest _ hreturns => ?_
  refine .bind (block_spelled records rest) fun body fourth rest _ hbody => .pure ?_
  simpa [Item.slots] using
    Spells.token hstart (hname.append (hparameters.append (hreturns.append hbody)))

theorem recordItem_spelled : Spelled final (Item.slots final.text) recordItem := by
  intro records input
  refine .bind_expect rfl fun start rest _ hstart => ?_
  refine .bind (ident_spelled records rest) fun name first rest _ hname => ?_
  refine .bind (record_spelled type_spelled records rest) ?_
  rintro ⟨fields, span⟩ second rest _ hfields
  refine .pure ?_
  simpa [Item.slots, Record.slots, TypeExpr.slotsFields_eq_map] using
    Spells.token hstart (hname.append hfields)

theorem testItem_spelled : Spelled final (Item.slots final.text) testItem := by
  intro records input
  refine .bind_expect rfl fun start rest _ hstart => ?_
  refine .bind (ident_spelled records rest) fun name first rest _ hname => ?_
  refine .bind (block_spelled records rest) fun body second rest _ hbody => .pure ?_
  simpa [Item.slots] using Spells.token hstart (hname.append hbody)

theorem importItem_spelled : Spelled final (Item.slots final.text) importItem := by
  intro records input
  refine .bind (importDeclaration_spelled records input) ?_
  rintro ⟨path, span⟩ taken rest _ hpath
  exact .pure (by simpa [Item.slots] using hpath)

theorem item_spelled : Spelled final (Item.slots final.text) item := by
  refine fun records input => .bind_peek fun token hshows => ?_
  split
  next => exact importItem_spelled records input
  next hkind => exact filterItem_spelled ⟨token, hshows, congrArg Kind.variant hkind⟩
  next hkind => exact filterItem_spelled ⟨token, hshows, congrArg Kind.variant hkind⟩
  next => exact functionItem_spelled records input
  next => exact recordItem_spelled records input
  next => exact testItem_spelled records input
  next => exact .bind_want .refuse

theorem script_reads :
    Reads final records input script fun script taken rest =>
      Spells (script.slots final.text) taken ∧ Next .endOfFile rest := by
  refine .bind_peek fun first _ => ?_
  have hitems : Reads final records input (repeated itemRound []) fun items taken rest =>
      Spells (items.flatMap (Item.slots final.text)) taken ∧ Next .endOfFile rest := by
    refine .repeated (fun items taken _ => Spells (items.flatMap (Item.slots final.text)) taken)
      .nil fun items taken rest hitems => ?_
    refine .bind_nextIs (fun hend => .pure ?_) fun _ => ?_
    · simpa using ⟨hitems, hend⟩
    · refine .bind (item_spelled records rest) fun item more rest _ hitem => .pure ?_
      simpa using hitems.append hitem
  refine .bind hitems fun items taken rest _ ⟨hitems, hend⟩ => .bind_peek fun stop _ => .pure ?_
  simpa [Script.slots] using ⟨hitems, hend⟩

theorem loneExpr_reads :
    Reads final records input loneExpr fun expr taken rest =>
      Spells (expr.slots final.text) taken ∧ Next .endOfFile rest := by
  refine .bind (expr_spelled records input) fun value taken rest _ hvalue => ?_
  refine .bind_accepts (fun hend => .pure ?_) fun _ => .refuse
  simpa using ⟨hvalue, hend⟩

end Grammar

/-- Only the end of a source looks like its end. -/
theorem eq_nil_of_next_endOfFile {source : String} {taken : List Token} {rest : List Scan}
    (hscans : (Stream.ofSource source).scans = taken.map .ok ++ rest)
    (hend : Next .endOfFile rest) : rest = [] := by
  obtain ⟨token, hshows, hvariant⟩ := hend
  match rest, hshows with
  | [], _ => rfl
  | .ok first :: rest, hshows =>
    have hmem : .ok first ∈ (Stream.ofSource source).scans := by simp [hscans]
    refine absurd ?_ (Cursor.scans_ne_endOfFile hmem)
    rw [show token = first from hshows] at hvariant
    cases hkind : first.kind <;> simp [hkind, Kind.variant] at hvariant ⊢

/-- What a production reads to the end of a source is the whole source, and the table
has all names of it. -/
theorem runOn_reads_entering {α : Type} {production : Parse α}
    {post : Names → α → List Token → List Scan → Prop} {limit : Option Nat} {source : String}
    {parsed : Parsed α}
    (hreads : ∀ final input, Parse.Reads final true input production fun result taken rest =>
      post final result taken rest ∧ Next .endOfFile rest)
    (hrun : runOn production limit source = .ok parsed) :
    ∃ tokens : List Token, (Stream.ofSource source).scans = tokens.map .ok ∧
      parsed.names = Names.empty.enter (tokens.map .ok) ∧
      post parsed.names parsed.tree tokens [] := by
  unfold runOn at hrun
  split at hrun
  next tree after hproduction =>
    cases hrun
    let scans := (Stream.ofSource source).scans
    obtain ⟨tokens, hscans, _, hnames, hpost, hend⟩ :=
      hreads (Names.empty.enter scans) scans (State.ofSource limit source) tree after rfl rfl
        (.refl _) hproduction
    have hrest := eq_nil_of_next_endOfFile hscans hend
    rw [hrest, List.append_nil] at hscans
    have hfinal : after.names = Names.empty.enter scans := by
      rw [hnames, hscans]
      rfl
    rw [hrest] at hpost
    refine ⟨tokens, hscans, hnames, ?_⟩
    rw [hfinal]
    exact hpost
  next => cases hrun

theorem runOn_reads {α : Type} {production : Parse α}
    {post : Names → α → List Token → List Scan → Prop} {limit : Option Nat} {source : String}
    {parsed : Parsed α}
    (hreads : ∀ final input, Parse.Reads final true input production fun result taken rest =>
      post final result taken rest ∧ Next .endOfFile rest)
    (hrun : runOn production limit source = .ok parsed) :
    ∃ tokens : List Token, (Stream.ofSource source).scans = tokens.map .ok ∧
      post parsed.names parsed.tree tokens [] := by
  obtain ⟨tokens, hscans, -, hpost⟩ := runOn_reads_entering hreads hrun
  exact ⟨tokens, hscans, hpost⟩

/-- A source without flaws has its scans for tokens. -/
theorem tokenize_of_scans {source : String} {tokens : List Token}
    (h : (Stream.ofSource source).scans = tokens.map .ok) :
    tokenize source = .ok (tokens ++ [Token.atEnd (byteLength source.toList)]) := by
  unfold tokenize
  rw [Stream.tokens_of_scans h]
  rfl

theorem runOn_writes {α : Type} {production : Parse α} (slots : Names → α → List Slot)
    {limit : Option Nat} {source : String} {parsed : Parsed α}
    (hreads : ∀ final input, Parse.Reads final true input production fun result taken rest =>
      Spells (slots final result) taken ∧ Next .endOfFile rest)
    (hrun : runOn production limit source = .ok parsed) :
    ∃ tokens, tokenize source = .ok (tokens ++ [Token.atEnd (byteLength source.toList)]) ∧
      Trims (slots parsed.names parsed.tree) (tokens.map Token.kind)
        (required (slots parsed.names parsed.tree)) := by
  obtain ⟨tokens, hscans, hspells⟩ := runOn_reads hreads hrun
  exact ⟨tokens, tokenize_of_scans hscans, hspells⟩

/-- The tokens of an accepted source, spare commas and brackets deleted, are the
written form of its tree, and likewise for a source that is one expression. -/
theorem parse_keeps_tokens (source : String) :
    (∀ parsed, parse source = .ok parsed →
      ∃ tokens, tokenize source = .ok (tokens ++ [Token.atEnd (byteLength source.toList)]) ∧
        Trims (parsed.tree.slots parsed.names.text) (tokens.map Token.kind)
          (parsed.tree.flatten parsed.names.text)) ∧
    (∀ parsed, parseExpr source = .ok parsed →
      ∃ tokens, tokenize source = .ok (tokens ++ [Token.atEnd (byteLength source.toList)]) ∧
        Trims (parsed.tree.slots parsed.names.text) (tokens.map Token.kind)
          (parsed.tree.flatten parsed.names.text)) := by
  constructor
  · intro parsed hrun
    exact runOn_writes (fun names tree => tree.slots names.text)
      (fun _ _ => Grammar.script_reads) hrun
  · intro parsed hrun
    exact runOn_writes (fun names tree => tree.slots names.text)
      (fun _ _ => Grammar.loneExpr_reads) hrun

theorem parse_keeps_tokens_of_spare_commas :
    ∃ parsed, parse "test a \x7b f(x,) \x7d" = .ok parsed ∧
      ∃ tokens, tokenize "test a \x7b f(x,) \x7d" = .ok (tokens ++ [Token.atEnd 16]) ∧
        Trims (parsed.tree.slots parsed.names.text) (tokens.map Token.kind)
          (parsed.tree.flatten parsed.names.text) := by
  have haccepted : (parse "test a \x7b f(x,) \x7d").toBool = true := by decide +kernel
  cases hparsed : parse "test a \x7b f(x,) \x7d" with
  | ok parsed => exact ⟨parsed, rfl, (parse_keeps_tokens _).1 parsed hparsed⟩
  | error error => simp [hparsed, Except.toBool] at haccepted

end FilterScript
