import FilterScript.Proofs.Commas.Scans
import FilterScript.Proofs.Commas.Shapes
import FilterScript.Proofs.Completeness.RoundTrip
import FilterScript.Proofs.Interning

/-!
# A comma at the end of a list

Where a list closes, a comma may stand in front or not. With the comma put in the
tokens are another way to write the same places, and they enter the same names. So
the source is accepted as before, and the tree, the table of names and the lints of
the warnings are what they were.
-/

namespace FilterScript

/-! ## Sources that are written for the same places -/

/-- The table is settled by the names among the tokens. -/
theorem Names.enter_eq_of_names {tokens others : List Token}
    (h : others.filterMap Token.name? = tokens.filterMap Token.name?) :
    empty.enter (others.map .ok) = empty.enter (tokens.map .ok) := by
  have htexts := enter_texts others
  rw [h, ← enter_texts tokens] at htexts
  cases hothers : empty.enter (others.map .ok) with
  | mk texts =>
      cases htokens : empty.enter (tokens.map .ok) with
      | mk texts' =>
          rw [hothers, htokens] at htexts
          exact congrArg Names.mk htexts

/-- Two results of parsing with nothing but spans to tell them apart. What a tree is
without its spans depends on the table of names. -/
structure Parsed.Agrees {α β : Type} (plain : Names → α → β) (parsed again : Parsed α) : Prop where
  tree : plain again.names again.tree = plain parsed.names parsed.tree
  names : again.names = parsed.names
  lints : again.warnings.map Warning.lint = parsed.warnings.map Warning.lint

/-- A script without its spans. -/
def Script.plain (names : Names) (script : Script Span Symbol) : Script Unit String :=
  script.map noNote names.text

/-- An expression without its spans. -/
def Expr.plain (names : Names) (expr : Expr Span Symbol) : Expr Unit String :=
  expr.map noNote names.text

variable {source other : String} {tokens others : List Token}

/-- Sources with the same names that a production reads as the same tree agree: the
lints are told by the shape of the tree. -/
theorem agrees_of_plain {α β : Type} {production : Parse α} {limit : Option Nat}
    {post : Names → α → List Token → Prop} {outline : α → Outline Span Symbol}
    {plain : Names → α → β} {parsed again : Parsed α}
    (hreads : ∀ final input, Parse.Reads final true input production fun result taken rest =>
      post final result taken ∧ Next .endOfFile rest)
    (hreports : Parse.Reports (fun tree => (outline tree).reports) production)
    (h : runOn production limit source = .ok parsed)
    (hagain : runOn production limit other = .ok again)
    (hother : (Stream.ofSource other).scans = others.map .ok)
    (hnames : Names.empty.enter (others.map .ok) = parsed.names)
    (hplain : plain again.names again.tree = plain parsed.names parsed.tree)
    (hshape : (outline again.tree).shape = (outline parsed.tree).shape) :
    parsed.Agrees plain again where
  tree := hplain
  names := by
    obtain ⟨read, hread, hentered, -⟩ := runOn_reads_entering hreads hagain
    rw [hentered, ← hread, hother, hnames]
  lints := by
    rw [warnings_of_runOn hreports hagain, warnings_of_runOn hreports h]
    exact Outline.lints_eq_of_shape _ _ hshape

/-- A source with the names of an accepted script that is written for its places is
accepted as the same script. -/
theorem exists_parse_of_spells {parsed : Parsed (Script Span Symbol)}
    (h : parse source = .ok parsed) (hother : (Stream.ofSource other).scans = others.map .ok)
    (hspells : Spells (parsed.tree.slots parsed.names.text) others)
    (hnames : Names.empty.enter (others.map .ok) = parsed.names) :
    ∃ again, parse other = .ok again ∧ parsed.Agrees Script.plain again := by
  have hcanonical := isCanonical_of_parse h
  have hplain : Spells ((parsed.tree.plain parsed.names).slots id) others := by
    rw [Script.plain, Script.slots_map]
    exact hspells
  obtain ⟨again, hfree, htree⟩ := parseWithin_gives hother hcanonical.fits hplain
  have hnest : again.tree.nest ≤ nestingLimit := by
    have hle := hcanonical.nest_le
    rwa [← htree, Script.nest_map] at hle
  have hagain : parse other = .ok again := runOn_of_le Grammar.script_opens hfree hnest
  have hshape : again.tree.outline.shape = parsed.tree.outline.shape := by
    rw [← Script.shape_map noNote again.names.text, htree, Script.shape_map]
  exact ⟨again, hagain, agrees_of_plain (fun _ _ => Grammar.script_reads) Grammar.script_reports
    h hagain hother hnames htree hshape⟩

/-- A source with the names of an accepted expression that is written for its places
is accepted as the same expression. -/
theorem exists_parseExpr_of_spells {parsed : Parsed (Expr Span Symbol)}
    (h : parseExpr source = .ok parsed) (hother : (Stream.ofSource other).scans = others.map .ok)
    (hspells : Spells (parsed.tree.slots parsed.names.text) others)
    (hnames : Names.empty.enter (others.map .ok) = parsed.names) :
    ∃ again, parseExpr other = .ok again ∧ parsed.Agrees Expr.plain again := by
  have hfits : (parsed.tree.plain parsed.names).Fits true :=
    (parsed.tree.fits_map noNote parsed.names.text true).mpr (fits_of_parseExpr h)
  have hplain : Spells ((parsed.tree.plain parsed.names).slots id) others := by
    rw [Expr.plain, Expr.slots_map]
    exact hspells
  obtain ⟨again, hfree, htree⟩ := runOn_loneExpr_gives hother hfits hplain
  have hlevels : again.tree.levels + 1 ≤ nestingLimit := by
    have hle := number_le_of_runOn Grammar.loneExpr_opens h
    have hsame : again.tree.levels = parsed.tree.levels := by
      rw [← Expr.levels_map noNote again.names.text, htree, Expr.plain, Expr.levels_map]
    rwa [hsame]
  have hagain : parseExpr other = .ok again := runOn_of_le Grammar.loneExpr_opens hfree hlevels
  have hshape : again.tree.outline.shape = parsed.tree.outline.shape := by
    rw [← Expr.shape_map noNote again.names.text, htree, Expr.plain, Expr.shape_map]
  exact ⟨again, hagain, agrees_of_plain (fun _ _ => Grammar.loneExpr_reads) Grammar.loneExpr_reports
    h hagain hother hnames htree hshape⟩

/-! ## Where lists close -/

/-- The marks that a list closes with. -/
def Punct.closers : List Punct :=
  [rparen, rbrace, rbracket]

/-- Some places are written with these tokens up to a mark that closes a list and with
those behind it, and the list has no comma at its end. Given are also the places in front
of the end of the list and those behind it. -/
inductive ClosesList (slots : List Slot) :
    List Slot → List Slot → List Token → Token → List Token → Prop
  /-- A list of any elements, or of none. -/
  | list {before after : List Slot} {elements : List (List Slot)} {close : Punct}
      {front back : List Token} {closing : Token}
      (hslots : slots = before ++ (commaSlots elements ++ .token close :: after))
      (hclose : close ∈ Punct.closers) (hfront : Spells (before ++ joined .comma elements) front)
      (hclosing : closing.kind = close) (hback : Spells after back) :
      ClosesList slots (before ++ joined .comma elements) after front closing back
  /-- Brackets with nothing in them behind the name of a type. -/
  | brackets {before after : List Slot} {front back : List Token} {opening closing : Token}
      (hslots : slots = before ++ .spareBrackets :: after) (hfront : Spells before front)
      (hopening : opening.kind = Punct.lbracket) (hclosing : closing.kind = Punct.rbracket)
      (hback : Spells after back) :
      ClosesList slots before after (front ++ [opening]) closing back

variable {slots before after : List Slot} {front back : List Token} {closing comma : Token}

theorem Punct.exists_stop_of_mem_closers {close : Punct} (h : close ∈ closers) :
    ∃ stop, Stops stop ∧ close.spelling = String.ofList [stop] := by
  rcases List.mem_cons.mp h with rfl | h
  · exact ⟨_, stops_rparen, rfl⟩
  · rcases List.mem_cons.mp h with rfl | h
    · exact ⟨_, stops_rbrace, rfl⟩
    · obtain rfl := List.mem_singleton.mp h
      exact ⟨_, stops_rbracket, rfl⟩

namespace ClosesList

theorem exists_stop (h : ClosesList slots before after front closing back) :
    ∃ stop, Stops stop ∧ closing.kind.spelling = String.ofList [stop] := by
  cases h with
  | list _ hclose _ hclosing _ =>
      rw [hclosing]
      exact Punct.exists_stop_of_mem_closers hclose
  | brackets _ _ _ hclosing _ =>
      rw [hclosing]
      exact ⟨_, stops_rbracket, rfl⟩

/-- With a comma in front of the mark the tokens are written for the same places. -/
theorem spells_comma (h : ClosesList slots before after front closing back)
    (hcomma : comma.kind = Punct.comma) : Spells slots (front ++ comma :: closing :: back) := by
  have hspare : Spells [.spareComma] [comma] :=
    Spells.spareComma_iff.mpr (.inr ⟨comma, rfl, hcomma⟩)
  cases h with
  | list hslots _ hfront hclosing hback =>
      rw [hslots]
      simpa [commaSlots] using hfront.append (hspare.append (.token hclosing hback))
  | brackets hslots hfront hopening hclosing hback =>
      rw [hslots]
      have hbrackets := (Spells.spareBrackets hopening hspare hclosing).append hback
      simpa using hfront.append hbrackets

end ClosesList

/-- A list in the places is closed in the tokens, with a comma in front or not. -/
theorem Spells.exists_closesList (h : Spells slots tokens) {elements : List (List Slot)}
    {close : Punct} (hslots : slots = before ++ (commaSlots elements ++ .token close :: after))
    (hclose : close ∈ Punct.closers) :
    ∃ front spare closing back, tokens = front ++ (spare ++ closing :: back) ∧
      Spells [.spareComma] spare ∧
      ClosesList slots (before ++ joined .comma elements) after front closing back := by
  have hplaces : slots = (before ++ joined .comma elements) ++
      ([.spareComma] ++ .token close :: after) := by
    rw [hslots, commaSlots]
    simp
  rw [hplaces, append_iff] at h
  obtain ⟨front, rest, rfl, hfront, h⟩ := h
  obtain ⟨spare, rest, rfl, hspare, h⟩ := append_iff.mp h
  obtain ⟨closing, back, rfl, hclosing, hback⟩ := token_iff.mp h
  exact ⟨front, spare, closing, back, rfl, hspare, .list hslots hclose hfront hclosing hback⟩

/-- Brackets in the places are left out in the tokens, or they are closed there. -/
theorem Spells.exists_closesBrackets (h : Spells slots tokens)
    (hslots : slots = before ++ .spareBrackets :: after) :
    (∃ front back, tokens = front ++ back ∧ Spells before front ∧ Spells after back) ∨
      ∃ front spare closing back, tokens = front ++ (spare ++ closing :: back) ∧
        Spells [.spareComma] spare ∧ ClosesList slots before after front closing back := by
  rw [hslots, append_iff] at h
  obtain ⟨front, rest, rfl, hfront, h⟩ := h
  rw [← List.singleton_append, append_iff] at h
  obtain ⟨brackets, back, rfl, hbrackets, hback⟩ := h
  rcases hbrackets.of_spareBrackets with
    rfl | ⟨opening, spare, closing, rfl, hopening, hspare, hclosing⟩
  · exact .inl ⟨front, back, by simp, hfront, hback⟩
  · exact .inr ⟨front ++ [opening], spare, closing, back, by simp, hspare,
      .brackets hslots hfront hopening hclosing hback⟩

/-! ## Sources with a comma more -/

/-- In front of a mark that closes a list the text can be cut, and with a comma put in
there the tokens are the same but for their spans and for the comma. -/
theorem exists_source_comma (hscans : (Stream.ofSource source).scans = tokens.map .ok)
    (htokens : tokens = front ++ closing :: back)
    (hcloses : ClosesList slots before after front closing back) :
    ∃ above below others, source = above ++ below ∧
      byteLength above.toList = closing.span.start ∧
      (Stream.ofSource (above ++ "," ++ below)).scans = others.map .ok ∧ Spells slots others ∧
      others.filterMap Token.name? = tokens.filterMap Token.name? := by
  obtain ⟨stop, hstop, hspelling⟩ := hcloses.exists_stop
  have hmem : .ok closing ∈ (Stream.ofSource source).scans := by
    rw [hscans, htokens]
    simp
  obtain ⟨above, text, behind, hcuts, -, htext⟩ := (Stream.ofSource_tiling source).covers _ hmem
  obtain rfl : text = [stop] := String.ofList_injective (htext.trans hspelling)
  have hsource : source = String.ofList above ++ String.ofList (stop :: behind) := by
    rw [← String.ofList_append, ← List.singleton_append, ← hcuts.whole, String.ofList_toList]
  have hstart : byteLength (String.ofList above).toList = closing.span.start := by
    rw [String.toList_ofList]
    exact hcuts.start.symm
  let source' := String.ofList above ++ "," ++ String.ofList (stop :: behind)
  have hcomma : (Stream.ofSource source').scans =
      (front ++ Token.commaAt closing.span.start ::
        (closing :: back).map fun token => token.shift 1).map .ok := by
    rw [hsource, htokens, List.map_append, List.map_cons] at hscans
    rw [Stream.ofSource_comma hstop (by simp) hscans hstart.symm, hstart]
    simp [Scan.shift]
  refine ⟨String.ofList above, String.ofList (stop :: behind), _, hsource, hstart, hcomma, ?_, ?_⟩
  · have hspells : Spells slots (front ++ Token.commaAt closing.span.start :: closing :: back) :=
      hcloses.spells_comma rfl
    unfold Spells at hspells ⊢
    simpa [Function.comp_def] using hspells
  · have hname (token : Token) : (token.shift 1).name? = token.name? := rfl
    have hnone : (Token.commaAt closing.span.start).name? = none := rfl
    rw [htokens]
    simp [List.filterMap_append, List.filterMap_cons, hname, hnone, List.filterMap_map]

/-- The lists of some places in a source with these tokens. Every list closes in the
tokens, whether a comma stands at its end or not. Wherever one closes without a comma,
the source is accepted, in the sense given, with a comma in front of the closing mark. -/
structure TakesCommas (source : String) (slots : List Slot) (tokens : List Token)
    (accepted : String → Prop) : Prop where
  tokenized : tokenize source = .ok (tokens ++ [Token.atEnd (byteLength source.toList)])
  lists : ∀ before elements after, ∀ close ∈ Punct.closers,
    slots = before ++ (commaSlots elements ++ .token close :: after) →
      ∃ front spare closing back, tokens = front ++ (spare ++ closing :: back) ∧
        Spells [.spareComma] spare ∧
        ClosesList slots (before ++ joined .comma elements) after front closing back
  brackets : ∀ before after, slots = before ++ .spareBrackets :: after →
    (∃ front back, tokens = front ++ back ∧ Spells before front ∧ Spells after back) ∨
      ∃ front spare closing back, tokens = front ++ (spare ++ closing :: back) ∧
        Spells [.spareComma] spare ∧ ClosesList slots before after front closing back
  comma : ∀ before after front closing back, tokens = front ++ closing :: back →
    ClosesList slots before after front closing back →
      ∃ above below, source = above ++ below ∧ byteLength above.toList = closing.span.start ∧
        accepted (above ++ "," ++ below)

theorem takesCommas_of_spells (hscans : (Stream.ofSource source).scans = tokens.map .ok)
    (hspells : Spells slots tokens) {accepted : String → Prop}
    (haccepted : ∀ {other others}, (Stream.ofSource other).scans = others.map .ok →
      Spells slots others → others.filterMap Token.name? = tokens.filterMap Token.name? →
      accepted other) : TakesCommas source slots tokens accepted where
  tokenized := tokenize_of_scans hscans
  lists := fun _ _ _ _ hclose hslots => hspells.exists_closesList hslots hclose
  brackets := fun _ _ hslots => hspells.exists_closesBrackets hslots
  comma := by
    intro before after front closing back htokens hcloses
    obtain ⟨above, below, others, hsource, hstart, hothers, hsame, hnames⟩ :=
      exists_source_comma hscans htokens hcloses
    exact ⟨above, below, hsource, hstart, haccepted hothers hsame hnames⟩

/-- A comma at the end of a list never matters, be it a list of arguments, of fields, of
parameters, of bindings, of types in brackets or of the members of an import group:
with a comma in front of the mark that closes it an accepted source is accepted too, and
the tree but for its spans, the table of names and the lints are the same. -/
theorem parse_trailing_comma (source : String) :
    (∀ parsed, parse source = .ok parsed → ∃ tokens,
      TakesCommas source (parsed.tree.slots parsed.names.text) tokens fun other =>
        ∃ again, parse other = .ok again ∧ parsed.Agrees Script.plain again) ∧
    (∀ parsed, parseExpr source = .ok parsed → ∃ tokens,
      TakesCommas source (parsed.tree.slots parsed.names.text) tokens fun other =>
        ∃ again, parseExpr other = .ok again ∧ parsed.Agrees Expr.plain again) := by
  constructor
  · intro parsed h
    obtain ⟨tokens, hscans, hnames, hspells⟩ :=
      runOn_reads_entering (fun _ _ => Grammar.script_reads) h
    refine ⟨tokens, takesCommas_of_spells hscans hspells fun hothers hsame hsames => ?_⟩
    exact exists_parse_of_spells h hothers hsame
      ((Names.enter_eq_of_names hsames).trans hnames.symm)
  · intro parsed h
    obtain ⟨tokens, hscans, hnames, hspells⟩ :=
      runOn_reads_entering (fun _ _ => Grammar.loneExpr_reads) h
    refine ⟨tokens, takesCommas_of_spells hscans hspells fun hothers hsame hsames => ?_⟩
    exact exists_parseExpr_of_spells h hothers hsame
      ((Names.enter_eq_of_names hsames).trans hnames.symm)

/-- There is one way to cut a text at an offset. -/
theorem eq_of_cut {above below above' below' : String} (h : above ++ below = above' ++ below')
    (hlength : byteLength above.toList = byteLength above'.toList) :
    above = above' ∧ below = below' := by
  have htexts := congrArg String.toList h
  rw [String.toList_append, String.toList_append] at htexts
  have hprefix : above.toList <+: above'.toList :=
    Cursor.prefix_of_byteLength_le ⟨_, htexts⟩ hlength.le
  have hprefix' : above'.toList <+: above.toList :=
    Cursor.prefix_of_byteLength_le ⟨_, htexts.symm⟩ hlength.ge
  have habove : above.toList = above'.toList := hprefix.eq_of_length_le hprefix'.length_le
  rw [habove] at htexts
  exact ⟨String.toList_injective habove, String.toList_injective (List.append_cancel_left htexts)⟩

theorem parse_trailing_comma_of_lists :
    (∃ parsed again, parse "type A \x7b\x7d" = .ok parsed ∧ parse "type A \x7b,\x7d" = .ok again ∧
      parsed.Agrees Script.plain again) ∧
    ∃ parsed again, parseExpr "f(x)" = .ok parsed ∧ parseExpr "f(x,)" = .ok again ∧
      parsed.Agrees Expr.plain again := by
  constructor
  · -- A record type without fields.
    have htree : (parse "type A \x7b\x7d").map (fun parsed =>
        parsed.tree.slots parsed.names.text) =
          .ok ([.token Keyword.type_, .token (.name "A" false), .token Punct.lbrace] ++
            (commaSlots [] ++ [.token Punct.rbrace])) := by decide +kernel
    have htokens : tokenize "type A \x7b\x7d" =
        .ok ([⟨.keyword .type_, ⟨0, 4⟩⟩, ⟨.name "A" false, ⟨5, 6⟩⟩, ⟨.punct .lbrace, ⟨7, 8⟩⟩,
          ⟨.punct .rbrace, ⟨8, 9⟩⟩] ++ [Token.atEnd 9]) := by rfl
    cases hparsed : parse "type A \x7b\x7d" with
    | error error =>
        rw [hparsed] at htree
        cases htree
    | ok parsed =>
        rw [hparsed] at htree
        obtain ⟨tokens, hcommas⟩ := (parse_trailing_comma _).1 parsed hparsed
        obtain ⟨rfl, -⟩ :=
          List.append_inj' (Except.ok.inj (hcommas.tokenized.symm.trans htokens)) rfl
        have hfront : Spells ([.token Keyword.type_, .token (.name "A" false),
            .token Punct.lbrace] ++ joined .comma [])
            [⟨.keyword .type_, ⟨0, 4⟩⟩, ⟨.name "A" false, ⟨5, 6⟩⟩, ⟨.punct .lbrace, ⟨7, 8⟩⟩] :=
          .token rfl (.token rfl (.single rfl))
        obtain ⟨above, below, hsource, hstart, again, hagain, hagrees⟩ :=
          hcommas.comma _ _ _ _ _ rfl (.list (Except.ok.inj htree) (by decide) hfront rfl .nil)
        have hlength : byteLength "type A \x7b".toList = 8 := by decide
        obtain ⟨rfl, rfl⟩ : "type A \x7b" = above ∧ "\x7d" = below :=
          eq_of_cut hsource (hlength.trans hstart.symm)
        exact ⟨parsed, again, rfl, hagain, hagrees⟩
  · -- A call with an argument.
    have htree : (parseExpr "f(x)").map (fun parsed => parsed.tree.slots parsed.names.text) =
        .ok ([.token (.name "f" false), .token Punct.lparen] ++
          (commaSlots [[.token (.name "x" false)]] ++ [.token Punct.rparen])) := by decide +kernel
    have htokens : tokenize "f(x)" =
        .ok ([⟨.name "f" false, ⟨0, 1⟩⟩, ⟨.punct .lparen, ⟨1, 2⟩⟩, ⟨.name "x" false, ⟨2, 3⟩⟩,
          ⟨.punct .rparen, ⟨3, 4⟩⟩] ++ [Token.atEnd 4]) := by rfl
    cases hparsed : parseExpr "f(x)" with
    | error error =>
        rw [hparsed] at htree
        cases htree
    | ok parsed =>
        rw [hparsed] at htree
        obtain ⟨tokens, hcommas⟩ := (parse_trailing_comma _).2 parsed hparsed
        obtain ⟨rfl, -⟩ :=
          List.append_inj' (Except.ok.inj (hcommas.tokenized.symm.trans htokens)) rfl
        have hfront : Spells ([.token (.name "f" false), .token Punct.lparen] ++
            joined .comma [[.token (.name "x" false)]])
            [⟨.name "f" false, ⟨0, 1⟩⟩, ⟨.punct .lparen, ⟨1, 2⟩⟩, ⟨.name "x" false, ⟨2, 3⟩⟩] :=
          .token rfl (.token rfl (.single rfl))
        obtain ⟨above, below, hsource, hstart, again, hagain, hagrees⟩ :=
          hcommas.comma _ _ _ _ _ rfl (.list (Except.ok.inj htree) (by decide) hfront rfl .nil)
        have hlength : byteLength "f(x".toList = 3 := by decide
        obtain ⟨rfl, rfl⟩ : "f(x" = above ∧ ")" = below :=
          eq_of_cut hsource (hlength.trans hstart.symm)
        exact ⟨parsed, again, rfl, hagain, hagrees⟩

end FilterScript
