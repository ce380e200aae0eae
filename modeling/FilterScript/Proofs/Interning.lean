import FilterScript.Proofs.Layout.Scripts
import Mathlib.Data.List.Nodup

/-!
# The table of names

The table holds the texts of the name tokens of a source, each once, in the order in
which they come up first. A symbol of the tree therefore stands for the text of its
token, and for no other: names of the tree are the same just if they are written the
same, escaped or not.
-/

namespace FilterScript

/-- The text of a name, without the mark that escapes it. -/
def Token.name? (token : Token) : Option String :=
  match token.kind with
  | .name text _ => some text
  | _ => none

namespace Names

theorem intern_texts (names : Names) (text : String) :
    (names.intern text).2.texts =
      if text ∈ names.texts then names.texts else names.texts ++ [text] := by
  unfold intern
  split
  next index hindex =>
    obtain ⟨hlt, htext, -⟩ := List.idxOf?_eq_some_iff.mp hindex
    rw [if_pos (htext ▸ List.getElem_mem hlt)]
  next hnone => rw [if_neg (List.idxOf?_eq_none_iff.mp hnone)]

/-- Entering a token enters its name, if it is one. -/
theorem enter_singleton (names : Names) (token : Token) :
    (names.enter [.ok token]).texts =
      match token.name? with
      | some text => if text ∈ names.texts then names.texts else names.texts ++ [text]
      | none => names.texts := by
  obtain ⟨kind, span⟩ := token
  cases kind with
  | name text raw => exact names.intern_texts text
  | _ => rfl

/-- The table once all tokens are entered: each name once, as it comes up first. -/
theorem enter_texts (tokens : List Token) :
    (empty.enter (tokens.map .ok)).texts = (tokens.filterMap Token.name?).eraseDups := by
  -- A name counts as new or not by those in front of it, so the last token is split off.
  induction tokens using List.reverseRecOn with
  | nil => rfl
  | append_singleton tokens token ih =>
      rw [List.map_append, enter_append, List.map_singleton, enter_singleton, ih,
        List.filterMap_append, List.eraseDups_append]
      generalize tokens.filterMap Token.name? = texts
      cases hname : token.name? with
      | none => simp [hname]
      | some text =>
          by_cases hmem : text ∈ texts <;>
            simp [hname, hmem, List.removeAll, List.eraseDups_cons]

theorem nodup_enter {names : Names} (h : names.texts.Nodup) (input : List Scan) :
    (names.enter input).texts.Nodup := by
  fun_induction names.enter input with
  | case1 => exact h
  | case2 names text raw span rest ih =>
      refine ih ?_
      rw [intern_texts]
      split
      next => exact h
      next htext =>
        refine List.nodup_append.mpr ⟨h, List.nodup_singleton _, fun other hother => ?_⟩
        simpa using fun heq : other = text => htext (heq ▸ hother)
  | case3 names scan rest hscan ih => exact ih h

/-- In a table without repetitions only one symbol stands for a text. -/
theorem text?_inj {names : Names} (h : names.texts.Nodup) {symbol other : Symbol} {text : String}
    (hsymbol : names.text? symbol = some text) (hother : names.text? other = some text) :
    symbol = other := by
  obtain ⟨hlt, htext⟩ := List.getElem?_eq_some_iff.mp hsymbol
  obtain ⟨hlt', htext'⟩ := List.getElem?_eq_some_iff.mp hother
  obtain ⟨index⟩ := symbol
  obtain ⟨index'⟩ := other
  exact congrArg Symbol.mk (h.getElem_inj_iff.mp (htext.trans htext'.symm))

end Names

/-- The table has the names among the tokens, and the names of the tree are those. -/
structure Outline.Interned (names : Names) (tree : Outline Span Symbol) (tokens : List Token) :
    Prop where
  /-- The texts of the table are those of the name tokens, in the order in which they
  come up first. -/
  texts : names.texts = (tokens.filterMap Token.name?).eraseDups
  /-- A name of the tree stands for the text of the token in its place, and it is
  escaped just if that token is. -/
  resolves : ∀ ident : Ident Span Symbol, ident.outline ∈ tree.subtrees →
    ∃ token ∈ tokens, token.span = ident.span ∧
      ∃ text, token.kind = .name text ident.raw ∧ names.text? ident.name = some text
  /-- Names of the tree with the same text have the same symbol, and others do not. -/
  exact : ∀ ident other : Ident Span Symbol, ident.outline ∈ tree.subtrees →
    other.outline ∈ tree.subtrees →
      (ident.name = other.name ↔ names.text? ident.name = names.text? other.name)

theorem Outline.LaidOut.interned {names : Names} {tree : Outline Span Symbol} {tokens : List Token}
    (h : tree.LaidOut names tokens) : tree.Interned names tokens := by
  have hresolves : ∀ ident : Ident Span Symbol, ident.outline ∈ tree.subtrees →
      ∃ token ∈ tokens, token.span = ident.span ∧
        ∃ text, token.kind = .name text ident.raw ∧ names.text? ident.name = some text := by
    intro ident hident
    obtain ⟨part, hpart, token, text, rfl, hkind, hspan, htext⟩ := h.exists_part hident
    exact ⟨token, hpart.subset List.mem_cons_self, hspan, text, hkind, htext⟩
  have hnodup : names.texts.Nodup := h.names_eq ▸ Names.nodup_enter List.nodup_nil _
  refine ⟨?_, hresolves, fun ident other hident hother => ⟨fun heq => by rw [heq], fun heq => ?_⟩⟩
  · rw [h.names_eq, Names.enter_texts]
  · obtain ⟨_, _, _, text, _, htext⟩ := hresolves ident hident
    exact Names.text?_inj hnodup htext (heq ▸ htext)

/-- In every accepted source the table of names is exact, and so it is in a source that
is one expression. -/
theorem parse_interned (source : String) :
    (∀ parsed, parse source = .ok parsed →
      ∃ tokens, tokenize source = .ok (tokens ++ [Token.atEnd (byteLength source.toList)]) ∧
        InOrder tokens ∧ parsed.tree.outline.Interned parsed.names tokens) ∧
    (∀ parsed, parseExpr source = .ok parsed →
      ∃ tokens, tokenize source = .ok (tokens ++ [Token.atEnd (byteLength source.toList)]) ∧
        InOrder tokens ∧ parsed.tree.outline.Interned parsed.names tokens) := by
  constructor
  · intro parsed hrun
    obtain ⟨tokens, hscans, hlaid⟩ := parse_laidOut hrun
    exact ⟨tokens, tokenize_of_scans hscans, hlaid.order, hlaid.interned⟩
  · intro parsed hrun
    obtain ⟨tokens, hscans, hlaid⟩ := parseExpr_laidOut hrun
    exact ⟨tokens, tokenize_of_scans hscans, hlaid.order, hlaid.interned⟩

theorem parse_interned_of_repetition :
    ∃ parsed, parse "test a \x7b b.r#a; b; \x7d" = .ok parsed ∧
      ∃ tokens, tokenize "test a \x7b b.r#a; b; \x7d" = .ok (tokens ++ [Token.atEnd 20]) ∧
        InOrder tokens ∧ parsed.tree.outline.Interned parsed.names tokens := by
  have haccepted : (parse "test a \x7b b.r#a; b; \x7d").toBool = true := by decide +kernel
  cases hparsed : parse "test a \x7b b.r#a; b; \x7d" with
  | ok parsed => exact ⟨parsed, rfl, (parse_interned _).1 parsed hparsed⟩
  | error error => simp [hparsed, Except.toBool] at haccepted

end FilterScript
