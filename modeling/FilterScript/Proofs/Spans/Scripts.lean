import FilterScript.Proofs.Scanning.Tiling
import FilterScript.Proofs.Spans.Expressions
import FilterScript.Proofs.Steady

/-!
# Every span is well placed

The tokens of a source stand in order, so in an accepted source every node starts
and ends where tokens do, inside the node above it and behind the one before it.
Only the script itself reaches on to the end of the source.
-/

namespace FilterScript

/-- The tokens of a source stand in order, and none goes beyond its end. -/
theorem inOrder_of_scans {source : String} {tokens : List Token}
    (h : (Stream.ofSource source).scans = tokens.map .ok) :
    InOrder tokens ∧ ∀ token ∈ tokens, token.span.stop ≤ byteLength source.toList := by
  have htiling := Stream.ofSource_tiling source
  rw [h] at htiling
  obtain ⟨hordered, -, hend⟩ := List.pairwise_append.mp htiling.ordered
  refine ⟨⟨fun token htoken => ?_, ?_⟩, fun token htoken => ?_⟩
  · exact htiling.nonempty (.ok token) (List.mem_map_of_mem htoken)
  · exact (List.pairwise_map.mp hordered).imp And.right
  · exact (hend (.ok token) (List.mem_map_of_mem htoken) _ List.mem_cons_self).2

namespace Grammar

open Parse Outline

variable {final : Names} {records : Bool} {input : List Scan}

theorem script_covered :
    Reads final records input script fun script taken rest =>
      (CoverIn script.outline.children taken ∧
        ∀ first ∈ taken.head?, script.span.start ≤ first.span.start) ∧ Next .endOfFile rest := by
  refine .bind_peek fun first hfirst => ?_
  have hitems : Reads final records input (repeated itemRound []) fun items taken rest =>
      CoverIn (items.map Item.outline) taken ∧ Next .endOfFile rest := by
    refine .repeated (fun items taken _ => CoverIn (items.map Item.outline) taken)
      coverIn_nil fun items taken rest hitems => ?_
    refine .bind_nextIs (fun hend => .pure ?_) fun _ => ?_
    · simpa using ⟨hitems, hend⟩
    · refine .bind (item_covered records rest) fun item more rest _ hitem => .pure ?_
      simpa using hitems.append hitem.coverIn
  refine .bind hitems ?_
  rintro items taken rest rfl ⟨hitems, hend⟩
  refine .bind_peek fun stop _ => .pure ⟨⟨by simpa [Script.outline] using hitems, ?_⟩, hend⟩
  intro head hhead
  rw [List.append_nil] at hhead
  have hmem := hfirst.mem_head? (by rintro rfl; cases hhead)
  obtain rfl : first = head := Option.some.inj (hmem.symm.trans hhead)
  exact Nat.min_le_left _ _

theorem loneExpr_covered :
    Reads final records input loneExpr fun expr taken rest =>
      expr.outline.Covers taken ∧ Next .endOfFile rest := by
  refine .bind (expr_covered records input) fun value taken rest _ hvalue => ?_
  refine .bind_accepts (fun hend => .pure ?_) fun _ => .refuse
  simpa using ⟨hvalue, hend⟩

end Grammar

/-- A script reaches to the end of its source, whatever stands behind its last
item. -/
theorem span_stop_of_runOn {source : String} {limit : Option Nat}
    {parsed : Parsed (Script Span Symbol)} (h : runOn Grammar.script limit source = .ok parsed) :
    parsed.tree.span.stop = byteLength source.toList := by
  unfold runOn at h
  split at h
  next tree after hrun =>
    cases h
    obtain ⟨taken, hscans, _, _, _, hend⟩ :=
      Grammar.script_reads (State.ofSource limit source) tree after rfl rfl (.refl _) hrun
    have hrest := eq_nil_of_next_endOfFile hscans hend
    obtain ⟨first, _, hfirst, hrun⟩ := Parse.bind_eq_ok_iff.mp hrun
    obtain ⟨items, between, hitems, hrun⟩ := Parse.bind_eq_ok_iff.mp hrun
    obtain ⟨stop, _, hstop, hrun⟩ := Parse.bind_eq_ok_iff.mp hrun
    cases hrun
    obtain ⟨-, rfl⟩ := Parse.peekAt_eq_ok_iff.mp hfirst
    obtain ⟨hshown, rfl⟩ := Parse.peekAt_eq_ok_iff.mp hstop
    unfold Stream.lookahead at hshown
    rw [hrest] at hshown
    cases hshown
    exact (Parse.Steady.follows hitems).length
  next => cases h

/-- A span from the start of one token of a source to the end of one, with some
text in between, and not beyond the end of the source. -/
structure Span.WellPlaced (span : Span) (source : String) (tokens : List Token) : Prop
    extends span.Bounded tokens where
  stop_le : span.stop ≤ byteLength source.toList

namespace Outline

variable {ν : Type} {source : String} {tokens : List Token}

theorem CoverIn.wellPlaced {outlines : List (Outline Span ν)} (h : CoverIn outlines tokens)
    (hscans : (Stream.ofSource source).scans = tokens.map .ok) :
    ∀ node ∈ subtreesList outlines, node.note.WellPlaced source tokens ∧ node.Nests := by
  obtain ⟨horder, hlength⟩ := inOrder_of_scans hscans
  intro node hnode
  obtain ⟨hbounded, hnests⟩ := h.subtrees horder node hnode
  obtain ⟨last, hlast, hstop⟩ := hbounded.ends
  exact ⟨⟨hbounded, hstop ▸ hlength last hlast⟩, hnests⟩

/-- A node without a place of its own still nests if it starts no later than the
tokens that its children cover and ends no earlier. -/
theorem CoverIn.nests {outline : Outline Span ν} (h : CoverIn outline.children tokens)
    (horder : InOrder tokens) (hstart : ∀ first ∈ tokens.head?, outline.note.start ≤ first.span.start)
    (hstop : ∀ token ∈ tokens, token.span.stop ≤ outline.note.stop) : outline.Nests := by
  obtain ⟨hbounded, hchain⟩ := h.ordered horder
  refine ⟨fun child hchild => ?_, hchain⟩
  obtain ⟨-, ⟨token, htoken, hstarts⟩, ⟨last, hlast, hends⟩⟩ := hbounded child hchild
  rw [← hstarts, ← hends]
  refine ⟨?_, hstop last hlast⟩
  match tokens, hstart with
  | first :: _, hstart => exact Nat.le_trans (hstart first rfl) (horder.first_le rfl htoken)

end Outline

/-- In the tree of every accepted source all nodes but the script itself are well
placed, and all nodes have their children inside and in order. The script ends
where the source does. -/
theorem parse_spans_wellPlaced (source : String) :
    (∀ parsed, parse source = .ok parsed →
      ∃ tokens, tokenize source = .ok (tokens ++ [Token.atEnd (byteLength source.toList)]) ∧
        (∀ node ∈ parsed.tree.outline.subtrees, node.Nests) ∧
        (∀ node ∈ Outline.subtreesList parsed.tree.outline.children,
          node.note.WellPlaced source tokens) ∧
        parsed.tree.outline.note.stop = byteLength source.toList) ∧
    (∀ parsed, parseExpr source = .ok parsed →
      ∃ tokens, tokenize source = .ok (tokens ++ [Token.atEnd (byteLength source.toList)]) ∧
        ∀ node ∈ parsed.tree.outline.subtrees, node.Nests ∧ node.note.WellPlaced source tokens) := by
  constructor
  · intro parsed hrun
    obtain ⟨tokens, hscans, hcovers, hstart⟩ :=
      runOn_reads (fun _ _ => Grammar.script_covered) hrun
    obtain ⟨horder, hlength⟩ := inOrder_of_scans hscans
    have hstop := span_stop_of_runOn hrun
    have hnodes := hcovers.wellPlaced hscans
    have hroot : parsed.tree.outline.Nests :=
      hcovers.nests horder hstart fun token htoken => hstop ▸ hlength token htoken
    refine ⟨tokens, tokenize_of_scans hscans, ?_, fun node hnode => (hnodes node hnode).1, hstop⟩
    refine List.forall_mem_cons.mpr ⟨hroot, fun node hnode => (hnodes node ?_).2⟩
    simpa [Script.outline] using hnode
  · intro parsed hrun
    obtain ⟨tokens, hscans, hcovers⟩ := runOn_reads (fun _ _ => Grammar.loneExpr_covered) hrun
    refine ⟨tokens, tokenize_of_scans hscans, fun node hnode => ?_⟩
    have hsubtrees : node ∈ Outline.subtreesList [parsed.tree.outline] := by
      simpa [Outline.subtreesList] using hnode
    exact (hcovers.coverIn.wellPlaced hscans node hsubtrees).symm

theorem parse_spans_wellPlaced_of_match :
    ∃ parsed, parse "test a \x7b match b \x7b C(d) -> 1, \x7d \x7d #" = .ok parsed ∧
      ∃ tokens,
        tokenize "test a \x7b match b \x7b C(d) -> 1, \x7d \x7d #" =
          .ok (tokens ++ [Token.atEnd 35]) ∧
        (∀ node ∈ parsed.tree.outline.subtrees, node.Nests) ∧
        (∀ node ∈ Outline.subtreesList parsed.tree.outline.children,
          node.note.WellPlaced "test a \x7b match b \x7b C(d) -> 1, \x7d \x7d #" tokens) ∧
        parsed.tree.outline.note.stop = 35 := by
  have haccepted :
      (parse "test a \x7b match b \x7b C(d) -> 1, \x7d \x7d #").toBool = true := by decide +kernel
  cases hparsed : parse "test a \x7b match b \x7b C(d) -> 1, \x7d \x7d #" with
  | ok parsed => exact ⟨parsed, rfl, (parse_spans_wellPlaced _).1 parsed hparsed⟩
  | error error => simp [hparsed, Except.toBool] at haccepted

end FilterScript
