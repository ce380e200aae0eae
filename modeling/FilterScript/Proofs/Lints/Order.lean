import FilterScript.Proofs.Layout.Scripts
import FilterScript.Proofs.Lints.Reports

/-!
# Warnings are the lints of the tree

The nodes of a tree end in the order in which they are read, and an odd node ends
behind all that is below it: the brace of a match and the mark of an optional type
belong to no other node. So the warnings of a parse are in the order of the ends of
their spans, and no two of them end at one place.
-/

namespace FilterScript

/-- The text that the warning is about ends inside of the span. -/
def Warning.EndsIn (warning : Warning) (span : Span) : Prop :=
  span.start < warning.span.stop ∧ warning.span.stop ≤ span.stop

/-- The warnings are listed by the ends of their spans, and no two end at one place. -/
def ByEnds (warnings : List Warning) : Prop :=
  warnings.Pairwise fun warning later => warning.span.stop < later.span.stop

namespace Outline

variable {ν : Type}

theorem span_of_lint? {node : Outline Span ν} {warning : Warning} (h : node.lint? = some warning) :
    warning.span = node.note := by
  unfold lint? at h
  split at h <;> cases h <;> rfl

/-- A node is not empty, its children are inside of it and in order, and where it is
odd, they all end in front of its end. -/
structure EndsLast (node : Outline Span ν) : Prop where
  nonempty : node.note.start < node.note.stop
  nests : node.Nests
  odd : node.lint?.isSome → ∀ child ∈ node.children, child.note.stop < node.note.stop

mutual

/-- The warnings of a node end inside of it, one after the other. -/
theorem reports_byEnds : (outline : Outline Span ν) →
    (∀ node ∈ outline.subtrees, node.EndsLast) →
      (∀ warning ∈ outline.reports, warning.EndsIn outline.note) ∧ ByEnds outline.reports
  | .node tag span children, h => by
      rw [subtrees] at h
      obtain ⟨hroot, hbelow⟩ := List.forall_mem_cons.mp h
      obtain ⟨hchildren, hordered⟩ := reportsList_byEnds children hbelow hroot.nests.ordered
      have hinside : ∀ warning ∈ reportsList children, warning.EndsIn span := by
        intro warning hwarning
        obtain ⟨child, hchild, hstart, hstop⟩ := hchildren warning hwarning
        obtain ⟨hfirst, hlast⟩ := hroot.nests.inside child hchild
        exact ⟨Nat.lt_of_le_of_lt hfirst hstart, Nat.le_trans hstop hlast⟩
      rw [reports]
      cases hlint : (node tag span children).lint? with
      | none => simpa using ⟨hinside, hordered⟩
      | some own =>
          obtain rfl : own.span = span := span_of_lint? hlint
          have hodd := hroot.odd (by simp [hlint])
          -- The warning of the node itself comes last.
          refine ⟨?_, List.pairwise_append.mpr ⟨hordered, List.pairwise_singleton _ _, ?_⟩⟩
          · refine List.forall_mem_append.mpr ⟨hinside, List.forall_mem_singleton.mpr ?_⟩
            exact ⟨hroot.nonempty, Nat.le_refl _⟩
          · intro warning hwarning later hlater
            obtain rfl := List.mem_singleton.mp hlater
            obtain ⟨child, hchild, -, hstop⟩ := hchildren warning hwarning
            exact Nat.lt_of_le_of_lt hstop (hodd child hchild)

/-- The warnings of nodes in order end inside of one of them each, one after the
other. -/
theorem reportsList_byEnds : (outlines : List (Outline Span ν)) →
    (∀ node ∈ subtreesList outlines, node.EndsLast) →
      outlines.IsChain (fun outline next => outline.note.stop ≤ next.note.start) →
        (∀ warning ∈ reportsList outlines, ∃ outline ∈ outlines, warning.EndsIn outline.note) ∧
          ByEnds (reportsList outlines)
  | [], _, _ => by simp [ByEnds]
  | outline :: rest, h, hchain => by
      have hnonempty : ∀ other ∈ outline :: rest, other.note.start < other.note.stop :=
        fun other hother =>
          (h other (mem_subtreesList.mpr ⟨other, hother, other.mem_subtrees_self⟩)).nonempty
      have hbehind := (List.pairwise_cons.mp (pairwise_of_isChain hnonempty hchain)).1
      rw [subtreesList] at h
      obtain ⟨hfirst, hothers⟩ := List.forall_mem_append.mp h
      obtain ⟨hinside, hordered⟩ := reports_byEnds outline hfirst
      obtain ⟨hrest, hrests⟩ := reportsList_byEnds rest hothers hchain.tail
      rw [reportsList]
      refine ⟨List.forall_mem_append.mpr ⟨fun warning hwarning => ?_, fun warning hwarning => ?_⟩,
        List.pairwise_append.mpr ⟨hordered, hrests, fun warning hwarning later hlater => ?_⟩⟩
      · exact ⟨outline, List.mem_cons_self, hinside warning hwarning⟩
      · obtain ⟨other, hother, hends⟩ := hrest warning hwarning
        exact ⟨other, List.mem_cons_of_mem _ hother, hends⟩
      · obtain ⟨other, hother, hstart, -⟩ := hrest later hlater
        have hstop := (hinside warning hwarning).2
        have horder := hbehind other hother
        omega

end

/-- Nodes that cover tokens in front of another one end in front of whatever that one
belongs to. -/
theorem CoverIn.stop_lt {outlines : List (Outline Span ν)} {front back : List Token} {mark : Token}
    {span : Span} (h : CoverIn outlines front) (hjoins : span.Joins (front ++ mark :: back))
    (horder : InOrder (front ++ mark :: back)) :
    ∀ outline ∈ outlines, outline.note.stop < span.stop := by
  intro outline houtline
  obtain ⟨hfront, hback, hacross⟩ := horder.of_append
  obtain ⟨token, htoken, hstop⟩ := ((h.ordered hfront).1 outline houtline).ends
  obtain ⟨first, _, last, hlast, hspan⟩ := hjoins
  have hle : mark.span.stop ≤ last.span.stop := horder.le_last hlast (by simp)
  have hbefore := hacross token htoken mark List.mem_cons_self
  have hnonempty := hback.nonempty mark List.mem_cons_self
  rw [hspan horder, ← hstop]
  exact Nat.lt_of_lt_of_le (Nat.lt_of_le_of_lt hbefore hnonempty) hle

namespace LaidOut

variable {names : Names} {tree node : Outline Span Symbol} {tokens : List Token}

/-- In a tree that is laid out a node ends last if it stands where tokens do. -/
theorem endsLast (h : tree.LaidOut names tokens) (hnode : node ∈ tree.subtrees)
    (hplaced : node.note.Bounded tokens ∧ node.Nests) : node.EndsLast := by
  refine ⟨hplaced.1.nonempty, hplaced.2, fun hodd => ?_⟩
  obtain ⟨part, hpart, harranged⟩ := h.exists_part hnode
  have horder := h.order.of_part hpart
  unfold lint? at hodd
  split at hodd
  next span scrutinee =>
    obtain ⟨hjoins, head, arms, hchildren, hbraces⟩ := harranged
    obtain ⟨front, inner, back, opening, closing, rfl, -, -, hfront, -⟩ := hbraces
    obtain ⟨rfl, -⟩ := List.cons.inj hchildren
    exact hfront.stop_lt hjoins horder
  next span inner note children =>
    obtain ⟨hjoins, front, mark, rfl, hfront⟩ := harranged
    exact hfront.stop_lt hjoins horder
  next => simp at hodd

theorem reports_byEnds (h : tree.LaidOut names tokens) : ByEnds tree.reports := by
  obtain ⟨tag, span, children⟩ := tree
  by_cases hscript : tag = .script
  · -- A script is not odd, and what is below it stands where tokens do.
    obtain rfl := hscript
    have hbelow : ∀ node ∈ subtreesList children, node.EndsLast := fun node hnode =>
      h.endsLast (List.mem_cons_of_mem _ hnode) (h.below.subtrees h.order node hnode)
    rw [reports_node rfl]
    exact (reportsList_byEnds children hbelow (h.below.ordered h.order).2).2
  · have hcovers := h.root hscript
    exact (Outline.reports_byEnds _ fun node hnode =>
      h.endsLast hnode (hcovers.subtrees h.order node hnode)).2

/-- Where warnings are given as the nodes end, they are the lints in order. -/
theorem warnings_perm (h : tree.LaidOut names tokens) {warnings : List Warning}
    (hreports : warnings = tree.reports) : warnings.Perm tree.lints ∧ ByEnds warnings :=
  hreports ▸ ⟨tree.reports_perm_lints, h.reports_byEnds⟩

end LaidOut

end Outline

/-- The warnings of an accepted source are the lints of its tree, each as often as the
tree has them, and they are listed by the ends of their spans. So are those of a source
that is one expression. -/
theorem warnings_perm_lints (source : String) :
    (∀ parsed, parse source = .ok parsed →
      parsed.warnings.Perm parsed.tree.outline.lints ∧ ByEnds parsed.warnings) ∧
    (∀ parsed, parseExpr source = .ok parsed →
      parsed.warnings.Perm parsed.tree.outline.lints ∧ ByEnds parsed.warnings) := by
  constructor
  · intro parsed hrun
    obtain ⟨tokens, -, hlaid⟩ := parse_laidOut hrun
    exact hlaid.warnings_perm (warnings_of_runOn Grammar.script_reports hrun)
  · intro parsed hrun
    obtain ⟨tokens, -, hlaid⟩ := parseExpr_laidOut hrun
    exact hlaid.warnings_perm (warnings_of_runOn Grammar.loneExpr_reports hrun)

theorem warnings_perm_lints_of_question_marks :
    ∃ parsed, parse "fn a(b: C???) \x7b match d \x7b \x7d \x7d" = .ok parsed ∧
      parsed.warnings.Perm parsed.tree.outline.lints ∧ ByEnds parsed.warnings := by
  have haccepted : (parse "fn a(b: C???) \x7b match d \x7b \x7d \x7d").toBool = true := by
    decide +kernel
  cases hparsed : parse "fn a(b: C???) \x7b match d \x7b \x7d \x7d" with
  | ok parsed => exact ⟨parsed, rfl, (warnings_perm_lints _).1 parsed hparsed⟩
  | error error => simp [hparsed, Except.toBool] at haccepted

end FilterScript
