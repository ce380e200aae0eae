import FilterScript.Tree.Outline
import FilterScript.Token.Basic
import Mathlib.Data.List.Chain

/-!
# Trees over their tokens

A node covers a list of tokens when its span runs from the first of them to the
last and its children cover parts of them, one behind the other. Where the
tokens stand in order, every node below then sits inside the one above it and
behind the one before it.
-/

namespace FilterScript

/-- The tokens stand one behind the other, and none of them is empty. -/
structure InOrder (tokens : List Token) : Prop where
  nonempty : ∀ token ∈ tokens, token.span.start < token.span.stop
  ordered : tokens.Pairwise fun token later => token.span.stop ≤ later.span.start

theorem InOrder.of_append {front back : List Token} (h : InOrder (front ++ back)) :
    InOrder front ∧ InOrder back ∧
      ∀ token ∈ front, ∀ later ∈ back, token.span.stop ≤ later.span.start := by
  obtain ⟨hfront, hback, hacross⟩ := List.pairwise_append.mp h.ordered
  refine ⟨⟨fun token htoken => ?_, hfront⟩, ⟨fun token htoken => ?_, hback⟩, hacross⟩
  · exact h.nonempty token (List.mem_append_left _ htoken)
  · exact h.nonempty token (List.mem_append_right _ htoken)

/-- The span runs from the first of the tokens to the last, provided that they
stand in order. -/
def Span.Joins (span : Span) (tokens : List Token) : Prop :=
  ∃ first ∈ tokens.head?, ∃ last ∈ tokens.getLast?,
    InOrder tokens → span = ⟨first.span.start, last.span.stop⟩

namespace Span.Joins

variable {a b : Span} {front back tokens : List Token}

theorem single (token : Token) : token.span.Joins [token] :=
  ⟨token, rfl, token, rfl, fun _ => rfl⟩

/-- The ends of two spans, the second one behind the first. -/
theorem ends (h : a.Joins front) (mid : List Token) (h' : b.Joins back) :
    Span.Joins ⟨a.start, b.stop⟩ (front ++ (mid ++ back)) := by
  obtain ⟨first, hfirst, _, _, ha⟩ := h
  obtain ⟨_, _, last, hlast, hb⟩ := h'
  refine ⟨first, by simp [Option.mem_def.mp hfirst], last, by simp [Option.mem_def.mp hlast], ?_⟩
  intro horder
  obtain ⟨hfront, hrest, -⟩ := horder.of_append
  obtain ⟨-, hback, -⟩ := hrest.of_append
  rw [ha hfront, hb hback]

/-- The hull of two spans, the second one behind the first. -/
theorem hull (h : a.Joins front) (mid : List Token) (h' : b.Joins back) :
    (a.hull b).Joins (front ++ (mid ++ back)) := by
  obtain ⟨first, hfirst, last, hlast, hends⟩ := h.ends mid h'
  refine ⟨first, hfirst, last, hlast, fun horder => ?_⟩
  rw [← hends horder]
  obtain ⟨first, hfirst, last, hlast, ha⟩ := h
  obtain ⟨first', hfirst', last', hlast', hb⟩ := h'
  obtain ⟨hfront, hrest, hacross⟩ := horder.of_append
  obtain ⟨-, hback, -⟩ := hrest.of_append
  have hfirst := List.mem_of_mem_head? hfirst
  have hfirst' := List.mem_of_mem_head? hfirst'
  have hlast := List.mem_of_mem_getLast? hlast
  have hlast' := List.mem_of_mem_getLast? hlast'
  -- A hull takes the least start and the greatest end. These are the outer ones,
  -- since all of the first span is in front of all of the second.
  have hstart := hacross first hfirst first' (by simp [hfirst'])
  have hstop := hacross last hlast last' (by simp [hlast'])
  have := hfront.nonempty first hfirst
  have := hback.nonempty last' hlast'
  rw [ha hfront, hb hback]
  simp only [Span.hull, Span.mk.injEq]
  omega

/-- The hull of the first and the last token. They may be the same. -/
theorem of_tokens {first last : Token} (hfirst : first ∈ tokens.head?)
    (hlast : last ∈ tokens.getLast?) : (first.span.hull last.span).Joins tokens := by
  obtain ⟨front, hfront⟩ := List.getLast?_eq_some_iff.mp hlast
  obtain ⟨rest, rfl⟩ := List.head?_eq_some_iff.mp hfirst
  cases front with
  | nil =>
      obtain ⟨rfl, rfl⟩ := List.cons.inj hfront
      simpa [Span.hull] using single first
  | cons head mid =>
      obtain ⟨rfl, rfl⟩ := List.cons.inj hfront
      exact (single first).hull mid (single last)

end Span.Joins

namespace Outline

variable {σ ν : Type}

/-- What kind of node it is. -/
def tag : Outline σ ν → Tag σ ν
  | node tag _ _ => tag

/-- What is noted at a node. -/
def note : Outline σ ν → σ
  | node _ note _ => note

/-- The nodes right below a node. -/
def children : Outline σ ν → List (Outline σ ν)
  | node _ _ children => children

@[simp] theorem tag_node (tag : Tag σ ν) (note : σ) (children : List (Outline σ ν)) :
    (node tag note children).tag = tag := rfl

@[simp] theorem note_node (tag : Tag σ ν) (note : σ) (children : List (Outline σ ν)) :
    (node tag note children).note = note := rfl

@[simp] theorem children_node (tag : Tag σ ν) (note : σ) (children : List (Outline σ ν)) :
    (node tag note children).children = children := rfl

mutual

/-- The node itself and all nodes below it. -/
def subtrees : Outline σ ν → List (Outline σ ν)
  | node tag note children => node tag note children :: subtreesList children

def subtreesList : List (Outline σ ν) → List (Outline σ ν)
  | [] => []
  | outline :: rest => outline.subtrees ++ subtreesList rest

end

mutual

/-- The span of the node joins the tokens, and so it goes on below it. -/
def Covers : Outline Span ν → List Token → Prop
  | node _ span children, tokens => span.Joins tokens ∧ CoverIn children tokens

/-- The nodes cover parts of the tokens, one behind the other. -/
def CoverIn : List (Outline Span ν) → List Token → Prop
  | [], _ => True
  | outline :: rest, tokens => ∃ gap front back, tokens = gap ++ (front ++ back) ∧
      outline.Covers front ∧ CoverIn rest back

end

section

variable {outline : Outline Span ν} {outlines others : List (Outline Span ν)}
  {tokens front back : List Token}

theorem covers_node {tag : Tag Span ν} {span : Span} :
    (node tag span outlines).Covers tokens ↔ span.Joins tokens ∧ CoverIn outlines tokens := by
  rw [Covers]

theorem Covers.joins (h : outline.Covers tokens) : outline.note.Joins tokens := by
  obtain ⟨tag, span, children⟩ := outline
  exact (covers_node.mp h).1

@[simp] theorem coverIn_nil : CoverIn ([] : List (Outline Span ν)) tokens := by
  rw [CoverIn]
  trivial

/-- A node without children. -/
theorem covers_leaf {tag : Tag Span ν} {span : Span} (h : span.Joins tokens) :
    (node tag span []).Covers tokens :=
  covers_node.mpr ⟨h, coverIn_nil⟩

theorem CoverIn.skip (h : CoverIn outlines tokens) (gap : List Token) :
    CoverIn outlines (gap ++ tokens) := by
  match outlines with
  | [] => exact coverIn_nil
  | outline :: rest =>
    rw [CoverIn] at h ⊢
    obtain ⟨between, front, back, rfl, hfront, hback⟩ := h
    exact ⟨gap ++ between, front, back, by simp, hfront, hback⟩

theorem CoverIn.append (h : CoverIn outlines front) (h' : CoverIn others back) :
    CoverIn (outlines ++ others) (front ++ back) := by
  induction outlines generalizing front with
  | nil => exact h'.skip front
  | cons outline rest ih =>
      rw [CoverIn] at h
      obtain ⟨gap, before, behind, rfl, houtline, hrest⟩ := h
      rw [List.cons_append, CoverIn]
      exact ⟨gap, before, behind ++ back, by simp, houtline, ih hrest⟩

theorem CoverIn.trail (h : CoverIn outlines tokens) (more : List Token) :
    CoverIn outlines (tokens ++ more) := by
  have hmore : CoverIn ([] : List (Outline Span ν)) more := coverIn_nil
  simpa using h.append hmore

theorem Covers.cons (h : outline.Covers front) (h' : CoverIn outlines back) :
    CoverIn (outline :: outlines) (front ++ back) := by
  rw [CoverIn]
  exact ⟨[], front, back, rfl, h, h'⟩

theorem Covers.coverIn (h : outline.Covers tokens) : CoverIn [outline] tokens := by
  have hrest : CoverIn ([] : List (Outline Span ν)) [] := coverIn_nil
  simpa using h.cons hrest

end

/-! ## Where the tokens stand in order -/

/-- Children lie inside the span of their parent, and each one ends before the
next one starts. -/
structure Nests (outline : Outline Span ν) : Prop where
  inside : ∀ child ∈ outline.children,
    outline.note.start ≤ child.note.start ∧ child.note.stop ≤ outline.note.stop
  ordered : outline.children.IsChain fun child next => child.note.stop ≤ next.note.start

end Outline

/-- The span starts where one of the tokens starts and ends where one ends, with
something in between. -/
structure Span.Bounded (span : Span) (tokens : List Token) : Prop where
  nonempty : span.start < span.stop
  starts : ∃ token ∈ tokens, token.span.start = span.start
  ends : ∃ token ∈ tokens, token.span.stop = span.stop

theorem InOrder.first_le {tokens : List Token} (h : InOrder tokens) {first token : Token}
    (hfirst : first ∈ tokens.head?) (htoken : token ∈ tokens) :
    first.span.start ≤ token.span.start := by
  obtain ⟨rest, rfl⟩ := List.head?_eq_some_iff.mp hfirst
  rcases List.mem_cons.mp htoken with rfl | htoken
  · exact Nat.le_refl _
  · have hordered := (List.pairwise_cons.mp h.ordered).1 token htoken
    have hnonempty := h.nonempty first List.mem_cons_self
    omega

theorem InOrder.le_last {tokens : List Token} (h : InOrder tokens) {last token : Token}
    (hlast : last ∈ tokens.getLast?) (htoken : token ∈ tokens) :
    token.span.stop ≤ last.span.stop := by
  obtain ⟨front, rfl⟩ := List.getLast?_eq_some_iff.mp hlast
  rcases List.mem_append.mp htoken with htoken | htoken
  · have hordered := h.of_append.2.2 token htoken last List.mem_cons_self
    have hnonempty := h.nonempty last (List.mem_append_right _ List.mem_cons_self)
    omega
  · rw [List.mem_singleton.mp htoken]

namespace Span

variable {span : Span} {tokens others : List Token}

theorem Bounded.mono (h : span.Bounded tokens) (hsubset : tokens ⊆ others) :
    span.Bounded others where
  nonempty := h.nonempty
  starts := h.starts.imp fun _ => And.imp_left (@hsubset _)
  ends := h.ends.imp fun _ => And.imp_left (@hsubset _)

theorem Joins.bounded (h : span.Joins tokens) (horder : InOrder tokens) : span.Bounded tokens := by
  obtain ⟨first, hfirst, last, hlast, hspan⟩ := h
  obtain rfl := hspan horder
  have hmem := List.mem_of_mem_head? hfirst
  have hnonempty := horder.nonempty first hmem
  have hle := horder.le_last hlast hmem
  exact ⟨by simp only; omega, ⟨first, hmem, rfl⟩, ⟨last, List.mem_of_mem_getLast? hlast, rfl⟩⟩

/-- What starts and ends with tokens that a span joins is inside of it. -/
theorem Bounded.inside (h : span.Bounded tokens) {whole : Span} (hwhole : whole.Joins tokens)
    (horder : InOrder tokens) : whole.start ≤ span.start ∧ span.stop ≤ whole.stop := by
  obtain ⟨first, hfirst, last, hlast, hspan⟩ := hwhole
  obtain rfl := hspan horder
  obtain ⟨-, ⟨start, hstart, hstarts⟩, ⟨stop, hstop, hstops⟩⟩ := h
  rw [← hstarts, ← hstops]
  exact ⟨horder.first_le hfirst hstart, horder.le_last hlast hstop⟩

end Span

namespace Outline

variable {ν : Type}

/-- Nodes that cover parts of tokens in order start and end where tokens do, and
stand in order themselves. -/
theorem CoverIn.ordered {outlines : List (Outline Span ν)} {tokens : List Token}
    (h : CoverIn outlines tokens) (horder : InOrder tokens) :
    (∀ outline ∈ outlines, outline.note.Bounded tokens) ∧
      outlines.IsChain fun outline next => outline.note.stop ≤ next.note.start := by
  induction outlines generalizing tokens with
  | nil => exact ⟨by simp, .nil⟩
  | cons outline rest ih =>
      rw [CoverIn] at h
      obtain ⟨gap, front, back, rfl, houtline, hrest⟩ := h
      obtain ⟨-, horder, -⟩ := horder.of_append
      obtain ⟨hfront, hback, hacross⟩ := horder.of_append
      obtain ⟨hbounded, hchain⟩ := ih hrest hback
      have hfirst := houtline.joins.bounded hfront
      constructor
      · rintro other (_ | ⟨_, hother⟩)
        · exact hfirst.mono fun token htoken => by simp [htoken]
        · exact (hbounded other hother).mono fun token htoken => by simp [htoken]
      · -- A node ends with a token in front, the next one starts with a token behind.
        refine List.isChain_cons.mpr ⟨fun next hnext => ?_, hchain⟩
        obtain ⟨last, hlast, hstop⟩ := hfirst.ends
        obtain ⟨first, hmem, hstart⟩ := (hbounded next (List.mem_of_mem_head? hnext)).starts
        rw [← hstop, ← hstart]
        exact hacross last hlast first hmem

theorem Covers.nests {outline : Outline Span ν} {tokens : List Token} (h : outline.Covers tokens)
    (horder : InOrder tokens) : outline.Nests := by
  obtain ⟨tag, span, children⟩ := outline
  obtain ⟨hjoins, hchildren⟩ := covers_node.mp h
  obtain ⟨hbounded, hchain⟩ := hchildren.ordered horder
  exact ⟨fun child hchild => (hbounded child hchild).inside hjoins horder, hchain⟩

mutual

/-- Every node of a tree that covers tokens in order starts and ends where tokens
do, with its children in order inside of it. -/
theorem Covers.subtrees {outline : Outline Span ν} {tokens : List Token}
    (h : outline.Covers tokens) (horder : InOrder tokens) :
    ∀ node ∈ outline.subtrees, node.note.Bounded tokens ∧ node.Nests := by
  match outline with
  | node tag span children =>
    rw [Outline.subtrees]
    refine List.forall_mem_cons.mpr ⟨⟨h.joins.bounded horder, h.nests horder⟩, ?_⟩
    exact (covers_node.mp h).2.subtrees horder

theorem CoverIn.subtrees {outlines : List (Outline Span ν)} {tokens : List Token}
    (h : CoverIn outlines tokens) (horder : InOrder tokens) :
    ∀ node ∈ subtreesList outlines, node.note.Bounded tokens ∧ node.Nests := by
  match outlines with
  | [] => simp [subtreesList]
  | outline :: rest =>
    rw [CoverIn] at h
    obtain ⟨gap, front, back, rfl, houtline, hrest⟩ := h
    obtain ⟨-, horder, -⟩ := horder.of_append
    obtain ⟨hfront, hback, -⟩ := horder.of_append
    rw [subtreesList]
    refine List.forall_mem_append.mpr ⟨fun node hnode => ?_, fun node hnode => ?_⟩
    · obtain ⟨hbounded, hnests⟩ := houtline.subtrees hfront node hnode
      exact ⟨hbounded.mono fun token htoken => by simp [htoken], hnests⟩
    · obtain ⟨hbounded, hnests⟩ := hrest.subtrees hback node hnode
      exact ⟨hbounded.mono fun token htoken => by simp [htoken], hnests⟩

end

end Outline

end FilterScript
