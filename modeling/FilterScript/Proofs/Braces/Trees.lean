import FilterScript.Proofs.Parts
import FilterScript.Proofs.Reads

/-!
# Paths in front of braces

A path with a brace behind it is the beginning of a record, unless it is the end of
a condition or scrutinee. Then the brace opens the body behind it. Of each node this
says something about its place among the tokens, and it is said in the same way of
single nodes, of lists of nodes and of expressions that may end in front of a brace.
-/

namespace FilterScript

variable {σ ν : Type}

/-- Whether the node is a record, be it with its type or without. -/
def Tag.isRecord : Tag σ ν → Bool
  | .recordExpr | .typedRecord => true
  | _ => false

/-- Whether neither the braces behind a node nor those in it need to be told
apart. -/
def Tag.isSettled : Tag σ ν → Bool
  | .pathExpr | .typedRecord | .conditional | .loop | .select => false
  | _ => true

namespace Outline

/-- The condition of a conditional or loop, or the scrutinee of a match. -/
def head? : Outline σ ν → Option (Outline σ ν)
  | node .conditional _ children | node .loop _ children | node .select _ children =>
      children.head?
  | _ => none

mutual

/-- The node itself and what can be reached below it without passing through
parentheses, an argument of a call, a block or an arm of a match. -/
def exposed : Outline σ ν → List (Outline σ ν)
  | node tag note children =>
      node tag note children ::
        match tag with
        | .paren | .block _ | .arm _ _ => []
        | .call => exposedCallee children
        | _ => exposedList children

def exposedCallee : List (Outline σ ν) → List (Outline σ ν)
  | [] => []
  | callee :: _ => callee.exposed

def exposedList : List (Outline σ ν) → List (Outline σ ν)
  | [] => []
  | outline :: rest => outline.exposed ++ exposedList rest

end

/-- No record is exposed. -/
def RecordFree (outline : Outline σ ν) : Prop :=
  ∀ reached ∈ outline.exposed, reached.tag.isRecord = false

/-- Nothing in the outline is about braces: it has no record, no path that is an
expression and nothing with a condition or scrutinee. -/
def Plain (outline : Outline σ ν) : Prop :=
  ∀ node ∈ outline.subtrees, node.tag.isSettled = true ∧ node.tag.isRecord = false

/-- The brace opens the body of the node: the block of a conditional or loop begins
with it. In a match it stands between the scrutinee and the arms. -/
def BodyOpens (brace : Token) : Outline Span ν → Prop
  | node .conditional _ (_ :: body :: _) | node .loop _ (_ :: body :: _) =>
      body.note.start = brace.span.start
  | node .select span (scrutinee :: arms) =>
      scrutinee.note.stop ≤ brace.span.start ∧ brace.span.stop ≤ span.stop ∧
        ∀ arm ∈ arms, brace.span.stop ≤ arm.note.start
  | _ => False

end Outline

/-! ## What stands behind a place -/

/-- What comes behind the token that ends at a place. -/
def Behind (scans : List Scan) (place : Nat) (rest : List Scan) : Prop :=
  ∃ front last, scans = front ++ .ok last :: rest ∧ last.span.stop = place

theorem Behind.mono {scans others rest : List Scan} {place : Nat} (h : Behind scans place rest)
    (hsuffix : scans <:+ others) : Behind others place rest := by
  obtain ⟨front, last, rfl, hplace⟩ := h
  obtain ⟨before, rfl⟩ := hsuffix
  exact ⟨before ++ front, last, by simp, hplace⟩

/-- The last of the tokens taken stands in front of what is left. -/
theorem behind_of_getLast? {tokens : List Token} {rest : List Scan} {last : Token}
    (h : last ∈ tokens.getLast?) : Behind (tokens.map .ok ++ rest) last.span.stop rest := by
  obtain ⟨front, rfl⟩ := List.getLast?_eq_some_iff.mp h
  exact ⟨front.map .ok, last, by simp, rfl⟩

theorem InOrder.of_part {tokens whole : List Token} (h : InOrder whole)
    (hpart : tokens <:+: whole) : InOrder tokens := by
  obtain ⟨front, back, rfl⟩ := hpart
  exact h.of_append.1.of_append.2.1

theorem InOrder.stop_lt {tokens : List Token} {front mid back : List Scan} {token later : Token}
    (horder : InOrder tokens)
    (h : tokens.map .ok = front ++ .ok token :: (mid ++ .ok later :: back)) :
    token.span.stop < later.span.stop := by
  obtain ⟨first, others, rfl, -, hothers⟩ := List.map_eq_append_iff.mp h
  obtain ⟨found, others, rfl, hfound, hbehind⟩ := List.map_eq_cons_iff.mp hothers
  obtain ⟨gap, others, rfl, -, hlast⟩ := List.map_eq_append_iff.mp hbehind
  obtain ⟨last, others, rfl, hlater, -⟩ := List.map_eq_cons_iff.mp hlast
  cases hfound
  cases hlater
  obtain ⟨-, horder, -⟩ := horder.of_append
  have hstart := (List.pairwise_cons.mp horder.ordered).1 later (by simp)
  have hnonempty := horder.nonempty later (by simp)
  omega

/-- In order, no two tokens end at the same place. -/
theorem Behind.unique {tokens : List Token} {place : Nat} {rest others : List Scan}
    (horder : InOrder tokens) (h : Behind (tokens.map .ok) place rest)
    (h' : Behind (tokens.map .ok) place others) : rest = others := by
  obtain ⟨front, last, hscans, hplace⟩ := h
  obtain ⟨front', last', hscans', hplace'⟩ := h'
  rcases List.append_eq_append_iff.mp (hscans.symm.trans hscans') with
    ⟨mid, rfl, hmid⟩ | ⟨mid, rfl, hmid⟩
  · cases mid with
    | nil => exact (List.cons.inj hmid).2
    | cons scan mid =>
        obtain ⟨rfl, rfl⟩ := List.cons.inj hmid
        have hlt := horder.stop_lt hscans
        omega
  · cases mid with
    | nil => exact (List.cons.inj hmid).2.symm
    | cons scan mid =>
        obtain ⟨rfl, rfl⟩ := List.cons.inj hmid
        have hlt := horder.stop_lt hscans'
        omega

theorem next_cons_iff {kind : Kind} {token : Token} {rest : List Scan} :
    Next kind (.ok token :: rest) ↔ token.kind.variant = kind.variant := by
  constructor
  · rintro ⟨shown, hshown, hkind⟩
    rwa [show shown = token from hshown] at hkind
  · exact fun h => ⟨token, rfl, h⟩

namespace Outline

/-- What is asked of a node of a tree with these nodes. No record is exposed in a
condition or scrutinee. A path that is an expression has no brace behind it, or is
exposed in a condition or scrutinee, and then the brace opens the body behind that.
Behind the path of a record stands the brace that opens its fields. -/
structure Settled (nodes : List (Outline Span ν)) (scans : List Scan) (node : Outline Span ν) :
    Prop where
  head : ∀ head ∈ node.head?, head.RecordFree
  path : node.tag = .pathExpr →
    (∃ rest, Behind scans node.note.stop rest ∧ ¬ Next Punct.lbrace rest) ∨
      ∃ owner ∈ nodes, ∃ head ∈ owner.head?, ∃ brace rest,
        Behind scans node.note.stop (.ok brace :: rest) ∧ brace.kind = Punct.lbrace ∧
        owner.BodyOpens brace ∧ node ∈ head.exposed
  record : node.tag = .typedRecord → ∃ path fields, node.children = [path, fields] ∧
    ∃ brace rest, Behind scans path.note.stop (.ok brace :: rest) ∧
      brace.kind = Punct.lbrace ∧ fields.note.start = brace.span.start

/-- All nodes are settled where tokens were taken for them and this is left, apart
from those that are spared. -/
def SettledBut (spare : Outline Span ν → Prop) (outlines : List (Outline Span ν))
    (tokens : List Token) (rest : List Scan) : Prop :=
  InOrder tokens → ∀ node ∈ subtreesList outlines,
    spare node ∨ node.Settled (subtreesList outlines) (tokens.map .ok ++ rest)

/-- All nodes are settled. -/
abbrev SettledIn (outlines : List (Outline Span ν)) (tokens : List Token) (rest : List Scan) :
    Prop :=
  SettledBut (fun _ => False) outlines tokens rest

/-- The path is exposed at the very end of an expression in front of a brace that
opens no record. -/
def Waits (records : Bool) (outline : Outline Span ν) (tokens : List Token) (rest : List Scan)
    (node : Outline Span ν) : Prop :=
  records = false ∧ Next Punct.lbrace rest ∧ node.tag = .pathExpr ∧ node ∈ outline.exposed ∧
    ∃ last ∈ tokens.getLast?, last.span.stop = node.note.stop

/-- What is known of an expression that was read with braces opening records or not
as told. -/
structure Reading (records : Bool) (outline : Outline Span ν) (tokens : List Token)
    (rest : List Scan) : Prop where
  free : records = false → outline.RecordFree
  settled : SettledBut (Waits records outline tokens rest) [outline] tokens rest

/-! ## Lists of nodes -/

section

variable {spare spare' : Outline Span ν → Prop} {outline : Outline Span ν}
  {outlines others nodes nodes' : List (Outline Span ν)} {tokens front back : List Token}
  {rest scans scans' : List Scan}

theorem Settled.mono (h : outline.Settled nodes scans) (hnodes : nodes ⊆ nodes')
    (hscans : scans <:+ scans') : outline.Settled nodes' scans' where
  head := h.head
  path hpath := by
    rcases h.path hpath with
      ⟨rest, hbehind, hno⟩ | ⟨owner, howner, head, hhead, brace, rest, hbehind, h⟩
    · exact .inl ⟨rest, hbehind.mono hscans, hno⟩
    · exact .inr ⟨owner, hnodes howner, head, hhead, brace, rest, hbehind.mono hscans, h⟩
  record hrecord := by
    obtain ⟨path, fields, hchildren, brace, rest, hbehind, h⟩ := h.record hrecord
    exact ⟨path, fields, hchildren, brace, rest, hbehind.mono hscans, h⟩

theorem head?_of_isSettled (h : outline.tag.isSettled = true) : outline.head? = none := by
  unfold head?
  split <;> first | rfl | cases h

theorem settled_of_isSettled (h : outline.tag.isSettled = true) : outline.Settled nodes scans where
  head head hhead := by
    rw [head?_of_isSettled h] at hhead
    cases hhead
  path hpath := by
    rw [hpath] at h
    cases h
  record hrecord := by
    rw [hrecord] at h
    cases h

theorem head?_of_path (h : outline.tag = .pathExpr) : outline.head? = none := by
  obtain ⟨tag, note, children⟩ := outline
  obtain rfl : tag = .pathExpr := h
  rfl

theorem head?_of_typedRecord (h : outline.tag = .typedRecord) : outline.head? = none := by
  obtain ⟨tag, note, children⟩ := outline
  obtain rfl : tag = .typedRecord := h
  rfl

theorem settled_of_head? {head : Outline Span ν} (h : outline.head? = some head)
    (hfree : head.RecordFree) : outline.Settled nodes scans where
  head other hother := by
    rw [h] at hother
    exact Option.mem_some.mp hother ▸ hfree
  path hpath := by
    rw [head?_of_path hpath] at h
    cases h
  record hrecord := by
    rw [head?_of_typedRecord hrecord] at h
    cases h

theorem settled_of_path (htag : outline.tag = .pathExpr)
    (h : (∃ rest, Behind scans outline.note.stop rest ∧ ¬ Next Punct.lbrace rest) ∨
      ∃ owner ∈ nodes, ∃ head ∈ owner.head?, ∃ brace rest,
        Behind scans outline.note.stop (.ok brace :: rest) ∧ brace.kind = Punct.lbrace ∧
        owner.BodyOpens brace ∧ outline ∈ head.exposed) : outline.Settled nodes scans where
  head head hhead := by
    rw [head?_of_path htag] at hhead
    cases hhead
  path _ := h
  record hrecord := by
    rw [htag] at hrecord
    cases hrecord

theorem settled_of_typedRecord {path fields : Outline Span ν} {brace : Token}
    (htag : outline.tag = .typedRecord) (hchildren : outline.children = [path, fields])
    (hbehind : Behind scans path.note.stop (.ok brace :: rest)) (hbrace : brace.kind = Punct.lbrace)
    (hopens : fields.note.start = brace.span.start) : outline.Settled nodes scans where
  head head hhead := by
    rw [head?_of_typedRecord htag] at hhead
    cases hhead
  path hpath := by
    rw [htag] at hpath
    cases hpath
  record _ := ⟨path, fields, hchildren, brace, rest, hbehind, hbrace, hopens⟩

theorem SettledBut.mono (h : SettledBut spare outlines tokens rest)
    (hspare : ∀ node, spare node → spare' node) : SettledBut spare' outlines tokens rest :=
  fun horder node hnode => (h horder node hnode).imp_left (hspare node)

theorem SettledIn.loosen (h : SettledIn outlines tokens rest) :
    SettledBut spare outlines tokens rest :=
  SettledBut.mono h fun _ => False.elim

theorem SettledBut.nil : SettledBut spare [] tokens rest := by
  intro _ node hnode
  simp [subtreesList] at hnode

theorem SettledBut.append (h : SettledBut spare outlines front (back.map .ok ++ rest))
    (h' : SettledBut spare others back rest) :
    SettledBut spare (outlines ++ others) (front ++ back) rest := by
  intro horder node hnode
  obtain ⟨hfront, hback, -⟩ := horder.of_append
  have hscans : (front ++ back).map Except.ok ++ rest =
      front.map .ok ++ (back.map .ok ++ rest) := by simp
  rw [subtreesList_append] at hnode ⊢
  rw [hscans]
  rcases List.mem_append.mp hnode with hnode | hnode
  · exact (h hfront node hnode).imp_right fun hsettled =>
      hsettled.mono (List.subset_append_left _ _) (List.suffix_refl _)
  · exact (h' hback node hnode).imp_right fun hsettled =>
      hsettled.mono (List.subset_append_right _ _) (List.suffix_append _ _)

theorem SettledBut.skip (h : SettledBut spare outlines tokens rest) (gap : List Token) :
    SettledBut spare outlines (gap ++ tokens) rest := by
  have hgap : SettledBut spare [] gap (tokens.map .ok ++ rest) := .nil
  exact hgap.append h

theorem SettledBut.trail {more : List Token}
    (h : SettledBut spare outlines tokens (more.map .ok ++ rest)) :
    SettledBut spare outlines (tokens ++ more) rest := by
  have hmore : SettledBut spare [] more rest := .nil
  simpa using h.append hmore

/-- A node above others is settled along with them. -/
theorem SettledBut.under {tag : Tag Span ν} {span : Span}
    (h : SettledBut spare outlines tokens rest)
    (hroot : InOrder tokens → spare (.node tag span outlines) ∨
      ∀ nodes, (Outline.node tag span outlines).Settled nodes (tokens.map .ok ++ rest)) :
    SettledBut spare [.node tag span outlines] tokens rest := by
  intro horder node hnode
  rw [subtreesList_singleton, subtrees] at hnode ⊢
  rcases List.mem_cons.mp hnode with rfl | hnode
  · exact (hroot horder).imp_right fun hsettled => hsettled _
  · exact (h horder node hnode).imp_right fun hsettled =>
      hsettled.mono (List.subset_cons_self _ _) (List.suffix_refl _)

/-- A node that nothing is asked of adds nothing to what is below it. -/
theorem SettledBut.node {tag : Tag Span ν} {span : Span} (h : SettledBut spare outlines tokens rest)
    (htag : tag.isSettled = true) : SettledBut spare [.node tag span outlines] tokens rest :=
  h.under fun _ => .inr fun _ => settled_of_isSettled htag

theorem settledBut_of_plain (h : ∀ outline ∈ outlines, outline.Plain) :
    SettledBut spare outlines tokens rest := by
  intro _ node hnode
  obtain ⟨outline, houtline, hnode⟩ := mem_subtreesList.mp hnode
  exact .inr (settled_of_isSettled (h outline houtline node hnode).1)

/-! ## Exposed nodes -/

theorem exposedCallee_subset (outlines : List (Outline σ ν)) :
    exposedCallee outlines ⊆ exposedList outlines := by
  cases outlines with
  | nil => exact List.Subset.refl _
  | cons callee others =>
      rw [exposedCallee, exposedList]
      exact List.subset_append_left _ _

/-- What is exposed below a node is exposed in one of its children. -/
theorem exposed_node_subset {tag : Tag σ ν} {note : σ} {children : List (Outline σ ν)} :
    (Outline.node tag note children).exposed ⊆
      Outline.node tag note children :: exposedList children := by
  unfold exposed
  refine List.cons_subset_cons _ ?_
  split
  · simp
  · simp
  · simp
  · exact exposedCallee_subset children
  · exact List.Subset.refl _

mutual

theorem exposed_subset : (outline : Outline σ ν) → outline.exposed ⊆ outline.subtrees
  | .node tag note children => by
      rw [subtrees]
      exact List.Subset.trans exposed_node_subset
        (List.cons_subset_cons _ (exposedList_subset children))

theorem exposedList_subset : (outlines : List (Outline σ ν)) →
    exposedList outlines ⊆ subtreesList outlines
  | [] => by simp [exposedList]
  | outline :: rest => by
      rw [exposedList, subtreesList]
      exact List.append_subset.mpr
        ⟨List.Subset.trans (exposed_subset outline) (List.subset_append_left _ _),
          List.Subset.trans (exposedList_subset rest) (List.subset_append_right _ _)⟩

end

theorem Plain.recordFree {outline : Outline σ ν} (h : outline.Plain) : outline.RecordFree :=
  fun reached hreached => (h reached (exposed_subset outline hreached)).2

theorem mem_exposedList {outlines : List (Outline σ ν)} {reached : Outline σ ν} :
    reached ∈ exposedList outlines ↔ ∃ outline ∈ outlines, reached ∈ outline.exposed := by
  induction outlines with
  | nil => simp [exposedList]
  | cons outline rest ih => simp [exposedList, ih]

theorem recordFree_node {tag : Tag σ ν} {note : σ} {children : List (Outline σ ν)}
    (htag : tag.isRecord = false) (h : ∀ child ∈ children, child.RecordFree) :
    (Outline.node tag note children).RecordFree := by
  intro reached hreached
  rcases List.mem_cons.mp (exposed_node_subset hreached) with rfl | hbelow
  · exact htag
  · obtain ⟨child, hchild, hreached⟩ := mem_exposedList.mp hbelow
    exact h child hchild reached hreached

theorem recordFree_call {note : σ} {callee : Outline σ ν} {arguments : List (Outline σ ν)}
    (h : callee.RecordFree) : (Outline.node .call note (callee :: arguments)).RecordFree := by
  intro reached hreached
  rw [exposed] at hreached
  rcases List.mem_cons.mp hreached with rfl | hbelow
  · rfl
  · exact h reached hbelow

end

/-! ## Expressions -/

section

variable {records : Bool} {outline whole head brace : Outline Span ν}
  {outlines others : List (Outline Span ν)} {spare : Outline Span ν → Prop}
  {tokens front back : List Token} {rest : List Scan}

/-- In front of anything but a brace nothing waits. -/
theorem Reading.close (h : Reading records outline tokens rest)
    (hno : ¬ (records = false ∧ Next Punct.lbrace rest)) :
    SettledBut spare [outline] tokens rest :=
  h.settled.mono fun _ hwaits => absurd ⟨hwaits.1, hwaits.2.1⟩ hno

theorem Reading.close_token {token : Token} {kind : Kind}
    (h : Reading records outline tokens (.ok token :: rest)) (hkind : token.kind = kind)
    (hbrace : kind.variant ≠ .punct .lbrace) :
    SettledBut spare [outline] tokens (.ok token :: rest) :=
  h.close fun ⟨_, hnext⟩ => hbrace (hkind ▸ next_cons_iff.mp hnext)

theorem Reading.close_true (h : Reading true outline tokens rest) :
    SettledBut spare [outline] tokens rest :=
  h.close fun hrecords => absurd hrecords.1 (by decide)

/-- Nothing waits in what is settled. -/
theorem Reading.of_settled (hfree : records = false → outline.RecordFree)
    (h : SettledIn [outline] tokens rest) : Reading records outline tokens rest :=
  ⟨hfree, h.loosen⟩

theorem Reading.of_free (h : outline.RecordFree ∧ SettledIn [outline] tokens rest) :
    Reading records outline tokens rest :=
  .of_settled (fun _ => h.1) h.2

/-- What waits at the end of the last part of an expression waits at its own end. -/
theorem Reading.last (h : Reading records outline back rest) (hback : back <:+ tokens)
    (hexposed : outline.exposed ⊆ whole.exposed) :
    SettledBut (Waits records whole tokens rest) [outline] back rest := by
  obtain ⟨front, rfl⟩ := hback
  refine h.settled.mono fun node => ?_
  rintro ⟨hrecords, hnext, htag, hnode, last, hlast, hplace⟩
  exact ⟨hrecords, hnext, htag, hexposed hnode, last,
    by simp [List.getLast?_append, Option.mem_def.mp hlast], hplace⟩

/-- An expression of parts that are settled but for what waits at its end. -/
theorem Reading.node {tag : Tag Span ν} {span : Span} (htag : tag.isSettled = true)
    (hrecord : tag.isRecord = false)
    (hfree : records = false → ∀ child ∈ outlines, child.RecordFree)
    (h : SettledBut (Waits records (.node tag span outlines) tokens rest) outlines tokens rest) :
    Reading records (.node tag span outlines) tokens rest :=
  ⟨fun hrecords => recordFree_node hrecord (hfree hrecords), h.node htag⟩

/-- A token and then an expression. -/
theorem Reading.prefixed {tag : Tag Span ν} {span : Span} (h : Reading records outline back rest)
    (mark : Token) (htag : tag.isSettled = true) (hrecord : tag.isRecord = false)
    (hexposed : outline.exposed ⊆ (Outline.node tag span [outline]).exposed) :
    Reading records (.node tag span [outline]) (mark :: back) rest :=
  .node htag hrecord (by simpa using h.free)
    ((h.last (List.suffix_cons mark back) hexposed).skip [mark])

/-- What waits at the end of a condition or scrutinee waits for the brace that opens
the body behind it. -/
theorem Reading.headed {tag : Tag Span ν} {span : Span} {start brace : Token} {behind : List Token}
    (hhead : Reading false outline front (.ok brace :: (behind.map .ok ++ rest)))
    (hbrace : brace.kind = Punct.lbrace)
    (htag : (Outline.node tag span (outline :: others)).head? = some outline)
    (hopens : InOrder (start :: (front ++ brace :: behind)) →
      (Outline.node tag span (outline :: others)).BodyOpens brace)
    (hothers : SettledIn others (brace :: behind) rest) :
    SettledIn [.node tag span (outline :: others)] (start :: (front ++ brace :: behind)) rest := by
  intro horder node hnode
  refine .inr ?_
  have hscans : (start :: (front ++ brace :: behind)).map Except.ok ++ rest =
      .ok start :: (front.map .ok ++ .ok brace :: (behind.map .ok ++ rest)) := by
    simp
  have hfront : InOrder front := horder.of_part ⟨[start], brace :: behind, by simp⟩
  have hback : InOrder (brace :: behind) := horder.of_part ⟨start :: front, [], by simp⟩
  rw [subtreesList_singleton, subtrees, subtreesList] at hnode ⊢
  rw [hscans]
  rcases List.mem_cons.mp hnode with rfl | hnode
  · exact settled_of_head? htag (hhead.free rfl)
  rcases List.mem_append.mp hnode with hnode | hnode
  · have hsuffix := List.suffix_cons (Except.ok start)
      (front.map Except.ok ++ .ok brace :: (behind.map .ok ++ rest))
    rcases hhead.settled hfront node (by simpa using hnode) with hwaits | hsettled
    · obtain ⟨-, -, hpath, hexposed, last, hlast, hplace⟩ := hwaits
      have hbehind := (behind_of_getLast? hlast).mono hsuffix
      rw [hplace] at hbehind
      exact settled_of_path hpath (.inr ⟨_, List.mem_cons_self, outline, htag, brace, _, hbehind,
        hbrace, hopens horder, hexposed⟩)
    · exact hsettled.mono (by simp) hsuffix
  · have hsuffix : (brace :: behind).map Except.ok ++ rest <:+
        .ok start :: (front.map .ok ++ .ok brace :: (behind.map .ok ++ rest)) :=
      ⟨.ok start :: front.map .ok, by simp⟩
    have hsettled := (hothers hback node hnode).resolve_left id
    exact hsettled.mono (List.subset_cons_of_subset _ (List.subset_append_right _ _)) hsuffix

end

end Outline

/-! ## Outlines without braces to tell apart -/

open Outline

theorem Outline.Declarative.plain {outline : Outline σ ν} (h : outline.Declarative) :
    outline.Plain := by
  intro node hnode
  have htag := h node hnode
  obtain ⟨tag, note, children⟩ := node
  cases tag <;> first | exact ⟨rfl, rfl⟩ | cases htag

theorem Ident.plain_outline (ident : Ident σ ν) : ident.outline.Plain :=
  ident.declarative_outline.plain

theorem Path.plain_outline (path : Path σ ν) : path.outline.Plain :=
  path.declarative_outline.plain

theorem Pattern.plain_outline (pattern : Pattern σ ν) : pattern.outline.Plain :=
  pattern.declarative_outline.plain

theorem TypeExpr.plain_outline (type : TypeExpr σ ν) : type.outline.Plain :=
  type.declarative_outline.plain

theorem Parameter.plain_outline (parameter : Parameter σ ν) : parameter.outline.Plain :=
  parameter.declarative_outline.plain

theorem ImportPath.plain_outline (path : ImportPath σ ν) : path.outline.Plain :=
  path.declarative_outline.plain

end FilterScript
