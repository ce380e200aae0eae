import FilterScript.Proofs.Parts

/-!
# How nodes are laid out

A list in the source is a row: its elements one behind the other, with a comma
between two of them, enclosed by a token that opens and one that closes. Nothing else
stands there, so no element is lost, moved or merged with another. For every node
this module says how its tokens are made up of those of its children, as far as its
sort tells, and what it means that all nodes of a tree are laid out like this.
-/

namespace FilterScript

variable {ν : Type}

/-! ## Rows -/

/-- The tokens are those of the elements in turn, with one comma between two of them.
The flag says that another element may follow. -/
inductive Row : Bool → List (Outline Span ν) → List Token → Prop
  | nil : Row true [] []
  | element {elements : List (Outline Span ν)} {element : Outline Span ν}
      {tokens part : List Token} (row : Row true elements tokens)
      (joins : element.note.Joins part) : Row false (elements ++ [element]) (tokens ++ part)
  | comma {elements : List (Outline Span ν)} {tokens : List Token} {mark : Token}
      (row : Row false elements tokens) (kind : mark.kind = Punct.comma) :
      Row true elements (tokens ++ [mark])

/-- All that stands in a list: a row, with or without a comma at its end, or a comma
and no element. -/
def Listed (elements : List (Outline Span ν)) (tokens : List Token) : Prop :=
  (∃ again, Row again elements tokens) ∨
    elements = [] ∧ ∃ mark : Token, tokens = [mark] ∧ mark.kind = Punct.comma

/-- What may stand behind an arm: a comma, or nothing at all if the body is a block or
the match ends here. -/
def Arm.EndsWith (arm : Arm Span ν) (tokens : List Token) : Prop :=
  (∃ mark : Token, tokens = [mark] ∧ mark.kind = Punct.comma) ∨
    tokens = [] ∧ (arm.last = true ∨ ∃ body, arm.body = .block body)

/-- The tokens are those of the arms in turn, each with what stands behind it. The
flag is what the arm at the end says of itself: that it is the last one. No arm
follows that one. -/
inductive ArmRow : Bool → List (Arm Span ν) → List Token → Prop
  | nil : ArmRow false [] []
  | arm {arms : List (Arm Span ν)} {arm : Arm Span ν} {tokens part more : List Token}
      (row : ArmRow false arms tokens) (joins : arm.span.Joins part)
      (ends : arm.EndsWith more) : ArmRow arm.last (arms ++ [arm]) (tokens ++ (part ++ more))

/-- An opening token and a closing one, with something in front of the one, between
them, and behind the other. -/
def Enclosed (left right : Punct) (before inside behind : List Token → Prop)
    (tokens : List Token) : Prop :=
  ∃ (front inner back : List Token) (opening closing : Token),
    tokens = front ++ opening :: (inner ++ closing :: back) ∧
      opening.kind = left ∧ closing.kind = right ∧ before front ∧ inside inner ∧ behind back

theorem Enclosed.of_tokens {left right : Punct} {before inside : List Token → Prop}
    {opening closing : Token} (front inner : List Token) (hfront : before front)
    (hleft : opening.kind = left) (hinner : inside inner) (hright : closing.kind = right) :
    Enclosed left right before inside (· = []) (front ++ opening :: (inner ++ [closing])) :=
  ⟨front, inner, [], opening, closing, rfl, hleft, hright, hfront, hinner, rfl⟩

/-- What is enclosed stays so with more in front of it and behind it. -/
theorem Enclosed.between {left right : Punct} {before inside behind : List Token → Prop}
    {front back tokens : List Token} (hfront : before front)
    (h : Enclosed left right (· = []) inside (· = []) tokens) (hback : behind back) :
    Enclosed left right before inside behind (front ++ (tokens ++ back)) := by
  obtain ⟨_, inner, _, opening, closing, rfl, hleft, hright, rfl, hinner, rfl⟩ := h
  exact ⟨front, inner, back, opening, closing, by simp, hleft, hright, hfront, hinner, hback⟩

section

variable {arms front back : List (Arm Span ν)} {arm : Arm Span ν} {tokens : List Token}
  {last : Bool}

/-- An arm with others behind it is not the last one, and the one at the end is what
the row says. -/
theorem ArmRow.last_eq (h : ArmRow last (front ++ arm :: back) tokens) :
    arm.last = (back.isEmpty && last) := by
  generalize harms : front ++ arm :: back = arms at h
  induction h generalizing back with
  | nil => simp at harms
  | arm row joins ends ih =>
      rcases List.eq_nil_or_concat back with rfl | ⟨others, next, rfl⟩
      · obtain ⟨-, rfl⟩ := List.append_inj' harms rfl |>.imp_right List.singleton_inj.mp
        simp
      · rw [List.concat_eq_append, ← List.cons_append, ← List.append_assoc] at harms
        obtain ⟨harms, -⟩ := List.append_inj' harms rfl
        rw [ih harms]
        simp

/-- The tokens of every arm stand together with what follows it. -/
theorem ArmRow.exists_part (h : ArmRow last arms tokens) (harm : arm ∈ arms) :
    ∃ part more, part ++ more <:+: tokens ∧ arm.span.Joins part ∧ arm.EndsWith more := by
  induction h with
  | nil => cases harm
  | @arm arms next tokens part more row joins ends ih =>
      rcases List.mem_append.mp harm with harm | harm
      · obtain ⟨front, back, hpart, hrest⟩ := ih harm
        exact ⟨front, back, hpart.trans (List.prefix_append _ _).isInfix, hrest⟩
      · obtain rfl := List.mem_singleton.mp harm
        exact ⟨part, more, (List.suffix_append _ _).isInfix, joins, ends⟩

end

/-! ## Nodes -/

namespace Outline

/-- The list that a node holds is all that stands between two tokens. These are
braces for fields and the members of a group, parentheses for arguments, parameters
and the names in a pattern, brackets for the arguments of a type if it has any, and
braces again for the arms of a match. -/
def Lists : Outline Span ν → List Token → Prop
  | node .fields span children, tokens | node .typeFields span children, tokens
  | node .group span children, tokens =>
      span.Joins tokens ∧ Enclosed .lbrace .rbrace (· = []) (Listed children) (· = []) tokens
  | node .call span (callee :: arguments), tokens =>
      span.Joins tokens ∧
        Enclosed .lparen .rparen callee.note.Joins (Listed arguments) (· = []) tokens
  | node (.pattern (some _)) span (path :: names), tokens =>
      span.Joins tokens ∧ Enclosed .lparen .rparen path.note.Joins (Listed names) (· = []) tokens
  | node .namedType span (path :: first :: rest), tokens =>
      span.Joins tokens ∧
        Enclosed .lbracket .rbracket path.note.Joins (Listed (first :: rest)) (· = []) tokens
  | node (.filter _) span children, tokens | node .function span children, tokens =>
      span.Joins tokens ∧ ∃ name parameters others,
        children = name :: (parameters ++ others) ∧
        (∀ parameter ∈ parameters, parameter.tag = .parameter) ∧
        (∀ other ∈ others, other.tag ≠ .parameter) ∧
        Enclosed .lparen .rparen (CoverIn [name]) (Listed parameters) (CoverIn others) tokens
  | node .select span children, tokens =>
      span.Joins tokens ∧ ∃ scrutinee arms, children = scrutinee :: arms.map Arm.outline ∧
        Enclosed .lbrace .rbrace (CoverIn [scrutinee]) (ArmRow (!arms.isEmpty) arms) (· = []) tokens
  | _, _ => True

/-- What holds of a node, given its tokens and the table of names: a name stands for
the text of its token, a path runs from its first to its last name, an import path has
parts, and a mark follows the type that is optional. -/
def Arranged (names : Names) : Outline Span Symbol → List Token → Prop
  | node (.ident name raw) span _, tokens => ∃ token text, tokens = [token] ∧
      token.kind = .name text raw ∧ token.span = span ∧ names.text? name = some text
  | node .path span children, _ =>
      ∃ first ∈ children.head?, ∃ last ∈ children.getLast?, span = first.note.hull last.note
  | node .importPath _ children, _ => children ≠ []
  | node .optionalType span children, tokens => span.Joins tokens ∧
      ∃ front mark, tokens = front ++ [mark] ∧ CoverIn children front
  | outline, tokens => outline.Lists tokens

/-- Every node has the property, given some of the tokens that stand together. -/
def Every (property : Outline Span ν → List Token → Prop) (outlines : List (Outline Span ν))
    (tokens : List Token) : Prop :=
  ∀ node ∈ subtreesList outlines, ∃ part, part <:+: tokens ∧ property node part

section

variable {property : Outline Span ν → List Token → Prop} {outline : Outline Span ν}
  {outlines others : List (Outline Span ν)} {tokens front back : List Token}

theorem Every.mono (h : Every property outlines front) (hpart : front <:+: tokens) :
    Every property outlines tokens := by
  intro node hnode
  obtain ⟨part, hinfix, hproperty⟩ := h node hnode
  exact ⟨part, hinfix.trans hpart, hproperty⟩

theorem Every.nil : Every property [] tokens := by
  intro node hnode
  simp [subtreesList] at hnode

theorem Every.append (h : Every property outlines front) (h' : Every property others back) :
    Every property (outlines ++ others) (front ++ back) := by
  intro node hnode
  rw [subtreesList_append] at hnode
  rcases List.mem_append.mp hnode with hnode | hnode
  · exact h.mono (List.prefix_append front back).isInfix node hnode
  · exact h'.mono (List.suffix_append front back).isInfix node hnode

theorem Every.skip (h : Every property outlines tokens) (gap : List Token) :
    Every property outlines (gap ++ tokens) :=
  h.mono (List.suffix_append gap tokens).isInfix

theorem Every.trail (h : Every property outlines tokens) (more : List Token) :
    Every property outlines (tokens ++ more) :=
  h.mono (List.prefix_append tokens more).isInfix

theorem Every.node {tag : Tag Span ν} {span : Span}
    (hroot : property (.node tag span outlines) tokens) (h : Every property outlines tokens) :
    Every property [.node tag span outlines] tokens := by
  intro node hnode
  rw [subtreesList_singleton, subtrees] at hnode
  rcases List.mem_cons.mp hnode with rfl | hnode
  · exact ⟨tokens, List.infix_refl _, hroot⟩
  · exact h node hnode

end

end Outline

end FilterScript
