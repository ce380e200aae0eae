import FilterScript.Proofs.Spans.Covers

/-!
# The parts of a tree

All nodes of an outline, its own among them, are its subtrees. Those that belong to
names, types, imports and patterns are told by their tags: none of them is an
expression, a statement or a block.
-/

namespace FilterScript

variable {σ ν : Type}

/-- Whether the node belongs to a name, a type, an import or a pattern. -/
def Tag.isDeclarative : Tag σ ν → Bool
  | .parameter | .ident _ _ | .path | .importPath | .group | .namedType | .optionalType
  | .neverType | .unitType | .recordType | .typeFields | .typeField | .pattern _ => true
  | _ => false

/-- Whether the node is an expression. -/
def Tag.isExpr : Tag σ ν → Bool
  | .literal _ | .pathExpr | .access | .call | .recordExpr | .typedRecord | .unary _ | .binary _
  | .question | .paren | .exit _ | .conditional | .loop | .select => true
  | _ => false

/-- Whether the node is a block. -/
def Tag.isBlock : Tag σ ν → Bool
  | .block _ => true
  | _ => false

theorem Expr.isExpr_tag_outline (expr : Expr σ ν) : expr.outline.tag.isExpr = true := by
  cases expr <;> rfl

theorem Block.isBlock_tag_outline (block : Block σ ν) : block.outline.tag.isBlock = true := by
  cases block
  rfl

namespace Outline

theorem subtreesList_append (first second : List (Outline σ ν)) :
    subtreesList (first ++ second) = subtreesList first ++ subtreesList second := by
  induction first with
  | nil => simp [subtreesList]
  | cons outline others ih =>
      rw [List.cons_append, subtreesList, ih, subtreesList, List.append_assoc]

theorem mem_subtreesList {outlines : List (Outline σ ν)} {node : Outline σ ν} :
    node ∈ subtreesList outlines ↔ ∃ outline ∈ outlines, node ∈ outline.subtrees := by
  induction outlines with
  | nil => simp [subtreesList]
  | cons outline rest ih => simp [subtreesList, ih]

@[simp] theorem subtreesList_singleton (outline : Outline σ ν) :
    subtreesList [outline] = outline.subtrees := by
  simp [subtreesList]

mutual

/-- What is below a node of a tree is below the tree. -/
theorem subtrees_subset {node : Outline σ ν} : (outline : Outline σ ν) →
    node ∈ outline.subtrees → node.subtrees ⊆ outline.subtrees
  | .node tag note children, hnode => by
      rw [subtrees] at hnode ⊢
      rcases List.mem_cons.mp hnode with rfl | hnode
      · rw [subtrees]
        exact List.Subset.refl _
      · exact List.subset_cons_of_subset _ (subtreesList_subset children hnode)

theorem subtreesList_subset {node : Outline σ ν} : (outlines : List (Outline σ ν)) →
    node ∈ subtreesList outlines → node.subtrees ⊆ subtreesList outlines
  | [], hnode => by simp [subtreesList] at hnode
  | outline :: rest, hnode => by
      rw [subtreesList] at hnode ⊢
      rcases List.mem_append.mp hnode with hnode | hnode
      · exact List.subset_append_of_subset_left _ (subtrees_subset outline hnode)
      · exact List.subset_append_of_subset_right _ (subtreesList_subset rest hnode)

end

theorem mem_subtrees_self (outline : Outline σ ν) : outline ∈ outline.subtrees := by
  cases outline
  rw [subtrees]
  exact List.mem_cons_self

theorem mem_subtrees_of_mem_children {outline node child : Outline σ ν}
    (hnode : node ∈ outline.subtrees) (hchild : child ∈ node.children) :
    child ∈ outline.subtrees := by
  refine subtrees_subset outline hnode ?_
  obtain ⟨tag, note, children⟩ := node
  rw [subtrees]
  exact List.mem_cons_of_mem _ (mem_subtreesList.mpr ⟨child, hchild, child.mem_subtrees_self⟩)

/-- Every node of the outline belongs to a name, a type, an import or a pattern. -/
def Declarative (outline : Outline σ ν) : Prop :=
  ∀ node ∈ outline.subtrees, node.tag.isDeclarative = true

theorem declarative_node {tag : Tag σ ν} {note : σ} {children : List (Outline σ ν)}
    (htag : tag.isDeclarative = true) (h : ∀ child ∈ children, child.Declarative) :
    (Outline.node tag note children).Declarative := by
  intro node hnode
  rw [subtrees] at hnode
  rcases List.mem_cons.mp hnode with rfl | hnode
  · exact htag
  · obtain ⟨child, hchild, hnode⟩ := mem_subtreesList.mp hnode
    exact h child hchild node hnode

theorem Declarative.not_isExpr {outline node : Outline σ ν} (h : outline.Declarative)
    (hnode : node ∈ outline.subtrees) : node.tag.isExpr = false := by
  have htag := h node hnode
  obtain ⟨tag, note, children⟩ := node
  cases tag <;> first | rfl | cases htag

theorem Declarative.not_isBlock {outline node : Outline σ ν} (h : outline.Declarative)
    (hnode : node ∈ outline.subtrees) : node.tag.isBlock = false := by
  have htag := h node hnode
  obtain ⟨tag, note, children⟩ := node
  cases tag <;> first | rfl | cases htag

end Outline

open Outline

theorem Ident.declarative_outline (ident : Ident σ ν) : ident.outline.Declarative :=
  declarative_node rfl (by simp)

theorem Path.declarative_outline (path : Path σ ν) : path.outline.Declarative := by
  refine declarative_node rfl fun child hchild => ?_
  obtain ⟨ident, -, rfl⟩ := List.mem_map.mp hchild
  exact ident.declarative_outline

theorem Pattern.declarative_outline (pattern : Pattern σ ν) : pattern.outline.Declarative := by
  refine declarative_node rfl (List.forall_mem_cons.mpr ⟨pattern.path.declarative_outline, ?_⟩)
  intro child hchild
  obtain ⟨ident, -, rfl⟩ := List.mem_map.mp hchild
  exact ident.declarative_outline

mutual

theorem TypeExpr.declarative_outline : (type : TypeExpr σ ν) → type.outline.Declarative
  | .named path arguments span => by
      rw [outline]
      exact declarative_node rfl (List.forall_mem_cons.mpr
        ⟨path.declarative_outline, TypeExpr.declarative_outlineList arguments⟩)
  | .optional inner span => by
      rw [outline]
      exact declarative_node rfl (List.forall_mem_singleton.mpr inner.declarative_outline)
  | .never span | .unit span => by
      rw [outline]
      exact declarative_node rfl (by simp)
  | .record ⟨fields, span⟩ => by
      rw [outline]
      exact declarative_node rfl (List.forall_mem_singleton.mpr
        (declarative_node rfl (TypeExpr.declarative_outlineFields fields)))

theorem TypeExpr.declarative_outlineList : (types : List (TypeExpr σ ν)) →
    ∀ outline ∈ TypeExpr.outlineList types, outline.Declarative
  | [] => by simp [outlineList]
  | type :: rest => by
      rw [outlineList]
      exact List.forall_mem_cons.mpr
        ⟨type.declarative_outline, TypeExpr.declarative_outlineList rest⟩

theorem TypeExpr.declarative_outlineFields : (fields : List (Field σ ν (TypeExpr σ ν))) →
    ∀ outline ∈ TypeExpr.outlineFields fields, outline.Declarative
  | [] => by simp [outlineFields]
  | ⟨name, type, span⟩ :: rest => by
      rw [outlineFields]
      refine List.forall_mem_cons.mpr
        ⟨declarative_node rfl ?_, TypeExpr.declarative_outlineFields rest⟩
      exact List.forall_mem_cons.mpr
        ⟨name.declarative_outline, List.forall_mem_singleton.mpr type.declarative_outline⟩

end

theorem TypeExpr.declarative_outlineOption (type : Option (TypeExpr σ ν)) :
    ∀ outline ∈ (type.map TypeExpr.outline).toList, outline.Declarative := by
  cases type with
  | none => simp
  | some type => simpa using type.declarative_outline

theorem Parameter.declarative_outline (parameter : Parameter σ ν) :
    parameter.outline.Declarative :=
  declarative_node rfl (List.forall_mem_cons.mpr
    ⟨parameter.name.declarative_outline,
      List.forall_mem_singleton.mpr parameter.value.declarative_outline⟩)

mutual

theorem ImportPath.declarative_outline : (path : ImportPath σ ν) → path.outline.Declarative
  | ⟨parts, span⟩ => by
      rw [ImportPath.outline]
      exact declarative_node rfl (ImportPart.declarative_outlineList parts)

theorem ImportPart.declarative_outlineList : (parts : List (ImportPart σ ν)) →
    ∀ outline ∈ ImportPart.outlineList parts, outline.Declarative
  | [] => by simp [ImportPart.outlineList]
  | .name ident :: rest => by
      rw [ImportPart.outlineList]
      exact List.forall_mem_cons.mpr
        ⟨ident.declarative_outline, ImportPart.declarative_outlineList rest⟩
  | .group members span :: rest => by
      rw [ImportPart.outlineList]
      exact List.forall_mem_cons.mpr
        ⟨declarative_node rfl (ImportPath.declarative_outlineList members),
          ImportPart.declarative_outlineList rest⟩

theorem ImportPath.declarative_outlineList : (paths : List (ImportPath σ ν)) →
    ∀ outline ∈ ImportPath.outlineList paths, outline.Declarative
  | [] => by simp [ImportPath.outlineList]
  | path :: rest => by
      rw [ImportPath.outlineList]
      exact List.forall_mem_cons.mpr
        ⟨path.declarative_outline, ImportPath.declarative_outlineList rest⟩

end

end FilterScript
