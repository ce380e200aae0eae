import FilterScript.Proofs.Seams.Blocks

/-!
# Items and scripts in front of a seam

The last token of an item leads no further, so an item may end right at a seam. A
script may not: it looks for one more item there.
-/

namespace FilterScript

namespace Grammar

open Parse Parse.Echoes

variable {seam : Seam} {common : List Scan}

/-! ## Items -/

theorem importItem_echoes :
    Echoes seam common true importItem importItem (seam.Same Item.map) := by
  apply importDeclaration_echoes.map
  rintro ⟨path, span⟩ ⟨path', span'⟩ ⟨hpath, rfl⟩
  simp_all [Seam.Same, Item.map]

/-- The word that begins a filter is known to come next. -/
theorem filterItem_echoes {kind : FilterKind} {token : Token}
    (hshown : (seam.left.precededBy common).lookahead 0 = .ok token)
    (hkind : token.kind = kind.keyword) :
    Echoes seam common true (filterItem kind) (filterItem kind) (seam.Same Item.map) := by
  apply bind_advance hshown (hkind ▸ rfl) (hkind ▸ Kind.noConfusion)
  intro rest _
  apply ident_echoes.bind
  intro _ name name' _ hname
  apply parameters_echoes.bind
  intro _ list list' _ hlist
  apply block_echoes.map
  intro body body' hbody
  have hspan := hbody.block_span
  simp_all [Seam.Same, Item.map, Span.hull_shift]

theorem returnType_echoes : Echoes seam common false returnType returnType
    (seam.Same (Seam.optionOf TypeExpr.map)) :=
  optional_echoes rfl fun _ _ => type_echoes

theorem functionItem_echoes :
    Echoes seam common true functionItem functionItem (seam.Same Item.map) := by
  apply bind_expect rfl
  intro start rest _
  apply ident_echoes.bind
  intro _ name name' _ hname
  apply parameters_echoes.bind
  intro _ list list' _ hlist
  apply returnType_echoes.bind
  intro _ returns returns' _ hreturns
  apply block_echoes.map
  intro body body' hbody
  have hspan := hbody.block_span
  simp_all [Seam.Same, Item.map, Span.hull_shift]

theorem recordItem_echoes :
    Echoes seam common true recordItem recordItem (seam.Same Item.map) := by
  apply bind_expect rfl
  intro start rest _
  apply ident_echoes.bind
  intro rest' name name' _ hname
  have hrecord : Echoes seam rest' true (record TypeExpr.span type) (record TypeExpr.span type)
      (seam.Same fun f g => Record.mapValues f g (TypeExpr.map f g)) :=
    record_echoes (fun _ _ => Seam.Same.type_span) fun _ _ => type_echoes
  apply hrecord.map
  rintro ⟨fields, span⟩ ⟨fields', span'⟩ hfields
  obtain rfl := hfields.record_span
  simp_all [Seam.Same, Item.map, Record.mapValues, TypeExpr.mapFields_eq_map, Span.hull_shift]

theorem testItem_echoes :
    Echoes seam common true testItem testItem (seam.Same Item.map) := by
  apply bind_expect rfl
  intro start rest _
  apply ident_echoes.bind
  intro _ name name' _ hname
  apply block_echoes.map
  intro body body' hbody
  have hspan := hbody.block_span
  simp_all [Seam.Same, Item.map, Span.hull_shift]

instance : Settles true importItem :=
  inferInstanceAs (Settles true (importDeclaration >>= _))

instance (kind : FilterKind) : Settles true (filterItem kind) := by
  unfold filterItem
  infer_instance

instance : Settles true functionItem := by
  unfold functionItem
  infer_instance

instance : Settles true recordItem := by
  unfold recordItem
  infer_instance

instance : Settles true testItem := by
  unfold testItem
  infer_instance

instance : Settles true item := by
  have (token : Token) : Settles true (match token.kind with
      | .keyword .import_ => importItem
      | .keyword .filtermap => filterItem .filtermap
      | .keyword .filter => filterItem .filter
      | .keyword .fn => functionItem
      | .keyword .type_ => recordItem
      | .keyword .test => testItem
      | _ => do
          want .item
          refuse) := by
    split <;> infer_instance
  exact inferInstanceAs (Settles true (peek >>= _))

theorem item_echoes : Echoes seam common true item item (seam.Same Item.map) := by
  apply bind_peek
  rintro ⟨kind, span⟩ hshown
  rw [Token.kind_shift]
  dsimp only
  split
  · exact importItem_echoes
  · exact filterItem_echoes hshown rfl
  · exact filterItem_echoes hshown rfl
  · exact functionItem_echoes
  · exact recordItem_echoes
  · exact testItem_echoes
  · exact bind_want .refuse

/-! ## Scripts -/

theorem itemRound_echoes {items items' : List (Item Span Symbol)}
    {invariant : List (Item Span Symbol) → List (Item Span Symbol) → Prop}
    (hitems : invariant items items')
    (hsnoc : ∀ item item', seam.Same Item.map item item' →
      invariant (items ++ [item]) (items' ++ [item'])) :
    Echoes seam common false (itemRound items) (itemRound items')
      (Round.Related invariant invariant) := by
  apply if_nextIs
  · exact fun _ _ _ => .pure (.done hitems)
  · exact item_echoes.inside.map fun item item' hitem => .more (hsnoc item item' hitem)

theorem script_echoes : Echoes seam common false script script (seam.Same Script.map) := by
  apply bind_peek
  intro first _
  have hitems : Echoes seam common false (repeated itemRound []) (repeated itemRound [])
      (seam.Same (Seam.listOf Item.map)) := by
    apply Echoes.repeated (seam.Same (Seam.listOf Item.map)) .nil
    intro _ _ _ _ hitems
    exact itemRound_echoes hitems fun _ _ hitem => hitems.snoc hitem
  apply hitems.bind
  intro rest items items' _ hitems
  apply bind_peek
  intro stop _
  apply Echoes.pure
  simp_all [Seam.Same, Script.map, Span.shift, Nat.add_min_add_right]

end Grammar

end FilterScript
