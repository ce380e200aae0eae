import FilterScript.Proofs.Parallel.Blocks

/-!
# Two runs through items and scripts

A script has no end of its own. A run that has read an item stops in front of the
end of its source, and only there.
-/

namespace FilterScript

namespace Grammar

open Parse Parallel

variable {fork : Fork} {records : Bool} {common : List Twin} {place : Stream} {token : Token}

/-! ## Items -/

theorem importItem_parallel : Parallel fork records common (fun _ => importItem) Never
    (Alike (Outline.shape ∘ Item.outline) common) := by
  apply importDeclaration_parallel.bind_never
  intro results rest _ hresults
  refine .pure ⟨hresults.shorter, ?_⟩
  have := hresults.view
  simp_all [Item.outline, Tag.shape]

/-- The word that begins a filter is known to come next. -/
theorem filterItem_parallel (kind : FilterKind) {twin : Twin} :
    Parallel fork records (twin :: common) (fun _ => filterItem kind) Never
      (Alike (Outline.shape ∘ Item.outline) (twin :: common)) := by
  apply bind_advance
  apply ident_parallel.bind_never
  intro names rest _ hnames
  apply parameters_parallel.bind_never
  intro lists rest' hrest' hlists
  apply block_parallel.bind_never
  intro bodies left _ hbodies
  refine .pure ⟨?_, ?_⟩
  · have := hnames.shorter
    have := hrest'.length_le
    have := hbodies.shorter
    simp only [List.length_cons]
    omega
  · have := hbodies.view
    simp_all [Same, Item.outline, Tag.shape]

theorem returnType_parallel : Parallel fork records common (fun _ => returnType) Never
    (Same (Option.map (Outline.shape ∘ TypeExpr.outline))) :=
  optional_parallel rfl type_mirrors (Nat.le_refl _)

theorem functionItem_parallel : Parallel fork records common (fun _ => functionItem) Never
    (Alike (Outline.shape ∘ Item.outline) common) := by
  apply bind_expect rfl
  rintro start rest rfl _
  apply ident_parallel.bind_never
  intro names rest' _ hnames
  apply parameters_parallel.bind_never
  intro lists left hleft hlists
  apply returnType_parallel.bind_never
  intro returns left' hleft' hreturns
  apply block_parallel.bind_never
  intro bodies last _ hbodies
  refine .pure ⟨?_, ?_⟩
  · have := hnames.shorter
    have := (hleft'.trans hleft).length_le
    have := hbodies.shorter
    simp only [List.length_cons]
    omega
  · have := hbodies.view
    simp_all [Same, Item.outline, Tag.shape, shape_toList]

theorem recordItem_parallel : Parallel fork records common (fun _ => recordItem) Never
    (Alike (Outline.shape ∘ Item.outline) common) := by
  apply bind_expect rfl
  rintro start rest rfl _
  apply ident_parallel.bind_never
  intro names rest' _ hnames
  have hrecord : Parallel fork records rest' (fun _ => record TypeExpr.span type) Never
      (Alike (fun record => record.fields.map
        (Outline.shape ∘ Field.outline .typeField TypeExpr.outline)) rest') :=
    record_parallel type_mirrors (Nat.le_refl _)
  apply hrecord.bind_never
  intro fields left _ hfields
  refine .pure ⟨Nat.lt_succ_of_lt (hfields.shorter.trans hnames.shorter), ?_⟩
  have := hfields.view
  simp_all [Item.outline, TypeExpr.outlineFields_eq_map, Tag.shape]

theorem testItem_parallel : Parallel fork records common (fun _ => testItem) Never
    (Alike (Outline.shape ∘ Item.outline) common) := by
  apply bind_expect rfl
  rintro start rest rfl _
  apply ident_parallel.bind_never
  intro names rest' _ hnames
  apply block_parallel.bind_never
  intro bodies left _ hbodies
  refine .pure ⟨Nat.lt_succ_of_lt (hbodies.shorter.trans hnames.shorter), ?_⟩
  have := hbodies.view
  simp_all [Item.outline, Tag.shape]

theorem meets_item_iff {kind : Kind} : Expected.item.meets kind = true ↔
    kind = Keyword.import_ ∨ kind = Keyword.filtermap ∨ kind = Keyword.filter ∨
      kind = Keyword.fn ∨ kind = Keyword.type_ ∨ kind = Keyword.test := by
  simp [Expected.meets]

theorem item_passes (hshown : place.lookahead 0 = .ok token)
    (hmeets : Expected.item.meets token.kind = true) : Passes place [] records item Never := by
  refine Passes.bind_peek hshown ?_
  rcases meets_item_iff.mp hmeets with hkind | hkind | hkind | hkind | hkind | hkind
  · rw [hkind]
    exact .bind_any (importDeclaration_passes hshown hkind)
  · rw [hkind]
    exact .bind_any (.advance hshown (hkind ▸ Kind.noConfusion))
  · rw [hkind]
    exact .bind_any (.advance hshown (hkind ▸ Kind.noConfusion))
  · rw [hkind]
    exact .bind_any (.expect hshown Kind.noConfusion hkind)
  · rw [hkind]
    exact .bind_any (.expect hshown Kind.noConfusion hkind)
  · rw [hkind]
    exact .bind_any (.expect hshown Kind.noConfusion hkind)

theorem item_parallel : Parallel fork records common (fun _ => item) Never
    (Alike (Outline.shape ∘ Item.outline) common) := by
  apply bind_peek Expected.item.meets rfl
  · intro kind
    cases kind <;> rfl
  · rintro twin rest rfl hmeets
    rcases meets_item_iff.mp hmeets with hkind | hkind | hkind | hkind | hkind | hkind
    · simp only [twin.kind_of_shape rfl hkind]
      exact importItem_parallel
    · simp only [twin.kind_of_shape rfl hkind]
      exact filterItem_parallel .filtermap
    · simp only [twin.kind_of_shape rfl hkind]
      exact filterItem_parallel .filter
    · simp only [twin.kind_of_shape rfl hkind]
      exact functionItem_parallel
    · simp only [twin.kind_of_shape rfl hkind]
      exact recordItem_parallel
    · simp only [twin.kind_of_shape rfl hkind]
      exact testItem_parallel
  · intro tokens hshown hmeets
    apply (want_refuse .item hshown hmeets).congr
    intro side
    have hside := hmeets side
    split <;> first | rfl | simp_all [Expected.meets]
  · intro _ _ side token hshown hmeets
    exact item_passes hshown hmeets

/-! ## Scripts -/

/-- The end of the source is no token that two runs could take together. They see
it both, or one of them sees it at the fork. -/
theorem if_atEnd {β : Type} {yes no : Side → Parse β} {stop : β → Kind → Prop}
    {last : (Side → β) → List Twin → Prop}
    (hyes : Parallel fork records common yes stop last)
    (hno : Parallel fork records common no stop last)
    (hpass : fork.free → common = [] → ∀ side token, (fork.place side).lookahead 0 = .ok token →
      token.kind = .endOfFile → Passes (fork.place side) [] records (yes side) stop) :
    Parallel fork records common
      (fun side => do if ← nextIs .endOfFile then yes side else no side) stop last := by
  simp only [nextIs_bind]
  apply bind_peekAt
  · intro twin _ _
    have hkind (side : Side) : ((twin.token side).kind.variant == Kind.variant .endOfFile) =
        (twin.shape.variant == Kind.variant .endOfFile) := by
      rw [← twin.shape_token side]
      cases (twin.token side).kind <;> rfl
    simp only [hkind]
    split
    · exact hyes
    · exact hno
  · exact fun _ _ => hyes
  · intro hfree hlong tokens hshown
    obtain rfl := List.eq_nil_of_length_eq_zero (Nat.le_zero.mp hlong)
    by_cases h : ∃ side, (tokens side).kind = .endOfFile
    · obtain ⟨side, hside⟩ := h
      apply of_passes hfree side
      rw [hside]
      exact hpass hfree rfl side _ (hshown side) hside
    · have hkind (side : Side) :
          ((tokens side).kind.variant == Kind.variant .endOfFile) = false := by
        apply beq_false_of_ne
        intro hvariant
        apply h
        refine ⟨side, ?_⟩
        cases hside : (tokens side).kind <;> simp_all [Kind.variant]
      simp only [hkind]
      exact hno

theorem itemRound_parallel {items : Side → List (Item Span Symbol)}
    (hitems : Same (List.map (Outline.shape ∘ Item.outline)) items common) :
    Parallel fork records common (fun side => itemRound (items side))
      (Round.Stops Never (StopsAt .endOfFile))
      (Round.Agree (Same (List.map (Outline.shape ∘ Item.outline)))
        (Same (List.map (Outline.shape ∘ Item.outline))) common) := by
  apply if_atEnd
  · exact .pure (.done hitems)
  · apply item_parallel.bind_never
    intro results rest _ hresults
    exact .pure (.more hresults.shorter (hitems.snoc hresults.view))
  · intro _ _ side token hshown hkind
    exact .pure hshown hkind

theorem script_parallel : Parallel fork records common (fun _ => script) (StopsAt .endOfFile)
    (Same (Outline.shape ∘ Script.outline)) := by
  apply bind_peek_any
  intro firsts
  have hitems : Parallel fork records common (fun _ => repeated itemRound []) (StopsAt .endOfFile)
      (Same (List.map (Outline.shape ∘ Item.outline))) := by
    apply repeated_never (Same (List.map (Outline.shape ∘ Item.outline))) .nil
    exact fun _ _ _ hitems => itemRound_parallel hitems
  apply hitems.bind
  · intro _ side items token hshown hkind records
    exact Passes.bind_peek hshown (.pure hshown hkind)
  · intro items rest _ hitems
    apply bind_peek_any
    intro stops
    refine .pure ?_
    simpa [Same, Script.outline, Tag.shape] using hitems

end Grammar

end FilterScript
