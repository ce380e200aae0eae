import FilterScript.Proofs.Completeness.RoundTrip
import FilterScript.Proofs.Rendering.Expressions
import FilterScript.Proofs.Rendering.Notes

/-!
# Scripts are told from their written lists

Two sources are written as the same nested lists only if they are read as the
same script, whatever their strings look like.
-/

namespace FilterScript

variable {σ : Type}

/-! ## Parameters -/

/-- A name and a type that can be written. -/
def Parameter.IsWritable (parameter : Parameter σ String) : Prop :=
  Writable (parameter.name.slots id) ∧ Writable (parameter.value.slots id)

theorem Parameter.writable_iff {parameters : List (Parameter σ String)} :
    Writable (slotsList id parameters) ↔ ∀ parameter ∈ parameters, parameter.IsWritable := by
  simp [slotsList, TypeExpr.slotsFields_eq_map, Field.slots, IsWritable]

theorem Parameter.words_word {parameter : Parameter σ String} (h : parameter.IsWritable) :
    ∀ word ∈ parameter.words, Word word :=
  pair_words ((Ident.render_piece h.1).mono (by decide)) (TypeExpr.render_word _ h.2)

theorem Parameter.renders_word {parameters : List (Parameter σ String)}
    (h : ∀ parameter ∈ parameters, parameter.IsWritable) :
    ∀ word ∈ parameters.map render, Word word := by
  intro word hword
  obtain ⟨parameter, hparameter, rfl⟩ := List.mem_map.mp hword
  exact Piece.listForm (by decide) (words_word (h parameter hparameter))

theorem Parameter.eq_of_render {parameter other : Parameter Unit String}
    (h : parameter.IsWritable) (h' : other.IsWritable)
    (heq : parameter.render = other.render) : parameter = other := by
  have hwords := listForm_inj (words_word h) (words_word h') heq
  simp only [words, List.cons.injEq, and_true] at hwords
  cases parameter
  cases other
  rw [Field.mk.injEq]
  exact ⟨Ident.eq_of_render h.1 h'.1 hwords.1, TypeExpr.eq_of_render _ _ h.2 h'.2 hwords.2, rfl⟩

theorem renderParameters_word {parameters : List (Parameter σ String)}
    (h : Writable (Parameter.slotsList id parameters)) : Word (renderParameters parameters) :=
  Piece.listForm (by decide) (Parameter.renders_word (Parameter.writable_iff.mp h))

theorem eq_of_renderParameters {parameters others : List (Parameter Unit String)}
    (h : Writable (Parameter.slotsList id parameters))
    (h' : Writable (Parameter.slotsList id others))
    (heq : renderParameters parameters = renderParameters others) : parameters = others := by
  rw [Parameter.writable_iff] at h h'
  exact eq_of_map_eq Parameter.eq_of_render h h'
    (listForm_inj (Parameter.renders_word h) (Parameter.renders_word h') heq)

/-! ## Items -/

theorem Item.words_word {item : Item σ String} (h : Writable (item.slots id)) (hfits : item.Fits) :
    ∀ word ∈ item.words, Word word := by
  have hword {name : Ident σ String} (hname : Writable (name.slots id)) : Word name.render :=
    (Ident.render_piece hname).mono (by decide)
  have hblock {body : Block σ String} (hbody : Writable (body.slots id)) (hfits : body.Fits) :
      Word body.render :=
    Block.word_of_words (Block.words_word body hbody hfits)
  cases item with
  | filter kind name parameters body span =>
      simp only [slots, List.cons_append, writable_append, writable_token] at h
      exact List.forall_mem_cons.mpr ⟨kind.keyword.spelling_word,
        triple_words (hword h.2.1.1) (renderParameters_word h.2.1.2) (hblock h.2.2 hfits)⟩
  | function name parameters returns body span =>
      simp only [slots, List.cons_append, writable_append, writable_token] at h
      cases returns with
      | none =>
          exact List.forall_mem_cons.mpr ⟨.of_plain (by decide), triple_words (hword h.2.1.1.1)
            (renderParameters_word h.2.1.1.2) (hblock h.2.2 hfits)⟩
      | some returns =>
          simp only [TypeExpr.slotsAfter, writable_token] at h
          simp only [words, List.forall_mem_cons]
          exact ⟨.of_plain (by decide), hword h.2.1.1.1, renderParameters_word h.2.1.1.2,
            .of_plain (by decide), returns.render_word h.2.1.2.2, hblock h.2.2 hfits,
            List.forall_mem_nil _⟩
  | record name fields span =>
      obtain ⟨fields, _⟩ := fields
      simp only [slots, List.cons_append, writable_append, writable_token,
        writable_commaSlots] at h
      exact triple_words (.of_plain (by decide)) (hword h.2.1.1)
        (.braceForm (by decide) (TypeExpr.renderFields_pieces fields h.2.1.2.2))
  | test name body span =>
      simp only [slots, List.cons_append, writable_append, writable_token] at h
      exact triple_words (.of_plain (by decide)) (hword h.2.1) (hblock h.2.2 hfits)
  | «import» path span =>
      simp only [slots, ImportPath.declarationSlots, List.cons_append, writable_append,
        writable_token] at h
      exact pair_words (.of_plain (by decide)) (path.render_word h.2.1 hfits)

/-- The word that an item begins with. -/
def Item.keyword : Item σ String → Keyword
  | .filter kind _ _ _ _ => kind.keyword
  | .function .. => .fn
  | .record .. => .type_
  | .test .. => .test
  | .import .. => .import_

theorem Item.head_words (item : Item σ String) :
    item.words.head? = some item.keyword.spelling := by
  cases item with
  | function name parameters returns body span => cases returns <;> rfl
  | _ => rfl

theorem Item.keyword_eq {item other : Item σ String} (h : item.words = other.words) :
    item.keyword = other.keyword := by
  have hspelling : item.keyword.spelling = other.keyword.spelling := by
    rw [← Option.some.injEq, ← head_words, ← head_words, h]
  exact Kind.keyword.inj
    ((isWritable_keyword _).eq_of_spelling (isWritable_keyword _) hspelling)

/-- The number of words tells whether a function returns something. -/
theorem Item.eq_of_render {item other : Item Unit String} (h : Writable (item.slots id) ∧ item.Fits)
    (h' : Writable (other.slots id) ∧ other.Fits) (heq : item.render = other.render) :
    item = other := by
  obtain ⟨h, hfits⟩ := h
  obtain ⟨h', hfits'⟩ := h'
  have hwords := listForm_inj (words_word h hfits) (words_word h' hfits') heq
  have hkeyword := keyword_eq hwords
  cases item <;> cases other
  case filter.filter kind name parameters body _ kind' name' parameters' body' _ =>
    simp only [words, List.cons.injEq, and_true] at hwords
    simp only [slots, List.cons_append, writable_append, writable_token] at h h'
    have hkind : kind = kind' := by
      cases kind <;> cases kind' <;> simp [keyword, FilterKind.keyword] at hkeyword ⊢
    rw [hkind, Ident.eq_of_render h.2.1.1 h'.2.1.1 hwords.2.1,
      eq_of_renderParameters h.2.1.2 h'.2.1.2 hwords.2.2.1,
      Block.eq_of_render body body' h.2.2 h'.2.2 hfits hfits' hwords.2.2.2]
  case function.function name parameters returns body _ name' parameters' returns' body' _ =>
    simp only [slots, List.cons_append, writable_append, writable_token] at h h'
    cases returns <;> cases returns' <;>
      simp only [words, List.cons.injEq, reduceCtorEq, true_and, and_true, and_false] at hwords
    case none.none =>
      rw [Ident.eq_of_render h.2.1.1.1 h'.2.1.1.1 hwords.1,
        eq_of_renderParameters h.2.1.1.2 h'.2.1.1.2 hwords.2.1,
        Block.eq_of_render body body' h.2.2 h'.2.2 hfits hfits' hwords.2.2]
    case some.some returns returns' =>
      simp only [TypeExpr.slotsAfter, writable_token] at h h'
      rw [Ident.eq_of_render h.2.1.1.1 h'.2.1.1.1 hwords.1,
        eq_of_renderParameters h.2.1.1.2 h'.2.1.1.2 hwords.2.1,
        TypeExpr.eq_of_render returns returns' h.2.1.2.2 h'.2.1.2.2 hwords.2.2.1,
        Block.eq_of_render body body' h.2.2 h'.2.2 hfits hfits' hwords.2.2.2]
  case record.record name fields _ name' fields' _ =>
    obtain ⟨fields, _⟩ := fields
    obtain ⟨fields', _⟩ := fields'
    simp only [words, List.cons.injEq, true_and, and_true] at hwords
    simp only [slots, List.cons_append, writable_append, writable_token,
      writable_commaSlots] at h h'
    have hfields := braceForm_inj (TypeExpr.renderFields_pieces fields h.2.1.2.2)
      (TypeExpr.renderFields_pieces fields' h'.2.1.2.2) hwords.2
    rw [Ident.eq_of_render h.2.1.1 h'.2.1.1 hwords.1,
      TypeExpr.eq_of_renderFields fields fields' h.2.1.2.2 h'.2.1.2.2 hfields]
  case test.test name body _ name' body' _ =>
    simp only [words, List.cons.injEq, true_and, and_true] at hwords
    simp only [slots, List.cons_append, writable_append, writable_token] at h h'
    rw [Ident.eq_of_render h.2.1 h'.2.1 hwords.1,
      Block.eq_of_render body body' h.2.2 h'.2.2 hfits hfits' hwords.2]
  case import.import path _ path' _ =>
    simp only [words, List.cons.injEq, true_and, and_true] at hwords
    simp only [slots, ImportPath.declarationSlots, List.cons_append, writable_append,
      writable_token] at h h'
    rw [ImportPath.eq_of_render path path' h.2.1 h'.2.1 hfits hfits' hwords]
  all_goals simp only [keyword, FilterKind.keyword, reduceCtorEq] at hkeyword
  all_goals split at hkeyword <;> cases hkeyword

theorem Script.writable_items {script : Script Unit String} (h : script.IsCanonical) :
    ∀ item ∈ script.items, Writable (item.slots id) ∧ item.Fits := by
  intro item hitem
  refine ⟨fun kind hkind => h.writable kind ?_, h.fits item hitem⟩
  exact List.mem_filterMap.mpr ⟨.token kind, List.mem_flatMap.mpr ⟨item, hitem, hkind⟩, rfl⟩

/-- Canonical scripts are told from their texts. -/
theorem Script.IsCanonical.eq_of_render {script other : Script Unit String}
    (h : script.IsCanonical) (h' : other.IsCanonical) (heq : script.render = other.render) :
    script = other := by
  have hpieces {script : Script Unit String} (h : script.IsCanonical) :
      ∀ text ∈ script.items.map Item.render, Piece ['\n'] text := by
    intro text htext
    obtain ⟨item, hitem, rfl⟩ := List.mem_map.mp htext
    obtain ⟨hwritable, hfits⟩ := Script.writable_items h item hitem
    exact Piece.listForm (by decide) (Item.words_word hwritable hfits)
  have htexts := intercalate_inj List.mem_cons_self rfl (hpieces h) (hpieces h') heq
  have hitems := eq_of_map_eq Item.eq_of_render (Script.writable_items h)
    (Script.writable_items h') htexts
  cases script
  cases other
  rw [Script.mk.injEq]
  exact ⟨hitems, rfl⟩

/-! ## Sources -/

/-- Two sources that are accepted have the same written lists exactly if their
scripts differ in their spans only. -/
theorem render_eq_iff_of_parse {source other : String}
    {parsed parsed' : Parsed (Script Span Symbol)} (h : parse source = .ok parsed)
    (h' : parse other = .ok parsed') :
    parsed.render = parsed'.render ↔
      parsed.tree.map noNote parsed.names.text = parsed'.tree.map noNote parsed'.names.text := by
  have hrender (parsed : Parsed (Script Span Symbol)) :
      parsed.render = (parsed.tree.map noNote parsed.names.text).render :=
    Script.render_map id noNote parsed.names.text parsed.tree
  rw [hrender, hrender]
  constructor
  · exact (isCanonical_of_parse h).eq_of_render (isCanonical_of_parse h')
  · exact congrArg Script.render

/-- The string holds what looks like the rest of a script, line and all. -/
theorem render_eq_iff_of_parse_string :
    ∃ parsed parsed',
      parse "test a \x7b f(\"b))))\n(test c (block\") \x7d" = .ok parsed ∧
      parse "test a\x7b f(\"b))))\n(test c (block\",)\x7d # d" = .ok parsed' ∧
      parsed.render = "(test a (block (tail (call f \"b))))\n(test c (block\"))))" ∧
      parsed'.render = parsed.render ∧
      parsed.tree.map noNote parsed.names.text =
        parsed'.tree.map noNote parsed'.names.text := by
  have hrender : (parse "test a \x7b f(\"b))))\n(test c (block\") \x7d").map Parsed.render =
      .ok "(test a (block (tail (call f \"b))))\n(test c (block\"))))" := by decide +kernel
  have hrender' : (parse "test a\x7b f(\"b))))\n(test c (block\",)\x7d # d").map Parsed.render =
      .ok "(test a (block (tail (call f \"b))))\n(test c (block\"))))" := by decide +kernel
  cases h : parse "test a \x7b f(\"b))))\n(test c (block\") \x7d" with
  | error error => simp [h, Except.map] at hrender
  | ok parsed =>
      cases h' : parse "test a\x7b f(\"b))))\n(test c (block\",)\x7d # d" with
      | error error => simp [h', Except.map] at hrender'
      | ok parsed' =>
          rw [h] at hrender
          rw [h'] at hrender'
          have hfirst := Except.ok.inj hrender
          have hsecond := Except.ok.inj hrender'
          exact ⟨parsed, parsed', rfl, rfl, hfirst, hsecond.trans hfirst.symm,
            (render_eq_iff_of_parse h h').mp (hfirst.trans hsecond.symm)⟩

end FilterScript
