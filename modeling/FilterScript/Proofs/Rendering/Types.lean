import FilterScript.Proofs.Completeness.Canonical
import FilterScript.Proofs.Completeness.Lexemes
import FilterScript.Proofs.Rendering.Sealed

/-!
# Names, types and imports are told from their texts

The texts of two names that can be written are the same only if the names are,
and so on for what is made of names alone: no name has a mark in it by which
names are put together.
-/

namespace FilterScript

/-! ## Places whose tokens can be written -/

/-- All tokens of these places can be written. -/
def Writable (slots : List Slot) : Prop :=
  ∀ kind, .token kind ∈ slots → kind.IsWritable

section Slots

variable {slots more : List Slot}

@[simp] theorem writable_nil : Writable [] := by
  simp [Writable]

@[simp] theorem writable_token {kind : Kind} :
    Writable (.token kind :: slots) ↔ kind.IsWritable ∧ Writable slots := by
  simp [Writable]

@[simp] theorem writable_spareComma : Writable (.spareComma :: slots) ↔ Writable slots := by
  simp [Writable]

@[simp] theorem writable_spareBrackets : Writable (.spareBrackets :: slots) ↔ Writable slots := by
  simp [Writable]

@[simp] theorem writable_append : Writable (slots ++ more) ↔ Writable slots ∧ Writable more := by
  simp [Writable, or_imp, forall_and]

@[simp] theorem isWritable_keyword (word : Keyword) : (Kind.keyword word).IsWritable :=
  trivial

@[simp] theorem isWritable_punct (mark : Punct) : (Kind.punct mark).IsWritable :=
  trivial

@[simp] theorem writable_joined {mark : Punct} {elements : List (List Slot)} :
    Writable (joined mark elements) ↔ ∀ element ∈ elements, Writable element := by
  induction elements with
  | nil => simp [joined]
  | cons first rest ih =>
      cases rest with
      | nil => simp [joined]
      | cons second rest =>
          have hjoined : joined mark (first :: second :: rest) =
              first ++ .token mark :: joined mark (second :: rest) := by
            simp [joined, List.intercalate_cons_cons]
          rw [hjoined, writable_append, writable_token, ih]
          simp

@[simp] theorem writable_commaSlots {elements : List (List Slot)} :
    Writable (commaSlots elements) ↔ ∀ element ∈ elements, Writable element := by
  simp [commaSlots]

end Slots

/-- A token that can be written is told from its spelling: it is what the text is
cut into. -/
theorem Kind.IsWritable.eq_of_spelling {kind other : Kind} (h : kind.IsWritable)
    (h' : other.IsWritable) (heq : kind.spelling = other.spelling) : kind = other := by
  have hend : Apart [] := by simp [Apart]
  obtain ⟨first, rest, htext, -⟩ := h.begins
  have hlexeme := Lexeme.ofText_spelling h hend (by rw [List.append_nil, htext])
  have hlexeme' := Lexeme.ofText_spelling h' hend (by rw [List.append_nil, ← heq, htext])
  rw [hlexeme] at hlexeme'
  simpa using congrArg Lexeme.reading hlexeme'

/-! ## Names -/

/-- Characters that are no part of a name. -/
def marks : List Char :=
  [' ', ',', '.', ':', '?', '!', '\n'] ++ delimiters

theorem not_mem_marks {c : Char} (h : Unicode.isIdentifierContinue c = true) : c ∉ marks := by
  have hmarks : (marks.all fun c => !Unicode.isIdentifierContinue c) = true := by decide
  intro hc
  simpa [h] using List.all_eq_true.mp hmarks c hc

variable {σ : Type}

theorem Ident.render_piece {ident : Ident σ String} (h : Writable (ident.slots id)) :
    Piece marks ident.render := by
  obtain ⟨⟨first, rest, htext, hfirst, hrest⟩, -⟩ : (ident.kind id).IsWritable := by
    simpa [slots] using h
  have hletters : ∀ c ∈ ident.name.toList, c ∉ marks := by
    intro c hc
    rw [id_eq] at htext
    rw [htext] at hc
    rcases List.mem_cons.mp hc with rfl | hc
    · exact not_mem_marks (Unicode.isIdentifierContinue_of_start hfirst)
    · exact not_mem_marks (hrest c hc)
  have hne : ident.name ≠ "" := by
    rintro hempty
    simp [hempty] at htext
  have hplain : ∀ c ∉ marks, c ∉ delimiters := fun c hc hmark => hc (List.mem_append_right _ hmark)
  have hescape : ("r#".toList.all (· ∉ marks)) = true := by decide
  unfold render Kind.nameText
  split
  · refine .of_plain ⟨by simp, isPlain_iff.mpr fun c hc => ?_⟩
    rw [String.toList_append, List.mem_append] at hc
    have hmark : c ∉ marks :=
      hc.elim (fun hc => of_decide_eq_true (List.all_eq_true.mp hescape c hc)) (hletters c)
    exact ⟨hmark, hplain c hmark⟩
  · refine .of_plain ⟨hne, isPlain_iff.mpr fun c hc => ?_⟩
    exact ⟨hletters c hc, hplain c (hletters c hc)⟩

theorem Ident.eq_of_render {ident other : Ident Unit String} (h : Writable (ident.slots id))
    (h' : Writable (other.slots id)) (heq : ident.render = other.render) : ident = other := by
  have hkind : ident.kind id = other.kind id := by
    simp only [slots, writable_token, writable_nil, and_true] at h h'
    exact h.eq_of_spelling h' heq
  cases ident
  cases other
  simpa [kind] using hkind

/-- What is told from its image where it is sound is told from it in lists of
sound things. -/
theorem eq_of_map_eq {α β : Type} {image : α → β} {sound : α → Prop}
    (himage : ∀ {one other : α}, sound one → sound other → image one = image other → one = other)
    {list others : List α} (h : ∀ one ∈ list, sound one) (h' : ∀ one ∈ others, sound one)
    (heq : list.map image = others.map image) : list = others := by
  induction list generalizing others with
  | nil => exact (List.map_eq_nil_iff.mp heq.symm).symm
  | cons first rest ih =>
      cases others with
      | nil => cases heq
      | cons other others =>
          obtain ⟨hfirst, hrest⟩ := List.forall_mem_cons.mp h
          obtain ⟨hother, hothers⟩ := List.forall_mem_cons.mp h'
          obtain ⟨hone, hmore⟩ := List.cons.inj heq
          rw [himage hfirst hother hone, ih hrest hothers hmore]

/-! ## Paths and patterns -/

/-- Characters that are no part of a path. -/
def pathMarks : List Char :=
  marks.erase '.'

theorem Path.writable_segments {path : Path σ String} (h : Writable (path.slots id)) :
    ∀ ident ∈ path.segments, Writable (ident.slots id) := by
  simpa [slots] using h

/-- Names one after the other. -/
theorem Ident.renders_piece {idents : List (Ident σ String)}
    (h : ∀ ident ∈ idents, Writable (ident.slots id)) :
    ∀ text ∈ idents.map Ident.render, Piece marks text := by
  intro text htext
  obtain ⟨ident, hident, rfl⟩ := List.mem_map.mp htext
  exact Ident.render_piece (h ident hident)

theorem Path.render_piece {path : Path σ String} (h : Writable (path.slots id)) :
    Piece pathMarks path.render := by
  refine .intercalate (.of_plain (by decide)) ?_ (by simp [segments])
  exact fun text htext =>
    (Ident.renders_piece (path.writable_segments h) text htext).mono List.erase_subset

theorem Path.render_word {path : Path σ String} (h : Writable (path.slots id)) :
    Word path.render :=
  (path.render_piece h).mono (by decide)

theorem Path.eq_of_render {path other : Path Unit String} (h : Writable (path.slots id))
    (h' : Writable (other.slots id)) (heq : path.render = other.render) : path = other := by
  have hsegments := path.writable_segments h
  have hsegments' := other.writable_segments h'
  have htexts := intercalate_inj (by decide) rfl (Ident.renders_piece hsegments)
    (Ident.renders_piece hsegments') heq
  have hequal := eq_of_map_eq Ident.eq_of_render hsegments hsegments' htexts
  obtain ⟨first, rest, _⟩ := path
  obtain ⟨first', rest', _⟩ := other
  obtain ⟨rfl, rfl⟩ := List.cons.inj hequal
  rfl

/-- The text begins like a name, if there is any. -/
def BeginsName (text : String) : Prop :=
  ∀ c ∈ text.toList.head?, Unicode.isIdentifierStart c = true

theorem Ident.render_begins {ident : Ident σ String} (h : Writable (ident.slots id)) :
    BeginsName ident.render := by
  obtain ⟨⟨first, rest, htext, hfirst, -⟩, -⟩ : (ident.kind id).IsWritable := by
    simpa [slots] using h
  unfold BeginsName render Kind.nameText
  split
  · rw [String.toList_append]
    rintro _ ⟨⟩
    decide
  · rw [id_eq] at htext
    rw [htext]
    rintro _ ⟨⟩
    exact hfirst

theorem Path.render_begins {path : Path σ String} (h : Writable (path.slots id)) :
    BeginsName path.render := by
  have hfirst : Writable (path.first.slots id) :=
    path.writable_segments h path.first List.mem_cons_self
  have hhead : path.render.toList.head? = path.first.render.toList.head? :=
    head?_intercalate (Ident.render_piece hfirst).ne_empty
  unfold BeginsName
  rw [hhead]
  exact Ident.render_begins hfirst

/-- What may stand behind a path: pieces in brackets of some sort, perhaps none, or
no brackets at all. -/
def enclosed (left right : String) : Option (List String) → String
  | none => ""
  | some pieces => left ++ ", ".intercalate pieces ++ right

section Enclosed

variable {left right : Char} {pieces others : Option (List String)}

theorem sealed_enclosed {stops : List Char} (hstop : left ∉ stops) (hleft : left ∈ openers)
    (hright : right ∈ closers) (h : ∀ list ∈ pieces, ∀ piece ∈ list, Piece [','] piece) :
    Sealed stops (enclosed (.singleton left) (.singleton right) pieces).toList := by
  cases pieces with
  | none => simpa [enclosed] using Sealed.nil
  | some list =>
      have hinner : Sealed [] (", ".intercalate list).toList :=
        .intercalate (.of_plain (by decide)) fun piece hpiece =>
          (h list rfl piece hpiece).mono (by simp)
      simpa [enclosed] using Sealed.bracketed hstop hleft hright hinner .nil

theorem stopped_enclosed (hleft : left ∈ pathMarks) :
    Stopped pathMarks (enclosed (.singleton left) (.singleton right) pieces).toList := by
  cases pieces with
  | none => exact stopped_empty
  | some list =>
      intro c hc
      obtain rfl : left = c := by simpa [enclosed] using hc
      exact .inl hleft

theorem enclosed_inj (h : ∀ list ∈ pieces, ∀ piece ∈ list, Piece [','] piece)
    (h' : ∀ list ∈ others, ∀ piece ∈ list, Piece [','] piece)
    (heq : enclosed (.singleton left) (.singleton right) pieces =
      enclosed (.singleton left) (.singleton right) others) : pieces = others := by
  cases pieces <;> cases others <;> simp only [enclosed] at heq
  case none.none => rfl
  case none.some list => simp [← String.toList_inj] at heq
  case some.none list => simp [← String.toList_inj] at heq
  case some.some list list' =>
    rw [String.append_left_inj, String.append_right_inj] at heq
    rw [intercalate_inj List.mem_cons_self rfl (h list rfl) (h' list' rfl) heq]

end Enclosed

theorem Pattern.render_eq (pattern : Pattern σ String) :
    pattern.render = pattern.path.render ++ enclosed (.singleton '(') (.singleton ')')
      (pattern.bindings.map (List.map Ident.render)) := by
  unfold render
  cases pattern.bindings with
  | none => simp [enclosed]
  | some names =>
      simp only [Option.map_some, enclosed, String.append_assoc]
      rfl

theorem Pattern.writable_bindings {pattern : Pattern σ String} (h : Writable (pattern.slots id)) :
    Writable (pattern.path.slots id) ∧
      ∀ names ∈ pattern.bindings, ∀ ident ∈ names, Writable (ident.slots id) := by
  unfold slots at h
  cases hbindings : pattern.bindings with
  | none => simpa [hbindings] using h
  | some names => simpa [hbindings] using h

theorem Pattern.pieces {pattern : Pattern σ String} (h : Writable (pattern.slots id)) :
    ∀ list ∈ pattern.bindings.map (List.map Ident.render), ∀ piece ∈ list, Piece [','] piece := by
  intro list hlist piece hpiece
  obtain ⟨names, hnames, rfl⟩ := Option.map_eq_some_iff.mp hlist
  exact (Ident.renders_piece (pattern.writable_bindings h |>.2 names hnames) piece hpiece).mono
    (by decide)

theorem Pattern.render_word {pattern : Pattern σ String} (h : Writable (pattern.slots id)) :
    Word pattern.render := by
  rw [render_eq]
  exact (pattern.path.render_word (pattern.writable_bindings h).1).append
    (sealed_enclosed (by decide) (by decide) (by decide) (pieces h))

/-- A pattern with empty parentheses differs from one with none. -/
theorem Pattern.eq_of_render {pattern other : Pattern Unit String}
    (h : Writable (pattern.slots id)) (h' : Writable (other.slots id))
    (heq : pattern.render = other.render) : pattern = other := by
  rw [render_eq, render_eq] at heq
  obtain ⟨hpath, hnames⟩ := pattern.writable_bindings h
  obtain ⟨hpath', hnames'⟩ := other.writable_bindings h'
  obtain ⟨hpaths, hbehind⟩ := (pattern.path.render_piece hpath).append_inj
    (other.path.render_piece hpath') (stopped_enclosed (by decide)) (stopped_enclosed (by decide))
    heq
  have hbindings : pattern.bindings = other.bindings := by
    have hoption := enclosed_inj (pieces h) (pieces h') hbehind
    cases hfirst : pattern.bindings <;> cases hsecond : other.bindings <;>
      simp only [hfirst, hsecond, Option.map_none, Option.map_some, reduceCtorEq,
        Option.some.injEq] at hoption
    case none.none => rfl
    case some.some names names' =>
      rw [eq_of_map_eq Ident.eq_of_render (hnames names hfirst) (hnames' names' hsecond) hoption]
  cases pattern
  cases other
  rw [Pattern.mk.injEq]
  exact ⟨Path.eq_of_render hpath hpath' hpaths, hbindings, rfl⟩

/-! ## Fields -/

theorem field_piece {name : Ident σ String} {value : String} (hname : Writable (name.slots id))
    (hvalue : Word value) : Piece [','] (name.render ++ ": " ++ value) := by
  rw [String.append_assoc]
  refine ((Ident.render_piece hname).mono (by decide)).append ?_
  rw [String.toList_append]
  exact .append (.of_plain (by decide)) (hvalue.mono (by decide)).isSealed

theorem field_inj {name other : Ident Unit String} {value value' : String}
    (hname : Writable (name.slots id)) (hother : Writable (other.slots id))
    (heq : name.render ++ ": " ++ value = other.render ++ ": " ++ value') :
    name = other ∧ value = value' := by
  have hstopped (value : String) : Stopped marks (": " ++ value).toList := by
    rw [String.toList_append]
    rintro _ ⟨⟩
    exact .inl (by decide)
  rw [String.append_assoc, String.append_assoc] at heq
  obtain ⟨hnames, hvalues⟩ := (Ident.render_piece hname).append_inj (Ident.render_piece hother)
    (hstopped value) (hstopped value') heq
  exact ⟨Ident.eq_of_render hname hother hnames, (String.append_right_inj _).mp hvalues⟩

/-! ## Types -/

/-- The texts of the types in brackets behind a path. -/
def TypeExpr.arguments? : List (TypeExpr σ String) → Option (List String)
  | [] => none
  | first :: rest => some (TypeExpr.renderList (first :: rest))

theorem TypeExpr.render_named (path : Path σ String) (arguments : List (TypeExpr σ String))
    (span : σ) : (named path arguments span).render =
      path.render ++ enclosed (.singleton '[') (.singleton ']') (arguments? arguments) := by
  cases arguments with
  | nil => simp [render, enclosed, arguments?]
  | cons first rest =>
      simp only [render, enclosed, arguments?, String.append_assoc]
      rfl

theorem TypeExpr.writable_named {path : Path σ String} {arguments : List (TypeExpr σ String)}
    {span : σ} : Writable ((named path arguments span).slots id) ↔
      Writable (path.slots id) ∧ ∀ slots ∈ slotsList id arguments, Writable slots := by
  cases arguments <;> simp [slotsList]

theorem TypeExpr.arguments?_inj {arguments others : List (TypeExpr σ String)}
    (heq : arguments? arguments = arguments? others) :
    renderList arguments = renderList others := by
  cases arguments <;> cases others <;> simp_all [arguments?]

theorem TypeExpr.arguments_pieces {arguments : List (TypeExpr σ String)}
    (h : ∀ text ∈ renderList arguments, Word text) :
    ∀ list ∈ arguments? arguments, ∀ piece ∈ list, Piece [','] piece := by
  cases arguments with
  | nil => simp [arguments?]
  | cons first rest =>
      rintro _ ⟨⟩ text htext
      exact (h text htext).mono (by decide)

mutual

theorem TypeExpr.render_word : (type : TypeExpr σ String) → Writable (type.slots id) →
    Word type.render
  | .named path arguments span, h => by
      obtain ⟨hpath, harguments⟩ := TypeExpr.writable_named.mp h
      rw [TypeExpr.render_named]
      exact (path.render_word hpath).append (sealed_enclosed (by decide) (by decide) (by decide)
        (TypeExpr.arguments_pieces (renderList_words arguments harguments)))
  | .optional inner _, h =>
      have hinner : Writable (inner.slots id) := by simpa using h
      (inner.render_word hinner).append (.of_plain (by decide))
  | .never _, _ => show Word "!" from .of_plain (by decide)
  | .unit _, _ => Piece.listForm (by decide) (List.forall_mem_nil _)
  | .record ⟨fields, _⟩, h =>
      Piece.braceForm (by decide) (TypeExpr.renderFields_pieces fields (by simpa using h))

theorem TypeExpr.renderList_words : (types : List (TypeExpr σ String)) →
    (∀ slots ∈ slotsList id types, Writable slots) → ∀ text ∈ renderList types, Word text
  | [], _ => List.forall_mem_nil _
  | type :: rest, h => by
      obtain ⟨hfirst, hrest⟩ := List.forall_mem_cons.mp h
      exact List.forall_mem_cons.mpr ⟨type.render_word hfirst, renderList_words rest hrest⟩

theorem TypeExpr.renderFields_pieces : (fields : List (Field σ String (TypeExpr σ String))) →
    (∀ slots ∈ slotsFields id fields, Writable slots) →
    ∀ text ∈ renderFields fields, Piece [','] text
  | [], _ => List.forall_mem_nil _
  | ⟨name, type, _⟩ :: rest, h => by
      obtain ⟨hfirst, hrest⟩ := List.forall_mem_cons.mp h
      simp only [writable_append, writable_token, isWritable_punct, true_and] at hfirst
      exact List.forall_mem_cons.mpr
        ⟨field_piece hfirst.1 (type.render_word hfirst.2), renderFields_pieces rest hrest⟩

end

/-- What sort of type it is, by the mark that its text has at its end or its
beginning. -/
def TypeExpr.sign : TypeExpr σ String → Option Char
  | .named .. => none
  | .optional .. => some '?'
  | .never _ => some '!'
  | .unit _ => some '('
  | .record _ => some '\x7b'

/-- The mark that a text has at its end or its beginning. -/
def signOf (text : List Char) : Option Char :=
  if text.getLast? = some '?' then some '?'
  else text.head?.filter fun c => !Unicode.isIdentifierStart c

theorem signOf_of_sealed {text : List Char} (h : Sealed ['?'] text) :
    signOf text = text.head?.filter fun c => !Unicode.isIdentifierStart c := by
  refine if_neg fun hlast => ?_
  exact absurd (h.ends '?' hlast List.mem_cons_self) (by decide)

/-- No type but an optional one has its mark at the end, and of the others all but
those with a path begin with one. -/
theorem TypeExpr.sign_eq {type : TypeExpr σ String} (h : Writable (type.slots id)) :
    type.sign = signOf type.render.toList := by
  cases type with
  | named path arguments span =>
      obtain ⟨hpath, harguments⟩ := writable_named.mp h
      have hpiece : Piece ['?'] path.render := (path.render_piece hpath).mono (by decide)
      have hbehind : Sealed ['?']
          (enclosed (.singleton '[') (.singleton ']') (arguments? arguments)).toList :=
        sealed_enclosed (by decide) (by decide) (by decide)
          (arguments_pieces (renderList_words arguments harguments))
      rw [render_named, signOf_of_sealed (hpiece.append hbehind).isSealed, String.toList_append,
        List.head?_append_of_ne_nil _ (by simpa using hpiece.ne_empty)]
      refine (Option.filter_eq_none_iff.mpr fun c hc => ?_).symm
      simp [path.render_begins hpath c hc]
  | optional inner _ => simp [sign, signOf, render]
  | never _ =>
      simp only [sign, render]
      decide
  | unit _ =>
      simp only [sign, render]
      decide
  | record fields =>
      obtain ⟨fields, _⟩ := fields
      have hpieces := renderFields_pieces fields (by simpa using h)
      have hhead : (braceForm (renderFields fields)).toList.head? = some '\x7b' := by
        simp [braceForm]
      rw [render, signOf_of_sealed (Piece.braceForm (by decide) hpieces).isSealed, hhead]
      simp only [sign]
      decide

theorem TypeExpr.sign_eq_of_render {type other : TypeExpr σ String} (h : Writable (type.slots id))
    (h' : Writable (other.slots id)) (heq : type.render = other.render) :
    type.sign = other.sign := by
  rw [sign_eq h, sign_eq h', heq]

mutual

theorem TypeExpr.eq_of_render : (type other : TypeExpr Unit String) → Writable (type.slots id) →
    Writable (other.slots id) → type.render = other.render → type = other
  | .named path arguments span, other, h, h', heq => by
      have hsign := TypeExpr.sign_eq_of_render h h' heq
      cases other <;> simp only [TypeExpr.sign, reduceCtorEq] at hsign
      rename_i path' arguments' span'
      rw [TypeExpr.render_named, TypeExpr.render_named] at heq
      obtain ⟨hpath, harguments⟩ := TypeExpr.writable_named.mp h
      obtain ⟨hpath', harguments'⟩ := TypeExpr.writable_named.mp h'
      obtain ⟨hpaths, hbehind⟩ := (path.render_piece hpath).append_inj (path'.render_piece hpath')
        (stopped_enclosed (by decide)) (stopped_enclosed (by decide)) heq
      have htexts := enclosed_inj (TypeExpr.arguments_pieces (renderList_words _ harguments))
        (TypeExpr.arguments_pieces (renderList_words _ harguments')) hbehind
      rw [Path.eq_of_render hpath hpath' hpaths, TypeExpr.eq_of_renderList arguments arguments'
        harguments harguments' (TypeExpr.arguments?_inj htexts)]
  | .optional inner span, other, h, h', heq => by
      have hsign := TypeExpr.sign_eq_of_render h h' heq
      cases other <;> simp only [TypeExpr.sign, reduceCtorEq, Option.some.injEq,
        Char.reduceEq] at hsign
      rename_i inner' span'
      simp only [TypeExpr.slots, writable_append] at h h'
      rw [TypeExpr.eq_of_render inner inner' h.1 h'.1 ((String.append_left_inj _).mp heq)]
  | .never span, other, h, h', heq => by
      have hsign := TypeExpr.sign_eq_of_render h h' heq
      cases other <;> simp only [TypeExpr.sign, reduceCtorEq, Option.some.injEq,
        Char.reduceEq] at hsign
      rfl
  | .unit span, other, h, h', heq => by
      have hsign := TypeExpr.sign_eq_of_render h h' heq
      cases other <;> simp only [TypeExpr.sign, reduceCtorEq, Option.some.injEq,
        Char.reduceEq] at hsign
      rfl
  | .record ⟨fields, span⟩, other, h, h', heq => by
      have hsign := TypeExpr.sign_eq_of_render h h' heq
      cases other <;> simp only [TypeExpr.sign, reduceCtorEq, Option.some.injEq,
        Char.reduceEq] at hsign
      rename_i other
      obtain ⟨fields', span'⟩ := other
      simp only [TypeExpr.slots, List.cons_append, writable_token, isWritable_punct,
        writable_append, writable_commaSlots, true_and] at h h'
      rw [TypeExpr.eq_of_renderFields fields fields' h.1 h'.1
        (braceForm_inj (renderFields_pieces _ h.1) (renderFields_pieces _ h'.1) heq)]

theorem TypeExpr.eq_of_renderList : (types others : List (TypeExpr Unit String)) →
    (∀ slots ∈ slotsList id types, Writable slots) →
    (∀ slots ∈ slotsList id others, Writable slots) → renderList types = renderList others →
    types = others
  | [], others, _, _, heq => by
      cases others <;> simp_all [renderList]
  | type :: rest, others, h, h', heq => by
      cases others <;> simp only [renderList, List.cons.injEq, reduceCtorEq] at heq
      obtain ⟨hfirst, hrest⟩ := List.forall_mem_cons.mp h
      obtain ⟨hother, hothers⟩ := List.forall_mem_cons.mp h'
      rw [TypeExpr.eq_of_render type _ hfirst hother heq.1,
        TypeExpr.eq_of_renderList rest _ hrest hothers heq.2]

theorem TypeExpr.eq_of_renderFields :
    (fields others : List (Field Unit String (TypeExpr Unit String))) →
    (∀ slots ∈ slotsFields id fields, Writable slots) →
    (∀ slots ∈ slotsFields id others, Writable slots) →
    renderFields fields = renderFields others → fields = others
  | [], others, _, _, heq => by
      cases others <;> simp_all [renderFields]
  | ⟨name, type, span⟩ :: rest, others, h, h', heq => by
      cases others <;> simp only [renderFields, List.cons.injEq, reduceCtorEq] at heq
      obtain ⟨hfirst, hrest⟩ := List.forall_mem_cons.mp h
      obtain ⟨hother, hothers⟩ := List.forall_mem_cons.mp h'
      simp only [writable_append, writable_token, isWritable_punct, true_and] at hfirst hother
      obtain ⟨rfl, htype⟩ := field_inj hfirst.1 hother.1 heq.1
      rw [TypeExpr.eq_of_render type _ hfirst.2 hother.2 htype,
        TypeExpr.eq_of_renderFields rest _ hrest hothers heq.2]

end

/-! ## Imports -/

/-- The parts of an import have no dot of their own. -/
abbrev importMarks : List Char :=
  ['.', ' ', ',', '\n']

mutual

theorem ImportPath.render_word : (path : ImportPath σ String) → Writable (path.slots id) →
    path.Fits → Word path.render
  | ⟨parts, _⟩, h, hfits => by
      simp only [ImportPath.slots, writable_joined] at h
      have hparts := ImportPart.renderList_pieces parts h hfits.2
      have hne : ImportPart.renderList parts ≠ [] := by
        rcases parts with _ | ⟨_ | _, _⟩ <;> simp_all [ImportPart.renderList]
      exact .intercalate (.of_plain (by decide))
        (fun text htext => (hparts text htext).mono (by decide)) hne

theorem ImportPart.renderList_pieces : (parts : List (ImportPart σ String)) →
    (∀ slots ∈ ImportPart.slotsList id parts, Writable slots) → ImportPart.FitsList parts →
    ∀ text ∈ ImportPart.renderList parts, Piece importMarks text
  | [], _, _ => List.forall_mem_nil _
  | .name ident :: rest, h, hfits => by
      obtain ⟨hfirst, hrest⟩ := List.forall_mem_cons.mp h
      exact List.forall_mem_cons.mpr ⟨(Ident.render_piece hfirst).mono (by decide),
        ImportPart.renderList_pieces rest hrest hfits⟩
  | .group members _ :: rest, h, hfits => by
      obtain ⟨hfirst, hrest⟩ := List.forall_mem_cons.mp h
      simp only [List.cons_append, writable_token, writable_append, writable_commaSlots] at hfirst
      have hmembers := ImportPath.renderList_pieces members hfirst.2.1 hfits.1
      exact List.forall_mem_cons.mpr
        ⟨.braceForm (by decide) hmembers, ImportPart.renderList_pieces rest hrest hfits.2⟩

theorem ImportPath.renderList_pieces : (paths : List (ImportPath σ String)) →
    (∀ slots ∈ ImportPath.slotsList id paths, Writable slots) → ImportPath.FitsList paths →
    ∀ text ∈ ImportPath.renderList paths, Piece [','] text
  | [], _, _ => List.forall_mem_nil _
  | path :: rest, h, hfits => by
      obtain ⟨hfirst, hrest⟩ := List.forall_mem_cons.mp h
      exact List.forall_mem_cons.mpr ⟨(path.render_word hfirst hfits.1).mono (by decide),
        ImportPath.renderList_pieces rest hrest hfits.2⟩

end

theorem BeginsName.ne_braceForm {text : String} {pieces : List String} (h : BeginsName text) :
    text ≠ braceForm pieces := by
  rintro rfl
  have hbrace : Unicode.isIdentifierStart '\x7b' = true := h _ (by simp [braceForm])
  revert hbrace
  decide

mutual

theorem ImportPath.eq_of_render : (path other : ImportPath Unit String) →
    Writable (path.slots id) → Writable (other.slots id) → path.Fits → other.Fits →
    path.render = other.render → path = other
  | ⟨parts, _⟩, ⟨others, _⟩, h, h', hfits, hfits', heq => by
      simp only [ImportPath.slots, writable_joined] at h h'
      have hparts := intercalate_inj List.mem_cons_self rfl
        (ImportPart.renderList_pieces parts h hfits.2)
        (ImportPart.renderList_pieces others h' hfits'.2) heq
      rw [ImportPart.eq_of_renderList parts others h h' hfits.2 hfits'.2 hparts]

theorem ImportPart.eq_of_renderList : (parts others : List (ImportPart Unit String)) →
    (∀ slots ∈ ImportPart.slotsList id parts, Writable slots) →
    (∀ slots ∈ ImportPart.slotsList id others, Writable slots) → ImportPart.FitsList parts →
    ImportPart.FitsList others → ImportPart.renderList parts = ImportPart.renderList others →
    parts = others
  | [], others, _, _, _, _, heq => by
      rcases others with _ | ⟨_ | _, _⟩ <;> simp_all [ImportPart.renderList]
  | .name ident :: rest, others, h, h', hfits, hfits', heq => by
      obtain ⟨hfirst, hrest⟩ := List.forall_mem_cons.mp h
      rcases others with _ | ⟨other | _, others⟩ <;>
        simp only [ImportPart.renderList, List.cons.injEq, reduceCtorEq] at heq
      · obtain ⟨hother, hothers⟩ := List.forall_mem_cons.mp h'
        rw [Ident.eq_of_render hfirst hother heq.1,
          ImportPart.eq_of_renderList rest others hrest hothers hfits hfits' heq.2]
      · exact absurd heq.1 (Ident.render_begins hfirst).ne_braceForm
  | .group members span :: rest, others, h, h', hfits, hfits', heq => by
      obtain ⟨hfirst, hrest⟩ := List.forall_mem_cons.mp h
      rcases others with _ | ⟨other | ⟨members', span'⟩, others⟩ <;>
        simp only [ImportPart.renderList, List.cons.injEq, reduceCtorEq] at heq
      · obtain ⟨hother, -⟩ := List.forall_mem_cons.mp h'
        exact absurd heq.1.symm (Ident.render_begins hother).ne_braceForm
      · obtain ⟨hother, hothers⟩ := List.forall_mem_cons.mp h'
        simp only [List.cons_append, writable_token, writable_append, writable_commaSlots]
          at hfirst hother
        have hmembers := braceForm_inj (ImportPath.renderList_pieces members hfirst.2.1 hfits.1)
          (ImportPath.renderList_pieces members' hother.2.1 hfits'.1) heq.1
        rw [ImportPath.eq_of_renderList members members' hfirst.2.1 hother.2.1 hfits.1 hfits'.1
            hmembers,
          ImportPart.eq_of_renderList rest others hrest hothers hfits.2 hfits'.2 heq.2]

theorem ImportPath.eq_of_renderList : (paths others : List (ImportPath Unit String)) →
    (∀ slots ∈ ImportPath.slotsList id paths, Writable slots) →
    (∀ slots ∈ ImportPath.slotsList id others, Writable slots) → ImportPath.FitsList paths →
    ImportPath.FitsList others → ImportPath.renderList paths = ImportPath.renderList others →
    paths = others
  | [], others, _, _, _, _, heq => by
      cases others <;> simp_all [ImportPath.renderList]
  | path :: rest, others, h, h', hfits, hfits', heq => by
      cases others <;> simp only [ImportPath.renderList, List.cons.injEq, reduceCtorEq] at heq
      obtain ⟨hfirst, hrest⟩ := List.forall_mem_cons.mp h
      obtain ⟨hother, hothers⟩ := List.forall_mem_cons.mp h'
      rw [ImportPath.eq_of_render path _ hfirst hother hfits.1 hfits'.1 heq.1,
        ImportPath.eq_of_renderList rest _ hrest hothers hfits.2 hfits'.2 heq.2]

end

end FilterScript
