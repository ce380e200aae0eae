import Mathlib.Data.List.Basic
import FilterScript.Tree.Render

/-!
# Where a piece of text ends

What is put into a list of words, into braces or behind a dot has to be found
again in the text of the whole. It is found if the marks that stand between
such pieces occur in a piece within brackets or quotes only, and if its brackets
pair up.
-/

namespace FilterScript

def openers : List Char :=
  ['(', '[', '\x7b']

def closers : List Char :=
  [')', ']', '\x7d']

/-- Characters that begin or end what is set off from the text around it. -/
def delimiters : List Char :=
  '"' :: openers ++ closers

/-- Text in which the given marks stand only between brackets or quotes. Between
brackets all marks are free. -/
inductive Sealed : List Char → List Char → Prop
  | nil {stops : List Char} : Sealed stops []
  | plain {stops text : List Char} {c : Char} (hstop : c ∉ stops) (hplain : c ∉ delimiters)
      (rest : Sealed stops text) : Sealed stops (c :: text)
  | quoted {stops content text : List Char} (hstop : '"' ∉ stops) (hcontent : '"' ∉ content)
      (rest : Sealed stops text) : Sealed stops ('"' :: (content ++ '"' :: text))
  | bracketed {stops inner text : List Char} {left right : Char} (hstop : left ∉ stops)
      (hleft : left ∈ openers) (hright : right ∈ closers) (hinner : Sealed [] inner)
      (rest : Sealed stops text) : Sealed stops (left :: (inner ++ right :: text))

/-- The text is at its end, or goes on with one of the marks or a closing
bracket. -/
def Stopped (stops text : List Char) : Prop :=
  ∀ c ∈ text.head?, c ∈ stops ∨ c ∈ closers

theorem stopped_of_closer {stops text : List Char} {c : Char} (h : c ∈ closers) :
    Stopped stops (c :: text) := by
  rintro _ ⟨⟩
  exact .inr h

theorem opener_delimits {c : Char} (h : c ∈ openers) : c ∈ delimiters :=
  List.mem_cons_of_mem _ (List.mem_append_left _ h)

theorem closer_delimits {c : Char} (h : c ∈ closers) : c ∈ delimiters :=
  List.mem_cons_of_mem _ (List.mem_append_right _ h)

/-- None of the characters is a mark or a delimiter. -/
def isPlain (stops text : List Char) : Bool :=
  text.all fun c => !(stops ++ delimiters).contains c

theorem isPlain_iff {stops text : List Char} :
    isPlain stops text = true ↔ ∀ c ∈ text, c ∉ stops ∧ c ∉ delimiters := by
  simp [isPlain]

namespace Sealed

variable {stops first second rest rest' : List Char}

theorem begins {c : Char} (h : Sealed stops (c :: first)) : ¬ (c ∈ stops ∨ c ∈ closers) := by
  have hopener (hleft : c ∈ openers) : c ∉ closers := by
    simp only [openers, List.mem_cons, List.not_mem_nil, or_false] at hleft
    rcases hleft with rfl | rfl | rfl <;> decide
  cases h with
  | plain hstop hplain _ => exact not_or.mpr ⟨hstop, fun hclose => hplain (closer_delimits hclose)⟩
  | quoted hstop _ _ => exact not_or.mpr ⟨hstop, by decide⟩
  | bracketed hstop hleft _ _ _ => exact not_or.mpr ⟨hstop, hopener hleft⟩

theorem eq_nil (h : Sealed stops first) (hstopped : Stopped stops (first ++ rest)) :
    first = [] := by
  cases first with
  | nil => rfl
  | cons c text => exact absurd (hstopped c rfl) h.begins

/-- Quoted text ends at the next quote. -/
theorem quote_inj (h : '"' ∉ first) (h' : '"' ∉ second)
    (heq : first ++ '"' :: rest = second ++ '"' :: rest') : first = second ∧ rest = rest' := by
  have hread {content : List Char} (more : List Char) (hcontent : '"' ∉ content) :
      (content ++ '"' :: more).takeWhile (· ≠ '"') = content := by
    have hletters : ∀ c ∈ content, decide (c ≠ '"') = true := by
      intro c hc
      exact decide_eq_true (ne_of_mem_of_not_mem hc hcontent)
    rw [List.takeWhile_append_of_pos hletters]
    simp
  obtain rfl : first = second := by rw [← hread rest h, heq, hread rest' h']
  exact ⟨rfl, (List.cons.inj (List.append_cancel_left heq)).2⟩

/-- Sealed text is found in any text that it begins, as long as a mark stands
behind it. -/
theorem append_inj (h : Sealed stops first) (h' : Sealed stops second)
    (hrest : Stopped stops rest) (hrest' : Stopped stops rest')
    (heq : first ++ rest = second ++ rest') : first = second ∧ rest = rest' := by
  have hquote : '"' ∉ openers := by decide
  -- The first character tells how the text goes on, in both texts alike.
  induction h generalizing second rest rest' with
  | nil =>
      obtain rfl : second = [] := h'.eq_nil (by rwa [← heq])
      exact ⟨rfl, heq⟩
  | plain hstop hplain hfirst ih =>
      cases h' with
      | nil => cases (hfirst.plain hstop hplain).eq_nil (by rwa [heq])
      | plain _ _ hsecond =>
          obtain ⟨rfl, htail⟩ := List.cons.inj heq
          obtain ⟨rfl, hrests⟩ := ih hsecond hrest hrest' htail
          exact ⟨rfl, hrests⟩
      | quoted _ _ _ =>
          obtain ⟨rfl, -⟩ := List.cons.inj heq
          exact absurd List.mem_cons_self hplain
      | bracketed _ hleft _ _ _ =>
          obtain ⟨rfl, -⟩ := List.cons.inj heq
          exact absurd (opener_delimits hleft) hplain
  | quoted hstop hcontent hfirst ih =>
      cases h' with
      | nil => cases (hfirst.quoted hstop hcontent).eq_nil (by rwa [heq])
      | plain _ hplain _ =>
          obtain ⟨rfl, -⟩ := List.cons.inj heq
          exact absurd List.mem_cons_self hplain
      | quoted _ hcontent' hsecond =>
          simp only [List.cons_append, List.append_assoc, List.cons.injEq, true_and] at heq
          obtain ⟨rfl, htail⟩ := quote_inj hcontent hcontent' heq
          obtain ⟨rfl, hrests⟩ := ih hsecond hrest hrest' htail
          exact ⟨rfl, hrests⟩
      | bracketed _ hleft _ _ _ =>
          obtain ⟨rfl, -⟩ := List.cons.inj heq
          exact absurd hleft hquote
  | bracketed hstop hleft hright hinner hfirst ihinner ih =>
      cases h' with
      | nil => cases (hinner.bracketed hstop hleft hright hfirst).eq_nil (by rwa [heq])
      | plain _ hplain _ =>
          obtain ⟨rfl, -⟩ := List.cons.inj heq
          exact absurd (opener_delimits hleft) hplain
      | quoted _ _ _ =>
          obtain ⟨rfl, -⟩ := List.cons.inj heq
          exact absurd hleft hquote
      | bracketed _ _ hright' hinner' hsecond =>
          simp only [List.cons_append, List.append_assoc, List.cons.injEq] at heq
          obtain ⟨rfl, htails⟩ := heq
          obtain ⟨rfl, hbehind⟩ :=
            ihinner hinner' (stopped_of_closer hright) (stopped_of_closer hright') htails
          obtain ⟨rfl, htail⟩ := List.cons.inj hbehind
          obtain ⟨rfl, hrests⟩ := ih hsecond hrest hrest' htail
          exact ⟨rfl, hrests⟩

theorem append (h : Sealed stops first) (h' : Sealed stops second) :
    Sealed stops (first ++ second) := by
  induction h with
  | nil => exact h'
  | plain hstop hplain _ ih => exact .plain hstop hplain (ih h')
  | quoted hstop hcontent _ ih =>
      rw [List.cons_append, List.append_assoc]
      exact .quoted hstop hcontent (ih h')
  | bracketed hstop hleft hright hinner _ _ ih =>
      rw [List.cons_append, List.append_assoc]
      exact .bracketed hstop hleft hright hinner (ih h')

theorem mono {fewer : List Char} (h : Sealed stops first) (hfewer : fewer ⊆ stops) :
    Sealed fewer first := by
  induction h with
  | nil => exact .nil
  | plain hstop hplain _ ih => exact .plain (fun hc => hstop (hfewer hc)) hplain (ih hfewer)
  | quoted hstop hcontent _ ih => exact .quoted (fun hc => hstop (hfewer hc)) hcontent (ih hfewer)
  | bracketed hstop hleft hright hinner _ _ ih =>
      exact .bracketed (fun hc => hstop (hfewer hc)) hleft hright hinner (ih hfewer)

theorem of_plain (h : isPlain stops first = true) : Sealed stops first := by
  induction first with
  | nil => exact .nil
  | cons c text ih =>
      obtain ⟨⟨hstop, hplain⟩, hrest⟩ := List.forall_mem_cons.mp (isPlain_iff.mp h)
      exact .plain hstop hplain (ih (isPlain_iff.mpr hrest))

/-- Sealed text does not end with a mark, either. -/
theorem ends (h : Sealed stops first) : ∀ c ∈ first.getLast?, c ∈ stops → c ∈ delimiters := by
  have hcons {text : List Char} {c last : Char} (hlast : last ∈ (c :: text).getLast?) :
      last ∈ text.getLast? ∨ last = c := by
    cases htext : text.getLast? <;> simp_all [List.getLast?_cons]
  induction h with
  | nil => simp
  | plain hstop _ _ ih =>
      intro last hlast hmark
      rcases hcons hlast with hlast | rfl
      · exact ih last hlast hmark
      · exact absurd hmark hstop
  | @quoted stops content text _ _ _ ih =>
      intro last hlast hmark
      have hlast : last ∈ ('"' :: text).getLast? := by simpa [List.getLast?_cons] using hlast
      rcases hcons hlast with hlast | rfl
      · exact ih last hlast hmark
      · exact List.mem_cons_self
  | @bracketed stops inner text left right _ _ hright _ _ _ ih =>
      intro last hlast hmark
      have hlast : last ∈ (right :: text).getLast? := by simpa [List.getLast?_cons] using hlast
      rcases hcons hlast with hlast | rfl
      · exact ih last hlast hmark
      · exact closer_delimits hright

end Sealed

/-! ## Pieces -/

/-- A sealed text that is not empty. -/
structure Piece (stops : List Char) (text : String) : Prop where
  ne_empty : text ≠ ""
  isSealed : Sealed stops text.toList

/-- Words of a list have neither blanks nor commas of their own, and stay in
their line. -/
abbrev Word : String → Prop :=
  Piece [' ', ',', '\n']

variable {stops : List Char} {pieces others : List String}

theorem Piece.mono {fewer : List Char} {text : String} (h : Piece stops text)
    (hfewer : fewer ⊆ stops) : Piece fewer text :=
  ⟨h.ne_empty, h.isSealed.mono hfewer⟩

theorem Piece.append {text more : String} (h : Piece stops text)
    (hmore : Sealed stops more.toList) : Piece stops (text ++ more) := by
  constructor
  · simp [h.ne_empty]
  · rw [String.toList_append]
    exact h.isSealed.append hmore

/-- Text that is found where nothing in it can be taken for a mark or a
bracket. -/
theorem Piece.of_plain {text : String}
    (h : text ≠ "" ∧ isPlain stops text.toList = true) : Piece stops text :=
  ⟨h.1, .of_plain h.2⟩

theorem Sealed.intercalate {separator : String} (hseparator : Sealed stops separator.toList)
    (h : ∀ piece ∈ pieces, Piece stops piece) :
    Sealed stops (separator.intercalate pieces).toList := by
  induction pieces with
  | nil => simpa using Sealed.nil
  | cons first rest ih =>
      obtain ⟨hfirst, hrest⟩ := List.forall_mem_cons.mp h
      cases rest with
      | nil => simpa using hfirst.isSealed
      | cons second rest =>
          rw [String.intercalate_cons_cons, String.toList_append, String.toList_append]
          exact (hfirst.isSealed.append hseparator).append (ih hrest)

theorem intercalate_ne_empty {separator first : String} {rest : List String} (h : first ≠ "") :
    separator.intercalate (first :: rest) ≠ "" := by
  cases rest with
  | nil => simpa using h
  | cons second rest => simp [String.intercalate_cons_cons, h]

theorem head?_intercalate {separator first : String} {rest : List String} (h : first ≠ "") :
    (separator.intercalate (first :: rest)).toList.head? = first.toList.head? := by
  have hletters : first.toList ≠ [] := by simpa using h
  cases rest with
  | nil => simp
  | cons second rest =>
      rw [String.intercalate_cons_cons, String.append_assoc, String.toList_append,
        List.head?_append_of_ne_nil _ hletters]

theorem Piece.intercalate {separator : String} (hseparator : Sealed stops separator.toList)
    (h : ∀ piece ∈ pieces, Piece stops piece) (hne : pieces ≠ []) :
    Piece stops (separator.intercalate pieces) := by
  refine ⟨?_, hseparator.intercalate h⟩
  cases pieces with
  | nil => exact absurd rfl hne
  | cons first rest => exact intercalate_ne_empty (h first List.mem_cons_self).ne_empty

/-- A piece ends where a mark follows it. -/
theorem Piece.append_inj {first second more more' : String} (h : Piece stops first)
    (h' : Piece stops second) (hmore : Stopped stops more.toList)
    (hmore' : Stopped stops more'.toList) (heq : first ++ more = second ++ more') :
    first = second ∧ more = more' := by
  rw [← String.toList_inj, String.toList_append, String.toList_append] at heq
  obtain ⟨hpieces, hrests⟩ := h.isSealed.append_inj h'.isSealed hmore hmore' heq
  exact ⟨String.toList_injective hpieces, String.toList_injective hrests⟩

theorem stopped_empty : Stopped stops "".toList := by
  simp [Stopped]

/-- Pieces with a separator between them are told apart by it. -/
theorem intercalate_inj {separator : String} {mark : Char} (hmark : mark ∈ stops)
    (hseparator : separator.toList.head? = some mark) (h : ∀ piece ∈ pieces, Piece stops piece)
    (h' : ∀ piece ∈ others, Piece stops piece)
    (heq : separator.intercalate pieces = separator.intercalate others) : pieces = others := by
  have hbegins (more : String) : (separator ++ more).toList.head? = some mark := by
    rw [String.toList_append, List.head?_append, hseparator]
    rfl
  have hstopped (more : String) : Stopped stops (separator ++ more).toList := by
    intro c hc
    obtain rfl : mark = c := Option.some.inj ((hbegins more).symm.trans hc)
    exact .inl hmark
  have hshort {first second more : String} (hfirst : Piece stops first)
      (hsecond : Piece stops second) : first ≠ second ++ (separator ++ more) := by
    intro heq
    rw [← String.append_empty (s := first)] at heq
    obtain ⟨-, hmore⟩ := hfirst.append_inj hsecond stopped_empty (hstopped more) heq
    have hend := hbegins more
    rw [← hmore] at hend
    cases hend
  induction pieces generalizing others with
  | nil =>
      cases others with
      | nil => rfl
      | cons other others =>
          exact absurd heq.symm (intercalate_ne_empty (h' other List.mem_cons_self).ne_empty)
  | cons first rest ih =>
      obtain ⟨hfirst, hrest⟩ := List.forall_mem_cons.mp h
      cases others with
      | nil => exact absurd heq (intercalate_ne_empty hfirst.ne_empty)
      | cons other others =>
          obtain ⟨hother, hothers⟩ := List.forall_mem_cons.mp h'
          cases rest <;> cases others <;> simp only [String.intercalate_singleton,
            String.intercalate_cons_cons, String.append_assoc] at heq
          case nil.nil => rw [heq]
          case nil.cons => exact absurd heq (hshort hfirst hother)
          case cons.nil => exact absurd heq.symm (hshort hother hfirst)
          case cons.cons =>
            obtain ⟨rfl, htail⟩ := hfirst.append_inj hother (hstopped _) (hstopped _) heq
            rw [ih hrest hothers ((String.append_right_inj _).mp htail)]

/-! ## Lists and braces -/

theorem Piece.listForm {words : List String} (hstop : '(' ∉ stops)
    (h : ∀ word ∈ words, Word word) : Piece stops (listForm words) := by
  have hinner : Sealed [] (" ".intercalate words).toList :=
    .intercalate (.of_plain (by decide)) fun word hword => (h word hword).mono (by simp)
  constructor
  · simp [FilterScript.listForm]
  · simpa [FilterScript.listForm] using
      Sealed.bracketed hstop (by decide) (show ')' ∈ closers by decide) hinner .nil

theorem listForm_inj {words words' : List String} (h : ∀ word ∈ words, Word word)
    (h' : ∀ word ∈ words', Word word) (heq : listForm words = listForm words') :
    words = words' := by
  simp only [listForm, String.append_left_inj, String.append_right_inj] at heq
  exact intercalate_inj (List.mem_cons_self) rfl h h' heq

theorem Piece.braceForm (hstop : '\x7b' ∉ stops) (h : ∀ piece ∈ pieces, Piece [','] piece) :
    Piece stops (braceForm pieces) := by
  have hinner : Sealed [] (", ".intercalate pieces).toList :=
    .intercalate (.of_plain (by decide)) fun piece hpiece => (h piece hpiece).mono (by simp)
  constructor
  · simp [FilterScript.braceForm]
  · simpa [FilterScript.braceForm] using
      Sealed.bracketed hstop (by decide) (show '\x7d' ∈ closers by decide) hinner .nil

theorem braceForm_inj (h : ∀ piece ∈ pieces, Piece [','] piece)
    (h' : ∀ piece ∈ others, Piece [','] piece) (heq : braceForm pieces = braceForm others) :
    pieces = others := by
  simp only [braceForm, String.append_left_inj, String.append_right_inj] at heq
  exact intercalate_inj (List.mem_cons_self) rfl h h' heq

end FilterScript
