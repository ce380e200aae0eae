import FilterScript.Proofs.Layout.Scripts
import FilterScript.Proofs.Outlines
import Mathlib.Algebra.BigOperators.Ring.List
import Mathlib.Algebra.Ring.Nat

/-!
# What import paths stand for

A path with groups stands for one target for every way to choose a member of each
group. The targets come in the order of these choices, the leftmost part varying
slowest. As the parts of a path stand in order in the source, so do the names of each
target, and the target lies inside of the path.
-/

namespace FilterScript

variable {σ ν : Type}

/-! ## Choices -/

/-- One element of each list, in lexicographic order: what is chosen from the first list
varies slowest. -/
def choices {α : Type} : List (List α) → List (List α)
  | [] => [[]]
  | options :: rest => options.flatMap fun option => (choices rest).map (option :: ·)

section

variable {α : Type}

theorem mem_choices_cons {options : List α} {rest : List (List α)} {choice : List α} :
    choice ∈ choices (options :: rest) ↔
      ∃ option ∈ options, ∃ others ∈ choices rest, option :: others = choice := by
  simp [choices]

theorem length_choices (options : List (List α)) :
    (choices options).length = (options.map List.length).prod := by
  induction options with
  | nil => rfl
  | cons first rest ih =>
      simp only [choices, List.length_flatMap, List.length_map, ih, List.map_const',
        List.sum_replicate_nat, List.map_cons, List.prod_cons]

theorem mem_extendEach {beginnings continuations : List (List α)} {whole : List α} :
    whole ∈ extendEach beginnings continuations ↔
      ∃ beginning ∈ beginnings, ∃ continuation ∈ continuations,
        beginning ++ continuation = whole := by
  simp [extendEach]

@[simp] theorem extendEach_nil (beginnings : List (List α)) :
    extendEach beginnings [[]] = beginnings := by
  simp [extendEach]

theorem extendEach_singleton (beginnings : List (List α)) (continuation : List α) :
    extendEach beginnings [continuation] = beginnings.map (· ++ continuation) := by
  simp [extendEach, List.map_eq_flatMap]

theorem extendEach_assoc (first second third : List (List α)) :
    extendEach (extendEach first second) third = extendEach first (extendEach second third) := by
  simp [extendEach, List.flatMap_assoc, List.flatMap_map, List.map_flatMap, Function.comp_def]

theorem flatten_choices_cons (options : List (List α)) (rest : List (List (List α))) :
    (choices (options :: rest)).map List.flatten =
      extendEach options ((choices rest).map List.flatten) := by
  simp [choices, extendEach, List.map_flatMap, Function.comp_def]

end

/-! ## Words -/

mutual

/-- The names that a path may be read as: one word of each part, joined. -/
def ImportPath.words : ImportPath σ ν → List (List (Ident σ ν))
  | ⟨parts, _⟩ => (choices (ImportPart.wordsOfEach parts)).map List.flatten

/-- A name is a word of its own, and a group has the words of its members in turn. -/
def ImportPart.wordsOfEach : List (ImportPart σ ν) → List (List (List (Ident σ ν)))
  | [] => []
  | .name ident :: rest => [[ident]] :: ImportPart.wordsOfEach rest
  | .group members _ :: rest => ImportPath.wordsOfAll members :: ImportPart.wordsOfEach rest

def ImportPath.wordsOfAll : List (ImportPath σ ν) → List (List (Ident σ ν))
  | [] => []
  | member :: rest => member.words ++ ImportPath.wordsOfAll rest

end

mutual

/-- Where all paths have parts, every word has a name. -/
theorem ImportPath.words_ne_nil : (path : ImportPath σ ν) → path.Fits →
    ∀ word ∈ path.words, word ≠ []
  | ⟨[], _⟩, h => absurd rfl h.1
  | ⟨.name ident :: rest, _⟩, _ => by
      intro word hword
      rw [ImportPath.words, ImportPart.wordsOfEach, flatten_choices_cons, mem_extendEach] at hword
      obtain ⟨_, hfirst, others, _, rfl⟩ := hword
      obtain rfl := List.mem_singleton.mp hfirst
      exact List.cons_ne_nil _ _
  | ⟨.group members _ :: rest, _⟩, h => by
      intro word hword
      rw [ImportPath.words, ImportPart.wordsOfEach, flatten_choices_cons, mem_extendEach] at hword
      obtain ⟨first, hfirst, others, _, rfl⟩ := hword
      exact List.append_ne_nil_of_left_ne_nil
        (ImportPath.wordsOfAll_ne_nil members h.2.1 first hfirst) _

theorem ImportPath.wordsOfAll_ne_nil : (members : List (ImportPath σ ν)) →
    ImportPath.FitsList members → ∀ word ∈ ImportPath.wordsOfAll members, word ≠ []
  | [], _ => by simp [ImportPath.wordsOfAll]
  | member :: rest, h => by
      rw [ImportPath.wordsOfAll]
      exact List.forall_mem_append.mpr
        ⟨member.words_ne_nil h.1, ImportPath.wordsOfAll_ne_nil rest h.2⟩

end

mutual

/-- The targets of a path are its words. -/
theorem ImportPath.targets_eq_words : (path : ImportPath σ ν) → path.Fits →
    path.targets = path.words
  | ⟨parts, span⟩, h => by
      -- A word of a path that fits has a name, so the filter takes nothing away.
      have hwords : targetsFrom [[]] parts = (⟨parts, span⟩ : ImportPath σ ν).words := by
        rw [targetsFrom_eq parts h.2, ImportPath.words]
        simp [extendEach]
      rw [ImportPath.targets, hwords]
      refine List.filter_eq_self.mpr fun word hword => ?_
      simpa using ImportPath.words_ne_nil _ h word hword

/-- Beginnings that grow part by part end up in front of every choice from the parts. -/
theorem targetsFrom_eq : (parts : List (ImportPart σ ν)) → ImportPart.FitsList parts →
    ∀ beginnings, targetsFrom beginnings parts =
      extendEach beginnings ((choices (ImportPart.wordsOfEach parts)).map List.flatten)
  | [], _, beginnings => by simp [targetsFrom, ImportPart.wordsOfEach, choices]
  | .name ident :: rest, h, beginnings => by
      rw [targetsFrom, targetsFrom_eq rest h, ImportPart.wordsOfEach, flatten_choices_cons,
        ← extendEach_assoc, extendEach_singleton]
  | .group members _ :: rest, h, beginnings => by
      rw [targetsFrom, targetsFrom_eq rest h.2, targetsOfEach_eq members h.1,
        ImportPart.wordsOfEach, flatten_choices_cons, ← extendEach_assoc]

theorem targetsOfEach_eq : (members : List (ImportPath σ ν)) → ImportPath.FitsList members →
    targetsOfEach members = ImportPath.wordsOfAll members
  | [], _ => by simp [targetsOfEach, ImportPath.wordsOfAll]
  | member :: rest, h => by
      rw [targetsOfEach, member.targets_eq_words h.1, targetsOfEach_eq rest h.2,
        ImportPath.wordsOfAll]

end

/-- Names that are not none make a path, and its segments are those names. -/
theorem segments_filterMap_ofSegments? {words : List (List (Ident Span ν))}
    (h : ∀ word ∈ words, word ≠ []) :
    (words.filterMap Path.ofSegments?).map Path.segments = words := by
  induction words with
  | nil => rfl
  | cons word rest ih =>
      obtain ⟨hword, hrest⟩ := List.forall_mem_cons.mp h
      cases word with
      | nil => exact absurd rfl hword
      | cons first others =>
          simpa [List.filterMap_cons, Path.ofSegments?, Path.segments] using ih hrest

theorem ImportPath.segments_expand {path : ImportPath Span ν} (h : path.Fits) :
    path.expand.map Path.segments = path.words := by
  rw [expand, path.targets_eq_words h]
  exact segments_filterMap_ofSegments? (path.words_ne_nil h)

/-- How many ways there are to go on with a part. -/
def ImportPart.count : ImportPart Span ν → Nat
  | .name _ => 1
  | .group members _ => (members.map fun member => member.expand.length).sum

theorem ImportPath.length_expand {path : ImportPath Span ν} (h : path.Fits) :
    path.expand.length = path.words.length := by
  rw [← segments_expand h, List.length_map]

theorem ImportPath.length_wordsOfAll {members : List (ImportPath Span ν)}
    (h : ImportPath.FitsList members) :
    (ImportPath.wordsOfAll members).length =
      (members.map fun member => member.expand.length).sum := by
  induction members with
  | nil => simp [wordsOfAll]
  | cons member rest ih =>
      rw [wordsOfAll, List.length_append, ← length_expand h.1, ih h.2, List.map_cons, List.sum_cons]

theorem ImportPart.length_wordsOfEach {parts : List (ImportPart Span ν)}
    (h : ImportPart.FitsList parts) :
    (ImportPart.wordsOfEach parts).map List.length = parts.map ImportPart.count := by
  induction parts with
  | nil => simp [wordsOfEach]
  | cons part rest ih =>
      cases part with
      | name ident => rw [wordsOfEach, List.map_cons, ih h, List.map_cons]; rfl
      | group members span =>
          rw [wordsOfEach, List.map_cons, ih h.2, ImportPath.length_wordsOfAll h.1, List.map_cons]
          rfl

/-- There are as many targets as the counts of the parts make if they are multiplied. -/
theorem ImportPath.length_expand_eq_prod {path : ImportPath Span ν} (h : path.Fits) :
    path.expand.length = (path.parts.map ImportPart.count).prod := by
  obtain ⟨parts, span⟩ := path
  rw [length_expand h, words, List.length_map, length_choices,
    ImportPart.length_wordsOfEach h.2]

/-! ## Places -/

/-- The name is inside of the span. -/
structure Ident.Inside (ident : Ident Span ν) (span : Span) : Prop where
  starts : span.start ≤ ident.span.start
  nonempty : ident.span.start < ident.span.stop
  stops : ident.span.stop ≤ span.stop

/-- The names stand in order. -/
def InPlace (names : List (Ident Span ν)) : Prop :=
  names.Pairwise fun ident later => ident.span.stop ≤ later.span.start

/-- A node that is not empty, with its children in order inside of it. -/
def Outline.Placed (node : Outline Span ν) : Prop :=
  node.note.start < node.note.stop ∧ node.Nests

section

open Outline

theorem Outline.pairwise_of_placed {outlines : List (Outline Span ν)}
    (h : ∀ node ∈ subtreesList outlines, node.Placed)
    (hchain : outlines.IsChain fun outline next => outline.note.stop ≤ next.note.start) :
    outlines.Pairwise fun outline later => outline.note.stop ≤ later.note.start :=
  pairwise_of_isChain (fun outline houtline =>
    (h outline (mem_subtreesList.mpr ⟨outline, houtline, outline.mem_subtrees_self⟩)).1) hchain

/-- A choice from parts in order, where the words of each part stand in order inside of
it. -/
theorem choices_inPlace {outline : Outline Span ν} {outlines : List (Outline Span ν)}
    {options : List (List (Ident Span ν))} {rest : List (List (List (Ident Span ν)))}
    (hoptions : ∀ word ∈ options,
      InPlace word ∧ ∀ ident ∈ word, ident.Inside outline.note)
    (hrest : ∀ choice ∈ choices rest, InPlace choice.flatten ∧
      ∀ ident ∈ choice.flatten, ∃ outline ∈ outlines, ident.Inside outline.note)
    (hpairwise : (outline :: outlines).Pairwise
      fun outline later => outline.note.stop ≤ later.note.start) :
    ∀ choice ∈ choices (options :: rest), InPlace choice.flatten ∧
      ∀ ident ∈ choice.flatten, ∃ other ∈ outline :: outlines, ident.Inside other.note := by
  intro choice hchoice
  obtain ⟨word, hword, others, hothers, rfl⟩ := mem_choices_cons.mp hchoice
  obtain ⟨hplace, hinside⟩ := hoptions word hword
  obtain ⟨hplaces, hinsides⟩ := hrest others hothers
  rw [List.flatten_cons]
  constructor
  · refine List.pairwise_append.mpr ⟨hplace, hplaces, fun ident hident later hlater => ?_⟩
    obtain ⟨other, hother, hlater⟩ := hinsides later hlater
    have hbehind := (List.pairwise_cons.mp hpairwise).1 other hother
    exact (hinside ident hident).stops.trans (hbehind.trans hlater.starts)
  · intro ident hident
    rcases List.mem_append.mp hident with hident | hident
    · exact ⟨outline, List.mem_cons_self, hinside ident hident⟩
    · obtain ⟨other, hother, hident⟩ := hinsides ident hident
      exact ⟨other, List.mem_cons_of_mem _ hother, hident⟩

mutual

/-- The names of a word of a path stand in order inside of the path. -/
theorem ImportPath.words_inPlace : (path : ImportPath Span ν) →
    (∀ node ∈ path.outline.subtrees, node.Placed) →
      ∀ word ∈ path.words, InPlace word ∧ ∀ ident ∈ word, ident.Inside path.span
  | ⟨parts, span⟩, h => by
      intro word hword
      rw [ImportPath.outline, subtrees] at h
      obtain ⟨⟨-, hnests⟩, hparts⟩ := List.forall_mem_cons.mp h
      rw [ImportPath.words] at hword
      obtain ⟨choice, hchoice, rfl⟩ := List.mem_map.mp hword
      obtain ⟨hplace, hinside⟩ := ImportPart.choices_inPlace parts hparts
        (pairwise_of_placed hparts hnests.ordered) choice hchoice
      refine ⟨hplace, fun ident hident => ?_⟩
      obtain ⟨child, hchild, hident⟩ := hinside ident hident
      obtain ⟨hstart, hstop⟩ := hnests.inside child hchild
      exact ⟨hstart.trans hident.starts, hident.nonempty, hident.stops.trans hstop⟩

/-- Each name that is chosen is inside of its part, and the parts stand in order. -/
theorem ImportPart.choices_inPlace : (parts : List (ImportPart Span ν)) →
    (∀ node ∈ subtreesList (ImportPart.outlineList parts), node.Placed) →
      (ImportPart.outlineList parts).Pairwise
        (fun outline later => outline.note.stop ≤ later.note.start) →
        ∀ choice ∈ choices (ImportPart.wordsOfEach parts), InPlace choice.flatten ∧
          ∀ ident ∈ choice.flatten, ∃ outline ∈ ImportPart.outlineList parts,
            ident.Inside outline.note
  | [], _, _ => by
      intro choice hchoice
      obtain rfl : choice = [] := by simpa [ImportPart.wordsOfEach, choices] using hchoice
      simp [InPlace]
  | .name ident :: rest, h, hpairwise => by
      rw [ImportPart.outlineList] at h hpairwise ⊢
      rw [subtreesList] at h
      obtain ⟨hident, hrest⟩ := List.forall_mem_append.mp h
      have hnonempty := (hident _ (mem_subtrees_self _)).1
      refine choices_inPlace (List.forall_mem_singleton.mpr ⟨List.pairwise_singleton _ _, ?_⟩)
        (ImportPart.choices_inPlace rest hrest (List.pairwise_cons.mp hpairwise).2) hpairwise
      exact List.forall_mem_singleton.mpr ⟨Nat.le_refl _, hnonempty, Nat.le_refl _⟩
  | .group members span :: rest, h, hpairwise => by
      rw [ImportPart.outlineList] at h hpairwise ⊢
      rw [subtreesList, subtrees] at h
      obtain ⟨hgroup, hrest⟩ := List.forall_mem_append.mp h
      obtain ⟨⟨-, hnests⟩, hmembers⟩ := List.forall_mem_cons.mp hgroup
      refine choices_inPlace (fun word hword => ?_)
        (ImportPart.choices_inPlace rest hrest (List.pairwise_cons.mp hpairwise).2) hpairwise
      obtain ⟨hplace, member, hmember, hinside⟩ :=
        ImportPath.wordsOfAll_inPlace members hmembers word hword
      obtain ⟨hstart, hstop⟩ := hnests.inside member hmember
      refine ⟨hplace, fun ident hident => ?_⟩
      have hident := hinside ident hident
      exact ⟨hstart.trans hident.starts, hident.nonempty, hident.stops.trans hstop⟩

/-- The names of a word of a member stand in order inside of that member. -/
theorem ImportPath.wordsOfAll_inPlace : (members : List (ImportPath Span ν)) →
    (∀ node ∈ subtreesList (ImportPath.outlineList members), node.Placed) →
      ∀ word ∈ ImportPath.wordsOfAll members, InPlace word ∧
        ∃ outline ∈ ImportPath.outlineList members, ∀ ident ∈ word, ident.Inside outline.note
  | [], _ => by simp [ImportPath.wordsOfAll]
  | member :: rest, h => by
      rw [ImportPath.outlineList, subtreesList] at h
      obtain ⟨hmember, hrest⟩ := List.forall_mem_append.mp h
      intro word hword
      rw [ImportPath.wordsOfAll] at hword
      rcases List.mem_append.mp hword with hword | hword
      · obtain ⟨hplace, hinside⟩ := member.words_inPlace hmember word hword
        refine ⟨hplace, member.outline, by simp [ImportPath.outlineList], ?_⟩
        simpa using hinside
      · obtain ⟨hplace, outline, houtline, hinside⟩ :=
          ImportPath.wordsOfAll_inPlace rest hrest word hword
        exact ⟨hplace, outline, by simp [ImportPath.outlineList, houtline], hinside⟩

end

end

/-! ## Paths of sources -/

section

open Outline

mutual

/-- A path fits if all paths in it have parts, its own parts included. -/
theorem ImportPath.fits_of_subtrees : (path : ImportPath σ ν) →
    (∀ other : ImportPath σ ν, other.outline ∈ path.outline.subtrees → other.parts ≠ []) →
      path.Fits
  | ⟨parts, span⟩, h => by
      refine ⟨h _ (mem_subtrees_self _), ImportPart.fits_of_subtrees parts fun other hother => ?_⟩
      refine h other ?_
      rw [ImportPath.outline, subtrees]
      exact List.mem_cons_of_mem _ hother

theorem ImportPart.fits_of_subtrees : (parts : List (ImportPart σ ν)) →
    (∀ other : ImportPath σ ν, other.outline ∈ subtreesList (ImportPart.outlineList parts) →
      other.parts ≠ []) → ImportPart.FitsList parts
  | [], _ => trivial
  | .name ident :: rest, h => by
      refine ImportPart.fits_of_subtrees rest fun other hother => h other ?_
      simp [ImportPart.outlineList, subtreesList, hother]
  | .group members span :: rest, h => by
      refine ⟨ImportPath.fitsList_of_subtrees members fun other hother => h other ?_,
        ImportPart.fits_of_subtrees rest fun other hother => h other ?_⟩
      · simp [ImportPart.outlineList, subtreesList, subtrees, hother]
      · simp [ImportPart.outlineList, subtreesList, hother]

theorem ImportPath.fitsList_of_subtrees : (members : List (ImportPath σ ν)) →
    (∀ other : ImportPath σ ν, other.outline ∈ subtreesList (ImportPath.outlineList members) →
      other.parts ≠ []) → ImportPath.FitsList members
  | [], _ => trivial
  | member :: rest, h => by
      refine ⟨member.fits_of_subtrees fun other hother => h other ?_,
        ImportPath.fitsList_of_subtrees rest fun other hother => h other ?_⟩
      · simp [ImportPath.outlineList, subtreesList, hother]
      · simp [ImportPath.outlineList, subtreesList, hother]

end

end

/-- A path stands for its words: they are all that it expands to, in this order, and
they are placed as they are written. -/
structure ImportPath.Expands (path : ImportPath Span ν) : Prop where
  words : path.expand.map Path.segments = path.words
  count : path.expand.length = (path.parts.map ImportPart.count).prod
  /-- From a group without members there is no way to go on. -/
  none : ∀ span, .group [] span ∈ path.parts → path.expand = []
  ordered : ∀ target ∈ path.expand,
    target.segments.Pairwise fun ident later => ident.span.start < later.span.start
  ends : ∀ target ∈ path.expand, ∃ first ∈ target.segments.head?,
    ∃ last ∈ target.segments.getLast?, target.span = ⟨first.span.start, last.span.stop⟩
  inside : ∀ target ∈ path.expand,
    path.span.start ≤ target.span.start ∧ target.span.stop ≤ path.span.stop

/-- A target is made of a word, and its span is the hull of its first and last name. -/
theorem ImportPath.mem_expand {path : ImportPath Span ν} (h : path.Fits) {target : Path Span ν}
    (htarget : target ∈ path.expand) :
    target.segments ∈ path.words ∧ target.span = target.first.span.hull target.last.span := by
  refine ⟨segments_expand h ▸ List.mem_map_of_mem htarget, ?_⟩
  obtain ⟨names, -, hnames⟩ := List.mem_filterMap.mp htarget
  cases names with
  | nil => cases hnames
  | cons first rest => cases hnames; rfl

theorem ImportPath.expands {path : ImportPath Span ν} (hfits : path.Fits)
    (hplaced : ∀ node ∈ path.outline.subtrees, node.Placed) : path.Expands := by
  have hwords : ∀ target ∈ path.expand, InPlace target.segments ∧
      ∀ ident ∈ target.segments, ident.Inside path.span :=
    fun target htarget => path.words_inPlace hplaced _ (mem_expand hfits htarget).1
  have hspan : ∀ target ∈ path.expand,
      target.span = ⟨target.first.span.start, target.last.span.stop⟩ := by
    intro target htarget
    obtain ⟨hplace, hinside⟩ := hwords target htarget
    rw [(mem_expand hfits htarget).2]
    exact Ident.hull_of_isChain (fun ident hident => (hinside ident hident).nonempty)
      hplace.isChain target.getLast?_segments
  refine ⟨segments_expand hfits, length_expand_eq_prod hfits, fun span hgroup => ?none,
    fun target htarget => ?ordered, fun target htarget => ?ends, fun target htarget => ?inside⟩
  case none =>
    have hzero : 0 ∈ path.parts.map ImportPart.count := List.mem_map.mpr ⟨_, hgroup, rfl⟩
    rw [← List.length_eq_zero_iff, length_expand_eq_prod hfits, List.prod_eq_zero hzero]
  case ordered =>
    obtain ⟨hplace, hinside⟩ := hwords target htarget
    refine hplace.imp_of_mem fun hident _ hle => ?_
    exact Nat.lt_of_lt_of_le (hinside _ hident).nonempty hle
  case ends =>
    exact ⟨target.first, rfl, target.last, target.getLast?_segments, hspan target htarget⟩
  case inside =>
    obtain ⟨-, hinside⟩ := hwords target htarget
    rw [hspan target htarget]
    exact ⟨(hinside _ List.mem_cons_self).starts,
      (hinside _ (List.mem_of_mem_getLast? target.getLast?_segments)).stops⟩

/-- Every import path of an accepted source expands to its words. -/
theorem parse_expands {source : String} {parsed : Parsed (Script Span Symbol)}
    (h : parse source = .ok parsed) {path : ImportPath Span Symbol}
    (hpath : path.outline ∈ parsed.tree.outline.subtrees) : path.Expands := by
  obtain ⟨tokens, -, hlaid⟩ := parse_laidOut h
  have hsubset := Outline.subtrees_subset _ hpath
  refine ImportPath.expands (path.fits_of_subtrees fun other hother => ?_) fun node hnode => ?_
  · exact hlaid.parts_ne_nil (hsubset hother)
  · have htag : node.tag ≠ .script := by
      rintro htag
      have hdeclarative := path.declarative_outline node hnode
      rw [htag] at hdeclarative
      cases hdeclarative
    obtain ⟨hbounded, hnests⟩ := hlaid.placed (hsubset hnode) htag
    exact ⟨hbounded.nonempty, hnests⟩

/-- The path `a.{b, {}}` behind the word `import`. -/
def nestedEmptyGroup : ImportPath Span Symbol :=
  ⟨[.name ⟨⟨0⟩, false, ⟨7, 8⟩⟩,
    .group [⟨[.name ⟨⟨1⟩, false, ⟨10, 11⟩⟩], ⟨10, 11⟩⟩, ⟨[.group [] ⟨13, 15⟩], ⟨13, 15⟩⟩] ⟨9, 16⟩],
    ⟨7, 16⟩⟩

/-- The script that is this one import. -/
def nestedEmptyGroupScript : Script Span Symbol :=
  ⟨[.import nestedEmptyGroup ⟨0, 17⟩], ⟨0, 17⟩⟩

theorem mem_subtrees_nestedEmptyGroupScript :
    nestedEmptyGroup.outline ∈ nestedEmptyGroupScript.outline.subtrees := by
  simp [nestedEmptyGroupScript, Script.outline, Item.outline, Outline.subtrees,
    Outline.subtreesList, Outline.mem_subtrees_self]

theorem parse_nestedEmptyGroup :
    parse "import a.\x7bb, \x7b\x7d\x7d;" = .ok ⟨nestedEmptyGroupScript, ⟨["a", "b"]⟩, []⟩ := by
  decide +kernel

theorem parse_expands_of_nested_group :
    parse "import a.\x7bb, \x7b\x7d\x7d;" = .ok ⟨nestedEmptyGroupScript, ⟨["a", "b"]⟩, []⟩ ∧
      nestedEmptyGroup.outline ∈ nestedEmptyGroupScript.outline.subtrees ∧
        nestedEmptyGroup.Expands :=
  ⟨parse_nestedEmptyGroup, mem_subtrees_nestedEmptyGroupScript,
    parse_expands parse_nestedEmptyGroup mem_subtrees_nestedEmptyGroupScript⟩

/-- A group without members takes away the targets of the path that it is a part of,
but not those of a path further out: `a.{b, {}}` still stands for `a.b`. -/
theorem not_expand_eq_nil_of_empty_group :
    ¬ ∀ (source : String) (parsed : Parsed (Script Span Symbol)) (path : ImportPath Span Symbol),
      parse source = .ok parsed → path.outline ∈ parsed.tree.outline.subtrees →
        (∃ span, Outline.node .group span [] ∈ path.outline.subtrees) → path.expand = [] := by
  intro h
  have hgroup : Outline.node .group ⟨13, 15⟩ [] ∈ nestedEmptyGroup.outline.subtrees := by
    simp [nestedEmptyGroup, ImportPath.outline, ImportPart.outlineList, ImportPath.outlineList,
      Outline.subtrees, Outline.subtreesList]
  have hnone := h _ _ nestedEmptyGroup parse_nestedEmptyGroup mem_subtrees_nestedEmptyGroupScript
    ⟨_, hgroup⟩
  have hone : nestedEmptyGroup.expand.length = 1 := by decide +kernel
  simp [hnone] at hone

end FilterScript
