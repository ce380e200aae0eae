import FilterScript.Proofs.Faults
import FilterScript.Proofs.Scanning.Lines
import FilterScript.Proofs.Seams.Scripts

/-!
# One source behind another

Between two items nothing is carried over but names and warnings. The run of two
sources with a newline between them is therefore the run of the first one up to its
end, which the other one does not come to, and then the run of the second one, only
further to the right.
-/

namespace FilterScript

/-! ## Positions behind a newline -/

namespace Position

theorem walk_line (text more : List Char) (bytes line column : Nat) :
    walk (text ++ '\n' :: more) (byteLength text + 1 + bytes) line column =
      walk more bytes (line + (text.count '\n' + 1)) 1 := by
  induction text generalizing line column with
  | nil =>
      have hsize : '\n'.utf8Size = 1 := rfl
      rw [List.nil_append, walk, if_neg (by simp [hsize]), if_pos rfl]
      simp [hsize]
  | cons c rest ih =>
      rw [List.cons_append, walk, byteLength_cons, if_neg (by omega)]
      have hbytes : c.utf8Size + byteLength rest + 1 + bytes - c.utf8Size =
          byteLength rest + 1 + bytes := by omega
      rw [hbytes, ih, ih]
      by_cases hc : c = '\n'
      · subst hc
        rw [if_pos rfl, List.count_cons_self]
        congr 1
        omega
      · rw [if_neg hc, List.count_cons_of_ne hc]

theorem walk_add (text : List Char) (bytes line lines column : Nat) :
    walk text bytes (line + lines) column =
      ((walk text bytes line column).1 + lines, (walk text bytes line column).2) := by
  induction text generalizing bytes line column with
  | nil => rfl
  | cons c rest ih =>
      unfold walk
      split
      · rfl
      · split
        · rw [Nat.add_right_comm, ih]
        · exact ih _ _ _

/-- A place behind a newline is in a later line, and in the same column. -/
theorem resolve_line (first second : String) (offset : Nat) :
    resolve (first ++ "\n" ++ second) (offset + (byteLength first.toList + 1)) =
      ⟨offset + (byteLength first.toList + 1),
        (resolve second offset).line + (first.toList.count '\n' + 1),
        (resolve second offset).column⟩ := by
  have htext : (first ++ "\n" ++ second).toList = first.toList ++ '\n' :: second.toList := by
    simp
  unfold resolve
  rw [htext, Nat.add_comm offset, walk_line, walk_add]

end Position

/-! ## Items one after the other -/

namespace Grammar

open Parse

variable {items result : List (Item Span Symbol)} {state after : State}

/-- What a round of a script does: it is done at the end, and takes one item
anywhere else. -/
theorem itemRound_eq_ok_iff {round : Round (List (Item Span Symbol)) (List (Item Span Symbol))} :
    itemRound items state = .ok round after ↔
      ∃ token, state.input.lookahead 0 = .ok token ∧
        (token.kind = .endOfFile ∧ round = .done items ∧ after = state ∨
          token.kind ≠ .endOfFile ∧
            ∃ item, Grammar.item state = .ok item after ∧ round = .more (items ++ [item])) := by
  have hend (token : Token) :
      (token.kind.variant == Kind.variant .endOfFile) = decide (token.kind = .endOfFile) := by
    cases token.kind <;> rfl
  unfold itemRound
  rw [nextIs_bind, bind_eq_ok_iff]
  constructor
  · rintro ⟨token, between, hpeek, hrun⟩
    obtain ⟨hshown, rfl⟩ := peekAt_eq_ok_iff.mp hpeek
    refine ⟨token, hshown, ?_⟩
    rw [hend] at hrun
    by_cases h : token.kind = .endOfFile
    · rw [decide_eq_true h] at hrun
      cases hrun
      exact .inl ⟨h, rfl, rfl⟩
    · rw [decide_eq_false h] at hrun
      obtain ⟨item, _, hitem, hpure⟩ := bind_eq_ok_iff.mp hrun
      cases hpure
      exact .inr ⟨h, item, hitem, rfl⟩
  · rintro ⟨token, hshown, ⟨h, rfl, rfl⟩ | ⟨h, item, hitem, rfl⟩⟩
    · refine ⟨token, _, peekAt_eq_ok_iff.mpr ⟨hshown, rfl⟩, ?_⟩
      rw [hend, decide_eq_true h]
      rfl
    · refine ⟨token, _, peekAt_eq_ok_iff.mpr ⟨hshown, rfl⟩, ?_⟩
      rw [hend, decide_eq_false h]
      exact bind_eq_ok_iff.mpr ⟨item, _, hitem, rfl⟩

/-- The items of a script end in front of the end of the source. -/
theorem exists_end_of_items {most : Nat} (h : rounds itemRound most items state = .ok result after) :
    ∃ token, after.input.lookahead 0 = .ok token := by
  induction most generalizing items state with
  | zero => exact (refuse_ne_ok h).elim
  | succ most ih =>
      rw [rounds_succ] at h
      obtain ⟨round, between, hround, hnext⟩ := bind_eq_ok_iff.mp h
      cases round with
      | more items => exact ih hnext
      | done items =>
          cases hnext
          obtain ⟨token, hshown, ⟨-, -, rfl⟩ | ⟨-, _, -, hround⟩⟩ := itemRound_eq_ok_iff.mp hround
          · exact ⟨token, hshown⟩
          · cases hround

/-- Apart from the span of a script, its items are all there is to it. -/
theorem items_script :
    (script >>= fun tree => pure tree.items) = repeated itemRound [] := by
  refine funext fun state => ?_
  have hfirst : repeated itemRound [] state =
      (itemRound [] >>= resume itemRound state.input.scans.length) state :=
    congrFun (rounds_succ itemRound _ []) state
  cases hpeek : peek state with
  | ok first between =>
      obtain rfl : state = between := (peekAt_eq_ok_iff.mp hpeek).2.symm
      have hscript : script state = (do
          let items ← repeated itemRound []
          let stop ← peek
          return (⟨items, ⟨min first.span.start stop.span.start, stop.span.stop⟩⟩ :
            Script Span Symbol)) state := bind_eq_of_ok hpeek
      cases hitems : repeated itemRound [] state with
      | ok items after =>
          obtain ⟨stop, hstop⟩ := exists_end_of_items hitems
          have hlast : peek after = .ok stop after := peekAt_eq_ok_iff.mpr ⟨hstop, rfl⟩
          rw [bind_eq_of_ok hitems, bind_eq_of_ok hlast] at hscript
          rw [bind_eq_of_ok hscript]
          rfl
      | error fault after =>
          rw [bind_eq_of_error hitems] at hscript
          rw [bind_eq_of_error hscript]
  | error fault between =>
      -- The first round looks at the same token.
      have hround : itemRound [] state = .error fault between := by
        unfold itemRound
        rw [nextIs_bind, bind_eq_of_error hpeek]
      have hscript : script state = .error fault between := bind_eq_of_error hpeek
      rw [hfirst, bind_eq_of_error hround, bind_eq_of_error hscript]

theorem items_of_script {tree : Script Span Symbol} (h : script state = .ok tree after) :
    repeated itemRound [] state = .ok tree.items after := by
  rw [← items_script, bind_eq_of_ok h]
  rfl

theorem items_of_script_error {fault : Fault} (h : script state = .error fault after) :
    repeated itemRound [] state = .error fault after := by
  rw [← items_script, bind_eq_of_error h]

theorem exists_script_of_items (h : repeated itemRound [] state = .ok items after) :
    ∃ span, script state = .ok ⟨items, span⟩ after := by
  rw [← items_script] at h
  obtain ⟨⟨items, span⟩, between, hscript, hpure⟩ := bind_eq_ok_iff.mp h
  cases hpure
  exact ⟨span, hscript⟩

theorem script_error_of_items {fault : Fault}
    (h : repeated itemRound [] state = .error fault after) : script state = .error fault after := by
  cases hscript : script state with
  | ok tree between => cases (items_of_script hscript).symm.trans h
  | error fault between =>
      cases (items_of_script_error hscript).symm.trans h
      rfl

/-! ## Up to the seam -/

variable {seam : Seam} {common : List Scan} {other : State}

/-- An item that the first run takes, the second one takes as well, even if it ends
right at the seam. -/
theorem exists_item_beside {value : Item Span Symbol} (hleft : seam.left.scans = [])
    (hbeside : Beside seam common state other) (hrun : item state = .ok value after) :
    ∃ rest value' other', rest <:+ common ∧ rest.length < common.length ∧
      item other = .ok value' other' ∧ seam.Same Item.map value value' ∧
      Beside seam rest after other' ∧ after.expected = [] := by
  have hecho : Echo seam true (seam.Same Item.map) (item state) (item other) :=
    Echoes.of_clear hbeside.left fun hclear => item_echoes state other hclear hbeside
  have hend : (seam.left.precededBy []).scans <:+ after.input.scans := by simp [hleft]
  obtain ⟨rest, hafter, -, hrest⟩ := (Steady.follows hrun).exists_mid hbeside.left hend
  obtain ⟨value', other', hrun', hsame, hbeside'⟩ := hecho.ok hrun hafter Bool.noConfusion
  have hprogress : Progresses Always item := inferInstance
  have hshorter := hprogress.shorter hrun trivial
  rw [hafter, hbeside.left] at hshorter
  refine ⟨rest, value', other', hrest, ?_, hrun', hsame, hbeside', (Settles.settled rfl hrun).expected⟩
  simpa [Stream.precededBy] using hshorter

/-- The first source ends at the seam, the second one goes on behind it. A run of the
first one to its end is a run of the second one up to there, with rounds enough left
for what is still to come. -/
theorem rounds_front {most most' : Nat} {items' : List (Item Span Symbol)}
    (hleft : seam.left.scans = [])
    (hcommon : ∀ scan ∈ common, ∃ token, scan = .ok token ∧ token.kind ≠ .endOfFile)
    (hbeside : Beside seam common state other) (hexpected : state.expected = [])
    (hitems : seam.Same (Seam.listOf Item.map) items items')
    (hrun : rounds itemRound most items state = .ok result after)
    (hmost : common.length + seam.right.scans.length < most') :
    ∃ result' other' less, rounds itemRound most' items' other =
        rounds itemRound less result' other' ∧ seam.right.scans.length < less ∧
      seam.Same (Seam.listOf Item.map) result result' ∧ Beside seam [] after other' ∧
      after.expected = [] := by
  induction most generalizing common state other items items' most' with
  | zero => exact (refuse_ne_ok hrun).elim
  | succ most ih =>
      rw [rounds_succ] at hrun
      obtain ⟨round, between, hround, hnext⟩ := bind_eq_ok_iff.mp hrun
      obtain ⟨token, hshown, ⟨hend, rfl, rfl⟩ | ⟨hend, value, hitem, rfl⟩⟩ :=
        itemRound_eq_ok_iff.mp hround
      · rw [hbeside.left] at hshown
        cases hnext
        -- Tokens are no end, so there are none left in front of the seam.
        obtain rfl : common = [] := by
          cases common with
          | nil => rfl
          | cons scan rest =>
              obtain ⟨first, rfl, hfirst⟩ := hcommon scan List.mem_cons_self
              cases hshown
              exact absurd hend hfirst
        exact ⟨items', other, most', rfl, by simpa using hmost, hitems, hbeside, hexpected⟩
      · rw [hbeside.left] at hshown
        obtain ⟨rest, value', other', hrest, hlt, hitem', hsame, hbeside', hexpected'⟩ :=
          exists_item_beside hleft hbeside hitem
        obtain ⟨fewer, rfl⟩ : ∃ fewer, most' = fewer + 1 := ⟨most' - 1, by omega⟩
        have hround' : itemRound items' other = .ok (.more (items' ++ [value'])) other' := by
          have hpos : seam.Ends ∨ 0 < common.length := .inr (by omega)
          have hmoved := Seam.lookahead_moved hpos
          rw [hshown, ← hbeside.right] at hmoved
          exact itemRound_eq_ok_iff.mpr ⟨_, hmoved, .inr ⟨hend, value', hitem', rfl⟩⟩
        rw [rounds_succ, bind_eq_of_ok hround']
        refine ih ?_ hbeside' hexpected' (hitems.snoc hsame) hnext (by omega)
        exact fun scan hscan => hcommon scan (hrest.subset hscan)

/-! ## Behind the seam -/

/-- Items behind others that were there before. -/
def Behind (seam : Seam) (front : List (Item Span String)) (items items' : List (Item Span Symbol)) :
    Prop :=
  items'.map (Item.map id seam.rightNames.text) =
    front ++ items.map (Item.map (·.shift seam.bytes) seam.leftNames.text)

theorem Behind.snoc {front : List (Item Span String)} {items items' : List (Item Span Symbol)}
    {value value' : Item Span Symbol} (h : Behind seam front items items')
    (hvalue : seam.Same Item.map value value') :
    Behind seam front (items ++ [value]) (items' ++ [value']) := by
  simp only [Behind, Seam.Same, List.map_append, List.map_singleton] at *
  rw [h, hvalue, List.append_assoc]

theorem rounds_back {most most' : Nat} {front : List (Item Span String)}
    {items items' : List (Item Span Symbol)} (hitems : Behind seam front items items')
    (hmost : common.length < most) (hmost' : common.length < most') :
    Echoes seam common false (rounds itemRound most items) (rounds itemRound most' items')
      (Behind seam front) :=
  .rounds (fun _ _ _ _ hitems => itemRound_echoes hitems fun _ _ => hitems.snoc) hmost hmost' hitems

end Grammar

/-! ## Sources -/

/-- The seam behind the first source. It ends there, the joined one does not. -/
def Seam.front (first second : String) : Seam where
  left := ⟨[], (Stream.ofSource first).length⟩
  right := ⟨(Stream.ofSource second).scans.map (Scan.shift (byteLength first.toList + 1)),
    (Stream.ofSource (first ++ "\n" ++ second)).length⟩
  bytes := 0
  leftNames := Names.empty.enter (Stream.ofSource first).scans
  rightNames := Names.empty.enter (Stream.ofSource (first ++ "\n" ++ second)).scans
  warnings := []

/-- The seam behind the second source, where the joined one ends as well. -/
def Seam.back (first second : String) (warnings : List Warning) : Seam where
  left := ⟨[], (Stream.ofSource second).length⟩
  right := ⟨[], (Stream.ofSource (first ++ "\n" ++ second)).length⟩
  bytes := byteLength first.toList + 1
  leftNames := Names.empty.enter (Stream.ofSource second).scans
  rightNames := Names.empty.enter (Stream.ofSource (first ++ "\n" ++ second)).scans
  warnings := warnings

theorem Seam.back_ends (first second : String) (warnings : List Warning) :
    (Seam.back first second warnings).Ends :=
  ⟨rfl, rfl, Stream.length_line first second⟩

theorem exists_of_parse_ok {source : String} {parsed : Parsed (Script Span Symbol)}
    (h : parse source = .ok parsed) :
    ∃ tree after, Grammar.script (State.ofSource nestingLimit source) = .ok tree after ∧
      parsed = ⟨tree, after.names, after.warnings⟩ := by
  cases hrun : Grammar.script (State.ofSource nestingLimit source) with
  | ok tree after =>
      cases (parse_of_ok hrun).symm.trans h
      exact ⟨tree, after, rfl, rfl⟩
  | error fault after => cases (parse_of_error hrun).symm.trans h

section Sources

variable {limit : Option Nat} {first second : String} {tree : Script Span Symbol} {after : State}

/-- An accepted source has tokens only. All of them have been read, and all its names
are in the table. -/
theorem exists_tokens_of_script
    (h : Grammar.script (State.ofSource limit first) = .ok tree after) :
    ∃ tokens : List Token, (Stream.ofSource first).scans = tokens.map .ok ∧
      after.input.scans = [] ∧ after.names = Names.empty.enter (Stream.ofSource first).scans := by
  obtain ⟨tokens, hscans, -, hnames, -, hend⟩ :=
    Grammar.script_reads (State.ofSource limit first) tree after rfl rfl (.refl _) h
  have hrest := eq_nil_of_next_endOfFile hscans hend
  rw [hrest, List.append_nil] at hscans
  exact ⟨tokens, hscans, hrest, hscans ▸ hnames⟩

/-- The run of the joined source comes to the place behind the first one as the run
of the second one begins, with the items and warnings of the first one. -/
theorem exists_front (second : String)
    (h : Grammar.script (State.ofSource limit first) = .ok tree after) :
    ∃ items other less,
      Parse.repeated Grammar.itemRound [] (State.ofSource limit (first ++ "\n" ++ second)) =
        Parse.rounds Grammar.itemRound less items other ∧
      (Stream.ofSource second).scans.length < less ∧
      items.map (Item.map id (Seam.back first second after.warnings).rightNames.text) =
        tree.items.map (Item.map id after.names.text) ∧
      Beside (Seam.back first second after.warnings) (Stream.ofSource second).scans
        (State.ofSource limit second) other := by
  obtain ⟨tokens, hscans, hend, hnames⟩ := exists_tokens_of_script h
  have hjoined := Stream.ofSource_line second hscans
  have hzero : (fun span : Span => span.shift 0) = id := rfl
  have hshift : (Scan.shift 0 : Scan → Scan) = id := funext Scan.shift_zero
  have hbeside : Beside (Seam.front first second) (Stream.ofSource first).scans
      (State.ofSource limit first) (State.ofSource limit (first ++ "\n" ++ second)) :=
    { left := by simp [State.ofSource, Stream.precededBy, Seam.front]
      right := by
        simp [State.ofSource, Seam.moved, Stream.precededBy, Seam.front, hshift, ← hjoined]
      expected := rfl
      context := rfl
      limit := rfl
      warnings := rfl
      leftNames := .refl _
      rightNames := .refl _ }
  have hcommon : ∀ scan ∈ (Stream.ofSource first).scans,
      ∃ token, scan = .ok token ∧ token.kind ≠ .endOfFile := by
    intro scan hscan
    obtain ⟨token, -, rfl⟩ := List.mem_map.mp (hscans ▸ hscan)
    exact ⟨token, rfl, Cursor.scans_ne_endOfFile hscan⟩
  have hmost : (Stream.ofSource first).scans.length +
      (Seam.front first second).right.scans.length <
        (Stream.ofSource (first ++ "\n" ++ second)).scans.length + 1 := by
    rw [hjoined, List.length_append]
    exact Nat.lt_succ_self _
  obtain ⟨items, other, less, hrun, hless, hitems, hother, hexpected⟩ :=
    Grammar.rounds_front rfl hcommon hbeside rfl .nil (Grammar.items_of_script h) hmost
  have hfollows := Parse.Steady.follows h
  refine ⟨items, other, less, hrun, by simpa [Seam.front] using hless, ?_, ?_⟩
  · rw [hnames]
    exact hitems.symm
  · exact
      { left := by simp [State.ofSource, Stream.precededBy, Seam.back]
        right := by simp [hother.right, Seam.moved, Stream.precededBy, Seam.front, Seam.back]
        expected := hother.expected.trans hexpected
        context := hother.context.trans hfollows.context
        limit := hother.limit.trans hfollows.limit
        warnings := by
          rw [hother.warnings]
          simp [Seam.front, Seam.back, State.ofSource, Warning.shift]
        leftNames := .refl _
        rightNames := hother.rightNames }

/-- Sources can be written one behind the other. If the first one is accepted, what
the two of them give is what the first one gives and behind that, as many bytes
further to the right as the first one and a newline take, what the second one gives.
If the second one is refused, that is how they are refused, as many lines later. -/
theorem parse_append_newline {parsed : Parsed (Script Span Symbol)} (h : parse first = .ok parsed) :
    (∀ parsed', parse second = .ok parsed' →
      ∃ whole, parse (first ++ "\n" ++ second) = .ok whole ∧
        whole.tree.items.map (Item.map id whole.names.text) =
          parsed.tree.items.map (Item.map id parsed.names.text) ++
            parsed'.tree.items.map
              (Item.map (·.shift (byteLength first.toList + 1)) parsed'.names.text) ∧
        whole.warnings = parsed.warnings ++
          parsed'.warnings.map (Warning.shift · (byteLength first.toList + 1))) ∧
    ∀ error, parse second = .error error →
      parse (first ++ "\n" ++ second) =
        .error ⟨⟨error.cause, error.span.shift (byteLength first.toList + 1)⟩,
          ⟨error.position.offset + (byteLength first.toList + 1),
            error.position.line + (first.toList.count '\n' + 1), error.position.column⟩⟩ := by
  obtain ⟨tree, after, hfirst, rfl⟩ := exists_of_parse_ok h
  obtain ⟨items, other, less, hjoined, hless, hitems, hbeside⟩ := exists_front second hfirst
  have hclear (rest : List Scan) : (Seam.back first second after.warnings).Clear rest :=
    .inl (Seam.back_ends first second after.warnings)
  have hback : Grammar.Behind (Seam.back first second after.warnings)
      (tree.items.map (Item.map id after.names.text)) [] items := by
    simpa [Grammar.Behind] using hitems
  have hecho := Grammar.rounds_back hback (Nat.lt_succ_self _) hless _ _ (hclear _) hbeside
  have hinput {after' : State} (hlength : after'.input.length = (Stream.ofSource second).length) :
      after'.input = (Seam.back first second after.warnings).left.precededBy after'.input.scans := by
    simp [Stream.precededBy, Seam.back, ← hlength]
  constructor
  · intro parsed' h'
    obtain ⟨tree', after', hsecond, rfl⟩ := exists_of_parse_ok h'
    obtain ⟨-, -, -, hnames⟩ := exists_tokens_of_script hsecond
    obtain ⟨items', whole, hrun, hbehind, hwhole⟩ := hecho.ok (Grammar.items_of_script hsecond)
      (hinput (Parse.Steady.follows hsecond).length) fun _ => hclear _
    obtain ⟨span, hscript⟩ := Grammar.exists_script_of_items (hjoined.trans hrun)
    obtain ⟨-, -, -, hnames'⟩ := exists_tokens_of_script hscript
    refine ⟨_, parse_of_ok hscript, ?_, hwhole.warnings⟩
    rw [hnames, hnames']
    exact hbehind
  · intro error h'
    obtain ⟨fault, after', hsecond, rfl⟩ := exists_of_parse_error h'
    have haccounted := script_accounted (State.ofSource nestingLimit second) List.nodup_nil
    rw [hsecond] at haccounted
    cases haccounted with
    | error _ hlength _ =>
        obtain ⟨whole, hrun⟩ := hecho.error (Grammar.items_of_script_error hsecond)
          (hinput hlength) (hclear _)
        rw [parse_of_error (Grammar.script_error_of_items (hjoined.trans hrun)), Fault.locate]
        exact congrArg _ (congrArg _ (Position.resolve_line first second fault.span.start))

end Sources

/-- A comment that ends with the first source, and a string that is left open in the
second one. -/
theorem parse_append_newline_of_comment :
    ∃ parsed, parse "import a; # b" = .ok parsed ∧
      parse "fn\n\"c" = .error ⟨⟨.lexical .unterminatedString, ⟨3, 5⟩⟩, ⟨3, 2, 1⟩⟩ ∧
      parse ("import a; # b" ++ "\n" ++ "fn\n\"c") =
        .error ⟨⟨.lexical .unterminatedString, ⟨17, 19⟩⟩, ⟨17, 3, 1⟩⟩ := by
  have haccepted : (parse "import a; # b").toBool = true := by decide +kernel
  have herror : parse "fn\n\"c" =
      .error ⟨⟨.lexical .unterminatedString, ⟨3, 5⟩⟩, ⟨3, 2, 1⟩⟩ := rfl
  cases hparsed : parse "import a; # b" with
  | ok parsed => exact ⟨parsed, rfl, herror, (parse_append_newline hparsed).2 _ herror⟩
  | error error => simp [hparsed, Except.toBool] at haccepted

end FilterScript
