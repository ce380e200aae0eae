import FilterScript.Parsed
import FilterScript.Proofs.Levels.Expressions

/-!
# The limit is exact

A script that is accepted without a limit is accepted just as well under every
limit that its levels stay within, and is too deep for every other one. A script
that is refused without a limit is refused for the same reason under a limit,
unless some token before that place is too deep.
-/

namespace FilterScript

namespace Grammar

open Parse

theorem importItem_opens : Opens Item.levels importItem := by
  refine fun input => .bind (importDeclaration_opens input) ?_
  rintro ⟨path, span⟩ _ rest rfl
  exact .pure (by simp [Item.levels])

theorem filterItem_opens (kind : FilterKind) : Opens Item.levels (filterItem kind) := by
  refine fun input => .bind_plain .advance fun start rest => .bind_plain .ident fun name rest => ?_
  refine .bind (parameters_opens rest) ?_
  rintro parameters _ rest rfl
  refine .bind (block_opens rest) ?_
  rintro body _ rest rfl
  exact .pure (by simp [Item.levels])

theorem functionItem_opens : Opens Item.levels functionItem := by
  refine fun input => .bind_plain (.expect _) fun start rest => .bind_plain .ident fun name rest => ?_
  refine .bind (parameters_opens rest) ?_
  rintro parameters _ rest rfl
  refine .bind (typeAfter_opens .arrow rest) ?_
  rintro returns _ rest rfl
  refine .bind (block_opens rest) ?_
  rintro body _ rest rfl
  exact .pure (by simp [Item.levels])

theorem recordItem_opens : Opens Item.levels recordItem := by
  refine fun input => .bind_plain (.expect _) fun start rest => .bind_plain .ident fun name rest => ?_
  refine .bind (record_opens type_opens rest) ?_
  rintro ⟨fields, span⟩ _ rest rfl
  exact .pure (by simp [Item.levels, TypeExpr.levelsFields_eq_most])

theorem testItem_opens : Opens Item.levels testItem := by
  refine fun input => .bind_plain (.expect _) fun start rest => .bind_plain .ident fun name rest => ?_
  refine .bind (block_opens rest) ?_
  rintro body _ rest rfl
  exact .pure (by simp [Item.levels])

theorem item_opens : Opens Item.levels item := by
  refine fun input => .bind_peek fun token _ => ?_
  split
  next => exact importItem_opens input
  next => exact filterItem_opens _ input
  next => exact filterItem_opens _ input
  next => exact functionItem_opens input
  next => exact recordItem_opens input
  next => exact testItem_opens input
  next => exact .bind_plain (.want _) fun _ _ => .refuse

theorem script_opens : Opens Script.nest script := by
  refine fun input => .bind_plain .peek fun first rest => ?_
  have hitems : Counts rest (repeated itemRound []) fun items levels =>
      levels = most Item.levels items := by
    refine .repeated (fun items levels => levels = most Item.levels items) rfl ?_
    rintro items _ rest rfl
    refine .bind_plain (.nextIs _) fun found rest => ?_
    cases found with
    | true => exact .pure (by simp)
    | false =>
        refine .bind (item_opens rest) ?_
        rintro item _ rest rfl
        exact .pure (by simp [most_append, most])
  refine .bind hitems ?_
  rintro items _ rest rfl
  exact .bind_plain .peek fun stop rest => .pure (by simp [Script.nest])

theorem loneExpr_opens : Opens (fun expr => expr.levels + 1) loneExpr := by
  refine fun input => .bind (expr_opens input) ?_
  rintro value _ rest rfl
  refine .bind_plain (.accepts _) fun found rest => ?_
  cases found with
  | true => exact .pure rfl
  | false => exact .refuse

end Grammar

/-- What a production that opens the levels of its result does on a source under
a limit. -/
theorem runOn_limit {α : Type} {number : α → Nat} {production : Parse α}
    (h : Grammar.Opens number production) (source : String) (limit : Nat) :
    match runOn production none source with
    | .ok parsed =>
        if number parsed.tree ≤ limit then runOn production (some limit) source = .ok parsed
        else ∃ error, runOn production (some limit) source = .error error ∧
          error.cause = .tooDeep limit
    | .error error =>
        runOn production (some limit) source = .error error ∨
          ∃ early, runOn production (some limit) source = .error early ∧
            early.cause = .tooDeep limit ∧ early.span.start ≤ error.span.start := by
  let start := State.ofSource none source
  obtain ⟨hsuccess, hfailure⟩ := h _ start rfl (Stream.ofSource_ordered source) rfl
  have hstopped : ∀ {place}, Parse.StoppedBy limit place (production (start.limited limit)) →
      ∃ early, runOn production (some limit) source = .error early ∧
        early.cause = .tooDeep limit ∧ early.span.start ≤ place := by
    intro place hstopped
    cases hlimited : production (start.limited limit) with
    | ok tree after =>
        rw [hlimited] at hstopped
        exact hstopped.elim
    | error fault after =>
        rw [hlimited] at hstopped
        refine ⟨fault.locate source, ?_, hstopped⟩
        unfold runOn
        rw [show State.ofSource (some limit) source = start.limited limit from rfl, hlimited]
  cases hrun : production start with
  | ok tree after =>
      obtain ⟨_, _, rfl, hruns⟩ := hsuccess hrun
      have hfree : runOn production none source = .ok ⟨tree, after.names, after.warnings⟩ := by
        unfold runOn
        rw [show State.ofSource none source = start from rfl, hrun]
      have hlimited := hruns limit (Nat.zero_le _)
      rw [show start.context.depth + number tree = number tree from Nat.zero_add _] at hlimited
      rw [hfree]
      dsimp only
      split at hlimited
      next hroom =>
        rw [if_pos hroom]
        unfold runOn
        rw [show State.ofSource (some limit) source = start.limited limit from rfl, hlimited]
        rfl
      next hroom =>
        rw [if_neg hroom]
        obtain ⟨error, herror, hcause, _⟩ := hstopped hlimited
        exact ⟨error, herror, hcause⟩
  | error fault after =>
      obtain ⟨_, hruns⟩ := hfailure hrun
      have hfree : runOn production none source = .error (fault.locate source) := by
        unfold runOn
        rw [show State.ofSource none source = start from rfl, hrun]
      rw [hfree]
      refine (hruns limit (Nat.zero_le _)).imp ?_ hstopped
      rintro ⟨after, hlimited⟩
      unfold runOn
      rw [show State.ofSource (some limit) source = start.limited limit from rfl, hlimited]

/-- A result that nests no deeper than the limit is given under the limit too. -/
theorem runOn_of_le {α : Type} {number : α → Nat} {production : Parse α} {source : String}
    {limit : Nat} {parsed : Parsed α} (h : Grammar.Opens number production)
    (hfree : runOn production none source = .ok parsed) (hle : number parsed.tree ≤ limit) :
    runOn production (some limit) source = .ok parsed := by
  have hlimit := runOn_limit h source limit
  rw [hfree] at hlimit
  dsimp only at hlimit
  rwa [if_pos hle] at hlimit

/-- Whatever is accepted under a limit opens no more levels. -/
theorem number_le_of_runOn {α : Type} {number : α → Nat} {production : Parse α} {source : String}
    {limit : Nat} {parsed : Parsed α} (h : Grammar.Opens number production)
    (hrun : runOn production (some limit) source = .ok parsed) : number parsed.tree ≤ limit := by
  have hlimit := runOn_limit h source limit
  rw [hrun] at hlimit
  split at hlimit
  next whole hwhole =>
    by_cases hnest : number whole.tree ≤ limit
    · rw [if_pos hnest] at hlimit
      cases hlimit
      exact hnest
    · rw [if_neg hnest] at hlimit
      obtain ⟨error, herror, _⟩ := hlimit
      cases herror
  next =>
    rcases hlimit with herror | ⟨early, hearly, _⟩
    · cases herror
    · cases hearly

/-- Whatever is accepted under a limit nests no deeper. -/
theorem nest_le_of_parseWithin {source : String} {limit : Nat} {parsed : Parsed (Script Span Symbol)}
    (h : parseWithin (some limit) source = .ok parsed) : parsed.tree.nest ≤ limit :=
  number_le_of_runOn Grammar.script_opens h

/-- Under a limit a script is parsed as without one if it nests no deeper, and is
too deep otherwise. One that is refused without a limit is refused under it with
the same error, or because of a token too deep that starts no later. -/
theorem parseWithin_limit (source : String) (limit : Nat) :
    match parseWithin none source with
    | .ok parsed =>
        if parsed.tree.nest ≤ limit then parseWithin (some limit) source = .ok parsed
        else ∃ error, parseWithin (some limit) source = .error error ∧
          error.cause = .tooDeep limit
    | .error error =>
        parseWithin (some limit) source = .error error ∨
          ∃ early, parseWithin (some limit) source = .error early ∧
            early.cause = .tooDeep limit ∧ early.span.start ≤ error.span.start := by
  have hlimit := runOn_limit Grammar.script_opens source limit
  unfold parseWithin
  cases hfree : runOn Grammar.script none source <;> rwa [hfree] at hlimit

end FilterScript
