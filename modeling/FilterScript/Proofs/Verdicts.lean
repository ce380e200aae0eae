import FilterScript.Check
import FilterScript.Proofs.Spelling.Scripts

/-!
# What a check finds and what it prints

The options of a check ask for more to be printed or told. A source that is accepted
has tokens, so listing them first never stands in the way of the verdict; it only
decides which of two errors is found first.
-/

namespace FilterScript

/-! ## The verdict -/

/-- Parsing takes all tokens of a source, so there is no flaw among them. -/
theorem tokenize_of_parse {source : String} {parsed : Parsed (Script Span Symbol)}
    (h : parse source = .ok parsed) : ∃ tokens, tokenize source = .ok tokens := by
  obtain ⟨tokens, hscans, -⟩ := runOn_reads (fun _ _ => Grammar.script_reads) h
  exact ⟨_, tokenize_of_scans hscans⟩

@[simp] theorem checkTree_outcome (config : CheckConfig) (name source : String) :
    (checkTree config name source).outcome = parse source := by
  unfold checkTree
  split
  next h => exact h.symm
  next h => exact h.symm

variable {config : CheckConfig} {name source : String}

theorem check_of_not_listTokens (h : config.listTokens = false) :
    check config name source = checkTree config name source := by
  unfold check
  rw [h]
  rfl

theorem check_of_flaw {error : ParseError} (h : config.listTokens = true)
    (htokens : tokenize source = .error error) :
    check config name source = ⟨.error error, error.render name source, []⟩ := by
  unfold check
  rw [h, htokens]
  rfl

theorem check_of_tokens {tokens : List Token} (h : config.listTokens = true)
    (htokens : tokenize source = .ok tokens) :
    check config name source =
      { checkTree config name source with
        log := tokenListing tokens ++ (checkTree config name source).log } := by
  unfold check
  rw [h, htokens]
  rfl

theorem check_outcome_eq_ok_iff {parsed : Parsed (Script Span Symbol)} :
    (check config name source).outcome = .ok parsed ↔ parse source = .ok parsed := by
  cases hlist : config.listTokens with
  | false => rw [check_of_not_listTokens hlist, checkTree_outcome]
  | true =>
      cases htokens : tokenize source with
      | ok tokens => rw [check_of_tokens hlist htokens, checkTree_outcome]
      | error error =>
          rw [check_of_flaw hlist htokens]
          constructor
          · intro h
            cases h
          · intro h
            obtain ⟨tokens, hok⟩ := tokenize_of_parse h
            rw [htokens] at hok
            cases hok

/-- Which error is found: that of the tokens if they are asked for and there is one. -/
theorem check_outcome_eq_error {error : ParseError}
    (h : (check config name source).outcome = .error error) :
    (config.listTokens = true ∧ tokenize source = .error error) ∨
      ((config.listTokens = false ∨ ∃ tokens, tokenize source = .ok tokens) ∧
        parse source = .error error) := by
  cases hlist : config.listTokens with
  | false =>
      rw [check_of_not_listTokens hlist, checkTree_outcome] at h
      exact .inr ⟨.inl rfl, h⟩
  | true =>
      cases htokens : tokenize source with
      | ok tokens =>
          rw [check_of_tokens hlist htokens, checkTree_outcome] at h
          exact .inr ⟨.inr ⟨tokens, rfl⟩, h⟩
      | error flaw =>
          rw [check_of_flaw hlist htokens] at h
          cases h
          exact .inl ⟨rfl, rfl⟩

/-! ## The log -/

/-- What the options have printed in front of the diagnostics. -/
def CheckOptions.front (options : CheckOptions) (source : String) : String :=
  match options.listTokens, tokenize source with
  | true, .ok tokens => tokenListing tokens
  | _, _ => ""

/-- What the options have printed behind the warnings. -/
def CheckOptions.back (options : CheckOptions) (parsed : Parsed (Script Span Symbol)) : String :=
  if options.showTree then treeListing parsed else ""

/-- One diagnostic for an error, and one for each warning of an accepted source. -/
def diagnosticsOf : Except ParseError (Parsed (Script Span Symbol)) → List Diagnostic
  | .ok parsed => parsed.warnings.map .ofWarning
  | .error error => [.ofError error]

/-- Diagnostics as they are printed about a named source. -/
def renderAll (name source : String) (diagnostics : List Diagnostic) : String :=
  String.join (diagnostics.map fun diagnostic => diagnostic.render name source)

/-- Every diagnostic says first how grave it is and what it is about. -/
theorem Diagnostic.render_begins (diagnostic : Diagnostic) (name source : String) :
    ∃ rest, diagnostic.render name source =
      diagnostic.severity.text ++ ": " ++ diagnostic.title ++ "\n" ++ rest :=
  ⟨_, String.join_cons⟩

theorem Diagnostic.render_ne_empty (diagnostic : Diagnostic) (name source : String) :
    diagnostic.render name source ≠ "" := by
  obtain ⟨rest, hrender⟩ := diagnostic.render_begins name source
  rw [hrender, ne_eq, String.append_eq_empty_iff, String.append_eq_empty_iff]
  exact fun hempty => absurd hempty.1.2 (by decide)

/-- No diagnostic is printed unseen. -/
theorem renderAll_eq_empty_iff {diagnostics : List Diagnostic} :
    renderAll name source diagnostics = "" ↔ diagnostics = [] := by
  cases diagnostics with
  | nil => exact iff_of_true rfl rfl
  | cons first rest =>
      rw [renderAll, List.map_cons, String.join_cons, String.append_eq_empty_iff]
      refine iff_of_false (fun hempty => ?_) (List.cons_ne_nil _ _)
      exact first.render_ne_empty name source hempty.1

theorem checkTree_log (config : CheckConfig) (name source : String) :
    (checkTree config name source).log =
      renderAll name source (diagnosticsOf (parse source)) ++
        match parse source with
        | .ok parsed => if config.showTree then treeListing parsed else ""
        | .error _ => "" := by
  unfold checkTree diagnosticsOf renderAll
  cases parse source with
  | ok parsed =>
      rw [List.map_map]
      rfl
  | error error => simp [ParseError.render]

/-- Diagnostics stand behind the list of tokens and in front of the tree. -/
theorem check_log (config : CheckConfig) (name source : String) :
    (check config name source).log =
      config.front source ++
        renderAll name source (diagnosticsOf (check config name source).outcome) ++
        match (check config name source).outcome with
        | .ok parsed => config.back parsed
        | .error _ => "" := by
  unfold CheckOptions.front
  cases hlist : config.listTokens with
  | false =>
      rw [check_of_not_listTokens hlist, checkTree_outcome, checkTree_log]
      simp [CheckOptions.back]
  | true =>
      cases htokens : tokenize source with
      | ok tokens =>
          rw [check_of_tokens hlist htokens]
          dsimp only
          rw [checkTree_outcome, checkTree_log, String.append_assoc]
          rfl
      | error error =>
          rw [check_of_flaw hlist htokens]
          simp [diagnosticsOf, renderAll, ParseError.render]

/-- A check that is asked for nothing more is silent exactly about sources that are
accepted without a warning. -/
theorem check_silent_iff (hlist : config.listTokens = false) (htree : config.showTree = false) :
    (check config name source).log = "" ↔
      ∃ parsed, parse source = .ok parsed ∧ parsed.warnings = [] := by
  rw [check_of_not_listTokens hlist, checkTree_log, htree]
  cases parse source with
  | ok parsed => simp [diagnosticsOf, renderAll_eq_empty_iff]
  | error error => simp [diagnosticsOf, renderAll_eq_empty_iff]

/-! ## Events -/

/-- What is told once a source has been parsed. -/
def Event.ofOutcome (name : String) : Except ParseError (Parsed (Script Span Symbol)) → Event
  | .ok parsed => .finished name parsed.tree.items.length parsed.warnings.length
  | .error error => .failed name error.message

theorem checkTree_events (config : CheckConfig) (name source : String) :
    (checkTree config name source).events =
      config.announcement name source ++ [Event.ofOutcome name (parse source)] := by
  unfold checkTree
  cases parse source with
  | ok parsed => rfl
  | error error => rfl

/-- A check tells what came of parsing, and before that, if asked to, that parsing begins.
When the tokens are to be listed and there are none, nothing is parsed and nothing told. -/
theorem check_events (config : CheckConfig) (name source : String) :
    (check config name source).events =
      match config.listTokens, tokenize source with
      | true, .error _ => []
      | _, _ => config.announcement name source ++ [Event.ofOutcome name (parse source)] := by
  cases hlist : config.listTokens with
  | false => rw [check_of_not_listTokens hlist, checkTree_events]
  | true =>
      cases htokens : tokenize source with
      | ok tokens =>
          rw [check_of_tokens hlist htokens]
          exact checkTree_events config name source
      | error error => rw [check_of_flaw hlist htokens]

/-! ## All options -/

/-- Options do not change the verdict. A source is accepted with all of them or with
none, and then gives what parsing it gives. An error is that of the tokens if they
are to be listed and there are none, and that of parsing otherwise. Printed are, next
to what the options ask for, the one error and no warning, or each warning in order. -/
theorem check_verdict (name source : String) :
    (∀ one other : CheckConfig, ∀ parsed,
      (check one name source).outcome = .ok parsed ↔
        (check other name source).outcome = .ok parsed) ∧
    ∀ config : CheckConfig,
      match (check config name source).outcome with
      | .ok parsed =>
          parse source = .ok parsed ∧
          (check config name source).log =
            config.front source ++
              String.join (parsed.warnings.map fun warning => warning.render name source) ++
              config.back parsed
      | .error error =>
          ((config.listTokens = true ∧ tokenize source = .error error) ∨
            ((config.listTokens = false ∨ ∃ tokens, tokenize source = .ok tokens) ∧
              parse source = .error error)) ∧
          (check config name source).log = config.front source ++ error.render name source := by
  constructor
  · intro one other parsed
    rw [check_outcome_eq_ok_iff, check_outcome_eq_ok_iff]
  · intro config
    have hlog := check_log config name source
    cases houtcome : (check config name source).outcome with
    | ok parsed =>
        rw [houtcome] at hlog
        refine ⟨check_outcome_eq_ok_iff.mp houtcome, hlog.trans ?_⟩
        rw [renderAll, diagnosticsOf, List.map_map]
        rfl
    | error error =>
        rw [houtcome] at hlog
        refine ⟨check_outcome_eq_error houtcome, hlog.trans ?_⟩
        simp [diagnosticsOf, renderAll, ParseError.render]

/- A warning, then a token that is refused, then text that is no token: the options
decide which of the two errors is found, and the warning is printed in neither case. -/
example : (check ⟨⟨false, true⟩, true⟩ "s" "fn f(x: A??] $").log =
    "error: Syntax error\n  ┌─ s:1:12\n  │\n1 │ fn f(x: A??] $\n" ++
      "  │            ^ expected `,` or `)`, found `]`\n\n" := by
  decide +kernel

example : (check ⟨⟨true, true⟩, true⟩ "s" "fn f(x: A??] $").log =
    "error: Lexer error\n  ┌─ s:1:14\n  │\n1 │ fn f(x: A??] $\n" ++
      "  │              ^ invalid character\n\n" := by
  decide +kernel

end FilterScript
