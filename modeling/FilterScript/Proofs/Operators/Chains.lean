import FilterScript.Proofs.Completeness.RoundTrip
import FilterScript.Proofs.Scanning.Lines

/-!
# Chains of operators

Operands with operators between them are read from the left, each operator with as
much on its right as holds tighter. The outcome can be told without going through
the chain in order: the whole comes apart at the last of the operators that hold
least tightly, and so do the parts left and right of it. A chain of any length stays
shallow, for an operator only opens a level where it holds tighter than the one that
it stands behind.
-/

namespace FilterScript

/-- An operator with what stands behind it in a chain. -/
structure Link (α : Type) where
  op : BinaryOp
  operand : α

def Link.map {α β : Type} (f : α → β) (link : Link α) : Link β :=
  ⟨link.op, f link.operand⟩

namespace Expr

variable {σ ν : Type}

/-- A tree that stays together between any two operators. -/
def IsOperand : Expr σ ν → Prop
  | .binary .. | .unary .neg _ _ | .exit .. => False
  | .unary .not operand _ => operand.IsOperand
  | _ => True

theorem IsOperand.holdsAtLeast {expr : Expr σ ν} (h : expr.IsOperand) (least : Nat) :
    expr.HoldsAtLeast least := by
  cases expr <;> first | exact trivial | exact h.elim

theorem IsOperand.endsBefore {expr : Expr σ ν} (h : expr.IsOperand) (op : BinaryOp) :
    expr.EndsBefore op := by
  match expr with
  | .unary .not operand _ =>
      have hoperand : operand.IsOperand := h
      exact hoperand.endsBefore op
  | .literal .. | .path _ | .access .. | .call .. | .record _ | .typedRecord .. | .question ..
  | .conditional .. | .loop .. | .select .. | .paren .. => trivial

theorem isOperand_map {τ μ : Type} (f : σ → τ) (g : ν → μ) (expr : Expr σ ν) :
    (expr.map f g).IsOperand ↔ expr.IsOperand := by
  match expr with
  | .unary .not operand _ =>
      rw [Expr.map]
      exact operand.isOperand_map f g
  | .record ⟨_, _⟩ | .typedRecord _ ⟨_, _⟩ _ | .literal .. | .path _ | .access .. | .call ..
  | .unary .neg .. | .binary .. | .question .. | .exit .. | .conditional .. | .loop .. | .select ..
  | .paren .. => rw [Expr.map]; exact Iff.rfl

end Expr

/-! ## Taking a chain apart -/

section Split

variable {α : Type} {links before after : List (Link α)} {weakest : Link α}

/-- The last of the links whose operators hold least tightly, with the links in front
of it and those behind. -/
def splitWeakest : List (Link α) → Option (List (Link α) × Link α × List (Link α))
  | [] => none
  | link :: rest =>
      match splitWeakest rest with
      | some (before, weakest, after) =>
          if weakest.op.precedence ≤ link.op.precedence then some (link :: before, weakest, after)
          else some ([], link, rest)
      | none => some ([], link, rest)

/-- The links come apart at one of them: those in front hold at least as tightly,
those behind hold tighter. -/
structure SplitsAt (links before : List (Link α)) (weakest : Link α) (after : List (Link α)) :
    Prop where
  eq : links = before ++ weakest :: after
  before : ∀ link ∈ before, weakest.op.precedence ≤ link.op.precedence
  after : ∀ link ∈ after, weakest.op.precedence < link.op.precedence

theorem eq_nil_of_splitWeakest (h : splitWeakest links = none) : links = [] := by
  cases links with
  | nil => rfl
  | cons link rest =>
      rw [splitWeakest] at h
      split at h <;> try split at h
      all_goals cases h

theorem splitWeakest_splitsAt (h : splitWeakest links = some (before, weakest, after)) :
    SplitsAt links before weakest after := by
  induction links generalizing before weakest after with
  | nil => cases h
  | cons link rest ih =>
      rw [splitWeakest] at h
      split at h
      next inner found others hrest =>
        obtain ⟨rfl, hbefore, hafter⟩ := ih hrest
        split at h
        next hle =>
          cases h
          exact ⟨rfl, List.forall_mem_cons.mpr ⟨hle, hbefore⟩, hafter⟩
        next hlt =>
          cases h
          have hweakest := Nat.lt_of_not_le hlt
          refine ⟨rfl, by simp, List.forall_mem_append.mpr ⟨?_, List.forall_mem_cons.mpr ⟨?_, ?_⟩⟩⟩
          · exact fun other hother => Nat.lt_of_lt_of_le hweakest (hbefore other hother)
          · exact hweakest
          · exact fun other hother => Nat.lt_trans hweakest (hafter other hother)
      next hnone =>
        cases h
        obtain rfl := eq_nil_of_splitWeakest hnone
        exact ⟨rfl, by simp, by simp⟩

end Split

section Group

variable {ν : Type}

/-- The tree of a chain: it comes apart at the last of the operators that hold least
tightly. -/
def group (first : Expr Unit ν) (links : List (Link (Expr Unit ν))) : Expr Unit ν :=
  match _hsplit : splitWeakest links with
  | none => first
  | some (before, weakest, after) =>
      .binary weakest.op (group first before) (group weakest.operand after) ()
termination_by links.length
decreasing_by
  all_goals
    rw [(splitWeakest_splitsAt _hsplit).eq, List.length_append, List.length_cons]
    omega

/-- What is asked of the first operand of a chain and of all others. -/
def AllOperands (sort : Expr Unit ν → Prop) (first : Expr Unit ν)
    (links : List (Link (Expr Unit ν))) : Prop :=
  sort first ∧ ∀ link ∈ links, sort link.operand

variable {sort : Expr Unit ν → Prop} {first : Expr Unit ν}
  {links before after : List (Link (Expr Unit ν))} {weakest : Link (Expr Unit ν)}

theorem AllOperands.of_splitsAt (h : AllOperands sort first links)
    (hsplit : SplitsAt links before weakest after) :
    AllOperands sort first before ∧ AllOperands sort weakest.operand after := by
  obtain ⟨hfirst, hlinks⟩ := h
  rw [hsplit.eq, List.forall_mem_append, List.forall_mem_cons] at hlinks
  exact ⟨⟨hfirst, hlinks.1⟩, hlinks.2⟩

theorem holdsAtLeast_group {least : Nat} (h : AllOperands Expr.IsOperand first links)
    (hleast : ∀ link ∈ links, least ≤ link.op.precedence) :
    (group first links).HoldsAtLeast least := by
  rw [group]
  split
  next => exact h.1.holdsAtLeast least
  next before weakest after hsplit =>
    exact hleast weakest (by rw [(splitWeakest_splitsAt hsplit).eq]; simp)

theorem endsBefore_group (op : BinaryOp) (h : AllOperands Expr.IsOperand first links) :
    (group first links).EndsBefore op := by
  fun_induction group first links with
  | case1 first => exact h.1.endsBefore op
  | case2 first links before weakest after hsplit ihBefore ihAfter =>
      exact ihAfter (h.of_splitsAt (splitWeakest_splitsAt hsplit)).2

/-- A chain of operands is read back as the tree that it is grouped to. -/
theorem fits_group (h : AllOperands Expr.IsOperand first links)
    (hfits : AllOperands (Expr.Fits true) first links) : (group first links).Fits true := by
  fun_induction group first links with
  | case1 first => exact hfits.1
  | case2 first links before weakest after hsplit ihBefore ihAfter =>
      have hspec := splitWeakest_splitsAt hsplit
      obtain ⟨hbefore, hafter⟩ := h.of_splitsAt hspec
      obtain ⟨hfitsBefore, hfitsAfter⟩ := hfits.of_splitsAt hspec
      exact ⟨holdsAtLeast_group hbefore hspec.before, endsBefore_group weakest.op hbefore,
        ihBefore hbefore hfitsBefore, holdsAtLeast_group hafter hspec.after,
        ihAfter hafter hfitsAfter⟩

theorem slots_group (text : ν → String) (first : Expr Unit ν) (links : List (Link (Expr Unit ν))) :
    (group first links).slots text = first.slots text ++
      links.flatMap fun link => .token link.op.punct :: link.operand.slots text := by
  fun_induction group first links with
  | case1 first links hsplit => simp [eq_nil_of_splitWeakest hsplit]
  | case2 first links before weakest after hsplit ihBefore ihAfter =>
      rw [Expr.slots, ihBefore, ihAfter, (splitWeakest_splitsAt hsplit).eq]
      simp

theorem precedence_pos (op : BinaryOp) : 1 ≤ op.precedence := by
  cases op <;> decide

/-- Only four operators can each hold tighter than the one before. -/
theorem levels_group {bound least : Nat} (h : AllOperands (fun expr => expr.levels ≤ bound) first links)
    (hleast : ∀ link ∈ links, least ≤ link.op.precedence) :
    (group first links).levels ≤ bound + (5 - least) := by
  fun_induction group first links generalizing least with
  | case1 first => exact Nat.le_trans h.1 (Nat.le_add_right _ _)
  | case2 first links before weakest after hsplit ihBefore ihAfter =>
      have hspec := splitWeakest_splitsAt hsplit
      obtain ⟨hbefore, hafter⟩ := h.of_splitsAt hspec
      have hweakest : least ≤ weakest.op.precedence := hleast weakest (by rw [hspec.eq]; simp)
      have hle := Grammar.precedence_le weakest.op
      have hleft := ihBefore hbefore hspec.before
      have hright := ihAfter hafter hspec.after
      rw [Expr.levels]
      omega

end Group

/-! ## Sources -/

/-- The source has tokens of these kinds and no flaw. -/
def HasKinds (source : String) (kinds : List Kind) : Prop :=
  ∃ tokens : List Token, (Stream.ofSource source).scans = tokens.map .ok ∧
    tokens.map Token.kind = kinds

theorem HasKinds.line {first second : String} {kinds others : List Kind} (h : HasKinds first kinds)
    (h' : HasKinds second others) : HasKinds (first ++ "\n" ++ second) (kinds ++ others) := by
  obtain ⟨tokens, hscans, rfl⟩ := h
  obtain ⟨more, hmore, rfl⟩ := h'
  let bytes := byteLength first.toList + 1
  refine ⟨tokens ++ more.map fun token => token.shift bytes, ?_, ?_⟩
  · rw [Stream.ofSource_line second hscans, hscans, hmore]
    simp [Scan.shift, bytes]
  · simp [Token.shift]

theorem hasKinds_punct (mark : Punct) : HasKinds mark.spelling [.punct mark] := by
  have hwritable : ∀ kind ∈ [Kind.punct mark], kind.IsWritable := by simp [Kind.IsWritable]
  exact scans_writeTokens hwritable

/-- A source that is accepted as an expression by itself, and whose tree may stand
between operators. It opens at most 250 levels besides its own. -/
structure Operand where
  source : String
  parsed : Parsed (Expr Span Symbol)
  accepted : parseExpr source = .ok parsed
  levels_le : parsed.tree.levels ≤ 250
  isOperand : parsed.tree.IsOperand

namespace Operand

/-- The tree with the texts of its names and without places. -/
def tree (operand : Operand) : Expr Unit String :=
  operand.parsed.tree.map noNote operand.parsed.names.text

theorem isOperand_tree (operand : Operand) : operand.tree.IsOperand :=
  (operand.parsed.tree.isOperand_map _ _).mpr operand.isOperand

theorem fits_tree (operand : Operand) : operand.tree.Fits true :=
  (operand.parsed.tree.fits_map noNote operand.parsed.names.text true).mpr
    (fits_of_parseExpr operand.accepted)

theorem levels_tree (operand : Operand) : operand.tree.levels ≤ 250 := by
  rw [tree, Expr.levels_map]
  exact operand.levels_le

theorem hasKinds (operand : Operand) :
    ∃ kinds, HasKinds operand.source kinds ∧
      Trims (operand.tree.slots id) kinds (required (operand.tree.slots id)) := by
  obtain ⟨tokens, hscans, hspells⟩ :=
    runOn_reads (fun _ _ => Grammar.loneExpr_reads) operand.accepted
  refine ⟨_, ⟨tokens, hscans, rfl⟩, ?_⟩
  rw [tree, Expr.slots_map]
  exact hspells

end Operand

/-- Operands and the operators between them, each on a line of its own. -/
def chainSource (first : Operand) : List (Link Operand) → String
  | [] => first.source
  | link :: rest =>
      first.source ++ "\n" ++ (link.op.punct.spelling ++ "\n" ++ chainSource link.operand rest)

theorem hasKinds_chainSource (first : Operand) (links : List (Link Operand)) :
    ∃ kinds, HasKinds (chainSource first links) kinds ∧
      let slots := first.tree.slots id ++
        links.flatMap fun link => .token link.op.punct :: link.operand.tree.slots id
      Trims slots kinds (required slots) := by
  induction links generalizing first with
  | nil => simpa [chainSource] using first.hasKinds
  | cons link rest ih =>
      obtain ⟨kinds, hkinds, htrims⟩ := first.hasKinds
      obtain ⟨others, hothers, hrest⟩ := ih link.operand
      refine ⟨_, hkinds.line ((hasKinds_punct link.op.punct).line hothers), ?_⟩
      simp only [List.flatMap_cons, List.cons_append, required_append, required_token] at hrest ⊢
      exact htrims.append (.token _ hrest)

/-- Operands with operators between them are accepted, however many they are, and but
for the spans the tree is that of a chain that comes apart at the last of its weakest
operators. -/
theorem parseExpr_chainSource (first : Operand) (links : List (Link Operand)) :
    ∃ parsed, parseExpr (chainSource first links) = .ok parsed ∧
      parsed.tree.map noNote parsed.names.text =
        group first.tree (links.map (Link.map Operand.tree)) := by
  have hall {sort : Expr Unit String → Prop} (h : ∀ operand : Operand, sort operand.tree) :
      AllOperands sort first.tree (links.map (Link.map Operand.tree)) :=
    ⟨h first, List.forall_mem_map.mpr fun link _ => h link.operand⟩
  obtain ⟨kinds, ⟨tokens, hscans, rfl⟩, htrims⟩ := hasKinds_chainSource first links
  have hspells : Spells ((group first.tree (links.map (Link.map Operand.tree))).slots id) tokens := by
    rw [slots_group, List.flatMap_map]
    exact htrims
  obtain ⟨parsed, hrun, hshape⟩ := runOn_loneExpr_gives hscans
    (fits_group (hall Operand.isOperand_tree) (hall Operand.fits_tree)) hspells
  have hlevels : parsed.tree.levels + 1 ≤ nestingLimit := by
    have hle := levels_group (hall Operand.levels_tree) fun link _ => precedence_pos link.op
    rw [← hshape, Expr.levels_map] at hle
    unfold nestingLimit
    omega
  have hlimit := runOn_limit Grammar.loneExpr_opens (chainSource first links) nestingLimit
  rw [hrun] at hlimit
  dsimp only at hlimit
  rw [if_pos hlevels] at hlimit
  exact ⟨parsed, hlimit, hshape⟩

theorem parseExpr_chainSource_of_names :
    ∃ parsed a b, parseExpr "a\n+\nb\n*\na\n-\nb" = .ok parsed ∧
      (parseExpr "a").toOption.map (fun parsed => parsed.tree.map noNote parsed.names.text) =
        some a ∧
      (parseExpr "b").toOption.map (fun parsed => parsed.tree.map noNote parsed.names.text) =
        some b ∧
      parsed.tree.map noNote parsed.names.text =
        .binary .sub (.binary .add a (.binary .mul b a ()) ()) b () := by
  have haccepted :
      parseExpr "a" = .ok ⟨.path ⟨⟨⟨0⟩, false, ⟨0, 1⟩⟩, [], ⟨0, 1⟩⟩, ⟨["a"]⟩, []⟩ := rfl
  have hsecond :
      parseExpr "b" = .ok ⟨.path ⟨⟨⟨0⟩, false, ⟨0, 1⟩⟩, [], ⟨0, 1⟩⟩, ⟨["b"]⟩, []⟩ := rfl
  let a : Operand := ⟨"a", _, haccepted, by decide, trivial⟩
  let b : Operand := ⟨"b", _, hsecond, by decide, trivial⟩
  obtain ⟨parsed, hrun, hshape⟩ := parseExpr_chainSource a [⟨.add, b⟩, ⟨.mul, a⟩, ⟨.sub, b⟩]
  refine ⟨parsed, a.tree, b.tree, hrun, by rw [haccepted]; rfl, by rw [hsecond]; rfl, ?_⟩
  rw [hshape]
  simp [group, splitWeakest, Link.map, BinaryOp.precedence]

end FilterScript
