import FilterScript.Proofs.Completeness.Scanned
import FilterScript.Proofs.Spelling.Scripts

/-!
# Tokens survive being written

What the tokens of a source are does not hang on how they stand in it. Written one
after the other, with separators and comments between them as one likes, they are
read again as they were. A word that is read as a name although it spells a keyword
stands in front of a flaw, so a source that has tokens has no such name.
-/

namespace FilterScript

theorem Stream.scans_of_tokens {stream : Stream} {tokens : List Token}
    (h : stream.tokens = .ok tokens) :
    ∃ scanned : List Token, stream.scans = scanned.map .ok ∧
      tokens = scanned ++ [Token.atEnd stream.length] := by
  unfold Stream.tokens at h
  generalize stream.scans = scans at h
  induction scans generalizing tokens with
  | nil =>
      cases h
      exact ⟨[], rfl, rfl⟩
  | cons scan scans ih =>
      cases scan with
      | error flaw => cases h
      | ok token =>
          rw [Stream.tokens.go] at h
          cases hothers : Stream.tokens.go stream scans with
          | error flaw =>
              rw [hothers] at h
              cases h
          | ok others =>
              rw [hothers] at h
              cases h
              obtain ⟨scanned, rfl, rfl⟩ := ih hothers
              exact ⟨token :: scanned, rfl, rfl⟩

/-- A source that has tokens is scanned without a flaw. -/
theorem scans_of_tokenize {source : String} {tokens : List Token}
    (h : tokenize source = .ok tokens) :
    ∃ scanned : List Token, (Stream.ofSource source).scans = scanned.map .ok ∧
      tokens = scanned ++ [Token.atEnd (byteLength source.toList)] := by
  unfold tokenize at h
  cases htokens : (Stream.ofSource source).tokens with
  | error flaw =>
      rw [htokens] at h
      cases h
  | ok found =>
      rw [htokens] at h
      cases h
      exact Stream.scans_of_tokens htokens

/-- The tokens of a source are read again from any text in which they are written
with gaps between them that keep them apart, and none of its plain names is a
reserved word. -/
theorem tokenize_writeApart {source : String} {tokens : List Token}
    (h : tokenize source = .ok tokens) :
    ∃ kinds : List Kind, tokens.map Token.kind = kinds ++ [.endOfFile] ∧ .endOfFile ∉ kinds ∧
      (∀ gap : Nat → String, (∀ number, Separates (gap number).toList) →
        ∃ again, tokenize (writeApart gap kinds) = .ok again ∧
          again.map Token.kind = tokens.map Token.kind) ∧
      ∀ text, .name text false ∈ kinds → ∀ word : Keyword, text ≠ word.spelling := by
  obtain ⟨scanned, hscans, rfl⟩ := scans_of_tokenize h
  have hwritable : ∀ kind ∈ scanned.map Token.kind, kind.IsWritable := by
    have hwritable : ∀ token ∈ scanned, token.kind.IsWritable :=
      @Cursor.scans_isWritable _ (Cursor.ofSource source) _ (Nat.le_refl _) hscans
    simpa using hwritable
  refine ⟨scanned.map Token.kind, by simp [Token.atEnd], fun hend => hwritable _ hend, ?_, ?_⟩
  · intro gap hgap
    obtain ⟨again, hagain, hkinds⟩ := scans_writeApart hgap hwritable
    exact ⟨_, tokenize_of_scans hagain, by simp [hkinds, Token.atEnd]⟩
  · intro text hname
    exact (hwritable _ hname).2 rfl

theorem tokenize_writeApart_of_comments :
    ∃ again,
      tokenize (writeApart (fun _ => "\t# not\n") [.keyword .fn, .name "if" true, .punct .lparen]) =
        .ok again ∧
      again.map Token.kind = [.keyword .fn, .name "if" true, .punct .lparen, .endOfFile] := by
  have htokens : tokenize "fn r#if(" =
      .ok [⟨.keyword .fn, ⟨0, 2⟩⟩, ⟨.name "if" true, ⟨3, 7⟩⟩, ⟨.punct .lparen, ⟨7, 8⟩⟩,
        ⟨.endOfFile, ⟨8, 8⟩⟩] := by rfl
  obtain ⟨kinds, hkinds, -, hagain, -⟩ := tokenize_writeApart htokens
  obtain rfl : kinds = [.keyword .fn, .name "if" true, .punct .lparen] := by
    simpa using (congrArg List.dropLast hkinds).symm
  have hline : Filling ('#' :: (" not".toList ++ ['\n'])) := .comment (by decide) .nil
  exact hagain _ fun _ => ⟨'\t', _, by rfl, by decide, hline⟩

end FilterScript
