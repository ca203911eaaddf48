/-
The text of a rules file: the line that an approved prefix is written as, the
append under the file lock, and a reader for lines of that form.
-/
import Hexa.Lib.JsonText
import Hexa.Lib.Lines
import Hexa.ExecPolicy.Policy

namespace Hexa.ExecPolicy

open List Option

@[irreducible]
def ruleOpening : List Char := "prefix_rule(pattern=[".toList

@[irreducible]
def tokenSeparator : List Char := ", ".toList

@[irreducible]
def decisionField : List Char := "], decision=".toList

@[irreducible]
def allowWord : List Char := "allow".toList

/-- The line that `blocking_append_allow_prefix_rule` writes. -/
def allowRuleLine (tokens : List String) : List Char :=
  ruleOpening ++
    (tokenSeparator.intercalate
      (tokens.map (fun token => jsonString token.toList)) ++
      (decisionField ++ (jsonString allowWord ++ [')'])))

/-- `append_locked_line` on the text of the file. -/
def appendLockedLine (contents line : List Char) : List Char :=
  if line ∈ textLines contents then contents
  else if contents ≠ [] ∧ contents.getLast? ≠ some '\n' then
    contents ++ ['\n'] ++ (line ++ ['\n'])
  else contents ++ (line ++ ['\n'])

variable {contents : List Char} {line : List Char}

theorem appendLockedLine_of_mem (hline : line ∈ textLines contents) :
    appendLockedLine contents line = contents := by
  rw [appendLockedLine, if_pos hline]

theorem appendLockedLine_of_terminated (hcontents : Terminated contents)
    (hline : line ∉ textLines contents) :
    appendLockedLine contents line = contents ++ (line ++ ['\n']) := by
  rw [appendLockedLine, if_neg hline, if_neg]
  rintro ⟨hne, hlast⟩
  rcases hcontents with hempty | hnewline
  · exact hne hempty
  · exact hlast hnewline

def Decision.parse (raw : List Char) : Option Decision :=
  if raw = allowWord then some .allow
  else if raw = "prompt".toList then some .prompt
  else if raw = "forbidden".toList then some .forbidden
  else none

/-- What follows a literal text. -/
def readLiteral (literal text : List Char) : Option (List Char) :=
  if literal.isPrefixOf text then some (text.drop literal.length) else none

theorem readLiteral_append (literal rest : List Char) :
    readLiteral literal (literal ++ rest) = some rest := by
  simp [readLiteral]

/-- String literals with `, ` between them. -/
def readTokens : Nat → List Char → Option (List String × List Char)
  | 0, _ => none
  | fuel + 1, text =>
    match readJsonString text with
    | none => none
    | some (token, rest) =>
      match readLiteral tokenSeparator rest with
      | none => some ([String.ofList token], rest)
      | some rest =>
        (readTokens fuel rest).map (fun read => (String.ofList token :: read.1, read.2))

/-- A whole line of the form that is written, with any decision. -/
def readRuleLine (line : List Char) : Option (List String × Decision) := do
  let text ← readLiteral ruleOpening line
  let (tokens, text) ← readTokens line.length text
  let text ← readLiteral decisionField text
  let (raw, text) ← readJsonString text
  let decision ← Decision.parse raw
  if text = [')'] then some (tokens, decision) else none

theorem readTokens_intercalate {tokens : List String} (htokens : tokens ≠ []) {fuel : Nat}
    (hfuel : tokens.length ≤ fuel) {rest : List Char}
    (hrest : readLiteral tokenSeparator rest = none) :
    readTokens fuel (tokenSeparator.intercalate
        (tokens.map (fun token => jsonString token.toList)) ++ rest) =
      some (tokens, rest) := by
  induction tokens generalizing fuel with
  | nil => exact absurd rfl htokens
  | cons token tokens ih =>
    cases fuel with
    | zero => simp at hfuel
    | succ fuel =>
      cases tokens with
      | nil =>
        rw [map_singleton, intercalate_singleton, readTokens, readJsonString_jsonString]
        simp only [hrest, String.ofList_toList]
      | cons next tokens =>
        have hread := ih (by simp) (by simpa using hfuel)
        simp only [map_cons, intercalate_cons_cons, append_assoc] at hread ⊢
        rw [readTokens, readJsonString_jsonString]
        simp only [readLiteral_append, hread, map_some, String.ofList_toList]

variable (tokens : List String)

theorem length_le_length_intercalate :
    tokens.length ≤ (tokenSeparator.intercalate
      (tokens.map (fun token => jsonString token.toList))).length := by
  induction tokens with
  | nil => exact Nat.zero_le _
  | cons token tokens ih =>
    cases tokens with
    | nil => simp [jsonString]
    | cons next tokens =>
      simp only [map_cons, intercalate_cons_cons, length_append, length_cons] at ih ⊢
      have hpos : 0 < (jsonString token.toList).length := by simp [jsonString]
      omega

/-- A written line reads back as the prefix that it allows. -/
theorem readRuleLine_allowRuleLine {tokens : List String} (htokens : tokens ≠ []) :
    readRuleLine (allowRuleLine tokens) = some (tokens, .allow) := by
  have hlength : tokens.length ≤ (allowRuleLine tokens).length := by
    have hjoined := length_le_length_intercalate tokens
    simp only [allowRuleLine, length_append]
    omega
  have hstop : readLiteral tokenSeparator
      (decisionField ++ (jsonString allowWord ++ [')'])) = none := by
    unfold tokenSeparator decisionField
    rfl
  have htokens := readTokens_intercalate htokens hlength hstop
  have hdecision : Decision.parse allowWord = some .allow := by rw [Decision.parse, if_pos rfl]
  have hopen : readLiteral ruleOpening (allowRuleLine tokens) =
      some (tokenSeparator.intercalate
        (tokens.map (fun token => jsonString token.toList)) ++
        (decisionField ++ (jsonString allowWord ++ [')']))) :=
    readLiteral_append _ _
  simp only [readRuleLine, hopen, htokens, hdecision, readLiteral_append,
    readJsonString_jsonString, bind_eq_bind, bind_some, if_true]

theorem newline_notMem_intercalate :
    '\n' ∉ tokenSeparator.intercalate (tokens.map (fun token => jsonString token.toList)) := by
  induction tokens with
  | nil => exact not_mem_nil
  | cons token tokens ih =>
    cases tokens with
    | nil =>
      rw [map_singleton, intercalate_singleton]
      exact newline_notMem_jsonString _
    | cons next tokens =>
      simp only [map_cons, intercalate_cons_cons, mem_append, not_or] at ⊢
      have hseparator : '\n' ∉ tokenSeparator := by
        unfold tokenSeparator
        decide
      exact ⟨⟨newline_notMem_jsonString _, hseparator⟩, ih⟩

theorem newline_notMem_allowRuleLine : '\n' ∉ allowRuleLine tokens := by
  have hopening : '\n' ∉ ruleOpening := by
    unfold ruleOpening
    decide
  have hfield : '\n' ∉ decisionField := by
    unfold decisionField
    decide
  simp only [allowRuleLine, mem_append, not_or]
  exact ⟨hopening, newline_notMem_intercalate tokens, hfield,
    newline_notMem_jsonString _, by decide⟩

/-- A text that `append_locked_line` can read back as one line. -/
def WholeLine (line : List Char) : Prop := '\n' ∉ line ∧ line.getLast? ≠ some '\r'

/-- The newline after a last line without one leaves the lines as they are. -/
theorem textLines_append_newline (hcontents : ¬Terminated contents)
    (hreturn : contents.getLast? ≠ some '\r') :
    textLines (contents ++ ['\n']) = textLines contents := by
  obtain ⟨front, last, rfl, hfront, hlast⟩ :
      ∃ front last, contents = front ++ last ∧ Terminated front ∧ '\n' ∉ last := by
    refine ⟨contents.rdropWhile (· ≠ '\n'), contents.rtakeWhile (· ≠ '\n'),
      rdropWhile_append_rtakeWhile.symm, ?_,
      fun hmem => by simpa using mem_rtakeWhile_imp hmem⟩
    by_cases hempty : contents.rdropWhile (· ≠ '\n') = []
    · exact .inl hempty
    · right
      rw [getLast?_eq_some_getLast hempty]
      simpa using rdropWhile_last_not (· ≠ '\n') contents hempty
  have hne : last ≠ [] := by
    rintro rfl
    exact hcontents (by simpa using hfront)
  rw [getLast?_append_of_ne_nil _ hne] at hreturn
  have hend : last.getLast? ≠ some '\n' := fun hmem => hlast (mem_of_getLast? hmem)
  rw [append_assoc, textLines_append_line hfront hlast hreturn, textLines,
    textLines, splitInclusive_append hfront, splitInclusive_of_notMem hlast hne]
  simp [stripTerminator, hend]

theorem textLines_appendLockedLine (hreturn : contents.getLast? ≠ some '\r')
    (hline : WholeLine line) (hnew : line ∉ textLines contents) :
    textLines (appendLockedLine contents line) = textLines contents ++ [line] ∧
      (appendLockedLine contents line).getLast? = some '\n' := by
  by_cases hcontents : Terminated contents
  · rw [appendLockedLine_of_terminated hcontents hnew]
    exact ⟨textLines_append_line hcontents hline.1 hline.2, by simp⟩
  · have hterminated : Terminated (contents ++ ['\n']) := .inr (by simp)
    rw [appendLockedLine, if_neg hnew, if_pos (not_or.mp hcontents),
      textLines_append_line hterminated hline.1 hline.2,
      textLines_append_newline hcontents hreturn]
    exact ⟨rfl, by rw [← append_assoc, getLast?_concat]⟩

/-- What appends in this order make of a file.  It stays as it is if no line is
added, and else ends with a newline. -/
structure Appended (contents : List Char) (lines : List (List Char))
    (final : List Char) : Prop where
  kept : ∃ added, textLines final = textLines contents ++ added ∧ added.Nodup ∧
    (∀ line ∈ added, line ∈ lines ∧ line ∉ textLines contents) ∧
    (if added = [] then final = contents else final.getLast? = some '\n')
  present : ∀ line ∈ lines, line ∈ textLines final

theorem Appended.step {lines : List (List Char)} {line final : List Char}
    (happended : Appended contents lines final) (hreturn : contents.getLast? ≠ some '\r')
    (hline : WholeLine line) :
    Appended contents (lines ++ [line]) (appendLockedLine final line) := by
  obtain ⟨⟨added, hlines, hnodup, hadded, hending⟩, hpresent⟩ := happended
  have hold : ∀ other ∈ added, other ∈ lines ++ [line] ∧ other ∉ textLines contents :=
    fun other hother => (hadded other hother).imp_left (mem_append_left _)
  by_cases hmem : line ∈ textLines final
  · rw [appendLockedLine_of_mem hmem]
    exact ⟨⟨added, hlines, hnodup, hold, hending⟩, forall_mem_append.mpr
      ⟨hpresent, forall_mem_singleton.mpr hmem⟩⟩
  · have hfinal : final.getLast? ≠ some '\r' := by
      split_ifs at hending
      · rw [hending]
        exact hreturn
      · simp [hending]
    obtain ⟨hnext, hend⟩ := textLines_appendLockedLine hfinal hline hmem
    rw [hlines, mem_append, not_or] at hmem
    refine ⟨⟨added ++ [line], ?_, ?_, ?_, ?_⟩, ?_⟩
    · rw [hnext, hlines, append_assoc]
    · exact nodup_append.mpr ⟨hnodup, nodup_singleton line, by
        simpa using fun other hother (heq : other = line) => hmem.2 (heq ▸ hother)⟩
    · exact forall_mem_append.mpr ⟨hold, by simpa using hmem.1⟩
    · rw [if_neg (append_ne_nil_of_right_ne_nil added (cons_ne_nil line []))]
      exact hend
    · rw [hnext]
      exact forall_mem_append.mpr
        ⟨fun other hother => mem_append_left _ (hpresent other hother), by simp⟩

/-- Appends of whole lines, in the order in which they take the lock, keep the
lines of the file and add each missing line once; the file then ends with a
newline, and is unchanged if nothing was added.  Repeating one of them changes
nothing. -/
theorem appends_keep_lines {lines : List (List Char)} (hreturn : contents.getLast? ≠ some '\r')
    (hlines : ∀ line ∈ lines, WholeLine line) :
    Appended contents lines (lines.foldl appendLockedLine contents) ∧
      ∀ line ∈ lines, appendLockedLine (lines.foldl appendLockedLine contents) line =
          lines.foldl appendLockedLine contents := by
  have happended :
      Appended contents lines (lines.foldl appendLockedLine contents) := by
    induction lines using List.reverseRecOn with
    | nil => exact ⟨⟨[], by simp⟩, nofun⟩
    | append_singleton lines line ih =>
      obtain ⟨hbefore, hline⟩ := forall_mem_append.mp hlines
      rw [foldl_append]
      exact (ih hbefore).step hreturn (hline line mem_cons_self)
  exact ⟨happended, fun line hmem => appendLockedLine_of_mem (happended.present line hmem)⟩

/-- A second rule after a file without a newline at its end. -/
theorem appends_keep_unterminated_line :
    Appended "a".toList ["b".toList, "a".toList] "a\nb\n".toList ∧
      ∀ line ∈ ["b".toList, "a".toList],
        appendLockedLine "a\nb\n".toList line = "a\nb\n".toList :=
  appends_keep_lines (by decide) (by unfold WholeLine; decide)

/-- An append of a line that is there leaves a file without a newline at its
end; a line with a carriage return at its end is not recognised; and one at
the end of the file becomes part of a line ending. -/
theorem appends_miss_newline_and_carriage_return :
    appendLockedLine "a".toList "a".toList = "a".toList ∧
      appendLockedLine "a\r\n".toList "a\r".toList = "a\r\na\r\n".toList ∧
      textLines "a\r".toList = ["a\r".toList] ∧
      textLines (appendLockedLine "a\r".toList "b".toList) = ["a".toList, "b".toList] := by
  decide

end Hexa.ExecPolicy
