/-
The parser reads back a written patch: what each kind of line does to the
state machine, then a chunk, a hunk and the whole patch, directly and in a
heredoc.
-/
import Hexa.ApplyPatch.HunkSteps
import Hexa.ApplyPatch.Render

namespace Hexa.ApplyPatch

open List StreamingPatchParser UpdateFileChunk

/-- The complete lines of a patch, one after the other. -/
def feedLines : StreamingPatchParser → List Text → Except ParseError StreamingPatchParser
  | parser, [] => .ok parser
  | parser, line :: lines =>
    match parser.feedLine line with
    | .error error => .error error
    | .ok next => feedLines next lines

variable {parser next : StreamingPatchParser}

theorem feedLines_append {first : List Text} (hfirst : feedLines parser first = .ok next)
    (second : List Text) : feedLines parser (first ++ second) = feedLines next second := by
  induction first generalizing parser with
  | nil =>
    obtain rfl : parser = next := by simpa [feedLines] using hfirst
    rfl
  | cons line lines ih =>
    rw [cons_append, feedLines]
    rw [feedLines] at hfirst
    cases hline : parser.feedLine line with
    | error error => simp [hline] at hfirst
    | ok middle =>
      simp only [hline] at hfirst
      exact ih hfirst

variable {line : Text} {lines : List Text}

theorem feedLines_cons {middle : StreamingPatchParser} (hline : parser.feedLine line = .ok middle)
    (hlines : feedLines middle lines = .ok next) :
    feedLines parser (line :: lines) = .ok next := by
  rw [feedLines, hline]
  exact hlines

/-- Characters before the next newline wait in the buffer. -/
theorem pushDelta_append_of_notMem {text : Text} (htext : '\n' ∉ text)
    (parser : StreamingPatchParser) (rest : Text) :
    parser.pushDelta (text ++ rest) =
      pushDelta { parser with lineBuffer := parser.lineBuffer ++ text } rest := by
  induction text generalizing parser with
  | nil => simp
  | cons char text ih =>
    simp only [mem_cons, not_or] at htext
    rw [cons_append, pushDelta, if_neg (Ne.symm htext.1), ih htext.2]
    simp

variable {path : Text}

theorem feedLine_clears (hline : parser.feedLine line = .ok next) : next.lineBuffer = [] := by
  have heffect := processLine_effect { parser with
    lineBuffer := [], lineNumber := parser.lineNumber + 1 } line
  rw [show processLine _ line = .ok next from hline] at heffect
  exact heffect.1

theorem stripCarriageReturn_of_plain (hplain : PlainLine line) :
    stripCarriageReturn line = line := by
  rw [stripCarriageReturn, if_neg hplain.noReturn]

/-- The state machine sees the lines of a text, and keeps the last one. -/
theorem pushDelta_unlines {last : Text} (hbuffer : parser.lineBuffer = [])
    (hplain : ∀ line ∈ lines, PlainLine line) (hlast : '\n' ∉ last)
    (hlines : feedLines parser lines = .ok next) :
    parser.pushDelta (unlines lines ++ last) = .ok { next with lineBuffer := last } := by
  induction lines generalizing parser with
  | nil =>
    obtain rfl : parser = next := by simpa [feedLines] using hlines
    have hrest := pushDelta_append_of_notMem hlast parser []
    rw [append_nil, hbuffer, nil_append] at hrest
    rw [unlines_nil, nil_append, hrest, pushDelta]
  | cons line lines ih =>
    obtain ⟨hline, hrest⟩ := forall_mem_cons.mp hplain
    rw [feedLines] at hlines
    cases hfed : parser.feedLine line with
    | error error => simp [hfed] at hlines
    | ok middle =>
      simp only [hfed] at hlines
      rw [unlines_cons, append_assoc, pushDelta_append_of_notMem hline.oneLine, cons_append,
        pushDelta, hbuffer, nil_append, stripCarriageReturn_of_plain hline,
        show feedLine { parser with lineBuffer := line } line = _ from hfed]
      exact ih (feedLine_clears hfed) hrest hlines

/-- The parser stands between two hunks. -/
structure Boundary (environmentId : Option Text) (hunks : List Hunk)
    (parser : StreamingPatchParser) : Prop where
  environmentId_eq : parser.state.environmentId = environmentId
  hunks_eq : parser.state.hunks = hunks
  started : parser.state.mode ≠ .notStarted
  running : parser.state.mode ≠ .endedPatch
  complete : ∀ lineNumber line, ensureUpdateHunkIsNotEmpty
    { parser with lineBuffer := [], lineNumber } line = .ok ()

/-- The parser when the next line is processed. -/
def nextLine (parser : StreamingPatchParser) : StreamingPatchParser :=
  { parser with lineBuffer := [], lineNumber := parser.lineNumber + 1 }

theorem trimEnd_eq_self (hend : EndsVisible line) : trimEnd line = line := by
  have hnothing : ∀ char ∈ ([] : Text), isWhiteSpace char = true := by simp
  simpa [trimEnd] using hend.rdropWhile_append hnothing

variable {environmentId : Option Text} {hunks : List Hunk}

/-- A header ends the hunk before it, whatever that is. -/
theorem feedLine_header (hboundary : Boundary environmentId hunks parser)
    (hstart : StartsVisible line) (hend : EndsVisible line)
    (henvironment : stripPrefix environmentIdMarker line = none)
    (hheader : (nextLine parser).headerNext line = some next) :
    parser.feedLine line = .ok next := by
  have hhandled :
      (nextLine parser).handleHunkHeadersAndEndPatch line = .ok (some next) := by
    have hcomplete := hboundary.complete (parser.lineNumber + 1) line
    rw [handleHunkHeadersAndEndPatch, henvironment, ite_self]
    simp only [hheader]
    rw [nextLine, hcomplete]
    rfl
  change processLine (nextLine parser) line = .ok next
  simp only [processLine, trim_eq_self hstart hend, trimEnd_eq_self hend, hhandled]
  split
  next hmode => exact absurd hmode hboundary.started
  · rfl
  · rfl
  · rfl
  · rfl
  next hmode => exact absurd hmode hboundary.running

theorem NameText.feeds (hpath : NameText path) {marker : Text} (hmarker : StartsVisible marker) :
    StartsVisible (marker ++ path) ∧ EndsVisible (marker ++ path) :=
  ⟨hmarker.append path, hpath.endsVisible.append marker⟩

section AddFile

variable (environmentId : Option Text) (hunks : List Hunk)

/-- The parser within an added file. -/
def atAdd (path contents : Text) (lineNumber : Nat) : StreamingPatchParser :=
  { lineNumber
    state :=
      { mode := .addFile
        hunks := hunks ++ [.addFile path contents]
        environmentId } }

/-- No line of a change is taken for a header. -/
theorem headerNext_of_change (parser : StreamingPatchParser) {line trimmed : Text} {first : Char}
    (hfirst : first ≠ '*') (htrimmed : trimmed <+: first :: line) :
    parser.headerNext trimmed = none := by
  rcases prefix_cons_iff.mp htrimmed with rfl | ⟨rest, rfl, -⟩
  · rfl
  · have hend : first :: rest ≠ endPatchMarker := fun heq => hfirst (List.cons.inj heq).1
    have hadd : stripPrefix addFileMarker (first :: rest) = none :=
      stripPrefix_cons_of_ne hfirst.symm _ rest
    have hdelete : stripPrefix deleteFileMarker (first :: rest) = none :=
      stripPrefix_cons_of_ne hfirst.symm _ rest
    have hupdate : stripPrefix updateFileMarker (first :: rest) = none :=
      stripPrefix_cons_of_ne hfirst.symm _ rest
    simp [headerNext, hend, hadd, hdelete, hupdate]

theorem handleHunkHeadersAndEndPatch_of_none {parser : StreamingPatchParser}
    (hmode : parser.state.mode ≠ .startedPatch) (hheader : parser.headerNext line = none) :
    parser.handleHunkHeadersAndEndPatch line = .ok none := by
  rw [handleHunkHeadersAndEndPatch, if_neg hmode]
  simp only [hheader]

theorem trim_prefix_of_visible {first : Char}
    (hfirst : isWhiteSpace first = false) (line : Text) :
    trim (first :: line) <+: first :: line := by
  rw [trim, dropWhile_cons_of_neg (by simp [hfirst])]
  exact rdropWhile_prefix _ _

theorem feedLine_added (path contents line : Text) (lineNumber : Nat) :
    feedLine (atAdd environmentId hunks path contents lineNumber) ('+' :: line) =
      .ok (atAdd environmentId hunks path (contents ++ line ++ ['\n']) (lineNumber + 1)) := by
  let parser := nextLine (atAdd environmentId hunks path contents lineNumber)
  have hmode : parser.state.mode ≠ .startedPatch := by simp [parser, nextLine, atAdd]
  have hvisible : isWhiteSpace '+' = false := by decide
  have hhandled := handleHunkHeadersAndEndPatch_of_none hmode
    (headerNext_of_change parser (by decide) (trim_prefix_of_visible hvisible line))
  change processLine parser _ = _
  simp only [processLine, hhandled]
  simp [parser, nextLine, atAdd, setLastHunk]

theorem feedLines_added (path contents : Text) (lines : List Text) (lineNumber : Nat) :
    ∃ lineNumber', feedLines
        (atAdd environmentId hunks path contents lineNumber)
        (lines.map ('+' :: ·)) =
      .ok (atAdd environmentId hunks path (contents ++ unlines lines) lineNumber') := by
  induction lines generalizing contents lineNumber with
  | nil => exact ⟨lineNumber, by simp [feedLines]⟩
  | cons line lines ih =>
    obtain ⟨lineNumber', hlines⟩ := ih (contents ++ line ++ ['\n']) (lineNumber + 1)
    refine ⟨lineNumber', feedLines_cons (feedLine_added ..) ?_⟩
    rw [hlines]
    simp

/-- A written addition is read back. -/
theorem feedLines_addFile {environmentId : Option Text} {hunks : List Hunk}
    {parser : StreamingPatchParser} (hboundary : Boundary environmentId hunks parser)
    {path contents : Text} (hhunk : (Hunk.addFile path contents).WellFormed) :
    ∃ next, feedLines parser (Hunk.addFile path contents).render = .ok next ∧
      Boundary environmentId (hunks ++ [.addFile path contents]) next := by
  obtain ⟨hpath, lines, rfl, hlines⟩ := hhunk
  have hmarker : StartsVisible addFileMarker := ⟨'*', _, rfl, by decide⟩
  obtain ⟨hstart, hend⟩ := hpath.feeds hmarker
  have hopened := feedLine_header hboundary hstart hend rfl rfl
  have hnext : (nextLine parser).pushHunk (.addFile path []) .addFile =
      atAdd environmentId hunks path [] (parser.lineNumber + 1) := by
    simp only [nextLine, pushHunk, atAdd, hboundary.environmentId_eq, hboundary.hunks_eq]
  obtain ⟨lineNumber, hadded⟩ := feedLines_added environmentId hunks path []
    lines (parser.lineNumber + 1)
  refine ⟨atAdd environmentId hunks path (unlines lines) lineNumber, ?_, rfl,
    rfl, by simp [atAdd], by simp [atAdd], ?_⟩
  · rw [Hunk.render, contentLines_unlines hlines]
    exact feedLines_cons (hopened.trans (congrArg Except.ok hnext)) hadded
  · intro lineNumber line
    simp [ensureUpdateHunkIsNotEmpty, atAdd]

end AddFile

variable (hboundary : Boundary environmentId hunks parser)
include hboundary in
/-- A written deletion is read back. -/
theorem feedLines_deleteFile (hpath : NameText path) :
    ∃ next, feedLines parser (Hunk.deleteFile path).render = .ok next ∧
      Boundary environmentId (hunks ++ [.deleteFile path]) next := by
  have hmarker : StartsVisible deleteFileMarker := ⟨'*', _, rfl, by decide⟩
  obtain ⟨hstart, hend⟩ := hpath.feeds hmarker
  have hopened := feedLine_header hboundary hstart hend rfl rfl
  refine ⟨_, feedLines_cons hopened rfl, ?_⟩
  refine ⟨hboundary.environmentId_eq, ?_, by simp [pushHunk], by simp [pushHunk], ?_⟩
  · simp [pushHunk, nextLine, hboundary.hunks_eq]
  · intro lineNumber line
    simp [ensureUpdateHunkIsNotEmpty, pushHunk]

section UpdateFile

variable (environmentId : Option Text) (hunks : List Hunk) (path : Text) (movePath : Option Text)
  (chunks : List UpdateFileChunk) (hunkLineNumber lineNumber : Nat)

/-- The parser within an updated file. -/
def atUpdate : StreamingPatchParser :=
  { lineNumber
    state :=
      { mode := .updateFile hunkLineNumber
        hunks := hunks ++ [.updateFile path movePath chunks]
        environmentId } }

/-- What stays the same around the chunks of an updated file. -/
structure UpdateFrame where
  environmentId : Option Text
  hunks : List Hunk
  path : Text
  movePath : Option Text
  hunkLineNumber : Nat

def UpdateFrame.at (frame : UpdateFrame) (chunks : List UpdateFileChunk) (lineNumber : Nat) :
    StreamingPatchParser :=
  atUpdate frame.environmentId frame.hunks frame.path frame.movePath chunks
    frame.hunkLineNumber lineNumber

variable (frame : UpdateFrame)

/-- A line that is no header goes to the chunks of the file. -/
theorem feedLine_update {line : Text}
    (hheader : ∀ parser : StreamingPatchParser, parser.headerNext (trimEnd line) = none) :
    feedLine (frame.at chunks lineNumber) line =
      processUpdateLine (frame.at chunks (lineNumber + 1)) line frame.path
        frame.movePath chunks := by
  let parser := frame.at chunks (lineNumber + 1)
  have hmode : parser.state.mode ≠ .startedPatch := by simp [parser, UpdateFrame.at, atUpdate]
  change processLine parser line = _
  simp only [processLine, handleHunkHeadersAndEndPatch_of_none hmode (hheader parser)]
  simp [parser, UpdateFrame.at, atUpdate]

theorem setLastHunk_at (movePath : Option Text) (chunks' : List UpdateFileChunk) :
    (frame.at chunks lineNumber).setLastHunk (.updateFile frame.path movePath chunks') =
      { frame with movePath }.at chunks' lineNumber := by
  simp [setLastHunk, UpdateFrame.at, atUpdate]

theorem feedLine_moveTo (hunmoved : frame.movePath = none) {target : Text}
    (htarget : NameText target) :
    feedLine (frame.at [] lineNumber) (moveToMarker ++ target) =
      .ok ({ frame with movePath := some target }.at [] (lineNumber + 1)) := by
  have hend := trimEnd_eq_self (htarget.endsVisible.append moveToMarker)
  rw [feedLine_update]
  · simp [processUpdateLine, hunmoved, hend, setLastHunk_at]
  · intro parser
    rw [hend]
    rfl

/-- The chunk that a `@@` line opens. -/
def opened (context : Option Text) : UpdateFileChunk :=
  { UpdateFileChunk.empty with changeContext := context }

/-- The last chunk, if there is one, has a line. -/
def LastComplete (chunks : List UpdateFileChunk) : Prop :=
  chunks.getLast?.any UpdateFileChunk.isEmpty = false

variable {chunk : UpdateFileChunk}

theorem feedLine_contextMarker (hcomplete : LastComplete chunks)
    (hcontext : ∀ context ∈ chunk.changeContext, NameText context) :
    feedLine (frame.at chunks lineNumber) chunk.contextMarker =
      .ok (frame.at (chunks ++ [opened chunk.changeContext]) (lineNumber + 1)) := by
  rw [LastComplete] at hcomplete
  cases hfound : chunk.changeContext with
  | none =>
    have hmarker : chunk.contextMarker = emptyChangeContextMarker := by
      simp [contextMarker, hfound]
    have hend : trimEnd emptyChangeContextMarker =
        emptyChangeContextMarker := rfl
    rw [hmarker, feedLine_update]
    · have hfull : emptyChangeContextMarker.isEmpty = false := rfl
      have hchange : isChangeContext emptyChangeContextMarker = true := rfl
      have hmove : moveToMarker.isPrefixOf emptyChangeContextMarker =
          false := rfl
      simp [processUpdateLine, hend, hfull, hchange, hmove, hcomplete,
        setLastHunk_at, opened, empty]
    · intro parser
      rfl
  | some context =>
    have hname := hcontext context hfound
    have hmarker : chunk.contextMarker = changeContextMarker ++ context := by
      simp [contextMarker, hfound]
    have hend := trimEnd_eq_self (hname.endsVisible.append changeContextMarker)
    rw [hmarker, feedLine_update]
    · have hfull : (changeContextMarker ++ context).isEmpty = false := rfl
      have hlead : changeContextMarker.isPrefixOf (changeContextMarker ++ context) = true := rfl
      have hchange : isChangeContext (changeContextMarker ++ context) =
          true := by simp [isChangeContext]
      have hmove : moveToMarker.isPrefixOf (changeContextMarker ++ context) = false := rfl
      have hnotEmpty : changeContextMarker ++ context ≠
          emptyChangeContextMarker := by
        intro heq
        cases heq
      simp [processUpdateLine, hend, hfull, hchange, hmove, hcomplete,
        hnotEmpty, setLastHunk_at, opened]
    · intro parser
      rw [hend]
      rfl

/-- The chunk after one more line of the change. -/
def UpdateFileChunk.push (chunk : UpdateFileChunk) :
    ChangeLine → UpdateFileChunk
  | .context text => chunk.pushContextLine text
  | .added text => chunk.pushNewLine text
  | .removed text => chunk.pushOldLine text

/-- No trimmed line of a change is taken for a marker of a chunk. -/
theorem change_not_marker {first : Char} {line trimmed : Text} (hstar : first ≠ '*')
    (hat : first ≠ '@') (htrimmed : trimmed <+: first :: line) :
    isChangeContext trimmed = false ∧ trimmed ≠ emptyChangeContextMarker ∧
      changeContextMarker.isPrefixOf trimmed = false ∧
      trimmed ≠ eofMarker := by
  rcases prefix_cons_iff.mp htrimmed with rfl | ⟨rest, rfl, -⟩
  · exact ⟨rfl, by decide, rfl, by decide⟩
  · have hempty : first :: rest ≠ emptyChangeContextMarker := fun heq => hat (List.cons.inj heq).1
    have hlead : changeContextMarker.isPrefixOf (first :: rest) = false := by
      change ('@' == first && _) = false
      simp [hat.symm]
    refine ⟨by simp [isChangeContext, hempty, hlead], hempty, hlead, ?_⟩
    exact fun heq => hstar (List.cons.inj heq).1

variable (before : List UpdateFileChunk)

section

variable (hopen : chunk.isEndOfFile = false)
include hopen

theorem feedLine_change (change : ChangeLine) :
    feedLine (frame.at (before ++ [chunk]) lineNumber) change.render =
      .ok (frame.at (before ++ [chunk.push change]) (lineNumber + 1)) := by
  obtain ⟨first, text, hrender, hstar, hat⟩ : ∃ first text,
      change.render = first :: text ∧ first ≠ '*' ∧ first ≠ '@' := by
    cases change with
    | context text => exact ⟨' ', text, rfl, by decide, by decide⟩
    | added text => exact ⟨'+', text, rfl, by decide, by decide⟩
    | removed text => exact ⟨'-', text, rfl, by decide, by decide⟩
  have hleading : trimEnd change.render <+: first :: text := hrender ▸ rdropWhile_prefix _ _
  obtain ⟨hchange, hempty, hlead, heof⟩ := change_not_marker hstar hat hleading
  rw [feedLine_update]
  · simp only [processUpdateLine, getLast?_concat, Option.any_some, hopen,
      hchange, hempty, hlead, heof]
    cases change with
    | context text | added text | removed text =>
      simp [ChangeLine.render, pushChangeLine, setLastHunk_at, push]
  · intro parser
    exact headerNext_of_change parser hstar hleading

theorem feedLines_changes (changes : List ChangeLine) :
    feedLines (frame.at (before ++ [chunk]) lineNumber) (changes.map ChangeLine.render) =
      .ok (frame.at (before ++ [changes.foldl push chunk]) (lineNumber + changes.length)) := by
  induction changes generalizing chunk lineNumber with
  | nil => simp [feedLines]
  | cons change changes ih =>
    rw [length_cons, Nat.add_comm changes.length, ← Nat.add_assoc]
    apply feedLines_cons (feedLine_change _ frame before hopen change)
    exact ih _ (by cases change <;> exact hopen)

theorem feedLine_eof (hfull : chunk.isEmpty = false) :
    feedLine (frame.at (before ++ [chunk]) lineNumber) eofMarker =
      .ok (frame.at (before ++ [{ chunk with isEndOfFile := true }]) (lineNumber + 1)) := by
  have hend : trimEnd eofMarker = eofMarker := rfl
  have hempty : eofMarker ≠ emptyChangeContextMarker := by decide
  have hlead : changeContextMarker.isPrefixOf eofMarker = false := rfl
  rw [feedLine_update]
  · simp [processUpdateLine, hend, hopen, hfull, hempty, hlead, setLastHunk_at]
  · intro parser
    rfl

end

/-- A list around one of its elements. -/
theorem take_cons_drop {index : Nat} {line : Text} (hline : lines[index]? = some line) :
    lines.take index ++ line :: lines.drop (index + 1) = lines ∧
      (lines.take index).length = index := by
  obtain ⟨hlt, rfl⟩ := List.getElem?_eq_some_iff.mp hline
  rw [getElem_cons_drop, take_append_drop]
  exact ⟨rfl, by simp; omega⟩

theorem foldl_push_removed (chunk : UpdateFileChunk) (old : List Text) :
    (old.map ChangeLine.removed).foldl push chunk =
      { chunk with oldLines := chunk.oldLines ++ old } := by
  induction old generalizing chunk with
  | nil => simp
  | cons line old ih =>
    rw [map_cons, foldl_cons, ih]
    simp [push, pushOldLine]

theorem foldl_push_added (chunk : UpdateFileChunk) (new : List Text) :
    (new.map ChangeLine.added).foldl push chunk =
      { chunk with newLines := chunk.newLines ++ new } := by
  induction new generalizing chunk with
  | nil => simp
  | cons line new ih =>
    rw [map_cons, foldl_cons, ih]
    simp [push, pushNewLine]

/-- The lines of a change give back its two sides and the context indices.
The counts are the lines that the chunk has before. -/
theorem foldl_push_changeLines (indices : List (Nat × Nat)) (chunk : UpdateFileChunk)
    (old new : List Text)
    (haligned : ContextAligned indices chunk.oldLines.length chunk.newLines.length old new) :
    (changeLines indices chunk.oldLines.length chunk.newLines.length old new).foldl push chunk =
      { chunk with
        oldLines := chunk.oldLines ++ old
        newLines := chunk.newLines ++ new
        contextLineIndices := chunk.contextLineIndices ++ indices } := by
  induction indices generalizing chunk old new with
  | nil =>
    rw [changeLines, foldl_append, foldl_push_removed, foldl_push_added]
    simp
  | cons index indices ih =>
    obtain ⟨oldIndex, newIndex⟩ := index
    obtain ⟨hold, hnew, ⟨line, holdLine, hnewLine⟩, hrest⟩ := haligned
    obtain ⟨holdSplit, holdLength⟩ := take_cons_drop holdLine
    obtain ⟨hnewSplit, hnewLength⟩ := take_cons_drop hnewLine
    have hhead : (old.drop (oldIndex - chunk.oldLines.length)).headD [] =
        line := by
      rw [headD_eq_head?_getD, head?_drop, holdLine]
      rfl
    -- The chunk up to and with this context line.
    let reached : UpdateFileChunk := { chunk with
        contextLineIndices := chunk.contextLineIndices ++ [(oldIndex, newIndex)]
        oldLines := chunk.oldLines ++ old.take (oldIndex - chunk.oldLines.length) ++ [line]
        newLines := chunk.newLines ++ new.take (newIndex - chunk.newLines.length) ++ [line] }
    have holdCount : reached.oldLines.length = oldIndex + 1 := by
      simp only [reached, length_append, length_singleton]
      omega
    have hnewCount : reached.newLines.length = newIndex + 1 := by
      simp only [reached, length_append, length_singleton]
      omega
    have hreached : push
        { chunk with
          oldLines := chunk.oldLines ++ old.take (oldIndex - chunk.oldLines.length)
          newLines := chunk.newLines ++ new.take (newIndex - chunk.newLines.length) }
        (.context line) = reached := by
      simp only [push, pushContextLine, length_append, holdLength, hnewLength,
        reached, Nat.add_sub_cancel' hold, Nat.add_sub_cancel' hnew]
    rw [← holdCount, ← hnewCount] at hrest
    rw [changeLines, foldl_append, foldl_append, foldl_push_removed, foldl_push_added, foldl_cons,
      hhead, hreached, ← holdCount, ← hnewCount, ih reached _ _ hrest]
    simp only [reached, append_assoc, singleton_append, holdSplit, hnewSplit]

/-- A written chunk is read back. -/
theorem feedLines_chunk (hcomplete : LastComplete chunks) (hchunk : chunk.WellFormed) :
    ∃ lineNumber', feedLines (frame.at chunks lineNumber) chunk.render =
      .ok (frame.at (chunks ++ [chunk]) lineNumber') := by
  have hmarker := feedLine_contextMarker chunks lineNumber frame hcomplete hchunk.context
  have hlines := feedLines_changes (lineNumber + 1) frame chunks
    (show (opened chunk.changeContext).isEndOfFile = false from rfl) chunk.changes
  have hfold : chunk.changes.foldl push
      (opened chunk.changeContext) = { chunk with isEndOfFile := false } :=
    foldl_push_changeLines chunk.contextLineIndices
      (opened chunk.changeContext) chunk.oldLines chunk.newLines
      hchunk.aligned
  rw [hfold] at hlines
  have hbody := feedLines_cons hmarker hlines
  cases heof : chunk.isEndOfFile with
  | false =>
    refine ⟨lineNumber + 1 + chunk.changes.length, ?_⟩
    rw [← heof] at hbody
    rw [render, heof, if_neg Bool.false_ne_true, append_nil, hbody]
  | true =>
    have hlast := feedLine_eof (lineNumber + 1 + chunk.changes.length) frame
      chunks (show ({ chunk with isEndOfFile := false } :
        UpdateFileChunk).isEndOfFile = false from rfl) hchunk.notEmpty
    refine ⟨lineNumber + 1 + chunk.changes.length + 1, ?_⟩
    rw [render, heof, if_pos rfl, feedLines_append hbody]
    rw [feedLines_cons hlast rfl, ← heof]

theorem feedLines_chunks (hcomplete : LastComplete chunks) {later : List UpdateFileChunk}
    (hlater : ∀ chunk ∈ later, chunk.WellFormed) :
    ∃ lineNumber', feedLines (frame.at chunks lineNumber) (later.flatMap render) =
      .ok (frame.at (chunks ++ later) lineNumber') := by
  induction later generalizing chunks lineNumber with
  | nil => exact ⟨lineNumber, by simp [feedLines]⟩
  | cons chunk later ih =>
    obtain ⟨hchunk, hrest⟩ := forall_mem_cons.mp hlater
    obtain ⟨middle, hfirst⟩ := feedLines_chunk chunks lineNumber frame hcomplete hchunk
    obtain ⟨last, hlast⟩ := ih (chunks ++ [chunk]) middle
      (by simp [LastComplete, hchunk.notEmpty]) hrest
    refine ⟨last, ?_⟩
    rw [flatMap_cons, feedLines_append hfirst, hlast]
    simp

end UpdateFile

include hboundary in
/-- A written update is read back. -/
theorem feedLines_updateFile {movePath : Option Text} {chunks : List UpdateFileChunk}
    (hhunk : (Hunk.updateFile path movePath chunks).WellFormed) :
    ∃ next, feedLines parser (Hunk.updateFile path movePath chunks).render = .ok next ∧
      Boundary environmentId (hunks ++ [.updateFile path movePath chunks]) next := by
  obtain ⟨hpath, hmove, hne, hchunks⟩ := hhunk
  have hmarker : StartsVisible updateFileMarker := ⟨'*', _, rfl, by decide⟩
  obtain ⟨hstart, hend⟩ := hpath.feeds hmarker
  have hopened := feedLine_header hboundary hstart hend rfl rfl
  let frame : UpdateFrame := ⟨environmentId, hunks, path, none, parser.lineNumber + 1⟩
  have hnext : (nextLine parser).pushHunk (.updateFile path none [])
        (.updateFile (nextLine parser).lineNumber) =
      frame.at [] (parser.lineNumber + 1) := by
    simp only [nextLine, pushHunk, frame, UpdateFrame.at, atUpdate,
      hboundary.environmentId_eq, hboundary.hunks_eq]
  -- The header with the target of a move.
  obtain ⟨lineNumber, hheader⟩ : ∃ lineNumber, feedLines parser
      ((updateFileMarker ++ path) :: movePath.toList.map (moveToMarker ++ ·)) =
      .ok ({ frame with movePath }.at [] lineNumber) := by
    have hfirst := hopened.trans (congrArg Except.ok hnext)
    cases movePath with
    | none => exact ⟨_, feedLines_cons hfirst rfl⟩
    | some target =>
      have htarget := feedLine_moveTo (parser.lineNumber + 1) frame rfl (hmove target rfl)
      exact ⟨_, feedLines_cons hfirst (feedLines_cons htarget rfl)⟩
  obtain ⟨last, hbody⟩ := feedLines_chunks [] lineNumber { frame with movePath } rfl hchunks
  refine ⟨_, (feedLines_append hheader _).trans hbody, ?_⟩
  rw [← dropLast_append_getLast hne]
  have hfull := (hchunks _ (getLast_mem hne)).notEmpty
  refine ⟨rfl, rfl, by simp [UpdateFrame.at, atUpdate], by simp [UpdateFrame.at, atUpdate], ?_⟩
  intro lineNumber line
  simp [ensureUpdateHunkIsNotEmpty, UpdateFrame.at, atUpdate, hfull]

include hboundary in
theorem feedLines_hunk {hunk : Hunk} (hhunk : hunk.WellFormed) :
    ∃ next, feedLines parser hunk.render = .ok next ∧
      Boundary environmentId (hunks ++ [hunk]) next := by
  cases hunk with
  | addFile path contents => exact feedLines_addFile hboundary hhunk
  | deleteFile path => exact feedLines_deleteFile hboundary hhunk
  | updateFile path movePath chunks => exact feedLines_updateFile hboundary hhunk

/-- Written hunks are read back, from any place between hunks. -/
theorem feedLines_hunks {before : List Hunk} (hboundary : Boundary environmentId before parser)
    (hhunks : ∀ hunk ∈ hunks, hunk.WellFormed) :
    ∃ next, feedLines parser (hunks.flatMap Hunk.render) = .ok next ∧
      Boundary environmentId (before ++ hunks) next := by
  induction hunks generalizing before parser with
  | nil => exact ⟨parser, rfl, by simpa using hboundary⟩
  | cons hunk hunks ih =>
    obtain ⟨hhunk, hrest⟩ := forall_mem_cons.mp hhunks
    obtain ⟨middle, hfirst, hmiddle⟩ := feedLines_hunk hboundary hhunk
    obtain ⟨next, hlast, hnext⟩ := ih hmiddle hrest
    refine ⟨next, ?_, by simpa using hnext⟩
    rw [flatMap_cons, feedLines_append hfirst, hlast]

/-- The parser after the first line and the environment line. -/
theorem feedLines_opening (henvironment : ∀ name ∈ environmentId, NameText name) :
    ∃ next, feedLines {} (beginPatchMarker ::
        environmentId.toList.map (environmentIdMarker ++ ' ' :: ·)) =
        .ok next ∧ Boundary environmentId [] next := by
  cases environmentId with
  | none =>
    refine ⟨_, rfl, rfl, rfl, by decide, by decide, ?_⟩
    intro lineNumber line
    rfl
  | some name =>
    have hname := henvironment name rfl
    let started : StreamingPatchParser := { state := { mode := .startedPatch }, lineNumber := 2 }
    have hmarker : StartsVisible environmentIdMarker := ⟨'*', _, rfl, by decide⟩
    have hline : trim (environmentIdMarker ++ ' ' :: name) =
        environmentIdMarker ++ ' ' :: name := by
      apply trim_eq_self (hmarker.append _)
      exact (hname.endsVisible.append [' ']).append environmentIdMarker
    have htrim : trim (' ' :: name) = name := by exact hname.trimmed
    let named : StreamingPatchParser := { started with
        state := { started.state with environmentId := some name } }
    have hhandled : started.handleHunkHeadersAndEndPatch
        (environmentIdMarker ++ ' ' :: name) = .ok (some named) := by
      have hstrip : stripPrefix environmentIdMarker
          (environmentIdMarker ++ ' ' :: name) = some (' ' :: name) := rfl
      rw [handleHunkHeadersAndEndPatch, hstrip]
      simp [handleEnvironmentId, htrim, hname.ne_nil, started, named, Except.map]
    have hfed : started.processLine (environmentIdMarker ++ ' ' :: name) = .ok named := by
      have hmode : started.state.mode = .startedPatch := rfl
      simp only [processLine, hmode, hline, hhandled]
    refine ⟨named, feedLines_cons rfl (feedLines_cons hfed rfl), rfl, rfl, by simp, by simp, ?_⟩
    intro lineNumber line
    rfl

include hboundary in
/-- The parser ends a patch between two hunks. -/
theorem finish_endPatch :
    ∃ last, finish { parser with lineBuffer := endPatchMarker } = .ok last ∧
      last.state.hunks = hunks ∧ last.state.environmentId = environmentId := by
  have hcomplete := hboundary.complete (parser.lineNumber + 1) endPatchMarker
  have hfed : feedLastLine { parser with lineBuffer := endPatchMarker } =
      .ok ((nextLine parser).withMode .endedPatch) := by
    have hne : endPatchMarker ≠ [] := by decide
    have htrim : trim endPatchMarker = endPatchMarker := by decide
    simp [feedLastLine, hne, htrim, hcomplete, Except.map, nextLine]
  refine ⟨(nextLine parser).withMode .endedPatch, ?_, hboundary.hunks_eq,
    hboundary.environmentId_eq⟩
  rw [finish, hfed]
  rfl

/-- The lines of a written patch, once its boundaries are checked. -/
theorem parse_patchLines (henvironment : ∀ name ∈ environmentId, NameText name)
    (hhunks : ∀ hunk ∈ hunks, hunk.WellFormed) {patch : Text} {mode : ParseMode}
    (hboundaries : checkPatchBoundaries mode (textLines (trim patch)) =
      .ok (patchLines environmentId hunks)) :
    parsePatchText patch mode =
      .ok ⟨List.intercalate ['\n'] (patchLines environmentId hunks), hunks,
        none, environmentId⟩ := by
  obtain ⟨started, hstarted, hfirst⟩ := feedLines_opening henvironment
  obtain ⟨next, hnext, hboundary⟩ := feedLines_hunks hfirst hhunks
  have hlines : feedLines {} (openingLines environmentId hunks) = .ok next :=
    (feedLines_append hstarted _).trans hnext
  have hpushed := pushDelta_unlines rfl
    (fun line hline => openingLines_plain henvironment hhunks hline)
    (show '\n' ∉ endPatchMarker by decide) hlines
  obtain ⟨last, hfinish, hread, hname⟩ := finish_endPatch hboundary
  rw [nil_append] at hread
  simp only [parsePatchText, hboundaries]
  rw [patchLines, intercalate_newline, hpushed]
  simp only [hfinish, hread, hname]

/-- Lines that are written as a text, with the newline behind the last one
trimmed, are the lines of the text. -/
theorem textLines_trim_unlines {init : List Text} {last : Text}
    (hplain : ∀ line ∈ init, PlainLine line) (hstart : StartsVisible (unlines init ++ last))
    (hlast : '\n' ∉ last) (hend : EndsVisible last) :
    textLines (trim (unlines (init ++ [last]))) = init ++ [last] := by
  have htext : unlines (init ++ [last]) = (unlines init ++ last) ++ ['\n'] := by simp [unlines]
  have hwhite : ∀ char ∈ ['\n'], isWhiteSpace char = true := forall_mem_singleton.mpr (by decide)
  rw [htext, trim_append hstart (hend.append _) hwhite]
  exact textLines_unlines_append
    (fun line hmem => ⟨(hplain line hmem).oneLine, (hplain line hmem).noReturn⟩) hlast hend.ne_nil

theorem checkPatchBoundariesStrict_patchLines (environmentId : Option Text) (hunks : List Hunk) :
    checkPatchBoundariesStrict (patchLines environmentId hunks) =
      .ok (patchLines environmentId hunks) := by
  have hfirst : (patchLines environmentId hunks).head? = some beginPatchMarker := rfl
  have hlast : (patchLines environmentId hunks).getLast? = some endPatchMarker := getLast?_concat
  have hbegin : trim beginPatchMarker = beginPatchMarker := by decide
  have hend : trim endPatchMarker = endPatchMarker := by decide
  simp [checkPatchBoundariesStrict, hfirst, hlast,
    checkStartAndEndLinesStrict, hbegin, hend, Except.map]

/-- The first line of a heredoc is not the first line of a patch, so that the
lenient check looks inside. -/
theorem checkPatchBoundariesLenient_heredoc {opener : Text} (hopener : opener ∈ heredocOpeners)
    (environmentId : Option Text) (hunks : List Hunk) :
    checkPatchBoundariesLenient (opener :: patchLines environmentId hunks ++ [heredocCloser]) =
      .ok (patchLines environmentId hunks) := by
  have htrim : trim opener ≠ beginPatchMarker := by
    revert opener
    decide
  have hlast : (opener :: patchLines environmentId hunks ++
      [heredocCloser]).getLast? = some heredocCloser := getLast?_concat
  have hstrict : checkPatchBoundariesStrict
      (opener :: patchLines environmentId hunks ++ [heredocCloser]) =
      .error (.invalidPatchError firstLineMessage) := by
    rw [checkPatchBoundariesStrict, hlast]
    simp [checkStartAndEndLinesStrict, htrim, Except.map]
  obtain ⟨rest, hrest⟩ : ∃ rest, patchLines environmentId hunks ++
      [heredocCloser] = beginPatchMarker :: rest := ⟨_, rfl⟩
  have hcloser : (beginPatchMarker :: rest).getLast? = some heredocCloser := by
    rw [← hrest, getLast?_concat]
  have hinner : (beginPatchMarker :: rest).dropLast = patchLines environmentId hunks := by
    rw [← hrest, dropLast_concat]
  have hlength : (opener :: beginPatchMarker :: rest).length ≥ 4 := by
    rw [← hrest]
    simp [patchLines, openingLines]
    omega
  rw [cons_append, hrest] at hstrict ⊢
  simp only [checkPatchBoundariesLenient, hstrict, hcloser, hinner]
  rw [if_pos ⟨hopener, rfl, hlength⟩]
  exact checkPatchBoundariesStrict_patchLines environmentId hunks

theorem plain_of_mem_heredocOpeners {opener : Text} (hopener : opener ∈ heredocOpeners) :
    PlainLine opener ∧ ∃ rest, opener = '<' :: rest := by
  simp only [heredocOpeners, mem_cons, not_mem_nil, or_false] at hopener
  rcases hopener with rfl | rfl | rfl <;>
    exact ⟨⟨by decide, by decide⟩, _, rfl⟩

/-- A written patch is read back, in both modes, and in a heredoc in lenient
mode. -/
theorem parse_rendered_patch (environmentId : Option Text) (hunks : List Hunk)
    (henvironment : ∀ name ∈ environmentId, NameText name)
    (hhunks : ∀ hunk ∈ hunks, hunk.WellFormed) :
    (∀ mode, parsePatchText (renderPatch environmentId hunks) mode =
      .ok ⟨List.intercalate ['\n'] (patchLines environmentId hunks), hunks,
        none, environmentId⟩) ∧
    ∀ opener ∈ heredocOpeners,
      parsePatchText (renderHeredoc opener environmentId hunks) .lenient =
        .ok ⟨List.intercalate ['\n'] (patchLines environmentId hunks), hunks,
          none, environmentId⟩ := by
  have hplain : ∀ line ∈ openingLines environmentId hunks, PlainLine line :=
    fun line hline => openingLines_plain henvironment hhunks hline
  have hstrict := checkPatchBoundariesStrict_patchLines environmentId hunks
  refine ⟨?_, ?_⟩
  · intro mode
    apply parse_patchLines henvironment hhunks
    have hlines : textLines (trim (renderPatch environmentId hunks)) =
        patchLines environmentId hunks := by
      apply textLines_trim_unlines hplain ⟨'*', _, rfl, by decide⟩ (by decide)
      exact ⟨"*** End Patc".toList, 'h', by decide, by decide⟩
    rw [hlines]
    cases mode with
    | strict => exact hstrict
    | lenient => simp only [checkPatchBoundaries, checkPatchBoundariesLenient, hstrict]
  · intro opener hopener
    apply parse_patchLines henvironment hhunks
    obtain ⟨hopenerPlain, lead, hlead⟩ := plain_of_mem_heredocOpeners hopener
    have hlines : textLines
        (trim (renderHeredoc opener environmentId hunks)) =
        opener :: patchLines environmentId hunks ++ [heredocCloser] := by
      apply textLines_trim_unlines
      · exact forall_mem_cons.mpr ⟨hopenerPlain,
          forall_mem_append.mpr ⟨hplain, forall_mem_singleton.mpr ⟨by decide, by decide⟩⟩⟩
      · subst hlead
        exact ⟨'<', _, rfl, by decide⟩
      · decide
      · exact ⟨"EO".toList, 'F', by decide, by decide⟩
    rw [hlines]
    exact checkPatchBoundariesLenient_heredoc hopener environmentId hunks

namespace Witness

/-- A rename with a context line between a removed and an added one. -/
def renameHunk : Hunk :=
  .updateFile ['a'] (some ['b']) [⟨some ['f'], [['x'], ['y']], [['y'], []], [(1, 0)], true⟩]

theorem renameHunk_wellFormed : renameHunk.WellFormed := by
  refine ⟨by decide, by decide, by simp, forall_mem_singleton.mpr ?_⟩
  refine ⟨by decide, by decide, by decide, by decide, ?_⟩
  exact ⟨Nat.zero_le 1, Nat.le_refl 0, ⟨['y'], rfl, rfl⟩, trivial⟩

theorem rename_round_trip :
    (∀ mode, (parsePatchText (renderPatch none [renameHunk]) mode).map
      ApplyPatchArgs.hunks = .ok [renameHunk]) ∧
    ∀ opener ∈ heredocOpeners,
      (parsePatchText (renderHeredoc opener none [renameHunk]) .lenient).map
        ApplyPatchArgs.hunks = .ok [renameHunk] := by
  obtain ⟨hdirect, hheredoc⟩ := parse_rendered_patch none [renameHunk]
    (by simp) (by simpa using renameHunk_wellFormed)
  refine ⟨fun mode => ?_, fun opener hopener => ?_⟩
  · rw [hdirect]
    rfl
  · rw [hheredoc opener hopener]
    rfl

/-- A carriage return before a newline is lost, a chunk without lines is
refused beside one with lines, and an environment id loses the white space
around it. -/
theorem carriage_return_not_read_back :
    (parsePatchText (renderPatch none [.addFile ['a'] ['x', '\r', '\n']])
        .strict).map ApplyPatchArgs.hunks =
      .ok [.addFile ['a'] ['x', '\n']] ∧
    (parsePatchText (renderPatch none [.updateFile ['a'] none
        [.empty, ⟨none, [], [['x']], [], false⟩]]) .strict).map
        ApplyPatchArgs.hunks =
      .error (.invalidHunkError (unexpectedLineMessage "@@".toList) 4) ∧
    (parsePatchText (renderPatch (some [' ', 'e']) []) .strict).map
        ApplyPatchArgs.environmentId = .ok (some ['e']) :=
  ⟨rfl, rfl, rfl⟩

end Witness

end Hexa.ApplyPatch
