/-
The parser of the patch format: a state machine that is driven by the lines of
the patch as they arrive, and the checks around it that accept a patch in a
heredoc.
-/
import Hexa.Lib.Lines
import Hexa.ApplyPatch.FileUpdate

namespace Hexa.ApplyPatch

deriving instance DecidableEq for UpdateFileChunk
deriving instance DecidableEq for Hunk

def beginPatchMarker : Text := "*** Begin Patch".toList
def endPatchMarker : Text := "*** End Patch".toList
def addFileMarker : Text := "*** Add File: ".toList
def deleteFileMarker : Text := "*** Delete File: ".toList
def updateFileMarker : Text := "*** Update File: ".toList
def moveToMarker : Text := "*** Move to: ".toList
def eofMarker : Text := "*** End of File".toList
def changeContextMarker : Text := "@@ ".toList
def emptyChangeContextMarker : Text := "@@".toList
def environmentIdMarker : Text := "*** Environment ID:".toList

inductive ParseError where
  | invalidPatchError (message : Text)
  | invalidHunkError (message : Text) (lineNumber : Nat)
  deriving Repr, DecidableEq

namespace UpdateFileChunk

def empty : UpdateFileChunk := ⟨none, [], [], [], false⟩

variable (chunk : UpdateFileChunk)

/-- The chunk has no line yet. -/
def isEmpty : Bool := chunk.oldLines.isEmpty && chunk.newLines.isEmpty

def pushContextLine (line : Text) : UpdateFileChunk :=
  { chunk with
    contextLineIndices := chunk.contextLineIndices ++
      [(chunk.oldLines.length, chunk.newLines.length)]
    oldLines := chunk.oldLines ++ [line]
    newLines := chunk.newLines ++ [line] }

def pushNewLine (line : Text) : UpdateFileChunk :=
  { chunk with newLines := chunk.newLines ++ [line] }

def pushOldLine (line : Text) : UpdateFileChunk :=
  { chunk with oldLines := chunk.oldLines ++ [line] }

end UpdateFileChunk

inductive StreamingParserMode where
  | notStarted
  | startedPatch
  | addFile
  | deleteFile
  | updateFile (hunkLineNumber : Nat)
  | endedPatch
  deriving Repr, DecidableEq

structure StreamingParserState where
  mode : StreamingParserMode := .notStarted
  hunks : List Hunk := []
  environmentId : Option Text := none
  deriving DecidableEq

structure StreamingPatchParser where
  lineBuffer : Text := []
  state : StreamingParserState := {}
  lineNumber : Nat := 0
  deriving DecidableEq

section

def firstLineMessage : Text := "The first line of the patch must be '*** Begin Patch'".toList

def lastLineMessage : Text := "The last line of the patch must be '*** End Patch'".toList

def invalidHeaderMessage (line : Text) : Text :=
  "'".toList ++ line ++
    ("' is not a valid hunk header. Valid hunk headers: " ++
      "'*** Add File: \x7bpath\x7d', '*** Delete File: \x7bpath\x7d', " ++
      "'*** Update File: \x7bpath\x7d'").toList

def unexpectedLineMessage (line : Text) : Text :=
  "Unexpected line found in update hunk: '".toList ++ line ++
    ("'. Every line should start with ' ' (context line), " ++
      "'+' (added line), or '-' (removed line)").toList

def expectedMarkerMessage (line : Text) : Text :=
  "Expected update hunk to start with a @@ context marker, got: '".toList ++ line ++ "'".toList

def noLinesMessage : Text := "Update hunk does not contain any lines".toList

end

namespace StreamingPatchParser

variable (parser : StreamingPatchParser)

def withMode (mode : StreamingParserMode) : StreamingPatchParser :=
  { parser with state := { parser.state with mode } }

/-- A new hunk at the end. -/
def pushHunk (hunk : Hunk) (mode : StreamingParserMode) : StreamingPatchParser :=
  { parser with
    state := { parser.state with mode, hunks := parser.state.hunks ++ [hunk] } }

/-- The hunk behind `last_mut`, changed in place. -/
def setLastHunk (hunk : Hunk) : StreamingPatchParser :=
  { parser with
    state := { parser.state with
      hunks := parser.state.hunks.dropLast ++ [hunk] } }

variable (line : Text)

def ensureUpdateHunkIsNotEmpty : Except ParseError Unit :=
  match parser.state.hunks.getLast? with
  | some (.updateFile path _ chunks) =>
    match chunks.getLast?, parser.state.mode with
    | none, .updateFile hunkLineNumber =>
      .error (.invalidHunkError
        ("Update file hunk for path '".toList ++ path ++ "' is empty".toList) hunkLineNumber)
    | none, _ => .ok ()
    | some chunk, _ =>
      if chunk.isEmpty then
        if line = endPatchMarker then .error (.invalidHunkError noLinesMessage parser.lineNumber)
        else .error (.invalidHunkError (unexpectedLineMessage line) parser.lineNumber)
      else .ok ()
  | _ => .ok ()

/-- The environment line, which may stand before the first hunk. -/
def handleEnvironmentId (rest : Text) : Except ParseError StreamingPatchParser :=
  if parser.state.environmentId.isSome then
    .error (.invalidPatchError
      "apply_patch environment_id cannot be specified more than once".toList)
  else if trim rest = [] then
    .error (.invalidPatchError "apply_patch environment_id cannot be empty".toList)
  else
    .ok { parser with
      state := { parser.state with environmentId := some (trim rest) } }

/-- The parser after the end of the patch or the header of a hunk. -/
def headerNext (trimmed : Text) : Option StreamingPatchParser :=
  if trimmed = endPatchMarker then some (parser.withMode .endedPatch)
  else
    match stripPrefix addFileMarker trimmed with
    | some path => some (parser.pushHunk (.addFile path []) .addFile)
    | none =>
      match stripPrefix deleteFileMarker trimmed with
      | some path => some (parser.pushHunk (.deleteFile path) .deleteFile)
      | none =>
        (stripPrefix updateFileMarker trimmed).map (fun path =>
          parser.pushHunk (.updateFile path none []) (.updateFile parser.lineNumber))

/-- `handle_hunk_headers_and_end_patch`, with the parser after a line that it
has handled. -/
def handleHunkHeadersAndEndPatch (trimmed : Text) :
    Except ParseError (Option StreamingPatchParser) :=
  let environment :=
    if parser.state.mode = .startedPatch then stripPrefix environmentIdMarker trimmed
    else none
  match environment with
  | some rest => (parser.handleEnvironmentId rest).map some
  | none =>
    match parser.headerNext trimmed with
    | none => .ok none
    | some next => (parser.ensureUpdateHunkIsNotEmpty trimmed).map (fun _ => some next)

/-- The line is a `@@` marker. -/
def isChangeContext : Bool :=
  line = emptyChangeContextMarker || changeContextMarker.isPrefixOf line

/-- A context, added or removed line for the last chunk, or for a new one if
there is none yet. -/
def pushChangeLine (push : UpdateFileChunk → UpdateFileChunk) (chunks : List UpdateFileChunk) :
    List UpdateFileChunk :=
  match chunks.getLast? with
  | none => [push .empty]
  | some chunk => chunks.dropLast ++ [push chunk]

/-- The part of `process_line` for a line of an update that is no header. -/
def processUpdateLine (line path : Text) (movePath : Option Text)
    (chunks : List UpdateFileChunk) : Except ParseError StreamingPatchParser :=
  let updateLine := trimEnd line
  let lastIsEmpty := chunks.getLast?.any UpdateFileChunk.isEmpty
  let withChunks := fun chunks => parser.setLastHunk (.updateFile path movePath chunks)
  let unexpected := ParseError.invalidHunkError (unexpectedLineMessage line) parser.lineNumber
  if chunks.getLast?.any UpdateFileChunk.isEndOfFile && updateLine.isEmpty then .ok parser
  else if chunks.getLast?.any UpdateFileChunk.isEndOfFile && !isChangeContext updateLine then
    .error (.invalidHunkError (expectedMarkerMessage line) parser.lineNumber)
  else if chunks.isEmpty && movePath.isNone && moveToMarker.isPrefixOf updateLine then
    .ok (parser.setLastHunk (.updateFile path
      (some (updateLine.drop moveToMarker.length)) chunks))
  else if isChangeContext updateLine && lastIsEmpty then .error unexpected
  else if updateLine = emptyChangeContextMarker then .ok (withChunks (chunks ++ [.empty]))
  else if changeContextMarker.isPrefixOf updateLine then
    .ok (withChunks (chunks ++
      [{ UpdateFileChunk.empty with
        changeContext := some (updateLine.drop changeContextMarker.length) }]))
  else if updateLine = eofMarker then
    match chunks.getLast? with
    | none => .ok parser
    | some chunk =>
      if chunk.isEmpty then .error (.invalidHunkError noLinesMessage parser.lineNumber)
      else .ok (withChunks (chunks.dropLast ++ [{ chunk with isEndOfFile := true }]))
  else
    match line with
    | [] => .ok (withChunks (pushChangeLine (·.pushContextLine []) chunks))
    | ' ' :: rest => .ok (withChunks (pushChangeLine (·.pushContextLine rest) chunks))
    | '+' :: rest => .ok (withChunks (pushChangeLine (·.pushNewLine rest) chunks))
    | '-' :: rest => .ok (withChunks (pushChangeLine (·.pushOldLine rest) chunks))
    | _ =>
      if chunks.getLast?.any (fun chunk => !chunk.isEmpty) then
        .error (.invalidHunkError (expectedMarkerMessage line) parser.lineNumber)
      else .error unexpected

def processLine : Except ParseError StreamingPatchParser :=
  let trimmed := trim line
  let invalidHeader :=
    ParseError.invalidHunkError (invalidHeaderMessage trimmed) parser.lineNumber
  match parser.state.mode with
  | .notStarted =>
    if trimmed = beginPatchMarker then .ok (parser.withMode .startedPatch)
    else .error (.invalidPatchError firstLineMessage)
  | .startedPatch =>
    match parser.handleHunkHeadersAndEndPatch trimmed with
    | .error error => .error error
    | .ok (some next) => .ok next
    | .ok none => .error invalidHeader
  | .addFile =>
    match parser.handleHunkHeadersAndEndPatch trimmed with
    | .error error => .error error
    | .ok (some next) => .ok next
    | .ok none =>
      match line, parser.state.hunks.getLast? with
      | '+' :: lineToAdd, some (.addFile path contents) =>
        .ok (parser.setLastHunk (.addFile path (contents ++ lineToAdd ++ ['\n'])))
      | _, _ => .error invalidHeader
  | .deleteFile =>
    match parser.handleHunkHeadersAndEndPatch trimmed with
    | .error error => .error error
    | .ok (some next) => .ok next
    | .ok none => .error invalidHeader
  | .updateFile _ =>
    match parser.handleHunkHeadersAndEndPatch (trimEnd line) with
    | .error error => .error error
    | .ok (some next) => .ok next
    | .ok none =>
      match parser.state.hunks.getLast? with
      | some (.updateFile path movePath chunks) =>
        parser.processUpdateLine line path movePath chunks
      | _ => .error (.invalidHunkError (unexpectedLineMessage line) parser.lineNumber)
  | .endedPatch =>
    if trimmed = [] then .ok parser
    else .error (.invalidPatchError lastLineMessage)

/-- A line without a carriage return at its end. -/
def stripCarriageReturn : Text := if line.getLast? = some '\r' then line.dropLast else line

/-- A whole line has arrived. -/
def feedLine : Except ParseError StreamingPatchParser :=
  processLine { parser with lineBuffer := [], lineNumber := parser.lineNumber + 1 } line

def pushDelta (parser : StreamingPatchParser) :
    Text → Except ParseError StreamingPatchParser
  | [] => .ok parser
  | char :: delta =>
    if char = '\n' then
      match parser.feedLine (stripCarriageReturn parser.lineBuffer) with
      | .error error => .error error
      | .ok next => pushDelta next delta
    else pushDelta { parser with lineBuffer := parser.lineBuffer ++ [char] } delta

/-- The last line, which no newline ends. -/
def feedLastLine : Except ParseError StreamingPatchParser :=
  if parser.lineBuffer = [] then .ok parser
  else if trim parser.lineBuffer = endPatchMarker then
    let next : StreamingPatchParser :=
      { parser with lineBuffer := [], lineNumber := parser.lineNumber + 1 }
    (next.ensureUpdateHunkIsNotEmpty endPatchMarker).map (fun _ =>
      next.withMode .endedPatch)
  else parser.feedLine parser.lineBuffer

def finish : Except ParseError StreamingPatchParser :=
  match parser.feedLastLine with
  | .error error => .error error
  | .ok next =>
    if next.state.mode = .endedPatch then .ok next
    else .error (.invalidPatchError lastLineMessage)

end StreamingPatchParser

inductive ParseMode where
  | strict
  | lenient
  deriving Repr, DecidableEq

def checkStartAndEndLinesStrict (firstLine lastLine : Option Text) : Except ParseError Unit :=
  match firstLine.map trim, lastLine.map trim with
  | some first, some last =>
    if first = beginPatchMarker ∧ last = endPatchMarker then .ok ()
    else if first ≠ beginPatchMarker then .error (.invalidPatchError firstLineMessage)
    else .error (.invalidPatchError lastLineMessage)
  | some first, none =>
    if first ≠ beginPatchMarker then .error (.invalidPatchError firstLineMessage)
    else .error (.invalidPatchError lastLineMessage)
  | none, _ => .error (.invalidPatchError lastLineMessage)

def checkPatchBoundariesStrict (lines : List Text) : Except ParseError (List Text) :=
  (checkStartAndEndLinesStrict lines.head? lines.getLast?).map (fun _ => lines)

def heredocOpeners : List Text := ["<<EOF".toList, "<<'EOF'".toList, "<<\"EOF\"".toList]

def heredocCloser : Text := "EOF".toList

def checkPatchBoundariesLenient (originalLines : List Text) : Except ParseError (List Text) :=
  match checkPatchBoundariesStrict originalLines with
  | .ok lines => .ok lines
  | .error originalParseError =>
    match originalLines with
    | first :: second :: rest =>
      if first ∈ heredocOpeners ∧
          heredocCloser.isSuffixOf ((second :: rest).getLast?.getD []) ∧
          originalLines.length ≥ 4 then
        checkPatchBoundariesStrict (second :: rest).dropLast
      else .error originalParseError
    | _ => .error originalParseError

def checkPatchBoundaries (mode : ParseMode) (lines : List Text) : Except ParseError (List Text) :=
  match mode with
  | .strict => checkPatchBoundariesStrict lines
  | .lenient => checkPatchBoundariesLenient lines

def parsePatchText (patch : Text) (mode : ParseMode) : Except ParseError ApplyPatchArgs :=
  match checkPatchBoundaries mode (textLines (trim patch)) with
  | .error error => .error error
  | .ok patchLines =>
    let patch := List.intercalate ['\n'] patchLines
    match StreamingPatchParser.pushDelta {} patch with
    | .error error => .error error
    | .ok parser =>
      match parser.finish with
      | .error error => .error error
      | .ok parser =>
        .ok {
          patch
          hunks := parser.state.hunks
          workdir := none
          environmentId := parser.state.environmentId }

end Hexa.ApplyPatch
