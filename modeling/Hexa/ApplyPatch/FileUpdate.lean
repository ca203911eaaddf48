/-
The hunks of a patch, and the new contents of a file that its chunks are
applied to.
-/
import Hexa.Lib.RustStr

namespace Hexa.ApplyPatch

structure UpdateFileChunk where
  changeContext : Option Text
  oldLines : List Text
  newLines : List Text
  contextLineIndices : List (Nat × Nat)
  isEndOfFile : Bool

inductive Hunk where
  | addFile (path contents : Text)
  | deleteFile (path : Text)
  | updateFile (path : Text) (movePath : Option Text) (chunks : List UpdateFileChunk)

structure ApplyPatchArgs where
  patch : Text
  hunks : List Hunk
  workdir : Option Text
  environmentId : Option Text

inductive ApplyPatchFileUpdateMode where
  | normalizeToLf
  | preserveLineEndings
  deriving Repr, DecidableEq

section

/-- `trim_end`. -/
def trimEnd (text : Text) : Text := text.rdropWhile isWhiteSpace

/-- Dashes, quotes and spaces as their ASCII characters. -/
def normaliseChar (char : Char) : Char :=
  let code := char.toNat
  if (0x2010 ≤ code && code ≤ 0x2015) || code == 0x2212 then '-'
  else if 0x2018 ≤ code && code ≤ 0x201B then '\''
  else if 0x201C ≤ code && code ≤ 0x201F then '"'
  else if code == 0xA0 || (0x2002 ≤ code && code ≤ 0x200A) ||
    code == 0x202F || code == 0x205F || code == 0x3000 then ' '
  else char

def normalise (text : Text) : Text := (trim text).map normaliseChar

/-- The lines from an index on match a pattern after both are simplified. -/
def matchesAt (simplify : Text → Text) (lines pattern : List Text) (index : Nat) : Bool :=
  ((lines.drop index).take pattern.length).map simplify == pattern.map simplify

def searchFrom (simplify : Text → Text) (lines pattern : List Text) (first : Nat) : Option Nat :=
  ((List.range (lines.length - pattern.length + 1)).drop first).find?
    (matchesAt simplify lines pattern)

def seekSequence (lines pattern : List Text) (start : Nat) (eof : Bool)
    (mode : ApplyPatchFileUpdateMode) : Option Nat :=
  if pattern = [] then some start
  else if lines.length < pattern.length then none
  else
    let eofStart := lines.length - pattern.length
    let first :=
      match eof, mode with
      | false, _ => start
      | true, .normalizeToLf => eofStart
      | true, .preserveLineEndings => max eofStart start
    -- Exact first, then with less and less of the white space and spelling.
    (searchFrom id lines pattern first).or
      ((searchFrom trimEnd lines pattern first).or
        ((searchFrom trim lines pattern first).or (searchFrom normalise lines pattern first)))

end

section Replacements

/-- Where lines are replaced, how many, and by what. -/
abbrev Replacement := Nat × Nat × List Text

variable (lines : List Text) (path : Text) (mode : ApplyPatchFileUpdateMode)

/-- The line behind the context of a chunk. -/
def seekContext (lineIndex : Nat) : Option Text → Except Text Nat
  | none => .ok lineIndex
  | some context =>
    match seekSequence lines [context] lineIndex false mode with
    | some index => .ok (index + 1)
    | none => .error ("Failed to find context '".toList ++ context ++ "' in ".toList ++ path)

/-- Where a chunk without old lines is inserted. -/
def insertionIndex : Nat :=
  match mode with
  | .normalizeToLf => if lines.getLast? = some [] then lines.length - 1 else lines.length
  | .preserveLineEndings => lines.length

/-- Where the old lines are, with what is taken for them and for the new
lines: an empty last line may stand for the final newline. -/
def findOldLines (chunk : UpdateFileChunk) (lineIndex : Nat) :
    Option (Nat × List Text × List Text) :=
  match seekSequence lines chunk.oldLines lineIndex chunk.isEndOfFile mode with
  | some index => some (index, chunk.oldLines, chunk.newLines)
  | none =>
    if chunk.oldLines.getLast? = some [] then
      let pattern := chunk.oldLines.dropLast
      let newSlice :=
        if chunk.newLines.getLast? = some [] then chunk.newLines.dropLast
        else chunk.newLines
      (seekSequence lines pattern lineIndex chunk.isEndOfFile mode).map
        (fun index => (index, pattern, newSlice))
    else none

/-- The replacements between the context lines of a chunk, which stay. -/
def contextReplacements (startIndex : Nat) (pattern newSlice : List Text) :
    List (Nat × Nat) → Nat → Nat → List Replacement
  | [], oldStart, newStart => rest oldStart newStart
  | (oldContext, newContext) :: contexts, oldStart, newStart =>
    if pattern.length ≤ oldContext || newSlice.length ≤ newContext then rest oldStart newStart
    else
      (if oldStart ≠ oldContext || newStart ≠ newContext then
        [(startIndex + oldStart, oldContext - oldStart, (newSlice.take newContext).drop newStart)]
      else []) ++
        contextReplacements startIndex pattern newSlice contexts (oldContext + 1) (newContext + 1)
where
  rest (oldStart newStart : Nat) : List Replacement :=
    if oldStart ≠ pattern.length || newStart ≠ newSlice.length then
      [(startIndex + oldStart, pattern.length - oldStart, newSlice.drop newStart)]
    else []

/-- The loop of `compute_replacements`, before they are sorted. -/
def collectReplacements : List UpdateFileChunk → Nat → Except Text (List Replacement)
  | [], _ => .ok []
  | chunk :: chunks, lineIndex =>
    match seekContext lines path mode lineIndex chunk.changeContext with
    | .error message => .error message
    | .ok lineIndex =>
      if chunk.oldLines = [] then
        (collectReplacements chunks lineIndex).map
          ((insertionIndex lines mode, 0, chunk.newLines) :: ·)
      else
        match findOldLines lines mode chunk lineIndex with
        | none =>
          .error ("Failed to find expected lines in ".toList ++ path ++
            ":\n".toList ++ ['\n'].intercalate chunk.oldLines)
        | some (startIndex, pattern, newSlice) =>
          let own :=
            match mode with
            | .normalizeToLf => [(startIndex, pattern.length, newSlice)]
            | .preserveLineEndings =>
              contextReplacements startIndex pattern newSlice chunk.contextLineIndices 0 0
          (collectReplacements chunks (startIndex + pattern.length)).map (own ++ ·)

def computeReplacements (chunks : List UpdateFileChunk) : Except Text (List Replacement) :=
  (collectReplacements lines path mode chunks 0).map
    (List.insertionSort (fun first second => first.1 ≤ second.1))

/-- The last replacement is applied first. -/
def applyReplacements (lines : List Text) (replacements : List Replacement) : List Text :=
  replacements.foldr (fun replacement lines =>
    lines.take replacement.1 ++ replacement.2.2 ++
      lines.drop (replacement.1 + replacement.2.1)) lines

end Replacements

section

inductive LineEnding where
  | lf
  | crLf
  | cr
  deriving Repr, DecidableEq

def LineEnding.asStr : LineEnding → Text
  | .lf => ['\n']
  | .crLf => ['\r', '\n']
  | .cr => ['\r']

structure SourceLine where
  text : Text
  ending : Option LineEnding

structure SourceFile where
  lines : List SourceLine
  preferredEnding : LineEnding

namespace SourceFile

/-- The lines of a text, behind what has been read of the first one. -/
def parseLines (current : Text) : Text → List SourceLine
  | [] => if current = [] then [] else [⟨current, none⟩]
  | '\r' :: '\n' :: rest => ⟨current, some .crLf⟩ :: parseLines [] rest
  | '\r' :: rest => ⟨current, some .cr⟩ :: parseLines [] rest
  | '\n' :: rest => ⟨current, some .lf⟩ :: parseLines [] rest
  | char :: rest => parseLines (current ++ [char]) rest

def parse (contents : Text) : SourceFile :=
  let lines := parseLines [] contents
  ⟨lines, (lines.findSome? (·.ending)).getD .lf⟩

variable (file : SourceFile)

def lineTexts : List Text := file.lines.map (·.text)

/-- The lines from `sourceIndex` on with replacements in the order of the
source. -/
def replaceLines (preferred : LineEnding) :
    List SourceLine → Nat → List Replacement → List SourceLine
  | source, _, [] => source
  | source, sourceIndex, (startIndex, oldLen, newSegment) :: rest =>
    source.take (startIndex - sourceIndex) ++
      newSegment.map (fun text => ⟨text, some preferred⟩) ++
      replaceLines preferred
        (source.drop (startIndex - sourceIndex + oldLen))
        (startIndex + oldLen) rest

def applyReplacements (replacements : List Replacement) : SourceFile :=
  { file with
    lines := (replaceLines file.preferredEnding file.lines 0 replacements).map
      (fun line => { line with ending := some (line.ending.getD file.preferredEnding) }) }

def intoContents : Text :=
  file.lines.flatMap (fun line => line.text ++ ((line.ending.map LineEnding.asStr).getD []))

end SourceFile

end

/-- The new contents of a file; `path` is for the errors. -/
def newContents (mode : ApplyPatchFileUpdateMode) (path original : Text)
    (chunks : List UpdateFileChunk) : Except Text Text :=
  match mode with
  | .normalizeToLf =>
    let split := original.splitOn '\n'
    let lines := if split.getLast? = some [] then split.dropLast else split
    (computeReplacements lines path mode chunks).map (fun replacements =>
      let replaced := applyReplacements lines replacements
      ['\n'].intercalate
        (if replaced.getLast? = some [] then replaced
        else replaced ++ [[]]))
  | .preserveLineEndings =>
    let file := SourceFile.parse original
    (computeReplacements file.lineTexts path mode chunks).map
      (fun replacements => (file.applyReplacements replacements).intoContents)

end Hexa.ApplyPatch
