/-
What is known of one line of markdown (tui/src/table_detect.rs): whether it can
be a row of a pipe table, and which code fence it opens or closes.
-/
import Hexa.Lib.RustStr

namespace Hexa.Tui

open List

/-- The segments between the pipes that no backslash escapes, behind what has
been read of the first one. -/
def splitUnescapedPipe (segment : Text) : Text → List Text
  | [] => [segment]
  | ['\x5c'] => [segment ++ ['\x5c']]
  | '\x5c' :: escaped :: rest => splitUnescapedPipe (segment ++ ['\x5c', escaped]) rest
  | '|' :: rest => segment :: splitUnescapedPipe [] rest
  | char :: rest => splitUnescapedPipe (segment ++ [char]) rest

/-- `strip_prefix` with a character, or else the text itself. -/
def withoutFirst (char : Char) (text : Text) : Text :=
  if text.head? = some char then text.tail else text

/-- `strip_suffix` with a character, or else the text itself. -/
def withoutLast (char : Char) (text : Text) : Text :=
  if text.getLast? = some char then text.dropLast else text

section

variable (line : Text)

def parseTableSegments : Option (List Text) :=
  let trimmed := trim line
  if trimmed = [] then none
  else
    let hasOuterPipe := trimmed.head? = some '|' ∨ trimmed.getLast? = some '|'
    let rawSegments := splitUnescapedPipe [] (withoutLast '|' (withoutFirst '|' trimmed))
    if ¬hasOuterPipe ∧ rawSegments.length ≤ 1 then none
    else
      let segments := rawSegments.map trim
      if segments.isEmpty then none else some segments

def isTableHeaderLine : Bool := (parseTableSegments line).any (·.any (!·.isEmpty))

def isTableDelimiterSegment (segment : Text) : Bool :=
  let trimmed := trim segment
  let withoutEnds := withoutLast ':' (withoutFirst ':' trimmed)
  !trimmed.isEmpty && decide (3 ≤ utf8Len withoutEnds) && withoutEnds.all (· == '-')

def isTableDelimiterLine : Bool := (parseTableSegments line).any (·.all isTableDelimiterSegment)

/-- The loop of `strip_blockquote_prefix` peels white space and `>` off, until
another character is the first. -/
def stripBlockquotePrefix : Text := line.dropWhile (fun char => isWhiteSpace char || char == '>')

/-- The character and the length of a run of three or more backticks or
tildes. -/
def parseFenceMarker : Option (Char × Nat) :=
  match line with
  | [] => none
  | first :: _ =>
    let length := (line.takeWhile (· == first)).length
    if (first = '\x60' ∨ first = '~') ∧ 3 ≤ length then some (first, length) else none

/-- The first word behind the marker is `md` or `markdown`. -/
def isMarkdownFenceInfo (markerLength : Nat) : Bool :=
  let info := ((line.drop markerLength).dropWhile isWhiteSpace).takeWhile (!isWhiteSpace ·)
  toAsciiLowercase info == "md".toList || toAsciiLowercase info == "markdown".toList

end

inductive FenceKind where
  | outside
  | markdown
  | other
  deriving DecidableEq

/-- The fence that is open: its character, its length and its kind. -/
structure FenceTracker where
  state : Option (Char × Nat × FenceKind) := none
  deriving DecidableEq

namespace FenceTracker

variable (tracker : FenceTracker)

def advance (rawLine : Text) : FenceTracker :=
  let leadingSpaces := (rawLine.takeWhile (· == ' ')).length
  if 3 < leadingSpaces then tracker
  else
    let fenceScanText := stripBlockquotePrefix (rawLine.drop leadingSpaces)
    match parseFenceMarker fenceScanText, tracker.state with
    | none, _ => tracker
    | some (marker, length), some (openChar, openLength, _) =>
      if marker = openChar ∧ openLength ≤ length ∧ trim (fenceScanText.drop length) = [] then
        { state := none }
      else tracker
    | some (marker, length), none =>
      let kind := if isMarkdownFenceInfo fenceScanText length then .markdown else .other
      { state := some (marker, length, kind) }

def kind : FenceKind := tracker.state.elim .outside (·.2.2)

end FenceTracker

end Hexa.Tui
