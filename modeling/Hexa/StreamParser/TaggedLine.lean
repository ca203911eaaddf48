/-
A streaming parser for tags that stand alone on a line, and the same result
line by line.  A line is held back until it cannot be a tag any more; what has
been given out is compared character by character.
-/
import Hexa.Lib.Lines
import Hexa.Lib.RustStr

namespace Hexa.StreamParser

open List

universe u

variable {T : Type u}

structure TagSpec (T : Type u) where
  opening : Text
  closing : Text
  tag : T

inductive TaggedLineSegment (T : Type u) where
  | normal (text : Text)
  | tagStart (tag : T)
  | tagDelta (tag : T) (text : Text)
  | tagEnd (tag : T)
  deriving Repr, DecidableEq

structure TaggedLineParser (T : Type u) where
  specs : List (TagSpec T)
  activeTag : Option T := none
  detectTag : Bool := true
  lineBuffer : Text := []

section

variable [DecidableEq T] (segments : List (TaggedLineSegment T))

/-- Text of the same kind joins the last segment. -/
def pushSegment :
    TaggedLineSegment T → List (TaggedLineSegment T)
  | .normal delta =>
    if delta = [] then segments
    else
      match segments.getLast? with
      | some (.normal existing) => segments.dropLast ++ [.normal (existing ++ delta)]
      | _ => segments ++ [.normal delta]
  | .tagDelta tag delta =>
    if delta = [] then segments
    else
      match segments.getLast? with
      | some (.tagDelta existingTag existing) =>
        if existingTag = tag then segments.dropLast ++ [.tagDelta tag (existing ++ delta)]
        else segments ++ [.tagDelta tag delta]
      | _ => segments ++ [.tagDelta tag delta]
  | .tagStart tag => segments ++ [.tagStart tag]
  | .tagEnd tag => segments ++ [.tagEnd tag]

end

namespace TaggedLineParser

/-- The segment for text under the active tag. -/
def textSegment (activeTag : Option T) (text : Text) : TaggedLineSegment T :=
  match activeTag with
  | some tag => .tagDelta tag text
  | none => .normal text

variable (specs : List (TagSpec T)) (slug : Text)

def isTagPrefix : Bool :=
  specs.any (fun spec =>
    (slug.rdropWhile isWhiteSpace).isPrefixOf spec.opening ||
      (slug.rdropWhile isWhiteSpace).isPrefixOf spec.closing)

def matchOpen : Option T := (specs.find? (fun spec => spec.opening = slug)).map TagSpec.tag

def matchClose : Option T := (specs.find? (fun spec => spec.closing = slug)).map TagSpec.tag

theorem matchOpen_singleton (spec : TagSpec T) :
    matchOpen [spec] slug = if slug = spec.opening then some spec.tag else none := by
  by_cases hopen : spec.opening = slug
  · simp [matchOpen, hopen]
  · simp [matchOpen, hopen, Ne.symm hopen]

theorem matchClose_singleton (spec : TagSpec T) :
    matchClose [spec] slug = if slug = spec.closing then some spec.tag else none := by
  by_cases hclose : spec.closing = slug
  · simp [matchClose, hclose]
  · simp [matchClose, hclose, Ne.symm hclose]

/-- The line so far may still become a tag. -/
def undecided (line : Text) : Bool :=
  (trimStart line).isEmpty || isTagPrefix specs (trimStart line)

variable [DecidableEq T]

/-- What a whole line is: the tag that is active behind it, and its segment.
`slug` is the line without the white space around it. -/
def lineSegment (specs : List (TagSpec T)) (activeTag : Option T) (slug line : Text) :
    Option T × TaggedLineSegment T :=
  match matchOpen specs slug, activeTag with
  | some tag, none => (some tag, .tagStart tag)
  | _, _ =>
    match matchClose specs slug with
    | some tag =>
      if activeTag = some tag then (none, .tagEnd tag)
      else (activeTag, textSegment activeTag line)
    | none => (activeTag, textSegment activeTag line)

/-- `finish_line`, for the buffered line with its newline. -/
def finishLine (parser : TaggedLineParser T) (segments : List (TaggedLineSegment T)) :
    TaggedLineParser T × List (TaggedLineSegment T) :=
  let line := parser.lineBuffer
  let withoutNewline :=
    if line.getLast? = some '\n' then line.dropLast else line
  let (activeTag, segment) := lineSegment parser.specs parser.activeTag (trim withoutNewline) line
  ({ parser with activeTag, detectTag := true, lineBuffer := [] }, pushSegment segments segment)

/-- The loop of `parse`, with the run of text that is not given out yet. -/
def parseChars (parser : TaggedLineParser T) (run : Text)
    (segments : List (TaggedLineSegment T)) :
    Text → TaggedLineParser T × List (TaggedLineSegment T)
  | [] =>
    (parser,
      if run = [] then segments
      else pushSegment segments (textSegment parser.activeTag run))
  | char :: delta =>
    if parser.detectTag then
      let segments :=
        if run = [] then segments
        else pushSegment segments (textSegment parser.activeTag run)
      let line := parser.lineBuffer ++ [char]
      if char = '\n' then
        let (next, segments) := finishLine { parser with lineBuffer := line } segments
        next.parseChars [] segments delta
      else if undecided parser.specs line then
        parseChars { parser with lineBuffer := line } [] segments delta
      else
        parseChars { parser with detectTag := false, lineBuffer := [] } []
          (pushSegment segments (textSegment parser.activeTag line)) delta
    else if char = '\n' then
      parseChars { parser with detectTag := true } []
        (pushSegment segments (textSegment parser.activeTag (run ++ [char]))) delta
    else parser.parseChars (run ++ [char]) segments delta

def parse (parser : TaggedLineParser T) (delta : Text) :
    TaggedLineParser T × List (TaggedLineSegment T) :=
  parser.parseChars [] [] delta

def finish (parser : TaggedLineParser T) : TaggedLineParser T × List (TaggedLineSegment T) :=
  let (last, segments) :=
    if parser.lineBuffer = [] then (parser, [])
    else parser.finishLine []
  let segments :=
    match last.activeTag with
    | some tag => pushSegment segments (.tagEnd tag)
    | none => segments
  ({ last with activeTag := none, detectTag := true }, segments)

end TaggedLineParser

/-- Output by character: what is left of segments when the cuts between texts
of one kind are forgotten. -/
inductive SegmentAtom (T : Type u) where
  | normal (char : Char)
  | tagStart (tag : T)
  | tagDelta (tag : T) (char : Char)
  | tagEnd (tag : T)

namespace TaggedLineSegment

def atoms : TaggedLineSegment T → List (SegmentAtom T)
  | .normal text => text.map .normal
  | .tagStart tag => [.tagStart tag]
  | .tagDelta tag text => text.map (.tagDelta tag)
  | .tagEnd tag => [.tagEnd tag]

end TaggedLineSegment

/-- The atoms of a list of segments. -/
def atomsOf (segments : List (TaggedLineSegment T)) : List (SegmentAtom T) :=
  segments.flatMap TaggedLineSegment.atoms

@[simp]
theorem atomsOf_nil : atomsOf ([] : List (TaggedLineSegment T)) = [] := rfl

@[simp]
theorem atomsOf_append (first second : List (TaggedLineSegment T)) :
    atomsOf (first ++ second) = atomsOf first ++ atomsOf second :=
  flatMap_append

@[simp]
theorem atomsOf_cons (segment : TaggedLineSegment T) (segments : List (TaggedLineSegment T)) :
    atomsOf (segment :: segments) = segment.atoms ++ atomsOf segments := rfl

/-- The last segment taken out and put back longer. -/
theorem atomsOf_replaceLast {segments : List (TaggedLineSegment T)}
    {last longer : TaggedLineSegment T} {added : List (SegmentAtom T)}
    (hlast : segments.getLast? = some last) (hlonger : longer.atoms = last.atoms ++ added) :
    atomsOf (segments.dropLast ++ [longer]) = atomsOf segments ++ added := by
  obtain ⟨init, rfl⟩ := getLast?_eq_some_iff.mp hlast
  simp [hlonger]

section Atoms

variable [DecidableEq T]

open TaggedLineSegment

theorem atomsOf_pushSegment (segments : List (TaggedLineSegment T))
    (segment : TaggedLineSegment T) :
    atomsOf (pushSegment segments segment) = atomsOf segments ++ segment.atoms := by
  cases segment with
  | normal delta =>
    simp only [pushSegment]
    split_ifs with hempty
    · simp [hempty, atoms]
    · split
      next existing hlast => exact atomsOf_replaceLast hlast (by simp [atoms])
      · simp
  | tagStart tag | tagEnd tag => simp [pushSegment]
  | tagDelta tag delta =>
    simp only [pushSegment]
    split_ifs with hempty
    · simp [hempty, atoms]
    · split
      next existingTag existing hlast =>
        split_ifs with htag
        · subst htag
          exact atomsOf_replaceLast hlast (by simp [atoms])
        · simp
      · simp

end Atoms

namespace TaggedLineParser

variable (activeTag : Option T)

/-- The atoms of text under the active tag. -/
def textAtoms (text : Text) : List (SegmentAtom T) := (textSegment activeTag text).atoms

@[simp]
theorem atoms_textSegment (text : Text) :
    (textSegment activeTag text).atoms = textAtoms activeTag text := rfl

theorem textAtoms_append (first second : Text) :
    textAtoms activeTag (first ++ second) =
      textAtoms activeTag first ++ textAtoms activeTag second := by
  cases activeTag with
  | none | some tag => simp [textAtoms, textSegment, TaggedLineSegment.atoms]

@[simp]
theorem textAtoms_nil : textAtoms activeTag [] = [] := by
  cases activeTag with
  | none | some tag => rfl

variable [DecidableEq T]

/-- One character, with its output as atoms. -/
def step (parser : TaggedLineParser T) (char : Char) :
    TaggedLineParser T × List (SegmentAtom T) :=
  if parser.detectTag then
    let line := parser.lineBuffer ++ [char]
    if char = '\n' then
      let (next, segments) := finishLine { parser with lineBuffer := line } []
      (next, atomsOf segments)
    else if undecided parser.specs line then ({ parser with lineBuffer := line }, [])
    else ({ parser with detectTag := false, lineBuffer := [] }, textAtoms parser.activeTag line)
  else ({ parser with detectTag := char = '\n' }, textAtoms parser.activeTag [char])

/-- A text, character by character. -/
def feed (parser : TaggedLineParser T) :
    Text → TaggedLineParser T × List (SegmentAtom T)
  | [] => (parser, [])
  | char :: text =>
    ((parser.step char).1.feed text |>.1,
      (parser.step char).2 ++ ((parser.step char).1.feed text).2)

section

variable (parser : TaggedLineParser T)

theorem feed_append (first second : Text) :
    parser.feed (first ++ second) =
      (((parser.feed first).1.feed second).1,
        (parser.feed first).2 ++ ((parser.feed first).1.feed second).2) := by
  induction first generalizing parser with
  | nil => rfl
  | cons char first ih => simp [feed, ih]

section

variable (run : Text) (segments : List (TaggedLineSegment T))

/-- One turn of the loop of `parse`.  A run of text is given out late, but
only within a line that is decided. -/
theorem parseChars_cons (char : Char) (hrun : parser.detectTag = true → run = []) :
    ∃ run' segments',
      (∀ delta, parser.parseChars run segments (char :: delta) =
        (parser.step char).1.parseChars run' segments' delta) ∧
      ((parser.step char).1.detectTag = true → run' = []) ∧
      atomsOf segments' ++ textAtoms (parser.step char).1.activeTag run' =
        atomsOf segments ++ textAtoms parser.activeTag run ++ (parser.step char).2 := by
  obtain ⟨specs, activeTag, detectTag, lineBuffer⟩ := parser
  cases detectTag with
  | true =>
    obtain rfl := hrun rfl
    by_cases hnewline : char = '\n'
    · subst hnewline
      refine ⟨[], (finishLine ⟨specs, activeTag, true, lineBuffer ++ ['\n']⟩
        segments).2, ?_, fun _ => rfl, ?_⟩
      · intro delta
        simp [parseChars, step, finishLine]
      · simp [step, finishLine, atomsOf_pushSegment]
    · by_cases hundecided : undecided specs (lineBuffer ++ [char]) = true
      · refine ⟨[], segments, ?_, fun _ => rfl, ?_⟩
        · intro delta
          simp [parseChars, step, hnewline, hundecided]
        · simp [step, hnewline, hundecided]
      · refine ⟨[], pushSegment segments
          (textSegment activeTag (lineBuffer ++ [char])), ?_,
          fun _ => rfl, ?_⟩
        · intro delta
          simp [parseChars, step, hnewline, hundecided]
        · simp [step, hnewline, hundecided, atomsOf_pushSegment]
  | false =>
    by_cases hnewline : char = '\n'
    · subst hnewline
      refine ⟨[], pushSegment segments
        (textSegment activeTag (run ++ ['\n'])), ?_, fun _ => rfl, ?_⟩
      · intro delta
        simp [parseChars, step]
      · simp [step, atomsOf_pushSegment, textAtoms_append]
    · refine ⟨run ++ [char], segments, ?_, ?_, ?_⟩
      · intro delta
        simp [parseChars, step, hnewline]
      · simp [step, hnewline]
      · simp [step, textAtoms_append]

/-- The loop of `parse` gives out the atoms of the characters. -/
theorem parseChars_feed (delta : Text) (hrun : parser.detectTag = true → run = []) :
    (parser.parseChars run segments delta).1 = (parser.feed delta).1 ∧
      atomsOf (parser.parseChars run segments delta).2 =
        atomsOf segments ++ textAtoms parser.activeTag run ++ (parser.feed delta).2 := by
  induction delta generalizing parser run segments with
  | nil =>
    simp only [parseChars, feed]
    split_ifs with hempty
    · simp [hempty]
    · simp [atomsOf_pushSegment]
  | cons char delta ih =>
    obtain ⟨run', segments', hturn, hrun', hatoms⟩ :=
      parseChars_cons parser run segments char hrun
    obtain ⟨hparser, hout⟩ := ih (parser.step char).1 run' segments' hrun'
    rw [hturn, hparser, hout, hatoms]
    simp [feed]

end

/-- A push gives out the atoms of its characters. -/
theorem parse_feed (delta : Text) :
    (parser.parse delta).1 = (parser.feed delta).1 ∧
      atomsOf (parser.parse delta).2 = (parser.feed delta).2 := by
  simpa [parse] using parseChars_feed parser [] [] delta (fun _ => rfl)

end

/-- Within a decided line all text is given out. -/
theorem feed_decided (specs : List (TagSpec T)) (activeTag : Option T) (text : Text)
    (htext : '\n' ∉ text) :
    feed ⟨specs, activeTag, false, []⟩ text =
      (⟨specs, activeTag, false, []⟩, textAtoms activeTag text) := by
  induction text with
  | nil => simp [feed]
  | cons char text ih =>
    simp only [mem_cons, not_or] at htext
    have hstep : step ⟨specs, activeTag, false, []⟩ char =
        (⟨specs, activeTag, false, []⟩, textAtoms activeTag [char]) := by
      simp [step, Ne.symm htext.1]
    rw [feed, hstep, ih htext.2, ← textAtoms_append]
    rfl

/-- A text that does not end the line, while the line may become a tag: the
line is still held back, or it has been found to be none. -/
theorem feed_line (specs : List (TagSpec T)) (activeTag : Option T) (buffer text : Text)
    (htext : '\n' ∉ text) :
    feed ⟨specs, activeTag, true, buffer⟩ text = (⟨specs, activeTag, true, buffer ++ text⟩, []) ∨
      (feed ⟨specs, activeTag, true, buffer⟩ text =
          (⟨specs, activeTag, false, []⟩, textAtoms activeTag (buffer ++ text)) ∧
        ∃ front, front <+: buffer ++ text ∧ undecided specs front = false) := by
  induction text generalizing buffer with
  | nil => exact .inl (by simp [feed])
  | cons char text ih =>
    simp only [mem_cons, not_or] at htext
    obtain ⟨hchar, hrest⟩ := htext
    cases hundecided : undecided specs (buffer ++ [char]) with
    | true =>
      have hstep : step ⟨specs, activeTag, true, buffer⟩ char =
          (⟨specs, activeTag, true, buffer ++ [char]⟩, []) := by
        simp [step, Ne.symm hchar, hundecided]
      have hfeed : feed ⟨specs, activeTag, true, buffer⟩ (char :: text) =
          feed ⟨specs, activeTag, true, buffer ++ [char]⟩ text := by
        rw [feed, hstep, nil_append]
      rw [hfeed, append_cons buffer char text]
      exact ih (buffer ++ [char]) hrest
    | false =>
      have hstep : step ⟨specs, activeTag, true, buffer⟩ char =
          (⟨specs, activeTag, false, []⟩, textAtoms activeTag (buffer ++ [char])) := by
        simp [step, Ne.symm hchar, hundecided]
      right
      refine ⟨?_, buffer ++ [char], ?_, hundecided⟩
      · rw [feed, hstep, feed_decided specs activeTag text hrest,
          append_cons buffer char text, textAtoms_append activeTag _ text]
      · exact ⟨text, by simp⟩

variable {line : Text}

/-- A line with a beginning that no tag has is text. -/
theorem lineSegment_of_decided {specs : List (TagSpec T)} {front : Text} (hfront : front <+: line)
    (hdecided : undecided specs front = false) (activeTag : Option T) (text : Text) :
    lineSegment specs activeTag (trim line) text = (activeTag, textSegment activeTag text) := by
  simp only [undecided, isTagPrefix, Bool.or_eq_false_iff, any_eq_false] at hdecided
  have hnone : ∀ spec ∈ specs, spec.opening ≠ trim line ∧ spec.closing ≠ trim line := by
    intro spec hspec
    have hleading := trim_prefix hfront
    have hmiss := hdecided.2 spec hspec
    simp only [Bool.or_eq_true, isPrefixOf_iff_prefix, not_or] at hmiss
    refine ⟨fun heq => hmiss.1 ?_, fun heq => hmiss.2 ?_⟩
    · rw [heq]
      exact hleading
    · rw [heq]
      exact hleading
  have hopen : matchOpen specs (trim line) = none := by
    simp only [matchOpen, Option.map_eq_none_iff, find?_eq_none]
    exact fun spec hspec => by simpa using (hnone spec hspec).1
  have hclose : matchClose specs (trim line) = none := by
    simp only [matchClose, Option.map_eq_none_iff, find?_eq_none]
    exact fun spec hspec => by simpa using (hnone spec hspec).2
  simp [lineSegment, hopen, hclose]

/-- The reference: each line is a tag or text, by itself, and a block that is
still open ends with the text. -/
def lineSegments (specs : List (TagSpec T)) (activeTag : Option T) :
    List Text → List (TaggedLineSegment T)
  | [] =>
    match activeTag with
    | some tag => [.tagEnd tag]
    | none => []
  | line :: lines =>
    (lineSegment specs activeTag (trim line) line).2 ::
      lineSegments specs (lineSegment specs activeTag (trim line) line).1 lines

section

variable (specs : List (TagSpec T)) (activeTag : Option T)

theorem finishLine_atoms (hline : '\n' ∉ line) (tail : Text) (htail : tail = [] ∨ tail = ['\n']) :
    let ended := finishLine ⟨specs, activeTag, true, line ++ tail⟩ []
    let read := lineSegment specs activeTag (trim (line ++ tail)) (line ++ tail)
    ended.1 = ⟨specs, read.1, true, []⟩ ∧ atomsOf ended.2 = read.2.atoms := by
  have hslug : (if (line ++ tail).getLast? = some '\n'
      then (line ++ tail).dropLast else line ++ tail) = line := by
    rcases htail with rfl | rfl
    · have hlast : line.getLast? ≠ some '\n' := fun hlast => hline (mem_of_getLast? hlast)
      simp [hlast]
    · simp
  have htrim : trim (line ++ tail) = trim line := by
    rcases htail with rfl | rfl
    · rw [append_nil]
    · exact trim_concat rfl
  simp only [finishLine, hslug, htrim, atomsOf_pushSegment]
  exact ⟨trivial, rfl⟩

/-- A whole line has the output of the line by itself. -/
theorem feed_wholeLine (hline : '\n' ∉ line) :
    feed ⟨specs, activeTag, true, []⟩ (line ++ ['\n']) =
      (⟨specs, (lineSegment specs activeTag (trim (line ++ ['\n']))
          (line ++ ['\n'])).1, true, []⟩,
        (lineSegment specs activeTag (trim (line ++ ['\n'])) (line ++ ['\n'])).2.atoms) := by
  rw [feed_append]
  rcases feed_line specs activeTag [] line hline with
    hheld | ⟨hgiven, front, hfront, hdecided⟩
  · obtain ⟨hnext, hatoms⟩ := finishLine_atoms specs activeTag hline ['\n'] (.inr rfl)
    rw [hheld]
    simp [feed, step, hnext, hatoms]
  · have hleading : front <+: line ++ ['\n'] := hfront.trans (prefix_append line ['\n'])
    rw [hgiven, lineSegment_of_decided hleading hdecided]
    simp [feed, step, textAtoms_append]

/-- The last line, without a newline behind it. -/
theorem feed_lastLine (hline : '\n' ∉ line) :
    let fed := feed ⟨specs, activeTag, true, []⟩ line
    fed.2 ++ atomsOf fed.1.finish.2 =
      atomsOf (lineSegments specs activeTag (splitInclusive line)) := by
  by_cases hempty : line = []
  · subst hempty
    cases activeTag with
    | none | some tag => rfl
  · rw [splitInclusive_of_notMem hline hempty]
    rcases feed_line specs activeTag [] line hline with
      hheld | ⟨hgiven, front, hfront, hdecided⟩
    · obtain ⟨hnext, hatoms⟩ := finishLine_atoms specs activeTag hline [] (.inl rfl)
      rw [append_nil] at hnext hatoms
      rw [hheld]
      simp only [nil_append, finish, hempty, if_false, hnext, lineSegments]
      split
      · simp [atomsOf_pushSegment, hatoms]
      · simp [hatoms]
    · rw [nil_append] at hfront
      rw [hgiven]
      simp only [lineSegments, lineSegment_of_decided hfront hdecided]
      cases activeTag with
  | none | some tag => rfl

/-- The text pushed character by character and finished has the output of its
lines. -/
theorem feed_finish (text : Text) :
    let fed := feed ⟨specs, activeTag, true, []⟩ text
    fed.2 ++ atomsOf fed.1.finish.2 =
      atomsOf (lineSegments specs activeTag (splitInclusive text)) := by
  -- the induction takes whole lines off the text
  induction hlength : text.length using Nat.strong_induction_on generalizing activeTag text with
  | _ length ih =>
    by_cases hmem : '\n' ∈ text
    · obtain ⟨line, rest, rfl, hline⟩ := eq_append_cons_of_mem hmem
      have hrest : rest.length < length := by
        rw [← hlength]
        simp
        omega
      have hsplit : splitInclusive (line ++ '\n' :: rest) =
          (line ++ ['\n']) :: splitInclusive rest := by
        rw [append_cons, splitInclusive_append (.inr (by simp)), splitInclusive_line hline]
        rfl
      rw [hsplit, lineSegments, atomsOf_cons, append_cons, feed_append,
        feed_wholeLine specs activeTag hline]
      simp only [append_assoc]
      rw [ih rest.length hrest _ rest rfl]
    · exact feed_lastLine specs activeTag hmem

end

end TaggedLineParser

end Hexa.StreamParser
