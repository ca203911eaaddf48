/-
The text of the assistant as it streams in: citations are taken out first and,
in plan mode, plan blocks from what is left.  However the text is cut, the
result is that of the whole text.
-/
import Hexa.StreamParser.InlineHiddenTag
import Hexa.StreamParser.TaggedLine

namespace Hexa.StreamParser

open List StreamTextChunk TaggedLineParser

inductive CitationTag where
  | citation
  deriving Repr, DecidableEq

def citationSpec : InlineTagSpec CitationTag where
  tag := .citation
  opening := "<oai-mem-citation>".toList
  closing := "</oai-mem-citation>".toList
  opening_ne := by decide
  closing_ne := by decide

structure CitationStreamParser where
  inner : InlineHiddenTagParser CitationTag := { specs := [citationSpec] }

/-- The citation bodies as plain texts. -/
def citationChunk (inner : StreamTextChunk (ExtractedInlineTag CitationTag)) :
    StreamTextChunk Text where
  visibleText := inner.visibleText
  extracted := inner.extracted.map ExtractedInlineTag.content

namespace CitationStreamParser

def pushStr (parser : CitationStreamParser) (chunk : Text) :
    CitationStreamParser × StreamTextChunk Text :=
  let (inner, out) := parser.inner.pushStr chunk
  ({ inner }, citationChunk out)

def finish (parser : CitationStreamParser) : CitationStreamParser × StreamTextChunk Text :=
  let (inner, out) := parser.inner.finish
  ({ inner }, citationChunk out)

/-- What the pushes of the chunks give out, and the end. -/
def outputs (parser : CitationStreamParser) :
    List Text → List (StreamTextChunk Text)
  | [] => [parser.finish.2]
  | chunk :: chunks => (parser.pushStr chunk).2 :: (parser.pushStr chunk).1.outputs chunks

/-- The outputs together are those of the parser inside. -/
theorem outputs_run (parser : CitationStreamParser) (chunks : List Text) :
    (parser.outputs chunks).flatMap visibleText = (parser.inner.run chunks).visibleText ∧
      (parser.outputs chunks).flatMap extracted =
        (parser.inner.run chunks).extracted.map ExtractedInlineTag.content := by
  induction chunks generalizing parser with
  | nil => simp [outputs, finish, citationChunk, InlineHiddenTagParser.run]
  | cons chunk chunks ih =>
    obtain ⟨hvisible, hextracted⟩ := ih (parser.pushStr chunk).1
    rw [outputs, flatMap_cons, flatMap_cons, hvisible, hextracted, InlineHiddenTagParser.run]
    simp [pushStr, citationChunk]

/-- The outputs together are the text without its citations, and these. -/
theorem outputs_stripTags (chunks : List Text) :
    let parser : CitationStreamParser := {}
    let stripped := stripTags citationSpec chunks.flatten
    (parser.outputs chunks).flatMap visibleText = stripped.visibleText ∧
      (parser.outputs chunks).flatMap extracted =
        stripped.extracted.map ExtractedInlineTag.content := by
  simp only [outputs_run, run_stripTags, and_self]

end CitationStreamParser

inductive PlanTag where
  | proposedPlan
  deriving Repr, DecidableEq

def planSpec : TagSpec PlanTag where
  opening := "<proposed_plan>".toList
  closing := "</proposed_plan>".toList
  tag := .proposedPlan

inductive ProposedPlanSegment where
  | normal (text : Text)
  | proposedPlanStart
  | proposedPlanDelta (text : Text)
  | proposedPlanEnd
  deriving Repr, DecidableEq

variable (segment : TaggedLineSegment PlanTag)

namespace ProposedPlanSegment

def ofTagged : TaggedLineSegment PlanTag → ProposedPlanSegment
  | .normal text => .normal text
  | .tagStart .proposedPlan => .proposedPlanStart
  | .tagDelta .proposedPlan text => .proposedPlanDelta text
  | .tagEnd .proposedPlan => .proposedPlanEnd

/-- The text of a segment outside of the plan. -/
def visible : ProposedPlanSegment → Text
  | .normal text => text
  | _ => []

/-- A segment in front of others: text joins text of its kind, and no empty
text stays by itself. -/
def joinFront : ProposedPlanSegment → List ProposedPlanSegment → List ProposedPlanSegment
  | .normal text, .normal next :: rest => .normal (text ++ next) :: rest
  | .proposedPlanDelta text, .proposedPlanDelta next :: rest =>
    .proposedPlanDelta (text ++ next) :: rest
  | segment, rest =>
    if segment = .normal [] ∨ segment = .proposedPlanDelta [] then rest else segment :: rest

end ProposedPlanSegment

/-- The segments with adjacent text of the same kind merged. -/
def mergedPlan (segments : List ProposedPlanSegment) : List ProposedPlanSegment :=
  segments.foldr ProposedPlanSegment.joinFront []

variable (segments : List (TaggedLineSegment PlanTag))

def mapSegments :
    StreamTextChunk ProposedPlanSegment where
  visibleText := (segments.map ProposedPlanSegment.ofTagged).flatMap ProposedPlanSegment.visible
  extracted := segments.map ProposedPlanSegment.ofTagged

theorem mapSegments_append (first second : List (TaggedLineSegment PlanTag)) :
    mapSegments (first ++ second) = mapSegments first ++ mapSegments second := by
  ext1
  · simp [mapSegments]
  · simp [mapSegments]

/-- The text of an atom outside of the plan. -/
def SegmentAtom.visible : SegmentAtom PlanTag → Text
  | .normal char => [char]
  | _ => []

open ProposedPlanSegment

theorem flatMap_visible_atoms :
    segment.atoms.flatMap SegmentAtom.visible = (ofTagged segment).visible := by
  cases segment with
  | normal text | tagDelta tag text =>
    simp [TaggedLineSegment.atoms, flatMap_map, SegmentAtom.visible, ofTagged, visible]
  | tagStart tag | tagEnd tag => rfl

/-- The visible text does not depend on how segments are cut. -/
theorem visibleText_mapSegments :
    (mapSegments segments).visibleText = (atomsOf segments).flatMap SegmentAtom.visible := by
  rw [mapSegments, atomsOf, flatMap_assoc, flatMap_map]
  simp only [flatMap_visible_atoms]

/-- The segment of one atom. -/
def ProposedPlanSegment.ofAtom : SegmentAtom PlanTag → ProposedPlanSegment
  | .normal char => .normal [char]
  | .tagStart .proposedPlan => .proposedPlanStart
  | .tagDelta .proposedPlan char => .proposedPlanDelta [char]
  | .tagEnd .proposedPlan => .proposedPlanEnd

theorem joinFront_normal_cons (char : Char) (text : Text) (rest : List ProposedPlanSegment) :
    joinFront (.normal (char :: text)) rest =
      joinFront (.normal [char]) (joinFront (.normal text) rest) := by
  cases text with
  | nil => rcases rest with _ | ⟨_ | _ | _ | _, rest⟩ <;> simp [joinFront]
  | cons next text => rcases rest with _ | ⟨_ | _ | _ | _, rest⟩ <;> simp [joinFront]

theorem joinFront_delta_cons (char : Char) (text : Text) (rest : List ProposedPlanSegment) :
    joinFront (.proposedPlanDelta (char :: text)) rest =
      joinFront (.proposedPlanDelta [char]) (joinFront (.proposedPlanDelta text) rest) := by
  cases text with
  | nil => rcases rest with _ | ⟨_ | _ | _ | _, rest⟩ <;> simp [joinFront]
  | cons next text => rcases rest with _ | ⟨_ | _ | _ | _, rest⟩ <;> simp [joinFront]

/-- A segment joins as its atoms do, one by one. -/
theorem foldr_joinFront_atoms (rest : List ProposedPlanSegment) :
    segment.atoms.foldr (fun atom => joinFront (ofAtom atom)) rest =
      joinFront (ofTagged segment) rest := by
  cases segment with
  | normal text =>
    induction text with
    | nil => rcases rest with _ | ⟨_ | _ | _ | _, rest⟩ <;> rfl
    | cons char text ih => exact (congrArg _ ih).trans (joinFront_normal_cons char text rest).symm
  | tagDelta tag text =>
    induction text with
    | nil => rcases rest with _ | ⟨_ | _ | _ | _, rest⟩ <;> rfl
    | cons char text ih => exact (congrArg _ ih).trans (joinFront_delta_cons char text rest).symm
  | tagStart tag | tagEnd tag => rfl

theorem mergedPlan_mapSegments :
    mergedPlan (mapSegments segments).extracted =
      (atomsOf segments).foldr (fun atom => joinFront (ofAtom atom)) [] := by
  rw [mergedPlan, mapSegments, atomsOf, foldr_map]
  induction segments with
  | nil => rfl
  | cons segment segments ih =>
    rw [foldr_cons, ih, flatMap_cons, foldr_append, foldr_joinFront_atoms]

structure ProposedPlanParser where
  parser : TaggedLineParser PlanTag := { specs := [planSpec] }

namespace ProposedPlanParser

def pushStr (plan : ProposedPlanParser) (chunk : Text) :
    ProposedPlanParser × StreamTextChunk ProposedPlanSegment :=
  let (parser, segments) := plan.parser.parse chunk
  ({ parser }, mapSegments segments)

def finish (plan : ProposedPlanParser) :
    ProposedPlanParser × StreamTextChunk ProposedPlanSegment :=
  let (parser, segments) := plan.parser.finish
  ({ parser }, mapSegments segments)

/-- A whole text in chunks, and then the end. -/
def run (plan : ProposedPlanParser) :
    List Text → StreamTextChunk ProposedPlanSegment
  | [] => plan.finish.2
  | chunk :: chunks => (plan.pushStr chunk).2 ++ (plan.pushStr chunk).1.run chunks

/-- The segments of a run, by their atoms. -/
theorem run_segments (plan : ProposedPlanParser) (chunks : List Text) :
    ∃ segments, plan.run chunks = mapSegments segments ∧
      atomsOf segments = (plan.parser.feed chunks.flatten).2 ++
        atomsOf (plan.parser.feed chunks.flatten).1.finish.2 := by
  induction chunks generalizing plan with
  | nil => exact ⟨plan.parser.finish.2, rfl, rfl⟩
  | cons chunk chunks ih =>
    obtain ⟨hparser, hatoms⟩ := plan.parser.parse_feed chunk
    obtain ⟨segments, hrun, hrest⟩ := ih (plan.pushStr chunk).1
    refine ⟨(plan.parser.parse chunk).2 ++ segments, ?_, ?_⟩
    · rw [run, hrun, mapSegments_append]
      rfl
    · rw [atomsOf_append, hatoms, hrest, flatten_cons, feed_append]
      simp [pushStr, hparser]

end ProposedPlanParser

@[ext]
structure AssistantTextChunk where
  visibleText : Text := []
  citations : List Text := []
  planSegments : List ProposedPlanSegment := []
  deriving Repr, DecidableEq

namespace AssistantTextChunk

instance : Append AssistantTextChunk where
  append first second := ⟨first.visibleText ++ second.visibleText,
      first.citations ++ second.citations,
      first.planSegments ++ second.planSegments⟩

/-- The chunk with adjacent text segments of the same kind merged. -/
def merged (chunk : AssistantTextChunk) : AssistantTextChunk :=
  { chunk with planSegments := mergedPlan chunk.planSegments }

end AssistantTextChunk

structure AssistantTextStreamParser where
  planMode : Bool := false
  citations : CitationStreamParser := {}
  plan : ProposedPlanParser := {}

namespace AssistantTextStreamParser

def new (planMode : Bool) : AssistantTextStreamParser := { planMode }

def parseVisibleText (parser : AssistantTextStreamParser) (visibleText : Text) :
    AssistantTextStreamParser × AssistantTextChunk :=
  if !parser.planMode then (parser, { visibleText })
  else
    let (plan, planChunk) := parser.plan.pushStr visibleText
    ({ parser with plan },
      { visibleText := planChunk.visibleText,
        planSegments := planChunk.extracted })

def pushStr (parser : AssistantTextStreamParser) (chunk : Text) :
    AssistantTextStreamParser × AssistantTextChunk :=
  let (citations, citationChunk) := parser.citations.pushStr chunk
  let (parser, out) := parseVisibleText { parser with citations } citationChunk.visibleText
  (parser, { out with citations := citationChunk.extracted })

def finish (parser : AssistantTextStreamParser) :
    AssistantTextStreamParser × AssistantTextChunk :=
  let (citations, citationChunk) := parser.citations.finish
  let (parser, out) := parseVisibleText { parser with citations } citationChunk.visibleText
  let (parser, out) :=
    if parser.planMode then
      let (plan, tail) := parser.plan.finish
      ({ parser with plan },
        if tail.visibleText.isEmpty && tail.extracted.isEmpty then out
        else
          { out with
            visibleText := out.visibleText ++ tail.visibleText,
            planSegments := out.planSegments ++ tail.extracted })
    else (parser, out)
  (parser, { out with citations := citationChunk.extracted })

/-- A whole text in chunks, and then the end. -/
def run (parser : AssistantTextStreamParser) : List Text → AssistantTextChunk
  | [] => parser.finish.2
  | chunk :: chunks => (parser.pushStr chunk).2 ++ (parser.pushStr chunk).1.run chunks

open CitationStreamParser

variable (citations : CitationStreamParser) (plan : ProposedPlanParser) (chunks : List Text)

/-- Outside of plan mode only the citations are taken out. -/
theorem run_default :
    run ⟨false, citations, plan⟩ chunks =
      { visibleText :=
          (citations.outputs chunks).flatMap visibleText,
        citations := (citations.outputs chunks).flatMap extracted } := by
  induction chunks generalizing citations with
  | nil => simp [run, finish, parseVisibleText, outputs]
  | cons chunk chunks ih =>
    have hnext : (pushStr ⟨false, citations, plan⟩ chunk).1 =
        ⟨false, (citations.pushStr chunk).1, plan⟩ := rfl
    rw [run, hnext, ih]
    rfl

/-- In plan mode the plan parser runs on what the citation parser gives
out. -/
theorem run_planMode :
    run ⟨true, citations, plan⟩ chunks =
      let outputs := citations.outputs chunks
      let planned := plan.run (outputs.map visibleText)
      { visibleText := planned.visibleText,
        citations := outputs.flatMap extracted,
        planSegments := planned.extracted } := by
  induction chunks generalizing citations plan with
  | nil =>
    simp only [run, finish, parseVisibleText, Bool.not_true, Bool.false_eq_true, if_false,
      if_true, outputs, map_singleton, flatMap_singleton, ProposedPlanParser.run]
    split_ifs with htail
    · rw [Bool.and_eq_true, List.isEmpty_iff, List.isEmpty_iff] at htail
      simp [htail.1, htail.2]
    · rfl
  | cons chunk chunks ih =>
    have hnext : (pushStr ⟨true, citations, plan⟩ chunk).1 =
        ⟨true, (citations.pushStr chunk).1,
          (plan.pushStr (citations.pushStr chunk).2.visibleText).1⟩ := rfl
    rw [run, hnext, ih]
    rfl

end AssistantTextStreamParser

/-- The line opens a plan block: the tag stands on it alone. -/
def opensPlan (line : Text) : Bool := trim line = "<proposed_plan>".toList

/-- The line closes a plan block. -/
def closesPlan (line : Text) : Bool := trim line = "</proposed_plan>".toList

/-- The lines of a text, inside or outside of a plan block.  A block that is
still open ends with the text. -/
def planBlocks (inside : Bool) : List Text → List ProposedPlanSegment
  | [] => if inside then [.proposedPlanEnd] else []
  | line :: lines =>
    if inside then
      if closesPlan line then .proposedPlanEnd :: planBlocks false lines
      else .proposedPlanDelta line :: planBlocks true lines
    else if opensPlan line then .proposedPlanStart :: planBlocks true lines
    else .normal line :: planBlocks false lines

/-- What the parser reads as plan blocks, line by line. -/
theorem lineSegments_planBlocks (inside : Bool) (lines : List Text) :
    (lineSegments [planSpec] (if inside then some .proposedPlan else none) lines).map ofTagged =
      planBlocks inside lines := by
  have hopens : ∀ line, matchOpen [planSpec] (trim line) =
      if opensPlan line then some .proposedPlan else none := by
    intro line
    rw [matchOpen_singleton, opensPlan]
    simp only [decide_eq_true_eq]
    rfl
  have hcloses : ∀ line, matchClose [planSpec] (trim line) =
      if closesPlan line then some .proposedPlan else none := by
    intro line
    rw [matchClose_singleton, closesPlan]
    simp only [decide_eq_true_eq]
    rfl
  induction lines generalizing inside with
  | nil =>
    cases inside with
    | false | true => rfl
  | cons line lines ih =>
    have houtside := ih false
    have hinside := ih true
    cases inside with
    | false =>
      cases hopen : opensPlan line with
      | true => simp_all [lineSegments, lineSegment, planBlocks, ofTagged]
      | false =>
        cases hclose : closesPlan line with
        | true | false => simp_all [lineSegments, lineSegment, planBlocks, ofTagged, textSegment]
    | true =>
      cases hclose : closesPlan line with
      | true => simp_all [lineSegments, lineSegment, planBlocks, ofTagged]
      | false => simp_all [lineSegments, lineSegment, planBlocks, ofTagged, textSegment]

/-- The whole-text result: the text without its citations and, in plan mode,
what is left of it cut into plan blocks. -/
def assistantTextOf (planMode : Bool) (text : Text) : AssistantTextChunk :=
  let stripped := stripTags citationSpec text
  let citations := stripped.extracted.map ExtractedInlineTag.content
  if planMode then
    let segments := planBlocks false (splitInclusive stripped.visibleText)
    { visibleText := segments.flatMap ProposedPlanSegment.visible,
      citations, planSegments := segments }
  else { visibleText := stripped.visibleText, citations }

open AssistantTextStreamParser

/-- The parser computes the whole-text result, up to cuts between segments of
one kind. -/
theorem run_assistantTextOf (planMode : Bool) (chunks : List Text) :
    ((new planMode).run chunks).merged = (assistantTextOf planMode chunks.flatten).merged := by
  obtain ⟨hvisible, hextracted⟩ := CitationStreamParser.outputs_stripTags chunks
  cases planMode with
  | false =>
    rw [new, run_default, hvisible, hextracted]
    rfl
  | true =>
    rw [new, run_planMode]
    obtain ⟨segments, hrun, hatoms⟩ := ProposedPlanParser.run_segments {}
      ((CitationStreamParser.outputs {} chunks).map visibleText)
    rw [← flatMap_def, hvisible, feed_finish] at hatoms
    simp only [AssistantTextChunk.merged, hrun, hextracted,
      mergedPlan_mapSegments, visibleText_mapSegments, hatoms]
    rw [← visibleText_mapSegments, ← mergedPlan_mapSegments]
    simp only [assistantTextOf, if_true, ← lineSegments_planBlocks, mapSegments]
    rfl

/-- A piece of a text, within a citation or plan block or outside. -/
structure MarkedPiece where
  text : Text
  hidden : Bool

def wholeText (pieces : List MarkedPiece) : Text := pieces.flatMap MarkedPiece.text

def outsideText (pieces : List MarkedPiece) : Text :=
  (pieces.filter (fun piece => !piece.hidden)).flatMap MarkedPiece.text

def citationPiece : TagPiece → MarkedPiece
  | .visible text => ⟨text, false⟩
  | .hidden content closed => ⟨(TagPiece.hidden content closed).source citationSpec, true⟩

/-- The text cut at its leftmost citations. -/
def citationPieces (text : Text) : List MarkedPiece :=
  (tagPieces citationSpec text).map citationPiece

/-- The lines, of which those of a plan block are hidden. -/
def planPieces (inside : Bool) : List Text → List MarkedPiece
  | [] => []
  | line :: lines =>
    if inside then ⟨line, true⟩ :: planPieces (!closesPlan line) lines
    else ⟨line, opensPlan line⟩ :: planPieces (opensPlan line) lines

theorem wholeText_citationPieces (text : Text) : wholeText (citationPieces text) = text := by
  have hsource : ∀ piece, (citationPiece piece).text = piece.source citationSpec := by
    intro piece
    cases piece with
    | visible text | hidden content closed => rfl
  rw [wholeText, citationPieces, flatMap_map]
  simp only [hsource]
  exact flatMap_source_tagPieces citationSpec text

theorem outsideText_citationPieces (text : Text) :
    outsideText (citationPieces text) = (stripTags citationSpec text).visibleText := by
  rw [stripTags, citationPieces]
  induction tagPieces citationSpec text with
  | nil => rfl
  | cons piece pieces ih =>
    cases piece with
    | visible text | hidden content closed =>
      simpa [outsideText, citationPiece, outputOf, TagPiece.output] using ih

theorem wholeText_planPieces (inside : Bool) (lines : List Text) :
    wholeText (planPieces inside lines) = lines.flatten := by
  induction lines generalizing inside with
  | nil => rfl
  | cons line lines ih =>
    cases inside with
    | false => exact congrArg (line ++ ·) (ih (opensPlan line))
    | true => exact congrArg (line ++ ·) (ih !closesPlan line)

theorem outsideText_planPieces (inside : Bool) (lines : List Text) :
    outsideText (planPieces inside lines) = (planBlocks inside lines).flatMap visible := by
  induction lines generalizing inside with
  | nil =>
    cases inside with
    | false | true => rfl
  | cons line lines ih =>
    have houtside := ih false
    have hinside := ih true
    cases inside with
    | false =>
      cases hopen : opensPlan line with
      | true | false => simp_all [planPieces, planBlocks, outsideText, visible]
    | true =>
      cases hclose : closesPlan line with
      | true | false => simp_all [planPieces, planBlocks, outsideText, visible]

/-- However a text is cut into chunks, the parser gives out what it gives out
for the whole text, and what the text has by its leftmost citations and its
plan blocks; the visible text is made of the pieces outside of them, each once
and in order. -/
theorem chunked_text_matches_whole (planMode : Bool) (chunks : List Text) :
    let parser := AssistantTextStreamParser.new planMode
    let text := chunks.flatten
    let cited := citationPieces text
    let planned :=
      if planMode then planPieces false (splitInclusive (outsideText cited))
      else [⟨outsideText cited, false⟩]
    (parser.run chunks).merged = (parser.run [text]).merged ∧
      (parser.run chunks).merged = (assistantTextOf planMode text).merged ∧
      wholeText cited = text ∧
      wholeText planned = outsideText cited ∧
      (parser.run chunks).visibleText = outsideText planned := by
  have hchunks := run_assistantTextOf planMode chunks
  have hwhole := run_assistantTextOf planMode [chunks.flatten]
  rw [flatten_singleton] at hwhole
  refine ⟨hchunks.trans hwhole.symm, hchunks, wholeText_citationPieces _, ?_, ?_⟩
  · split_ifs
    · rw [wholeText_planPieces, flatten_splitInclusive]
    · simp [wholeText]
  · have hvisible :
        ((AssistantTextStreamParser.new planMode).run chunks).visibleText =
          (assistantTextOf planMode chunks.flatten).visibleText :=
      congrArg (fun chunk => chunk.visibleText) hchunks
    rw [hvisible, outsideText_citationPieces, assistantTextOf]
    split_ifs
    · rw [outsideText_planPieces]
    · simp [outsideText]

end Hexa.StreamParser
