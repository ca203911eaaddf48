/-
The queue of stable lines of a streamed message and the tail behind them
(tui/src/streaming/controller.rs, streaming/mod.rs, markdown_stream.rs).  The
markdown renderer is a parameter.
-/
import Hexa.Tui.TableHoldback

namespace Hexa.Streaming

open List TableHoldback

inductive HistoryRenderMode where
  | rich
  | raw
  deriving DecidableEq

structure StablePrefixLenCache where
  sourceStart : Nat
  width : Option Nat
  stablePrefixLen : Nat

/-- The buffer of the collector is cut into the committed source and the line
that is not complete yet. -/
structure StreamCore [TableDetect] (Line : Type) where
  width : Option Nat
  renderMode : HistoryRenderMode
  committedSource : Text := []
  incompleteLine : Text := []
  queuedLines : List Line := []
  lines : List Line := []
  enqueuedStableLen : Nat := 0
  emittedStableLen : Nat := 0
  stablePrefixLenCache : Option StablePrefixLenCache := none
  holdbackScanner : TableHoldbackScanner := {}

namespace StreamCore

section Core

variable [TableDetect] {Line : Type} (render : Text → Option Nat → HistoryRenderMode → List Line)
  (core : StreamCore Line)

/-- The number of lines, and the cache that is kept. -/
def stablePrefixLenForSourceStart (sourceStart : Nat) : Nat × Option StablePrefixLenCache :=
  match core.stablePrefixLenCache.filter fun cache =>
    cache.sourceStart = sourceStart ∧ cache.width = core.width with
  | some cache => (cache.stablePrefixLen, some cache)
  | none =>
    let stablePrefixLen :=
      (render (truncateAt sourceStart core.committedSource) core.width .rich).length
    (stablePrefixLen, some ⟨sourceStart, core.width, stablePrefixLen⟩)

def tailBudgetFromSourceStart (sourceStart : Nat) : Nat × Option StablePrefixLenCache :=
  if sourceStart = 0 then (core.lines.length, core.stablePrefixLenCache)
  else
    let (stablePrefixLen, cache) := core.stablePrefixLenForSourceStart render
      (min sourceStart (utf8Len core.committedSource))
    (core.lines.length - stablePrefixLen, cache)

def activeTailBudgetLines : Nat × Option StablePrefixLenCache :=
  if core.renderMode = .raw then (0, core.stablePrefixLenCache)
  else
    match core.holdbackScanner.state with
    | .confirmed start | .pendingHeader start => core.tailBudgetFromSourceStart render start
    | .none => (0, core.stablePrefixLenCache)

def computeTargetStableLen : Nat :=
  max (core.lines.length - (core.activeTailBudgetLines render).1) core.emittedStableLen

def rebuildStableQueueFromRender : StreamCore Line :=
  let targetStableLen := core.computeTargetStableLen render
  { core with
    queuedLines := core.lines.extract core.emittedStableLen targetStableLen
    enqueuedStableLen := targetStableLen
    stablePrefixLenCache := (core.activeTailBudgetLines render).2 }

/-- A boundary that has moved backward makes the queue anew. -/
def syncStableQueue : StreamCore Line :=
  let targetStableLen := core.computeTargetStableLen render
  if targetStableLen < core.enqueuedStableLen then core.rebuildStableQueueFromRender render
  else
    { core with
      queuedLines := core.queuedLines ++ core.lines.extract core.enqueuedStableLen targetStableLen
      enqueuedStableLen := targetStableLen
      stablePrefixLenCache := (core.activeTailBudgetLines render).2 }

/-- What is complete up to the last newline is scanned and rendered. -/
def commitCompleteSource (delta : Text) : StreamCore Line :=
  let buffer := core.incompleteLine ++ delta
  let complete := buffer.rdropWhile (· ≠ '\n')
  { core with
    committedSource := core.committedSource ++ complete
    incompleteLine := buffer.rtakeWhile (· ≠ '\n')
    holdbackScanner := core.holdbackScanner.pushSourceChunk complete
    lines := render (core.committedSource ++ complete) core.width core.renderMode }

def pushDelta (delta : Text) : StreamCore Line :=
  if '\n' ∈ delta then (core.commitCompleteSource render delta).syncStableQueue render
  else { core with incompleteLine := core.incompleteLine ++ delta }

def tickBatch (maxLines : Nat) : StreamCore Line :=
  { core with
    queuedLines := core.queuedLines.drop maxLines
    emittedStableLen := core.emittedStableLen + (core.queuedLines.take maxLines).length }

def tick : StreamCore Line := core.tickBatch 1

def hasTail : Bool := core.enqueuedStableLen < core.lines.length

/-- The lines of a new layout that count as emitted.  While some were pending,
at least one does not. -/
def emittedOf (lines : List Line) : Nat :=
  let emitted := min core.emittedStableLen lines.length
  if core.queuedLines ≠ [] ∧ emitted = lines.length ∧ 0 < emitted then emitted - 1 else emitted

/-- What `set_width` and `set_render_mode` do once the setting is changed. -/
def relayout : StreamCore Line :=
  if core.committedSource = [] then core
  else
    let lines := render core.committedSource core.width core.renderMode
    let emittedStableLen := core.emittedOf lines
    if 0 < emittedStableLen ∧ core.queuedLines = [] ∧ ¬core.hasTail then
      { core with lines, emittedStableLen, enqueuedStableLen := lines.length }
    else rebuildStableQueueFromRender render { core with lines, emittedStableLen }

def setWidth (width : Option Nat) : StreamCore Line :=
  if core.width = width then core else relayout render { core with width }

def setRenderMode (renderMode : HistoryRenderMode) : StreamCore Line :=
  if core.renderMode = renderMode then core else relayout render { core with renderMode }

inductive Action where
  | pushDelta (delta : Text)
  | tick
  | tickBatch (maxLines : Nat)
  | setWidth (width : Option Nat)
  | setRenderMode (renderMode : HistoryRenderMode)

def perform : Action → StreamCore Line
  | .pushDelta delta => core.pushDelta render delta
  | .tick => core.tick
  | .tickBatch maxLines => core.tickBatch maxLines
  | .setWidth width => core.setWidth render width
  | .setRenderMode renderMode => core.setRenderMode render renderMode

/-- The queue is what is rendered between the two boundaries. -/
structure QueueFits : Prop where
  emitted_le : core.emittedStableLen ≤ core.enqueuedStableLen
  enqueued_le : core.enqueuedStableLen ≤ core.lines.length
  queued : core.queuedLines = core.lines.extract core.emittedStableLen core.enqueuedStableLen

/-- The new render has as many lines as are emitted and, unless the boundary
moves backward, the lines that are queued. -/
def KeepsStable (delta : Text) : Prop :=
  let next := core.commitCompleteSource render delta
  core.emittedStableLen ≤ next.lines.length ∧
    (core.enqueuedStableLen ≤ next.computeTargetStableLen render →
      next.lines.extract core.emittedStableLen core.enqueuedStableLen =
        core.lines.extract core.emittedStableLen core.enqueuedStableLen)

/-- All that was rendered is emitted, and the new layout has more lines. -/
def Outgrown : Prop :=
  core.committedSource ≠ [] ∧ core.queuedLines = [] ∧ ¬core.hasTail ∧ 0 < core.emittedStableLen ∧
    core.emittedStableLen < (render core.committedSource core.width core.renderMode).length

def Admits : Action → Prop
  | .pushDelta delta => '\n' ∈ delta → core.KeepsStable render delta
  | .tick | .tickBatch _ => True
  | .setWidth width => core.width ≠ width → ¬Outgrown render { core with width }
  | .setRenderMode renderMode =>
    core.renderMode ≠ renderMode → ¬Outgrown render { core with renderMode }

variable {render core}

omit [TableDetect] in
theorem extract_append_extract (lines : List Line) {first middle last : Nat}
    (hfirst : first ≤ middle) (hlast : middle ≤ last) :
    lines.extract first middle ++ lines.extract middle last = lines.extract first last := by
  obtain ⟨more, rfl⟩ := Nat.exists_eq_add_of_le hfirst
  obtain ⟨rest, rfl⟩ := Nat.exists_eq_add_of_le hlast
  simp [extract_eq_take_drop, Nat.add_assoc, take_add, drop_drop, Nat.add_sub_add_left]

theorem rebuild_fits (hemitted : core.emittedStableLen ≤ core.lines.length) :
    QueueFits (core.rebuildStableQueueFromRender render) where
  emitted_le := le_max_right _ _
  enqueued_le := max_le (Nat.sub_le _ _) hemitted
  queued := rfl

theorem pushDelta_fits_iff (hfits : QueueFits core) (delta : Text) :
    QueueFits ((core.commitCompleteSource render delta).syncStableQueue render) ↔
      core.KeepsStable render delta := by
  obtain ⟨hordered, -, hqueued⟩ := hfits
  rw [syncStableQueue, KeepsStable]
  set next := core.commitCompleteSource render delta
  have hnext : next.queuedLines = core.queuedLines ∧
      next.emittedStableLen = core.emittedStableLen ∧
      next.enqueuedStableLen = core.enqueuedStableLen := ⟨rfl, rfl, rfl⟩
  obtain ⟨hqueue, hemitted, henqueued⟩ := hnext
  split_ifs with hback
  · rw [henqueued] at hback
    constructor
    · intro hfits
      exact ⟨hemitted ▸ hfits.emitted_le.trans hfits.enqueued_le,
        fun hforth => absurd hback hforth.not_gt⟩
    · intro hkeeps
      exact rebuild_fits (hemitted ▸ hkeeps.1)
  · rw [henqueued, not_lt] at hback
    have hsplit := extract_append_extract next.lines hordered hback
    constructor
    · intro hfits
      refine ⟨hemitted ▸ hfits.emitted_le.trans hfits.enqueued_le, fun _ => ?_⟩
      have happended := hfits.queued
      simp only [hqueue, hemitted, henqueued, ← hsplit] at happended
      rw [← hqueued, append_cancel_right happended]
    · rintro ⟨hlength, hsame⟩
      refine ⟨le_max_right _ _, max_le (Nat.sub_le _ _) (hemitted ▸ hlength), ?_⟩
      simp only [hqueue, hemitted, henqueued, ← hsplit, hsame hback, hqueued]

theorem tickBatch_fits (hfits : QueueFits core) (maxLines : Nat) :
    QueueFits (core.tickBatch maxLines) := by
  obtain ⟨hordered, hlength, hqueued⟩ := hfits
  have hpending : core.queuedLines.length = core.enqueuedStableLen - core.emittedStableLen := by
    rw [hqueued, extract_eq_take_drop, length_take, length_drop]
    omega
  rw [tickBatch, length_take, hpending]
  refine ⟨by grind, hlength, ?_⟩
  rw [hqueued, extract_eq_take_drop, extract_eq_take_drop, drop_take, drop_drop]
  rcases le_total maxLines (core.enqueuedStableLen - core.emittedStableLen) with hle | hle
  · rw [min_eq_left hle, Nat.sub_add_eq]
  · simp [hordered, hle]

theorem relayout_fits_iff (hfits : QueueFits core) :
    QueueFits (relayout render core) ↔ ¬Outgrown render core := by
  by_cases hempty : core.committedSource = []
  · rw [relayout, if_pos hempty]
    exact iff_of_true hfits fun houtgrown => houtgrown.1 hempty
  · rw [relayout, if_neg hempty, Outgrown]
    set lines := render core.committedSource core.width core.renderMode
    have hidle (hqueued : core.queuedLines = []) :
        core.emittedOf lines = min core.emittedStableLen lines.length := by
      simp [emittedOf, hqueued]
    dsimp only
    split_ifs with hall
    · obtain ⟨hemitted, hqueued, htail⟩ := hall
      rw [hidle hqueued] at hemitted ⊢
      constructor
      · rintro ⟨-, -, hnone⟩ ⟨-, -, -, -, hmore⟩
        have hlength := congrArg length (hqueued.symm.trans hnone)
        simp at hlength
        omega
      · intro hshort
        have hle : lines.length ≤ core.emittedStableLen := by
          by_contra hmore
          exact hshort ⟨hempty, hqueued, htail, (lt_min_iff.mp hemitted).1, not_le.mp hmore⟩
        exact ⟨min_le_right _ _, le_rfl, by simp [hle, hqueued]⟩
    · refine iff_of_true (rebuild_fits (by grind [emittedOf])) ?_
      rintro ⟨-, hqueued, htail, hemitted, hmore⟩
      refine hall ⟨?_, hqueued, htail⟩
      rw [hidle hqueued]
      exact lt_min hemitted (hemitted.trans hmore)

theorem perform_fits_iff (hfits : QueueFits core) (action : Action) :
    QueueFits (core.perform render action) ↔ core.Admits render action := by
  obtain ⟨hordered, hlength, hqueued⟩ := id hfits
  cases action with
  | pushDelta delta =>
    rw [perform, pushDelta, Admits]
    split_ifs with hnewline
    · simp only [hnewline, forall_const]
      exact pushDelta_fits_iff hfits delta
    · exact iff_of_true ⟨hordered, hlength, hqueued⟩ (absurd · hnewline)
  | tick => exact iff_of_true (tickBatch_fits hfits 1) trivial
  | tickBatch maxLines => exact iff_of_true (tickBatch_fits hfits maxLines) trivial
  | setWidth width =>
    rw [perform, setWidth, Admits]
    split_ifs with hsame
    · exact iff_of_true hfits (absurd hsame)
    · simp only [ne_eq, hsame, not_false_eq_true, forall_const]
      exact relayout_fits_iff ⟨hordered, hlength, hqueued⟩
  | setRenderMode renderMode =>
    rw [perform, setRenderMode, Admits]
    split_ifs with hsame
    · exact iff_of_true hfits (absurd hsame)
    · simp only [ne_eq, hsame, not_false_eq_true, forall_const]
      exact relayout_fits_iff ⟨hordered, hlength, hqueued⟩

end Core

/-- Without a width the source is one line, and with one it has a line for
each character. -/
def wrapped (source : Text) (width : Option Nat) (_ : HistoryRenderMode) : List Text :=
  match width with
  | none => [source]
  | some _ => source.map fun char => [char]

end StreamCore

end Hexa.Streaming
