/-
What the writer reports as written is in the file exactly once and in order, as
long as a write that fails does not leave a whole record behind.
-/
import Hexa.Rollout.Writer

namespace Hexa.Rollout

open List Option

universe u v w z

namespace RolloutOrdinalState

/-- The ordinal of the record at an index of a new rollout. -/
def ordinalAt : RolloutOrdinalState → Nat → Option Nat
  | .legacy, _ => none
  | .paginated next, index => next.map (· + index)

/-- The state after some records. -/
def afterRecords (start : RolloutOrdinalState) : Nat → RolloutOrdinalState
  | 0 => start
  | count + 1 => (start.afterRecords count).advance

/-- As long as there is a next ordinal it counts the records. -/
theorem current_afterRecords {start : RolloutOrdinalState} {count : Nat} {ordinal : Option Nat}
    (hcurrent : (start.afterRecords count).current = some ordinal) :
    ordinal = start.ordinalAt count := by
  cases start with
  | legacy =>
    have hlegacy : ∀ count, legacy.afterRecords count = legacy := by
      intro count
      induction count with
      | zero => rfl
      | succ count ih => rw [afterRecords, ih, advance]
    rw [hlegacy] at hcurrent
    exact (some.inj hcurrent).symm
  | paginated next =>
    have hnext : ∀ count, ∃ after, (paginated next).afterRecords count = paginated after ∧
          ∀ ordinal ∈ after, next.map (· + count) = some ordinal := by
      intro count
      induction count with
      | zero => exact ⟨next, rfl, fun ordinal hmem => by
          rw [mem_def.mp hmem]; rfl⟩
      | succ count ih =>
        obtain ⟨after, hafter, hordinal⟩ := ih
        refine ⟨_, by rw [afterRecords, hafter, advance], ?_⟩
        intro ordinal hmem
        obtain ⟨before, hbefore, hadvance⟩ := bind_eq_some_iff.mp hmem
        obtain ⟨-, hsucc⟩ := ite_none_right_eq_some.mp hadvance
        obtain ⟨base, hbase, hsum⟩ := map_eq_some_iff.mp (hordinal before hbefore)
        cases hsucc
        rw [hbase, ← hsum]
        rfl
    obtain ⟨after, hafter, hordinal⟩ := hnext count
    rw [hafter] at hcurrent
    obtain ⟨found, hfound, rfl⟩ := map_eq_some_iff.mp hcurrent
    exact (hordinal found hfound).symm

end RolloutOrdinalState

section Once

variable {Meta : Type u} {Git : Type v} {Item : Type w} {Time : Type z}
  {format : RecordFormat UInt8 (RolloutLine Time (WrittenItem Meta Git Item))}
  {outside : Surroundings Time Git}

/-- The records are numbered without gaps, and the next one is known. -/
structure Numbered (start : RolloutOrdinalState)
    (records : List (RolloutLine Time (WrittenItem Meta Git Item)))
    (ordinalState : RolloutOrdinalState) : Prop where
  ordinals : ∀ index line, records[index]? = some line → line.ordinal = start.ordinalAt index
  next : ordinalState = start.afterRecords records.length

theorem Numbered.append {start ordinalState : RolloutOrdinalState}
    {records : List (RolloutLine Time (WrittenItem Meta Git Item))}
    {line : RolloutLine Time (WrittenItem Meta Git Item)}
    (hnumbered : Numbered start records ordinalState)
    (hcurrent : ordinalState.current = some line.ordinal) :
    Numbered start (records ++ [line]) ordinalState.advance := by
  obtain ⟨hordinals, rfl⟩ := hnumbered
  constructor
  · intro index found hfound
    rcases Nat.lt_or_ge index records.length with hlt | hge
    · rw [getElem?_append_left hlt] at hfound
      exact hordinals index found hfound
    · rw [getElem?_append_right hge, getElem?_singleton] at hfound
      obtain ⟨hzero, hline⟩ := ite_none_right_eq_some.mp hfound
      cases hline
      have hindex : index = records.length := by omega
      rw [hindex]
      exact RolloutOrdinalState.current_afterRecords hcurrent
  · rw [length_append, length_singleton, RolloutOrdinalState.afterRecords]

/-- The records of a session: its meta and then its items, numbered without
gaps. -/
structure Recorded (session : Meta) (start : RolloutOrdinalState) (items : List Item)
    (records : List (RolloutLine Time (WrittenItem Meta Git Item))) :
    Prop where
  contents : ∃ git, records.map (·.item) = .sessionMeta session git :: items.map .item
  ordinals : ∀ index line, records[index]? = some line → line.ordinal = start.ordinalAt index

/-- A write of a record that fails loses more than the line break. -/
def Surroundings.CutsRecords (outside : Surroundings Time Git) : Prop :=
  ∀ operation, ∀ lost ∈ outside.recordLoses operation, 2 ≤ lost

section

variable (hformat : format.Lawful) {disk : Disk}
include hformat

theorem ensureNewlineTerminated_records :
    format.records (ensureNewlineTerminated format outside disk).2.contents =
        format.records disk.contents ∧
      ((ensureNewlineTerminated format outside disk).1 = true →
        format.AtLineStart (ensureNewlineTerminated format outside disk).2.contents) := by
  rw [ensureNewlineTerminated]
  split
  case isTrue hend =>
    refine ⟨rfl, fun _ => hend.imp_right fun hlast => ?_⟩
    exact getLast?_eq_some_iff.mp hlast
  · cases outside.terminateLoses disk.operations with
    | none => exact ⟨hformat.records_terminate _, fun _ => .inr ⟨_, rfl⟩⟩
    | some lost =>
      refine ⟨?_, nofun⟩
      cases lost with
      | zero => exact hformat.records_terminate _
      | succ lost =>
        rw [Disk.append, length_singleton,
          Nat.sub_eq_zero_of_le (Nat.succ_le_succ (Nat.zero_le lost)), take_zero, append_nil]
        rfl

theorem openLogFile_records :
    format.records (openLogFile format outside disk).2.contents = format.records disk.contents ∧
      ((openLogFile format outside disk).1 = true →
        format.AtLineStart (openLogFile format outside disk).2.contents) := by
  rw [openLogFile]
  split
  · exact ⟨rfl, nofun⟩
  · exact ⟨rfl, nofun⟩
  · exact ensureNewlineTerminated_records hformat

end

namespace RolloutWriterState

variable {session : Meta} {start : RolloutOrdinalState} {added : List Item}
  {state : RolloutWriterState Meta Item}

section

variable (format session start added state)

/-- The records in the file and the queue make up the session. -/
structure Kept : Prop where
  numbered : Numbered start (format.records state.disk.contents) state.ordinalState
  progress : (state.sessionMeta = some session ∧
      format.records state.disk.contents = [] ∧
      state.pendingItems = added) ∨
    (state.sessionMeta = none ∧ ∃ git done, (format.records state.disk.contents).map (·.item) =
        .sessionMeta session git :: done.map .item ∧
      done ++ state.pendingItems = added)

/-- The file is open, and at the start of a line. -/
def Ready : Prop := state.writer = true ∧ format.AtLineStart state.disk.contents

/-- Between commands an open file is at the start of a line. -/
structure Sound : Prop extends Kept format session start added state where
  lineStart : state.writer = true → format.AtLineStart state.disk.contents

/-- Everything has been written. -/
def Drained : Prop := state.sessionMeta = none ∧ state.pendingItems = []

end

section

variable (hkept : Kept format session start added state)
include hkept

theorem Kept.recorded (hdrained : state.Drained) :
    Recorded session start added (format.records state.disk.contents) := by
  refine ⟨?_, hkept.numbered.ordinals⟩
  rcases hkept.progress with ⟨hmeta, -⟩ | ⟨-, git, done, hitems, hdone⟩
  · rw [hdrained.1] at hmeta
    cases hmeta
  · rw [hdrained.2, append_nil] at hdone
    exact ⟨git, hdone ▸ hitems⟩

theorem Kept.enterRecoveryMode : Sound format session start added state.enterRecoveryMode :=
  ⟨⟨hkept.numbered, hkept.progress⟩, nofun⟩

theorem Kept.sound (hready : Ready format state) : Sound format session start added state :=
  ⟨hkept, fun _ => hready.2⟩

/-- Another state of the file with the same records. -/
theorem Kept.withDisk {disk : Disk} (hrecords : format.records disk.contents =
      format.records state.disk.contents) : Kept format session start added { state with disk } :=
  ⟨hrecords ▸ hkept.numbered, by
    rw [hrecords]
    exact hkept.progress⟩

end

/-- What a step keeps in any case, and what it achieves if it succeeds. -/
def Leaves (kept done : RolloutWriterState Meta Item → Prop)
    (result : Bool × RolloutWriterState Meta Item) : Prop :=
  kept result.2 ∧ (result.1 = true → done result.2)

section Steps

variable (hformat : format.Lawful)
include hformat

theorem Sound.ensureWriterOpen (hsound : Sound format session start added state) :
    Leaves (Kept format session start added) (Ready format)
      (state.ensureWriterOpen format outside) := by
  rw [RolloutWriterState.ensureWriterOpen]
  split
  case isTrue hwriter =>
    exact ⟨hsound.toKept, fun _ => ⟨hwriter, hsound.lineStart hwriter⟩⟩
  · obtain ⟨hrecords, hstart⟩ := @openLogFile_records _ _ _ _ format outside hformat state.disk
    generalize openLogFile format outside state.disk = result at hrecords hstart ⊢
    obtain ⟨opened, disk⟩ := result
    have hkept := hsound.toKept.withDisk hrecords
    cases opened with
    | false => exact ⟨hkept, nofun⟩
    | true => exact ⟨⟨hkept.numbered, hkept.progress⟩, fun _ => ⟨rfl, hstart rfl⟩⟩

section

variable (hcut : outside.CutsRecords)
include hcut

/-- A record is at the end of the file and counted, or nothing has changed that
can be read. -/
theorem writeNumbered_cases (hready : Ready format state) (item : WrittenItem Meta Git Item) :
    (∃ disk, state.writeNumbered format outside item = (false, { state with disk }) ∧
      format.records disk.contents = format.records state.disk.contents) ∨
    ∃ disk line, state.writeNumbered format outside item =
        (true, { state with
          ordinalState := state.ordinalState.advance, disk }) ∧
      state.ordinalState.current = some line.ordinal ∧ line.item = item ∧
      format.records disk.contents = format.records state.disk.contents ++ [line] ∧
      format.AtLineStart disk.contents := by
  rw [writeNumbered]
  cases hcurrent : state.ordinalState.current with
  | none => exact .inl ⟨state.disk, rfl, rfl⟩
  | some ordinal =>
    dsimp only
    rw [writeRolloutItem]
    cases hlost : outside.recordLoses state.disk.operations with
    | some lost => exact .inl ⟨_, rfl, hformat.records_append_cut hready.2 _ (hcut _ lost hlost)⟩
    | none =>
      exact .inr ⟨_, _, rfl, rfl, rfl, hformat.records_append_line hready.2 _,
        .inr ⟨_, (append_assoc _ _ _).symm⟩⟩

theorem Kept.writeSessionMetaIfNeeded (hkept : Kept format session start added state)
    (hready : Ready format state) :
    Leaves (Kept format session start added)
      (fun after => Ready format after ∧ after.sessionMeta = none)
      (state.writeSessionMetaIfNeeded format outside) := by
  rw [RolloutWriterState.writeSessionMetaIfNeeded]
  rcases hkept.progress with ⟨hmeta, hempty, hpending⟩ | ⟨hmeta, -⟩
  · rw [hmeta]
    dsimp only
    rcases writeNumbered_cases hformat hcut hready
        (.sessionMeta session (outside.git state.disk.operations)) with
      ⟨disk, hwrite, hrecords⟩ | ⟨disk, line, hwrite, hcurrent, hitem, hrecords, hstart⟩
    · rw [hwrite]
      exact ⟨hkept.withDisk hrecords, nofun⟩
    · rw [hwrite]
      refine ⟨⟨?_, .inr ⟨rfl, outside.git state.disk.operations, [], ?_,
        hpending⟩⟩, fun _ => ⟨⟨hready.1, hstart⟩, rfl⟩⟩
      · rw [hrecords]
        exact hkept.numbered.append hcurrent
      · rw [hrecords, hempty, nil_append, map_singleton, hitem]
        rfl
  · rw [hmeta]
    exact ⟨hkept, fun _ => ⟨hready, hmeta⟩⟩

/-- The loop over the queue, with what it has written so far. -/
theorem leaves_writePendingItems {git : Option Git} {done items : List Item}
    (hready : Ready format state) (hmeta : state.sessionMeta = none)
    (hnumbered : Numbered start (format.records state.disk.contents) state.ordinalState)
    (hitems : (format.records state.disk.contents).map (·.item) =
      .sessionMeta session git :: done.map .item)
    (hdone : done ++ items = added) :
    Leaves (Kept format session start added)
      (fun after => Ready format after ∧ after.Drained)
      (writePendingItems format outside items state) := by
  induction items generalizing state done with
  | nil =>
    exact ⟨⟨hnumbered, .inr ⟨hmeta, git, done, hitems, hdone⟩⟩, fun _ => ⟨hready, hmeta, rfl⟩⟩
  | cons item items ih =>
    rw [writePendingItems]
    rcases writeNumbered_cases hformat hcut hready (.item item) with
      ⟨disk, hwrite, hrecords⟩ | ⟨disk, line, hwrite, hcurrent, hitem, hrecords, hstart⟩
    · rw [hwrite]
      refine ⟨⟨?_, .inr ⟨hmeta, git, done, ?_, hdone⟩⟩, nofun⟩
      · rw [hrecords]
        exact hnumbered
      · rw [hrecords, hitems]
    · rw [hwrite]
      refine ih ⟨hready.1, hstart⟩ hmeta ?_ ?_ ((append_assoc done [item] items).trans hdone)
      · rw [hrecords]
        exact hnumbered.append hcurrent
      · rw [hrecords, map_append, hitems, map_singleton, hitem, map_append]
        rfl

section

variable (hsound : Sound format session start added state)
include hsound

theorem Sound.writePendingOnce :
    Leaves (Kept format session start added)
      (fun after => Ready format after ∧ after.Drained)
      (state.writePendingOnce format outside) := by
  rw [RolloutWriterState.writePendingOnce]
  have hopen := @Sound.ensureWriterOpen _ _ _ _ format outside session start
    added state hformat hsound
  generalize state.ensureWriterOpen format outside = result at hopen ⊢
  obtain ⟨_ | _, opened⟩ := result
  · exact ⟨hopen.1, nofun⟩
  · obtain ⟨hkept, hready⟩ := hopen
    have hsession := @Kept.writeSessionMetaIfNeeded _ _ _ _ format outside session
      start added opened hformat hcut hkept (hready rfl)
    dsimp only
    generalize opened.writeSessionMetaIfNeeded format outside = result at hsession ⊢
    obtain ⟨_ | _, begun⟩ := result
    · exact ⟨hsession.1, nofun⟩
    · obtain ⟨hkept, hready⟩ := hsession
      obtain ⟨hready, hmeta⟩ := hready rfl
      dsimp only at hkept hready hmeta ⊢
      obtain ⟨git, done, hitems, hdone⟩ : ∃ git done,
          (format.records begun.disk.contents).map (·.item) =
            .sessionMeta session git :: done.map .item ∧
          done ++ begun.pendingItems = added := by
        rcases hkept.progress with ⟨hsome, -⟩ | ⟨-, h⟩
        · rw [hmeta] at hsome
          cases hsome
        · exact h
      have hloop := leaves_writePendingItems hformat hcut hready hmeta hkept.numbered hitems hdone
      generalize writePendingItems format outside begun.pendingItems begun = result at hloop ⊢
      obtain ⟨_ | _, drained⟩ := result
      · exact ⟨hloop.1, nofun⟩
      · exact ⟨⟨hloop.1.numbered, hloop.1.progress⟩, fun _ => hloop.2 rfl⟩

theorem Sound.writePendingWithRecovery :
    Leaves (Sound format session start added) Drained
      (state.writePendingWithRecovery format outside) := by
  rw [RolloutWriterState.writePendingWithRecovery]
  have hfirst := @Sound.writePendingOnce _ _ _ _ format outside session start
    added state hformat hcut hsound
  generalize state.writePendingOnce format outside = result at hfirst ⊢
  obtain ⟨_ | _, tried⟩ := result
  · have hsecond := @Sound.writePendingOnce _ _ _ _ format outside session
      start added _ hformat hcut hfirst.1.enterRecoveryMode
    dsimp only at hsecond ⊢
    generalize tried.enterRecoveryMode.writePendingOnce format outside = result at hsecond ⊢
    obtain ⟨_ | _, retried⟩ := result
    · exact ⟨hsecond.1.enterRecoveryMode, nofun⟩
    · exact ⟨hsecond.1.sound (hsecond.2 rfl).1, fun _ => (hsecond.2 rfl).2⟩
  · exact ⟨hfirst.1.sound (hfirst.2 rfl).1, fun _ => (hfirst.2 rfl).2⟩

/-- A flush writes everything, unless there is nothing to write yet. -/
theorem Sound.flush :
    Leaves (Sound format session start added)
      (fun after => state.isDeferred ∧ state.pendingItems = [] ∨ after.Drained)
      (state.flush format outside) := by
  rw [RolloutWriterState.flush]
  split
  case isTrue hnothing =>
    rw [Bool.and_eq_true, List.isEmpty_iff] at hnothing
    exact ⟨hsound, fun _ => .inl hnothing⟩
  · obtain ⟨hafter, hdone⟩ := @Sound.writePendingWithRecovery _ _ _ _ format
      outside session start added state hformat hcut hsound
    exact ⟨hafter, fun h => .inr (hdone h)⟩

end

end

omit hformat in
theorem Sound.addItems (hsound : Sound format session start added state) (items : List Item) :
    Sound format session start (added ++ items) (state.addItems items) := by
  refine ⟨⟨hsound.numbered, ?_⟩, hsound.lineStart⟩
  rcases hsound.progress with ⟨hmeta, hempty, hpending⟩ | ⟨hmeta, git, done, hitems, hdone⟩
  · exact .inl ⟨hmeta, hempty, congrArg (· ++ items) hpending⟩
  · refine .inr ⟨hmeta, git, done, hitems, ?_⟩
    rw [← hdone, append_assoc]
    rfl

theorem Sound.flushIfMaterialized (hcut : outside.CutsRecords)
    (hsound : Sound format session start added state) :
    Sound format session start added (state.flushIfMaterialized format outside) := by
  rw [RolloutWriterState.flushIfMaterialized]
  split
  · exact hsound
  · have hflush :=
      @Sound.flush _ _ _ _ format outside session start added state hformat hcut hsound
    generalize state.flush format outside = result at hflush ⊢
    obtain ⟨_ | _, after⟩ := result
    · exact hflush.1.toKept.enterRecoveryMode
    · exact hflush.1

end Steps

theorem sound_new (hformat : format.Lawful) (session : Meta) (start : RolloutOrdinalState) :
    Sound format session start [] (new session start : RolloutWriterState Meta Item) := by
  have hnil : format.records (new session start :
      RolloutWriterState Meta Item).disk.contents = [] := hformat.records_nil
  refine ⟨⟨⟨?_, ?_⟩, .inl ⟨rfl, hnil, rfl⟩⟩, nofun⟩
  · rw [hnil]
    exact nofun
  · rw [hnil]
    rfl

end RolloutWriterState

def RolloutCmd.items : RolloutCmd Item → List Item
  | .addItems items => items
  | .persist => []
  | .flush => []
  | .shutdown => []

/-- The items of all commands. -/
def addedItems (cmds : List (RolloutCmd Item)) : List Item := cmds.flatMap RolloutCmd.items

namespace RolloutWriter

variable {session : Meta} {start : RolloutOrdinalState} {added : List Item}
  {writer : RolloutWriter Meta Item}

variable (format session start added writer) in
/-- A running writer has lost and repeated nothing. -/
def Sound : Prop :=
  writer.running = true → RolloutWriterState.Sound format session start added writer.state

section

variable (hformat : format.Lawful) (hcut : outside.CutsRecords)
  (hsound : Sound format session start added writer)
include hformat hcut hsound

theorem Sound.perform (cmd : RolloutCmd Item) :
    Sound format session start (added ++ cmd.items) (writer.perform format outside cmd).1 := by
  unfold RolloutWriter.perform
  split
  case isTrue hrunning =>
    have hstate := hsound hrunning
    cases cmd with
    | addItems items =>
      intro _
      exact (hstate.addItems items).flushIfMaterialized hformat hcut
    | persist =>
      intro _
      rw [RolloutCmd.items, append_nil]
      exact (hstate.writePendingWithRecovery hformat hcut).1
    | flush | shutdown =>
      intro _
      rw [RolloutCmd.items, append_nil]
      exact (hstate.flush hformat hcut).1
  case isFalse hstopped => exact fun hrunning => absurd hrunning hstopped

theorem sound_performAll (cmds : List (RolloutCmd Item)) :
    Sound format session start (added ++ addedItems cmds)
      (writer.performAll format outside cmds) := by
  induction cmds generalizing writer added with
  | nil =>
    rw [addedItems, flatMap_nil, append_nil]
    exact hsound
  | cons cmd cmds ih =>
    have hrest := ih (hsound.perform hformat hcut cmd)
    rw [append_assoc] at hrest
    exact hrest

/-- A command for which success is reported leaves nothing to write, unless it
had nothing to write and the file did not exist yet. -/
theorem drained_of_success {cmd : RolloutCmd Item}
    (hsuccess : (writer.perform format outside cmd).2 = some true)
    (hneeded : cmd = .persist ∨ ¬ (writer.state.isDeferred ∧ writer.state.pendingItems = [])) :
    Recorded session start (added ++ cmd.items) (format.records
      (writer.perform format outside cmd).1.state.disk.contents) := by
  unfold RolloutWriter.perform at hsuccess ⊢
  split at hsuccess
  case isFalse => cases hsuccess
  case isTrue hrunning =>
    have hstate := hsound hrunning
    rw [if_pos hrunning]
    cases cmd with
    | addItems items => cases hsuccess
    | persist =>
      obtain ⟨hafter, hdone⟩ := hstate.writePendingWithRecovery hformat hcut
      rw [RolloutCmd.items, append_nil]
      exact hafter.recorded (hdone (some.inj hsuccess))
    | flush | shutdown =>
      obtain ⟨hafter, hdone⟩ := hstate.flush hformat hcut
      rw [RolloutCmd.items, append_nil]
      exact hafter.recorded ((hdone (some.inj hsuccess)).resolve_left
        (hneeded.resolve_left nofun))

end

/-- The writer of a new rollout. -/
def new (session : Meta) (historyBase : Option Nat) : RolloutWriter Meta Item :=
  ⟨.new session (.forNewRollout historyBase), true⟩

/-- In every run in which failed writes cut their records, a command that
reports success leaves the session meta and all items added so far in the
file, in order, once, and numbered without gaps. -/
theorem reported_success_is_recorded (hformat : format.Lawful)
    (hcut : outside.CutsRecords) (session : Meta) (historyBase : Option Nat)
    (cmds : List (RolloutCmd Item)) (cmd : RolloutCmd Item)
    (hsuccess : (((new session historyBase).performAll format outside
      cmds).perform format outside cmd).2 = some true)
    (hneeded : cmd = .persist ∨
      ¬ (((new session historyBase).performAll format outside cmds).state.isDeferred ∧
        ((new session historyBase).performAll format outside cmds).state.pendingItems = [])) :
    Recorded session (.forNewRollout historyBase) (addedItems (cmds ++ [cmd]))
      (format.records (((new session historyBase).performAll format outside
        cmds).perform format outside cmd).1.state.disk.contents) := by
  have hstart : Sound format session (.forNewRollout historyBase) [] (new session historyBase) :=
    fun _ => RolloutWriterState.sound_new hformat session _
  have hrun := sound_performAll hformat hcut hstart cmds
  have hdone := drained_of_success hformat hcut hrun hsuccess hneeded
  rw [addedItems, flatMap_append, flatMap_singleton]
  exact hdone

/-- In every run in which failed writes cut their records, after every command
and whatever it reports, the file and the queue make up the session: nothing
that was added is lost, repeated or out of order. -/
theorem file_and_queue_hold_all (hformat : format.Lawful) (hcut : outside.CutsRecords)
    (session : Meta) (historyBase : Option Nat) (cmds : List (RolloutCmd Item))
    (hrunning : ((new session historyBase).performAll format outside cmds).running = true) :
    RolloutWriterState.Kept format session (.forNewRollout historyBase) (addedItems cmds)
      ((new session historyBase).performAll format outside cmds).state := by
  have hstart : Sound format session (.forNewRollout historyBase) [] (new session historyBase) :=
    fun _ => RolloutWriterState.sound_new hformat session _
  exact (sound_performAll hformat hcut hstart cmds hrunning).toKept

end RolloutWriter

end Once

section Tally

/-- Lines for sessions without contents: the ordinal as strokes, and a letter
for what is written. -/
abbrev TallyLine := RolloutLine Unit (WrittenItem Unit Empty Unit)

def tallyStrokes (line : TallyLine) : Nat :=
  match line.ordinal with
  | none => 0
  | some ordinal => ordinal + 1

def tallyLetter (line : TallyLine) : UInt8 :=
  match line.item with
  | .sessionMeta _ _ => 77
  | .item _ => 73

def tallyDecode (strokes : Nat) : List UInt8 → Option TallyLine
  | [] => none
  | letter :: rest =>
    if letter = 49 then tallyDecode (strokes + 1) rest
    else if rest = [] ∧ (letter = 77 ∨ letter = 73) then
      some ⟨(), if strokes = 0 then none else some (strokes - 1),
        if letter = 77 then .sessionMeta () none else .item ()⟩
    else none

def tallyFormat : RecordFormat UInt8 TallyLine where
  separator := 10
  encode line := List.replicate (tallyStrokes line) 49 ++ [tallyLetter line]
  decode := tallyDecode 0

theorem tallyDecode_replicate (strokes count : Nat) (rest : List UInt8) :
    tallyDecode strokes (List.replicate count 49 ++ rest) =
      tallyDecode (strokes + count) rest := by
  induction count generalizing strokes with
  | zero => rfl
  | succ count ih =>
    rw [replicate_succ, cons_append, tallyDecode, if_pos rfl, ih]
    congr 1
    omega

theorem tallyFormat_lawful : tallyFormat.Lawful where
  separator_notMem := by
    rintro ⟨⟨⟩, ordinal, item⟩ hmem
    rcases mem_append.mp hmem with hstroke | hletter
    · exact absurd (eq_of_mem_replicate hstroke) (by decide)
    · have hletter := mem_singleton.mp hletter
      cases item with
    | sessionMeta _ _ => exact absurd (show (10 : UInt8) = 77 from hletter) (by decide)
    | item _ => exact absurd (show (10 : UInt8) = 73 from hletter) (by decide)
  decode_encode := by
    rintro ⟨⟨⟩, ordinal, item⟩
    change tallyDecode 0 _ = _
    rw [tallyFormat, tallyDecode_replicate, Nat.zero_add]
    rcases item with ⟨⟨⟩, _ | ⟨⟨⟩⟩⟩ | ⟨⟨⟩⟩ <;>
      rcases ordinal with _ | ordinal <;> rfl
  decode_cut := by
    intro line count hcount
    change tallyDecode 0 _ = none
    rw [tallyFormat] at hcount ⊢
    rw [length_append, length_replicate, length_singleton] at hcount
    rw [take_append_of_le_length (by rw [length_replicate]; omega), take_replicate,
      ← append_nil (List.replicate _ _), tallyDecode_replicate]
    rfl
  decode_nil := rfl

/-- One write of a record fails and loses some bytes. -/
def failingOnce (operation lost : Nat) : Surroundings Unit Empty where
  openFails _ := none
  terminateLoses _ := none
  recordLoses current := if current = operation then some lost else none
  flushFails _ := false
  timestamp _ := ()
  git _ := none

theorem failingOnce_cutsRecords {operation lost : Nat} (hlost : 2 ≤ lost) :
    (failingOnce operation lost).CutsRecords := by
  intro current found hfound
  obtain ⟨-, hfound⟩ := ite_none_right_eq_some.mp hfound
  exact some.inj hfound ▸ hlost

/-- The write of the item fails in the middle and is repeated. -/
theorem reported_success_is_recorded_retried :
    Recorded () (.forNewRollout (some 0)) [()]
      (tallyFormat.records (((RolloutWriter.new () (some 0)).performAll
        tallyFormat (failingOnce 2 2) [.addItems [()]]).perform tallyFormat
          (failingOnce 2 2) .persist).1.state.disk.contents) :=
  RolloutWriter.reported_success_is_recorded tallyFormat_lawful
    (failingOnce_cutsRecords (Nat.le_refl 2)) () (some 0) [.addItems [()]]
    .persist rfl (.inl rfl)

/-- The first write of the item leaves the beginning of its line in the file,
the second one the record. -/
theorem file_and_queue_hold_all_retried :
    let writer := (RolloutWriter.new () (some 0)).performAll tallyFormat
      (failingOnce 2 2) [.addItems [()], .persist]
    writer.state.disk.contents = [49, 77, 10, 49, 49, 10, 49, 49, 73, 10] ∧
      RolloutWriterState.Kept tallyFormat () (.forNewRollout (some 0)) [()] writer.state :=
  ⟨rfl, RolloutWriter.file_and_queue_hold_all tallyFormat_lawful
    (failingOnce_cutsRecords (Nat.le_refl 2)) () (some 0) [.addItems [()], .persist] rfl⟩

/-- The write of the item fails when only the line break is missing, and the
item is in the file twice with the same ordinal. -/
theorem item_repeated_after_failed_write :
    (((RolloutWriter.new () (some 0)).performAll tallyFormat
      (failingOnce 2 1) [.addItems [()]]).perform tallyFormat
        (failingOnce 2 1) .persist).2 = some true ∧
    tallyFormat.records (((RolloutWriter.new () (some 0)).performAll
      tallyFormat (failingOnce 2 1) [.addItems [()]]).perform tallyFormat
        (failingOnce 2 1) .persist).1.state.disk.contents =
      [⟨(), some 0, .sessionMeta () none⟩, ⟨(), some 1, .item ()⟩, ⟨(), some 1, .item ()⟩] := by
  decide

end Tally

end Hexa.Rollout
