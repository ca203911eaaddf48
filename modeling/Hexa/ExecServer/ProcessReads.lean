/-
The read responses of the server: it numbers the events of a process, keeps
the newest chunks of the output, and tells of the exit and the close, but not
where in the sequence they were.
-/
import Hexa.Lib.Runs
import Hexa.ExecServer.EventRecovery

namespace Hexa.ExecServer

open List RunningProcess ProcessHistory Bool

def outputs (events : List ExecProcessEvent) : List ProcessOutputChunk :=
  events.filterMap fun
    | .output chunk => some chunk
    | _ => none

def exitCodeIn (events : List ExecProcessEvent) : Option Int :=
  events.findSome? fun
    | .exited _ exitCode _ => some exitCode
    | _ => none

/-- A response to a read of what comes after `afterSeq`, made when `time` of
the events had happened and `retained` was what was left of the output. -/
structure ReadAt (history : ProcessHistory) (afterSeq time : Nat)
    (retained : List ProcessOutputChunk) (response : ReadResponse) : Prop where
  time_le : time ≤ history.events.length
  kept : retained <:+ outputs (history.events.take time)
  bytes : (retained.map fun chunk => chunk.chunk.length).sum ≤ retainedOutputBytesPerProcess
  chunks : response.chunks = retained.filter fun chunk => afterSeq < chunk.seq
  nextSeq : response.nextSeq = time + 1
  exitCode : response.exitCode = exitCodeIn (history.events.take time)
  exited : response.exited = response.exitCode.isSome
  closed : response.closed = (history.events.take time).any ExecProcessEvent.isClosed
  failure : response.failure = none

/-- A response that the server can give, whatever it was asked for and
whatever it has retained. -/
def ServerRead (history : ProcessHistory) (response : ReadResponse) : Prop :=
  ∃ afterSeq time retained, ReadAt history afterSeq time retained response

section Reads

variable {history : ProcessHistory} {events : List ExecProcessEvent} {chunk : ProcessOutputChunk}

theorem mem_outputs_iff : chunk ∈ outputs events ↔ .output chunk ∈ events := by
  simp only [outputs, mem_filterMap]
  constructor
  · rintro ⟨event, hmem, hevent⟩
    cases event with
    | output other =>
      obtain rfl := Option.some.inj hevent
      exact hmem
    | exited seq exitCode denied | closed seq | failed message => cases hevent
  · intro hmem
    exact ⟨_, hmem, rfl⟩

section

variable (events : List ExecProcessEvent) (event : ExecProcessEvent)

theorem outputs_concat : outputs (events ++ [event]) = outputs events ++ outputs [event] :=
  filterMap_append

theorem exitCodeIn_concat :
    exitCodeIn (events ++ [event]) = (exitCodeIn events).or (exitCodeIn [event]) :=
  findSome?_append

end

/-- An output among the first events, at its place. -/
theorem ProcessHistory.plainAt_of_mem_take {time : Nat} {event : ExecProcessEvent} {seq : Nat}
    (hmem : event ∈ history.events.take time) (hseq : event.seq = some seq) :
    history.plainAt seq = some event.plain ∧ 0 < seq ∧ seq ≤ time := by
  obtain ⟨index, hindex⟩ := List.mem_iff_getElem?.mp hmem
  have hlt := (List.getElem?_eq_some_iff.mp hindex).1
  rw [length_take] at hlt
  rw [List.getElem?_take_of_lt (by omega)] at hindex
  have hindexSeq := history.consecutive _ _ hindex
  rw [hseq] at hindexSeq
  obtain rfl := Option.some.inj hindexSeq
  refine ⟨?_, Nat.succ_pos _, by omega⟩
  rw [plainAt, Nat.add_sub_cancel, hindex]
  rfl

theorem ProcessHistory.outputs_sorted (history : ProcessHistory) (time : Nat) :
    (outputs (history.events.take time)).Pairwise fun first second => first.seq < second.seq := by
  induction time with
  | zero => exact List.Pairwise.nil
  | succ time ih =>
    rw [take_add_one]
    cases hevent : history.events[time]? with
    | none =>
      rw [Option.toList_none, append_nil]
      exact ih
    | some event =>
      rw [Option.toList_some, outputs_concat, pairwise_append]
      refine ⟨ih, ?_, fun first hfirst second hsecond => ?_⟩
      · cases event <;> simp [outputs]
      · have hlast := mem_singleton.mp (mem_outputs_iff.mp hsecond)
        have hseq := history.consecutive _ _ hevent
        rw [← hlast] at hseq
        have hsecondSeq : second.seq = time + 1 := Option.some.inj hseq
        have hfirstSeq := (plainAt_of_mem_take (mem_outputs_iff.mp hfirst) rfl).2.2
        omega

/-- An exit code comes from the one exit event. -/
theorem ProcessHistory.exit_of_exitCodeIn {time : Nat} {exitCode : Int}
    (hexit : exitCodeIn (history.events.take time) = some exitCode) :
    history.plainAt history.exitSeq = some (.exited history.exitSeq exitCode none) ∧
      history.exitSeq ≤ time := by
  obtain ⟨event, hmem, hevent⟩ := exists_of_findSome?_eq_some hexit
  cases event with
  | exited seq code denied =>
    obtain rfl := Option.some.inj hevent
    obtain ⟨hplain, hpos, hle⟩ := plainAt_of_mem_take hmem rfl
    have hseq := (isExited_iff hpos hplain).mp rfl
    subst hseq
    exact ⟨hplain, hle⟩
  | output chunk | closed seq | failed message => cases hevent

/-- What a response of the server says is true of the history. -/
theorem ServerRead.reads {response : ReadResponse} (hread : ServerRead history response) :
    Reads history response := by
  obtain ⟨afterSeq, time, retained, hread⟩ := hread
  have htarget : response.nextSeq - 1 = time := by rw [hread.nextSeq, Nat.add_sub_cancel]
  have hretained (chunk : ProcessOutputChunk)
      (hchunk : chunk ∈ response.chunks) : chunk ∈ retained := by
    rw [hread.chunks] at hchunk
    exact mem_of_mem_filter hchunk
  have hchunk (chunk : ProcessOutputChunk) (hchunk : chunk ∈ response.chunks) :=
    plainAt_of_mem_take (mem_outputs_iff.mp (hread.kept.subset (hretained chunk hchunk))) rfl
  refine ⟨fun chunk hmem => (hchunk chunk hmem).1,
    fun chunk hmem => (hchunk chunk hmem).2.1, fun chunk hmem => ?_,
    fun chunk hmem => ?_, ?_, fun hexited => ?_, fun hclosed => ?_,
    hread.failure⟩
  · rw [htarget]
    exact (hchunk chunk hmem).2.2
  · exact (single_le_sum (fun _ _ => Nat.zero_le _) _
      (mem_map_of_mem (hretained chunk hmem))).trans hread.bytes
  · rw [hread.chunks]
    exact ((history.outputs_sorted time).sublist hread.kept.sublist).filter _
  · rw [hread.exited, Option.isSome_iff_exists] at hexited
    obtain ⟨exitCode, hexitCode⟩ := hexited
    refine ⟨exitCode, hexitCode, ?_⟩
    rw [htarget]
    exact exit_of_exitCodeIn (hread.exitCode.symm.trans hexitCode)
  · rw [hread.closed, any_eq_true] at hclosed
    obtain ⟨event, hmem, hclosed⟩ := hclosed
    cases event with
  | closed seq =>
    obtain ⟨hplain, hpos, hle⟩ := plainAt_of_mem_take hmem rfl
    have hlast := (isClosed_iff hpos hplain).mp rfl
    have htime := hread.time_le
    omega
  | output chunk | exited seq exitCode denied | failed message => cases hclosed

end Reads

/-- A process of the server with the events that it has emitted. -/
structure ServerProcess where
  process : RunningProcess
  log : List ExecProcessEvent := []

/-- What the tasks of a process do: the ones that read its streams, and the
one that waits for its exit.  Each of them tries to close it in the end. -/
inductive ServerAction where
  | output (stream : ExecOutputStream) (chunk : Bytes)
  | exit (exitCode : Int) (denied : Bool)
  | finishStream
  | close

namespace ServerProcess

/-- Output comes from a stream that is still open, and the exit is watched
once. -/
def perform (server : ServerProcess) : ServerAction → Option ServerProcess
  | .output stream chunk =>
    if server.process.openStreams = 0 then none
    else
      let next := server.process.streamOutput stream chunk
      some ⟨next.1, server.log ++ [next.2]⟩
  | .exit exitCode denied =>
    if server.process.exitCode ≠ none then none
    else
      let next := server.process.watchExit exitCode denied
      some ⟨next.1, server.log ++ [next.2]⟩
  | .finishStream =>
    if server.process.openStreams = 0 then none
    else some { server with process := server.process.finishOutputStream }
  | .close =>
    let next := server.process.maybeEmitClosed
    some ⟨next.1, server.log ++ next.2.toList⟩

def Step (server : ServerProcess) (action : ServerAction) (next : ServerProcess) : Prop :=
  server.perform action = some next

/-- What the fields of the process tell of its events. -/
structure Recorded (server : ServerProcess) : Prop where
  nextSeq : server.process.nextSeq = server.log.length + 1
  consecutive : ∀ (index : Nat) (event : ExecProcessEvent),
    server.log[index]? = some event → event.seq = some (index + 1)
  kept : server.process.output <:+ outputs server.log
  bytes_eq : server.process.retainedBytes =
    (server.process.output.map fun chunk => chunk.chunk.length).sum
  bytes_le : server.process.retainedBytes ≤ retainedOutputBytesPerProcess
  exitCode : server.process.exitCode = exitCodeIn server.log
  exit_unique : ∀ (first second : Nat) (event other : ExecProcessEvent),
    server.log[first]? = some event → server.log[second]? = some other →
    event.isExited = true → other.isExited = true → first = second
  closed : server.process.closed = server.log.any ExecProcessEvent.isClosed
  closed_last : ∀ (index : Nat) (event : ExecProcessEvent),
    server.log[index]? = some event → event.isClosed = true → index + 1 = server.log.length
  ended : server.process.closed = true →
    server.process.openStreams = 0 ∧ server.process.exitCode ≠ none

theorem recorded_initial (openStreams : Nat) : Recorded ⟨{ openStreams := openStreams }, []⟩ := by
  constructor <;> simp [exitCodeIn]

/-- The dropped chunks are the oldest, and the rest is within the bound. -/
theorem evict_spec (chunks : List ProcessOutputChunk) (bytes : Nat)
    (hbytes : bytes = (chunks.map fun chunk => chunk.chunk.length).sum) :
    (evict chunks bytes).1 <:+ chunks ∧
      (evict chunks bytes).2 = ((evict chunks bytes).1.map fun chunk => chunk.chunk.length).sum ∧
      (evict chunks bytes).2 ≤ retainedOutputBytesPerProcess := by
  induction chunks generalizing bytes with
  | nil =>
    subst hbytes
    exact ⟨suffix_rfl, rfl, Nat.zero_le _⟩
  | cons oldest rest ih =>
    rw [evict]
    split
    · have hrest : bytes - oldest.chunk.length =
          (rest.map fun chunk => chunk.chunk.length).sum := by
        rw [hbytes, map_cons, sum_cons, Nat.add_sub_cancel_left]
      obtain ⟨hsuffix, hsum, hle⟩ := ih _ hrest
      exact ⟨hsuffix.trans (suffix_cons _ _), hsum, hle⟩
    next hkeep => exact ⟨suffix_rfl, hbytes, Nat.le_of_not_lt (not_or.mp hkeep).1⟩

/-- The events are numbered on. -/
theorem getElem?_concat {log : List ExecProcessEvent} {event found : ExecProcessEvent}
    {index : Nat} (hfound : (log ++ [event])[index]? = some found) :
    log[index]? = some found ∨ (index = log.length ∧ found = event) := by
  rcases Nat.lt_or_ge index log.length with hlt | hge
  · rw [List.getElem?_append_left hlt] at hfound
    exact .inl hfound
  · rw [List.getElem?_append_right hge] at hfound
    have hindex := (List.getElem?_eq_some_iff.mp hfound).1
    rw [length_singleton] at hindex
    have hzero : index - log.length = 0 := by omega
    rw [hzero] at hfound
    exact .inr ⟨by omega, (Option.some.inj hfound).symm⟩

variable {server next : ServerProcess} {action : ServerAction}

/-- An event that is numbered next, with the process still open. -/
theorem Recorded.emit (hrecorded : Recorded server) (hopen : server.process.closed = false)
    {process : RunningProcess} {event : ExecProcessEvent}
    (hseq : event.seq = some server.process.nextSeq)
    (hnext : process.nextSeq = server.process.nextSeq + 1)
    (hkept : process.output <:+ outputs (server.log ++ [event]))
    (hbytes : process.retainedBytes = (process.output.map fun chunk => chunk.chunk.length).sum)
    (hle : process.retainedBytes ≤ retainedOutputBytesPerProcess)
    (hexit : process.exitCode = exitCodeIn (server.log ++ [event]))
    (hunique : event.isExited = true → server.process.exitCode = none)
    (hclosed : process.closed = event.isClosed)
    (hended : process.closed = true → process.openStreams = 0 ∧ process.exitCode ≠ none) :
    Recorded ⟨process, server.log ++ [event]⟩ := by
  have hnone : ∀ event ∈ server.log, event.isClosed = false := by
    rw [hrecorded.closed] at hopen
    simpa using hopen
  refine ⟨?_, fun index found hfound => ?_, hkept, hbytes, hle, hexit, ?_, ?_,
    fun index found hfound hfoundClosed => ?_, hended⟩
  · rw [hnext, hrecorded.nextSeq, length_append]
    rfl
  · rcases getElem?_concat hfound with hold | ⟨rfl, rfl⟩
    · exact hrecorded.consecutive _ _ hold
    · rw [hseq, hrecorded.nextSeq]
  · have hlast (found : ExecProcessEvent) (hfound : found ∈ server.log)
        (hfoundExited : found.isExited = true) : event.isExited = false := by
      by_contra hexited
      have hnoExit := hrecorded.exitCode.symm.trans (hunique (not_eq_false _ ▸ hexited))
      have hfoundNone := findSome?_eq_none_iff.mp hnoExit found hfound
      cases found <;> simp_all [ExecProcessEvent.isExited]
    intro first second found other hfound hother hfoundExited hotherExited
    rcases getElem?_concat hfound with hold | ⟨rfl, rfl⟩ <;>
      rcases getElem?_concat hother with hotherOld | ⟨rfl, rfl⟩
    · exact hrecorded.exit_unique _ _ _ _ hold hotherOld hfoundExited hotherExited
    · rw [hlast found (mem_of_getElem? hold) hfoundExited] at hotherExited
      cases hotherExited
    · rw [hlast other (mem_of_getElem? hotherOld) hotherExited] at hfoundExited
      cases hfoundExited
    · rfl
  · rw [any_append, hclosed, ← hrecorded.closed, hopen]
    simp
  · rcases getElem?_concat hfound with hold | ⟨rfl, rfl⟩
    · rw [hnone found (mem_of_getElem? hold)] at hfoundClosed
      cases hfoundClosed
    · rw [length_append]
      rfl

theorem Recorded.step (hrecorded : Recorded server) (hstep : Step server action next) :
    Recorded next := by
  cases action with
  | output stream chunk =>
    obtain ⟨hstreams, hnext⟩ := Option.ite_none_left_eq_some.mp hstep
    obtain rfl := Option.some.inj hnext
    have hopen : server.process.closed = false := by
      by_contra hclosed
      exact hstreams (hrecorded.ended (not_eq_false _ ▸ hclosed)).1
    obtain ⟨hsuffix, hsum, hle⟩ := evict_spec
      (server.process.output ++ [⟨server.process.nextSeq, stream, chunk⟩])
      (server.process.retainedBytes + chunk.length)
      (by simp [hrecorded.bytes_eq])
    refine hrecorded.emit hopen rfl rfl (hsuffix.trans ?_) hsum hle ?_
      (fun hexited => by cases hexited) hopen fun hclosed => ?_
    · obtain ⟨dropped, hdropped⟩ := hrecorded.kept
      refine ⟨dropped, ?_⟩
      rw [outputs_concat, ← hdropped, append_assoc]
      rfl
    · rw [exitCodeIn_concat]
      exact hrecorded.exitCode.trans Option.or_none.symm
    · exact absurd (hopen.symm.trans hclosed) false_ne_true
  | exit exitCode denied =>
    obtain ⟨hexit, hnext⟩ := Option.ite_none_left_eq_some.mp hstep
    obtain rfl := Option.some.inj hnext
    have hnone := not_not.mp hexit
    have hopen : server.process.closed = false := by
      by_contra hclosed
      exact (hrecorded.ended (not_eq_false _ ▸ hclosed)).2 hnone
    refine hrecorded.emit hopen rfl rfl ?_ hrecorded.bytes_eq
      hrecorded.bytes_le ?_ (fun _ => hnone) hopen fun hclosed => ?_
    · rw [outputs_concat]
      exact hrecorded.kept.trans (append_nil _ ▸ suffix_rfl)
    · rw [exitCodeIn_concat, ← hrecorded.exitCode, hnone]
      rfl
    · exact absurd (hopen.symm.trans hclosed) false_ne_true
  | finishStream =>
    obtain ⟨hstreams, hnext⟩ := Option.ite_none_left_eq_some.mp hstep
    obtain rfl := Option.some.inj hnext
    refine ⟨hrecorded.nextSeq, hrecorded.consecutive, hrecorded.kept,
      hrecorded.bytes_eq, hrecorded.bytes_le, hrecorded.exitCode,
      hrecorded.exit_unique, hrecorded.closed, hrecorded.closed_last,
      fun hclosed => ?_⟩
    exact absurd (hrecorded.ended hclosed).1 hstreams
  | close =>
    obtain rfl := Option.some.inj hstep
    rw [maybeEmitClosed]
    split
    · rw [Option.toList_none, append_nil]
      exact hrecorded
    next hready =>
      obtain ⟨hclosed, hstreams, hexit⟩ := (not_or.mp hready).imp_right not_or.mp
      refine hrecorded.emit (not_eq_true _ ▸ hclosed) rfl rfl ?_
        hrecorded.bytes_eq hrecorded.bytes_le ?_
        (fun hexited => by cases hexited) rfl
        fun _ => ⟨not_not.mp hstreams, hexit⟩
      · rw [outputs_concat]
        exact hrecorded.kept.trans (append_nil _ ▸ suffix_rfl)
      · rw [exitCodeIn_concat]
        exact hrecorded.exitCode.trans Option.or_none.symm

theorem Recorded.run {actions : List ServerAction} (hrecorded : Recorded server)
    (hrun : Run Step server actions next) : Recorded next :=
  hrun.invariant (fun _ _ _ hstep hfirst => hfirst.step hstep) hrecorded

/-- A read without a limit takes everything that is retained. -/
theorem takeChunks_none (retained chunks : List ProcessOutputChunk) (totalBytes nextSeq : Nat) :
    (takeChunks none retained chunks totalBytes nextSeq).1 = chunks ++ retained := by
  induction retained generalizing chunks totalBytes nextSeq with
  | nil => simp [takeChunks]
  | cons chunk retained ih => simp [takeChunks, ih]

/-- A read of a running process is one of any history that goes on from what it
has emitted. -/
theorem Recorded.serverRead (hrecorded : Recorded server) {history : ProcessHistory}
    (hlog : server.log <+: history.events) (afterSeq : Nat) :
    ServerRead history (server.process.execRead afterSeq none) := by
  have htake := prefix_iff_eq_take.mp hlog
  refine ⟨afterSeq, server.log.length, server.process.output, hlog.length_le,
    ?_, ?_, ?_, ?_, ?_, rfl, ?_, rfl⟩
  · rw [← htake]
    exact hrecorded.kept
  · rw [← hrecorded.bytes_eq]
    exact hrecorded.bytes_le
  · exact takeChunks_none _ _ _ _
  · exact hrecorded.nextSeq
  · rw [← htake]
    exact hrecorded.exitCode
  · rw [← htake]
    exact hrecorded.closed

/-- What a process has emitted when it is closed is a history. -/
theorem Recorded.history (hrecorded : Recorded server) (hclosed : server.process.closed = true) :
    ∃ history : ProcessHistory, history.events = server.log := by
  refine ⟨⟨server.log, hrecorded.consecutive, ?_, hrecorded.exit_unique,
    fun index event hevent => ⟨hrecorded.closed_last _ _ hevent, fun hlast => ?_⟩⟩, rfl⟩
  · have hexit := (hrecorded.ended hclosed).2
    rw [hrecorded.exitCode] at hexit
    obtain ⟨exitCode, hexitCode⟩ := Option.ne_none_iff_exists'.mp hexit
    obtain ⟨event, hmem, hevent⟩ := exists_of_findSome?_eq_some hexitCode
    refine ⟨event, hmem, ?_⟩
    cases event <;> simp_all [ExecProcessEvent.isExited]
  · rw [hrecorded.closed, any_eq_true] at hclosed
    obtain ⟨found, hmem, hfound⟩ := hclosed
    obtain ⟨place, hplace⟩ := mem_iff_getElem?.mp hmem
    have hsame := hrecorded.closed_last _ _ hplace hfound
    obtain rfl : place = index := by omega
    rw [hplace] at hevent
    rw [← Option.some.inj hevent]
    exact hfound

variable {openStreams : Nat} {actions : List ServerAction}

/-- Whatever the order in which the tasks of a process act, its events are
numbered without a gap, what it has emitted when it is closed is a history, and
a read is one of every history that it may still become. -/
theorem server_emits_history (hrun : Run Step ⟨{ openStreams }, []⟩ actions server) :
    Recorded server ∧
      (server.process.closed = true → ∃ history : ProcessHistory, history.events = server.log) ∧
      ∀ (history : ProcessHistory) (afterSeq : Nat), server.log <+: history.events →
        ServerRead history (server.process.execRead afterSeq none) := by
  have hrecorded := (recorded_initial openStreams).run hrun
  exact ⟨hrecorded, hrecorded.history, fun history afterSeq hlog => hrecorded.serverRead hlog _⟩

/-- A chunk, the exit and the close. -/
def shortRun : List ServerAction := [.output .pty [0], .exit 0 false, .finishStream, .close]

theorem server_emits_history_shortRun : ∃ (server : ServerProcess) (history : ProcessHistory),
    Run Step ⟨{ openStreams := 1 }, []⟩ shortRun server ∧ history.events = server.log := by
  have hrun := Run.of_performAll (rfl : performAll perform ⟨{ openStreams := 1 }, []⟩
    shortRun = some _)
  obtain ⟨history, hevents⟩ := (server_emits_history hrun).2.1 rfl
  exact ⟨_, history, hrun, hevents⟩

end ServerProcess

end Hexa.ExecServer
