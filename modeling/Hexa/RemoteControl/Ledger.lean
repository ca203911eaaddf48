/-
The connections of the remote-control transport as a ledger: which connection
each key holds, which closes are still to be sent, and what the transport has
been sent.
-/
import Hexa.RemoteControl.ClientTracker

namespace Hexa.RemoteControl

open List Function

section Transport

variable {Message : Type}

def TransportEvent.connectionId : TransportEvent Message → ConnectionId
  | .connectionOpened connectionId => connectionId
  | .connectionClosed connectionId => connectionId
  | .incomingMessage connectionId _ _ => connectionId

def TransportEvent.isMessage : TransportEvent Message → Bool
  | .incomingMessage .. => true
  | _ => false

/-- What the transport has been sent for one connection. -/
def eventsOf (transport : List (TransportEvent Message)) (connectionId : ConnectionId) :
    List (TransportEvent Message) :=
  transport.filter (fun event => decide (event.connectionId = connectionId))

variable (starts : Message → Bool)

/-- The seq id of a message that is not `initialize`. -/
def TransportEvent.seqOf :
    TransportEvent Message → Option Nat
  | .incomingMessage _ message seqId => if starts message then none else seqId
  | _ => none

variable (transport : List (TransportEvent Message))

def seqIds (connectionId : ConnectionId) : List Nat :=
  (eventsOf transport connectionId).filterMap (TransportEvent.seqOf starts)

variable (events : List (TransportEvent Message))

/-- The events of a connection that has not been closed. -/
def OpenLog (connectionId : ConnectionId) : Prop :=
  ∃ messages : List (TransportEvent Message), (∀ event ∈ messages, event.isMessage = true) ∧
      events = .connectionOpened connectionId :: messages

/-- `ConnectionOpened` first, then messages, then at most one
`ConnectionClosed`. -/
def Lifecycle (connectionId : ConnectionId) : Prop :=
  events = [] ∨ OpenLog events connectionId ∨
    ∃ before, OpenLog before connectionId ∧ events = before ++ [.connectionClosed connectionId]

variable {connectionId : ConnectionId}

theorem eventsOf_append_self (event : TransportEvent Message)
    (hevent : event.connectionId = connectionId) :
    eventsOf (transport ++ [event]) connectionId =
      eventsOf transport connectionId ++ [event] := by
  simp [eventsOf, hevent]

variable {event : TransportEvent Message}

theorem eventsOf_append_ne (hevent : event.connectionId ≠ connectionId) :
    eventsOf (transport ++ [event]) connectionId = eventsOf transport connectionId := by
  simp [eventsOf, hevent]

/-- An event that is not a message of its own seq id adds none. -/
theorem seqIds_append (event : TransportEvent Message) (connectionId : ConnectionId) :
    seqIds starts (transport ++ [event]) connectionId = seqIds starts transport connectionId ++
        (if event.connectionId = connectionId then event.seqOf starts else none).toList := by
  unfold seqIds
  by_cases hevent : event.connectionId = connectionId
  · rw [eventsOf_append_self transport event hevent, if_pos hevent]
    cases hseq : event.seqOf starts <;> simp [hseq]
  · rw [eventsOf_append_ne transport hevent, if_neg hevent]
    simp

theorem seqIds_append_of_none (connectionId : ConnectionId) (hevent : event.seqOf starts = none) :
    seqIds starts (transport ++ [event]) connectionId = seqIds starts transport connectionId := by
  rw [seqIds_append, hevent]
  simp

theorem OpenLog.append {events : List (TransportEvent Message)}
    (hopen : OpenLog events connectionId) (hmessage : event.isMessage = true) :
    OpenLog (events ++ [event]) connectionId := by
  obtain ⟨messages, hmessages, rfl⟩ := hopen
  refine ⟨messages ++ [event], ?_, rfl⟩
  exact forall_mem_append.mpr ⟨hmessages, forall_mem_singleton.mpr hmessage⟩

end Transport

/-- The ledger, over any type of keys. -/
structure Ledger (Key Message : Type) where
  slots : Key → Option (ConnectionId × Option Nat)
  nextConnectionId : ConnectionId
  closing : List ConnectionId
  transport : List (TransportEvent Message)

namespace Ledger

variable {Key Message : Type} (ledger : Ledger Key Message)

def openAt (key : Key) : Option ConnectionId := (ledger.slots key).map Prod.fst

theorem openAt_of_slots {ledger : Ledger Key Message} {key : Key} {connectionId : ConnectionId}
    {last : Option Nat} (hslot : ledger.slots key = some (connectionId, last)) :
    ledger.openAt key = some connectionId := by
  rw [openAt, hslot]
  rfl

variable (connectionId : ConnectionId)

/-- A connection that is open, or whose close is still to be sent. -/
def Live : Prop := (∃ key, ledger.openAt key = some connectionId) ∨ connectionId ∈ ledger.closing

def new : Ledger Key Message := ⟨fun _ => none, 0, [], []⟩

def emit (event : TransportEvent Message) : Ledger Key Message :=
  { ledger with transport := ledger.transport ++ [event] }

def take : Ledger Key Message := { ledger with nextConnectionId := ledger.nextConnectionId + 1 }

def push : Ledger Key Message := { ledger with closing := connectionId :: ledger.closing }

def pop : Ledger Key Message := { ledger with closing := ledger.closing.erase connectionId }

variable {first second : Ledger Key Message} {connectionId : ConnectionId}

/-- A connection is open for one key at most, or its close is waiting once;
connection ids that have not been given are not in use. -/
structure Registry : Prop where
  unique : ∀ key other connectionId, ledger.openAt key = some connectionId →
    ledger.openAt other = some connectionId → key = other
  apart : ∀ key connectionId, ledger.openAt key = some connectionId →
    connectionId ∉ ledger.closing
  nodup : ledger.closing.Nodup
  below : ∀ connectionId, ledger.Live connectionId → connectionId < ledger.nextConnectionId

theorem Registry.congr (hfirst : first.Registry) (hopen : second.openAt = first.openAt)
    (hclosing : second.closing = first.closing)
    (hnext : first.nextConnectionId ≤ second.nextConnectionId) :
    second.Registry where
  unique := by rw [hopen]; exact hfirst.unique
  apart := by rw [hopen, hclosing]; exact hfirst.apart
  nodup := by rw [hclosing]; exact hfirst.nodup
  below := by
    intro connectionId hlive
    rw [Live, hopen, hclosing] at hlive
    exact lt_of_lt_of_le (hfirst.below connectionId hlive) hnext

/-- What the transport has been sent agrees with what is live. -/
structure Logged : Prop where
  fresh : ∀ connectionId, ledger.nextConnectionId ≤ connectionId →
    eventsOf ledger.transport connectionId = []
  live : ∀ connectionId, ledger.Live connectionId →
    OpenLog (eventsOf ledger.transport connectionId) connectionId
  lifecycle : ∀ connectionId, Lifecycle (eventsOf ledger.transport connectionId) connectionId

/-- No close has been sent for a connection that is live. -/
theorem Logged.closed_notMem (hfirst : first.Logged) (hlive : first.Live connectionId) :
    .connectionClosed connectionId ∉ first.transport := by
  intro hsent
  obtain ⟨messages, hmessages, hevents⟩ := hfirst.live connectionId hlive
  have hlogged : .connectionClosed connectionId ∈ eventsOf first.transport connectionId :=
    mem_filter.mpr ⟨hsent, decide_eq_true rfl⟩
  rw [hevents] at hlogged
  rcases mem_cons.mp hlogged with hfirst | hmessage
  · cases hfirst
  · exact absurd (hmessages _ hmessage) (by simp [TransportEvent.isMessage])

/-- An event for a connection that has been given, and its own log. -/
theorem Logged.append (hfirst : first.Logged) {event : TransportEvent Message}
    (htransport : second.transport = first.transport ++ [event])
    (hnext : first.nextConnectionId ≤ second.nextConnectionId)
    (hgiven : event.connectionId < second.nextConnectionId)
    (hlive : ∀ other, second.Live other → other ≠ event.connectionId → first.Live other)
    (hopen : second.Live event.connectionId →
      OpenLog (eventsOf second.transport event.connectionId) event.connectionId)
    (hlifecycle : Lifecycle (eventsOf second.transport event.connectionId)
      event.connectionId) : second.Logged := by
  have hothers : ∀ other, other ≠ event.connectionId →
      eventsOf second.transport other = eventsOf first.transport other := by
    intro other hother
    rw [htransport, eventsOf_append_ne _ hother.symm]
  refine ⟨?_, ?_, ?_⟩
  · intro other hfresh
    rw [hothers other (Nat.ne_of_gt (Nat.lt_of_lt_of_le hgiven hfresh))]
    exact hfirst.fresh other (Nat.le_trans hnext hfresh)
  · intro other hother
    by_cases hself : other = event.connectionId
    · subst hself
      exact hopen hother
    · rw [hothers other hself]
      exact hfirst.live other (hlive other hother hself)
  · intro other
    by_cases hself : other = event.connectionId
    · subst hself
      exact hlifecycle
    · rw [hothers other hself]
      exact hfirst.lifecycle other

theorem Registry.push (hfirst : first.Registry) (hfree : ¬ first.Live connectionId)
    (hbelow : connectionId < first.nextConnectionId) :
    (first.push connectionId).Registry where
  unique := hfirst.unique
  apart := by
    intro key other hopen hclosing
    rcases mem_cons.mp hclosing with rfl | hclosing
    · exact hfree (.inl ⟨key, hopen⟩)
    · exact hfirst.apart key other hopen hclosing
  nodup := nodup_cons.mpr ⟨fun hclosing => hfree (.inr hclosing), hfirst.nodup⟩
  below := by
    rintro other (hopen | hclosing)
    · exact hfirst.below other (.inl hopen)
    · rcases mem_cons.mp hclosing with rfl | hclosing
      · exact hbelow
      · exact hfirst.below other (.inr hclosing)

theorem live_of_live_pop {other : ConnectionId} (hlive : (first.pop connectionId).Live other) :
    first.Live other := by
  rcases hlive with hopen | hclosing
  · exact .inl hopen
  · exact .inr (mem_of_mem_erase hclosing)

theorem Registry.not_live_pop (hfirst : first.Registry)
    (hclosing : connectionId ∈ first.closing) : ¬ (first.pop connectionId).Live connectionId := by
  rintro (⟨key, hopen⟩ | hwaiting)
  · exact hfirst.apart key connectionId hopen hclosing
  · exact hfirst.nodup.not_mem_erase hwaiting

theorem Registry.pop (hfirst : first.Registry) (connectionId : ConnectionId) :
    (first.pop connectionId).Registry where
  unique := hfirst.unique
  apart := fun key other hopen hclosing =>
    hfirst.apart key other hopen (mem_of_mem_erase hclosing)
  nodup := hfirst.nodup.erase connectionId
  below := fun other hlive => hfirst.below other (live_of_live_pop hlive)

variable [DecidableEq Key] (ledger : Ledger Key Message)

def setSlot (key : Key) (slot : Option (ConnectionId × Option Nat)) : Ledger Key Message :=
  { ledger with slots := Function.update ledger.slots key slot }

theorem openAt_setSlot (key : Key) (slot : Option (ConnectionId × Option Nat)) (other : Key) :
    (ledger.setSlot key slot).openAt other =
      if other = key then slot.map Prod.fst else ledger.openAt other := by
  simp only [openAt, setSlot, update_apply]
  split_ifs <;> rfl

variable {key : Key}

/-- A slot that keeps its connection changes nothing of what is open. -/
theorem openAt_setSlot_self (last : Option Nat) (hopen : ledger.openAt key = some connectionId) :
    (ledger.setSlot key (some (connectionId, last))).openAt = ledger.openAt := by
  funext other
  rw [openAt_setSlot]
  split_ifs with hother
  · rw [hother, hopen]
    rfl
  · rfl

theorem live_of_live_free (hlive : (first.setSlot key none).Live connectionId) :
    first.Live connectionId := by
  rcases hlive with ⟨other, hopen⟩ | hclosing
  · rw [openAt_setSlot] at hopen
    split_ifs at hopen
    · simp at hopen
    · exact .inl ⟨other, hopen⟩
  · exact .inr hclosing

/-- The connection of a key that is given up is not live any more. -/
theorem Registry.not_live_free (hfirst : first.Registry)
    (hopen : first.openAt key = some connectionId) :
    ¬ (first.setSlot key none).Live connectionId := by
  rintro (⟨other, hother⟩ | hclosing)
  · rw [openAt_setSlot] at hother
    split_ifs at hother with hkey
    · simp at hother
    · exact hkey (hfirst.unique other key connectionId hother hopen)
  · exact hfirst.apart key connectionId hopen hclosing

theorem Registry.free (hfirst : first.Registry) (key : Key) :
    (first.setSlot key none).Registry where
  unique := by
    intro other third connectionId hother hthird
    rw [openAt_setSlot] at hother hthird
    have hunique := hfirst.unique other third connectionId
    grind
  apart := by
    intro other connectionId hother
    rw [openAt_setSlot] at hother
    split_ifs at hother
    · simp at hother
    · exact hfirst.apart other connectionId hother
  nodup := hfirst.nodup
  below := fun connectionId hlive => hfirst.below connectionId (live_of_live_free hlive)

/-- The next connection id is given to one key. -/
theorem Registry.opened (hfirst : first.Registry) (key : Key) :
    ((first.take).setSlot key (some (first.nextConnectionId, none))).Registry where
  unique := by
    have hbelow : ∀ other, first.openAt other ≠ some first.nextConnectionId := fun other hopen =>
      lt_irrefl _ (hfirst.below _ (.inl ⟨other, hopen⟩))
    intro other third connectionId hother hthird
    rw [openAt_setSlot] at hother hthird
    have hunique := hfirst.unique other third connectionId
    have htaken : first.take.openAt = first.openAt := rfl
    rw [htaken] at hother hthird
    grind
  apart := by
    intro other connectionId hother hclosing
    rw [openAt_setSlot] at hother
    split_ifs at hother
    · cases hother
      exact lt_irrefl _ (hfirst.below _ (.inr hclosing))
    · exact hfirst.apart other connectionId hother hclosing
  nodup := hfirst.nodup
  below := by
    rintro connectionId (⟨other, hother⟩ | hclosing)
    · rw [openAt_setSlot] at hother
      split_ifs at hother
      · cases hother
        exact Nat.lt_succ_self _
      · exact Nat.lt_succ_of_lt (hfirst.below _ (.inl ⟨other, hother⟩))
    · exact Nat.lt_succ_of_lt (hfirst.below _ (.inr hclosing))

/-- What may happen to a connection.  `starts` tells the messages that are
`initialize`. -/
inductive Step (starts : Message → Bool) (first : Ledger Key Message) :
    Ledger Key Message → Prop where
  | opened (key : Key) (hfree : first.slots key = none) :
      Step starts first
        ((first.take.emit (.connectionOpened first.nextConnectionId)).setSlot
          key (some (first.nextConnectionId, none)))
  | unopened : Step starts first first.take
  | initialized (key : Key) (connectionId : ConnectionId) (message : Message)
      (seqId last : Option Nat)
      (hslot : first.slots key = some (connectionId, none))
      (hstarts : starts message = true) :
      Step starts first
        ((first.emit (.incomingMessage connectionId message seqId)).setSlot
          key (some (connectionId, last)))
  | message (key : Key) (connectionId : ConnectionId) (message : Message)
      (seqId last : Option Nat)
      (hslot : first.slots key = some (connectionId, last))
      (hplain : starts message = false)
      (hnew : ∀ new ∈ seqId, ∀ old ∈ last, old < new) :
      Step starts first
        ((first.emit (.incomingMessage connectionId message seqId)).setSlot
          key (some (connectionId, seqId.or last)))
  | closed (key : Key) (connectionId : ConnectionId)
      (hopen : first.openAt key = some connectionId) :
      Step starts first ((first.setSlot key none).emit (.connectionClosed connectionId))
  | closedLater (key : Key) (connectionId : ConnectionId)
      (hopen : first.openAt key = some connectionId) :
      Step starts first ((first.setSlot key none).push connectionId)
  | dropped (key : Key) : Step starts first (first.setSlot key none)
  | sent (connectionId : ConnectionId)
      (hclosing : connectionId ∈ first.closing) :
      Step starts first ((first.pop connectionId).emit (.connectionClosed connectionId))
  | lost (connectionId : ConnectionId) :
      Step starts first (first.pop connectionId)

variable {starts : Message → Bool}

theorem Registry.step (hfirst : first.Registry) (hstep : Step starts first second) :
    second.Registry := by
  cases hstep with
  | opened key hfree => exact (hfirst.opened key).congr rfl rfl le_rfl
  | unopened => exact hfirst.congr rfl rfl (Nat.le_succ _)
  | initialized key connectionId message seqId last hslot
  | message key connectionId message seqId last hslot =>
    exact hfirst.congr (openAt_setSlot_self (first.emit _) _ (openAt_of_slots hslot)) rfl le_rfl
  | closed key connectionId hopen => exact (hfirst.free key).congr rfl rfl le_rfl
  | closedLater key connectionId hopen =>
    exact (hfirst.free key).push (hfirst.not_live_free hopen)
      (hfirst.below connectionId (.inl ⟨key, hopen⟩))
  | dropped key => exact hfirst.free key
  | sent connectionId hclosing => exact (hfirst.pop connectionId).congr rfl rfl le_rfl
  | lost connectionId => exact hfirst.pop connectionId

/-- What a step sends, and which connections stay live. -/
inductive Sends (first second : Ledger Key Message) : Prop where
  | nothing (htransport : second.transport = first.transport)
      (hnext : first.nextConnectionId ≤ second.nextConnectionId)
      (hlive : ∀ other, second.Live other → first.Live other)
  | opened (htransport : second.transport = first.transport ++
        [.connectionOpened first.nextConnectionId])
      (hnext : second.nextConnectionId = first.nextConnectionId + 1)
      (hlive : ∀ other, second.Live other → other ≠ first.nextConnectionId → first.Live other)
  | message (event : TransportEvent Message)
      (hmessage : event.isMessage = true)
      (htransport : second.transport = first.transport ++ [event])
      (hnext : second.nextConnectionId = first.nextConnectionId)
      (hsource : first.Live event.connectionId)
      (hlive : ∀ other, second.Live other → first.Live other)
  | closed (connectionId : ConnectionId)
      (htransport : second.transport = first.transport ++ [.connectionClosed connectionId])
      (hnext : second.nextConnectionId = first.nextConnectionId)
      (hsource : first.Live connectionId)
      (hdead : ¬ second.Live connectionId)
      (hlive : ∀ other, second.Live other → first.Live other)

theorem Step.sends (hstep : Step starts first second) (hfirst : first.Registry) :
    Sends first second := by
  cases hstep with
  | opened key hfree =>
    refine Sends.opened rfl rfl ?_
    rintro other (⟨holder, hopen⟩ | hclosing) hother
    · rw [openAt_setSlot] at hopen
      split_ifs at hopen
      · exact absurd (Option.some.inj hopen).symm hother
      · exact .inl ⟨holder, hopen⟩
    · exact .inr hclosing
  | unopened => exact Sends.nothing rfl (Nat.le_succ _) (fun _ => id)
  | initialized key connectionId message seqId last hslot
  | message key connectionId message seqId last hslot =>
    have hopen := openAt_of_slots hslot
    refine Sends.message _ rfl rfl rfl (.inl ⟨key, hopen⟩) (fun other hlive => ?_)
    rw [Live, openAt_setSlot_self (first.emit _) _ hopen] at hlive
    exact hlive
  | closed key connectionId hopen =>
    exact Sends.closed connectionId rfl rfl (.inl ⟨key, hopen⟩)
      (hfirst.not_live_free hopen) (fun _ => live_of_live_free)
  | closedLater key connectionId hopen =>
    refine Sends.nothing rfl le_rfl ?_
    rintro other (hother | hclosing)
    · exact live_of_live_free (.inl hother)
    · rcases mem_cons.mp hclosing with rfl | hclosing
      · exact .inl ⟨key, hopen⟩
      · exact .inr hclosing
  | dropped key => exact Sends.nothing rfl le_rfl (fun _ => live_of_live_free)
  | sent connectionId hclosing =>
    exact Sends.closed connectionId rfl rfl (.inr hclosing)
      (hfirst.not_live_pop hclosing) (fun _ hlive => live_of_live_pop hlive)
  | lost connectionId => exact Sends.nothing rfl le_rfl (fun _ => live_of_live_pop)

theorem Logged.step (hfirst : first.Logged) (hregistry : first.Registry)
    (hstep : Step starts first second) : second.Logged := by
  rcases hstep.sends hregistry with
    ⟨htransport, hnext, hlive⟩ | ⟨htransport, hnext, hlive⟩ |
    ⟨event, hmessage, htransport, hnext, hsource, hlive⟩ |
    ⟨connectionId, htransport, hnext, hsource, hdead, hlive⟩
  · refine ⟨?_, ?_, ?_⟩ <;> rw [htransport]
    · exact fun other hfresh => hfirst.fresh other (Nat.le_trans hnext hfresh)
    · exact fun other hother => hfirst.live other (hlive other hother)
    · exact hfirst.lifecycle
  · have hlog : OpenLog (eventsOf second.transport first.nextConnectionId)
        first.nextConnectionId := by
      refine ⟨[], by simp, ?_⟩
      rw [htransport]
      exact (eventsOf_append_self _ _ rfl).trans (congrArg (· ++ _) (hfirst.fresh _ le_rfl))
    exact hfirst.append htransport (hnext ▸ Nat.le_succ _)
      (hnext ▸ Nat.lt_succ_self _) hlive (fun _ => hlog) (.inr (.inl hlog))
  · have hlog : OpenLog (eventsOf second.transport event.connectionId) event.connectionId := by
      rw [htransport, eventsOf_append_self _ event rfl]
      exact (hfirst.live _ hsource).append hmessage
    exact hfirst.append htransport (Nat.le_of_eq hnext.symm)
      (hnext ▸ hregistry.below _ hsource) (fun other hother _ =>
        hlive other hother) (fun _ => hlog) (.inr (.inl hlog))
  · have hlog : Lifecycle (eventsOf second.transport connectionId)
        connectionId := by
      refine .inr (.inr ⟨_, hfirst.live _ hsource, ?_⟩)
      rw [htransport]
      exact eventsOf_append_self _ _ rfl
    exact hfirst.append htransport (Nat.le_of_eq hnext.symm)
      (hnext ▸ hregistry.below _ hsource) (fun other hother _ =>
        hlive other hother) (fun hother => absurd hother hdead) hlog

/-- On each connection the seq ids rise, up to the last one recorded. -/
structure Ordered (starts : Message → Bool) (ledger : Ledger Key Message) :
    Prop where
  rising : ∀ connectionId, (seqIds starts ledger.transport connectionId).Pairwise (· < ·)
  bounded : ∀ key connectionId last,
    ledger.slots key = some (connectionId, last) →
    ∀ seqId ∈ seqIds starts ledger.transport connectionId, ∃ bound ∈ last, seqId ≤ bound

omit [DecidableEq Key] in
/-- Without a seq id that is new, only the slots that are new matter. -/
theorem Ordered.congr (hfirst : first.Ordered starts)
    (hseqIds : ∀ connectionId, seqIds starts second.transport connectionId =
      seqIds starts first.transport connectionId)
    (hslots : ∀ key connectionId last,
      second.slots key = some (connectionId, last) →
      first.slots key = some (connectionId, last) ∨
        seqIds starts first.transport connectionId = []) : second.Ordered starts := by
  refine ⟨fun connectionId => ?_, ?_⟩
  · rw [hseqIds]
    exact hfirst.rising connectionId
  · intro key connectionId last hslot
    rw [hseqIds]
    rcases hslots key connectionId last hslot with hkept | hnone
    · exact hfirst.bounded key connectionId last hkept
    · simp [hnone]

theorem slots_setSlot_none {other : Key} {slot : ConnectionId × Option Nat}
    (hslot : (first.setSlot key none).slots other = some slot) :
    first.slots other = some slot := by
  simp only [setSlot, update_apply] at hslot
  split_ifs at hslot
  exact hslot

theorem slots_setSlot_some {other : Key} {new slot : ConnectionId × Option Nat}
    (hslot : (first.setSlot key (some new)).slots other = some slot) :
    (other = key ∧ slot = new) ∨ (other ≠ key ∧ first.slots other = some slot) := by
  simp only [setSlot, update_apply] at hslot
  split_ifs at hslot with hother
  · exact .inl ⟨hother, (Option.some.inj hslot).symm⟩
  · exact .inr ⟨hother, hslot⟩

/-- A message with a seq id above the last one. -/
theorem Ordered.message (hfirst : first.Ordered starts) (hregistry : first.Registry)
    {message : Message} {seqId last : Option Nat}
    (hslot : first.slots key = some (connectionId, last)) (hplain : starts message = false)
    (hnew : ∀ new ∈ seqId, ∀ old ∈ last, old < new) :
    Ordered starts
      ((first.emit (.incomingMessage connectionId message seqId)).setSlot
        key (some (connectionId, seqId.or last))) := by
  have hseqIds : ∀ other, seqIds starts (first.transport ++
      [.incomingMessage connectionId message seqId]) other =
        seqIds starts first.transport other ++
          (if connectionId = other then seqId else none).toList := by
    intro other
    rw [seqIds_append]
    simp [TransportEvent.connectionId, TransportEvent.seqOf, hplain]
  have hbelow : ∀ old ∈ seqIds starts first.transport connectionId, ∀ new ∈ seqId, old < new := by
    intro old hold new hseqId
    obtain ⟨bound, hlast, hle⟩ := hfirst.bounded key connectionId last hslot old hold
    exact lt_of_le_of_lt hle (hnew new hseqId bound hlast)
  constructor
  · intro other
    refine (congrArg (List.Pairwise _) (hseqIds other)).mpr ?_
    split_ifs with hother
    · subst hother
      refine pairwise_append.mpr ⟨hfirst.rising connectionId, ?_, ?_⟩
      · cases seqId <;> simp
      · simpa using hbelow
    · simpa using hfirst.rising other
  · intro other otherId otherLast hother old hold
    have hold : old ∈ seqIds starts first.transport otherId ++
        (if connectionId = otherId then seqId else none).toList := by
      rw [← hseqIds]
      exact hold
    rcases slots_setSlot_some hother with ⟨-, hsame⟩ | ⟨hkey, hkept⟩
    · cases hsame
      rcases mem_append.mp hold with hbefore | hnewest
      · obtain ⟨bound, hlast, hle⟩ := hfirst.bounded key connectionId last hslot old hbefore
        cases seqId with
        | none => exact ⟨bound, hlast, hle⟩
        | some new => exact ⟨new, rfl, Nat.le_of_lt (hbelow old hbefore new rfl)⟩
      · rw [if_pos rfl, Option.mem_toList] at hnewest
        refine ⟨old, ?_, le_rfl⟩
        rw [Option.mem_def.mp hnewest]
        rfl
    · have hne : connectionId ≠ otherId := by
        rintro rfl
        refine hkey (hregistry.unique other key connectionId ?_ ?_)
        · exact openAt_of_slots hkept
        · exact openAt_of_slots hslot
      rw [if_neg hne] at hold
      exact hfirst.bounded other otherId otherLast hkept old (by simpa using hold)

theorem Ordered.step (hfirst : first.Ordered starts) (hregistry : first.Registry)
    (hlogged : first.Logged) (hstep : Step starts first second) : second.Ordered starts := by
  cases hstep with
  | opened key hfree =>
    refine hfirst.congr (fun other => seqIds_append_of_none _ _ other rfl) ?_
    intro other connectionId last hslot
    rcases slots_setSlot_some hslot with ⟨-, hsame⟩ | ⟨-, hkept⟩
    · cases hsame
      right
      rw [seqIds, hlogged.fresh _ le_rfl]
      rfl
    · exact .inl hkept
  | unopened | lost connectionId => exact hfirst.congr (fun _ => rfl) (fun _ _ _ => .inl)
  | initialized key connectionId message seqId last hslot hstarts =>
    refine hfirst.congr (fun other => seqIds_append_of_none _ _ other ?_) ?_
    · simp [TransportEvent.seqOf, hstarts]
    · intro other otherId otherLast hother
      rcases slots_setSlot_some hother with ⟨-, hsame⟩ | ⟨-, hkept⟩
      · cases hsame
        -- Nothing is recorded for the slot, so nothing was delivered.
        right
        rw [eq_nil_iff_forall_not_mem]
        intro old hold
        obtain ⟨bound, hbound, -⟩ := hfirst.bounded key connectionId none hslot old hold
        cases hbound
      · exact .inl hkept
  | message key connectionId message seqId last hslot hplain hnew =>
    exact hfirst.message hregistry hslot hplain hnew
  | closed key connectionId hopen =>
    exact hfirst.congr (fun other => seqIds_append_of_none _ _ other rfl)
      (fun _ _ _ hslot => .inl (slots_setSlot_none hslot))
  | closedLater key connectionId hopen | dropped key =>
    exact hfirst.congr (fun _ => rfl) (fun _ _ _ hslot => .inl (slots_setSlot_none hslot))
  | sent connectionId hclosing =>
    exact hfirst.congr (fun other => seqIds_append_of_none _ _ other rfl) (fun _ _ _ => .inl)

/-- The invariant of a ledger. -/
structure Consistent (starts : Message → Bool) (ledger : Ledger Key Message) : Prop where
  registry : ledger.Registry
  logged : ledger.Logged
  ordered : ledger.Ordered starts

omit [DecidableEq Key] in
theorem consistent_new : Consistent starts (new : Ledger Key Message) where
  registry := by constructor <;> simp [new, openAt, Live]
  logged := by
    constructor <;> simp [new, Live, openAt, eventsOf, Lifecycle]
  ordered := ⟨fun _ => List.Pairwise.nil, by simp [new]⟩

/-- Every history of a ledger keeps the invariant. -/
theorem Consistent.history (hfirst : first.Consistent starts)
    (hhistory : Relation.ReflTransGen (Step starts) first second) : second.Consistent starts := by
  induction hhistory with
  | refl => exact hfirst
  | tail _ hstep ih =>
    exact ⟨ih.registry.step hstep, ih.logged.step ih.registry hstep,
      ih.ordered.step ih.registry ih.logged hstep⟩

end Ledger

end Hexa.RemoteControl
