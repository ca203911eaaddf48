/-
One session of the registry by itself: what can happen to it, and what holds
of it at every moment.
-/
import Hexa.ExecServer.SessionRegistry

namespace Hexa.ExecServer

open List SessionEvent Option

variable {ConnectionId : Type}

/-- What the registry has of one session: its entry, how often it is in the
map, who is about to shut it down, and the holder of the lock with it. -/
structure SessionView (ConnectionId : Type) where
  entry : Option (SessionEntry ConnectionId)
  registered : Nat
  doomed : List (ShutdownCause ConnectionId)
  phase : Option (LockPhase ConnectionId)

namespace SessionEntry

variable (entry : SessionEntry ConnectionId)

/-- The connection attached last. -/
def latest : Option ConnectionId :=
  entry.attachment.currentConnectionId.or entry.attachment.detachedConnectionId

@[simp]
theorem latest_new (connection : ConnectionId) : (new connection).latest = some connection := rfl

section

variable (entry : SessionEntry ConnectionId)

@[simp]
theorem latest_setNotificationSender (notifications : Option ConnectionId) :
    (entry.setNotificationSender notifications).latest = entry.latest :=
  rfl

variable (connection : ConnectionId)

@[simp]
theorem latest_startDetach : (entry.startDetach connection).latest = entry.latest := rfl

@[simp]
theorem latest_attach : (entry.attach connection).latest = some connection := rfl

@[simp]
theorem latest_finishDetach (expiresAt : Nat) :
    (entry.finishDetach connection expiresAt).latest = some connection :=
  rfl

end

/-- The sender of a session that no resume is about to attach. -/
def settledSender : Option ConnectionId :=
  match entry.detaching with
  | some _ => none
  | none => entry.attachment.currentConnectionId

/-- No connection is attached nor on its way out. -/
def Idle : Prop := entry.attachment.currentConnectionId = none ∧ entry.detaching = none

variable {entry : SessionEntry ConnectionId}

theorem idle_of_isExpired {now : Nat} (hexpired : entry.isExpired now)
    (hdetaching : ¬ entry.detaching.isSome) : entry.Idle := by
  refine ⟨entry.attachment.detached ?_, not_isSome_iff_eq_none.mp hdetaching⟩
  rw [isExpired] at hexpired
  cases hdeadline : entry.attachment.detachedExpiresAt with
  | none =>
    rw [hdeadline] at hexpired
    cases hexpired
  | some deadline => rfl

/-- The session may be shut down for the cause: it is idle and, for an expiry,
since the connection of the expiry. -/
def Released (entry : SessionEntry ConnectionId) (cause : ShutdownCause ConnectionId) : Prop :=
  entry.Idle ∧ ∀ connection, cause = .expiry connection →
    entry.attachment.detachedConnectionId = some connection

theorem Released.latest_eq {connection : ConnectionId}
    (hreleased : entry.Released (.expiry connection)) : entry.latest = some connection := by
  rw [latest, hreleased.1.1]
  exact hreleased.2 connection rfl

theorem released_of_isDetachedConnectionExpired [DecidableEq ConnectionId]
    {connection : ConnectionId} {now : Nat}
    (hexpired : entry.isDetachedConnectionExpired connection now)
    (hdetaching : ¬ entry.detaching.isSome) : entry.Released (.expiry connection) := by
  simp only [isDetachedConnectionExpired, Bool.and_eq_true,
    isNone_iff_eq_none, decide_eq_true_eq] at hexpired
  obtain ⟨⟨hcurrent, hdetached⟩, -⟩ := hexpired
  refine ⟨⟨hcurrent, not_isSome_iff_eq_none.mp hdetaching⟩, ?_⟩
  rintro other ⟨⟩
  exact hdetached

end SessionEntry

/-- What the holder of the lock knows of the session. -/
def LockPhase.Fits (phase : LockPhase ConnectionId) (entry : SessionEntry ConnectionId) : Prop :=
  match phase with
  | .checkedExpiry _ => True
  | .checkedFree _ => entry.Idle
  | .senderSet _ => entry.Idle
  | .removing cause => cause ≠ .registry ∧ entry.Released cause

/-- The connection of a resume that has set the sender. -/
def LockPhase.sender : LockPhase ConnectionId → Option ConnectionId
  | .senderSet connection => some connection
  | _ => none

namespace SessionView

/-- The sender is that of the attached connection, but for a resume that has
set it and a detach that has taken it away. -/
def sender (view : SessionView ConnectionId) (entry : SessionEntry ConnectionId) :
    Option ConnectionId :=
  (view.phase.bind LockPhase.sender).or entry.settledSender

/-- What can happen to a session. -/
inductive Moves [DecidableEq ConnectionId] (view : SessionView ConnectionId) :
    SessionEvent ConnectionId → SessionView ConnectionId → Prop where
  | stay : Moves view .quiet view
  | create (connection : ConnectionId) (hentry : view.entry = none)
      (hphase : view.phase = none) :
      Moves view (.attached connection) { view with
        entry := some (.new connection), registered := view.registered + 1 }
  | lock (entry : SessionEntry ConnectionId) (phase : LockPhase ConnectionId)
      (hentry : view.entry = some entry) (hphase : view.phase = none)
      (hregistered : 0 < view.registered) (hfits : phase.Fits entry)
      (hsender : phase.sender = none) :
      Moves view .quiet { view with phase := some phase }
  | checkFree (entry : SessionEntry ConnectionId) (connection : ConnectionId)
      (hentry : view.entry = some entry)
      (hphase : view.phase = some (.checkedExpiry connection))
      (hidle : entry.Idle) :
      Moves view .quiet { view with
        phase := some (.checkedFree connection) }
  | refuse (connection : ConnectionId)
      (hphase : view.phase = some (.checkedExpiry connection)) :
      Moves view .quiet { view with phase := none }
  | setSender (entry : SessionEntry ConnectionId) (connection : ConnectionId)
      (hentry : view.entry = some entry)
      (hphase : view.phase = some (.checkedFree connection)) :
      Moves view .quiet { view with
        entry := some (entry.setNotificationSender (some connection))
        phase := some (.senderSet connection) }
  | attach (entry : SessionEntry ConnectionId) (connection : ConnectionId)
      (hentry : view.entry = some entry)
      (hphase : view.phase = some (.senderSet connection)) :
      Moves view (.attached connection) { view with
        entry := some (entry.attach connection), phase := none }
  | startDetach (entry : SessionEntry ConnectionId)
      (connection : ConnectionId) (hentry : view.entry = some entry)
      (hdetaching : entry.detaching = none)
      (hcurrent : entry.attachment.currentConnectionId = some connection) :
      Moves view .quiet { view with
        entry := some (entry.startDetach connection) }
  | finishDetach (entry : SessionEntry ConnectionId)
      (connection : ConnectionId) (expiresAt : Nat)
      (hentry : view.entry = some entry)
      (hdetaching : entry.detaching = some connection) :
      Moves view .quiet { view with
        entry := some (entry.finishDetach connection expiresAt) }
  | remove (cause : ShutdownCause ConnectionId)
      (hphase : view.phase = some (.removing cause)) :
      Moves view .quiet { view with
        registered := view.registered - 1
        doomed := cause :: view.doomed
        phase := none }
  | shutDownProcess (cause : ShutdownCause ConnectionId)
      (hcause : cause ∈ view.doomed) :
      Moves view .shutDown { view with doomed := view.doomed.erase cause }
  | shutdown (hphase : view.phase = none) :
      Moves view .registryDown { view with
        registered := 0
        doomed := List.replicate view.registered .registry ++ view.doomed }

/-- What holds of a session with the connections attached to it so far, the
number of times it was shut down, and whether the registry was. -/
structure Lives (attached : List ConnectionId) (shutdowns : Nat) (down : Prop)
    (view : SessionView ConnectionId) : Prop where
  once : shutdowns + view.doomed.length + view.registered ≤ view.entry.isSome.toNat
  latest : attached.getLast? = view.entry.bind SessionEntry.latest
  notifications : ∀ entry, view.entry = some entry → entry.notifications = view.sender entry
  detaching : ∀ entry connection, view.entry = some entry →
    entry.detaching = some connection →
    entry.attachment.currentConnectionId = some connection
  held : ∀ phase, view.phase = some phase → 0 < view.registered ∧
    ∃ entry, view.entry = some entry ∧ phase.Fits entry
  doomed : ∀ cause ∈ view.doomed, cause ≠ .registry →
    ∃ entry, view.entry = some entry ∧ entry.Released cause
  registry : .registry ∈ view.doomed → down

variable {attached : List ConnectionId} {shutdowns : Nat} {down : Prop}
  {view next : SessionView ConnectionId} {entry : SessionEntry ConnectionId}

namespace Lives

/-- A session that is in the map is in it once, and nobody is about to shut it
down. -/
theorem alone (hlives : Lives attached shutdowns down view) (hregistered : 0 < view.registered) :
    shutdowns = 0 ∧ view.doomed = [] ∧ view.registered = 1 := by
  have honce := hlives.once
  have hle := Bool.toNat_le view.entry.isSome
  refine ⟨by omega, eq_nil_of_length_eq_zero (by omega), by omega⟩

/-- The holder of the lock is alone with the session. -/
theorem held_alone (hlives : Lives attached shutdowns down view) {phase : LockPhase ConnectionId}
    (hphase : view.phase = some phase) (hentry : view.entry = some entry) :
    phase.Fits entry ∧ 0 < view.registered ∧ view.doomed = [] := by
  obtain ⟨hregistered, other, hother, hfits⟩ := hlives.held phase hphase
  obtain rfl := some.inj (hentry.symm.trans hother)
  exact ⟨hfits, hregistered, (hlives.alone hregistered).2.1⟩

variable {connection : ConnectionId}

section

variable (hlives : Lives attached shutdowns down view)
include hlives

section

variable (hentry : view.entry = some entry)
  (hcurrent : entry.attachment.currentConnectionId = some connection)
include hentry hcurrent

/-- A session with a connection is held by no one who knows it to be idle. -/
theorem sender_of_current : view.phase.bind LockPhase.sender = none := by
  cases hphase : view.phase with
  | none => rfl
  | some phase =>
    have hfits := (hlives.held_alone hphase hentry).1
    cases phase with
    | senderSet other =>
      rw [hfits.1] at hcurrent
      cases hcurrent
    | _ => rfl

/-- The phases of the lock that fit a session still fit it when a connection
leaves. -/
theorem held_of_current (other : SessionEntry ConnectionId) (phase : LockPhase ConnectionId)
    (hphase : view.phase = some phase) : 0 < view.registered ∧
      ∃ entry, some other = some entry ∧ phase.Fits entry := by
  obtain ⟨hfits, hregistered, -⟩ := hlives.held_alone hphase hentry
  refine ⟨hregistered, other, rfl, ?_⟩
  cases phase with
  | checkedExpiry other => trivial
  | checkedFree other | senderSet other => cases hfits.1.symm.trans hcurrent
  | removing cause => cases hfits.2.1.1.symm.trans hcurrent

/-- A session with a connection is shut down with the registry only. -/
theorem doomed_of_current (cause : ShutdownCause ConnectionId) (hcause : cause ∈ view.doomed)
    (hregistry : cause ≠ .registry) : False := by
  obtain ⟨other, hother, hreleased⟩ := hlives.doomed cause hcause hregistry
  obtain rfl := some.inj (hentry.symm.trans hother)
  cases hreleased.1.1.symm.trans hcurrent

end

/-- The lock comes to another phase with the sender as it was. -/
theorem rephase {phase : Option (LockPhase ConnectionId)}
    (hsender : phase.bind LockPhase.sender = view.phase.bind LockPhase.sender)
    (hheld : ∀ held, phase = some held → 0 < view.registered ∧
      ∃ entry, view.entry = some entry ∧ held.Fits entry) :
    Lives attached shutdowns down { view with phase } := by
  refine ⟨hlives.once, hlives.latest, fun entry hentry => ?_,
    hlives.detaching, hheld, hlives.doomed, hlives.registry⟩
  rw [hlives.notifications entry hentry, sender, sender, hsender]

theorem quiet {other : Prop} : Lives (attached ++ []) shutdowns (down ∨ other) view := by
  rw [append_nil]
  exact { hlives with registry := fun hmem => .inl (hlives.registry hmem) }

end

variable [DecidableEq ConnectionId] {event : SessionEvent ConnectionId}

theorem moves (hlives : Lives attached shutdowns down view) (hmoves : Moves view event next) :
    Lives (attached ++ event.attaches.toList)
      (shutdowns + event.shutsDown.toNat) (down ∨ event = .registryDown)
      next := by
  have hdown : .registry ∈ view.doomed → down ∨ event = .registryDown :=
    fun hmem => .inl (hlives.registry hmem)
  cases hmoves with
  | stay => exact hlives.quiet
  | create connection hentry hphase =>
    have honce := hlives.once
    rw [hentry] at honce
    change shutdowns + view.doomed.length + view.registered ≤ 0 at honce
    have hdoomed : view.doomed = [] := eq_nil_of_length_eq_zero (by omega)
    refine ⟨?_, ?_, ?_, ?_, ?_, ?_, hdown⟩
    · change shutdowns + 0 + view.doomed.length + (view.registered + 1) ≤ 1
      omega
    · simp [attaches]
    · rintro _ ⟨⟩
      rw [hphase]
      rfl
    · rintro _ other ⟨⟩ hdetaching
      cases hdetaching
    · intro phase hsome
      cases hphase.symm.trans hsome
    · rw [hdoomed]
      nofun
  | lock entry phase hentry hphase hregistered hfits hsender =>
    refine (hlives.rephase ?_ ?_).quiet
    · rw [bind_some, hsender, hphase]
      rfl
    · rintro _ ⟨⟩
      exact ⟨hregistered, entry, hentry, hfits⟩
  | checkFree entry connection hentry hphase hidle =>
    refine (hlives.rephase ?_ ?_).quiet
    · rw [hphase]
      rfl
    · rintro _ ⟨⟩
      exact ⟨(hlives.held _ hphase).1, entry, hentry, hidle⟩
  | refuse connection hphase =>
    apply quiet
    refine hlives.rephase ?_ nofun
    rw [hphase]
    rfl
  | setSender entry connection hentry hphase =>
    obtain ⟨hidle, hregistered, hdoomed⟩ := hlives.held_alone hphase hentry
    apply quiet
    refine ⟨?_, ?_, ?_, ?_, ?_, ?_, hlives.registry⟩
    · simpa [hentry, shutsDown] using hlives.once
    · simpa [hentry] using hlives.latest
    · rintro _ ⟨⟩
      rfl
    · rintro _ other ⟨⟩ hdetaching
      exact hlives.detaching entry other hentry hdetaching
    · rintro _ ⟨⟩
      exact ⟨hregistered, _, rfl, hidle⟩
    · rw [hdoomed]
      nofun
  | attach entry connection hentry hphase =>
    obtain ⟨hidle, hregistered, hdoomed⟩ := hlives.held_alone hphase hentry
    have hnotifications : entry.notifications = some connection := by
      rw [hlives.notifications entry hentry, sender, hphase]
      rfl
    refine ⟨?_, by simp [attaches], ?_, ?_, nofun, ?_, hdown⟩
    · simpa [hentry, shutsDown] using hlives.once
    · rintro _ ⟨⟩
      simp only [SessionEntry.attach, hidle.2, hnotifications]
      rfl
    · rintro _ other ⟨⟩ hdetaching
      cases hidle.2.symm.trans hdetaching
    · rw [hdoomed]
      nofun
  | startDetach entry connection hentry hdetaching hcurrent =>
    have hsender := hlives.sender_of_current hentry hcurrent
    apply quiet
    refine ⟨?_, ?_, ?_, ?_, hlives.held_of_current hentry hcurrent _, ?_, hlives.registry⟩
    · simpa [hentry, shutsDown] using hlives.once
    · simpa [hentry] using hlives.latest
    · rintro _ ⟨⟩
      rw [sender, hsender]
      rfl
    · rintro _ other ⟨⟩ hother
      cases hother
      exact hcurrent
    · intro cause hcause hregistry
      cases hlives.doomed_of_current hentry hcurrent cause hcause hregistry
  | finishDetach entry connection expiresAt hentry hdetaching =>
    have hcurrent := hlives.detaching entry connection hentry hdetaching
    have hsender := hlives.sender_of_current hentry hcurrent
    apply quiet
    refine ⟨?_, ?_, ?_, ?_, hlives.held_of_current hentry hcurrent _, ?_, hlives.registry⟩
    · simpa [hentry, shutsDown] using hlives.once
    · have hlatest := hlives.latest
      rw [hentry, bind_some, SessionEntry.latest, hcurrent] at hlatest
      simpa using hlatest
    · rintro _ ⟨⟩
      rw [sender, hsender]
      change entry.notifications = none
      rw [hlives.notifications entry hentry, sender, hsender,
        SessionEntry.settledSender, hdetaching]
      rfl
    · rintro _ other ⟨⟩ hother
      cases hother
    · intro cause hcause hregistry
      cases hlives.doomed_of_current hentry hcurrent cause hcause hregistry
  | remove cause hphase =>
    obtain ⟨hregistered, entry, hentry, hcause, hreleased⟩ := hlives.held _ hphase
    obtain ⟨hshutdowns, hdoomed, hone⟩ := hlives.alone hregistered
    apply quiet
    refine ⟨?_, hlives.latest, ?_, hlives.detaching, nofun, ?_, ?_⟩
    · rw [hentry, hdoomed, hone, hshutdowns]
      rfl
    · intro other hother
      rw [hlives.notifications other hother, sender, hphase]
      rfl
    · intro other hother hregistry
      rw [hdoomed] at hother
      obtain rfl := mem_singleton.mp hother
      exact ⟨entry, hentry, hreleased⟩
    · intro hmem
      rw [hdoomed] at hmem
      exact absurd (mem_singleton.mp hmem).symm hcause
  | shutDownProcess cause hcause =>
    have hlength := length_erase_of_mem hcause
    have hpositive := length_pos_of_mem hcause
    refine ⟨?_, by simpa [attaches] using hlives.latest,
      hlives.notifications, hlives.detaching, hlives.held, ?_, ?_⟩
    · have honce := hlives.once
      change shutdowns + 1 + (view.doomed.erase cause).length +
        view.registered ≤ view.entry.isSome.toNat
      omega
    · intro other hother
      exact hlives.doomed other (mem_of_mem_erase hother)
    · exact fun hmem => hdown (mem_of_mem_erase hmem)
  | shutdown hphase =>
    refine ⟨?_, by simpa [attaches] using hlives.latest, hlives.notifications,
      hlives.detaching, ?_, ?_, fun _ => .inr rfl⟩
    · have honce := hlives.once
      change shutdowns + 0 +
        (List.replicate view.registered ShutdownCause.registry ++
          view.doomed).length + 0 ≤ view.entry.isSome.toNat
      rw [length_append, length_replicate]
      omega
    · intro phase hsome
      cases hphase.symm.trans hsome
    · intro cause hcause hregistry
      rcases mem_append.mp hcause with hnew | hold
      · exact absurd (eq_of_mem_replicate hnew) hregistry
      · exact hlives.doomed cause hold hregistry

end Lives

end SessionView

end Hexa.ExecServer
