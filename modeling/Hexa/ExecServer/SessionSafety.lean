/-
The registry does to each of its sessions no more than can happen to one, and
draws an id for every connection: what that says of attachment, expiry and
shutdown in every interleaving.
-/
import Hexa.ExecServer.SessionLife

namespace Hexa.ExecServer

open List RegistryAction Option SessionEntry AList

variable {SessionId ConnectionId : Type}

/-- The connection of a resume. -/
def LockPhase.resuming : LockPhase ConnectionId → Option ConnectionId
  | .checkedExpiry connection => some connection
  | .checkedFree connection => some connection
  | .senderSet connection => some connection
  | .removing _ => none

namespace SessionRegistry

def resuming (registry : SessionRegistry SessionId ConnectionId) : Option ConnectionId :=
  registry.lock.bind (fun pair => pair.2.resuming)

variable [DecidableEq SessionId]

def doomedFor (doomed : List (SessionId × ShutdownCause ConnectionId)) (session : SessionId) :
    List (ShutdownCause ConnectionId) :=
  doomed.filterMap (fun pair => if pair.1 = session then some pair.2 else none)

def view (registry : SessionRegistry SessionId ConnectionId) (session : SessionId) :
    SessionView ConnectionId where
  entry := registry.entries.lookup session
  registered := registry.sessions.count session
  doomed := doomedFor registry.doomed session
  phase := registry.lock.bind (fun pair =>
    if pair.1 = session then some pair.2 else none)

variable {cause : ShutdownCause ConnectionId}

theorem mem_doomedFor {doomed : List (SessionId × ShutdownCause ConnectionId)}
    {session : SessionId} : cause ∈ doomedFor doomed session ↔ (session, cause) ∈ doomed := by
  simp [doomedFor]

variable {registry next : SessionRegistry SessionId ConnectionId}
  {action : RegistryAction SessionId ConnectionId}

/-- A connection that an action attaches or that is about to resume was drawn
just now, or was about to resume before. -/
structure Draws (registry : SessionRegistry SessionId ConnectionId)
    (action : RegistryAction SessionId ConnectionId)
    (next : SessionRegistry SessionId ConnectionId) : Prop where
  issued : ∀ connection ∈ registry.issued, connection ∈ next.issued
  attaches : ∀ session connection,
    (action.eventAt session).attaches = some connection →
    next.resuming = none ∧
      (connection ∉ registry.issued ∧ connection ∈ next.issued ∨
        registry.resuming = some connection)
  resumes : ∀ connection, next.resuming = some connection →
    connection ∉ registry.issued ∧ connection ∈ next.issued ∨ registry.resuming = some connection

/-- Most actions draw no id and attach none. -/
theorem Draws.of_quiet (hissued : next.issued = registry.issued)
    (hattaches : ∀ session, (action.eventAt session).attaches = none)
    (hresumes : ∀ connection, next.resuming = some connection →
      registry.resuming = some connection) : Draws registry action next where
  issued := fun connection hmem => hissued.symm ▸ hmem
  attaches := fun session connection hsome => by
    rw [hattaches session] at hsome
    cases hsome
  resumes := fun connection hsome => .inr (hresumes connection hsome)

theorem doomedFor_map (sessions : List SessionId) (session : SessionId)
    (cause : ShutdownCause ConnectionId) :
    doomedFor (sessions.map (fun other => (other, cause))) session =
      List.replicate (sessions.count session) cause := by
  induction sessions with
  | nil => rfl
  | cons other sessions ih =>
    simp only [doomedFor] at ih ⊢
    by_cases hsession : other = session
    · simp [hsession, ih, replicate_succ]
    · simp [hsession, ih]

variable {ttl : Nat} {entry : SessionEntry ConnectionId} {session other : SessionId}
  {actions : List (RegistryAction SessionId ConnectionId)}

theorem phase_view_of_lock {phase : LockPhase ConnectionId}
    (hlock : registry.lock = some (session, phase)) :
    (registry.view session).phase = some phase := by
  rw [view, hlock, bind_some, if_pos rfl]

theorem phase_view_of_free (hlock : registry.lock = none) :
    (registry.view session).phase = none := by
  rw [view, hlock]
  rfl

/-- No resume of the session has set the sender. -/
theorem sender_view_of_lock
    (hlock : ∀ connection, registry.lock ≠ some (session, .senderSet connection)) :
    (registry.view session).phase.bind LockPhase.sender = none := by
  cases hphase : (registry.view session).phase with
  | none => rfl
  | some phase =>
    simp only [view, bind_eq_some_iff, ite_none_right_eq_some, some.injEq] at hphase
    obtain ⟨⟨other, held⟩, hheld, rfl, rfl⟩ := hphase
    cases held with
    | senderSet connection => exact absurd hheld (hlock connection)
    | _ => rfl

theorem get_eq_some (hget : registry.get session = some entry) :
    0 < (registry.view session).registered ∧ (registry.view session).entry = some entry := by
  rw [get] at hget
  split_ifs at hget with hmem
  exact ⟨count_pos_iff.mpr hmem, hget⟩

/-- No connection is attached twice. -/
structure AttachedOnce (actions : List (RegistryAction SessionId ConnectionId))
    (registry : SessionRegistry SessionId ConnectionId) : Prop where
  nodup : ∀ session, (attachments actions session).Nodup
  issued : ∀ session, ∀ connection ∈ attachments actions session, connection ∈ registry.issued
  resuming : ∀ connection, registry.resuming = some connection →
    connection ∈ registry.issued ∧ ∀ session, connection ∉ attachments actions session

theorem AttachedOnce.step (hattached : AttachedOnce actions registry)
    (hdraws : Draws registry action next) : AttachedOnce (actions ++ [action]) next := by
  have hnew : ∀ connection, connection ∉ registry.issued ∧ connection ∈ next.issued ∨
        registry.resuming = some connection →
      connection ∈ next.issued ∧ ∀ session, connection ∉ attachments actions session := by
    rintro connection (⟨hfresh, hissued⟩ | hresuming)
    · exact ⟨hissued, fun session hmem => hfresh (hattached.issued session connection hmem)⟩
    · obtain ⟨hissued, habsent⟩ := hattached.resuming connection hresuming
      exact ⟨hdraws.issued connection hissued, habsent⟩
  refine ⟨fun session => ?_, fun session connection hmem => ?_, fun connection hresuming => ?_⟩
  · rw [attachments_concat]
    cases hattaches : (action.eventAt session).attaches with
    | none => simpa using hattached.nodup session
    | some connection =>
      have habsent := (hnew _ (hdraws.attaches session connection hattaches).2).2 session
      exact nodup_append.mpr ⟨hattached.nodup session,
        nodup_singleton connection, fun other hother same hsame =>
          fun heq => habsent (mem_singleton.mp hsame ▸ heq ▸ hother)⟩
  · rw [attachments_concat, mem_append] at hmem
    rcases hmem with hold | hattaches
    · exact hdraws.issued _ (hattached.issued session connection hold)
    · have hsome := mem_toList.mp hattaches
      exact (hnew _ (hdraws.attaches session connection hsome).2).1
  · obtain ⟨hissued, habsent⟩ := hnew _ (hdraws.resumes connection hresuming)
    refine ⟨hissued, fun session hmem => ?_⟩
    rw [attachments_concat, mem_append] at hmem
    rcases hmem with hold | hattaches
    · exact habsent session hold
    · have hsome := mem_toList.mp hattaches
      have hnone := (hdraws.attaches session connection hsome).1
      cases hnone.symm.trans hresuming

variable [DecidableEq ConnectionId] (doomed : List (SessionId × ShutdownCause ConnectionId))

theorem doomedFor_erase_self (session : SessionId) (cause : ShutdownCause ConnectionId) :
    doomedFor (doomed.erase (session, cause)) session =
      (doomedFor doomed session).erase cause := by
  induction doomed with
  | nil => rfl
  | cons pair doomed ih =>
    obtain ⟨other, otherCause⟩ := pair
    simp only [doomedFor] at ih ⊢
    by_cases hsession : other = session
    · by_cases hcause : otherCause = cause
      · simp [hsession, hcause]
      · simp [hsession, hcause, ih]
    · simp [hsession, ih]

theorem doomedFor_erase_ne {session other : SessionId} (hne : other ≠ session)
    (cause : ShutdownCause ConnectionId) :
    doomedFor (doomed.erase (other, cause)) session = doomedFor doomed session := by
  induction doomed with
  | nil => rfl
  | cons pair doomed ih =>
    simp only [doomedFor] at ih ⊢
    by_cases hpair : pair = (other, cause)
    · simp [hpair, hne]
    · rw [erase_cons_tail (by simpa using hpair), filterMap_cons, filterMap_cons, ih]

/-- What an action does, it does to one session. -/
theorem moves_at {event : SessionEvent ConnectionId} (other : SessionId)
    (hmoves : (registry.view other).Moves event (next.view other))
    (hothers : ∀ session, session ≠ other → next.view session = registry.view session)
    (hevent : action.eventAt session = if other = session then event else .quiet) :
    (registry.view session).Moves (action.eventAt session) (next.view session) := by
  rw [hevent]
  split_ifs with hsession
  · exact hsession ▸ hmoves
  · rw [hothers session (Ne.symm hsession)]
    exact .stay

/-- The lock is taken with a session of the map. -/
theorem moves_of_lock {phase : LockPhase ConnectionId} (hfree : registry.lock = none)
    (hget : registry.get other = some entry) (hfits : phase.Fits entry)
    (hsender : phase.sender = none) (hentries : next.entries = registry.entries)
    (hsessions : next.sessions = registry.sessions) (hdoomed : next.doomed = registry.doomed)
    (hlock : next.lock = some (other, phase)) (hevent : action.eventAt session = .quiet) :
    (registry.view session).Moves (action.eventAt session) (next.view session) := by
  refine moves_at other ?_ ?_ (hevent.trans (ite_self _).symm)
  · obtain ⟨hregistered, hentry⟩ := get_eq_some hget
    have hmoves : (registry.view other).Moves _ _ :=
      .lock entry phase hentry (phase_view_of_free hfree) hregistered hfits hsender
    simpa [view, hentries, hsessions, hdoomed, hlock] using hmoves
  · intro session hne
    simp [view, hentries, hsessions, hdoomed, hlock, hfree, hne.symm]

/-- What an action does to the ids that are drawn and to each session. -/
def Obeys (registry : SessionRegistry SessionId ConnectionId)
    (action : RegistryAction SessionId ConnectionId)
    (next : SessionRegistry SessionId ConnectionId) : Prop :=
  Draws registry action next ∧ ∀ session,
    (registry.view session).Moves (action.eventAt session) (next.view session)

theorem resumeLookup_obeys {connection : ConnectionId} {read : Nat}
    (hstep : Step ttl registry (.resumeLookup other connection read) next) :
    Obeys registry (.resumeLookup other connection read) next := by
  simp only [Step, perform] at hstep
  split_ifs at hstep with hblocked
  simp only [not_or, not_isSome_iff_eq_none] at hblocked
  have hdrawn : ∀ drawn : SessionRegistry SessionId ConnectionId,
      drawn.issued = connection :: registry.issued →
      (∀ other, drawn.resuming = some other → other = connection) →
      Draws registry (.resumeLookup other connection read) drawn := by
    intro drawn hissued hresumes
    refine ⟨fun issued hmem => ?_, by rintro _ _ ⟨⟩, fun attached hsome => ?_⟩
    · rw [hissued]
      exact mem_cons_of_mem _ hmem
    · rw [hresumes attached hsome, hissued]
      exact .inl ⟨hblocked.2.1, mem_cons_self⟩
  cases hget : registry.get other with
  | none =>
    rw [hget] at hstep
    cases hstep
    refine ⟨hdrawn _ rfl fun attached hsome => ?_, fun _ => .stay⟩
    rw [hblocked.1] at hsome
    cases hsome
  | some entry =>
    rw [hget] at hstep
    simp only at hstep
    split_ifs at hstep with hdetaching hexpired
    · cases hstep
      have hfits : (LockPhase.removing .resumeExpired).Fits entry :=
        ⟨by rintro ⟨⟩, idle_of_isExpired hexpired hdetaching, by rintro _ ⟨⟩⟩
      exact ⟨hdrawn _ rfl (by rintro _ ⟨⟩), fun _ =>
        moves_of_lock hblocked.1 hget hfits rfl rfl rfl rfl rfl rfl⟩
    · cases hstep
      have hfits : (LockPhase.checkedExpiry connection).Fits entry := trivial
      refine ⟨hdrawn _ rfl ?_, fun _ =>
        moves_of_lock hblocked.1 hget hfits rfl rfl rfl rfl rfl rfl⟩
      rintro attached ⟨⟩
      rfl

theorem resumeCheckFree_obeys (hstep : Step ttl registry .resumeCheckFree next) :
    Obeys registry .resumeCheckFree next := by
  simp only [Step, perform] at hstep
  split at hstep
  · rename_i other connection hlock
    obtain ⟨entry, hentry, hstep⟩ := bind_eq_some_iff.mp hstep
    have hphase := phase_view_of_lock hlock
    split_ifs at hstep with hdetaching hactive
    · cases hstep
      refine ⟨.of_quiet rfl (fun _ => rfl) (by rintro _ ⟨⟩), fun session =>
        moves_at other (.refuse connection hphase) ?_ (ite_self _).symm⟩
      intro session hne
      simp [view, hlock, hne.symm]
    · cases hstep
      refine ⟨.of_quiet rfl (fun _ => rfl) ?_, fun session =>
        moves_at other ?_ ?_ (ite_self _).symm⟩
      · rintro attached ⟨⟩
        rw [resuming, hlock]
        rfl
      · have hidle : entry.Idle := by
          refine ⟨?_, not_isSome_iff_eq_none.mp hdetaching⟩
          exact not_isSome_iff_eq_none.mp hactive
        have hmoves : (registry.view other).Moves _ _ :=
          .checkFree entry connection hentry hphase hidle
        simpa [eventAt, view] using hmoves
      · intro session hne
        simp [view, hlock, hne.symm]
  · cases hstep

theorem expireIfDetached_obeys {connection : ConnectionId} {wakeAt read : Nat}
    (hstep : Step ttl registry (.expireIfDetached other connection wakeAt read) next) :
    Obeys registry (.expireIfDetached other connection wakeAt read) next := by
  simp only [Step, perform] at hstep
  split_ifs at hstep with hblocked
  simp only [not_or, not_isSome_iff_eq_none] at hblocked
  cases hget : registry.get other with
  | none =>
    rw [hget] at hstep
    cases hstep
    exact ⟨.of_quiet rfl (fun _ => rfl) (fun _ => id), fun _ => .stay⟩
  | some entry =>
    rw [hget] at hstep
    simp only at hstep
    split_ifs at hstep with hdetaching hexpired
    · cases hstep
      have hfits : (LockPhase.removing (.expiry connection)).Fits entry :=
        ⟨by rintro ⟨⟩, released_of_isDetachedConnectionExpired hexpired hdetaching⟩
      exact ⟨.of_quiet rfl (fun _ => rfl) (by rintro _ ⟨⟩), fun _ =>
        moves_of_lock hblocked.1 hget hfits rfl rfl rfl rfl rfl rfl⟩
    · cases hstep
      exact ⟨.of_quiet rfl (fun _ => rfl) (fun _ => id), fun _ => .stay⟩

theorem step_obeys (hstep : Step ttl registry action next) : Obeys registry action next := by
  rw [Step] at hstep
  cases action with
  | attachNew other connection =>
    simp only [perform] at hstep
    split_ifs at hstep with hblocked
    simp only [not_or, not_isSome_iff_eq_none] at hblocked
    cases hstep
    have hnone : registry.lock.bind (fun pair => pair.2.resuming) = none := by
      rw [hblocked.1]
      rfl
    refine ⟨⟨fun _ => mem_cons_of_mem _, fun session attached hsome => ?_,
      fun attached hsome => ?_⟩, fun session => moves_at other ?_ ?_ rfl⟩
    · simp only [eventAt, SessionEvent.attaches_ite, ite_none_right_eq_some, some.injEq] at hsome
      obtain ⟨-, rfl⟩ := hsome
      exact ⟨hnone, .inl ⟨hblocked.2.1, mem_cons_self⟩⟩
    · cases hnone.symm.trans hsome
    · have hmoves : (registry.view other).Moves _ _ :=
        .create connection hblocked.2.2 (phase_view_of_free hblocked.1)
      simpa [view, setEntry] using hmoves
    · intro session hne
      simp [view, setEntry, hne.symm, lookup_insert_ne hne]
  | resumeLookup => exact resumeLookup_obeys hstep
  | resumeCheckFree => exact resumeCheckFree_obeys hstep
  | resumeSetSender =>
    simp only [perform] at hstep
    split at hstep
    · rename_i other connection hlock
      obtain ⟨entry, hentry, hstep⟩ := bind_eq_some_iff.mp hstep
      cases hstep
      refine ⟨.of_quiet rfl (fun _ => rfl) ?_, fun session =>
        moves_at other ?_ ?_ (ite_self _).symm⟩
      · rintro attached ⟨⟩
        rw [resuming, hlock]
        rfl
      · have hmoves : (registry.view other).Moves _ _ :=
          .setSender entry connection hentry (phase_view_of_lock hlock)
        simpa [eventAt, view, setEntry] using hmoves
      · intro session hne
        simp [view, setEntry, hlock, hne.symm, lookup_insert_ne hne]
    · cases hstep
  | resumeAttach other connection =>
    simp only [perform] at hstep
    split_ifs at hstep with hlock
    obtain ⟨entry, hentry, hstep⟩ := bind_eq_some_iff.mp hstep
    split_ifs at hstep with hdetaching
    cases hstep
    refine ⟨⟨fun _ => id, fun session attached hsome => ?_, by rintro _ ⟨⟩⟩,
      fun session => moves_at other ?_ ?_ rfl⟩
    · simp only [eventAt, SessionEvent.attaches_ite, ite_none_right_eq_some, some.injEq] at hsome
      obtain ⟨-, rfl⟩ := hsome
      refine ⟨rfl, .inr ?_⟩
      rw [resuming, hlock]
      rfl
    · have hmoves : (registry.view other).Moves _ _ :=
        .attach entry connection hentry (phase_view_of_lock hlock)
      simpa [view, setEntry] using hmoves
    · intro session hne
      simp [view, setEntry, hlock, hne.symm, lookup_insert_ne hne]
  | detach other connection =>
    obtain ⟨entry, hentry, hstep⟩ := bind_eq_some_iff.mp hstep
    split_ifs at hstep with hdetaching hcurrent
    · cases hstep
      exact ⟨.of_quiet rfl (fun _ => rfl) (fun _ => id), fun _ => .stay⟩
    · cases hstep
      refine ⟨.of_quiet rfl (fun _ => rfl) (fun _ => id), fun session =>
        moves_at other ?_ ?_ (ite_self _).symm⟩
      · have hmoves : (registry.view other).Moves _ _ := .startDetach entry connection hentry
            (not_isSome_iff_eq_none.mp hdetaching) (not_not.mp hcurrent)
        simpa [eventAt, view, setEntry] using hmoves
      · intro session hne
        simp [view, setEntry, lookup_insert_ne hne]
  | finishDetach other connection read =>
    obtain ⟨entry, hentry, hstep⟩ := bind_eq_some_iff.mp hstep
    split_ifs at hstep with hdetaching
    cases hstep
    refine ⟨.of_quiet rfl (fun _ => rfl) (fun _ => id), fun session =>
      moves_at other ?_ ?_ (ite_self _).symm⟩
    · have hmoves : (registry.view other).Moves _ _ :=
        .finishDetach entry connection (read + ttl) hentry hdetaching.1
      simpa [eventAt, view, setEntry] using hmoves
    · intro session hne
      simp [view, setEntry, lookup_insert_ne hne]
  | expireIfDetached => exact expireIfDetached_obeys hstep
  | remove other cause =>
    simp only [perform] at hstep
    split_ifs at hstep with hlock
    cases hstep
    refine ⟨.of_quiet rfl (fun _ => rfl) (by rintro _ ⟨⟩), fun session =>
      moves_at other ?_ ?_ (ite_self _).symm⟩
    · have hmoves : (registry.view other).Moves _ _ := .remove cause (phase_view_of_lock hlock)
      simpa [eventAt, view, doomedFor] using hmoves
    · intro session hne
      simp [view, doomedFor, hlock, hne.symm, count_erase_of_ne hne]
  | shutDownProcess other cause =>
    simp only [perform] at hstep
    split_ifs at hstep with hmem
    cases hstep
    refine ⟨.of_quiet rfl (fun session => ?_) (fun _ => id), fun session =>
      moves_at other ?_ ?_ rfl⟩
    · simp only [eventAt]
      split_ifs <;> rfl
    · have hmoves : (registry.view other).Moves _ _ :=
        .shutDownProcess cause (mem_doomedFor.mpr hmem)
      simpa [view, doomedFor_erase_self] using hmoves
    · intro session hne
      simp [view, doomedFor_erase_ne _ hne.symm]
  | shutdown =>
    simp only [perform] at hstep
    split_ifs at hstep with hlock
    cases hstep
    refine ⟨.of_quiet rfl (fun _ => rfl) (fun _ => id), fun session => ?_⟩
    have hmoves : (registry.view session).Moves _ _ :=
      .shutdown (phase_view_of_free (not_isSome_iff_eq_none.mp hlock))
    have hdoomed : doomedFor (registry.sessions.map (fun other =>
        (other, ShutdownCause.registry)) ++ registry.doomed) session =
        List.replicate (registry.sessions.count session) .registry ++
          doomedFor registry.doomed session := by
      rw [← doomedFor_map]
      exact filterMap_append
    simpa [eventAt, view, hdoomed] using hmoves
  | tick elapsed =>
    cases hstep
    exact ⟨.of_quiet rfl (fun _ => rfl) (fun _ => id), fun _ => .stay⟩

/-- Every session of every run lives by the rules. -/
theorem run_lives (hrun : Run (Step ttl) {} actions registry) (session : SessionId) :
    (registry.view session).Lives (attachments actions session)
      (shutdowns actions session) (.shutdown ∈ actions) := by
  refine @Run.history _ _ (Step ttl) _ _ _ (fun actions registry =>
    (registry.view session).Lives (attachments actions session)
      (shutdowns actions session) (.shutdown ∈ actions)) hrun
    ⟨Nat.le_refl 0, rfl, nofun, nofun, nofun, nofun, nofun⟩ ?_
  intro before registry action next _ hlives hstep
  have hmoves := hlives.moves ((step_obeys hstep).2 session)
  rw [attachments_concat, shutdowns_concat]
  refine { hmoves with registry := fun hmem => ?_ }
  rcases hmoves.registry hmem with hbefore | hevent
  · exact mem_append_left _ hbefore
  · exact mem_concat_of_registryDown before action session hevent

variable (hrun : Run (Step ttl) {} actions registry)
include hrun in
theorem run_attachedOnce : AttachedOnce actions registry := by
  refine hrun.history ⟨fun _ => nodup_nil, nofun, nofun⟩ ?_
  intro before registry action next _ hattached hstep
  exact hattached.step (step_obeys hstep).1

variable {session : SessionId}
include hrun in
/-- After another connection was attached, a connection is not the latest. -/
theorem latest_ne_of_resumedSince {connection : ConnectionId} {entry : SessionEntry ConnectionId}
    (hresumed : ResumedSince actions session connection)
    (hentry : registry.entries.lookup session = some entry) : entry.latest ≠ some connection := by
  obtain ⟨before, after, hattachments, hafter⟩ := hresumed
  have hlatest := (run_lives hrun session).latest
  have hnodup := (run_attachedOnce hrun).nodup session
  rw [hattachments] at hlatest hnodup
  intro hsome
  have hlast : after.getLast? = some connection := by
    rw [getLast?_append_cons, getLast?_cons_of_ne_nil hafter] at hlatest
    rw [hlatest]
    change (registry.entries.lookup session).bind _ = _
    rw [hentry, bind_some, hsome]
  have hmem := mem_of_getLast? hlast
  exact (nodup_cons.mp (nodup_append.mp hnodup).2.1).1 hmem

include hrun in
/-- What is left of an earlier connection changes nothing. -/
theorem actsFor_unchanged {connection : ConnectionId}
    (hresumed : ResumedSince actions session connection)
    (hacts : action.ActsFor session connection) (hstep : Step ttl registry action next) :
    next.entries = registry.entries ∧ next.sessions = registry.sessions ∧
      next.lock = registry.lock ∧ next.doomed = registry.doomed := by
  have hlives := run_lives hrun session
  have hlatest : ∀ entry, registry.entries.lookup session = some entry →
      entry.latest ≠ some connection :=
    fun entry => latest_ne_of_resumedSince hrun hresumed
  rw [Step] at hstep
  cases hacts with
  | detach =>
    obtain ⟨entry, hentry, hstep⟩ := bind_eq_some_iff.mp hstep
    split_ifs at hstep with hdetaching hcurrent
    · cases hstep
      exact ⟨rfl, rfl, rfl, rfl⟩
    · refine absurd ?_ (hlatest entry hentry)
      rw [latest, not_not.mp hcurrent, some_or]
  | finishDetach read =>
    obtain ⟨entry, hentry, hstep⟩ := bind_eq_some_iff.mp hstep
    split_ifs at hstep with hdetaching
    refine absurd ?_ (hlatest entry hentry)
    rw [latest, hlives.detaching entry connection hentry hdetaching.1, some_or]
  | expireIfDetached wakeAt read =>
    simp only [perform] at hstep
    split_ifs at hstep with hblocked
    cases hget : registry.get session with
    | none =>
      rw [hget] at hstep
      cases hstep
      exact ⟨rfl, rfl, rfl, rfl⟩
    | some entry =>
      rw [hget] at hstep
      simp only at hstep
      split_ifs at hstep with hdetaching hexpired
      · have hreleased := released_of_isDetachedConnectionExpired hexpired hdetaching
        exact absurd (hreleased.latest_eq) (hlatest entry (get_eq_some hget).2)
      · cases hstep
        exact ⟨rfl, rfl, rfl, rfl⟩
  | remove =>
    simp only [perform] at hstep
    split_ifs at hstep with hlock
    obtain ⟨-, entry, hentry, -, hreleased⟩ := hlives.held _ (phase_view_of_lock hlock)
    exact absurd (hreleased.latest_eq) (hlatest entry hentry)
  | shutDownProcess =>
    simp only [perform] at hstep
    split_ifs at hstep with hmem
    obtain ⟨entry, hentry, hreleased⟩ := hlives.doomed _ (mem_doomedFor.mpr hmem) (by rintro ⟨⟩)
    exact absurd (hreleased.latest_eq) (hlatest entry hentry)

include hrun in
/-- A session is shut down with no connection, or with the registry. -/
theorem shutDownProcess_detached {entry : SessionEntry ConnectionId}
    (hstep : Step ttl registry (.shutDownProcess session cause) next)
    (hentry : registry.entries.lookup session = some entry) (hdown : .shutdown ∉ actions) :
    entry.attachment.currentConnectionId = none := by
  have hlives := run_lives hrun session
  simp only [Step, perform] at hstep
  split_ifs at hstep with hmem
  have hdoomed := mem_doomedFor.mpr hmem
  by_cases hcause : cause = .registry
  · subst hcause
    exact absurd (hlives.registry hdoomed) hdown
  · obtain ⟨other, hother, hreleased⟩ := hlives.doomed cause hdoomed hcause
    obtain rfl := some.inj (hentry.symm.trans hother)
    exact hreleased.1.1

/-- In every interleaving a session has one connection at most, and its sender
but inside a resume or a detach; what an earlier connection has left does
nothing to a session that was resumed; and a session is shut down once at
most, with no connection unless the registry is shut down. -/
theorem session_attachment (hrun : Run (Step ttl) {} actions registry) (session : SessionId) :
    (∀ entry, registry.entries.lookup session = some entry →
      (∀ first second, entry.isAttachedTo first → entry.isAttachedTo second → first = second) ∧
      (entry.detaching = none →
        (∀ connection, registry.lock ≠ some (session, .senderSet connection)) →
        entry.notifications = entry.attachment.currentConnectionId) ∧
      (∀ connection, registry.lock = some (session, .senderSet connection) →
        entry.attachment.currentConnectionId = none ∧ entry.notifications = some connection) ∧
      (∀ connection, entry.detaching = some connection →
        entry.attachment.currentConnectionId = some connection ∧ entry.notifications = none)) ∧
    (∀ connection action next, ResumedSince actions session connection →
      action.ActsFor session connection → Step ttl registry action next →
      next.entries = registry.entries ∧ next.sessions = registry.sessions ∧
        next.lock = registry.lock ∧ next.doomed = registry.doomed) ∧
    shutdowns actions session ≤ 1 ∧
    (∀ cause next entry,
      Step ttl registry (.shutDownProcess session cause) next →
      registry.entries.lookup session = some entry →
      entry.attachment.currentConnectionId ≠ none → .shutdown ∈ actions) := by
  have hlives := run_lives hrun session
  refine ⟨fun entry hentry => ⟨?_, ?_, ?_, ?_⟩, ?_, ?_, ?_⟩
  · intro first second hfirst hsecond
    simp only [SessionEntry.isAttachedTo, decide_eq_true_eq] at hfirst hsecond
    exact Option.some.inj (hfirst.symm.trans hsecond)
  · intro hdetaching hlock
    rw [hlives.notifications entry hentry, SessionView.sender,
      sender_view_of_lock hlock, SessionEntry.settledSender, hdetaching]
    rfl
  · intro connection hlock
    have hphase := phase_view_of_lock hlock
    refine ⟨(hlives.held_alone hphase hentry).1.1, ?_⟩
    rw [hlives.notifications entry hentry, SessionView.sender, hphase]
    rfl
  · intro connection hdetaching
    have hcurrent := hlives.detaching entry connection hentry hdetaching
    refine ⟨hcurrent, ?_⟩
    rw [hlives.notifications entry hentry, SessionView.sender,
      hlives.sender_of_current hentry hcurrent, SessionEntry.settledSender, hdetaching]
    rfl
  · intro connection action next hresumed hacts hstep
    exact actsFor_unchanged hrun hresumed hacts hstep
  · have honce := hlives.once
    have hle := Bool.toNat_le (registry.view session).entry.isSome
    omega
  · intro cause next entry hstep hentry hcurrent
    by_contra hdown
    exact hcurrent (shutDownProcess_detached hrun hstep hentry hdown)

/-- A session that is resumed before the task of its first connection wakes
up. -/
def resumedInTime : List (RegistryAction Nat Nat) :=
  [.attachNew 0 0, .detach 0 0, .finishDetach 0 0 0, .resumeLookup 0 1 0,
    .resumeCheckFree, .resumeSetSender, .resumeAttach 0 1, .tick 30]

theorem session_attachment_resumedInTime :
    ∃ registry entry, Run (Step 30) {} resumedInTime registry ∧
      registry.entries.lookup 0 = some entry ∧
      entry.notifications = entry.attachment.currentConnectionId ∧
      (∀ next, Step 30 registry (.expireIfDetached 0 0 30 30) next →
        next.sessions = registry.sessions) ∧
      shutdowns resumedInTime 0 ≤ 1 := by
  have hrun := Run.of_performAll (rfl : performAll (perform 30) {} resumedInTime = some _)
  obtain ⟨hentry, hearlier, honce, -⟩ := session_attachment hrun 0
  refine ⟨_, _, hrun, rfl, (hentry _ rfl).2.1 rfl nofun, fun next hstep => ?_, honce⟩
  have hresumed : ResumedSince resumedInTime 0 0 := ⟨[], [1], rfl, nofun⟩
  exact (hearlier 0 _ next hresumed (.expireIfDetached 30 30) hstep).2.1

/-- A resume between its sender and its attachment. -/
def resumedHalfway : List (RegistryAction Nat Nat) :=
  [.attachNew 0 0, .detach 0 0, .finishDetach 0 0 0, .resumeLookup 0 1 0,
    .resumeCheckFree, .resumeSetSender]

theorem sender_before_attachment :
    ∃ registry entry, Run (Step 30) {} resumedHalfway registry ∧
      registry.entries.lookup 0 = some entry ∧
      entry.attachment.currentConnectionId = none ∧
      entry.notifications = some 1 :=
  ⟨_, _, Run.of_performAll (rfl : performAll (perform 30) {}
    resumedHalfway = some _), rfl, rfl, rfl⟩

end SessionRegistry

end Hexa.ExecServer
