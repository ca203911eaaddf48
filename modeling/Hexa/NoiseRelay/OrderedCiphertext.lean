/-
The reorder buffer in front of the implicit Noise receive nonce.  Records
arrive in any order, and the buffer releases them in sequence order, each one
at most once, within a bounded window and a bounded number of bytes.
-/
import Hexa.Lib.KeyedTable
import Hexa.NoiseRelay.MessageFraming

namespace Hexa.NoiseRelay

open Finset

def maxReorderDistance : Nat := 64
def maxPendingBytes : Nat := 1024 * 1024

/-- `u32::MAX`. -/
def u32Max : Nat := 2 ^ 32 - 1

/-- `OrderedCiphertextFrames`.  The map's type keeps one payload a key. -/
structure OrderedCiphertextFrames where
  nextSeq : Nat := 0
  pending : AList (fun _ : Nat => Bytes) := ∅
  pendingBytes : Nat := 0

namespace OrderedCiphertextFrames

def advance (frames : OrderedCiphertextFrames) : Except ExecServerError OrderedCiphertextFrames :=
  if frames.nextSeq = u32Max then .error (.protocol "Noise relay sequence number exhausted")
  else .ok { frames with nextSeq := frames.nextSeq + 1 }

/-- `self.pending.remove(&self.next_seq)` together with the byte count. -/
def removeNext (frames : OrderedCiphertextFrames) (payload : Bytes) : OrderedCiphertextFrames :=
  { frames with
    pending := frames.pending.erase frames.nextSeq
    pendingBytes := frames.pendingBytes - payload.length }

/-- The `while let Some(payload)` loop of `push`. -/
def releaseContiguous (frames : OrderedCiphertextFrames) (ready : List Bytes) :
    OrderedCiphertextFrames × Except ExecServerError (List Bytes) :=
  match _hnext : frames.pending.lookup frames.nextSeq with
  | none => (frames, .ok ready)
  | some payload =>
    match _hadvance : (frames.removeNext payload).advance with
    | .error error => (frames.removeNext payload, .error error)
    | .ok advanced => advanced.releaseContiguous (ready ++ [payload])
termination_by frames.pending.entries.length
decreasing_by
  rw [advance] at _hadvance
  split at _hadvance
  · cases _hadvance
  · cases _hadvance
    change (AList.erase _ frames.pending).entries.length < _
    rw [(KeyedTable.entries_perm_erase _hnext).length_eq]
    exact Nat.lt_succ_self _

/-- `OrderedCiphertextFrames::push`.  The state is returned also on an error,
as `push` mutates it in place. -/
def push (frames : OrderedCiphertextFrames) (seq : Nat) (payload : Bytes) :
    OrderedCiphertextFrames × Except ExecServerError (List Bytes) :=
  if seq < frames.nextSeq ∨ seq ∈ frames.pending then (frames, .ok [])
  else if seq > frames.nextSeq then
    if seq - frames.nextSeq > maxReorderDistance then
      (frames, .error (.protocol "Noise relay ciphertext exceeds reorder window"))
    else if frames.pendingBytes + payload.length > maxPendingBytes then
      (frames, .error (.protocol "Noise relay pending ciphertext buffer is full"))
    else
      ({ frames with
          pending := frames.pending.insert seq payload
          pendingBytes := frames.pendingBytes + payload.length }, .ok [])
  else
    match frames.advance with
    | .error error => (frames, .error error)
    | .ok advanced => advanced.releaseContiguous [payload]

end OrderedCiphertextFrames

/-- The bytes a receiver has to hold when the records with the sequence
numbers `arrived` have come in and `next` is the next one to release. -/
def heldBytes (sent : List Bytes) (arrived : Finset Nat) (next : Nat) : Nat :=
  ∑ seq ∈ arrived.filter (next ≤ ·), (sent[seq]?.getD []).length

/-- `next` is the first sequence number that has not arrived. -/
def FirstMissing (arrived : Finset Nat) (next : Nat) : Prop :=
  (∀ seq < next, seq ∈ arrived) ∧ next ∉ arrived

instance (arrived : Finset Nat) (next : Nat) : Decidable (FirstMissing arrived next) :=
  inferInstanceAs (Decidable (_ ∧ _))

/-- The buffer state is a function of the records that arrived: what is below
`nextSeq` has been released, the rest of what arrived is pending. -/
structure Buffers (sent : List Bytes) (arrived : Finset Nat)
    (frames : OrderedCiphertextFrames) : Prop where
  arrived_lt : ∀ seq ∈ arrived, seq < sent.length
  released : ∀ seq < frames.nextSeq, seq ∈ arrived
  lookup_iff : ∀ seq payload, frames.pending.lookup seq = some payload ↔
    frames.nextSeq ≤ seq ∧ seq ∈ arrived ∧ sent[seq]? = some payload
  bytes_eq : frames.pendingBytes = heldBytes sent arrived frames.nextSeq

theorem buffers_initial (sent : List Bytes) : Buffers sent ∅ {} where
  arrived_lt := by simp
  released := by simp
  lookup_iff := by simp
  bytes_eq := by simp [heldBytes]

variable {sent : List Bytes} {arrived : Finset Nat} {frames : OrderedCiphertextFrames}

theorem Buffers.mem_pending_iff (hbuffers : Buffers sent arrived frames) (seq : Nat) :
    seq ∈ frames.pending ↔ frames.nextSeq ≤ seq ∧ seq ∈ arrived := by
  rw [← AList.lookup_isSome, Option.isSome_iff_exists]
  simp only [hbuffers.lookup_iff]
  constructor
  · rintro ⟨payload, hle, hmem, -⟩
    exact ⟨hle, hmem⟩
  · rintro ⟨hle, hmem⟩
    have hlt := hbuffers.arrived_lt seq hmem
    exact ⟨sent[seq], hle, hmem, List.getElem?_eq_getElem hlt⟩

variable {next : Nat} {payload : Bytes}

/-- Raising the cursor past a missing record changes nothing. -/
theorem heldBytes_succ_of_notMem (hmem : next ∉ arrived) :
    heldBytes sent arrived (next + 1) = heldBytes sent arrived next := by
  refine sum_congr (filter_congr ?_) (fun _ _ => rfl)
  intro seq hseq
  have hne : seq ≠ next := by
    rintro rfl
    exact hmem hseq
  omega

variable {seq : Nat}

theorem heldBytes_insert (hnew : seq ∉ arrived) (hle : next ≤ seq)
    (hsent : sent[seq]? = some payload) :
    heldBytes sent (insert seq arrived) next = heldBytes sent arrived next + payload.length := by
  rw [heldBytes, filter_insert, if_pos hle, sum_insert (by simp [hnew]), hsent, Nat.add_comm]
  rfl

theorem heldBytes_insert_of_lt (hlt : seq < next) :
    heldBytes sent (insert seq arrived) next = heldBytes sent arrived next := by
  rw [heldBytes, filter_insert, if_neg (by omega), heldBytes]

/-- Raising the cursor past an arrived record takes its bytes out. -/
theorem heldBytes_succ (hmem : next ∈ arrived) (hsent : sent[next]? = some payload) :
    heldBytes sent arrived next = payload.length + heldBytes sent arrived (next + 1) := by
  have hrest := notMem_erase next arrived
  rw [← insert_erase hmem, heldBytes_insert hrest le_rfl hsent,
    heldBytes_insert_of_lt (Nat.lt_succ_self next), heldBytes_succ_of_notMem hrest, Nat.add_comm]

namespace OrderedCiphertextFrames

variable {sent : List Bytes} {arrived : Finset Nat} {frames : OrderedCiphertextFrames}

theorem advance_of_lt (hlt : frames.nextSeq < u32Max) :
    frames.advance = .ok { frames with nextSeq := frames.nextSeq + 1 } := by
  rw [advance, if_neg (by omega)]

/-- Taking the next record out of the pending map moves the cursor by one. -/
theorem buffers_removeNext {payload : Bytes} (hbuffers : Buffers sent arrived frames)
    (hnext : frames.pending.lookup frames.nextSeq = some payload) :
    Buffers sent arrived { frames.removeNext payload with nextSeq := frames.nextSeq + 1 } := by
  obtain ⟨-, hmem, hsent⟩ := (hbuffers.lookup_iff _ _).mp hnext
  refine ⟨hbuffers.arrived_lt, ?_, ?_, ?_⟩
  · intro seq hseq
    rcases Nat.lt_succ_iff_lt_or_eq.mp hseq with hlt | heq
    · exact hbuffers.released seq hlt
    · exact heq ▸ hmem
  · intro seq found
    change (frames.pending.erase frames.nextSeq).lookup seq = some found ↔ _
    by_cases hseq : seq = frames.nextSeq
    · subst hseq
      simp
    · rw [AList.lookup_erase_ne hseq, hbuffers.lookup_iff]
      have hle : frames.nextSeq ≤ seq ↔ frames.nextSeq + 1 ≤ seq := by omega
      rw [hle]
  · change frames.pendingBytes - payload.length = _
    rw [hbuffers.bytes_eq, heldBytes_succ hmem hsent]
    simp

/-- The release loop stops at the first missing record and hands out the
records up to it in order.  It cannot fail when the cursor stays in range. -/
theorem releaseContiguous_spec (hbuffers : Buffers sent arrived frames)
    (hcount : sent.length ≤ u32Max) (ready : List Bytes) :
    ∃ frames' released, frames.releaseContiguous ready = (frames', .ok (ready ++ released)) ∧
        Buffers sent arrived frames' ∧ frames'.nextSeq ∉ arrived ∧
        sent.take frames'.nextSeq = sent.take frames.nextSeq ++ released := by
  induction frames, ready using releaseContiguous.induct with
  | case1 frames ready hnone =>
    refine ⟨frames, [], ?_, hbuffers, ?_, by simp⟩
    · rw [releaseContiguous]
      split
      · simp
      · simp_all
    · intro hmem
      have hpending := (hbuffers.mem_pending_iff frames.nextSeq).mpr ⟨le_rfl, hmem⟩
      rw [← AList.lookup_isSome, hnone] at hpending
      simp at hpending
  | case2 frames ready payload hnext error herror =>
    obtain ⟨-, hmem, -⟩ := (hbuffers.lookup_iff _ _).mp hnext
    have hlt := hbuffers.arrived_lt _ hmem
    rw [advance_of_lt (by change frames.nextSeq < u32Max; omega)] at herror
    cases herror
  | case3 frames ready payload hnext advanced hadvance ih =>
    obtain ⟨-, hmem, hsent⟩ := (hbuffers.lookup_iff _ _).mp hnext
    have hlt := hbuffers.arrived_lt _ hmem
    rw [advance_of_lt (by change frames.nextSeq < u32Max; omega)] at hadvance
    cases hadvance
    obtain ⟨frames', released, hrun, hinv, hmissing, htake⟩ :=
      ih (buffers_removeNext hbuffers hnext)
    refine ⟨frames', payload :: released, ?_, hinv, hmissing, ?_⟩
    · rw [releaseContiguous]
      split
      · simp_all
      · rename_i found hfound
        obtain rfl : payload = found := by simpa [hnext] using hfound
        rw [advance_of_lt (by change frames.nextSeq < u32Max; omega)]
        simpa using hrun
    · rw [htake]
      change sent.take (frames.nextSeq + 1) ++ released = _
      rw [List.take_add_one, hsent]
      simp

end OrderedCiphertextFrames

/-- The buffer between two pushes: it also waits for a record that has not
arrived. -/
structure Tracks (sent : List Bytes) (arrived : Finset Nat)
    (frames : OrderedCiphertextFrames) : Prop
    extends Buffers sent arrived frames where
  missing : frames.nextSeq ∉ arrived

/-- A new record goes beyond the limits of the reorder buffer. -/
def ExceedsLimits (sent : List Bytes) (arrived : Finset Nat) (next seq : Nat) : Prop :=
  seq - next > maxReorderDistance ∨ heldBytes sent (insert seq arrived) next > maxPendingBytes

theorem Buffers.insert_pending (hbuffers : Buffers sent arrived frames) (hnew : seq ∉ arrived)
    (hle : frames.nextSeq ≤ seq) (hsent : sent[seq]? = some payload) :
    Buffers sent (insert seq arrived)
      { frames with
        pending := frames.pending.insert seq payload
        pendingBytes := frames.pendingBytes + payload.length } := by
  refine ⟨?_, ?_, ?_, ?_⟩
  · intro other hother
    rcases mem_insert.mp hother with rfl | hold
    · exact (List.getElem?_eq_some_iff.mp hsent).1
    · exact hbuffers.arrived_lt other hold
  · intro other hother
    exact mem_insert_of_mem (hbuffers.released other hother)
  · intro other found
    by_cases hother : other = seq
    · subst hother
      simp [hle, hsent]
    · rw [AList.lookup_insert_ne hother, hbuffers.lookup_iff]
      simp [hother]
  · rw [hbuffers.bytes_eq]
    exact (heldBytes_insert hnew hle hsent).symm

open OrderedCiphertextFrames

/-- The next record passes through the map without a trace. -/
theorem Buffers.insert_next (hbuffers : Buffers sent arrived frames)
    (hmissing : frames.nextSeq ∉ arrived) (hsent : sent[frames.nextSeq]? = some payload) :
    Buffers sent (insert frames.nextSeq arrived)
      { frames with nextSeq := frames.nextSeq + 1 } := by
  have hfree : frames.nextSeq ∉ frames.pending := fun hheld =>
    hmissing ((hbuffers.mem_pending_iff _).mp hheld).2
  have hsame : (frames.pending.insert frames.nextSeq payload).erase
      frames.nextSeq = frames.pending := by
    rw [AList.insert_of_notMem hfree]
    simp [AList.erase]
  have hnext := buffers_removeNext
    (hbuffers.insert_pending hmissing le_rfl hsent) (AList.lookup_insert _)
  simpa [removeNext, hsame] using hnext

/-- One push of a sent record.  Either the buffer follows the enlarged set of
arrived records and hands out the records between the two cursors, or the
record is new, lies beyond the limits, and the buffer is unchanged. -/
theorem push_spec (htracks : Tracks sent arrived frames) (hcount : sent.length ≤ u32Max)
    (hsent : sent[seq]? = some payload) :
    (∃ frames' ready, frames.push seq payload = (frames', .ok ready) ∧
        Tracks sent (insert seq arrived) frames' ∧
        sent.take frames'.nextSeq = sent.take frames.nextSeq ++ ready) ∨
    (∃ error, frames.push seq payload = (frames, .error error) ∧
        frames.nextSeq < seq ∧ seq ∉ arrived ∧
        ExceedsLimits sent arrived frames.nextSeq seq) := by
  have hbuffers := htracks.toBuffers
  have hpending := hbuffers.mem_pending_iff seq
  rw [push]
  by_cases hold : seq < frames.nextSeq ∨ seq ∈ frames.pending
  · have hmem : seq ∈ arrived := by
      rcases hold with hlt | hheld
      · exact htracks.released seq hlt
      · exact (hpending.mp hheld).2
    rw [if_pos hold, insert_eq_of_mem hmem]
    exact .inl ⟨frames, [], rfl, htracks, by simp⟩
  · rw [if_neg hold]
    simp only [not_or, Nat.not_lt] at hold
    obtain ⟨hle, hnotPending⟩ := hold
    have hnew : seq ∉ arrived := fun hmem => hnotPending (hpending.mpr ⟨hle, hmem⟩)
    have hheld := heldBytes_insert hnew hle hsent
    rw [← hbuffers.bytes_eq] at hheld
    by_cases hgap : seq > frames.nextSeq
    · rw [if_pos hgap]
      by_cases hwindow : seq - frames.nextSeq > maxReorderDistance
      · rw [if_pos hwindow]
        exact .inr ⟨_, rfl, hgap, hnew, .inl hwindow⟩
      · rw [if_neg hwindow]
        by_cases hfull : frames.pendingBytes + payload.length > maxPendingBytes
        · rw [if_pos hfull]
          exact .inr ⟨_, rfl, hgap, hnew, .inr (hheld ▸ hfull)⟩
        · rw [if_neg hfull]
          refine .inl ⟨_, [], rfl, ⟨?_, ?_⟩, by simp⟩
          · exact hbuffers.insert_pending hnew hle hsent
          · change frames.nextSeq ∉ insert seq arrived
            rw [mem_insert, not_or]
            exact ⟨by omega, htracks.missing⟩
    · rw [if_neg hgap]
      obtain rfl : seq = frames.nextSeq := by omega
      have hlt := (List.getElem?_eq_some_iff.mp hsent).1
      rw [advance_of_lt (by omega)]
      obtain ⟨frames', released, hrun, hinv, hmissing, htake⟩ :=
        releaseContiguous_spec (hbuffers.insert_next htracks.missing hsent) hcount [payload]
      refine .inl ⟨frames', _, hrun, ⟨hinv, hmissing⟩, ?_⟩
      rw [htake]
      rw [List.take_add_one, hsent]
      simp

end Hexa.NoiseRelay
