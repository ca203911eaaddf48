/-
The reorder buffer over any pushes: what it holds lies in the window behind
the next expected record and is counted exactly, and what it has released are
pushed records in the order of their sequence numbers.
-/
import Hexa.NoiseRelay.OrderedCiphertext

namespace Hexa.NoiseRelay.OrderedCiphertextFrames

open List AList

def heldLength (frames : OrderedCiphertextFrames) : Nat :=
  (frames.pending.entries.map (fun entry => entry.2.length)).sum

/-- The pushes of a whole life of the buffer, with all that it releases. -/
def pushAll (pushes : List (Nat × Bytes)) : OrderedCiphertextFrames × List Bytes :=
  pushes.foldl (fun (frames, released) (seq, payload) =>
    ((frames.push seq payload).1,
      released ++ (frames.push seq payload).2.toOption.getD [])) ({}, [])

/-- A round of the release loop behind which it goes on. -/
def Releases (frames next : OrderedCiphertextFrames) : Prop :=
  ∃ payload, frames.pending.lookup frames.nextSeq = some payload ∧
    (frames.removeNext payload).advance = .ok next

/-- What holds also between two rounds of the release loop. -/
structure Ordered (pushes : List (Nat × Bytes)) (frames : OrderedCiphertextFrames) : Prop where
  window : ∀ seq ∈ frames.pending, frames.nextSeq ≤ seq ∧
    seq ≤ frames.nextSeq + maxReorderDistance
  pushed : ∀ seq payload, frames.pending.lookup seq = some payload → (seq, payload) ∈ pushes
  bytes : frames.pendingBytes = frames.heldLength
  limit : frames.pendingBytes ≤ maxPendingBytes

/-- The buffer between two pushes, with what it has released so far. -/
structure Idle (pushes : List (Nat × Bytes)) (frames : OrderedCiphertextFrames)
    (released : List Bytes) : Prop extends Ordered pushes frames where
  above : ∀ seq ∈ frames.pending, frames.nextSeq < seq
  consecutive : released.zipIdx.map Prod.swap ⊆ pushes
  count : released.length = frames.nextSeq ∨ frames.nextSeq = u32Max

variable {pushes : List (Nat × Bytes)} {frames next : OrderedCiphertextFrames} {payload : Bytes}
  {seq : Nat} {ready released : List Bytes}

theorem heldLength_eq (hheld : frames.pending.lookup seq = some payload) :
    frames.heldLength = payload.length +
      ((frames.pending.erase seq).entries.map (fun entry => entry.2.length)).sum := by
  rw [heldLength, ((KeyedTable.entries_perm_erase hheld).map _).sum_eq, map_cons, sum_cons]

theorem advance_eq_ok (hadvance : frames.advance = .ok next) :
    next = { frames with nextSeq := frames.nextSeq + 1 } := by
  rw [advance] at hadvance
  split_ifs at hadvance
  exact (Except.ok.inj hadvance).symm

/-- Behind what is above the cursor, the cursor can move. -/
theorem Ordered.advance (hordered : Ordered pushes frames)
    (habove : ∀ seq ∈ frames.pending, frames.nextSeq < seq) :
    Ordered pushes { frames with nextSeq := frames.nextSeq + 1 } :=
  { hordered with
    window := fun seq hmem => ⟨habove seq hmem, (hordered.window seq hmem).2.trans (by simp)⟩ }

theorem Ordered.removeNext (hordered : Ordered pushes frames)
    (hnext : frames.pending.lookup frames.nextSeq = some payload) :
    Ordered pushes (frames.removeNext payload) ∧
      ∀ seq ∈ (frames.removeNext payload).pending, frames.nextSeq < seq := by
  refine ⟨⟨fun seq hmem => hordered.window seq (mem_erase.mp hmem).2,
    fun seq held hheld => hordered.pushed seq held (KeyedTable.lookup_of_lookup_erase hheld).2,
    Nat.sub_eq_of_eq_add' (hordered.bytes.trans (heldLength_eq hnext)),
    (Nat.sub_le ..).trans hordered.limit⟩, fun seq hmem => ?_⟩
  obtain ⟨hne, hold⟩ := mem_erase.mp hmem
  exact Nat.lt_of_le_of_ne (hordered.window seq hold).1 (Ne.symm hne)

/-- The release loop hands out pushed records that follow those before it,
until one is missing or the numbers end. -/
theorem Ordered.releaseContiguous (hordered : Ordered pushes frames)
    (hreleased : (released ++ ready).zipIdx.map Prod.swap ⊆ pushes)
    (hlength : (released ++ ready).length = frames.nextSeq) :
    Idle pushes (frames.releaseContiguous ready).1
      (released ++ (frames.releaseContiguous ready).2.toOption.getD []) := by
  fun_induction OrderedCiphertextFrames.releaseContiguous frames ready with
  | case1 frames ready hnone =>
    refine ⟨hordered, fun seq hmem => ?_, hreleased, .inl hlength⟩
    apply Nat.lt_of_le_of_ne (hordered.window seq hmem).1
    rintro rfl
    exact lookup_eq_none.mp hnone hmem
  | case2 frames ready payload hnext error herror =>
    obtain ⟨hkept, habove⟩ := hordered.removeNext hnext
    rw [OrderedCiphertextFrames.advance] at herror
    split_ifs at herror with hmax
    rw [zipIdx_append, map_append, append_subset] at hreleased
    exact ⟨hkept, habove, (append_nil released).symm ▸ hreleased.1, .inr hmax⟩
  | case3 frames ready payload hnext advanced hadvance ih =>
    obtain ⟨hkept, habove⟩ := hordered.removeNext hnext
    obtain rfl := advance_eq_ok hadvance
    refine ih (hkept.advance habove) ?_ ?_ <;> rw [← append_assoc]
    · rw [zipIdx_append, map_append, append_subset, hlength]
      exact ⟨hreleased, by simpa using hordered.pushed _ _ hnext⟩
    · rw [length_append, hlength]
      rfl

theorem nextSeq_le_releaseContiguous (ready : List Bytes) :
    frames.nextSeq ≤ (frames.releaseContiguous ready).1.nextSeq := by
  fun_induction releaseContiguous frames ready with
  | case1 | case2 => exact le_rfl
  | case3 frames ready payload hnext advanced hadvance ih =>
    obtain rfl := advance_eq_ok hadvance
    exact (Nat.le_succ _).trans ih

theorem Idle.push (hidle : Idle pushes frames released) (seq : Nat) (payload : Bytes) :
    Idle (pushes ++ [(seq, payload)]) (frames.push seq payload).1
      (released ++ (frames.push seq payload).2.toOption.getD []) := by
  have hconsecutive := subset_append_of_subset_left [(seq, payload)] hidle.consecutive
  have hsame : Idle (pushes ++ [(seq, payload)]) frames (released ++ []) := by
    rw [append_nil]
    exact { hidle with
      consecutive := hconsecutive
      pushed := fun seq payload hheld => mem_append_left _ (hidle.pushed seq payload hheld) }
  rw [OrderedCiphertextFrames.push]
  split_ifs with hold hgap hwindow hfull
  · exact hsame
  · exact hsame
  · exact hsame
  · have hnew : seq ∉ frames.pending := fun hmem => hold (.inr hmem)
    refine ⟨⟨fun other hmem => ?_, fun other held hheld => ?_, ?_,
      Nat.le_of_not_lt hfull⟩, fun other hmem => ?_, hsame.consecutive,
      hsame.count⟩
    · rcases (mem_insert _).mp hmem with rfl | hmem
      · exact ⟨hgap.le, by simp only; omega⟩
      · exact hidle.window other hmem
    · by_cases hother : other = seq
      · subst hother
        rw [lookup_insert, Option.some.injEq] at hheld
        simp [hheld]
      · rw [lookup_insert_ne hother] at hheld
        exact hsame.pushed other held hheld
    · rw [heldLength, entries_insert_of_notMem hnew, hidle.bytes, Nat.add_comm]
      rfl
    · rcases (mem_insert _).mp hmem with rfl | hmem
      · exact hgap
      · exact hidle.above other hmem
  · obtain rfl : seq = frames.nextSeq := by omega
    rw [OrderedCiphertextFrames.advance]
    split_ifs with hmax
    · exact hsame
    · have hlength := hidle.count.resolve_right hmax
      apply (hsame.toOrdered.advance hidle.above).releaseContiguous
      · rw [zipIdx_append, map_append, append_subset, hlength]
        exact ⟨hconsecutive, by simp⟩
      · rw [length_append, hlength]
        rfl

theorem Idle.rejected {error : ExecServerError} (hidle : Idle pushes frames released)
    (herror : (frames.push seq payload).2 = .error error) :
    (frames.push seq payload).1 = frames ↔ ¬(seq = frames.nextSeq ∧ frames.nextSeq ≠ u32Max) := by
  constructor
  · rintro hsame ⟨rfl, hmax⟩
    rw [OrderedCiphertextFrames.push, if_neg (fun hold => hold.elim
        (Nat.lt_irrefl _) (fun hmem => Nat.lt_irrefl _ (hidle.above _ hmem))),
      if_neg (Nat.lt_irrefl _), advance, if_neg hmax] at hsame
    have hmoved := hsame ▸ nextSeq_le_releaseContiguous [payload]
    exact absurd hmoved (Nat.not_succ_le_self _)
  · intro hother
    revert herror
    rw [OrderedCiphertextFrames.push]
    split_ifs with hold hgap hwindow hfull
    · exact fun _ => rfl
    · exact fun _ => rfl
    · exact fun _ => rfl
    · rintro ⟨⟩
    · have hlast : frames.nextSeq = u32Max := by
        by_contra hmax
        exact hother ⟨by omega, hmax⟩
      rw [advance, if_pos hlast]
      exact fun _ => rfl

theorem pushAll_concat (pushes : List (Nat × Bytes)) (seq : Nat) (payload : Bytes) :
    pushAll (pushes ++ [(seq, payload)]) =
      (((pushAll pushes).1.push seq payload).1, (pushAll pushes).2 ++
        ((pushAll pushes).1.push seq payload).2.toOption.getD []) := by
  rw [pushAll, foldl_append]
  rfl

/-- In every state of every run of pushes the pending records are strictly
behind the cursor and within the window, and their bytes are counted exactly
and within the limit, also in each round of the release loop.  The released
payloads are the pushed ones of the numbers from 0 on.  A rejected push leaves
the state alone unless it has the expected number, and not the last one. -/
theorem pushAll_ordered (pushes : List (Nat × Bytes)) :
    let (frames, released) := pushAll pushes
    (∀ seq ∈ frames.pending, frames.nextSeq < seq ∧ seq ≤ frames.nextSeq + maxReorderDistance) ∧
    frames.pendingBytes = frames.heldLength ∧
    frames.pendingBytes ≤ maxPendingBytes ∧
    (∀ round payload, Relation.ReflTransGen Releases
        { frames with nextSeq := frames.nextSeq + 1 } round →
      round.pending.lookup round.nextSeq = some payload →
      payload.length ≤ round.pendingBytes) ∧
    released.zipIdx.map Prod.swap ⊆ pushes ∧
    ∀ seq payload error, (frames.push seq payload).2 = .error error →
      ((frames.push seq payload).1 = frames ↔
        ¬(seq = frames.nextSeq ∧ frames.nextSeq ≠ u32Max)) := by
  have hidle : Idle pushes (pushAll pushes).1 (pushAll pushes).2 := by
    induction pushes using List.reverseRecOn with
    | nil => exact ⟨⟨nofun, nofun, rfl, Nat.zero_le _⟩, nofun, nofun, .inl rfl⟩
    | append_singleton pushes push ih =>
      rw [pushAll_concat]
      exact ih.push push.1 push.2
  refine ⟨fun seq hmem => ⟨hidle.above seq hmem, (hidle.window seq hmem).2⟩,
    hidle.bytes, hidle.limit, fun round payload hrounds hheld => ?_,
    hidle.consecutive, fun seq payload error => hidle.rejected⟩
  have hround : Ordered pushes round := by
    clear hheld
    induction hrounds with
    | refl => exact hidle.toOrdered.advance hidle.above
    | tail _ hstep ih =>
      obtain ⟨payload, hnext, hadvance⟩ := hstep
      obtain ⟨hkept, habove⟩ := ih.removeNext hnext
      obtain rfl := advance_eq_ok hadvance
      exact hkept.advance habove
  rw [hround.bytes, heldLength_eq hheld]
  exact Nat.le_add_right ..

theorem pushAll_range {count : Nat} (hcount : count ≤ u32Max) :
    pushAll ((range count).map (·, [])) = ({ nextSeq := count }, replicate count []) := by
  induction count with
  | zero => rfl
  | succ count ih =>
    have hpush : push { nextSeq := count } count [] =
        ({ nextSeq := count + 1 }, .ok [[]]) := by
      have hlt : count ≠ u32Max := by omega
      simp [push, advance, releaseContiguous, hlt]
    rw [range_succ, map_append, map_singleton, pushAll_concat,
      ih (Nat.le_of_succ_le hcount), hpush, replicate_succ']
    rfl

/-- The last number is pending when the one before it arrives. -/
theorem push_rejected_changes :
    ∃ pushes error, (∀ push ∈ pushes, push.1 ≤ u32Max) ∧
      ((pushAll pushes).1.push (u32Max - 1) []).2 = .error error ∧
      ((pushAll pushes).1.push (u32Max - 1) []).1 ≠ (pushAll pushes).1 := by
  let pushes : List (Nat × Bytes) := (range (u32Max - 1)).map (·, [])
  have hlast : (pushAll (pushes ++ [(u32Max, [])])).1 =
      { nextSeq := u32Max - 1, pending := .singleton u32Max [] } := by
    rw [pushAll_concat, pushAll_range (Nat.sub_le ..)]
    simp [push, u32Max, maxReorderDistance]
  refine ⟨pushes ++ [(u32Max, [])],
    .protocol "Noise relay sequence number exhausted", fun push hmem => ?_, ?_⟩
  · rcases mem_append.mp hmem with hmem | hmem
    · obtain ⟨seq, hseq, rfl⟩ := mem_map.mp hmem
      exact (mem_range.mp hseq).le.trans (Nat.sub_le ..)
    · rw [mem_singleton.mp hmem]
  · rw [hlast]
    simp [push, u32Max, advance, releaseContiguous, removeNext]
    exact ⟨rfl, fun hsame => absurd (congrArg nextSeq hsame) (by decide)⟩

end Hexa.NoiseRelay.OrderedCiphertextFrames
