/-
What the calls of the executor do to the files: no call makes a link or a
device, and where there are none in the way each changes one path.
-/
import Hexa.ApplyPatch.Apply

namespace Hexa.ApplyPatch

open FileTree Permissions

section Calls

variable {tree : FileTree}

theorem attempt_cases (tree : FileTree) (result : Except IoErrorKind FileTree) :
    (∃ next, result = .ok next ∧ attempt tree result = (next, none)) ∨
      ∃ kind, result = .error kind ∧ attempt tree result = (tree, some kind) := by
  cases result with
  | ok next => exact .inl ⟨next, rfl, rfl⟩
  | error kind => exact .inr ⟨kind, rfl, rfl⟩

variable {result : Except IoErrorKind FileTree}

/-- What a call that is attempted keeps when it succeeds, it keeps. -/
theorem attempt_keeps {Keeps : FileTree → Prop} (hsame : Keeps tree)
    (hnext : ∀ next, result = .ok next → Keeps next) : Keeps (attempt tree result).1 := by
  rcases attempt_cases tree result with ⟨next, hok, heq⟩ | ⟨kind, -, heq⟩
  · rw [heq]
    exact hnext next hok
  · rw [heq]
    exact hsame

theorem attempt_ok {next : FileTree} (hnext : attempt tree result = (next, none)) :
    result = .ok next := by
  rcases attempt_cases tree result with ⟨other, hok, heq⟩ | ⟨kind, -, heq⟩
  · rw [heq] at hnext
    cases hnext
    exact hok
  · rw [heq] at hnext
    cases hnext

variable [UrlCrates] {native : NativePaths} {follow : Bool} {path : PathUri} {place : FilePath}

/-- A call that succeeds has a place. -/
theorem callAt_ok {Result : Type} {call : FilePath → Except IoErrorKind Result} {value : Result}
    (hok : callAt native path call = .ok value) :
    ∃ place, native.toAbsPath path = some place ∧ call place = .ok value := by
  rw [callAt] at hok
  split at hok
  next place hplace => exact ⟨place, hplace, hok⟩
  · cases hok

theorem callAt_place {Result : Type} (hplace : native.toAbsPath path = some place)
    (call : FilePath → Except IoErrorKind Result) : callAt native path call = call place := by
  rw [callAt, hplace]

variable {content : Text} {after : FileTree} {error : Option IoErrorKind} {fault : WriteFault}

theorem writeFile_tame
    (hafter : writeFile native follow path tree fault content = (after, error)) :
    Tame tree after := by
  have hattempt : ∀ left, Tame tree
      (attempt tree (callAt native path (tree.write follow · left))).1 := by
    refine fun left => attempt_keeps (Tame.refl tree) fun next hnext => ?_
    obtain ⟨place, -, hwrite⟩ := callAt_ok hnext
    exact write_tame tree next hwrite
  obtain rfl := congrArg Prod.fst hafter
  cases fault with
  | none => exact hattempt (.text content)
  | untouched => exact Tame.refl tree
  | leaves left => exact hattempt left

theorem fileAt_writeFile (hplace : native.toAbsPath path = some place)
    (hordinary : tree.Ordinary place) {written : FileTree}
    (hwritten : writeFile native follow path tree fault content = (written, none)) :
    written.fileAt = Function.update tree.fileAt place (some (.file (.text content))) := by
  cases fault with
  | none =>
    have hwrite := attempt_ok hwritten
    rw [callAt_place hplace] at hwrite
    exact fileAt_write hordinary hwrite
  | untouched | leaves left => cases hwritten

variable {faults : Faults}

theorem createParent_addsDirectories {created : FileTree}
    (hcreated : createParent native faults follow path tree = (created, error)) :
    AddsDirectories tree created := by
  have hsame : AddsDirectories tree tree := fun path => .inl rfl
  have hattempt : ∀ (parent : PathUri) (names : FilePath → FilePath), AddsDirectories tree
      (attempt tree (callAt native parent
        (fun place => tree.createDirectories follow (names place)))).1 := by
    refine fun parent names => attempt_keeps hsame fun next hnext => ?_
    obtain ⟨place, -, hcreate⟩ := callAt_ok hnext
    exact createFrom_addsDirectories follow (names place) tree next [] hcreate
  obtain rfl := congrArg Prod.fst hcreated
  unfold createParent createDirectory
  split
  · exact hsame
  · split
    · exact hattempt _ id
    · exact hattempt _ _

theorem writeFileWithMissingParentRetry_tame {error : Option ApplyPatchError}
    (hafter : writeFileWithMissingParentRetry native faults follow path tree content =
      (after, error)) :
    Tame tree after := by
  unfold writeFileWithMissingParentRetry at hafter
  split at hafter
  next heq =>
    cases hafter
    exact writeFile_tame heq
  next heq =>
    cases hafter
    exact writeFile_tame heq
  next failed heq =>
    have hfailed : Tame tree failed := writeFile_tame heq
    split at hafter
    next hcreated =>
      cases hafter
      exact hfailed.trans (createParent_addsDirectories hcreated).tame
    next hcreated =>
      have hparent := hfailed.trans (createParent_addsDirectories hcreated).tame
      split at hafter
      next hwritten =>
        cases hafter
        exact hparent.trans (writeFile_tame hwritten)
      next hwritten =>
        cases hafter
        exact hparent.trans (writeFile_tame hwritten)

/-- A write that fails because nothing is there has changed nothing. -/
theorem writeFile_notFound {failed : FileTree}
    (hfailed : writeFile native follow path tree fault content = (failed, some .notFound)) :
    failed = tree := by
  cases fault with
  | none =>
    simp only [writeFile] at hfailed
    rcases attempt_cases tree (callAt native path (tree.write follow · (.text content))) with
      ⟨next, -, heq⟩ | ⟨kind, -, heq⟩
    · rw [heq] at hfailed
      cases hfailed
    · rw [heq] at hfailed
      exact (Prod.mk.inj hfailed).1.symm
  | untouched | leaves left => cases hfailed

theorem fileAt_writeFileWithMissingParentRetry (hplace : native.toAbsPath path = some place)
    (hordinary : tree.Ordinary place) {written : FileTree}
    (hwritten : writeFileWithMissingParentRetry native faults follow path tree content =
      (written, none)) :
    written.fileAt = Function.update tree.fileAt place (some (.file (.text content))) := by
  unfold writeFileWithMissingParentRetry at hwritten
  split at hwritten
  next first heq =>
    cases hwritten
    exact fileAt_writeFile hplace hordinary heq
  · cases hwritten
  next failed heq =>
    obtain rfl := writeFile_notFound heq
    split at hwritten
    · cases hwritten
    next created hcreated =>
      have hadds := createParent_addsDirectories hcreated
      split at hwritten
      next second hsecond =>
        cases hwritten
        rw [fileAt_writeFile hplace (hadds.tame.ordinary hordinary) hsecond, hadds.fileAt]
      · cases hwritten

theorem removeFile_tame {fault : RemoveFault}
    (hafter : removeFile native follow path tree fault = (after, error)) : Tame tree after := by
  have hattempt : Tame tree (attempt tree (callAt native path (tree.remove follow))).1 := by
    refine attempt_keeps (Tame.refl tree) fun next hnext => ?_
    obtain ⟨place, -, hremove⟩ := callAt_ok hnext
    exact remove_tame tree next hremove
  obtain rfl := congrArg Prod.fst hafter
  cases fault with
  | none | removed => exact hattempt
  | kept => exact Tame.refl tree

/-- Whatever a removal reports, the file is still there or it is gone. -/
theorem removeFile_cases (hplace : native.toAbsPath path = some place)
    (hfree : tree.LinkFree place) {fault : RemoveFault}
    (hafter : removeFile native follow path tree fault = (after, error)) :
    (after = tree ∧ error ≠ none) ∨ after.fileAt = Function.update tree.fileAt place none := by
  rcases attempt_cases tree (callAt native path (tree.remove follow)) with
    ⟨next, hok, heq⟩ | ⟨kind, -, heq⟩
  · rw [callAt_place hplace] at hok
    have hgone := (fileAt_remove hfree hok).2
    cases fault with
    | none =>
      cases heq.symm.trans hafter
      exact .inr hgone
    | kept =>
      cases hafter
      exact .inl ⟨rfl, by simp⟩
    | removed =>
      simp only [removeFile, heq] at hafter
      cases hafter
      exact .inr hgone
  · left
    cases fault with
  | none =>
    cases heq.symm.trans hafter
    exact ⟨rfl, by simp⟩
  | kept =>
    cases hafter
    exact ⟨rfl, by simp⟩
  | removed =>
    simp only [removeFile, heq] at hafter
    cases hafter
    exact ⟨rfl, by simp⟩

variable {expected : Option Text} {context : Text} {exact : Bool}

theorem fileAt_removeExpected (hplace : native.toAbsPath path = some place)
    (hfree : tree.LinkFree place) {found : Bool} {removed : FileTree}
    (hremoved : removeExpected native faults follow path tree context expected exact =
      (removed, found, none)) : removed.fileAt = Function.update tree.fileAt place none := by
  unfold removeExpected at hremoved
  split at hremoved
  · cases hremoved
  · split at hremoved
    next heq =>
      cases hremoved
      refine (removeFile_cases hplace hfree heq).resolve_left ?_
      exact fun hkept => hkept.2 rfl
    · cases hremoved

theorem readFileText_ok (hplace : native.toAbsPath path = some place)
    (hfree : tree.LinkFree place) {failed : Bool}
    (hread : readFileText native follow path tree failed = .ok content) :
    tree.text place = some content := by
  unfold readFileText at hread
  split at hread
  · cases hread
  · rw [callAt_place hplace] at hread
    rw [← toOption_readText hfree follow, hread]
    rfl

theorem removeExpected_exact {error : Option ApplyPatchError}
    (hafter : removeExpected native faults follow path tree context expected exact =
      (after, true, error)) : exact = true := by
  unfold removeExpected at hafter
  split at hafter
  · cases hafter
    rfl
  · split at hafter
    · cases hafter
      rfl
    · simp only [Prod.mk.injEq, Bool.and_eq_true] at hafter
      exact hafter.2.1.1

/-- A removal that fails and leaves the delta exact has left the texts. -/
theorem text_removeExpected (hplace : native.toAbsPath path = some place)
    (hfree : tree.LinkFree place) {failed : FileTree} {error : ApplyPatchError}
    (hfailed : removeExpected native faults follow path tree context expected exact =
      (failed, true, some error)) : failed.text = tree.text := by
  unfold removeExpected at hfailed
  split at hfailed
  · cases hfailed
    rfl
  · split at hfailed
    · cases hfailed
    next after kind heq =>
      simp only [Prod.mk.injEq, Bool.and_eq_true] at hfailed
      obtain ⟨rfl, ⟨-, hagain⟩, -⟩ := hfailed
      rcases removeFile_cases hplace hfree heq with ⟨rfl, -⟩ | hgone
      · rfl
      · -- The text was read again, so the file is not gone.
        exfalso
        unfold removeFailureWasSideEffectFree at hagain
        split at hagain
        · cases hagain
        · split at hagain
          next found hfound =>
            have hpresent := readFileText_ok hplace ((removeFile_tame heq).linkFree hfree) hfound
            rw [text_of_update hgone] at hpresent
            simp at hpresent
          · cases hagain

end Calls

end Hexa.ApplyPatch
