/-
The delta of an application: when it is exact, its changes lead from the texts
before to the texts after, and back.
-/
import Hexa.Lib.Journal
import Hexa.ApplyPatch.Effects

namespace Hexa.ApplyPatch

open FileTree Function Permissions

section

variable {Path : Type} (toPlace : Path → Option FilePath)

/-- Another text at the place of a path. -/
def setText (path : Path) (text : Option Text) (files : FilePath → Option Text) :
    FilePath → Option Text :=
  match toPlace path with
  | some place => Function.update files place text
  | none => files

/-- The changes of a delta, as the turn diff makes them, on the texts of the
files. -/
def textJournal : Journal (FilePath → Option Text) (AppliedPatchChange Path) where
  redo recorded files :=
    match recorded.change with
    | .add content _ => setText toPlace recorded.path (some content) files
    | .delete _ => setText toPlace recorded.path none files
    | .update none _ _ newContent => setText toPlace recorded.path (some newContent) files
    | .update (some destination) _ _ newContent =>
      setText toPlace destination (some newContent) (setText toPlace recorded.path none files)
  undo recorded files :=
    match recorded.change with
    | .add _ overwritten => setText toPlace recorded.path overwritten files
    | .delete content => setText toPlace recorded.path (some content) files
    | .update none oldContent _ _ => setText toPlace recorded.path (some oldContent) files
    | .update (some destination) oldContent overwritten _ =>
      setText toPlace recorded.path (some oldContent)
        (setText toPlace destination overwritten files)

end

section Recorded

variable [UrlCrates] (native : NativePaths)

/-- No directory on the way to a URI is a link. -/
def Unlinked (tree : FileTree) (path : PathUri) : Prop :=
  ∀ place, native.toAbsPath path = some place → tree.LinkFree place.dropLast

/-- No directory on the way to a URI is a link, and a link at its end leads to
something. -/
structure Direct (tree : FileTree) (path : PathUri) : Prop where
  unlinked : Unlinked native tree path
  leads : ∀ place target, native.toAbsPath path = some place →
    tree.entry place = some (.symlink target) → tree.metadata true place ≠ .error .notFound

section Condition

variable (options : ApplyPatchOptions) (cwd : PathUri)

/-- What a hunk that comes to change a file needs: where links are followed, a
file that is read is not below a linked directory, one that is written is not
at a dangling link either, and none is moved to the place where it is. -/
def Hunk.Fits (faults : Faults) (tree : FileTree) : Hunk → Prop
  | .addFile file contents =>
    ∀ path written, cwd.join file = some path →
      writeFileWithMissingParentRetry native faults options.followSymlinks path tree contents =
        (written, none) →
      options.followSymlinks = true → Direct native tree path
  | .deleteFile file =>
    ∀ path content, cwd.join file = some path →
      readFileText native options.followSymlinks path tree faults.read = .ok content →
      options.followSymlinks = true → Unlinked native tree path
  | .updateFile file movePath chunks =>
    ∀ path original contents, cwd.join file = some path →
      deriveNewContentsFromChunks native options.followSymlinks path tree
        options.updateFileMode faults.read chunks = .ok (original, contents) →
      (options.followSymlinks = true → Unlinked native tree path) ∧
      ∀ target destination written, movePath = some target → cwd.join target = some destination →
        writeFileWithMissingParentRetry native faults options.followSymlinks destination tree
          contents = (written, none) →
        (options.followSymlinks = true → Direct native tree destination) ∧
          native.toAbsPath destination ≠ native.toAbsPath path

/-- Every hunk fits the files that the loop finds when it comes to it, while
the delta is exact. -/
def FitsAll : (Nat → Faults) → List Hunk → Progress → Prop
  | _, [], _ => True
  | faults, hunk :: hunks, progress =>
    (progress.delta.exact = true → hunk.Fits native options cwd (faults 0) progress.tree) ∧
      match applyHunk native options cwd (faults 0) hunk progress with
      | (next, none) => FitsAll (fun round => faults (round + 1)) hunks next
      | (_, some _) => True

end Condition

section

variable {native} {tree : FileTree} {follow : Bool} {path : PathUri}

/-- The metadata of a link below directories of its own are those of what it
leads to. -/
theorem Unlinked.metadata_eq (hunlinked : Unlinked native tree path) {place target : FilePath}
    (hplace : native.toAbsPath path = some place)
    (hlink : tree.entry place = some (.symlink target)) :
    tree.metadata true place =
      match tree.locate true place with
      | .error kind => .error kind
      | .ok found =>
        match tree.entry found with
        | none => .error .notFound
        | some entry => .ok (metadataOf entry true) := by
  have hparent := hunlinked place hplace
  cases hlast : place.getLast? with
  | none =>
    rw [List.getLast?_eq_none_iff.mp hlast, tree.root] at hlink
    cases hlink
  | some name =>
    obtain ⟨parent, rfl⟩ := List.getLast?_eq_some_iff.mp hlast
    rw [List.dropLast_concat] at hparent
    have hdirectory : tree.entry parent = some .directory :=
      tree.closed parent name (by simp [hlink])
    have hlocate : tree.locate true parent = .ok parent :=
      (locate_linkFree hparent true).resolve_right (by simp [hdirectory])
    have hmetadata := @FileTree.metadata.eq_1 tree true (parent ++ [name])
    simp only [locateEntry, List.getLast?_concat, List.dropLast_concat, hlocate, isDirectory,
      hdirectory, hlink, beq_self_eq_true, if_true] at hmetadata
    exact hmetadata

/-- At a URI that is reached without links, nothing or a regular file is no
link. -/
theorem Direct.linkFree (hdirect : Direct native tree path) {place : FilePath}
    (hplace : native.toAbsPath path = some place)
    (hmetadata : tree.metadata true place = .error .notFound ∨
      ∃ metadata, tree.metadata true place = .ok metadata ∧ metadata.isSymlink = false) :
    tree.LinkFree place := by
  have hplain : ∀ target, tree.entry place ≠ some (.symlink target) := by
    intro target hlink
    rcases hmetadata with hmissing | ⟨metadata, hok, hsymlink⟩
    · exact hdirect.leads place target hplace hlink hmissing
    · rw [hdirect.unlinked.metadata_eq hplace hlink] at hok
      split at hok
      · cases hok
      · split at hok
        · cases hok
        · cases hok
          cases hsymlink
  have hparent := hdirect.unlinked place hplace
  cases hlast : place.getLast? with
  | none =>
    rw [List.getLast?_eq_none_iff.mp hlast] at hparent ⊢
    exact hparent
  | some name =>
    obtain ⟨parent, rfl⟩ := List.getLast?_eq_some_iff.mp hlast
    rw [List.dropLast_concat] at hparent
    exact hparent.concat hplain

/-- What can be read is not at a dangling link. -/
theorem direct_of_read {failed : Bool} {content : Text}
    (hread : readFileText native follow path tree failed = .ok content)
    (hlinks : follow = true → Unlinked native tree path) :
    follow = true → Direct native tree path := by
  rintro rfl
  have hunlinked := hlinks rfl
  refine ⟨hunlinked, fun place target hplace hlink hmissing => ?_⟩
  rw [hunlinked.metadata_eq hplace hlink] at hmissing
  simp only [readFileText, callAt_place hplace, FileTree.readText] at hread
  grind

/-- A delta that stays exact is of a regular file, or of nothing.  Where
links are not followed, it is not of a path with a link. -/
theorem noteExistingPathDeltaSupport_exact (hlinks : follow = true → Direct native tree path)
    {failed exact : Bool}
    (hnoted : noteExistingPathDeltaSupport native follow path tree failed exact = true) :
    exact = true ∧ ∃ place, native.toAbsPath path = some place ∧ tree.Ordinary place := by
  simp only [noteExistingPathDeltaSupport, getMetadata] at hnoted
  cases failed with
  | true => simp at hnoted
  | false =>
    cases hplace : native.toAbsPath path with
    | none => simp [callAt, hplace] at hnoted
    | some place =>
      simp only [callAt_place hplace, Bool.false_eq_true, if_false] at hnoted
      have hmetadata : exact = true ∧ (tree.metadata follow place = .error .notFound ∨
          ∃ metadata, tree.metadata follow place = .ok metadata ∧
            (metadata.isFile && !metadata.isSymlink) = true) := by
        split at hnoted
        next metadata hok =>
          split_ifs at hnoted with hfile
          exact ⟨hnoted, .inr ⟨metadata, hok, hfile⟩⟩
        next hmissing => exact ⟨hnoted, .inl hmissing⟩
        · cases hnoted
      have hfree : tree.LinkFree place := by
        cases follow with
        | true =>
          refine (hlinks rfl).linkFree hplace (hmetadata.2.imp_right ?_)
          rintro ⟨metadata, hok, hfile⟩
          simp only [Bool.and_eq_true, Bool.not_eq_true'] at hfile
          exact ⟨metadata, hok, hfile.2⟩
        | false =>
          refine linkFree_of_metadata fun hother => ?_
          rcases hmetadata.2 with hmissing | ⟨metadata, hok, -⟩
          · rw [hmissing] at hother
            cases hother
          · rw [hok] at hother
            cases hother
      refine ⟨hmetadata.1, place, rfl, hfree, fun hentry => ?_⟩
      have hlocate := (locateEntry_linkFree hfree follow).resolve_right (by simp [hentry])
      have hspecial : tree.metadata follow place = .ok (metadataOf .special false) := by
        simp [metadata, hlocate, hentry]
      rcases hmetadata.2 with hmissing | ⟨metadata, hok, hfile⟩
      · rw [hspecial] at hmissing
        cases hmissing
      · rw [hspecial] at hok
        cases hok
        cases hfile

/-- A delta does not become exact again. -/
theorem exact_of_noteExistingPathDeltaSupport {failed exact : Bool}
    (hnoted : noteExistingPathDeltaSupport native follow path tree failed exact = true) :
    exact = true := by
  unfold noteExistingPathDeltaSupport at hnoted
  grind

theorem exact_of_readOptionalFileTextForDelta {metadataFailed readFailed exact : Bool}
    (hread : (readOptionalFileTextForDelta native follow path tree metadataFailed readFailed
      exact).1 = true) : exact = true := by
  simp only [readOptionalFileTextForDelta] at hread
  split at hread
  · exact exact_of_noteExistingPathDeltaSupport hread
  · exact exact_of_noteExistingPathDeltaSupport hread
  · cases hread

/-- What an exact delta says to have been there before was there. -/
theorem readOptionalFileTextForDelta_exact (hlinks : follow = true → Direct native tree path)
    {metadataFailed readFailed exact : Bool} {read : Bool × Option Text}
    (hread : readOptionalFileTextForDelta native follow path tree metadataFailed readFailed
      exact = read)
    (hexact : read.1 = true) : exact = true ∧ ∃ place, native.toAbsPath path = some place ∧
      tree.Ordinary place ∧ read.2 = tree.text place := by
  subst hread
  simp only [readOptionalFileTextForDelta, readFileText] at hexact ⊢
  cases readFailed with
  | true => simp at hexact
  | false =>
    simp only [Bool.false_eq_true, if_false] at hexact ⊢
    have hfound : ∀ {read : Except IoErrorKind Text},
        callAt native path (tree.readText follow) = read →
        noteExistingPathDeltaSupport native follow path tree metadataFailed exact = true →
        exact = true ∧ ∃ place, native.toAbsPath path = some place ∧ tree.Ordinary place ∧
          read.toOption = tree.text place := by
      rintro read rfl hnoted
      obtain ⟨hbefore, place, hplace, hordinary⟩ :=
        noteExistingPathDeltaSupport_exact hlinks hnoted
      refine ⟨hbefore, place, hplace, hordinary, ?_⟩
      rw [callAt_place hplace, toOption_readText hordinary.1 follow]
    split at hexact
    next content hcontent => exact hfound hcontent hexact
    next hmissing => exact hfound hmissing hexact
    · cases hexact

end

namespace Progress

/-- What was recorded since is exact. -/
def Extends (first second : Progress) : Prop :=
  second.delta.exact = true → first.delta.exact = true ∧
    ∃ recorded, second.delta.changes = first.delta.changes ++ recorded ∧
      (textJournal native.toAbsPath).Records recorded first.tree.text second.tree.text

variable {native} {first second : Progress}

theorem Extends.trans {third : Progress} (hfirst : first.Extends native second)
    (hsecond : second.Extends native third) : first.Extends native third := by
  intro hexact
  obtain ⟨hmiddle, later, hlater, hlaterRecords⟩ := hsecond hexact
  obtain ⟨hbefore, earlier, hearlier, hrecords⟩ := hfirst hmiddle
  refine ⟨hbefore, earlier ++ later, ?_, hrecords.append hlaterRecords⟩
  rw [hlater, hearlier, List.append_assoc]

/-- Nothing is recorded, and the texts are as they were. -/
theorem Extends.of_unchanged (hexact : second.delta.exact = true → first.delta.exact = true ∧
      second.tree.text = first.tree.text)
    (hchanges : second.delta.changes = first.delta.changes) : first.Extends native second := by
  intro hsecond
  obtain ⟨hfirst, htext⟩ := hexact hsecond
  refine ⟨hfirst, [], by simp [hchanges], ?_⟩
  rw [htext]
  exact Journal.Records.nil _

variable {exact : Bool}

/-- One change is recorded. -/
theorem Extends.of_push {path : PathUri} {change : AppliedPatchFileChange PathUri}
    (hdelta : second.delta = first.delta.push exact path change)
    (hrecords : exact = true → first.delta.exact = true ∧
      (textJournal native.toAbsPath).redo ⟨path, change⟩ first.tree.text = second.tree.text ∧
      (textJournal native.toAbsPath).undo ⟨path, change⟩ second.tree.text = first.tree.text) :
    first.Extends native second := by
  intro hsecond
  rw [hdelta] at hsecond ⊢
  obtain ⟨hfirst, hredo, hundo⟩ := hrecords hsecond
  exact ⟨hfirst, [⟨path, change⟩], rfl, Journal.Records.singleton hredo hundo⟩

variable (options : ApplyPatchOptions) (faults : Faults) {path : PathUri} (affectedPath : Text)
  (progress : Progress)

theorem addFile_extends (contents : Text)
    (hfits : ∀ written, writeFileWithMissingParentRetry native faults options.followSymlinks path
      progress.tree contents = (written, none) →
      options.followSymlinks = true → Direct native progress.tree path) :
    progress.Extends native
      (progress.addFile native options faults path affectedPath contents).1 := by
  simp only [addFile]
  split
  · exact fun hexact => by cases hexact
  next written hwritten =>
    refine Extends.of_push rfl fun hexact => ?_
    obtain ⟨hbefore, place, hplace, hordinary, hread⟩ :=
      readOptionalFileTextForDelta_exact (hfits written hwritten) rfl hexact
    have htext :=
      text_of_update (fileAt_writeFileWithMissingParentRetry hplace hordinary hwritten)
    simp only [textJournal, setText, hplace]
    exact ⟨hbefore, htext.symm, by rw [htext, hread, update_idem, update_eq_self]⟩

theorem deleteFile_extends
    (hfits : ∀ content, readFileText native options.followSymlinks path progress.tree
      faults.read = .ok content →
      options.followSymlinks = true → Unlinked native progress.tree path) :
    progress.Extends native (progress.deleteFile native options faults path affectedPath).1 := by
  simp only [deleteFile]
  generalize hdeleted : readFileText native options.followSymlinks path progress.tree
    faults.read = deleted
  have hexact : (noteExistingPathDeltaSupport native options.followSymlinks path
      progress.tree faults.metadata progress.delta.exact && deleted.toOption.isSome) = true →
      progress.delta.exact = true ∧ ∃ place, native.toAbsPath path = some place ∧
        progress.tree.Ordinary place := by
    intro hnoted
    rw [Bool.and_eq_true] at hnoted
    cases deleted with
    | error kind => cases hnoted.2
    | ok content =>
      exact noteExistingPathDeltaSupport_exact (direct_of_read hdeleted (hfits content hdeleted))
        hnoted.1
  split
  next failed found error hfailed =>
    refine Extends.of_unchanged (fun hfound => ?_) rfl
    subst hfound
    obtain ⟨hbefore, place, hplace, hordinary⟩ := hexact (removeExpected_exact hfailed)
    exact ⟨hbefore, text_removeExpected hplace hordinary.1 hfailed⟩
  next removed found hremoved =>
    cases deleted with
    | error kind =>
      intro hfound
      subst hfound
      simpa [Except.toOption] using removeExpected_exact hremoved
    | ok content =>
      refine Extends.of_push rfl fun hfound => ?_
      subst hfound
      obtain ⟨hbefore, place, hplace, hordinary⟩ := hexact (removeExpected_exact hremoved)
      have htext := text_of_update (fileAt_removeExpected hplace hordinary.1 hremoved)
      have hread := readFileText_ok hplace hordinary.1 hdeleted
      simp only [textJournal, setText, hplace]
      exact ⟨hbefore, htext.symm, by rw [htext, ← hread, update_idem, update_eq_self]⟩

/-- The delta is exact for the file at a path, which has this text. -/
def Noted (native : NativePaths) (path : PathUri) (original : Text) : Prop :=
  progress.delta.exact = true ∧ ∃ place, native.toAbsPath path = some place ∧
    progress.tree.Ordinary place ∧ progress.tree.text place = some original

theorem rewriteFile_extends {original : Text} (contents : Text)
    (hnoted : exact = true → progress.Noted native path original) :
    progress.Extends native (progress.rewriteFile native options faults path affectedPath
      exact original contents).1 := by
  simp only [rewriteFile]
  split
  · exact fun hexact => by cases hexact
  next written hwritten =>
    refine Extends.of_push rfl fun hexact => ?_
    obtain ⟨hbefore, place, hplace, hordinary, hcontent⟩ := hnoted hexact
    have htext := text_of_update (fileAt_writeFile hplace hordinary hwritten)
    simp only [textJournal, setText, hplace]
    exact ⟨hbefore, htext.symm, by rw [htext, ← hcontent, update_idem, update_eq_self]⟩

/-- The destination is another place: what is written there survives the
removal of the original. -/
theorem moveFile_extends {destination : PathUri}
    {original : Text} (contents : Text)
    (hfits : ∀ written, writeFileWithMissingParentRetry native faults options.followSymlinks
      destination progress.tree contents = (written, none) →
      (options.followSymlinks = true → Direct native progress.tree destination) ∧
        native.toAbsPath destination ≠ native.toAbsPath path)
    (hnoted : exact = true → progress.Noted native path original) :
    progress.Extends native (progress.moveFile native options faults path affectedPath
      destination exact original contents).1 := by
  simp only [moveFile]
  split
  · exact fun hexact => by cases hexact
  next written hwritten =>
    obtain ⟨hlinks, hother⟩ := hfits written hwritten
    -- What holds if the delta is still exact behind the write.
    have hplaced : ∀ read, readOptionalFileTextForDelta native options.followSymlinks
        destination progress.tree faults.targetMetadata faults.targetRead
        exact = read → read.1 = true → progress.delta.exact = true ∧ ∃ source target,
          native.toAbsPath path = some source ∧ native.toAbsPath destination = some target ∧
          progress.tree.text source = some original ∧ written.LinkFree source ∧
          written.text = update progress.tree.text target (some contents) ∧
          read.2 = progress.tree.text target := by
      intro read hread hexact
      obtain ⟨hbefore, target, htarget, hordinary, htext⟩ :=
        readOptionalFileTextForDelta_exact hlinks hread hexact
      obtain ⟨hdelta, source, hsource, hplain, horiginal⟩ := hnoted hbefore
      exact ⟨hdelta, source, target, hsource, htarget, horiginal,
        (writeFileWithMissingParentRetry_tame hwritten).linkFree hplain.1, text_of_update
          (fileAt_writeFileWithMissingParentRetry htarget hordinary hwritten), htext⟩
    split
    next failed found error hfailed =>
      refine Extends.of_push rfl fun hfound => ?_
      subst hfound
      obtain ⟨hbefore, source, target, hsource, htarget, -, hfree, htext, hread⟩ :=
        hplaced _ rfl (removeExpected_exact hfailed)
      have hfinal := text_removeExpected hsource hfree hfailed
      simp only [textJournal, setText, htarget]
      exact ⟨hbefore, (hfinal.trans htext).symm,
        by rw [hfinal, htext, hread, update_idem, update_eq_self]⟩
    next removed found hremoved =>
      refine Extends.of_push rfl fun hfound => ?_
      subst hfound
      obtain ⟨hbefore, source, target, hsource, htarget, horiginal, hfree, htext, hread⟩ :=
        hplaced _ rfl (removeExpected_exact hremoved)
      have hapart : target ≠ source := by
        rintro rfl
        exact hother (htarget.trans hsource.symm)
      have hfinal := text_of_update (fileAt_removeExpected hsource hfree hremoved)
      simp only [textJournal, setText, hsource, htarget]
      refine ⟨hbefore, ?_, ?_⟩
      · rw [hfinal, htext, update_comm hapart]
        rfl
      · rw [hfinal, htext, hread, update_comm hapart, update_idem, update_comm hapart.symm,
          update_idem, update_eq_self, ← horiginal, update_eq_self]

theorem updateFile_extends (cwd : PathUri) (movePath : Option Text)
    (chunks : List UpdateFileChunk)
    (hfits : ∀ original contents, deriveNewContentsFromChunks native options.followSymlinks path
        progress.tree options.updateFileMode faults.read chunks = .ok (original, contents) →
      (options.followSymlinks = true → Unlinked native progress.tree path) ∧
      ∀ target destination written, movePath = some target → cwd.join target = some destination →
        writeFileWithMissingParentRetry native faults options.followSymlinks destination
          progress.tree contents = (written, none) →
        (options.followSymlinks = true → Direct native progress.tree destination) ∧
          native.toAbsPath destination ≠ native.toAbsPath path) :
    progress.Extends native (progress.updateFile native options faults path affectedPath cwd
      movePath chunks).1 := by
  have hexact : ∀ noted, noteExistingPathDeltaSupport native options.followSymlinks
      path progress.tree faults.metadata progress.delta.exact = noted →
      noted = true → progress.delta.exact = true := by
    rintro noted rfl hnoted
    exact exact_of_noteExistingPathDeltaSupport hnoted
  simp only [updateFile]
  split
  · exact Extends.of_unchanged (fun hnoted => ⟨hexact _ rfl hnoted, rfl⟩) rfl
  next original contents hderived =>
    obtain ⟨hunlinked, hmove⟩ := hfits original contents hderived
    have hread : readFileText native options.followSymlinks path progress.tree faults.read =
        .ok original := by
      unfold deriveNewContentsFromChunks at hderived
      split at hderived
      · cases hderived
      next hread =>
        split at hderived <;> cases hderived
        exact hread
    have hnoted : noteExistingPathDeltaSupport native options.followSymlinks path
        progress.tree faults.metadata progress.delta.exact = true →
        progress.Noted native path original := by
      intro hnoted
      obtain ⟨hbefore, place, hplace, hordinary⟩ :=
        noteExistingPathDeltaSupport_exact (direct_of_read hread hunlinked) hnoted
      exact ⟨hbefore, place, hplace, hordinary, readFileText_ok hplace hordinary.1 hread⟩
    split
    · exact rewriteFile_extends options faults affectedPath progress contents hnoted
    next target =>
      split
      · exact Extends.of_unchanged (fun hnoted => ⟨hexact _ rfl hnoted, rfl⟩) rfl
      next destination hjoin =>
        exact moveFile_extends options faults affectedPath progress contents
          (fun written => hmove target destination written rfl hjoin) hnoted

section Exact

variable {options : ApplyPatchOptions} {faults : Faults} {affectedPath : Text}
  {progress : Progress}

theorem exact_of_addFile {contents : Text}
    (hexact : (progress.addFile native options faults path affectedPath contents).1.delta.exact =
      true) : progress.delta.exact = true := by
  simp only [addFile] at hexact
  split at hexact
  · cases hexact
  · exact exact_of_readOptionalFileTextForDelta hexact

theorem exact_of_deleteFile
    (hexact : (progress.deleteFile native options faults path affectedPath).1.delta.exact =
      true) : progress.delta.exact = true := by
  simp only [deleteFile] at hexact
  split at hexact
  next failed found error hfailed =>
    obtain rfl : found = true := hexact
    have hnoted := removeExpected_exact hfailed
    rw [Bool.and_eq_true] at hnoted
    exact exact_of_noteExistingPathDeltaSupport hnoted.1
  next removed found hremoved =>
    obtain rfl : found = true := by
      split at hexact <;> exact hexact
    have hnoted := removeExpected_exact hremoved
    rw [Bool.and_eq_true] at hnoted
    exact exact_of_noteExistingPathDeltaSupport hnoted.1

theorem exact_of_moveFile
    {destination : PathUri} {exact : Bool} {original contents : Text}
    (hexact : (progress.moveFile native options faults path affectedPath destination exact
      original contents).1.delta.exact = true) : exact = true := by
  simp only [moveFile] at hexact
  split at hexact
  · cases hexact
  · split at hexact
    next failed found error hfailed =>
      obtain rfl : found = true := hexact
      exact exact_of_readOptionalFileTextForDelta (removeExpected_exact hfailed)
    next removed found hremoved =>
      obtain rfl : found = true := hexact
      exact exact_of_readOptionalFileTextForDelta (removeExpected_exact hremoved)

theorem exact_of_updateFile {cwd : PathUri}
    {movePath : Option Text} {chunks : List UpdateFileChunk}
    (hexact : (progress.updateFile native options faults path affectedPath cwd movePath
      chunks).1.delta.exact = true) : progress.delta.exact = true := by
  have hnoted : noteExistingPathDeltaSupport native options.followSymlinks path progress.tree
      faults.metadata progress.delta.exact = true := by
    simp only [updateFile] at hexact
    split at hexact
    · exact hexact
    · split at hexact
      · unfold rewriteFile at hexact
        split at hexact
        · cases hexact
        · exact hexact
      · split at hexact
        · exact hexact
        · exact exact_of_moveFile hexact
  exact exact_of_noteExistingPathDeltaSupport hnoted

end Exact

end Progress

section Hunks

variable {native} {options : ApplyPatchOptions} {cwd : PathUri}

theorem applyHunk_extends {faults : Faults} {hunk : Hunk} {progress : Progress}
    (hfits : hunk.Fits native options cwd faults progress.tree) :
    progress.Extends native (applyHunk native options cwd faults hunk progress).1 := by
  unfold applyHunk
  split
  · exact Progress.Extends.of_unchanged (fun hexact => ⟨hexact, rfl⟩) rfl
  next path hpath =>
    cases hunk with
    | addFile file contents =>
      exact Progress.addFile_extends options faults _ progress contents
        (fun written => hfits path written hpath)
    | deleteFile file =>
      exact Progress.deleteFile_extends options faults _ progress
        (fun content => hfits path content hpath)
    | updateFile file movePath chunks =>
      exact Progress.updateFile_extends options faults _ progress cwd movePath chunks
        (fun original contents => hfits path original contents hpath)

/-- The delta does not become exact again. -/
theorem exact_of_applyHunk {faults : Faults} {hunk : Hunk} {progress : Progress}
    (hexact : (applyHunk native options cwd faults hunk progress).1.delta.exact = true) :
    progress.delta.exact = true := by
  unfold applyHunk at hexact
  split at hexact
  · exact hexact
  · split at hexact
    · exact Progress.exact_of_addFile hexact
    · exact Progress.exact_of_deleteFile hexact
    · exact Progress.exact_of_updateFile hexact

theorem applyHunks_extends {hunks : List Hunk} {faults : Nat → Faults} {progress : Progress}
    (hfits : FitsAll native options cwd faults hunks progress) :
    progress.Extends native (applyHunks native options cwd faults hunks progress).1 := by
  induction hunks generalizing faults progress with
  | nil => exact Progress.Extends.of_unchanged (fun hexact => ⟨hexact, rfl⟩) rfl
  | cons hunk hunks ih =>
    obtain ⟨hhunk, hrest⟩ := hfits
    have hfirst : progress.Extends native
        (applyHunk native options cwd (faults 0) hunk progress).1 := by
      intro hexact
      exact applyHunk_extends (hhunk (exact_of_applyHunk hexact)) hexact
    unfold applyHunks
    split
    next next heq =>
      rw [heq] at hfirst hrest
      exact hfirst.trans (ih hrest)
    next failed error heq =>
      rw [heq] at hfirst
      exact hfirst

end Hunks

end Recorded

namespace Witness

/-- A tree with these entries in its root. -/
def flat (entries : List (Text × FileEntry)) : FileTree where
  entry
    | [] => some .directory
    | [name] => (entries.find? fun entry => entry.1 == name).map (·.2)
    | _ => none
  root := rfl
  closed := by
    intro path name hentry
    rcases path with _ | ⟨first, _ | ⟨second, rest⟩⟩
    · rfl
    · exact absurd rfl hentry
    · exact absurd rfl hentry

/-- The crates with a parser that knows no host. -/
abbrev noHosts : UrlCrates := documentedCrates (fun _ => none)

attribute [local instance] noHosts

/-- A host with POSIX paths of ASCII names. -/
def host : NativePaths where
  toAbsPath
    | .fallback _ => none
    | .file url => some (url.names.map (·.map fun byte => Char.ofNat byte.toNat))
  inferredNativePathString _ := []

/-- The URI of a name in the root. -/
def atRoot (name : Bytes) (noNul : 0 ∉ UrlCrates.decodeBinary name := by decide) : PathUri :=
  .file ⟨none, [name], by simpa using noNul⟩

def rootUri : PathUri := atRoot []

def defaultOptions : ApplyPatchOptions := ⟨.normalizeToLf, true⟩

def lineChunk (oldLine newLine : Text) : UpdateFileChunk where
  changeContext := none
  oldLines := [oldLine]
  newLines := [newLine]
  contextLineIndices := []
  isEndOfFile := false

def before : FileTree := flat [(['a'], .file (.text ['o', '\n']))]

/-- The file is changed and moved. -/
def renamed (movePath : Text) : Hunk := .updateFile ['a'] (some movePath) [lineChunk ['o'] ['n']]

def afterRename (movePath : Text) : Progress :=
  (applyHunksToFiles host defaultOptions rootUri (fun _ => {}) [renamed movePath] before).1

theorem unlinked_of_root {tree : FileTree} {path : PathUri}
    (hroot : (host.toAbsPath path).map List.dropLast = some []) : Unlinked host tree path := by
  intro place hplace
  rw [hplace, Option.map_some, Option.some.injEq] at hroot
  rw [hroot]
  intro parent hparent target hlink
  rw [List.prefix_nil.mp hparent, tree.root] at hlink
  cases hlink

end Witness

end Hexa.ApplyPatch
