/-
A file tree with symbolic links: how a path is resolved, and what reading,
writing, removing and creating directories do at a path.
-/
import Hexa.Lib.RustStr

namespace Hexa

open List Function

/-- An absolute path as the names from the root. -/
abbrev FilePath := List Text

/-- The bytes of a file: valid UTF-8, or not. -/
inductive FileContent where
  | text (text : Text)
  | binary (bytes : List UInt8)
  deriving DecidableEq

/-- A `special` entry is a device, a socket or a pipe. -/
inductive FileEntry where
  | file (content : FileContent)
  | directory
  | symlink (target : FilePath)
  | special
  deriving DecidableEq

namespace FileEntry

def asText : FileEntry → Option Text
  | .file (.text text) => some text
  | _ => none

/-- Links and devices, which no call makes. -/
def isFixed : FileEntry → Bool
  | .symlink _ => true
  | .special => true
  | _ => false

end FileEntry

/-- What an error of a call tells: that nothing is there, or anything else. -/
inductive IoErrorKind where
  | notFound
  | other
  deriving Repr, DecidableEq

structure FileMetadata where
  isDirectory : Bool
  isFile : Bool
  isSymlink : Bool
  deriving Repr, DecidableEq

/-- A tree in which only directories have entries. -/
structure FileTree where
  entry : FilePath → Option FileEntry
  root : entry [] = some .directory
  closed : ∀ path name, entry (path ++ [name]) ≠ none → entry path = some .directory

namespace FileTree

variable (tree : FileTree) (path : FilePath)

def isDirectory : Bool := tree.entry path == some .directory

/-- The tree with another entry at a path that is no directory. -/
def put (entry : Option FileEntry)
    (hparent : entry ≠ none → tree.isDirectory path.dropLast = true)
    (hold : tree.entry path ≠ some .directory) : FileTree where
  entry := Function.update tree.entry path entry
  root := by
    rw [update_of_ne ?_]
    · exact tree.root
    · rintro rfl
      exact hold tree.root
  closed := by
    intro parent name hentry
    have hself : ∀ other, other ≠ path →
        Function.update tree.entry path entry other = tree.entry other :=
      fun other hother => update_of_ne hother _ _
    by_cases hpath : parent ++ [name] = path
    · subst hpath
      rw [update_self] at hentry
      have hdirectory := hparent hentry
      rw [dropLast_concat] at hdirectory
      rw [hself parent (by simp)]
      simpa [isDirectory] using hdirectory
    · rw [hself _ hpath] at hentry
      have hdirectory := tree.closed parent name hentry
      rw [hself parent ?_]
      · exact hdirectory
      · rintro rfl
        exact hold hdirectory

/-- How far the names of a path lead: to a place, to a link with names left,
or nowhere. -/
inductive Walk where
  | arrived (path : FilePath)
  | link (target : FilePath) (rest : List Text)
  | failed (kind : IoErrorKind)
  deriving DecidableEq

def walk : FilePath → List Text → Walk
  | done, [] => .arrived done
  | done, name :: rest =>
    match tree.entry (done ++ [name]) with
    | some .directory => walk (done ++ [name]) rest
    | some (.symlink target) => .link target rest
    | some _ => if rest = [] then .arrived (done ++ [name]) else .failed .other
    | none => if rest = [] then .arrived (done ++ [name]) else .failed .notFound

/-- The place of a path, when at most so many links may be followed. -/
def resolve (follow : Bool) : Nat → FilePath → Except IoErrorKind FilePath
  | links, path =>
    match tree.walk [] path with
    | .arrived place => .ok place
    | .failed kind => .error kind
    | .link target rest =>
      match links with
      | 0 => .error .other
      | links + 1 =>
        if follow then resolve follow links (target ++ rest)
        else .error .other

def maxLinks : Nat := 40

variable (follow : Bool) (path : FilePath)

/-- The place of a path, its last name included. -/
def locate : Except IoErrorKind FilePath := tree.resolve follow maxLinks path

/-- The place of a path, whose last name is not followed. -/
def locateEntry : Except IoErrorKind FilePath :=
  match path.getLast? with
  | none => .ok []
  | some name =>
    match tree.locate follow path.dropLast with
    | .error kind => .error kind
    | .ok parent =>
      if tree.isDirectory parent then .ok (parent ++ [name])
      else if tree.entry parent = none then .error .notFound
      else .error .other

/-- A file that is read as UTF-8. -/
def readText : Except IoErrorKind Text :=
  match tree.locate follow path with
  | .error kind => .error kind
  | .ok place =>
    match tree.entry place with
    | some (.file (.text text)) => .ok text
    | none => .error .notFound
    | some _ => .error .other

def metadataOf (entry : FileEntry) (isSymlink : Bool) : FileMetadata where
  isDirectory := entry == .directory
  isFile := match entry with
    | .file _ => true
    | _ => false
  isSymlink := isSymlink

/-- The kind of what is at a path, and whether a link leads there. -/
def metadata : Except IoErrorKind FileMetadata :=
  match tree.locateEntry follow path with
  | .error kind => .error kind
  | .ok place =>
    match tree.entry place with
    | none => .error .notFound
    | some (.symlink _) =>
      if follow then
        match tree.locate follow path with
        | .error kind => .error kind
        | .ok target =>
          match tree.entry target with
          | none => .error .notFound
          | some entry => .ok (metadataOf entry true)
      else .error .other
    | some entry => .ok (metadataOf entry false)

/-- A file is made or replaced; what is written to a device is gone. -/
def write (content : FileContent) : Except IoErrorKind FileTree :=
  match tree.locate follow path with
  | .error kind => .error kind
  | .ok place =>
    if hparent : tree.isDirectory place.dropLast = true then
      if hold : tree.entry place ≠ some .directory then
        if tree.entry place = some .special then if follow then .ok tree else .error .other
        else .ok (tree.put place (some (.file content)) (fun _ => hparent) hold)
      else .error .other
    else .error .notFound

/-- What is at the path is removed, unless it is a directory. -/
def remove : Except IoErrorKind FileTree :=
  match tree.locateEntry follow path with
  | .error kind => .error kind
  | .ok place =>
    if hold : tree.entry place ≠ some .directory then
      match tree.entry place with
      | none => .error .notFound
      | some (.symlink _) =>
        if follow then .ok (tree.put place none (by simp) hold)
        else .error .other
      | some _ => .ok (tree.put place none (by simp) hold)
    else .error .other

/-- The directories of a path that are missing are made. -/
def createFrom (follow : Bool) :
    FileTree → FilePath → List Text → Except IoErrorKind FileTree
  | tree, _, [] => .ok tree
  | tree, done, name :: rest =>
    match hentry : tree.entry (done ++ [name]) with
    | none =>
      if hdone : tree.isDirectory done = true then
        createFrom follow
          (tree.put (done ++ [name]) (some .directory) (by simpa using hdone) (by simp [hentry]))
          (done ++ [name]) rest
      else .error .other
    | some .directory => createFrom follow tree (done ++ [name]) rest
    | some (.symlink target) =>
      if follow then
        match tree.locate follow target with
        | .error _ => .error .other
        | .ok place =>
          if tree.isDirectory place then createFrom follow tree place rest
          else .error .other
      else .error .other
    | some _ => .error .other

def createDirectories : Except IoErrorKind FileTree := createFrom follow tree [] path

/-- The text of a file. -/
def text : Option Text := (tree.entry path).bind FileEntry.asText

/-- What is at a path, unless it is a directory. -/
def fileAt : Option FileEntry := (tree.entry path).filter (· ≠ .directory)

/-- No link on the way to a path, its last name included. -/
def LinkFree : Prop :=
  ∀ place, place <+: path → ∀ target, tree.entry place ≠ some (.symlink target)

/-- No link on the way to a path, and no device at its end. -/
def Ordinary : Prop := tree.LinkFree path ∧ tree.entry path ≠ some .special

variable {tree} {path : FilePath}

theorem isDirectory_of_prefix {place : FilePath} (hplace : place <+: path) (hne : place ≠ path)
    (hentry : tree.entry path ≠ none) : tree.isDirectory place = true := by
  induction path using List.reverseRecOn with
  | nil => exact absurd (prefix_nil.mp hplace) hne
  | append_singleton parent name ih =>
    have hparent := tree.closed parent name hentry
    rcases prefix_concat_iff.mp hplace with rfl | hbelow
    · exact absurd rfl hne
    · by_cases hsame : place = parent
      · subst hsame
        simpa [isDirectory] using hparent
      · exact ih hbelow hsame (by simp [hparent])

variable (rest : List Text)

/-- Without links the names lead to the path itself, and they do not lead
there only if nothing is there. -/
theorem walk_linkFree (done : FilePath) (hfree : tree.LinkFree (done ++ rest)) :
    tree.walk done rest = .arrived (done ++ rest) ∨
      ∃ kind, tree.walk done rest = .failed kind ∧ tree.entry (done ++ rest) = none := by
  induction rest generalizing done with
  | nil => exact .inl (by simp [walk])
  | cons name rest ih =>
    have hpath : done ++ name :: rest = done ++ [name] ++ rest := by simp
    have hhere : done ++ [name] <+: done ++ name :: rest := by
      rw [hpath]
      exact prefix_append _ _
    -- Below something that is no directory there is nothing.
    have hmissing : rest ≠ [] → tree.entry (done ++ [name]) ≠
        some .directory → tree.entry (done ++ name :: rest) = none := by
      intro hrest hplace
      by_contra hentry
      have hdirectory := isDirectory_of_prefix hhere (by simp [hrest]) hentry
      simp [isDirectory, hplace] at hdirectory
    rw [hpath] at hfree ⊢
    simp only [walk]
    split
    · exact ih (done ++ [name]) hfree
    next target hlink => exact absurd hlink (hfree _ (prefix_append _ _) target)
    next entry hnotDirectory _ hentry =>
      split_ifs with hrest
      · subst hrest
        exact .inl (by simp)
      · refine .inr ⟨_, rfl, ?_⟩
        rw [← hpath]
        exact hmissing hrest (by simpa [hentry] using hnotDirectory)
    next hentry =>
      split_ifs with hrest
      · subst hrest
        exact .inl (by simp)
      · refine .inr ⟨_, rfl, ?_⟩
        rw [← hpath]
        exact hmissing hrest (by simp [hentry])

theorem locate_linkFree (hfree : tree.LinkFree path) (follow : Bool) :
    tree.locate follow path = .ok path ∨
      ∃ kind, tree.locate follow path = .error kind ∧ tree.entry path = none := by
  rcases walk_linkFree path [] hfree with hwalk | ⟨kind, hwalk, hentry⟩
  · left
    rw [locate, resolve, hwalk]
    rfl
  · right
    refine ⟨kind, ?_, hentry⟩
    rw [locate, resolve, hwalk]

theorem LinkFree.of_prefix {place : FilePath} (hfree : tree.LinkFree path)
    (hplace : place <+: path) : tree.LinkFree place :=
  fun above habove => hfree above (habove.trans hplace)

theorem locateEntry_linkFree (hfree : tree.LinkFree path) (follow : Bool) :
    tree.locateEntry follow path = .ok path ∨
      ∃ kind, tree.locateEntry follow path = .error kind ∧ tree.entry path = none := by
  induction path using List.reverseRecOn with
  | nil => exact .inl rfl
  | append_singleton parent name =>
    have hparent := hfree.of_prefix (prefix_append parent [name])
    have hbelow := tree.closed parent name
    simp only [locateEntry, getLast?_concat, dropLast_concat]
    rcases locate_linkFree hparent follow with hplace | ⟨kind, hplace, hnone⟩
    · rw [hplace]
      by_cases hdirectory : tree.isDirectory parent = true
      · exact .inl (by simp [hdirectory])
      · right
        have hmissing : tree.entry (parent ++ [name]) = none := by
          by_contra hentry
          exact hdirectory (by simpa [isDirectory] using hbelow hentry)
        simp only [if_neg hdirectory]
        split
        · exact ⟨_, rfl, hmissing⟩
        · exact ⟨_, rfl, hmissing⟩
    · rw [hplace]
      refine .inr ⟨kind, rfl, ?_⟩
      by_contra hentry
      simp [hbelow hentry] at hnone

theorem LinkFree.concat {done : FilePath} (hfree : tree.LinkFree done) {name : Text}
    (hlink : ∀ target, tree.entry (done ++ [name]) ≠ some (.symlink target)) :
    tree.LinkFree (done ++ [name]) := by
  intro place hplace
  rcases prefix_concat_iff.mp hplace with rfl | hbelow
  · exact hlink
  · exact hfree place hbelow

/-- Below what is no directory there are no links. -/
theorem LinkFree.below {done : FilePath} (hfree : tree.LinkFree done)
    (hdone : tree.entry done ≠ some .directory) (rest : List Text) :
    tree.LinkFree (done ++ rest) := by
  intro place hplace target hlink
  rcases prefix_or_prefix_of_prefix hplace (prefix_append done rest) with habove | hbelow
  · exact hfree place habove target hlink
  · by_cases hsame : done = place
    · exact hfree place (hsame ▸ prefix_rfl) target hlink
    · have hentry : tree.entry place ≠ none := by simp [hlink]
      have hdirectory := isDirectory_of_prefix hbelow hsame hentry
      simp [isDirectory, hdone] at hdirectory

/-- If the names do not lead to a link, there is none on the way. -/
theorem linkFree_of_walk (done : FilePath) (hdone : tree.LinkFree done)
    (hwalk : ∀ target more, tree.walk done rest ≠ .link target more) :
    tree.LinkFree (done ++ rest) := by
  induction rest generalizing done with
  | nil => simpa using hdone
  | cons name rest ih =>
    have hhere : ∀ target, tree.entry (done ++ [name]) ≠ some (.symlink target) := by
      intro target hlink
      exact hwalk target rest (by simp [walk, hlink])
    have hplace := hdone.concat hhere
    rw [show done ++ name :: rest = done ++ [name] ++ rest by simp]
    by_cases hdirectory : tree.entry (done ++ [name]) = some .directory
    · refine ih (done ++ [name]) hplace fun target more hlink => ?_
      exact hwalk target more (by simp [walk, hdirectory, hlink])
    · exact hplace.below hdirectory rest

/-- A path of which no link is followed is accepted without links only. -/
theorem linkFree_of_metadata (hmetadata : tree.metadata false path ≠ .error .other) :
    tree.LinkFree path := by
  have hroot : tree.LinkFree [] := by
    intro place hplace target
    rw [prefix_nil.mp hplace, tree.root]
    simp
  induction path using List.reverseRecOn with
  | nil => exact hroot
  | append_singleton parent name =>
    have hparent : tree.LinkFree parent := by
      refine linkFree_of_walk parent [] hroot fun target more hlink => ?_
      have hlocate : tree.locate false parent = .error .other := by
        rw [locate, resolve, hlink]
        rfl
      simp [metadata, locateEntry, hlocate] at hmetadata
    by_cases hdirectory : tree.entry parent = some .directory
    · refine hparent.concat fun target hlink => hmetadata ?_
      have hlocate : tree.locate false parent = .ok parent :=
        (locate_linkFree hparent false).resolve_right (by simp [hdirectory])
      simp [metadata, locateEntry, hlocate, isDirectory, hdirectory, hlink]
    · exact hparent.below hdirectory [name]

/-- Without links, the text that is read is the text that is there. -/
theorem toOption_readText (hfree : tree.LinkFree path) (follow : Bool) :
    (tree.readText follow path).toOption = tree.text path := by
  unfold readText text
  rcases locate_linkFree hfree follow with hplace | ⟨kind, hplace, hentry⟩
  · simp only [hplace]
    rcases tree.entry path with _ | entry
    · rfl
    · rcases entry with (_ | _) | _ | _ | _ <;> rfl
  · simp only [hplace, hentry]
    rfl

/-- The entries that were missing may have become directories. -/
def AddsDirectories (first second : FileTree) : Prop :=
  ∀ path, second.entry path = first.entry path ∨
    (first.entry path = none ∧ second.entry path = some .directory)

theorem createFrom_addsDirectories (tree created : FileTree) (done : FilePath)
    (hcreated : createFrom follow tree done rest = .ok created) :
    AddsDirectories tree created := by
  induction rest generalizing tree done with
  | nil =>
    cases hcreated
    exact fun path => .inl rfl
  | cons name rest ih =>
    simp only [createFrom] at hcreated
    split at hcreated
    next hentry =>
      split_ifs at hcreated with hdone
      intro path
      have hbelow := ih _ _ hcreated path
      by_cases hpath : path = done ++ [name]
      · subst hpath
        right
        refine ⟨hentry, ?_⟩
        simpa [put] using hbelow
      · simpa [put, hpath] using hbelow
    · exact ih _ _ hcreated
    · split_ifs at hcreated
      split at hcreated
      · cases hcreated
      · split_ifs at hcreated
        exact ih _ _ hcreated
    · cases hcreated

variable {first second : FileTree}

theorem AddsDirectories.fileAt (hadds : AddsDirectories first second) :
    second.fileAt = first.fileAt := by
  funext path
  rcases hadds path with hsame | ⟨hnone, hdirectory⟩
  · rw [FileTree.fileAt, hsame, FileTree.fileAt]
  · rw [FileTree.fileAt, hdirectory, FileTree.fileAt, hnone]
    rfl

/-- The text of a file is that of what is at its path. -/
theorem text_eq (tree : FileTree) :
    tree.text = fun path => (tree.fileAt path).bind FileEntry.asText := by
  funext path
  rcases hentry : tree.entry path with _ | entry
  · simp [text, fileAt, hentry]
  · rcases entry with (_ | _) | _ | _ | _ <;>
      simp [text, fileAt, hentry, FileEntry.asText, Option.filter]

theorem text_of_update {entry : Option FileEntry}
    (hfiles : second.fileAt = update first.fileAt path entry) :
    second.text = update first.text path (entry.bind FileEntry.asText) := by
  rw [text_eq, text_eq, hfiles]
  funext other
  by_cases hother : other = path
  · subst hother
    simp
  · simp [hother]

theorem fileAt_of_update {entry : Option FileEntry} (hplain : entry ≠ some .directory)
    (hentries : second.entry = update first.entry path entry) :
    second.fileAt = update first.fileAt path entry := by
  funext other
  by_cases hother : other = path
  · subst hother
    rw [fileAt, hentries, update_self, update_self]
    rcases entry with _ | entry
    · rfl
    · have hkept : entry ≠ .directory := fun hsame => hplain (hsame ▸ rfl)
      simp [hkept]
  · rw [update_of_ne hother, fileAt, hentries, update_of_ne hother, fileAt]

variable {follow : Bool}

/-- What a write without links on the way does. -/
theorem fileAt_write (hordinary : tree.Ordinary path) {content : FileContent} {written : FileTree}
    (hwritten : tree.write follow path content = .ok written) :
    written.fileAt = update tree.fileAt path (some (.file content)) := by
  unfold write at hwritten
  rcases locate_linkFree hordinary.1 follow with hplace | ⟨kind, hplace, -⟩
  · rw [hplace] at hwritten
    simp only at hwritten
    split_ifs at hwritten with hparent hold hspecial hfollow
    · exact absurd hspecial hordinary.2
    · cases hwritten
      exact fileAt_of_update (by simp) rfl
  · rw [hplace] at hwritten
    cases hwritten

/-- What a removal without links on the way does. -/
theorem fileAt_remove (hfree : tree.LinkFree path) {removed : FileTree}
    (hremoved : tree.remove follow path = .ok removed) :
    tree.fileAt path ≠ none ∧ removed.fileAt = update tree.fileAt path none := by
  unfold remove at hremoved
  rcases locateEntry_linkFree hfree follow with hplace | ⟨kind, hplace, -⟩
  · rw [hplace] at hremoved
    simp only at hremoved
    split at hremoved
    next hold =>
      split at hremoved
      · cases hremoved
      next target hlink => exact absurd hlink (hfree path prefix_rfl target)
      next entry _ hentry =>
        cases hremoved
        refine ⟨?_, fileAt_of_update (by simp) rfl⟩
        have hkept : entry ≠ .directory := fun hsame => hold (hsame ▸ hentry)
        simp [fileAt, hentry, hkept]
    · cases hremoved
  · rw [hplace] at hremoved
    cases hremoved

/-- The links and devices of the second tree are in the first one. -/
def Tame (first second : FileTree) : Prop :=
  ∀ path entry, entry.isFixed = true → second.entry path = some entry →
    first.entry path = some entry

theorem Tame.refl (tree : FileTree) : Tame tree tree := fun _ _ _ hentry => hentry

theorem Tame.trans {third : FileTree} (hfirst : Tame first second) (hsecond : Tame second third) :
    Tame first third :=
  fun path entry hfixed hentry => hfirst path entry hfixed (hsecond path entry hfixed hentry)

theorem Tame.linkFree (htame : Tame first second) (hfree : first.LinkFree path) :
    second.LinkFree path :=
  fun place hplace target hlink => hfree place hplace target (htame place _ rfl hlink)

theorem Tame.ordinary (htame : Tame first second) (hordinary : first.Ordinary path) :
    second.Ordinary path :=
  ⟨htame.linkFree hordinary.1, fun hspecial => hordinary.2 (htame path _ rfl hspecial)⟩

theorem put_tame (tree : FileTree) (path : FilePath) (entry : Option FileEntry)
    (hparent : entry ≠ none → tree.isDirectory path.dropLast = true)
    (hold : tree.entry path ≠ some .directory)
    (hplain : ∀ made, entry = some made → made.isFixed = false) :
    Tame tree (tree.put path entry hparent hold) := by
  intro other found hfixed hfound
  by_cases hother : other = path
  · subst hother
    simp only [put, update_self] at hfound
    rw [hplain found hfound] at hfixed
    cases hfixed
  · simpa [put, hother] using hfound

theorem write_tame (tree written : FileTree) {content : FileContent}
    (hwritten : tree.write follow path content = .ok written) : Tame tree written := by
  unfold write at hwritten
  split at hwritten
  · cases hwritten
  · split_ifs at hwritten <;> cases hwritten
    · exact Tame.refl tree
    · exact put_tame tree _ _ _ _ (by rintro _ ⟨⟩; rfl)

theorem remove_tame (tree removed : FileTree) (hremoved : tree.remove follow path = .ok removed) :
    Tame tree removed := by
  unfold remove at hremoved
  split at hremoved
  · cases hremoved
  · split at hremoved
    · split at hremoved
      · cases hremoved
      · split at hremoved <;> cases hremoved
        exact put_tame tree _ _ _ _ (by simp)
      · cases hremoved
        exact put_tame tree _ _ _ _ (by simp)
    · cases hremoved

theorem AddsDirectories.tame (hadds : AddsDirectories first second) : Tame first second := by
  intro path entry hfixed hentry
  rcases hadds path with hsame | ⟨-, hdirectory⟩
  · exact hsame ▸ hentry
  · rw [hdirectory] at hentry
    cases hentry
    cases hfixed

end FileTree

end Hexa
