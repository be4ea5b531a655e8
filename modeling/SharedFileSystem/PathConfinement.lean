import SharedFileSystem.StorageDisk

/-!
Which paths of the file system a storage server touches for a request. The names are put into path
buffers as they are, with one leading slash removed; a path that is too long for its buffer is cut.
-/

namespace SharedFileSystem

open ByteText Paths

/-- The directory that the server was started with; its text leaves room for the names. -/
structure StorageDir where
  path : List Bytes
  length : Nat
  short : length ≤ 255

inductive Area where
  | files
  | metadata
  | checkpoints
deriving DecidableEq, Repr

def Area.directory (storage : List Bytes) : Area → List Bytes
  | .files => filesDir storage
  | .metadata => metadataDir storage
  | .checkpoints => checkpointsDir storage

-- the bytes of `/files/`, `/metadata/` and `/checkpoints/`
def Area.width : Area → Nat
  | .files => 7
  | .metadata => 10
  | .checkpoints => 13

def StorageDir.room (storage : StorageDir) (area : Area) (size : Nat) : Nat :=
  size - 1 - (storage.length + area.width)

def StorageDir.cut (storage : StorageDir) (area : Area) (size : Nat) (text : Bytes) : Bytes :=
  text.take (storage.room area size)

/-- A path that is opened, created, renamed or unlinked: what is written after the directory, one
buffer after another, with the sizes of the buffers. -/
structure Touch where
  area : Area
  parts : List (Bytes × Nat)
  made : Bool
deriving DecidableEq, Repr

def Touch.file (area : Area) (parts : List (Bytes × Nat)) : Touch := ⟨area, parts, false⟩

def Touch.folder (area : Area) (folder : Bytes) : Touch := ⟨area, [(folder, 512)], true⟩

def Touch.text (storage : StorageDir) (touch : Touch) : Bytes :=
  touch.parts.foldl (fun text part => storage.cut touch.area part.2 (text ++ part.1)) []

def Touch.whole (touch : Touch) : Bytes := touch.parts.flatMap (·.1)

def Touch.Uncut (storage : StorageDir) (touch : Touch) : Prop := touch.text storage = touch.whole

instance (storage : StorageDir) (touch : Touch) : Decidable (touch.Uncut storage) :=
  inferInstanceAs (Decidable (_ = _))

def Touch.path (storage : StorageDir) (touch : Touch) : List Bytes :=
  resolve (touch.area.directory storage.path) (touch.text storage)

def Allowed (storage path : List Bytes) : Prop :=
  filesDir storage <:+ path ∨ metadataDir storage <:+ path ∨ checkpointsDir storage <:+ path

-- `mkdir` on the storage directory, or above it, finds the directory there
def Touch.Confined (storage : StorageDir) (touch : Touch) : Prop :=
  Allowed storage.path (touch.path storage) ∨
    touch.made = true ∧ touch.path storage <:+ storage.path

instance (storage path : List Bytes) : Decidable (Allowed storage path) :=
  inferInstanceAs (Decidable (_ ∨ _ ∨ _))

instance (storage : StorageDir) (touch : Touch) : Decidable (touch.Confined storage) :=
  inferInstanceAs (Decidable (_ ∨ _ ∧ _))

def Touch.temporary (touch : Touch) (size : Nat) : Touch :=
  { touch with parts := touch.parts ++ [(tmpSuffix, size)] }

def contentTouch (filename : Bytes) : Touch := .file .files [(normalizeFilename filename, 512)]

def metadataTouch (filename ending : Bytes) : Touch :=
  .file .metadata [(normalizeFilename filename ++ ending, 512)]

def recordTouch (filename : Bytes) : Touch := metadataTouch filename metaSuffix

def checkpointTouch (filename ending : Bytes) : Touch :=
  .file .checkpoints [(normalizeFilename filename, 600), (slash :: ending, 700)]

def copyTouches (source target : Touch) : List Touch := [source, target.temporary 520, target]

-- here the name is used as it is
def undoSaveTouches (filename : Bytes) : List Touch :=
  copyTouches (.file .metadata [(filename ++ metaSuffix, 512)])
      (metadataTouch filename (lit ".undo.meta")) ++
    copyTouches (.file .files [(filename, 512)]) (metadataTouch filename (lit ".undo.data"))

-- `metadata_save` refuses a path that does not fit
def saveTouches (storage : StorageDir) (filename : Bytes) : List Touch :=
  if (recordTouch filename).Uncut storage then
    [(recordTouch filename).temporary 520, recordTouch filename]
  else []

-- the parts that `mkdir_recursive` cuts off at its slashes
def slashPrefixes : Bytes → List Bytes
  | [] => []
  | c :: rest => (if c = slash then [[]] else []) ++ (slashPrefixes rest).map (c :: ·)

def withoutLastSlash (text : Bytes) : Bytes :=
  if text.getLast? = some slash then text.dropLast else text

def folderParts (text : Bytes) : List Bytes :=
  slashPrefixes (withoutLastSlash text) ++ [withoutLastSlash text]

def mkdirTouches (storage : StorageDir) (area : Area) (folder : Bytes) : List Touch :=
  (folderParts ((Touch.folder area folder).text storage)).map (Touch.folder area)

/-- What a request makes the server touch: directories that it makes, files, and records that it
saves. -/
structure Served where
  folders : List (Area × Bytes)
  files : List Touch
  records : List Bytes

def Served.touches (storage : StorageDir) (served : Served) : List Touch :=
  served.folders.flatMap (fun folder => mkdirTouches storage folder.1 folder.2) ++
    (served.files ++ served.records.flatMap (saveTouches storage))

def folderCreate (folder : Bytes) : List (Area × Bytes) :=
  [(.files, normalizeFilename folder), (.metadata, normalizeFilename folder)]

inductive Request where
  | create (filename : Bytes)
  | createFolder (folder : Bytes)
  | read (filename : Bytes)
  | write (filename : Bytes) (sessionId : Int)
  | move (request : MoveRequest)
  | delete (filename : Bytes)
  | checkpoint (filename tag : Bytes)
  | revert (filename tag : Bytes)
deriving DecidableEq, Repr

-- the folder that `file_create` makes
def createdFolder (filename : Bytes) : Bytes :=
  if (folderName filename).length < 512 then folderName filename else rootFolder

-- the name under which `file_move` saves the record
def MoveRequest.savedName (request : MoveRequest) : Bytes :=
  if request.newFolder = rootFolder then request.filename
  else (request.newFolder ++ request.filename).take 767

/-- Every path that a request can make the server touch, whatever lies on the disk. -/
def Request.serve : Request → Served
  | .create filename =>
      { folders := if slash ∉ filename ∨ createdFolder filename = rootFolder then []
          else folderCreate (createdFolder filename)
        files := [contentTouch filename]
        records := [filename] }
  | .createFolder folder => ⟨folderCreate folder, [], []⟩
  | .read filename => ⟨[], [contentTouch filename, recordTouch filename], [filename]⟩
  | .write filename sessionId =>
      { folders := []
        files := [recordTouch filename, contentTouch filename] ++ undoSaveTouches filename ++
          [.file .files [(filename ++ sessionSuffix sessionId, 1024)],
            .file .files [(filename, 1024)]]
        records := [filename] }
  | .move request =>
      { folders := if request.newFolder = rootFolder then [] else folderCreate request.newFolder
        files := [.file .files [(request.source, 512)], .file .files [(request.target, 512)],
          .file .metadata [(request.source ++ metaSuffix, 512)],
          .file .metadata [(request.target ++ metaSuffix, 512)], recordTouch request.filename]
        records := [request.savedName] }
  | .delete filename => ⟨[], [contentTouch filename, recordTouch filename], []⟩
  | .checkpoint filename tag =>
      if isValidCheckpointTag tag then
        let index := checkpointTouch filename (lit "checkpoint.index")
        { folders := [(.checkpoints, normalizeFilename filename)]
          files := [index, index.temporary 710] ++
            copyTouches (contentTouch filename)
              (checkpointTouch filename (tag ++ lit ".checkpoint.data")) ++
            copyTouches (recordTouch filename)
              (checkpointTouch filename (tag ++ lit ".checkpoint.meta"))
          records := [] }
      else ⟨[], [], []⟩
  | .revert filename tag =>
      { folders := []
        files := undoSaveTouches filename ++
          copyTouches (checkpointTouch filename (tag ++ lit ".checkpoint.data"))
            (contentTouch filename) ++
          copyTouches (checkpointTouch filename (tag ++ lit ".checkpoint.meta"))
            (recordTouch filename)
        records := [] }

def Request.touches (storage : StorageDir) (request : Request) : List Touch :=
  request.serve.touches storage

def Stays (storage : List Bytes) (text : Bytes) : Prop :=
  Allowed storage (resolve (filesDir storage) text)

def NameStays (storage : List Bytes) (filename : Bytes) : Prop :=
  Stays storage filename ∧ Stays storage (folderName filename)

def FolderStays (storage : List Bytes) (folder : Bytes) : Prop :=
  ∀ part ∈ folderParts folder,
    Stays storage part ∨ resolve (filesDir storage) part <:+ storage

def Request.Stays (storage : List Bytes) : Request → Prop
  | .create filename =>
      FolderStays storage (normalizeFilename (folderName filename)) ∧ NameStays storage filename
  | .createFolder folder => FolderStays storage (normalizeFilename folder)
  | .read filename | .write filename _ | .delete filename => NameStays storage filename
  | .move request =>
      FolderStays storage (normalizeFilename request.newFolder) ∧
        NameStays storage request.source ∧ NameStays storage request.target ∧
        SharedFileSystem.Stays storage (folderName request.filename)
  | .checkpoint filename tag =>
      isValidCheckpointTag tag = true →
        FolderStays storage (normalizeFilename filename) ∧ NameStays storage filename
  | .revert filename tag =>
      NameStays storage filename ∧
        SharedFileSystem.Stays storage (folderName (filename ++ slash :: tag))

def Touch.Stays (storage : StorageDir) (touch : Touch) : Prop :=
  SharedFileSystem.Stays storage.path (touch.text storage) ∨
    touch.made = true ∧ resolve (filesDir storage.path) (touch.text storage) <:+ storage.path

structure Served.Fits (storage : StorageDir) (served : Served) : Prop where
  folders : ∀ folder ∈ served.folders, (Touch.folder folder.1 folder.2).Uncut storage
  files : ∀ touch ∈ served.files, touch.Uncut storage
  records : ∀ filename ∈ served.records, (recordTouch filename).Uncut storage

section

variable (storage : StorageDir)

def CutStays (area : Area) (size : Nat) (text : Bytes) : Prop :=
  Stays storage.path (storage.cut area size text)

def CopyStays (area : Area) (text : Bytes) : Prop :=
  Stays storage.path text ∧ CutStays storage area 520 (text ++ tmpSuffix)

def CutFolderStays (folder : Bytes) : Prop :=
  FolderStays storage.path (storage.cut .files 512 folder) ∧
    FolderStays storage.path (storage.cut .metadata 512 folder)

def SavedStays (filename : Bytes) : Prop :=
  (recordTouch filename).Uncut storage → Stays storage.path (folderName filename)

def cutRecord (filename ending : Bytes) : Bytes :=
  storage.cut .metadata 512 (normalizeFilename filename ++ ending)

def cutCheckpoint (filename ending : Bytes) : Bytes :=
  storage.cut .checkpoints 700 (storage.cut .checkpoints 600 (normalizeFilename filename) ++ slash :: ending)

def UndoSaveStays (filename : Bytes) : Prop :=
  CutStays storage .metadata 512 (filename ++ metaSuffix) ∧
    CopyStays storage .metadata (cutRecord storage filename (lit ".undo.meta")) ∧
    CutStays storage .files 512 filename ∧
    CopyStays storage .metadata (cutRecord storage filename (lit ".undo.data"))

/-- Where the names lead of which only the first bytes fit into the buffers. -/
def Request.CutStays : Request → Prop
  | .create filename =>
      (slash ∈ filename → createdFolder filename ≠ rootFolder →
        CutFolderStays storage (normalizeFilename (createdFolder filename))) ∧
      SharedFileSystem.CutStays storage .files 512 (normalizeFilename filename) ∧ SavedStays storage filename
  | .createFolder folder => CutFolderStays storage (normalizeFilename folder)
  | .read filename =>
      SharedFileSystem.CutStays storage .files 512 (normalizeFilename filename) ∧
        SharedFileSystem.Stays storage.path (cutRecord storage filename metaSuffix) ∧ SavedStays storage filename
  | .write filename sessionId =>
      SharedFileSystem.Stays storage.path (cutRecord storage filename metaSuffix) ∧
        SharedFileSystem.CutStays storage .files 512 (normalizeFilename filename) ∧
        UndoSaveStays storage filename ∧
        SharedFileSystem.CutStays storage .files 1024 (filename ++ sessionSuffix sessionId) ∧
        SharedFileSystem.CutStays storage .files 1024 filename ∧ SavedStays storage filename
  | .move request =>
      (request.newFolder ≠ rootFolder → CutFolderStays storage (normalizeFilename request.newFolder)) ∧
        (SharedFileSystem.CutStays storage .files 512 request.source ∧
          SharedFileSystem.CutStays storage .files 512 request.target) ∧
        (SharedFileSystem.CutStays storage .metadata 512 (request.source ++ metaSuffix) ∧
          SharedFileSystem.CutStays storage .metadata 512 (request.target ++ metaSuffix)) ∧
        SharedFileSystem.Stays storage.path (cutRecord storage request.filename metaSuffix) ∧
        SavedStays storage request.savedName
  | .delete filename =>
      SharedFileSystem.CutStays storage .files 512 (normalizeFilename filename) ∧
        SharedFileSystem.Stays storage.path (cutRecord storage filename metaSuffix)
  | .checkpoint filename tag => isValidCheckpointTag tag = true →
      FolderStays storage.path (storage.cut .checkpoints 512 (normalizeFilename filename)) ∧
        (SharedFileSystem.Stays storage.path (cutCheckpoint storage filename (lit "checkpoint.index")) ∧
          SharedFileSystem.CutStays storage .checkpoints 710
            (cutCheckpoint storage filename (lit "checkpoint.index") ++ tmpSuffix)) ∧
        (SharedFileSystem.CutStays storage .files 512 (normalizeFilename filename) ∧
          CopyStays storage .checkpoints (cutCheckpoint storage filename (tag ++ lit ".checkpoint.data"))) ∧
        SharedFileSystem.Stays storage.path (cutRecord storage filename metaSuffix) ∧
        CopyStays storage .checkpoints (cutCheckpoint storage filename (tag ++ lit ".checkpoint.meta"))
  | .revert filename tag =>
      UndoSaveStays storage filename ∧
        (SharedFileSystem.Stays storage.path (cutCheckpoint storage filename (tag ++ lit ".checkpoint.data")) ∧
          CopyStays storage .files (storage.cut .files 512 (normalizeFilename filename))) ∧
        SharedFileSystem.Stays storage.path (cutCheckpoint storage filename (tag ++ lit ".checkpoint.meta")) ∧
        CopyStays storage .metadata (cutRecord storage filename metaSuffix)

end

/-- The names that are not cut lead nowhere else; of the others what fits into the buffers does. -/
def Request.Kept (storage : StorageDir) (request : Request) : Prop :=
  (request.serve.Fits storage → request.Stays storage.path) ∧
    (¬request.serve.Fits storage → request.CutStays storage)

theorem Area.directory_cons (area : Area) : ∃ name, ∀ storage, area.directory storage =
    name :: storage := by
  cases area with
  | files => exact ⟨lit "files", fun _ => rfl⟩
  | metadata => exact ⟨lit "metadata", fun _ => rfl⟩
  | checkpoints => exact ⟨lit "checkpoints", fun _ => rfl⟩

theorem allowed_below (storage inside : List Bytes) (area : Area) :
    Allowed storage (inside ++ area.directory storage) := by
  cases area with
  | files => exact .inl (List.suffix_append _ _)
  | metadata => exact .inr (.inl (List.suffix_append _ _))
  | checkpoints => exact .inr (.inr (List.suffix_append _ _))

theorem Touch.confined_iff (storage : StorageDir) (touch : Touch) :
    touch.Confined storage ↔ touch.Stays storage := by
  obtain ⟨name, directory⟩ := touch.area.directory_cons
  rw [Touch.Confined, Touch.Stays, SharedFileSystem.Stays, Touch.path, directory]
  rcases resolve_beside storage.path (touch.text storage) with ⟨inside, below⟩ | ⟨reached, same⟩
  · have here := allowed_below storage.path inside touch.area
    have files := allowed_below storage.path inside .files
    rw [directory] at here
    rw [Area.directory, filesDir] at files
    rw [below name, filesDir, below (lit "files")]
    exact ⟨fun _ => .inl files, fun _ => .inl here⟩
  · rw [same name, filesDir, same (lit "files")]

theorem folderForm_folderName (path : Bytes) : FolderForm (folderName path) := by
  by_cases empty : folderName path = []
  · exact .inl empty
  · exact .inr (folderName_last empty)

theorem resolve_in_folder (directory : List Bytes) {folder : Bytes} (form : FolderForm folder)
    (name : Bytes) :
    resolve directory (folder ++ name) = resolve (resolve directory folder) name := by
  rcases form with rfl | last
  · rfl
  · obtain ⟨front, rfl⟩ := List.getLast?_eq_some_iff.mp last
    rw [List.append_assoc, List.singleton_append, resolve_append, resolve_folder]

theorem resolve_normalizeFilename_append (directory : List Bytes) (filename rest : Bytes) :
    resolve directory (normalizeFilename filename ++ rest) =
      resolve directory (filename ++ rest) := by
  cases filename with
  | nil => rfl
  | cons c filename =>
      rw [← normalizeFilename_append _ _ (List.cons_ne_nil c filename), resolve_normalizeFilename]

/-- The endings that the server puts after a name. -/
structure Ending (ending : Bytes) : Prop where
  oneComponent : slash ∉ ending
  dotted : dot ∈ ending
  long : 3 ≤ ending.length

instance (ending : Bytes) : Decidable (Ending ending) :=
  decidable_of_iff (slash ∉ ending ∧ dot ∈ ending ∧ 3 ≤ ending.length)
    ⟨fun ⟨oneComponent, dotted, long⟩ => ⟨oneComponent, dotted, long⟩,
      fun proper => ⟨proper.oneComponent, proper.dotted, proper.long⟩⟩

theorem Ending.ordinary {ending : Bytes} (proper : Ending ending) {base : Bytes}
    (free : slash ∉ base) : Ordinary (base ++ ending) := by
  have long := proper.long
  refine ⟨?_, by simp [free, proper.oneComponent], ?_, ?_⟩
  all_goals
    intro same
    have sizes := congrArg List.length same
    simp only [List.length_append, List.length_cons, List.length_nil] at sizes
    omega

theorem Ending.temporary {ending : Bytes} (proper : Ending ending) :
    Ending (ending ++ tmpSuffix) := by
  have free : slash ∉ tmpSuffix := by decide
  refine ⟨by simp [proper.oneComponent, free], List.mem_append_left _ proper.dotted, ?_⟩
  rw [List.length_append]
  exact Nat.le_add_right_of_le proper.long

theorem allowed_cons_iff (storage path : List Bytes) {name : Bytes} (dotted : dot ∈ name) :
    Allowed storage (name :: path) ↔ Allowed storage path := by
  have other : ∀ word : Bytes, dot ∉ word → (word :: storage <:+ name :: path ↔
      word :: storage <:+ path) := by
    intro word plain
    rw [List.suffix_cons_iff, List.cons.injEq]
    constructor
    · rintro (⟨same, _⟩ | inside)
      · exact absurd (same ▸ dotted) plain
      · exact inside
    · exact .inr
  rw [Allowed, Allowed, filesDir, metadataDir, checkpointsDir, other _ (by decide),
    other _ (by decide), other _ (by decide)]

theorem stays_ending_iff (storage : List Bytes) (text : Bytes) {ending : Bytes}
    (proper : Ending ending) :
    Stays storage (text ++ ending) ↔ Stays storage (folderName text) := by
  have leads : resolve (filesDir storage) (text ++ ending) =
      (baseName text ++ ending) :: resolve (filesDir storage) (folderName text) := by
    calc resolve (filesDir storage) (text ++ ending)
        = resolve (filesDir storage) (folderName text ++ (baseName text ++ ending)) := by
          rw [← List.append_assoc, folderName_append_baseName]
      _ = _ := by
          rw [resolve_in_folder _ (folderForm_folderName text),
            resolve_ordinary _ (proper.ordinary (baseName_free text))]
  rw [Stays, Stays, leads, allowed_cons_iff]
  exact List.mem_append_right _ proper.dotted

theorem stays_normalizeFilename_iff (storage : List Bytes) (filename : Bytes) :
    Stays storage (normalizeFilename filename) ↔ Stays storage filename := by
  rw [Stays, resolve_normalizeFilename, Stays]

theorem stays_named_iff (storage : List Bytes) (filename : Bytes) {ending : Bytes}
    (proper : Ending ending) :
    Stays storage (normalizeFilename filename ++ ending) ↔
      Stays storage (folderName filename) := by
  rw [Stays, resolve_normalizeFilename_append]
  exact stays_ending_iff storage filename proper

theorem stays_checkpoint_iff (storage : List Bytes) (filename tag : Bytes) {ending : Bytes}
    (proper : Ending ending) :
    Stays storage (normalizeFilename filename ++ slash :: (tag ++ ending)) ↔
      Stays storage (folderName (filename ++ slash :: tag)) := by
  rw [Stays, resolve_normalizeFilename_append, ← List.cons_append, ← List.append_assoc]
  exact stays_ending_iff storage (filename ++ slash :: tag) proper

theorem stays_tag_iff (storage : List Bytes) (filename : Bytes) {tag : Bytes} (free : slash ∉ tag) :
    Stays storage (folderName (filename ++ slash :: tag)) ↔ Stays storage filename := by
  rw [(baseName_slash free filename).2, Stays, resolve_folder, Stays]

section

variable (storage : List Bytes) (filename : Bytes)

theorem stays_content_iff : Stays storage (contentTouch filename).whole ↔ Stays storage filename := by
  rw [← stays_normalizeFilename_iff storage filename]
  simp [contentTouch, Touch.file, Touch.whole]

theorem stays_content_temporary_iff :
    Stays storage ((contentTouch filename).temporary 520).whole ↔
      Stays storage (folderName filename) := by
  rw [← stays_named_iff storage filename (show Ending tmpSuffix by decide)]
  simp [contentTouch, Touch.file, Touch.temporary, Touch.whole]

theorem stays_metadata_iff {ending : Bytes} (proper : Ending ending) :
    Stays storage (metadataTouch filename ending).whole ↔ Stays storage (folderName filename) := by
  rw [← stays_named_iff storage filename proper]
  simp [metadataTouch, Touch.file, Touch.whole]

theorem stays_metadata_temporary_iff {ending : Bytes} (proper : Ending ending) :
    Stays storage ((metadataTouch filename ending).temporary 520).whole ↔
      Stays storage (folderName filename) := by
  rw [← stays_named_iff storage filename proper.temporary]
  simp [metadataTouch, Touch.file, Touch.temporary, Touch.whole]

theorem stays_checkpoint_file_iff (tag : Bytes) {ending : Bytes} (proper : Ending ending) :
    Stays storage (checkpointTouch filename (tag ++ ending)).whole ↔
      Stays storage (folderName (filename ++ slash :: tag)) := by
  rw [← stays_checkpoint_iff storage filename tag proper]
  simp [checkpointTouch, Touch.file, Touch.whole]

theorem stays_checkpoint_temporary_iff (tag : Bytes) (size : Nat) {ending : Bytes}
    (proper : Ending ending) :
    Stays storage ((checkpointTouch filename (tag ++ ending)).temporary size).whole ↔
      Stays storage (folderName (filename ++ slash :: tag)) := by
  rw [← stays_checkpoint_iff storage filename tag proper.temporary]
  simp [checkpointTouch, Touch.file, Touch.temporary, Touch.whole]

end

theorem Touch.folder_uncut_iff (storage : StorageDir) (area : Area) (folder : Bytes) :
    (Touch.folder area folder).Uncut storage ↔ folder.length ≤ storage.room area 512 := by
  simp [Touch.Uncut, Touch.text, Touch.whole, Touch.folder, StorageDir.cut]

theorem slashPrefixes_begins {text part : Bytes} (listed : part ∈ slashPrefixes text) :
    part <+: text := by
  induction text generalizing part with
  | nil => simp [slashPrefixes] at listed
  | cons c text ih =>
      rw [slashPrefixes, List.mem_append, List.mem_map] at listed
      rcases listed with first | ⟨rest, member, rfl⟩
      · split at first
        · rw [List.mem_singleton.mp first]
          exact List.nil_prefix
        · simp at first
      · exact List.cons_prefix_cons.mpr ⟨rfl, ih member⟩

theorem withoutLastSlash_begins (text : Bytes) : withoutLastSlash text <+: text := by
  unfold withoutLastSlash
  split
  · exact List.dropLast_prefix text
  · exact List.prefix_refl text

theorem folderParts_begins {text part : Bytes} (listed : part ∈ folderParts text) :
    part <+: text := by
  rw [folderParts, List.mem_append, List.mem_singleton] at listed
  rcases listed with member | rfl
  · exact (slashPrefixes_begins member).trans (withoutLastSlash_begins text)
  · exact withoutLastSlash_begins text

theorem mkdirTouches_stays_iff (storage : StorageDir) (area : Area) (folder : Bytes) :
    (∀ touch ∈ mkdirTouches storage area folder, touch.Stays storage) ↔
      FolderStays storage.path (storage.cut area 512 folder) := by
  have text (part : Bytes) : (Touch.folder area part).text storage = storage.cut area 512 part := by
    simp [Touch.text, Touch.folder]
  have short : (storage.cut area 512 folder).length ≤ storage.room area 512 := List.length_take_le _ _
  have parts : ∀ part ∈ folderParts (storage.cut area 512 folder),
      (Touch.folder area part).text storage = part := by
    intro part listed
    rw [text]
    exact List.take_of_length_le ((folderParts_begins listed).length_le.trans short)
  rw [mkdirTouches, text, List.forall_mem_map, FolderStays]
  refine forall_congr' fun part => forall_congr' fun listed => ?_
  rw [Touch.Stays, parts part listed, Touch.folder]
  simp only [true_and]

theorem Touch.file_stays_iff (storage : StorageDir) {touch : Touch} (file : touch.made = false) :
    touch.Stays storage ↔ SharedFileSystem.Stays storage.path (touch.text storage) := by
  rw [Touch.Stays, file]
  simp

theorem recordTouch_temporary_uncut {storage : StorageDir} {filename : Bytes}
    (uncut : (recordTouch filename).Uncut storage) :
    ((recordTouch filename).temporary 520).Uncut storage := by
  have width : metaSuffix.length = 5 := rfl
  have more : tmpSuffix.length = 4 := rfl
  simp only [recordTouch, metadataTouch, Touch.Uncut, Touch.text, Touch.whole, Touch.file,
    List.foldl_cons, List.foldl_nil, List.nil_append, List.flatMap_cons, List.flatMap_nil,
    List.append_nil, List.take_eq_self_iff, List.length_append, StorageDir.room,
    Area.width, StorageDir.cut] at uncut
  simp only [recordTouch, metadataTouch, Touch.temporary, Touch.Uncut, Touch.text, Touch.whole,
    Touch.file, List.singleton_append, List.foldl_cons, List.foldl_nil, List.nil_append,
    List.flatMap_cons, List.flatMap_nil, List.append_nil, StorageDir.room, Area.width, StorageDir.cut]
  have inner : (normalizeFilename filename ++ metaSuffix).take
      (512 - 1 - (storage.length + 10)) = normalizeFilename filename ++ metaSuffix := by
    refine List.take_of_length_le ?_
    rw [List.length_append]
    omega
  rw [inner]
  refine List.take_of_length_le ?_
  rw [List.length_append, List.length_append]
  omega

theorem saveTouches_stays_iff (storage : StorageDir) (filename : Bytes) :
    (∀ touch ∈ saveTouches storage filename, touch.Stays storage) ↔ SavedStays storage filename := by
  have ending : Ending metaSuffix := by decide
  rw [saveTouches, SavedStays]
  by_cases uncut : (recordTouch filename).Uncut storage
  · have temporary := recordTouch_temporary_uncut uncut
    rw [if_pos uncut, List.forall_mem_cons, List.forall_mem_singleton, Touch.file_stays_iff storage rfl,
      Touch.file_stays_iff storage rfl, uncut, temporary, recordTouch,
      stays_metadata_temporary_iff _ _ ending, stays_metadata_iff _ _ ending, and_self]
    exact ⟨fun stays _ => stays, fun stays => stays uncut⟩
  · rw [if_neg uncut]
    exact iff_of_true (by simp) fun fits => absurd fits uncut

theorem Served.cutStays_iff (storage : StorageDir) {served : Served}
    (files : ∀ touch ∈ served.files, touch.made = false) :
    (∀ touch ∈ served.touches storage, touch.Stays storage) ↔
      (∀ folder ∈ served.folders, FolderStays storage.path (storage.cut folder.1 512 folder.2)) ∧
        (∀ touch ∈ served.files, SharedFileSystem.Stays storage.path (touch.text storage)) ∧
        ∀ filename ∈ served.records, SavedStays storage filename := by
  rw [Served.touches, List.forall_mem_append, List.forall_mem_append, List.forall_mem_flatMap,
    List.forall_mem_flatMap]
  refine and_congr ?_ (and_congr ?_ ?_)
  · exact forall_congr' fun folder => forall_congr' fun _ => mkdirTouches_stays_iff ..
  · exact forall_congr' fun touch => forall_congr' fun listed =>
      Touch.file_stays_iff storage (files touch listed)
  · exact forall_congr' fun filename => forall_congr' fun _ => saveTouches_stays_iff ..

/-- Where nothing is cut the request leads where its names lead. -/
theorem Served.stays_iff {storage : StorageDir} {served : Served} (fits : served.Fits storage)
    (files : ∀ touch ∈ served.files, touch.made = false) :
    (∀ touch ∈ served.touches storage, touch.Stays storage) ↔
      (∀ folder ∈ served.folders, FolderStays storage.path folder.2) ∧
        (∀ touch ∈ served.files, SharedFileSystem.Stays storage.path touch.whole) ∧
        ∀ filename ∈ served.records, SharedFileSystem.Stays storage.path (folderName filename) := by
  rw [Served.cutStays_iff storage files]
  refine and_congr ?_ (and_congr ?_ ?_)
  · refine forall_congr' fun folder => forall_congr' fun listed => ?_
    have short := (Touch.folder_uncut_iff storage folder.1 folder.2).mp (fits.folders folder listed)
    rw [StorageDir.cut, List.take_of_length_le short]
  · refine forall_congr' fun touch => forall_congr' fun listed => ?_
    rw [fits.files touch listed]
  · exact forall_congr' fun filename => forall_congr' fun listed =>
      forall_prop_of_true (fits.records filename listed)

theorem FolderStays.root (storage : List Bytes) : FolderStays storage [] := by
  intro part listed
  rw [List.mem_singleton.mp listed]
  exact .inl (.inl (List.suffix_refl _))

theorem Request.serve_files (request : Request) :
    ∀ touch ∈ request.serve.files, touch.made = false := by
  cases request with
  | checkpoint filename tag =>
      rw [Request.serve]
      split
      · simp [copyTouches, contentTouch, recordTouch, metadataTouch, checkpointTouch,
          Touch.temporary, Touch.file]
      · simp
  | _ =>
      simp [Request.serve, copyTouches, undoSaveTouches, contentTouch, recordTouch, metadataTouch,
        checkpointTouch, Touch.temporary, Touch.file]

theorem folderCreate_stays_iff (storage : List Bytes) (folder : Bytes) :
    (∀ made ∈ folderCreate folder, FolderStays storage made.2) ↔
      FolderStays storage (normalizeFilename folder) := by
  simp [folderCreate]

theorem length_normalizeFilename (filename : Bytes) :
    filename.length ≤ (normalizeFilename filename).length + 1 := by
  cases filename with
  | nil => simp
  | cons c filename =>
      rw [normalizeFilename]
      split
      · simp
      · simp

theorem content_short {storage : StorageDir} {filename : Bytes}
    (uncut : (contentTouch filename).Uncut storage) : filename.length < 512 := by
  have room := length_normalizeFilename filename
  simp only [contentTouch, Touch.Uncut, Touch.text, Touch.whole, Touch.file, List.foldl_cons,
    List.foldl_nil, List.nil_append, List.flatMap_cons, List.flatMap_nil, List.append_nil,
    List.take_eq_self_iff, StorageDir.room, Area.width, StorageDir.cut] at uncut
  omega

theorem record_short {storage : StorageDir} {filename : Bytes}
    (uncut : (recordTouch filename).Uncut storage) : filename.length < 512 := by
  have room := length_normalizeFilename filename
  simp only [recordTouch, metadataTouch, Touch.Uncut, Touch.text, Touch.whole, Touch.file,
    List.foldl_cons, List.foldl_nil, List.nil_append, List.flatMap_cons, List.flatMap_nil,
    List.append_nil, List.take_eq_self_iff, List.length_append, StorageDir.room,
    Area.width, StorageDir.cut] at uncut
  omega

theorem folderName_free {filename : Bytes} (free : slash ∉ filename) :
    folderName filename = [] := by
  rw [folderName, List.reverse_eq_nil_iff, List.dropWhile_eq_nil_iff]
  intro c member
  have different : c ≠ slash := fun same => free (same ▸ List.mem_reverse.mp member)
  simpa using different

theorem createdFolder_stays_iff (storage : List Bytes) {filename : Bytes}
    (short : filename.length < 512) :
    (∀ made ∈ (Request.create filename).serve.folders, FolderStays storage made.2) ↔
      FolderStays storage (normalizeFilename (folderName filename)) := by
  have sizes := congrArg List.length (folderName_append_baseName filename)
  rw [List.length_append] at sizes
  have whole : createdFolder filename = folderName filename := if_pos (by omega)
  rw [Request.serve, whole]
  dsimp only
  split
  · rename_i none
    have empty : normalizeFilename (folderName filename) = [] := by
      rcases none with free | root
      · rw [folderName_free free, normalizeFilename]
      · rw [root]
        rfl
    rw [empty]
    simp [FolderStays.root]
  · exact folderCreate_stays_iff storage (folderName filename)

theorem create_stays_iff {storage : StorageDir} {filename : Bytes}
    (fits : (Request.create filename).serve.Fits storage) :
    (∀ touch ∈ (Request.create filename).touches storage, touch.Stays storage) ↔
      (Request.create filename).Stays storage.path := by
  have short := content_short (fits.files (contentTouch filename) (by simp [Request.serve]))
  rw [Request.touches, Served.stays_iff fits (Request.serve_files _),
    createdFolder_stays_iff _ short, Request.Stays, NameStays]
  refine and_congr_right fun _ => and_congr ?_ ?_
  · rw [Request.serve, List.forall_mem_singleton, stays_content_iff]
  · rw [Request.serve, List.forall_mem_singleton]

theorem Touch.file_whole (area : Area) (text : Bytes) (size : Nat) :
    (Touch.file area [(text, size)]).whole = text := by
  simp [Touch.file, Touch.whole]

theorem copyTouches_stays_iff (storage : List Bytes) (source target : Touch) :
    (∀ touch ∈ copyTouches source target, Stays storage touch.whole) ↔
      Stays storage source.whole ∧ Stays storage (target.temporary 520).whole ∧
        Stays storage target.whole := by
  rw [copyTouches, List.forall_mem_cons, List.forall_mem_cons, List.forall_mem_singleton]

theorem undoSave_stays_iff (storage : List Bytes) (filename : Bytes) :
    (∀ touch ∈ undoSaveTouches filename, Stays storage touch.whole) ↔
      NameStays storage filename := by
  have undoMeta : Ending (lit ".undo.meta") := by decide
  have undoData : Ending (lit ".undo.data") := by decide
  rw [undoSaveTouches, List.forall_mem_append, copyTouches_stays_iff, copyTouches_stays_iff,
    Touch.file_whole, Touch.file_whole, stays_ending_iff storage filename (by decide),
    stays_metadata_temporary_iff _ _ undoMeta, stays_metadata_iff _ _ undoMeta,
    stays_metadata_temporary_iff _ _ undoData, stays_metadata_iff _ _ undoData, NameStays]
  tauto

theorem session_ending (sessionId : Int) : Ending (sessionSuffix sessionId) := by
  refine ⟨?_, ?_, ?_⟩
  · intro member
    rw [sessionSuffix, List.mem_append, List.mem_append] at member
    rcases member with first | number | last
    · exact absurd first (by decide)
    · rcases showInt_bytes sessionId slash number with digit | sign
      · exact absurd digit (by decide)
      · exact absurd sign (by decide)
    · exact absurd last (by decide)
  · exact List.mem_append_left _ (by decide)
  · have tmp : tmpSuffix.length = 4 := rfl
    rw [sessionSuffix, List.length_append, List.length_append, tmp]
    omega

theorem write_stays_iff (storage : List Bytes) (filename : Bytes) (sessionId : Int) :
    (∀ touch ∈ (Request.write filename sessionId).serve.files, Stays storage touch.whole) ↔
      NameStays storage filename := by
  have ending : Ending metaSuffix := by decide
  rw [Request.serve, List.forall_mem_append, List.forall_mem_append, undoSave_stays_iff,
    List.forall_mem_cons, List.forall_mem_singleton, List.forall_mem_cons,
    List.forall_mem_singleton, Touch.file_whole, Touch.file_whole, recordTouch,
    stays_metadata_iff _ _ ending, stays_content_iff,
    stays_ending_iff storage filename (session_ending sessionId), NameStays]
  tauto

theorem savedName_stays_iff (storage : List Bytes) {request : MoveRequest}
    (short : request.savedName.length < 512) :
    Stays storage (folderName request.savedName) ↔ Stays storage (folderName request.target) := by
  have ending : Ending metaSuffix := by decide
  rw [← stays_ending_iff storage request.savedName ending,
    ← stays_ending_iff storage request.target ending, MoveRequest.target]
  unfold MoveRequest.savedName at short ⊢
  split at short
  · rename_i root
    rw [if_pos root, root]
    rfl
  · rename_i other
    rw [List.length_take] at short
    rw [if_neg other, List.take_of_length_le (by omega), Stays, Stays, List.append_assoc,
      List.append_assoc, resolve_normalizeFilename_append]

theorem movedFolder_stays_iff (storage : List Bytes) (request : MoveRequest) :
    (∀ made ∈ (Request.move request).serve.folders, FolderStays storage made.2) ↔
      FolderStays storage (normalizeFilename request.newFolder) := by
  rw [Request.serve]
  dsimp only
  split
  · rename_i root
    have empty : normalizeFilename request.newFolder = [] := by
      rw [root]
      rfl
    rw [empty]
    simp [FolderStays.root]
  · exact folderCreate_stays_iff storage request.newFolder

theorem move_stays_iff {storage : StorageDir} {request : MoveRequest}
    (fits : (Request.move request).serve.Fits storage) :
    (∀ touch ∈ (Request.move request).touches storage, touch.Stays storage) ↔
      (Request.move request).Stays storage.path := by
  have ending : Ending metaSuffix := by decide
  have short := record_short (fits.records request.savedName (by simp [Request.serve]))
  rw [Request.touches, Served.stays_iff fits (Request.serve_files _), movedFolder_stays_iff,
    Request.Stays, NameStays, NameStays]
  refine and_congr_right fun _ => ?_
  rw [Request.serve, List.forall_mem_singleton, savedName_stays_iff _ short]
  simp only [List.forall_mem_cons, Touch.file_whole, recordTouch, stays_metadata_iff _ _ ending,
    stays_ending_iff _ _ ending]
  tauto

theorem checkpoint_stays_iff (storage : List Bytes) (filename : Bytes) {tag : Bytes}
    (valid : isValidCheckpointTag tag = true) :
    (∀ touch ∈ (Request.checkpoint filename tag).serve.files, Stays storage touch.whole) ↔
      NameStays storage filename := by
  have metaEnding : Ending (lit ".checkpoint.meta") := by decide
  have dataEnding : Ending (lit ".checkpoint.data") := by decide
  have indexEnding : Ending (lit "checkpoint.index") := by decide
  have ending : Ending metaSuffix := by decide
  have index := stays_checkpoint_file_iff storage filename [] indexEnding
  have indexTemporary := stays_checkpoint_temporary_iff storage filename [] 710 indexEnding
  rw [stays_tag_iff _ _ (by simp), List.nil_append] at index indexTemporary
  rw [Request.serve, if_pos valid]
  dsimp only
  rw [List.forall_mem_append, List.forall_mem_append, List.forall_mem_cons,
    List.forall_mem_singleton, index, indexTemporary, copyTouches_stays_iff,
    copyTouches_stays_iff, stays_content_iff, recordTouch, stays_metadata_iff _ _ ending,
    stays_checkpoint_file_iff _ _ _ dataEnding, stays_checkpoint_file_iff _ _ _ metaEnding,
    stays_checkpoint_temporary_iff _ _ _ _ dataEnding,
    stays_checkpoint_temporary_iff _ _ _ _ metaEnding, stays_tag_iff _ _ ((validTag_parts valid).2.2 slash (by decide)),
    NameStays]
  tauto

theorem revert_stays_iff (storage : List Bytes) (filename tag : Bytes) :
    (∀ touch ∈ (Request.revert filename tag).serve.files, Stays storage touch.whole) ↔
      NameStays storage filename ∧ Stays storage (folderName (filename ++ slash :: tag)) := by
  have metaEnding : Ending (lit ".checkpoint.meta") := by decide
  have dataEnding : Ending (lit ".checkpoint.data") := by decide
  have ending : Ending metaSuffix := by decide
  rw [Request.serve, List.forall_mem_append, List.forall_mem_append, undoSave_stays_iff,
    copyTouches_stays_iff, copyTouches_stays_iff, recordTouch,
    stays_checkpoint_file_iff _ _ _ dataEnding, stays_checkpoint_file_iff _ _ _ metaEnding,
    stays_content_iff, stays_content_temporary_iff, stays_metadata_temporary_iff _ _ ending,
    stays_metadata_iff _ _ ending, NameStays]
  tauto

theorem Request.stays_iff {storage : StorageDir} {request : Request}
    (fits : request.serve.Fits storage) :
    (∀ touch ∈ request.touches storage, touch.Stays storage) ↔ request.Stays storage.path := by
  have ending : Ending metaSuffix := by decide
  have parts := Served.stays_iff fits request.serve_files
  cases request with
  | create filename => exact create_stays_iff fits
  | createFolder folder =>
      rw [Request.touches, parts, Request.serve, folderCreate_stays_iff, Request.Stays]
      simp
  | read filename =>
      rw [Request.touches, parts, Request.serve, List.forall_mem_cons, List.forall_mem_singleton,
        List.forall_mem_singleton, stays_content_iff, recordTouch, stays_metadata_iff _ _ ending,
        Request.Stays, NameStays]
      simp only [List.not_mem_nil, false_implies, implies_true, true_and, and_self_right]
  | write filename sessionId =>
      rw [Request.touches, parts, write_stays_iff, Request.serve, List.forall_mem_singleton,
        Request.Stays, NameStays]
      simp only [List.not_mem_nil, false_implies, implies_true, true_and, and_self_right]
  | move request => exact move_stays_iff fits
  | delete filename =>
      rw [Request.touches, parts, Request.serve, List.forall_mem_cons, List.forall_mem_singleton,
        stays_content_iff, recordTouch, stays_metadata_iff _ _ ending, Request.Stays, NameStays]
      simp
  | checkpoint filename tag =>
      rw [Request.touches, Request.Stays]
      by_cases valid : isValidCheckpointTag tag = true
      · rw [parts, checkpoint_stays_iff _ _ valid, Request.serve, if_pos valid]
        simp [valid]
      · simp [Request.serve, valid, Served.touches]
  | revert filename tag =>
      rw [Request.touches, parts, revert_stays_iff, Request.serve, Request.Stays]
      simp

section

variable (storage : StorageDir)

theorem Touch.file_text (area : Area) (text : Bytes) (size : Nat) :
    (Touch.file area [(text, size)]).text storage = storage.cut area size text := by
  simp [Touch.file, Touch.text]

theorem Touch.temporary_text (touch : Touch) (size : Nat) :
    (touch.temporary size).text storage = storage.cut touch.area size (touch.text storage ++ tmpSuffix) := by
  simp [Touch.temporary, Touch.text, List.foldl_append]

theorem checkpointTouch_text (filename ending : Bytes) :
    (checkpointTouch filename ending).text storage = cutCheckpoint storage filename ending := by
  simp [checkpointTouch, Touch.file, Touch.text, cutCheckpoint]

theorem copyTouches_cutStays_iff (source target : Touch) :
    (∀ touch ∈ copyTouches source target, Stays storage.path (touch.text storage)) ↔
      Stays storage.path (source.text storage) ∧ CopyStays storage target.area (target.text storage) := by
  rw [copyTouches, List.forall_mem_cons, List.forall_mem_cons, List.forall_mem_singleton, Touch.temporary_text,
    CopyStays, CutStays]
  tauto

theorem undoSave_cutStays_iff (filename : Bytes) :
    (∀ touch ∈ undoSaveTouches filename, Stays storage.path (touch.text storage)) ↔
      UndoSaveStays storage filename := by
  rw [undoSaveTouches, List.forall_mem_append, copyTouches_cutStays_iff, copyTouches_cutStays_iff,
    metadataTouch, metadataTouch]
  simp only [Touch.file_text, and_assoc]
  rfl

theorem folderCreate_cutStays_iff (folder : Bytes) :
    (∀ made ∈ folderCreate folder, FolderStays storage.path (storage.cut made.1 512 made.2)) ↔
      CutFolderStays storage (normalizeFilename folder) := by
  simp [folderCreate, CutFolderStays]

theorem Request.cutStays_iff (request : Request) :
    (∀ touch ∈ request.touches storage, touch.Stays storage) ↔ request.CutStays storage := by
  have parts := Served.cutStays_iff storage request.serve_files
  rw [Request.touches, parts]
  cases request with
  | create filename =>
      rw [Request.serve, Request.CutStays, List.forall_mem_singleton, List.forall_mem_singleton, contentTouch,
        Touch.file_text]
      refine and_congr_left fun _ => ?_
      dsimp only
      split
      · rename_i none
        refine iff_of_true (by simp) fun inside other => ?_
        exact absurd none (not_or.mpr ⟨not_not.mpr inside, other⟩)
      · rename_i made
        rw [not_or, not_not] at made
        rw [folderCreate_cutStays_iff]
        exact ⟨fun stays _ _ => stays, fun stays => stays made.1 made.2⟩
  | createFolder folder =>
      rw [Request.serve, folderCreate_cutStays_iff, Request.CutStays]
      simp
  | read filename =>
      rw [Request.serve, Request.CutStays, List.forall_mem_cons, List.forall_mem_singleton,
        List.forall_mem_singleton, contentTouch, recordTouch, metadataTouch, Touch.file_text, Touch.file_text,
        and_assoc]
      simp only [List.not_mem_nil, false_implies, implies_true, true_and]
      rfl
  | write filename sessionId =>
      rw [Request.serve, Request.CutStays, List.forall_mem_append, List.forall_mem_append,
        undoSave_cutStays_iff, List.forall_mem_cons, List.forall_mem_singleton, List.forall_mem_cons,
        List.forall_mem_singleton, List.forall_mem_singleton, contentTouch, recordTouch, metadataTouch]
      simp only [Touch.file_text, List.not_mem_nil, false_implies, implies_true, true_and, and_assoc]
      rfl
  | move request =>
      rw [Request.serve, Request.CutStays, List.forall_mem_singleton]
      refine and_congr ?_ ?_
      · dsimp only
        split
        · rename_i root
          exact iff_of_true (by simp) fun other => absurd root other
        · rename_i other
          rw [folderCreate_cutStays_iff]
          exact ⟨fun stays _ => stays, fun stays => stays other⟩
      · simp only [List.forall_mem_cons, List.not_mem_nil, false_implies, implies_true, and_true,
          Touch.file_text, recordTouch, metadataTouch, and_assoc]
        rfl
  | delete filename =>
      rw [Request.serve, Request.CutStays, List.forall_mem_cons, List.forall_mem_singleton, contentTouch,
        recordTouch, metadataTouch, Touch.file_text, Touch.file_text]
      simp only [List.not_mem_nil, false_implies, implies_true, true_and, and_true]
      rfl
  | checkpoint filename tag =>
      rw [Request.CutStays]
      by_cases valid : isValidCheckpointTag tag = true
      · rw [Request.serve, if_pos valid]
        dsimp only
        rw [List.forall_mem_singleton, List.forall_mem_append, List.forall_mem_append,
          copyTouches_cutStays_iff, copyTouches_cutStays_iff, List.forall_mem_cons, List.forall_mem_singleton,
          Touch.temporary_text]
        simp only [checkpointTouch_text, contentTouch, recordTouch, metadataTouch, Touch.file_text,
          List.not_mem_nil, false_implies, implies_true, and_true, and_assoc]
        exact ⟨fun stays _ => stays, fun stays => stays valid⟩
      · simp [Request.serve, valid]
  | revert filename tag =>
      rw [Request.serve, Request.CutStays, List.forall_mem_append, List.forall_mem_append,
        undoSave_cutStays_iff, copyTouches_cutStays_iff, copyTouches_cutStays_iff]
      simp only [checkpointTouch_text, contentTouch, recordTouch, metadataTouch, Touch.file_text,
        List.not_mem_nil, false_implies, implies_true, true_and, and_true, and_assoc]
      rfl

end

/-- Every path that a request touches lies below `files`, `metadata` or `checkpoints` exactly where
its names lead there. -/
theorem request_confined_iff (storage : StorageDir) (request : Request) :
    (∀ touch ∈ request.touches storage, touch.Confined storage) ↔ request.Kept storage := by
  have stays : (∀ touch ∈ request.touches storage, touch.Confined storage) ↔
      ∀ touch ∈ request.touches storage, touch.Stays storage := by
    refine forall_congr' fun touch => forall_congr' fun _ => ?_
    exact touch.confined_iff storage
  rw [stays, Request.Kept]
  constructor
  · intro all
    exact ⟨fun fits => (Request.stays_iff fits).mp all, fun _ => (request.cutStays_iff storage).mp all⟩
  · rintro ⟨whole, cut⟩
    by_cases fits : request.serve.Fits storage
    · exact (Request.stays_iff fits).mpr (whole fits)
    · exact (request.cutStays_iff storage).mpr (cut fits)

def exampleStorage : StorageDir := ⟨[lit "srv"], 4, by decide⟩

theorem requests_leave_storage :
    (∃ touch ∈ (Request.createFolder (lit "/../../out/")).touches exampleStorage,
      touch.path exampleStorage = [lit "out"] ∧ ¬touch.Confined exampleStorage) ∧
    ∃ touch ∈ (Request.read (lit "../../etc/passwd")).touches exampleStorage,
      touch.path exampleStorage = [lit "passwd", lit "etc"] ∧
        ¬touch.Confined exampleStorage := by
  decide +kernel

end SharedFileSystem
