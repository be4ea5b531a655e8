import SharedFileSystem.StoragePaths
import SharedFileSystem.Protocol
import SharedFileSystem.Lib.Joined

/-!
The start of a storage server (`ss/file_scan.c`, `ss/main.c`): the scan of its directory, the list of
the files with what their records say, the SS_REGISTER message with the list, and what arrives of it.
-/

namespace SharedFileSystem

open ByteText

def maxFilesPerSs : Nat := 1000

-- what `readdir` and `stat` say, without `.` and `..`
inductive DirEntry where
  | file (name : Bytes)
  | folder (name : Bytes) (entries : List DirEntry)

-- a name in the root is cut, a longer path is left out
def scannedName (relPath name : Bytes) : Option Bytes :=
  if relPath.isEmpty then some (name.take 255)
  else
    let filename := slash :: (relPath ++ slash :: name)
    if 256 ≤ filename.length then none else some filename

def newRelPath (relPath name : Bytes) : Bytes :=
  if relPath.isEmpty then name else relPath ++ slash :: name

mutual

def scanEntry (relPath : Bytes) (found : List Bytes) : DirEntry → List Bytes
  | .file name => found ++ (scannedName relPath name).toList
  | .folder name entries => scanDirectoryRecursive (newRelPath relPath name) found entries

def scanDirectoryRecursive (relPath : Bytes) (found : List Bytes) : List DirEntry → List Bytes
  | [] => found
  | entry :: rest =>
      if maxFilesPerSs ≤ found.length then found
      else scanDirectoryRecursive relPath (scanEntry relPath found entry) rest

end

def scanDirectory (entries : List DirEntry) : List Bytes := scanDirectoryRecursive [] [] entries

def describeFile (storage : List Bytes) (disk : Disk) (filename : Bytes) : ListedFile :=
  match disk (recordPath storage filename) with
  | none => ⟨filename, [], 0, 0, 0⟩
  | some text =>
      let metadata := metadataLoad text
      { filename := filename
        owner := metadata.owner.take 63
        sizeBytes := metadata.sizeBytes
        wordCount := metadata.wordCount
        charCount := metadata.charCount }

def ListedFile.entry (file : ListedFile) : Bytes :=
  file.filename ++ pipe :: (file.owner ++ pipe :: (showNat file.sizeBytes ++
    pipe :: (showInt file.wordCount ++ pipe :: showInt file.charCount)))

def fileListFrom (buflen pos : Nat) : List ListedFile → Option Bytes
  | [] => some []
  | file :: rest =>
      let text := file.entry ++ if rest.isEmpty then [] else [comma]
      if buflen ≤ pos + text.length + 1 then none
      else (fileListFrom buflen (pos + text.length) rest).map (text ++ ·)

def buildFileListString (files : List ListedFile) (buflen : Nat) : Option Bytes :=
  fileListFrom buflen 0 files

structure ServerConfig where
  host : Bytes
  clientPort : Int
  storageDir : Bytes
  username : Bytes
deriving DecidableEq, Repr

def ServerConfig.header (config : ServerConfig) : Bytes :=
  lit "host=" ++ (config.host ++ comma :: (lit "client_port=" ++ (showInt config.clientPort ++
    comma :: (lit "storage=" ++ config.storageDir))))

def ServerConfig.payload (config : ServerConfig) (fileList : Bytes) : Bytes :=
  config.header ++ comma :: (lit "files=" ++ fileList)

-- a list that is too long is replaced by the empty one
def ServerConfig.registration (config : ServerConfig) (storage : List Bytes) (disk : Disk)
    (entries : List DirEntry) : Message :=
  let files := (scanDirectory entries).map (describeFile storage disk)
  let fileList := (buildFileListString files 4096).getD []
  { type := lit "SS_REGISTER"
    id := lit "1"
    username := config.username.take 63
    role := lit "SS"
    payload := ((config.payload fileList).take 4095).take 1791 }

def NameServer.handleMessage (server : NameServer) : LineResult → NameServer
  | .message msg =>
      if msg.type = lit "SS_REGISTER" then server.register msg.username msg.payload else server
  | .invalid | .unset => server

def NameServer.startServer (server : NameServer) (config : ServerConfig) (storage : List Bytes)
    (disk : Disk) (entries : List DirEntry) : NameServer :=
  let line := (protoFormatLine (config.registration storage disk entries) maxLine).1
  server.handleMessage (protoParseLine (recvLine line maxLine))

structure StoredFile where
  folder : Bytes
  name : Bytes
deriving DecidableEq, Repr

def StoredFile.path (file : StoredFile) : Bytes :=
  if file.folder.isEmpty then file.name else slash :: (file.folder ++ slash :: file.name)

def StoredFile.key (file : StoredFile) : Bytes × Bytes :=
  (if file.folder.isEmpty then rootFolder else slash :: (file.folder ++ [slash]), file.name)

mutual

def entryFiles (relPath : Bytes) : DirEntry → List StoredFile
  | .file name => [⟨relPath, name⟩]
  | .folder name entries => directoryFiles (newRelPath relPath name) entries

def directoryFiles (relPath : Bytes) : List DirEntry → List StoredFile
  | [] => []
  | entry :: rest => entryFiles relPath entry ++ directoryFiles relPath rest

end

theorem take_append_take {α : Type} (found front rest : List α) {limit : Nat}
    (room : found.length ≤ limit) :
    (found ++ front.take (limit - found.length)) ++
        rest.take (limit - (found ++ front.take (limit - found.length)).length) =
      found ++ (front ++ rest).take (limit - found.length) := by
  rw [List.take_append, List.append_assoc, List.length_append, List.length_take]
  congr 3
  omega

mutual

theorem scanEntry_eq (relPath : Bytes) (found : List Bytes) (entry : DirEntry)
    (room : found.length < maxFilesPerSs) :
    scanEntry relPath found entry = found ++
      ((entryFiles relPath entry).filterMap fun file => scannedName file.folder file.name).take
        (maxFilesPerSs - found.length) := by
  cases entry with
  | file name =>
      rw [scanEntry, entryFiles]
      have space : 1 ≤ maxFilesPerSs - found.length := by omega
      cases scanned : scannedName relPath name with
      | none => simp [scanned]
      | some filename => simp [scanned, List.take_of_length_le, space]
  | folder name entries =>
      rw [scanEntry, entryFiles]
      exact scanDirectoryRecursive_eq (newRelPath relPath name) found entries

theorem scanDirectoryRecursive_eq (relPath : Bytes) (found : List Bytes) (entries : List DirEntry) :
    scanDirectoryRecursive relPath found entries = found ++
      ((directoryFiles relPath entries).filterMap fun file =>
        scannedName file.folder file.name).take (maxFilesPerSs - found.length) := by
  cases entries with
  | nil => simp [scanDirectoryRecursive, directoryFiles]
  | cons entry rest =>
      rw [scanDirectoryRecursive, directoryFiles]
      split
      · rename_i full
        rw [Nat.sub_eq_zero_of_le full]
        simp
      · rename_i room
        rw [scanDirectoryRecursive_eq relPath _ rest, scanEntry_eq relPath found entry (by omega),
          take_append_take _ _ _ (by omega), List.filterMap_append]

end

theorem StoredFile.scannedName_path {file : StoredFile} (short : file.path.length ≤ 255) :
    scannedName file.folder file.name = some file.path := by
  unfold scannedName
  unfold StoredFile.path at short ⊢
  split
  · rename_i root
    rw [if_pos root] at short
    rw [List.take_of_length_le short]
  · rename_i folder
    rw [if_neg folder] at short
    dsimp only
    rw [if_neg (by omega)]

theorem scanDirectory_all {entries : List DirEntry}
    (few : (directoryFiles [] entries).length ≤ maxFilesPerSs)
    (short : ∀ file ∈ directoryFiles [] entries, file.path.length ≤ 255) :
    scanDirectory entries = (directoryFiles [] entries).map StoredFile.path := by
  have named : (directoryFiles [] entries).filterMap
      (fun file => scannedName file.folder file.name) =
        (directoryFiles [] entries).map StoredFile.path := by
    rw [← List.filterMap_eq_map]
    apply List.filterMap_congr
    intro file member
    exact StoredFile.scannedName_path (short file member)
  rw [scanDirectory, scanDirectoryRecursive_eq, named, List.nil_append, List.take_of_length_le]
  rw [List.length_map, List.length_nil]
  omega

def joinedEntries (files : List ListedFile) : Bytes :=
  [comma].intercalate (files.map ListedFile.entry)

theorem fileListFrom_eq (buflen pos : Nat) (file : ListedFile) (files : List ListedFile) :
    fileListFrom buflen pos (file :: files) =
      if buflen ≤ pos + (joinedEntries (file :: files)).length + 1 then none
      else some (joinedEntries (file :: files)) := by
  induction files generalizing file pos with
  | nil => simp [fileListFrom, joinedEntries]
  | cons next files ih =>
      have joined : joinedEntries (file :: next :: files) =
          file.entry ++ [comma] ++ joinedEntries (next :: files) := by
        simp [joinedEntries, List.intercalate_cons_cons]
      rw [fileListFrom, ih, joined]
      simp only [List.isEmpty_cons, Bool.false_eq_true, ↓reduceIte, List.length_append,
        List.length_singleton]
      by_cases early : buflen ≤ pos + (file.entry.length + 1) + 1
      · rw [if_pos early, if_pos (by omega)]
      · rw [if_neg early]
        by_cases late : buflen ≤
            pos + (file.entry.length + 1 + (joinedEntries (next :: files)).length) + 1
        · rw [if_pos (by omega), if_pos late]
          rfl
        · rw [if_neg (by omega), if_neg late]
          simp

theorem buildFileListString_eq (files : List ListedFile) (buflen : Nat) :
    (buildFileListString files buflen).getD [] = joinedEntries files ∨
      files ≠ [] ∧ buflen ≤ (joinedEntries files).length + 1 ∧
        (buildFileListString files buflen).getD [] = [] := by
  cases files with
  | nil => exact Or.inl rfl
  | cons file files =>
      rw [buildFileListString, fileListFrom_eq, Nat.zero_add]
      split
      · rename_i full
        exact Or.inr ⟨by simp, full, rfl⟩
      · exact Or.inl rfl

theorem owner_ite {condition : Prop} [Decidable condition] {first second : LoadState} {owner : Bytes}
    (yes : first.owner = owner) (no : second.owner = owner) :
    (if condition then first else second).owner = owner := by
  split
  · exact yes
  · exact no

theorem loadLine_owner (state : LoadState) (line : Bytes) :
    (loadLine state line).owner = state.owner ∨
      (loadLine state line).owner = (line.drop 6).take usernameBytes := by
  have sentence : (readSentenceLine state line).owner = state.owner := by
    unfold readSentenceLine
    dsimp only
    split
    · rfl
    · split <;> rfl
  have request : (readRequestLine state line).owner = state.owner := by
    unfold readRequestLine
    dsimp only
    split <;> rfl
  by_cases named : (lit "owner=").isPrefixOf line = true
  · refine Or.inr ?_
    rw [loadLine, if_pos named]
  · refine Or.inl ?_
    rw [loadLine, if_neg named]
    iterate 8 refine owner_ite rfl ?_
    refine owner_ite sentence ?_
    iterate 2 refine owner_ite rfl ?_
    exact owner_ite request rfl

theorem loadStep_owner (state : LoadState) (line : Bytes) :
    (loadStep state line).owner = state.owner ∨
      (loadStep state line).owner = (line.drop 6).take usernameBytes := by
  unfold loadStep
  split
  · exact loadLine_owner state line
  · refine Or.inl ?_
    unfold loadAclLine
    split_ifs <;> rfl

theorem loadSteps_owner {bad : UInt8} (lines : List Bytes) (state : LoadState)
    (before : bad ∉ state.owner) (free : ∀ line ∈ lines, bad ∉ line) :
    bad ∉ (lines.foldl loadStep state).owner := by
  induction lines generalizing state with
  | nil => exact before
  | cons line lines ih =>
      rw [List.foldl_cons]
      apply ih
      · rcases loadStep_owner state line with same | read
        · rw [same]
          exact before
        · rw [read]
          intro member
          exact free line (by simp) (List.mem_of_mem_drop (List.mem_of_mem_take member))
      · exact fun other member => free other (by simp [member])

theorem metadataLoad_owner (text : Bytes) :
    newline ∉ (metadataLoad text).owner ∧ 0 ∉ (metadataLoad text).owner := by
  have lines := tokens_mem isNewline (cstr text)
  refine ⟨loadSteps_owner _ {} (by simp) ?_, loadSteps_owner _ {} (by simp) ?_⟩
  · intro line listed member
    have plain := ((lines line listed).2 newline member).1
    exact absurd plain (by decide)
  · intro line listed member
    exact cstr_free text ((lines line listed).2 0 member).2

theorem describeFile_owner (storage : List Bytes) (disk : Disk) (filename : Bytes) :
    newline ∉ (describeFile storage disk filename).owner ∧
      0 ∉ (describeFile storage disk filename).owner ∧
      (describeFile storage disk filename).owner.length ≤ 63 := by
  unfold describeFile
  split
  · simp
  · rename_i text _
    obtain ⟨oneLine, noNul⟩ := metadataLoad_owner text
    dsimp only
    refine ⟨fun member => oneLine (List.mem_of_mem_take member),
      fun member => noNul (List.mem_of_mem_take member), ?_⟩
    rw [List.length_take]
    omega

theorem describeFile_filename (storage : List Bytes) (disk : Disk) (filename : Bytes) :
    (describeFile storage disk filename).filename = filename := by
  unfold describeFile
  split <;> rfl

structure ComponentName (name : Bytes) : Prop where
  nonempty : name ≠ []
  noSlash : slash ∉ name
  noNul : 0 ∉ name

def DirEntry.name : DirEntry → Bytes
  | .file name => name
  | .folder name _ => name

mutual

def DirEntry.Proper : DirEntry → Prop
  | .file name => ComponentName name
  | .folder name entries => ComponentName name ∧ ProperEntries entries

def ProperEntries : List DirEntry → Prop
  | [] => True
  | entry :: rest =>
      entry.Proper ∧ ProperEntries rest ∧ ∀ other ∈ rest, other.name ≠ entry.name

end

structure Directory where
  entries : List DirEntry
  proper : ProperEntries entries

def Directory.files (directory : Directory) : List StoredFile := directoryFiles [] directory.entries

structure StoredFile.Proper (file : StoredFile) : Prop where
  component : ComponentName file.name
  folderNul : 0 ∉ file.folder

theorem newRelPath_noNul {relPath name : Bytes} (free : 0 ∉ relPath) (component : ComponentName name) :
    0 ∉ newRelPath relPath name := by
  unfold newRelPath
  split
  · exact component.noNul
  · rw [List.mem_append, List.mem_cons, not_or, not_or]
    exact ⟨free, by decide, component.noNul⟩

theorem DirEntry.Proper.component {entry : DirEntry} (proper : entry.Proper) :
    ComponentName entry.name := by
  cases entry with
  | file name => exact proper
  | folder name entries =>
      rw [DirEntry.Proper] at proper
      exact proper.1

mutual

theorem entryFiles_proper {relPath : Bytes} (free : 0 ∉ relPath) (entry : DirEntry)
    (proper : entry.Proper) : ∀ file ∈ entryFiles relPath entry, file.Proper := by
  intro file member
  cases entry with
  | file name =>
      rw [entryFiles, List.mem_singleton] at member
      subst member
      exact ⟨proper.component, free⟩
  | folder name entries =>
      rw [DirEntry.Proper] at proper
      rw [entryFiles] at member
      exact directoryFiles_proper (newRelPath_noNul free proper.1) entries proper.2 file member

theorem directoryFiles_proper {relPath : Bytes} (free : 0 ∉ relPath) (entries : List DirEntry)
    (proper : ProperEntries entries) : ∀ file ∈ directoryFiles relPath entries, file.Proper := by
  intro file member
  cases entries with
  | nil => simp [directoryFiles] at member
  | cons entry rest =>
      rw [ProperEntries] at proper
      rw [directoryFiles, List.mem_append] at member
      rcases member with here | later
      · exact entryFiles_proper free entry proper.1 file here
      · exact directoryFiles_proper free rest proper.2.1 file later

end

def StoredFile.Under (relPath name : Bytes) (file : StoredFile) : Prop :=
  file = ⟨relPath, name⟩ ∨ newRelPath relPath name ++ [slash] <+: file.folder ++ [slash]

def relFront (relPath : Bytes) : Bytes := if relPath.isEmpty then [] else relPath ++ [slash]

theorem newRelPath_eq (relPath name : Bytes) : newRelPath relPath name = relFront relPath ++ name := by
  unfold newRelPath relFront
  split
  · rfl
  · simp

theorem relFront_length (relPath : Bytes) : relPath.length ≤ (relFront relPath).length := by
  unfold relFront
  split
  · simp_all
  · simp

theorem under_name {relPath first second : Bytes} {file : StoredFile} (one : ComponentName first)
    (two : ComponentName second) (underFirst : file.Under relPath first)
    (underSecond : file.Under relPath second) : first = second := by
  have apart {name : Bytes} (component : ComponentName name) :
      ¬newRelPath relPath name ++ [slash] <+: relPath ++ [slash] := by
    intro within
    have size := within.length_le
    have front := relFront_length relPath
    have some := List.length_pos_iff.mpr component.nonempty
    rw [newRelPath_eq] at size
    simp only [List.length_append, List.length_singleton] at size
    omega
  rcases underFirst with rfl | withinFirst
  · rcases underSecond with same | withinSecond
    · exact congrArg StoredFile.name same
    · exact absurd withinSecond (apart two)
  · rcases underSecond with rfl | withinSecond
    · exact absurd withinFirst (apart one)
    · have agree (a b : Bytes) (component : ComponentName a) (other : ComponentName b)
          (within : newRelPath relPath a ++ [slash] <+: newRelPath relPath b ++ [slash]) : a = b := by
        obtain ⟨rest, whole⟩ := within
        rw [newRelPath_eq, newRelPath_eq, List.append_assoc, List.append_assoc, List.append_assoc,
          List.append_cancel_left_eq, List.singleton_append] at whole
        have fronts := congrArg (List.takeWhile (· ≠ slash)) whole
        rw [takeWhile_upTo component.noSlash, takeWhile_upTo other.noSlash] at fronts
        exact fronts
      rcases List.prefix_or_prefix_of_prefix withinFirst withinSecond with within | within
      · exact agree first second one two within
      · exact (agree second first two one within).symm

mutual

theorem entryFiles_under (relPath : Bytes) (entry : DirEntry) (proper : entry.Proper) :
    ∀ file ∈ entryFiles relPath entry, file.Under relPath entry.name := by
  intro file member
  cases entry with
  | file name =>
      rw [entryFiles, List.mem_singleton] at member
      exact Or.inl member
  | folder name entries =>
      rw [DirEntry.Proper] at proper
      rw [entryFiles] at member
      obtain ⟨other, _, under⟩ := directoryFiles_under (newRelPath relPath name) entries proper.2
        file member
      have inside : newRelPath relPath name ≠ [] := by
        rw [newRelPath_eq]
        simp [proper.1.nonempty]
      refine Or.inr ?_
      rcases under with rfl | within
      · exact List.prefix_rfl
      · refine List.IsPrefix.trans ?_ within
        rw [newRelPath_eq (newRelPath relPath name), relFront, if_neg (by simpa using inside),
          List.append_assoc]
        exact List.prefix_append _ _

theorem directoryFiles_under (relPath : Bytes) (entries : List DirEntry)
    (proper : ProperEntries entries) : ∀ file ∈ directoryFiles relPath entries,
      ∃ entry ∈ entries, file.Under relPath entry.name := by
  intro file member
  cases entries with
  | nil => simp [directoryFiles] at member
  | cons entry rest =>
      rw [ProperEntries] at proper
      rw [directoryFiles, List.mem_append] at member
      rcases member with here | later
      · exact ⟨entry, by simp, entryFiles_under relPath entry proper.1 file here⟩
      · obtain ⟨other, among, under⟩ := directoryFiles_under relPath rest proper.2.1 file later
        exact ⟨other, by simp [among], under⟩

end

theorem ProperEntries.component {entries : List DirEntry} (proper : ProperEntries entries) :
    ∀ entry ∈ entries, ComponentName entry.name := by
  induction entries with
  | nil => simp
  | cons entry rest ih =>
      rw [ProperEntries] at proper
      intro other member
      rcases List.mem_cons.mp member with rfl | later
      · exact proper.1.component
      · exact ih proper.2.1 other later

mutual

theorem entryFiles_nodup (relPath : Bytes) (entry : DirEntry) (proper : entry.Proper) :
    (entryFiles relPath entry).Nodup := by
  cases entry with
  | file name => simp [entryFiles]
  | folder name entries =>
      rw [DirEntry.Proper] at proper
      rw [entryFiles]
      exact directoryFiles_nodup (newRelPath relPath name) entries proper.2

theorem directoryFiles_nodup (relPath : Bytes) (entries : List DirEntry)
    (proper : ProperEntries entries) : (directoryFiles relPath entries).Nodup := by
  cases entries with
  | nil => simp [directoryFiles]
  | cons entry rest =>
      rw [ProperEntries] at proper
      obtain ⟨here, later, different⟩ := proper
      rw [directoryFiles, List.nodup_append]
      refine ⟨entryFiles_nodup relPath entry here, directoryFiles_nodup relPath rest later, ?_⟩
      rintro file inFirst _ inRest rfl
      obtain ⟨other, among, under⟩ := directoryFiles_under relPath rest later file inRest
      exact different other among (under_name (later.component other among) here.component under
        (entryFiles_under relPath entry here file inFirst))

end

theorem Directory.files_nodup (directory : Directory) : directory.files.Nodup :=
  directoryFiles_nodup [] directory.entries directory.proper

theorem Directory.files_proper (directory : Directory) : ∀ file ∈ directory.files, file.Proper :=
  directoryFiles_proper (by simp) directory.entries directory.proper

end SharedFileSystem
