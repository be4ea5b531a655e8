import SharedFileSystem.FileList

/-!
A registration restores the index: the payload that arrives, the files that the name server lists
from it, and when these are the files of the storage server.
-/

namespace SharedFileSystem

open ByteText

theorem StoredFile.pathParts_path {file : StoredFile} (proper : file.Proper)
    (short : file.path.length ≤ 255) : pathParts file.path = file.key := by
  rw [pathParts_short short]
  unfold StoredFile.path StoredFile.key
  by_cases root : file.folder.isEmpty = true
  · have plain : folderName file.name = [] := by
      rw [folderName, List.reverse_eq_nil_iff, List.dropWhile_eq_nil_iff]
      intro c member
      have different : c ≠ slash :=
        fun same => proper.component.noSlash (same ▸ List.mem_reverse.mp member)
      simpa using different
    have base := folderName_append_baseName file.name
    rw [plain, List.nil_append] at base
    simp only [root, ↓reduceIte, plain, List.isEmpty_nil, base]
  · obtain ⟨base, folder⟩ := baseName_slash proper.component.noSlash (slash :: file.folder)
    rw [List.cons_append] at base folder
    rw [if_neg root, if_neg root, base, folder]
    simp

theorem StoredFile.path_of_key {file : StoredFile} {path : Bytes} (short : path.length ≤ 255)
    (same : pathParts path = file.key) : path = file.path ∨ path = slash :: file.path := by
  have whole := folderName_append_baseName path
  rw [pathParts_short short, StoredFile.key, Prod.mk.injEq] at same
  obtain ⟨folder, base⟩ := same
  rw [StoredFile.path]
  by_cases root : file.folder.isEmpty = true
  · rw [if_pos root]
    rw [if_pos root] at folder
    by_cases none : (folderName path).isEmpty = true
    · rw [List.isEmpty_iff] at none
      rw [none, List.nil_append, base] at whole
      exact Or.inl whole.symm
    · rw [if_neg none] at folder
      rw [folder, base] at whole
      exact Or.inr whole.symm
  · rw [if_neg root]
    rw [if_neg root] at folder
    by_cases none : (folderName path).isEmpty = true
    · rw [if_pos none, rootFolder, List.cons.injEq] at folder
      simp at folder
    · rw [if_neg none] at folder
      rw [folder, base] at whole
      rw [← whole]
      simp

theorem StoredFile.key_inj {first second : StoredFile} (same : first.key = second.key) :
    first = second := by
  cases first with
  | mk folder name =>
  cases second with
  | mk otherFolder otherName =>
  rw [StoredFile.key, StoredFile.key, Prod.mk.injEq] at same
  obtain ⟨folders, rfl⟩ := same
  dsimp only at folders
  congr 1
  by_cases root : folder = []
  · by_cases otherRoot : otherFolder = []
    · rw [root, otherRoot]
    · simp [root, otherRoot, rootFolder] at folders
  · by_cases otherRoot : otherFolder = []
    · simp [root, otherRoot, rootFolder] at folders
    · simpa [root, otherRoot] using folders

def listedKey (file : ListedFile) : Bytes × Bytes := pathParts file.filename

theorem indexLookup_listed_mem (location : Location) (files : List ListedFile) (index : FileIndex)
    (distinct : (files.map listedKey).Nodup) {file : ListedFile} (listed : file ∈ files) :
    indexLookup (files.foldl (indexListedFile location) index) (listedKey file) =
      some ((((indexLookup index (listedKey file)).getD
        (newEntry (listedKey file) file.owner location)).relocate location).recount file) := by
  induction files generalizing index with
  | nil => simp at listed
  | cons other files ih =>
      rw [List.map_cons, List.nodup_cons] at distinct
      rw [List.foldl_cons]
      rcases List.mem_cons.mp listed with rfl | later
      · rw [(indexLookup_files location files _ _).1 distinct.1, indexLookup_listed,
          if_pos (by rfl), listedKey]
      · rw [ih _ distinct.2 later, indexLookup_listed, if_neg]
        intro same
        exact distinct.1 (List.mem_map.mpr ⟨file, later, same⟩)

theorem indexLookup_owner (location : Location) (files : List ListedFile) (index : FileIndex)
    {key : Bytes × Bytes} {entry : FileEntry}
    (found : indexLookup (files.foldl (indexListedFile location) index) key = some entry) :
    (∃ before, indexLookup index key = some before ∧ entry.owner = before.owner) ∨
      ∃ file ∈ files, key = listedKey file ∧ entry.owner = file.owner.take 63 := by
  induction files generalizing index with
  | nil => exact Or.inl ⟨entry, found, rfl⟩
  | cons file files ih =>
      rw [List.foldl_cons] at found
      rcases ih _ found with ⟨before, present, owner⟩ | ⟨other, member, same, owner⟩
      · rw [indexLookup_listed] at present
        by_cases here : key = pathParts file.filename
        · rw [if_pos here] at present
          have before_eq := Option.some.inj present
          cases earlier : indexLookup index key with
          | none =>
              rw [earlier] at before_eq
              refine Or.inr ⟨file, by simp, here, ?_⟩
              rw [owner, ← before_eq]
              rfl
          | some old =>
              rw [earlier] at before_eq
              refine Or.inl ⟨old, rfl, ?_⟩
              rw [owner, ← before_eq]
              rfl
        · rw [if_neg here] at present
          exact Or.inl ⟨before, present, owner⟩
      · exact Or.inr ⟨other, by simp [member], same, owner⟩

structure ListedFile.Received (sender payload : Bytes) (file : ListedFile) : Prop where
  short : file.filename.length ≤ 255
  bytes : ∀ c ∈ file.filename, c ∈ payload
  ownerShort : sender.length ≤ 63 → file.owner.length ≤ 63
  owner : file.owner = sender ∨ comma ∉ file.owner ∧ pipe ∉ file.owner

theorem mem_getD {fields : List Bytes} {index : Nat} {c : UInt8}
    (member : c ∈ fields.getD index []) : ∃ field ∈ fields, c ∈ field := by
  rw [List.getD_eq_getElem?_getD] at member
  cases found : fields[index]? with
  | none => simp [found] at member
  | some field =>
      rw [found, Option.getD_some] at member
      exact ⟨field, List.mem_of_getElem? found, member⟩

theorem listedFiles_received {sender payload : Bytes} {file : ListedFile}
    (listed : file ∈ listedFiles sender payload) : file.Received sender payload := by
  unfold listedFiles at listed
  split at listed
  · simp at listed
  · rename_i found hit
    obtain ⟨text, token, rfl⟩ := List.mem_map.mp listed
    obtain ⟨_, inText⟩ := tokens_mem (· = comma) (found.drop 6) text token
    have field {index : Nat} {c : UInt8} (member : c ∈ (tokens (· = pipe) text).getD index []) :
        c ≠ pipe ∧ c ≠ comma ∧ c ∈ payload := by
      obtain ⟨run, isToken, inside⟩ := mem_getD member
      obtain ⟨notPipe, inEntry⟩ := (tokens_mem (· = pipe) text run isToken).2 c inside
      obtain ⟨notComma, inList⟩ := inText c inEntry
      exact ⟨by simpa using notPipe, by simpa using notComma,
        (strstr_suffix hit).subset (List.mem_of_mem_drop inList)⟩
    refine ⟨?_, ?_, ?_, ?_⟩
    · rw [readListedFile, List.length_take]
      omega
    · intro c member
      exact (field (List.mem_of_mem_take member)).2.2
    · intro senderShort
      rw [readListedFile]
      dsimp only
      split
      · exact senderShort
      · rw [List.length_take]
        omega
    · rw [readListedFile]
      dsimp only
      split
      · exact Or.inl rfl
      · refine Or.inr ⟨?_, ?_⟩
        · exact fun member => (field (List.mem_of_mem_take member)).2.1 rfl
        · exact fun member => (field (List.mem_of_mem_take member)).1 rfl

theorem listedFiles_length (sender payload : Bytes) :
    2 * (listedFiles sender payload).length ≤ payload.length + 1 := by
  unfold listedFiles
  split
  · simp
  · rename_i found hit
    have count := tokens_length (· = comma) (found.drop 6)
    have size := (strstr_suffix hit).length_le
    rw [List.length_drop] at count
    rw [List.length_map]
    omega

structure ServerConfig.Proper (config : ServerConfig) : Prop where
  hostShort : config.host.length ≤ 63
  hostComma : comma ∉ config.host
  hostPort : strstr (lit "client_port=") config.host = none
  listing : strstr (lit "files=") config.header = none
  oneLine : newline ∉ config.header
  noNul : 0 ∉ config.header
  username : WireField 64 config.username
  usernameComma : comma ∉ config.username
  port : IsInt config.clientPort

def ServerConfig.received (config : ServerConfig) (fileList : Bytes) : Bytes :=
  ((config.payload fileList).take 1791).takeWhile (· ≠ newline)

variable {config : ServerConfig}

theorem ServerConfig.Proper.payload_noNul (proper : config.Proper) {fileList : Bytes}
    (free : 0 ∉ fileList) : 0 ∉ config.payload fileList := by
  rw [ServerConfig.payload, List.mem_append, List.mem_cons, List.mem_append, not_or, not_or, not_or]
  exact ⟨proper.noNul, by decide, by decide, free⟩

theorem ServerConfig.Proper.startServer (proper : config.Proper) (server : NameServer)
    (storage : List Bytes) (disk : Disk) (entries : List DirEntry)
    (free : 0 ∉ (buildFileListString ((scanDirectory entries).map
      (describeFile storage disk)) 4096).getD []) :
    server.startServer config storage disk entries =
      server.register config.username (config.received ((buildFileListString
        ((scanDirectory entries).map (describeFile storage disk)) 4096).getD [])) := by
  have message : config.registration storage disk entries =
      { type := lit "SS_REGISTER", id := lit "1", username := config.username, role := lit "SS"
        payload := (config.payload ((buildFileListString ((scanDirectory entries).map
          (describeFile storage disk)) 4096).getD [])).take 1791 } := by
    have bound := proper.username.short
    rw [ServerConfig.registration, List.take_take, List.take_of_length_le (by omega)]
    rfl
  generalize (buildFileListString ((scanDirectory entries).map (describeFile storage disk))
    4096).getD [] = fileList at free message ⊢
  have size : ((config.payload fileList).take 1791).length ≤ 1791 := by
    rw [List.length_take]
    omega
  have cutSize : (config.received fileList).length ≤ 1791 :=
    Nat.le_trans (List.takeWhile_prefix _).length_le size
  have formed : Message.WellFormed { type := lit "SS_REGISTER", id := lit "1"
                                     username := config.username, role := lit "SS"
                                     payload := config.received fileList } := by
    have typeField : WireField 32 (lit "SS_REGISTER") := by decide
    have idField : WireField 64 (lit "1") := by decide
    have roleField : WireField 16 (lit "SS") := by decide
    refine ⟨typeField, idField, proper.username, roleField, ?_, ?_, ?_⟩
    · exact Nat.lt_of_le_of_lt cutSize (by decide)
    · intro member
      simpa using List.mem_takeWhile_imp member
    · intro member
      have inPayload := List.mem_of_mem_take ((List.takeWhile_prefix _).subset member)
      exact proper.payload_noNul free inPayload
  have nameSize := proper.username.short
  have short : (config.registration storage disk entries).line.length < maxLine := by
    rw [message, Message.line_body]
    simp only [List.length_append, List.length_cons, List.length_nil, maxLine]
    have typeSize : (lit "SS_REGISTER").length = 11 := by decide
    have idSize : (lit "1").length = 1 := by decide
    have roleSize : (lit "SS").length = 2 := by decide
    omega
  rw [NameServer.startServer]
  rw [message] at short ⊢
  rw [recvLine_protoFormatLine_cut formed short]
  rfl

theorem listedFiles_header (proper : config.Proper) (sender kept : Bytes) :
    listedFiles sender (config.header ++ comma :: (lit "files=" ++ kept)) =
      (tokens (· = comma) kept).map (readListedFile sender) := by
  have key : lit "files=" ≠ [] := by decide
  have found : strstr (lit "files=") (config.header ++ comma :: (lit "files=" ++ kept)) =
      some (lit "files=" ++ kept) := by
    rw [strstr_separated key (by decide), proper.listing, strstr_here key]
    rfl
  rw [listedFiles, found]
  rfl

theorem listedFiles_cut (proper : config.Proper) (sender fileList : Bytes) {count : Nat}
    (short : count < config.header.length + 7) :
    listedFiles sender ((config.payload fileList).take count) = [] := by
  have absent : strstr (lit "files=") ((config.payload fileList).take count) = none := by
    rw [ServerConfig.payload, List.take_append]
    cases more : count - config.header.length with
    | zero =>
        rw [List.take_zero, List.append_nil]
        exact strstr_none_take proper.listing count
    | succ more =>
        rw [List.take_of_length_le (by omega), List.take_succ_cons,
          strstr_separated (by decide) (by decide), proper.listing]
        refine strstr_none_short ?_
        have key : (lit "files=").length = 6 := by decide
        rw [List.length_take, key]
        omega
  rw [listedFiles, absent]

theorem registeredLocation_header (proper : config.Proper) (rest : Bytes) :
    registeredLocation config.username (config.header ++ comma :: rest) =
      ⟨config.host, config.clientPort, config.username⟩ := by
  have shape : config.header ++ comma :: rest = lit "host=" ++ (config.host ++ comma ::
      (lit "client_port=" ++ (showInt config.clientPort ++ comma ::
        (lit "storage=" ++ config.storageDir ++ comma :: rest)))) := by
    simp [ServerConfig.header]
  have host : (lit "host=" ++ (config.host ++ comma :: (lit "client_port=" ++
      (showInt config.clientPort ++ comma :: (lit "storage=" ++ config.storageDir ++
        comma :: rest))))).drop 5 = config.host ++ comma :: (lit "client_port=" ++
      (showInt config.clientPort ++ comma :: (lit "storage=" ++ config.storageDir ++
        comma :: rest))) := rfl
  have port : strstr (lit "client_port=") (config.header ++ comma :: rest) =
      some (lit "client_port=" ++ (showInt config.clientPort ++ comma ::
        (lit "storage=" ++ config.storageDir ++ comma :: rest))) := by
    have key : lit "client_port=" ≠ [] := by decide
    rw [shape, strstr_skip (by decide), strstr_separated key (by decide), proper.hostPort,
      strstr_here key]
    rfl
  have number : portOf (config.header ++ comma :: rest) = config.clientPort := by
    rw [portOf, port]
    exact proper.port.atoiInt_showInt _ (stopsDigits_cons (by decide) _)
  have bound := proper.hostShort
  rw [registeredLocation, number]
  rw [shape, strstr_here (by decide)]
  dsimp only
  rw [host, if_pos (by simp), takeWhile_upTo proper.hostComma, boundedField,
    if_pos (by omega)]

theorem entry_free {bad : UInt8} (special : bad = newline ∨ bad = 0 ∨ bad = comma)
    {file : ListedFile} (name : bad ∉ file.filename) (owner : bad ∉ file.owner) :
    bad ∉ file.entry := by
  have number (value : Int) : bad ∉ showInt value := by
    obtain ⟨noLine, noNul, noComma, _⟩ := showInt_plain value
    rcases special with rfl | rfl | rfl
    · exact noLine
    · exact noNul
    · exact noComma
  have different : bad ≠ pipe := by
    rcases special with rfl | rfl | rfl
    · decide
    · decide
    · decide
  rw [ListedFile.entry]
  simp only [List.mem_append, List.mem_cons, not_or]
  exact ⟨name, different, owner, different, number file.sizeBytes, different, number _, different,
    number _⟩

theorem joinedEntries_free {bad : UInt8} (special : bad = newline ∨ bad = 0)
    {files : List ListedFile}
    (free : ∀ file ∈ files, bad ∉ file.filename ∧ bad ∉ file.owner) :
    bad ∉ joinedEntries files := by
  have different : bad ≠ comma := by
    rcases special with rfl | rfl
    · decide
    · decide
  apply notMem_intercalate different
  intro entry member
  obtain ⟨file, listed, rfl⟩ := List.mem_map.mp member
  have kind : bad = newline ∨ bad = 0 ∨ bad = comma := special.imp_right Or.inl
  exact entry_free kind (free file listed).1 (free file listed).2

theorem scannedName_bytes {file : StoredFile} {filename : Bytes}
    (scanned : scannedName file.folder file.name = some filename) :
    ∀ c ∈ filename, c ∈ file.path := by
  unfold scannedName at scanned
  unfold StoredFile.path
  split at scanned
  · rename_i root
    obtain rfl := Option.some.inj scanned
    rw [if_pos root]
    exact fun c member => List.mem_of_mem_take member
  · rename_i folder
    dsimp only at scanned
    split at scanned
    · simp at scanned
    · obtain rfl := Option.some.inj scanned
      rw [if_neg folder]
      exact fun c member => member

theorem scanDirectory_mem {entries : List DirEntry} {filename : Bytes}
    (member : filename ∈ scanDirectory entries) :
    ∃ file ∈ directoryFiles [] entries, ∀ c ∈ filename, c ∈ file.path := by
  rw [scanDirectory, scanDirectoryRecursive_eq, List.nil_append] at member
  obtain ⟨file, listed, scanned⟩ := List.mem_filterMap.mp (List.mem_of_mem_take member)
  exact ⟨file, listed, scannedName_bytes scanned⟩

theorem StoredFile.Proper.path_noNul {file : StoredFile} (proper : file.Proper) : 0 ∉ file.path := by
  unfold StoredFile.path
  split
  · exact proper.component.noNul
  · simp only [List.mem_cons, List.mem_append, not_or]
    exact ⟨by decide, proper.folderNul, by decide, proper.component.noNul⟩

theorem Directory.fileList_noNul (directory : Directory) (storage : List Bytes) (disk : Disk) :
    0 ∉ (buildFileListString ((scanDirectory directory.entries).map
      (describeFile storage disk)) 4096).getD [] := by
  rcases buildFileListString_eq ((scanDirectory directory.entries).map
    (describeFile storage disk)) 4096 with joined | ⟨_, _, empty⟩
  · rw [joined]
    apply joinedEntries_free (Or.inr rfl)
    intro listed member
    obtain ⟨filename, scanned, rfl⟩ := List.mem_map.mp member
    obtain ⟨file, stored, bytes⟩ := scanDirectory_mem scanned
    rw [describeFile_filename]
    exact ⟨fun inside => (directory.files_proper file stored).path_noNul (bytes 0 inside),
      (describeFile_owner storage disk filename).2.1⟩
  · rw [empty]
    simp

structure ListedFile.OneEntry (file : ListedFile) : Prop where
  nonempty : file.entry ≠ []
  noComma : comma ∉ file.entry

def isComma (c : UInt8) : Bool := c = comma

theorem isComma_false {run : Bytes} (free : comma ∉ run) : ∀ c ∈ run, isComma c = false :=
  eq_of_free free

theorem tokens_entries {files : List ListedFile} (proper : ∀ file ∈ files, file.OneEntry) :
    tokens (· = comma) (joinedEntries files) = files.map ListedFile.entry := by
  apply tokens_intercalate isComma comma (by decide)
  intro entry member
  obtain ⟨file, listed, rfl⟩ := List.mem_map.mp member
  exact ⟨(proper file listed).nonempty, isComma_false (proper file listed).noComma⟩

theorem joinedEntries_last {front : List ListedFile} (last : ListedFile)
    (proper : ∀ file ∈ front, file.OneEntry) :
    ∃ before, joinedEntries (front ++ [last]) = before ++ last.entry ∧
      tokens (· = comma) before = front.map ListedFile.entry ∧
      ∀ more, more ≠ [] → comma ∉ more →
        tokens (· = comma) (before ++ more) = front.map ListedFile.entry ++ [more] := by
  by_cases alone : front = []
  · subst alone
    refine ⟨[], by simp [joinedEntries], rfl, ?_⟩
    intro more nonempty free
    rw [List.nil_append]
    exact tokens_last isComma more nonempty (isComma_false free)
  · refine ⟨joinedEntries front ++ [comma], ?_, ?_, ?_⟩
    · rw [joinedEntries, List.map_append, List.map_singleton,
        intercalate_concat comma _ (by simpa using alone), joinedEntries]
      simp
    · have split := @tokens_append _ isComma (joinedEntries front) [] comma (by decide)
      have entries : tokens isComma (joinedEntries front) = _ := tokens_entries proper
      rw [entries] at split
      exact split.trans (List.append_nil _)
    · intro more nonempty free
      have split := @tokens_append _ isComma (joinedEntries front) more comma (by decide)
      have entries : tokens isComma (joinedEntries front) = _ := tokens_entries proper
      rw [entries, tokens_last isComma more nonempty (isComma_false free)] at split
      rw [List.append_assoc, List.singleton_append]
      exact split

def StoredFile.described (storage : List Bytes) (disk : Disk) (file : StoredFile) : ListedFile :=
  describeFile storage disk file.path

def expectedEntry (config : ServerConfig) (storage : List Bytes) (disk : Disk)
    (file : StoredFile) : FileEntry :=
  let listed := file.described storage disk
  { filename := file.key.2
    folderPath := file.key.1
    owner := if listed.owner.isEmpty then config.username else listed.owner
    ssHost := config.host
    ssClientPort := config.clientPort
    ssUsername := config.username
    sizeBytes := listed.sizeBytes
    wordCount := listed.wordCount
    charCount := listed.charCount }

structure Restored (config : ServerConfig) (storage : List Bytes) (disk : Disk)
    (files : List StoredFile) (before after : FileIndex) : Prop where
  listed : ∀ file ∈ files, indexLookup after file.key = some (expectedEntry config storage disk file)
  others : ∀ key, key ∉ files.map StoredFile.key → indexLookup after key = indexLookup before key

/-- The condition on the files: their paths and owners can be listed, and of the payload nothing is
cut but fields of the last file that the name server completes. -/
structure Restorable (config : ServerConfig) (storage : List Bytes) (disk : Disk)
    (files : List StoredFile) : Prop where
  paths : ∀ file ∈ files, file.path.length ≤ 255 ∧ newline ∉ file.path
  owners : ∀ file ∈ files,
    comma ∉ (file.described storage disk).owner ∧ pipe ∉ (file.described storage disk).owner
  sizes : ∀ file ∈ files, (file.described storage disk).sizeBytes < 2 ^ 64
  entries : ∀ front last, files = front ++ [last] →
    (∀ file ∈ front, (file.described storage disk).Named config.username) ∧
      Legible config.username (last.described storage disk)
        ((config.payload (joinedEntries (files.map (StoredFile.described storage disk)))).drop 1791)

section Restoring

variable {storage : List Bytes} {disk : Disk}

theorem described_plain {file : StoredFile} (proper : file.Proper) (noPipe : pipe ∉ file.path)
    (short : file.path.length ≤ 255) (owner : pipe ∉ (file.described storage disk).owner) :
    (file.described storage disk).Plain := by
  have name : (file.described storage disk).filename = file.path := describeFile_filename _ _ _
  refine ⟨?_, ?_, ?_, (describeFile_owner storage disk file.path).2.2, owner⟩
  · rw [name]
    unfold StoredFile.path
    split
    · exact proper.component.nonempty
    · simp
  · rw [name]
    exact short
  · rw [name]
    exact noPipe

theorem described_oneEntry {file : StoredFile} (noComma : comma ∉ file.path)
    (owner : comma ∉ (file.described storage disk).owner) :
    (file.described storage disk).OneEntry := by
  refine ⟨?_, ?_⟩
  · simp [ListedFile.entry]
  · apply entry_free (Or.inr (Or.inr rfl))
    · rw [StoredFile.described, describeFile_filename]
      exact noComma
    · exact owner

theorem read_filename {sender : Bytes} {file : ListedFile} {kept lost : Bytes}
    (plain : file.Plain) (nonempty : kept ≠ []) (cut : kept ++ lost = file.entry) :
    (readListedFile sender kept).filename <+: file.filename := by
  rcases cut_field cut with ⟨more, rfl, _⟩ | ⟨missing, whole, _⟩
  · rw [readListedFile, tokens_field plain.named plain.noPipe, List.getD_cons_zero]
    exact List.take_prefix 255 file.filename
  · have free := cut_free whole.symm plain.noPipe
    rw [readListedFile, (tokens_missing free).1, whole]
    exact (List.take_prefix 255 kept).trans (List.prefix_append kept missing)

theorem read_filename_entry {sender : Bytes} {file : ListedFile} (plain : file.Plain) :
    (readListedFile sender file.entry).filename = file.filename := by
  rw [readListedFile, ListedFile.entry, tokens_field plain.named plain.noPipe, List.getD_cons_zero]
  exact List.take_of_length_le plain.short

theorem restored_of_entry {file : StoredFile} {read : ListedFile}
    (name : read.filename = file.path) (ownerShort : read.owner.length ≤ 63)
    (same : (newEntry file.key read.owner ⟨config.host, config.clientPort, config.username⟩).recount
      read = expectedEntry config storage disk file) :
    read = (file.described storage disk).restored config.username := by
  have owner : read.owner.take 63 = _ := congrArg FileEntry.owner same
  have size : read.sizeBytes = _ := congrArg FileEntry.sizeBytes same
  have words : read.wordCount = _ := congrArg FileEntry.wordCount same
  have chars : read.charCount = _ := congrArg FileEntry.charCount same
  rw [List.take_of_length_le ownerShort] at owner
  cases read
  simp only [ListedFile.restored, ListedFile.mk.injEq]
  refine ⟨?_, owner, size, words, chars⟩
  exact name.trans (describeFile_filename _ _ _).symm

theorem entry_of_restored (proper : config.Proper) (file : StoredFile) :
    (newEntry file.key ((file.described storage disk).restored config.username).owner
      ⟨config.host, config.clientPort, config.username⟩).recount
        ((file.described storage disk).restored config.username) =
      expectedEntry config storage disk file := by
  have ownerShort : ((file.described storage disk).restored config.username).owner.length ≤ 63 := by
    have nameShort := proper.username.short
    rw [ListedFile.restored]
    dsimp only
    split
    · omega
    · exact (describeFile_owner storage disk file.path).2.2
  have nameShort := proper.username.short
  rw [newEntry, FileEntry.relocate, FileEntry.recount, expectedEntry]
  simp only [List.take_of_length_le ownerShort, List.take_of_length_le proper.hostShort,
    List.take_of_length_le (Nat.le_of_lt_succ nameShort)]
  rfl

theorem legible_length {sender lost : Bytes} {file : ListedFile} (legible : Legible sender file lost) :
    lost.length ≤ file.owner.length + 7 ∧
      file.filename.length + file.owner.length + 7 ≤ file.entry.length := by
  have size := List.length_pos_iff.mpr (showNat_ne_nil file.sizeBytes)
  have words := List.length_pos_iff.mpr (showInt_ne_nil file.wordCount)
  have chars := List.length_pos_iff.mpr (showInt_ne_nil file.charCount)
  refine ⟨?_, ?_⟩
  · have texts : (lit "0").length = 1 ∧ (lit "|0").length = 2 ∧ (lit "0|0").length = 3 ∧
        (lit "|0|0").length = 4 ∧ (lit "0|0|0").length = 5 ∧ (lit "|0|0|0").length = 6 := by decide
    cases legible with
    | whole _ => simp
    | chars _ _ lost_eq => rcases lost_eq with rfl | rfl <;> omega
    | words _ _ _ lost_eq => rcases lost_eq with rfl | rfl <;> omega
    | size _ lost_eq => rcases lost_eq with rfl | rfl <;> omega
    | owner _ _ lost_eq =>
        rcases lost_eq with rfl | rfl
        · rw [List.length_append]
          omega
        · rw [List.length_cons, List.length_append]
          omega
  · rw [ListedFile.entry]
    simp only [List.length_append, List.length_cons]
    omega

theorem received_oneLine (proper : config.Proper) {fileList : Bytes} (oneLine : newline ∉ fileList) :
    config.received fileList = (config.payload fileList).take 1791 := by
  rw [ServerConfig.received, List.takeWhile_eq_self_iff]
  intro c member
  have different : c ≠ newline := by
    rintro rfl
    have inside := List.mem_of_mem_take member
    rw [ServerConfig.payload, List.mem_append, List.mem_cons, List.mem_append] at inside
    rcases inside with header | separator | key | list
    · exact proper.oneLine header
    · exact absurd separator (by decide)
    · exact absurd key (by decide)
    · exact oneLine list
  simpa using different

theorem listedFiles_none (proper : config.Proper) :
    listedFiles config.username (config.received []) = [] := by
  rw [received_oneLine proper (by simp)]
  by_cases room : 1791 < config.header.length + 7
  · exact listedFiles_cut proper _ _ room
  · have whole : (config.payload []).take 1791 = config.payload [] := by
      have key : (lit "files=").length = 6 := by decide
      apply List.take_of_length_le
      rw [ServerConfig.payload, List.append_nil, List.length_append, List.length_cons, key]
      omega
    rw [whole, ServerConfig.payload, listedFiles_header proper]
    rfl

theorem startServer_index (proper : config.Proper) (directory : Directory) (server : NameServer) :
    (server.startServer config storage disk directory.entries).index =
      (listedFiles config.username (config.received ((buildFileListString
        ((scanDirectory directory.entries).map (describeFile storage disk)) 4096).getD []))).foldl
        (indexListedFile (registeredLocation config.username (config.received ((buildFileListString
          ((scanDirectory directory.entries).map (describeFile storage disk)) 4096).getD []))))
        server.index := by
  rw [proper.startServer server storage disk directory.entries
    (directory.fileList_noNul storage disk), NameServer.register_index]

theorem scan_described (directory : Directory)
    (few : directory.files.length ≤ maxFilesPerSs)
    (short : ∀ file ∈ directory.files, file.path.length ≤ 255) :
    (scanDirectory directory.entries).map (describeFile storage disk) =
      directory.files.map (StoredFile.described storage disk) := by
  rw [scanDirectory_all few short, List.map_map]
  rfl

theorem described_oneLine {files : List StoredFile} (names : ∀ file ∈ files, newline ∉ file.path) :
    newline ∉ joinedEntries (files.map (StoredFile.described storage disk)) := by
  apply joinedEntries_free (Or.inl rfl)
  intro listed member
  obtain ⟨file, stored, rfl⟩ := List.mem_map.mp member
  rw [StoredFile.described, describeFile_filename]
  exact ⟨names file stored, (describeFile_owner storage disk file.path).1⟩

theorem registered_header (proper : config.Proper) (kept : Bytes) :
    registeredLocation config.username (config.header ++ comma :: (lit "files=" ++ kept)) =
      ⟨config.host, config.clientPort, config.username⟩ :=
  registeredLocation_header proper _

theorem received_kept {front : List StoredFile} {last : StoredFile} {before kept lost : Bytes}
    (split : joinedEntries ((front ++ [last]).map (StoredFile.described storage disk)) =
      before ++ (last.described storage disk).entry)
    (cut : kept ++ lost = (last.described storage disk).entry)
    (lost_eq : lost = (config.payload (joinedEntries
      ((front ++ [last]).map (StoredFile.described storage disk)))).drop 1791) :
    (config.payload (joinedEntries ((front ++ [last]).map
      (StoredFile.described storage disk)))).take 1791 =
      config.header ++ comma :: (lit "files=" ++ (before ++ kept)) := by
  have whole := List.take_append_drop 1791 (config.payload (joinedEntries
    ((front ++ [last]).map (StoredFile.described storage disk))))
  rw [← lost_eq] at whole
  have shape : config.payload (joinedEntries ((front ++ [last]).map
      (StoredFile.described storage disk))) =
      (config.header ++ comma :: (lit "files=" ++ (before ++ kept))) ++ lost := by
    rw [ServerConfig.payload, split, ← cut]
    simp
  exact List.append_cancel_right (whole.trans shape)

def ServerConfig.fileList (storage : List Bytes) (disk : Disk) (directory : Directory) : Bytes :=
  (buildFileListString ((scanDirectory directory.entries).map (describeFile storage disk)) 4096).getD []

def restoredFile (config : ServerConfig) (storage : List Bytes) (disk : Disk) (file : StoredFile) :
    ListedFile :=
  (file.described storage disk).restored config.username

structure PlainPath (file : StoredFile) : Prop where
  noComma : comma ∉ file.path
  noPipe : pipe ∉ file.path

theorem listed_of_restorable (proper : config.Proper) (directory : Directory)
    (plain : ∀ file ∈ directory.files, PlainPath file)
    (restorable : Restorable config storage disk directory.files) (some : directory.files ≠ []) :
    listedFiles config.username (config.received (ServerConfig.fileList storage disk directory)) =
        directory.files.map (restoredFile config storage disk) ∧
      registeredLocation config.username
        (config.received (ServerConfig.fileList storage disk directory)) =
          ⟨config.host, config.clientPort, config.username⟩ := by
  obtain ⟨front, last, files⟩ := (List.eq_nil_or_concat' directory.files).resolve_left some
  have member : ∀ file ∈ front ++ [last], file ∈ directory.files := by
    intro file inside
    rw [files]
    exact inside
  have inFront : ∀ file ∈ front, file ∈ directory.files :=
    fun file inside => member file (List.mem_append_left _ inside)
  have isLast : last ∈ directory.files := member last (by simp)
  have plainFile : ∀ file ∈ directory.files, (file.described storage disk).Plain := by
    intro file stored
    exact described_plain (directory.files_proper file stored) (plain file stored).noPipe
      (restorable.paths file stored).1 (restorable.owners file stored).2
  have oneEntry : ∀ file ∈ directory.files, (file.described storage disk).OneEntry := by
    intro file stored
    exact described_oneEntry (plain file stored).noComma (restorable.owners file stored).1
  obtain ⟨named, legible⟩ := restorable.entries front last files
  have entriesFront : ∀ file ∈ front.map (StoredFile.described storage disk), file.OneEntry := by
    intro listed mapped
    obtain ⟨file, stored, rfl⟩ := List.mem_map.mp mapped
    exact oneEntry file (inFront file stored)
  obtain ⟨before, split, tokensBefore, tokensMore⟩ :=
    joinedEntries_last (last.described storage disk) entriesFront
  rw [← List.map_singleton, ← List.map_append] at split
  rw [files] at legible
  generalize lost_eq : (config.payload (joinedEntries ((front ++ [last]).map
    (StoredFile.described storage disk)))).drop 1791 = lost at legible
  obtain ⟨lostShort, entryLong⟩ := legible_length legible
  have ownerShort := (plainFile last isLast).ownerShort
  have nameLong := List.length_pos_iff.mpr (plainFile last isLast).named
  have key : (lit "files=").length = 6 := by decide
  have payloadSize : (config.payload (joinedEntries ((front ++ [last]).map
      (StoredFile.described storage disk)))).length =
      config.header.length + 7 + before.length + (last.described storage disk).entry.length := by
    rw [ServerConfig.payload, split]
    simp only [List.length_append, List.length_cons, key]
    omega
  have lostSize := congrArg List.length lost_eq
  rw [List.length_drop, payloadSize] at lostSize
  -- the end that is lost lies in the last entry
  obtain ⟨kept, cut⟩ : lost <:+ (last.described storage disk).entry := by
    have drops := List.drop_suffix 1791 (config.payload (joinedEntries
      ((front ++ [last]).map (StoredFile.described storage disk))))
    rw [lost_eq, ServerConfig.payload, split] at drops
    refine List.suffix_of_suffix_length_le drops ?_ (by omega)
    exact ⟨config.header ++ comma :: (lit "files=" ++ before), by simp⟩
  have cutSize := congrArg List.length cut
  rw [List.length_append] at cutSize
  have keptSome : kept ≠ [] := List.length_pos_iff.mp (by omega)
  have keptFree : comma ∉ kept := by
    have free := (oneEntry last isLast).noComma
    rw [← cut, List.mem_append, not_or] at free
    exact free.1
  have few : directory.files.length ≤ maxFilesPerSs := by
    have count := tokens_length (· = comma) before
    rw [tokensBefore, List.length_map, List.length_map] at count
    rw [files, List.length_append, List.length_singleton, maxFilesPerSs]
    omega
  have scanned := @scan_described storage disk directory few
    (fun file stored => (restorable.paths file stored).1)
  have list : ServerConfig.fileList storage disk directory =
      joinedEntries ((front ++ [last]).map (StoredFile.described storage disk)) := by
    rw [ServerConfig.fileList, scanned, files]
    rcases buildFileListString_eq ((front ++ [last]).map (StoredFile.described storage disk)) 4096
      with joined | ⟨_, full, _⟩
    · exact joined
    · rw [split, List.length_append] at full
      omega
  have oneLine : newline ∉ joinedEntries ((front ++ [last]).map
      (StoredFile.described storage disk)) := by
    apply described_oneLine
    exact fun file inside => (restorable.paths file (member file inside)).2
  rw [list, received_oneLine proper oneLine, received_kept split cut lost_eq.symm]
  refine ⟨?_, registered_header proper _⟩
  rw [listedFiles_header proper, tokensMore kept keptSome keptFree, files, List.map_append,
    List.map_append, List.map_map, List.map_map, List.map_singleton, List.map_singleton]
  have readFront : front.map ((readListedFile config.username ∘ ListedFile.entry) ∘
      StoredFile.described storage disk) = front.map (restoredFile config storage disk) := by
    apply List.map_congr_left
    intro file inside
    have stored := inFront file inside
    exact read_of_legible (plainFile file stored) (restorable.sizes file stored)
      (Legible.whole (named file inside)) (List.append_nil _)
  have readLast : readListedFile config.username kept = restoredFile config storage disk last :=
    read_of_legible (plainFile last isLast) (restorable.sizes last isLast) legible cut
  rw [readFront, readLast]

theorem listedKey_restored {directory : Directory} {file : StoredFile}
    (stored : file ∈ directory.files) (short : file.path.length ≤ 255) :
    listedKey (restoredFile config storage disk file) = file.key := by
  have name : (restoredFile config storage disk file).filename = file.path :=
    describeFile_filename _ _ _
  rw [listedKey, name]
  exact StoredFile.pathParts_path (directory.files_proper file stored) short

def KeepsOwner (config : ServerConfig) (storage : List Bytes) (disk : Disk) (before : FileIndex)
    (file : StoredFile) : Prop :=
  ∀ entry, indexLookup before file.key = some entry →
    entry.owner = (expectedEntry config storage disk file).owner

theorem entry_expected_iff (proper : config.Proper) (before : FileIndex) (file : StoredFile) :
    (((indexLookup before file.key).getD (newEntry file.key
        (restoredFile config storage disk file).owner ⟨config.host, config.clientPort, config.username⟩)).relocate
          ⟨config.host, config.clientPort, config.username⟩).recount (restoredFile config storage disk file) =
        expectedEntry config storage disk file ↔ KeepsOwner config storage disk before file := by
  have fresh := @entry_of_restored config storage disk proper file
  rw [← newEntry_relocate] at fresh
  cases present : indexLookup before file.key with
  | none =>
      rw [Option.getD_none]
      refine iff_of_true fresh fun entry found => ?_
      rw [present] at found
      cases found
  | some old =>
      rw [Option.getD_some]
      constructor
      · intro same entry found
        obtain rfl := Option.some.inj (present.symm.trans found)
        rw [← same]
        rfl
      · intro kept
        have owner := kept old present
        have key : old.key = file.key := by simpa using List.find?_some present
        rw [FileEntry.key, Prod.mk.injEq] at key
        rw [← fresh] at owner ⊢
        cases old
        simp only [FileEntry.relocate, FileEntry.recount, newEntry, FileEntry.mk.injEq] at key owner ⊢
        exact ⟨key.2, key.1, owner, trivial, trivial, trivial, rfl, rfl, rfl⟩

theorem restored_of_restorable (proper : config.Proper) (directory : Directory)
    (plain : ∀ file ∈ directory.files, PlainPath file) (server : NameServer)
    (restorable : Restorable config storage disk directory.files) :
    Restored config storage disk directory.files server.index
        (server.startServer config storage disk directory.entries).index ↔
      ∀ file ∈ directory.files, KeepsOwner config storage disk server.index file := by
  rw [startServer_index proper]
  rw [← ServerConfig.fileList]
  by_cases blank : directory.files = []
  · have list : ServerConfig.fileList storage disk directory = [] := by
      rw [ServerConfig.fileList, scan_described directory (by simp [blank]) (by simp [blank]), blank]
      rfl
    rw [list, listedFiles_none proper, blank]
    exact iff_of_true ⟨by simp, fun _ _ => rfl⟩ (by simp)
  · obtain ⟨listed, location⟩ := listed_of_restorable proper directory plain restorable blank
    rw [listed, location]
    have keys : (directory.files.map (restoredFile config storage disk)).map listedKey =
        directory.files.map StoredFile.key := by
      rw [List.map_map]
      apply List.map_congr_left
      intro file stored
      exact listedKey_restored stored (restorable.paths file stored).1
    have distinct : ((directory.files.map (restoredFile config storage disk)).map listedKey).Nodup := by
      rw [keys]
      exact directory.files_nodup.map (fun _ _ => StoredFile.key_inj)
    have found : ∀ file ∈ directory.files,
        indexLookup ((directory.files.map (restoredFile config storage disk)).foldl
          (indexListedFile ⟨config.host, config.clientPort, config.username⟩) server.index) file.key =
            some (expectedEntry config storage disk file) ↔
          KeepsOwner config storage disk server.index file := by
      intro file stored
      have key := @listedKey_restored config storage disk directory file stored
        (restorable.paths file stored).1
      rw [← key, indexLookup_listed_mem ⟨config.host, config.clientPort, config.username⟩ _ server.index
        distinct (List.mem_map_of_mem stored), key, Option.some.injEq]
      exact entry_expected_iff proper server.index file
    constructor
    · exact fun restored file stored => (found file stored).mp (restored.listed file stored)
    · intro kept
      refine ⟨fun file stored => (found file stored).mpr (kept file stored), ?_⟩
      intro key other
      rw [← keys] at other
      exact (indexLookup_files _ _ server.index key).1 other

theorem key_listed {files : List StoredFile} {before : FileIndex} {location : Location}
    {listed : List ListedFile}
    (absent : ∀ file ∈ files, indexLookup before file.key = none)
    (restored : Restored config storage disk files before
      (listed.foldl (indexListedFile location) before))
    {file : StoredFile} (stored : file ∈ files) :
    ∃ read ∈ listed, listedKey read = file.key ∧
      read.owner.take 63 = (restoredFile config storage disk file).owner := by
  have found := restored.listed file stored
  rcases indexLookup_owner location listed before found with ⟨old, present, _⟩ |
    ⟨read, member, key, owner⟩
  · rw [absent file stored] at present
    cases present
  · exact ⟨read, member, key.symm, owner.symm⟩

theorem path_received {sender payload : Bytes} {file : StoredFile} {read : ListedFile}
    (member : read ∈ listedFiles sender payload) (key : listedKey read = file.key)
    (oneLine : newline ∉ payload) :
    file.path.length ≤ 255 ∧ newline ∉ file.path := by
  have received := listedFiles_received member
  have short := received.short
  have free : newline ∉ read.filename := fun inside => oneLine (received.bytes _ inside)
  rcases StoredFile.path_of_key short key with same | same
  · rw [← same]
    exact ⟨short, free⟩
  · rw [same] at short free
    rw [List.length_cons] at short
    rw [List.mem_cons, not_or] at free
    exact ⟨by omega, free.2⟩

theorem owner_received (proper : config.Proper) {payload : Bytes} {file : StoredFile}
    {read : ListedFile} (member : read ∈ listedFiles config.username payload)
    (owner : read.owner.take 63 = (restoredFile config storage disk file).owner) :
    comma ∉ (file.described storage disk).owner ∧ pipe ∉ (file.described storage disk).owner := by
  have received := listedFiles_received member
  have nameShort := proper.username.short
  rw [List.take_of_length_le (received.ownerShort (by omega)), restoredFile,
    ListedFile.restored] at owner
  have free : comma ∉ read.owner ∧ pipe ∉ read.owner := by
    rcases received.owner with same | plain
    · rw [same]
      exact ⟨proper.usernameComma, proper.username.noPipe⟩
    · exact plain
  rw [owner] at free
  by_cases owned : (file.described storage disk).owner = []
  · rw [owned]
    simp
  · rw [if_neg (by simpa using owned)] at free
    exact free

theorem legible_nil {sender : Bytes} {file : ListedFile} (legible : Legible sender file []) :
    file.Named sender := by
  cases legible with
  | whole named => exact named
  | chars named _ _ => exact named
  | words named _ _ _ => exact named
  | size _ lost_eq => exact absurd lost_eq (by decide)
  | owner _ _ lost_eq =>
      rcases lost_eq with lost_eq | lost_eq
      · have size := congrArg List.length lost_eq
        have text : (lit "|0|0|0").length = 6 := by decide
        rw [List.length_append, List.length_nil] at size
        omega
      · cases lost_eq

theorem cut_last {front : List ListedFile} {last : ListedFile} {kept lost : Bytes}
    (proper : ∀ file ∈ front, file.OneEntry) (lastEntry : last.OneEntry)
    (cut : kept ++ lost = joinedEntries (front ++ [last]))
    (many : front.length < (tokens (· = comma) kept).length) :
    ∃ more, more ≠ [] ∧ more ++ lost = last.entry ∧
      tokens (· = comma) kept = front.map ListedFile.entry ++ [more] := by
  obtain ⟨before, split, tokensBefore, tokensMore⟩ := joinedEntries_last last proper
  have count : (tokens (· = comma) before).length = front.length := by
    rw [tokensBefore, List.length_map]
  rw [split] at cut
  rcases List.append_eq_append_iff.mp cut with ⟨missing, within, _⟩ | ⟨more, rfl, whole⟩
  · have fewer := tokens_mono (· = comma) kept missing
    rw [← within] at fewer
    omega
  · by_cases empty : more = []
    · rw [empty, List.append_nil] at many
      omega
    · have free : comma ∉ more := by
        have entryFree := lastEntry.noComma
        rw [whole, List.mem_append, not_or] at entryFree
        exact entryFree.1
      exact ⟨more, empty, whole.symm, tokensMore more empty free⟩

theorem take_payload (fileList : Bytes) (room : config.header.length + 7 ≤ 1791) :
    (config.payload fileList).take 1791 = config.header ++ comma :: (lit "files=" ++
        fileList.take (1791 - (config.header.length + 7))) ∧
      (config.payload fileList).drop 1791 = fileList.drop (1791 - (config.header.length + 7)) := by
  have key : (lit "files=").length = 6 := by decide
  have shape : config.payload fileList = (config.header ++ comma :: lit "files=") ++ fileList := by
    simp [ServerConfig.payload]
  have size : (config.header ++ comma :: lit "files=").length = config.header.length + 7 := by
    rw [List.length_append, List.length_cons, key]
  rw [shape]
  constructor
  · rw [List.take_append, List.take_of_length_le (by omega), size]
    simp
  · rw [List.drop_append, List.drop_of_length_le (by omega), size, List.nil_append]

theorem files_le_listed {directory : Directory} {listed : List ListedFile}
    (keys : ∀ file ∈ directory.files, ∃ read ∈ listed, listedKey read = file.key) :
    directory.files.length ≤ listed.length := by
  have distinct : (directory.files.map StoredFile.key).Nodup :=
    directory.files_nodup.map (fun _ _ => StoredFile.key_inj)
  have within : directory.files.map StoredFile.key ⊆ listed.map listedKey := by
    intro key member
    obtain ⟨file, stored, rfl⟩ := List.mem_map.mp member
    obtain ⟨read, isListed, same⟩ := keys file stored
    exact List.mem_map.mpr ⟨read, isListed, same⟩
  have count := distinct.length_le_of_subset within
  rw [List.length_map, List.length_map] at count
  exact count

structure Arrived (config : ServerConfig) (storage : List Bytes) (disk : Disk)
    (directory : Directory) : Prop where
  keys : ∀ file ∈ directory.files, ∃ read ∈ listedFiles config.username
    (config.received (ServerConfig.fileList storage disk directory)), listedKey read = file.key
  paths : ∀ file ∈ directory.files, file.path.length ≤ 255 ∧ newline ∉ file.path
  owners : ∀ file ∈ directory.files, comma ∉ (file.described storage disk).owner ∧
    pipe ∉ (file.described storage disk).owner

theorem arrived_of_restored (proper : config.Proper) {directory : Directory} {before : FileIndex}
    {location : Location}
    (absent : ∀ file ∈ directory.files, indexLookup before file.key = none)
    (restored : Restored config storage disk directory.files before ((listedFiles config.username
      (config.received (ServerConfig.fileList storage disk directory))).foldl
        (indexListedFile location) before)) : Arrived config storage disk directory := by
  have onlyLine : newline ∉ config.received (ServerConfig.fileList storage disk directory) := by
    intro member
    simpa using List.mem_takeWhile_imp member
  refine ⟨?_, ?_, ?_⟩
  · intro file stored
    obtain ⟨read, member, key, _⟩ := key_listed absent restored stored
    exact ⟨read, member, key⟩
  · intro file stored
    obtain ⟨read, member, key, _⟩ := key_listed absent restored stored
    exact path_received member key onlyLine
  · intro file stored
    obtain ⟨read, member, _, owner⟩ := key_listed absent restored stored
    exact owner_received proper member owner

theorem Arrived.plainFile {directory : Directory} (arrived : Arrived config storage disk directory)
    (plain : ∀ file ∈ directory.files, PlainPath file) :
    ∀ file ∈ directory.files, (file.described storage disk).Plain := by
  intro file stored
  exact described_plain (directory.files_proper file stored) (plain file stored).noPipe
    (arrived.paths file stored).1 (arrived.owners file stored).2

theorem Arrived.listed {directory : Directory} (arrived : Arrived config storage disk directory)
    (proper : config.Proper) (plain : ∀ file ∈ directory.files, PlainPath file)
    {front : List StoredFile} {last : StoredFile} (files : directory.files = front ++ [last]) :
    ∃ kept, kept ≠ [] ∧ kept ++ (config.payload (joinedEntries (directory.files.map
        (StoredFile.described storage disk)))).drop 1791 = (last.described storage disk).entry ∧
      listedFiles config.username (config.received (ServerConfig.fileList storage disk directory)) =
        front.map (fun file => readListedFile config.username (file.described storage disk).entry) ++
          [readListedFile config.username kept] ∧
      registeredLocation config.username
        (config.received (ServerConfig.fileList storage disk directory)) =
          ⟨config.host, config.clientPort, config.username⟩ := by
  obtain ⟨keys, paths, owners⟩ := arrived
  have enough := files_le_listed keys
  have positive : 0 < directory.files.length := by simp [files]
  have few : directory.files.length ≤ maxFilesPerSs := by
    have count := listedFiles_length config.username
      (config.received (ServerConfig.fileList storage disk directory))
    have size : (config.received (ServerConfig.fileList storage disk directory)).length ≤ 1791 := by
      refine Nat.le_trans (List.takeWhile_prefix _).length_le ?_
      rw [List.length_take]
      omega
    rw [maxFilesPerSs]
    omega
  have list : ServerConfig.fileList storage disk directory =
      joinedEntries (directory.files.map (StoredFile.described storage disk)) := by
    rcases buildFileListString_eq (directory.files.map (StoredFile.described storage disk)) 4096
      with joined | ⟨_, _, dropped⟩
    · rw [ServerConfig.fileList, scan_described directory few (fun file stored => (paths file stored).1)]
      exact joined
    · have none : ServerConfig.fileList storage disk directory = [] := by
        rw [ServerConfig.fileList,
          scan_described directory few (fun file stored => (paths file stored).1)]
        exact dropped
      rw [none, listedFiles_none proper, List.length_nil] at enough
      omega
  have oneLine : newline ∉ joinedEntries (directory.files.map
      (StoredFile.described storage disk)) :=
    described_oneLine (fun file stored => (paths file stored).2)
  rw [list, received_oneLine proper oneLine] at enough ⊢
  have room : config.header.length + 7 ≤ 1791 := by
    by_contra short
    rw [listedFiles_cut proper _ _ (by omega), List.length_nil] at enough
    omega
  obtain ⟨taken, dropped⟩ := take_payload (joinedEntries (directory.files.map
    (StoredFile.described storage disk))) room
  rw [taken, listedFiles_header proper, List.length_map, files, List.length_append,
    List.length_singleton] at enough
  have oneEntry : ∀ file ∈ directory.files, (file.described storage disk).OneEntry := by
    intro file stored
    exact described_oneEntry (plain file stored).noComma (owners file stored).1
  have frontEntries : ∀ file ∈ front.map (StoredFile.described storage disk), file.OneEntry := by
    intro listed mapped
    obtain ⟨file, stored, rfl⟩ := List.mem_map.mp mapped
    exact oneEntry file (by rw [files]; simp [stored])
  have whole := List.take_append_drop (1791 - (config.header.length + 7))
    (joinedEntries (directory.files.map (StoredFile.described storage disk)))
  have apart : directory.files.map (StoredFile.described storage disk) =
      front.map (StoredFile.described storage disk) ++ [last.described storage disk] := by
    rw [files, List.map_append, List.map_singleton]
  nth_rewrite 3 [apart] at whole
  obtain ⟨more, nonempty, cut, texts⟩ := cut_last frontEntries
    (oneEntry last (by rw [files]; simp)) whole (by rw [List.length_map, files]; omega)
  refine ⟨more, nonempty, ?_, ?_, ?_⟩
  · rw [dropped]
    exact cut
  · rw [taken, listedFiles_header proper, texts]
    simp
  · rw [taken]
    exact registered_header proper _

theorem described_key {directory : Directory} (arrived : Arrived config storage disk directory)
    (plain : ∀ file ∈ directory.files, PlainPath file) {file : StoredFile}
    (stored : file ∈ directory.files) :
    (readListedFile config.username (file.described storage disk).entry).filename = file.path ∧
      listedKey (readListedFile config.username (file.described storage disk).entry) = file.key := by
  have name : (readListedFile config.username (file.described storage disk).entry).filename =
      file.path := by
    rw [read_filename_entry (arrived.plainFile plain file stored), StoredFile.described,
      describeFile_filename]
  refine ⟨name, ?_⟩
  rw [listedKey, name]
  exact StoredFile.pathParts_path (directory.files_proper file stored) (arrived.paths file stored).1

theorem Arrived.lastKey {directory : Directory} (arrived : Arrived config storage disk directory)
    (plain : ∀ file ∈ directory.files, PlainPath file) {front : List StoredFile} {last : StoredFile}
    (files : directory.files = front ++ [last]) {kept : Bytes}
    (listed : listedFiles config.username
      (config.received (ServerConfig.fileList storage disk directory)) =
        front.map (fun file => readListedFile config.username (file.described storage disk).entry) ++
          [readListedFile config.username kept]) :
    listedKey (readListedFile config.username kept) = last.key := by
  have distinct : (front ++ [last]).Nodup := files ▸ directory.files_nodup
  rw [List.nodup_append] at distinct
  obtain ⟨read, member, key⟩ := arrived.keys last (by rw [files]; simp)
  rw [listed] at member
  rcases List.mem_append.mp member with inside | one
  · obtain ⟨file, stored, rfl⟩ := List.mem_map.mp inside
    rw [(described_key arrived plain (by rw [files]; simp [stored])).2] at key
    exact absurd (StoredFile.key_inj key) (distinct.2.2 file stored last (by simp))
  · obtain rfl := List.mem_singleton.mp one
    exact key

theorem read_of_restored {files : List StoredFile} {before : FileIndex} {listed : List ListedFile}
    (distinct : (listed.map listedKey).Nodup)
    (absent : ∀ file ∈ files, indexLookup before file.key = none)
    (restored : Restored config storage disk files before (listed.foldl
      (indexListedFile ⟨config.host, config.clientPort, config.username⟩) before))
    {file : StoredFile} (stored : file ∈ files) {read : ListedFile} (member : read ∈ listed)
    (short : read.owner.length ≤ 63) (key : listedKey read = file.key)
    (name : read.filename = file.path) : read = restoredFile config storage disk file := by
  have found := indexLookup_listed_mem ⟨config.host, config.clientPort, config.username⟩ _ before
    distinct member
  rw [key, absent file stored, Option.getD_none, newEntry_relocate, ← key] at found
  have expected := restored.listed file stored
  rw [← key, found, key] at expected
  exact restored_of_entry name short (Option.some.inj expected)

theorem reads_of_restored (proper : config.Proper) (directory : Directory)
    (plain : ∀ file ∈ directory.files, PlainPath file) {before : FileIndex}
    (absent : ∀ file ∈ directory.files, indexLookup before file.key = none)
    (restored : Restored config storage disk directory.files before ((listedFiles config.username
      (config.received (ServerConfig.fileList storage disk directory))).foldl (indexListedFile
        (registeredLocation config.username (config.received
          (ServerConfig.fileList storage disk directory)))) before))
    {front : List StoredFile} {last : StoredFile} (files : directory.files = front ++ [last]) :
    (∀ file ∈ front, readListedFile config.username (file.described storage disk).entry =
        restoredFile config storage disk file) ∧
      ∃ kept, kept ++ (config.payload (joinedEntries (directory.files.map
          (StoredFile.described storage disk)))).drop 1791 =
            (last.described storage disk).entry ∧
        readListedFile config.username kept = restoredFile config storage disk last := by
  have arrived := arrived_of_restored proper absent restored
  obtain ⟨kept, nonempty, cut, listed, location⟩ := arrived.listed proper plain files
  have lastKey := arrived.lastKey plain files listed
  have isLast : last ∈ directory.files := by
    rw [files]
    simp
  have inFront : ∀ file ∈ front, file ∈ directory.files := by
    intro file inside
    rw [files]
    simp [inside]
  have ownerShort : ∀ read ∈ listedFiles config.username
      (config.received (ServerConfig.fileList storage disk directory)), read.owner.length ≤ 63 := by
    intro read member
    exact (listedFiles_received member).ownerShort (Nat.le_of_lt_succ proper.username.short)
  rw [location] at restored
  rw [listed] at restored ownerShort
  have distinct : ((front.map (fun file => readListedFile config.username
      (file.described storage disk).entry) ++ [readListedFile config.username kept]).map
        listedKey).Nodup := by
    have keys : (front.map (fun file => readListedFile config.username
        (file.described storage disk).entry) ++ [readListedFile config.username kept]).map
          listedKey = directory.files.map StoredFile.key := by
      rw [List.map_append, List.map_singleton, lastKey, files, List.map_append, List.map_singleton,
        List.map_map]
      congr 1
      exact List.map_congr_left fun file inside =>
        (described_key arrived plain (inFront file inside)).2
    rw [keys]
    exact directory.files_nodup.map (fun _ _ => StoredFile.key_inj)
  refine ⟨?_, kept, cut, ?_⟩
  · intro file inside
    have member : readListedFile config.username (file.described storage disk).entry ∈
        front.map (fun file => readListedFile config.username (file.described storage disk).entry) ++
          [readListedFile config.username kept] :=
      List.mem_append_left _ (List.mem_map.mpr ⟨file, inside, rfl⟩)
    obtain ⟨name, key⟩ := described_key arrived plain (inFront file inside)
    exact read_of_restored distinct absent restored (inFront file inside) member
      (ownerShort _ member) key name
  · have part := @read_filename config.username _ _ _ (arrived.plainFile plain last isLast)
      nonempty cut
    rw [StoredFile.described, describeFile_filename] at part
    have bound := part.length_le
    have short : (readListedFile config.username kept).filename.length ≤ 255 := by
      have limit := (arrived.paths last isLast).1
      omega
    have name : (readListedFile config.username kept).filename = last.path := by
      rcases StoredFile.path_of_key short lastKey with same | same
      · exact same
      · rw [same, List.length_cons] at bound
        omega
    exact read_of_restored distinct absent restored isLast (by simp)
      (ownerShort _ (by simp)) lastKey name

theorem restorable_of_restored (proper : config.Proper) (directory : Directory)
    (plain : ∀ file ∈ directory.files, PlainPath file) (server : NameServer)
    (absent : ∀ file ∈ directory.files, indexLookup server.index file.key = none)
    (restored : Restored config storage disk directory.files server.index
      (server.startServer config storage disk directory.entries).index) :
    Restorable config storage disk directory.files := by
  rw [startServer_index proper] at restored
  have arrived : Arrived config storage disk directory :=
    arrived_of_restored proper absent restored
  have sizes : ∀ file ∈ directory.files, (file.described storage disk).sizeBytes < 2 ^ 64 := by
    intro file stored
    have some : directory.files ≠ [] := by
      intro none
      simp [none] at stored
    obtain ⟨front, last, files⟩ := (List.eq_nil_or_concat' directory.files).resolve_left some
    obtain ⟨readFront, kept, _, readLast⟩ :=
      reads_of_restored proper directory plain absent restored files
    have size : (restoredFile config storage disk file).sizeBytes < 2 ^ 64 := by
      rw [files, List.mem_append, List.mem_singleton] at stored
      rcases stored with inside | rfl
      · rw [← readFront file inside]
        exact strtoull_lt _
      · rw [← readLast]
        exact strtoull_lt _
    exact size
  refine ⟨arrived.paths, arrived.owners, sizes, ?_⟩
  intro front last files
  obtain ⟨readFront, kept, cut, readLast⟩ :=
    reads_of_restored proper directory plain absent restored files
  refine ⟨?_, ?_⟩
  · intro file inside
    have stored : file ∈ directory.files := by
      rw [files]
      simp [inside]
    exact legible_nil (legible_of_read (arrived.plainFile plain file stored) (List.append_nil _)
      (readFront file inside))
  · exact legible_of_read (arrived.plainFile plain last (by rw [files]; simp)) cut readLast

/-- The registration of a server with restorable files gives exactly these files their entries on the server, if
and only if the entries that are there already have the owners of the records; at a name server without entries of
the files it does so exactly if they are restorable. -/
theorem registration_restores_iff (config : ServerConfig) (proper : config.Proper)
    (storage : List Bytes) (disk : Disk) (directory : Directory)
    (plain : ∀ file ∈ directory.files, PlainPath file) (server : NameServer) :
    let restored := Restored config storage disk directory.files server.index
      (server.startServer config storage disk directory.entries).index
    (Restorable config storage disk directory.files →
        (restored ↔ ∀ file ∈ directory.files, KeepsOwner config storage disk server.index file)) ∧
      ((∀ file ∈ directory.files, indexLookup server.index file.key = none) →
        (restored ↔ Restorable config storage disk directory.files)) := by
  refine ⟨restored_of_restorable proper directory plain server, fun absent => ?_⟩
  refine ⟨restorable_of_restored proper directory plain server absent, fun restorable => ?_⟩
  refine (restored_of_restorable proper directory plain server restorable).mpr fun file stored entry found => ?_
  rw [absent file stored] at found
  cases found

end Restoring

def registeredConfig : ServerConfig := ⟨lit "127.0.0.1", 6001, lit "./storage_ss1", lit "ss1"⟩

def movedConfig : ServerConfig := { registeredConfig with clientPort := 7001 }

theorem registeredConfig_proper : registeredConfig.Proper := by
  refine ⟨by decide, by decide, by decide +kernel, by decide +kernel, by decide +kernel,
    by decide +kernel, by decide, by decide, by decide, by decide⟩

theorem movedConfig_proper : movedConfig.Proper := by
  refine ⟨by decide, by decide, by decide +kernel, by decide +kernel, by decide +kernel,
    by decide +kernel, by decide, by decide, by decide, by decide⟩

def registeredDirectory : Directory where
  entries := [.file (lit "a.txt"), .folder (lit "docs") [.file (lit "b.txt")]]
  proper := by
    have name (text : String) (nonempty : lit text ≠ []) (slashFree : slash ∉ lit text)
        (nulFree : 0 ∉ lit text) : ComponentName (lit text) := ⟨nonempty, slashFree, nulFree⟩
    rw [ProperEntries, ProperEntries, ProperEntries, DirEntry.Proper, DirEntry.Proper,
      ProperEntries, ProperEntries, DirEntry.Proper]
    refine ⟨name "a.txt" (by decide) (by decide) (by decide), ⟨⟨name "docs" (by decide) (by decide)
      (by decide), name "b.txt" (by decide) (by decide) (by decide), trivial, by simp⟩, trivial,
      by simp⟩, ?_⟩
    intro other member
    obtain rfl := List.mem_singleton.mp member
    decide

def registeredRecord (owner : String) : Bytes :=
  metadataSave { newMetadata (lit owner) 0 with sizeBytes := 5, wordCount := 1, charCount := 5 }

def registeredDisk : Disk := fun path =>
  if path = recordPath [lit "srv"] (lit "a.txt") then some (registeredRecord "ann")
  else if path = recordPath [lit "srv"] (lit "/docs/b.txt") then some (registeredRecord "bob")
  else none

theorem registered_all {P : StoredFile → Prop} (first : P ⟨[], lit "a.txt"⟩)
    (second : P ⟨lit "docs", lit "b.txt"⟩) : ∀ file ∈ registeredDirectory.files, P file := by
  have files : registeredDirectory.files = [⟨[], lit "a.txt"⟩, ⟨lit "docs", lit "b.txt"⟩] := rfl
  rw [files, List.forall_mem_cons, List.forall_mem_singleton]
  exact ⟨first, second⟩

theorem registered_restorable {config : ServerConfig} (name : config.username = lit "ss1")
    (fits : (config.payload (joinedEntries (registeredDirectory.files.map
      (StoredFile.described [lit "srv"] registeredDisk)))).drop 1791 = []) :
    Restorable config [lit "srv"] registeredDisk registeredDirectory.files := by
  have named : ∀ file ∈ registeredDirectory.files,
      (file.described [lit "srv"] registeredDisk).Named config.username := by
    rw [name]
    exact registered_all (Or.inl (by decide +kernel)) (Or.inl (by decide +kernel))
  refine ⟨registered_all (by decide) (by decide), registered_all (by decide +kernel) (by decide +kernel),
    registered_all (by decide +kernel) (by decide +kernel), ?_⟩
  intro front last shape
  rw [fits]
  refine ⟨fun file inside => named file ?_, Legible.whole (named last ?_)⟩
  · rw [shape]
    exact List.mem_append_left _ inside
  · rw [shape]
    simp

theorem registration_restores_folder :
    let first := NameServer.started.startServer registeredConfig [lit "srv"] registeredDisk
      registeredDirectory.entries
    indexLookup first.index (lit "/docs/", lit "b.txt") =
        some ⟨lit "b.txt", lit "/docs/", lit "bob", lit "127.0.0.1", 6001, lit "ss1", 5, 1, 5⟩ ∧
      indexLookup (first.startServer movedConfig [lit "srv"] registeredDisk
          registeredDirectory.entries).index (lit "/docs/", lit "b.txt") =
        some ⟨lit "b.txt", lit "/docs/", lit "bob", lit "127.0.0.1", 7001, lit "ss1", 5, 1, 5⟩ := by
  have plain : ∀ file ∈ registeredDirectory.files, PlainPath file :=
    registered_all ⟨by decide, by decide⟩ ⟨by decide, by decide⟩
  have key : (⟨lit "docs", lit "b.txt"⟩ : StoredFile).key = (lit "/docs/", lit "b.txt") := by
    decide +kernel
  have listed : (⟨lit "docs", lit "b.txt"⟩ : StoredFile) ∈ registeredDirectory.files := by
    change _ ∈ [(⟨[], lit "a.txt"⟩ : StoredFile), ⟨lit "docs", lit "b.txt"⟩]
    simp
  have first := ((registration_restores_iff registeredConfig registeredConfig_proper [lit "srv"]
    registeredDisk registeredDirectory plain NameServer.started).2 (fun _ _ => rfl)).mpr
      (registered_restorable rfl (by decide +kernel))
  have again := ((registration_restores_iff movedConfig movedConfig_proper [lit "srv"] registeredDisk
    registeredDirectory plain (NameServer.started.startServer registeredConfig [lit "srv"] registeredDisk
      registeredDirectory.entries)).1 (registered_restorable rfl (by decide +kernel))).mpr
        (fun file stored entry found => by
          obtain rfl := Option.some.inj ((first.listed file stored).symm.trans found)
          rfl)
  have before := first.listed _ listed
  have after := again.listed _ listed
  rw [key] at before after
  constructor
  · rw [before]
    decide +kernel
  · rw [after]
    decide +kernel

def bareDirectory : Directory where
  entries := [.file (lit "a")]
  proper := by
    rw [ProperEntries, DirEntry.Proper, ProperEntries]
    exact ⟨⟨by decide, by decide, by decide⟩, trivial, by simp⟩

theorem unrecorded_owned_by_zero :
    (indexLookup (NameServer.started.startServer registeredConfig [lit "srv"] (fun _ => none)
        bareDirectory.entries).index (rootFolder, lit "a")).map FileEntry.owner = some (lit "0") ∧
      ¬Restored registeredConfig [lit "srv"] (fun _ => none) bareDirectory.files
        NameServer.started.index (NameServer.started.startServer registeredConfig [lit "srv"]
          (fun _ => none) bareDirectory.entries).index := by
  have owner : (indexLookup (NameServer.started.startServer registeredConfig [lit "srv"]
      (fun _ => none) bareDirectory.entries).index (rootFolder, lit "a")).map FileEntry.owner =
        some (lit "0") := by
    decide +kernel
  refine ⟨owner, fun restored => ?_⟩
  have listed := restored.listed ⟨[], lit "a"⟩ (by decide)
  have key : (⟨[], lit "a"⟩ : StoredFile).key = (rootFolder, lit "a") := rfl
  rw [key] at listed
  rw [listed] at owner
  exact absurd owner (by decide +kernel)

end SharedFileSystem
