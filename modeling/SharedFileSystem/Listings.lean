import SharedFileSystem.CompleteFailover
import SharedFileSystem.FolderIndex
import SharedFileSystem.Replies
import SharedFileSystem.Lib.Cursor

/-!
The listings of `nm/commands.c`. VIEW, VIEWFOLDER and VIEWACCESSREQUESTS print their rows into a buffer of
8192 bytes; the cursor moves on by what `snprintf` returns, which is the length before any cut.
-/

namespace SharedFileSystem

open ByteText Cursor

def outputSize : Nat := 8192

def viewHeader : Bytes :=
  lit "---------------------------------------------------------\n" ++
    lit "|  Filename  | Words | Chars | Last Access Time | Owner |\n" ++
    lit "|------------|-------|-------|------------------|-------|\n"

def viewFooter : Bytes := lit "---------------------------------------------------------\n"

def viewLine (entry : FileEntry) : Bytes := lit "--> " ++ buildFullPath entry ++ [newline]

def showsAll (flags : Bytes) : Bool := flags.contains 97

def showsDetails (flags : Bytes) : Bool := flags.contains 108

-- the owners that are missing are loaded first; without `-a` the files of the user remain
def viewedFiles (index : FileIndex) (loadedOwner : FileEntry → Option Bytes) (username : Bytes)
    (showAll : Bool) : List FileEntry :=
  let files := (indexGetAllFiles index 1000).map fun entry => entry.loadOwner (loadedOwner entry)
  if showAll then files else files.filter fun entry => entry.owner = username

def viewPrinted (accessed : FileEntry → Bytes) (showDetails : Bool) (files : List FileEntry) :
    Output UInt8 :=
  if showDetails then
    ((Output.empty.print viewHeader).printWhile (fun pos => pos < outputSize - 200)
      (files.map fun entry => viewRow (accessed entry) entry)).print viewFooter
  else
    (Output.empty.printWhile (fun pos => pos < outputSize - 100) (files.map viewLine)).put

def noFilesText (showAll : Bool) : Bytes :=
  if showAll then lit "No files found.\n" else lit "No files found. (Use -a to view all files)\n"

def viewOutput (index : FileIndex) (loadedOwner : FileEntry → Option Bytes)
    (accessed : FileEntry → Bytes) (username flags : Bytes) : Output UInt8 :=
  let files := viewedFiles index loadedOwner username (showsAll flags)
  let printed := viewPrinted accessed (showsDetails flags) files
  if files = [] then ⟨noFilesText (showsAll flags), printed.accesses ++ [.room 0]⟩ else printed

-- `sizeof(response) - written`, in `size_t`
def roomLeft (offset : Nat) : Nat := (((outputSize : Int) - offset) % 2 ^ 64).toNat

-- the last level of a folder path; the first byte counts as a slash
def shownFolder (folder : Bytes) : Bytes :=
  let front := (folderName folder).dropLast
  if front = [] then folder else folder.drop (1 + (folderName (front.drop 1)).length)

def folderRow (folder : FolderEntry) : Bytes :=
  lit "  [DIR] " ++ shownFolder folder.folderPath ++ [newline]

def fileRow (entry : FileEntry) : Bytes := lit "  " ++ entry.filename ++ [newline]

def indexGetFilesInFolder (index : FileIndex) (folder : Bytes) (maxFiles : Nat) : List FileEntry :=
  (((List.range indexHashSize).flatMap fun hash =>
    index.filter fun entry => indexHash entry.filename = hash).filter fun entry =>
      entry.folderPath = normalizeFolderPath folder).take maxFiles

def folderPrinted (folder : Bytes) (subfolders : List FolderEntry) (files : List FileEntry) :
    Output UInt8 :=
  let header := Output.empty.advance (lit "Contents of " ++ folder ++ lit ":\n")
  let folders :=
    if subfolders = [] then header
    else (header.advance (lit "\nFolders:\n")).advanceWhile (fun pos => 0 < roomLeft pos)
      (subfolders.map folderRow)
  let listed :=
    if files = [] then folders
    else (folders.advance (lit "\nFiles:\n")).advanceWhile (fun pos => 0 < roomLeft pos)
      (files.map fileRow)
  if files = [] ∧ subfolders = [] then listed.advance (lit "\n(empty)\n") else listed

def viewfolderOutput (index : FileIndex) (folders : FolderTable) (folder : Bytes) : Output UInt8 :=
  if folders.folderExists folder then
    folderPrinted folder (folders.getSubfolders folder 1000) (indexGetFilesInFolder index folder 1000)
  else .empty

def requestsFor (requests : List AccessRequest) (username payload : Bytes) : List AccessRequest :=
  requests.filter fun request => request.owner = username ∧
    (payload = [] ∨ (request.folderPath, request.filename) = pathParts (payload.take 255))

def AccessType.shown : AccessType → Bytes
  | .read => lit "R"
  | .write => lit "W"
  | .both => lit "RW"

def shortPath (path : Bytes) : Bytes := if 24 < path.length then path.take 21 ++ lit "..." else path

def requestRow (date : AccessRequest → Bytes) (request : AccessRequest) : Bytes :=
  lit "| #" ++ padRight 4 (showInt request.requestId) ++ lit " | " ++ padRight 12 request.requester ++
    lit " | " ++ padRight 24 (shortPath (World.requestPath request)) ++ lit " | " ++
    padRight 4 request.accessType.shown ++ lit " | " ++ padRight 10 (date request) ++ lit " |\n"

def requestsTitle : Bytes := lit "Pending Access Requests:\n"

def requestsHeader : Bytes :=
  lit "-----------------------------------------------------------------------\n" ++
    lit "|   ID  | Requester    | File                     | Type | Date       |\n" ++
    lit "|-------|--------------|--------------------------|------|------------|\n"

def requestsFooter : Bytes :=
  lit "-----------------------------------------------------------------------\n"

def requestsOutput (requests : List AccessRequest) (date : AccessRequest → Bytes)
    (username payload : Bytes) : Output UInt8 :=
  let shown := requestsFor requests username payload
  if shown = [] then .empty
  else (((Output.empty.advance requestsTitle).advance requestsHeader).advanceWhile
    (fun pos => 100 < roomLeft pos) (shown.map (requestRow date))).advance requestsFooter

theorem padRight_length (width : Nat) (text : Bytes) :
    (padRight width text).length = max width text.length := by
  rw [padRight, List.length_append, List.length_replicate]
  omega

theorem padLeft_length (width : Nat) (text : Bytes) :
    (padLeft width text).length = max width text.length := by
  rw [padLeft, List.length_append, List.length_replicate]
  omega

def lineSize (entry : FileEntry) : Nat := (buildFullPath entry).length + 5

theorem viewLine_length (entry : FileEntry) : (viewLine entry).length = lineSize entry := by
  have arrow : (lit "--> ").length = 4 := rfl
  rw [viewLine, List.length_append, List.length_append, arrow, List.length_singleton, lineSize]
  omega

def detailSize (accessed : FileEntry → Bytes) (entry : FileEntry) : Nat :=
  17 + max 10 (buildFullPath entry).length + max 5 (showInt entry.wordCount).length +
    max 5 (showInt entry.charCount).length + max 16 (accessed entry).length + max 5 entry.owner.length

theorem viewRow_length (accessed : FileEntry → Bytes) (entry : FileEntry) :
    (viewRow (accessed entry) entry).length = detailSize accessed entry := by
  have first : (lit "| ").length = 2 := rfl
  have middle : (lit " | ").length = 3 := rfl
  have last : (lit " |\n").length = 3 := rfl
  rw [viewRow, detailSize, FileEntry.counts]
  simp only [List.length_append, padRight_length, padLeft_length, first, middle, last]
  omega

def folderSize (folder : FolderEntry) : Nat := (shownFolder folder.folderPath).length + 9

theorem folderRow_length (folder : FolderEntry) : (folderRow folder).length = folderSize folder := by
  have mark : (lit "  [DIR] ").length = 8 := rfl
  rw [folderRow, List.length_append, List.length_append, mark, List.length_singleton, folderSize]
  omega

def fileSize (entry : FileEntry) : Nat := entry.filename.length + 3

theorem fileRow_length (entry : FileEntry) : (fileRow entry).length = fileSize entry := by
  have indent : (lit "  ").length = 2 := rfl
  rw [fileRow, List.length_append, List.length_append, indent, List.length_singleton, fileSize]
  omega

def requestSize (date : AccessRequest → Bytes) (request : AccessRequest) : Nat :=
  46 + max 4 (showInt request.requestId).length + max 12 request.requester.length +
    max 10 (date request).length

theorem shortPath_length (path : Bytes) : (shortPath path).length ≤ 24 := by
  have dots : (lit "...").length = 3 := rfl
  rw [shortPath]
  split
  · rw [List.length_append, List.length_take, dots]
    omega
  · omega

theorem requestRow_length (date : AccessRequest → Bytes) (request : AccessRequest) :
    (requestRow date request).length = requestSize date request := by
  have first : (lit "| #").length = 3 := rfl
  have middle : (lit " | ").length = 3 := rfl
  have last : (lit " |\n").length = 3 := rfl
  have path := shortPath_length (World.requestPath request)
  have shown : request.accessType.shown.length ≤ 4 := by
    cases request.accessType <;> decide
  rw [requestRow, requestSize]
  simp only [List.length_append, padRight_length, first, middle, last]
  omega

theorem indexGetAllFiles_perm {index : FileIndex} {maxFiles : Nat} (room : index.length ≤ maxFiles) :
    (indexGetAllFiles index maxFiles).Perm index := by
  have slots := (indexSlots_perm room).map Prod.fst
  rwa [indexSlots_entries, List.zipIdx_map_fst] at slots

theorem roomLeft_eq {offset : Nat} (inside : offset ≤ outputSize) :
    roomLeft offset = outputSize - offset := by
  have size : outputSize = 8192 := rfl
  rw [roomLeft]
  omega

def ViewFits (accessed : FileEntry → Bytes) (showDetails : Bool) (files : List FileEntry) : Prop :=
  if showDetails then RowsEnd 7992 8192 174 (files.map (detailSize accessed))
  else RowsEnd 8092 8191 0 (files.map lineSize)

theorem viewPrinted_within (accessed : FileEntry → Bytes) (showDetails : Bool)
    (files : List FileEntry) :
    (viewPrinted accessed showDetails files).Within outputSize ↔ ViewFits accessed showDetails files := by
  have start : (Output.empty : Output UInt8).Within outputSize := by simp [Output.Within, Output.empty]
  cases showDetails with
  | true =>
      have header : (Output.empty.print viewHeader).text.length = 174 := by
        decide +kernel
      have sizes : (files.map fun entry => viewRow (accessed entry) entry).map List.length =
          files.map (detailSize accessed) := by
        rw [List.map_map]
        exact List.map_congr_left fun entry _ => viewRow_length accessed entry
      have inside (offset : Nat) (admitted : decide (offset < outputSize - 200) = true) :
          offset ≤ outputSize := by
        have below := of_decide_eq_true admitted
        omega
      have printed : (Output.empty.print viewHeader).Within outputSize :=
        (Output.print_within viewHeader).mpr ⟨start, Nat.zero_le _⟩
      rw [viewPrinted, if_pos rfl, Output.print_within, Output.printWhile_within inside,
        Output.printWhile_length, sizes, header, ViewFits, if_pos rfl]
      exact (and_iff_right printed).trans
        (stop_le_iff (fun _ _ => rfl) (by decide) _)
  | false =>
      have sizes : (files.map viewLine).map List.length = files.map lineSize := by
        rw [List.map_map]
        exact List.map_congr_left fun entry _ => viewLine_length entry
      have inside (offset : Nat) (admitted : decide (offset < outputSize - 100) = true) :
          offset ≤ outputSize := by
        have below := of_decide_eq_true admitted
        omega
      rw [viewPrinted, if_neg Bool.false_ne_true, Output.put_within, Output.printWhile_within inside,
        Output.printWhile_length, sizes, ViewFits, if_neg Bool.false_ne_true]
      exact (and_iff_right start).trans (Nat.lt_succ_iff.trans
        (stop_le_iff (fun _ _ => rfl) (Nat.zero_le _) _))

theorem viewOutput_within (index : FileIndex) (loadedOwner : FileEntry → Option Bytes)
    (accessed : FileEntry → Bytes) (username flags : Bytes) :
    (viewOutput index loadedOwner accessed username flags).Within outputSize ↔
      ViewFits accessed (showsDetails flags)
        (viewedFiles index loadedOwner username (showsAll flags)) := by
  rw [← viewPrinted_within, viewOutput]
  split
  · simp only [Output.Within, List.forall_mem_append, List.forall_mem_singleton, Access.Within,
      Nat.zero_le, and_true]
  · exact Iff.rfl

def FolderFits (folder : Bytes) (subfolders : List FolderEntry) (files : List FileEntry) : Prop :=
  let header := 14 + folder.length
  if files = [] then
    if subfolders = [] then header + 9 ≤ 8192
    else FitOrFill 8192 (header + 10) (subfolders.map folderSize)
  else if subfolders = [] then FitOrFill 8192 (header + 8) (files.map fileSize)
  else FitOrFill 8192 (header + 10 + (subfolders.map folderSize).sum + 8) (files.map fileSize)

theorem folderGuard (offset : Nat) (inside : offset ≤ outputSize) :
    decide (0 < roomLeft offset) = decide (offset < outputSize) := by
  rw [roomLeft_eq inside]
  exact decide_eq_decide.mpr Nat.sub_pos_iff_lt

theorem group_tracked {out : Output UInt8} (tracked : out.Tracked) (title : Bytes) (rows : List Bytes) :
    ((out.advance title).advanceWhile (fun pos => 0 < roomLeft pos) rows).Tracked ∧
      ((out.advance title).advanceWhile (fun pos => 0 < roomLeft pos) rows).text.length =
        stop (fun pos => 0 < roomLeft pos) (out.text.length + title.length)
          (rows.map List.length) := by
  refine ⟨(tracked.advance title).advanceWhile _ rows, ?_⟩
  rw [Output.advanceWhile_length, Output.advance, List.length_append]

theorem folderPrinted_within (folder : Bytes) (subfolders : List FolderEntry)
    (files : List FileEntry) :
    (folderPrinted folder subfolders files).Within outputSize ↔
      FolderFits folder subfolders files := by
  have opening : (lit "Contents of ").length = 12 := rfl
  have ending : (lit ":\n").length = 2 := rfl
  have foldersTitle : (lit "\nFolders:\n").length = 10 := rfl
  have filesTitle : (lit "\nFiles:\n").length = 8 := rfl
  have emptyTitle : (lit "\n(empty)\n").length = 9 := rfl
  have folderSizes : (subfolders.map folderRow).map List.length = subfolders.map folderSize := by
    rw [List.map_map]
    exact List.map_congr_left fun folder _ => folderRow_length folder
  have fileSizes : (files.map fileRow).map List.length = files.map fileSize := by
    rw [List.map_map]
    exact List.map_congr_left fun entry _ => fileRow_length entry
  have tracked := (@Output.empty_tracked UInt8).advance (lit "Contents of " ++ folder ++ lit ":\n")
  have header : (Output.empty.advance (lit "Contents of " ++ folder ++ lit ":\n")).text.length =
      14 + folder.length := by
    simp only [Output.advance, Output.empty, List.nil_append, List.length_append, opening, ending]
    omega
  rw [folderPrinted]
  generalize Output.empty.advance (lit "Contents of " ++ folder ++ lit ":\n") = out at tracked header
  by_cases noFolders : subfolders = []
  · by_cases noFiles : files = []
    · rw [if_pos ⟨noFiles, noFolders⟩, if_pos noFiles, if_pos noFolders, tracked.advance, FolderFits,
        if_pos noFiles, if_pos noFolders, Output.advance, List.length_append, emptyTitle, header]
      rfl
    · obtain ⟨listed, length⟩ := group_tracked tracked (lit "\nFiles:\n") (files.map fileRow)
      rw [if_neg fun both => noFiles both.1, if_neg noFiles, if_pos noFolders, listed, length, fileSizes,
        header, filesTitle, FolderFits, if_neg noFiles, if_pos noFolders]
      exact stop_full_iff folderGuard _ _
  · obtain ⟨folders, foldersLength⟩ :=
      group_tracked tracked (lit "\nFolders:\n") (subfolders.map folderRow)
    rw [folderSizes, header, foldersTitle] at foldersLength
    by_cases noFiles : files = []
    · rw [if_neg fun both => noFolders both.2, if_pos noFiles, if_neg noFolders, folders, foldersLength,
        FolderFits, if_pos noFiles, if_neg noFolders]
      exact stop_full_iff folderGuard _ _
    · obtain ⟨listed, length⟩ := group_tracked folders (lit "\nFiles:\n") (files.map fileRow)
      rw [if_neg fun both => noFiles both.1, if_neg noFiles, if_neg noFolders, listed, length, fileSizes,
        foldersLength, filesTitle, FolderFits, if_neg noFiles, if_neg noFolders]
      have guarded : ∀ offset < 8192, decide (0 < roomLeft offset) = true := by
        intro offset inside
        rw [folderGuard offset (Nat.le_of_lt inside)]
        exact decide_eq_true inside
      by_cases early : stop (fun pos => 0 < roomLeft pos) (14 + folder.length + 10)
          (subfolders.map folderSize) < 8192
      · rw [stop_eq_sum guarded early]
        exact stop_full_iff folderGuard _ _
      · -- the buffer is full before the files begin
        have enough := stop_le_sum (fun pos => decide (0 < roomLeft pos)) (14 + folder.length + 10)
          (subfolders.map folderSize)
        constructor
        · intro stopped
          have first := Nat.le_trans (le_stop _ _ _) stopped
          have size : outputSize = 8192 := rfl
          omega
        · intro fits
          have first := fits.below
          omega

def RequestsFit (date : AccessRequest → Bytes) (requests : List AccessRequest) : Prop :=
  RowsEnd 8092 8120 241 (requests.map (requestSize date))

theorem requestsOutput_within (requests : List AccessRequest) (date : AccessRequest → Bytes)
    (username payload : Bytes) :
    (requestsOutput requests date username payload).Within outputSize ↔
      RequestsFit date (requestsFor requests username payload) := by
  rw [requestsOutput]
  split
  · rename_i none
    rw [none]
    simp [Output.Within, Output.empty, RequestsFit, RowsEnd]
  · have title : requestsTitle.length = 25 := by decide +kernel
    have header : requestsHeader.length = 216 := by decide +kernel
    have footer : requestsFooter.length = 72 := by decide +kernel
    have sizes : ((requestsFor requests username payload).map (requestRow date)).map List.length =
        (requestsFor requests username payload).map (requestSize date) := by
      rw [List.map_map]
      exact List.map_congr_left fun request _ => requestRow_length date request
    have tracked := ((((@Output.empty_tracked UInt8).advance requestsTitle).advance
      requestsHeader).advanceWhile (fun pos => 100 < roomLeft pos)
      ((requestsFor requests username payload).map (requestRow date))).advance requestsFooter
    have start : ((Output.empty.advance requestsTitle).advance requestsHeader).text.length = 241 := by
      simp only [Output.advance, Output.empty, List.nil_append, List.length_append, title, header]
    have guarded : ∀ offset ≤ 8120, decide (100 < roomLeft offset) = decide (offset < 8092) := by
      intro offset inside
      have size : outputSize = 8192 := rfl
      rw [roomLeft_eq (by omega), decide_eq_decide]
      omega
    rw [tracked, Output.advance, List.length_append, Output.advanceWhile_length, sizes, start, footer,
      RequestsFit, ← stop_le_iff guarded (by decide)]
    have size : outputSize = 8192 := rfl
    omega

theorem viewfolderOutput_within (index : FileIndex) (folders : FolderTable) (folder : Bytes) :
    (viewfolderOutput index folders folder).Within outputSize ↔
      (folders.folderExists folder = true → FolderFits folder (folders.getSubfolders folder 1000)
        (indexGetFilesInFolder index folder 1000)) := by
  rw [viewfolderOutput]
  split
  · rename_i present
    rw [folderPrinted_within]
    simp only [present, forall_const]
  · rename_i absent
    simp [Output.Within, Output.empty, absent]

/-- The three listings stay inside their buffers exactly when no row that begins before the margin ends
beyond it: the last byte of VIEW, its closing line with `-l` and that of VIEWACCESSREQUESTS have to fit
behind the last row, and the text of VIEWFOLDER has to fit or to fill the buffer with a row. -/
theorem listings_inside_iff (index : FileIndex) (loadedOwner : FileEntry → Option Bytes)
    (accessed : FileEntry → Bytes) (username flags : Bytes) (folders : FolderTable) (folder : Bytes)
    (requests : List AccessRequest) (date : AccessRequest → Bytes) (payload : Bytes) :
    ((viewOutput index loadedOwner accessed username flags).Within outputSize ↔
        ViewFits accessed (showsDetails flags)
          (viewedFiles index loadedOwner username (showsAll flags))) ∧
      ((viewfolderOutput index folders folder).Within outputSize ↔
        (folders.folderExists folder = true → FolderFits folder (folders.getSubfolders folder 1000)
          (indexGetFilesInFolder index folder 1000))) ∧
      ((requestsOutput requests date username payload).Within outputSize ↔
        RequestsFit date (requestsFor requests username payload)) :=
  ⟨viewOutput_within index loadedOwner accessed username flags,
    viewfolderOutput_within index folders folder, requestsOutput_within requests date username payload⟩

def crowdedIndex : FileIndex :=
  (List.range 16).map fun n => newEntry
    (slash :: List.replicate 509 100 ++ [slash], [UInt8.ofNat (97 + n)]) (lit "ann")
    ⟨lit "127.0.0.1", 9001, lit "ss1"⟩

def crowdedQueue : List AccessRequest :=
  (List.range 110).map fun n => ⟨lit "a.txt", rootFolder, lit "bob" ++ showNat n, lit "ann", .read, n + 1⟩

theorem crowdedIndex_sizes : (viewedFiles crowdedIndex (fun _ => none) (lit "ann") false).map lineSize =
    List.replicate 16 517 := by
  have all : ∀ entry ∈ crowdedIndex, (entry.loadOwner none).owner = lit "ann" ∧
      lineSize (entry.loadOwner none) = 517 := by decide +kernel
  have perm := indexGetAllFiles_perm (by decide : crowdedIndex.length ≤ 1000)
  have kept : viewedFiles crowdedIndex (fun _ => none) (lit "ann") false =
      (indexGetAllFiles crowdedIndex 1000).map fun entry => entry.loadOwner none := by
    rw [viewedFiles, if_neg Bool.false_ne_true, List.filter_eq_self]
    intro entry member
    obtain ⟨stored, inside, rfl⟩ := List.mem_map.mp member
    exact decide_eq_true (all stored (perm.mem_iff.mp inside)).1
  rw [kept, List.map_map, List.eq_replicate_iff]
  constructor
  · rw [List.length_map, perm.length_eq]
    rfl
  · intro size member
    obtain ⟨stored, inside, rfl⟩ := List.mem_map.mp member
    exact (all stored (perm.mem_iff.mp inside)).2

/-- VIEW writes its last byte behind 16 paths of 512 bytes, and VIEWACCESSREQUESTS its closing line
behind 110 rows, outside of the buffer. -/
theorem listings_leave_buffer :
    ¬(viewOutput crowdedIndex (fun _ => none) (fun _ => lit "2025-01-01 10:00") (lit "ann")
        []).Within outputSize ∧
      ¬(requestsOutput crowdedQueue (fun _ => lit "2025-01-01") (lit "ann") []).Within outputSize := by
  constructor
  · rw [viewOutput_within, ViewFits, if_neg (by decide)]
    change ¬RowsEnd 8092 8191 0
      ((viewedFiles crowdedIndex (fun _ => none) (lit "ann") false).map lineSize)
    rw [crowdedIndex_sizes]
    decide +kernel
  · rw [requestsOutput_within, RequestsFit]
    decide +kernel

end SharedFileSystem
