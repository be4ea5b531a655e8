import SharedFileSystem.Lib.Levels
import SharedFileSystem.Browsing
import SharedFileSystem.ListedFiles
import SharedFileSystem.ReplySteps

/-!
Browsing at the client. VIEWFOLDER prints into a buffer, of which one payload is sent; the user opens what stands
behind `[DIR]`, from the root on.
-/

namespace SharedFileSystem

open ByteText Cursor KeyedList Runs Levels

def dirLine (shown : Bytes) : Bytes := lit "  [DIR] " ++ shown

def nameLine (filename : Bytes) : Bytes := lit "  " ++ filename

namespace FolderTree

-- `char response[8192]`
def folderText (tree : FolderTree) (folder : Bytes) : Bytes :=
  (viewfolderOutput tree.names.index tree.table folder).text.take (outputSize - 1)

def serving (tree : FolderTree) (world : World) : World :=
  { world with folders := tree.names.folders, folderText := tree.folderText }

section

variable (tree : FolderTree) (world : World) (username : Bytes)

def screen (folder : Bytes) : Bytes := printReply ((tree.serving world).handleViewfolder username folder)

def ShowsFile (folder filename : Bytes) : Prop :=
  nameLine filename ∈ tokens isNewline (tree.screen world username folder)

def LeadsTo (folder next : Bytes) : Prop :=
  ∃ shown, shown.getLast? = some slash ∧
    dirLine shown ∈ tokens isNewline (tree.screen world username folder) ∧ next = folder ++ shown

def Browsed : Bytes → Prop := Relation.ReflTransGen (tree.LeadsTo world username) rootFolder

end

end FolderTree

def ScreenByte (c : UInt8) : Prop := c ≠ 0 ∧ c ≠ newline ∧ c ≠ soh

instance (c : UInt8) : Decidable (ScreenByte c) := inferInstanceAs (Decidable (_ ∧ _))

def ScreenText (text : Bytes) : Prop := ∀ c ∈ text, ScreenByte c

instance (text : Bytes) : Decidable (ScreenText text) := inferInstanceAs (Decidable (∀ c ∈ text, ScreenByte c))

/-- The arrays of VIEWFOLDER are large enough, no name ends a line on the screen, and every listing fits the
payload, where its last line end may be missing. -/
structure FolderTree.Viewable (tree : FolderTree) : Prop where
  folders : tree.table.count ≤ 1000
  files : tree.names.index.length ≤ 1000
  plainFolders : ∀ folder ∈ tree.names.folders, ScreenText folder
  plainFiles : ∀ entry ∈ tree.names.index, ScreenText entry.filename
  fits : ∀ folder ∈ tree.names.folders, (tree.folderText folder).length ≤ 1792

instance (tree : FolderTree) : Decidable tree.Viewable :=
  decidable_of_iff (tree.table.count ≤ 1000 ∧ tree.names.index.length ≤ 1000 ∧
      (∀ folder ∈ tree.names.folders, ScreenText folder) ∧
      (∀ entry ∈ tree.names.index, ScreenText entry.filename) ∧
      ∀ folder ∈ tree.names.folders, (tree.folderText folder).length ≤ 1792)
    ⟨fun ⟨folders, files, plainFolders, plainFiles, fits⟩ => ⟨folders, files, plainFolders, plainFiles, fits⟩,
      fun viewable => ⟨viewable.folders, viewable.files, viewable.plainFolders, viewable.plainFiles,
        viewable.fits⟩⟩

theorem folderName_level {parent name : Bytes} (closed : parent = [] ∨ parent.getLast? = some slash)
    (free : slash ∉ name) : folderName (parent ++ name) = parent := by
  rcases closed with rfl | closed
  · have all : name.reverse.dropWhile (· ≠ slash) = [] := by
      refine List.dropWhile_eq_nil_iff.mpr fun c member => ?_
      have other : c ≠ slash := by
        rintro rfl
        exact free (List.mem_reverse.mp member)
      simpa using other
    rw [List.nil_append, folderName, all, List.reverse_nil]
  · obtain ⟨front, rfl⟩ := List.getLast?_eq_some_iff.mp closed
    rw [List.append_assoc, List.singleton_append]
    exact (baseName_slash free front).2

theorem shownFolder_level {parent name : Bytes} (closed : parent.getLast? = some slash) (free : slash ∉ name) :
    shownFolder (parent ++ name ++ [slash]) = name ++ [slash] := by
  have whole : folderName (parent ++ name ++ [slash]) = parent ++ name ++ [slash] :=
    (baseName_slash List.not_mem_nil (parent ++ name)).2
  cases parent with
  | nil => simp at closed
  | cons c parent =>
      have ended : parent = [] ∨ parent.getLast? = some slash := by
        cases parent with
        | nil => exact Or.inl rfl
        | cons d parent => exact Or.inr (by simpa using closed)
      rw [shownFolder, whole, List.dropLast_concat, if_neg (by simp), List.cons_append, List.drop_succ_cons,
        List.drop_zero, folderName_level ended free, Nat.add_comm, List.cons_append, List.drop_succ_cons,
        List.append_assoc, List.drop_left]

def folderLines (folder : Bytes) (subfolders : List FolderEntry) (files : List FileEntry) : List Bytes :=
  [lit "Contents of " ++ folder ++ lit ":"] ++
    (if subfolders = [] then []
      else [[], lit "Folders:"] ++ subfolders.map fun entry => dirLine (shownFolder entry.folderPath)) ++
    (if files = [] then []
      else [[], lit "Files:"] ++ files.map fun entry => nameLine entry.filename) ++
    if files = [] ∧ subfolders = [] then [[], lit "(empty)"] else []

theorem group_text {out : Output UInt8} (title : Bytes) (rows : List Bytes)
    (room : ((out.advance title).advanceWhile (fun pos => 0 < roomLeft pos) rows).text.length < outputSize) :
    ((out.advance title).advanceWhile (fun pos => 0 < roomLeft pos) rows).text =
      out.text ++ title ++ rows.flatten := by
  have printed := Output.advanceWhile_text (fun pos => decide (0 < roomLeft pos))
    (rfl : (out.advance title).text = (out.advance title).text) rows
  rw [printed] at room ⊢
  refine (Output.printWhile_text _ _ rows).2.resolve_right fun stopped => ?_
  rw [folderGuard _ room.le, decide_eq_false_iff_not] at stopped
  exact stopped room

theorem le_group (out : Output UInt8) (title : Bytes) (rows : List Bytes) :
    out.text.length ≤
      ((out.advance title).advanceWhile (fun pos => 0 < roomLeft pos) rows).text.length := by
  have later := le_stop (fun pos => decide (0 < roomLeft pos)) (out.advance title).text.length
    (rows.map List.length)
  rw [Output.advanceWhile_length]
  rw [Output.advance, List.length_append] at later
  rw [Output.advance, List.length_append]
  omega

theorem folderPrinted_text {folder : Bytes} {subfolders : List FolderEntry} {files : List FileEntry}
    (room : (folderPrinted folder subfolders files).text.length < outputSize) :
    (folderPrinted folder subfolders files).text = unlines (folderLines folder subfolders files) := by
  have dirs : unlines (subfolders.map fun entry => dirLine (shownFolder entry.folderPath)) =
      (subfolders.map folderRow).flatten := unlines_map ..
  have names : unlines (files.map fun entry => nameLine entry.filename) = (files.map fileRow).flatten :=
    unlines_map ..
  have header : (Output.empty.advance (lit "Contents of " ++ folder ++ lit ":\n")).text =
      unlines [lit "Contents of " ++ folder ++ lit ":"] := by
    simp [Output.advance, Output.empty, unlines, lit, newline]
  rw [folderPrinted] at room ⊢
  rw [folderLines]
  generalize Output.empty.advance (lit "Contents of " ++ folder ++ lit ":\n") = out at room header
  by_cases noFolders : subfolders = []
  · by_cases noFiles : files = []
    · rw [if_pos ⟨noFiles, noFolders⟩, if_pos noFiles, if_pos noFolders, if_pos noFolders, if_pos noFiles,
        if_pos ⟨noFiles, noFolders⟩, Output.advance, header, List.append_nil, List.append_nil, unlines_append]
      rfl
    · rw [if_neg fun both => noFiles both.1, if_neg noFiles, if_pos noFolders] at room ⊢
      rw [if_pos noFolders, if_neg noFiles, if_neg fun both => noFiles both.1, group_text _ _ room, header,
        List.append_nil, List.append_nil, unlines_append, unlines_append, names, List.append_assoc]
      rfl
  · by_cases noFiles : files = []
    · rw [if_neg fun both => noFolders both.2, if_pos noFiles, if_neg noFolders] at room ⊢
      rw [if_neg noFolders, if_pos noFiles, if_neg fun both => noFolders both.2, group_text _ _ room, header,
        List.append_nil, List.append_nil, unlines_append, unlines_append, dirs, List.append_assoc]
      rfl
    · rw [if_neg fun both => noFiles both.1, if_neg noFiles, if_neg noFolders] at room ⊢
      have first := lt_of_le_of_lt (le_group _ _ _) room
      rw [if_neg noFolders, if_neg noFiles, if_neg fun both => noFiles both.1, group_text _ _ room,
        group_text _ _ first, header, List.append_nil, unlines_append, unlines_append, unlines_append,
        unlines_append, dirs, names]
      simp only [List.append_assoc]
      rfl

theorem ScreenText.append {front back : Bytes} (first : ScreenText front) (second : ScreenText back) :
    ScreenText (front ++ back) :=
  List.forall_mem_append.mpr ⟨first, second⟩

theorem shownFolder_subset (folder : Bytes) : shownFolder folder ⊆ folder := by
  rw [shownFolder]
  split
  · exact List.Subset.refl _
  · exact List.drop_subset _ _

theorem mem_folderLines {folder : Bytes} {subfolders : List FolderEntry} {files : List FileEntry} {line : Bytes}
    (member : line ∈ folderLines folder subfolders files) :
    line = lit "Contents of " ++ folder ++ lit ":" ∨
      line ∈ [[], lit "Folders:", lit "Files:", lit "(empty)"] ∨
        (∃ entry ∈ subfolders, dirLine (shownFolder entry.folderPath) = line) ∨
          ∃ entry ∈ files, nameLine entry.filename = line := by
  rw [folderLines] at member
  rcases List.mem_append.mp member with (group | empty)
  · rcases List.mem_append.mp group with (top | group)
    · rcases List.mem_append.mp top with (header | group)
      · exact Or.inl (List.mem_singleton.mp header)
      · split at group
        · exact absurd group List.not_mem_nil
        · rcases List.mem_append.mp group with title | row
          · exact Or.inr (Or.inl (by simp only [List.mem_cons] at title ⊢; tauto))
          · exact Or.inr (Or.inr (Or.inl (List.mem_map.mp row)))
    · split at group
      · exact absurd group List.not_mem_nil
      · rcases List.mem_append.mp group with title | row
        · exact Or.inr (Or.inl (by simp only [List.mem_cons] at title ⊢; tauto))
        · exact Or.inr (Or.inr (Or.inr (List.mem_map.mp row)))
  · split at empty
    · exact Or.inr (Or.inl (by simp only [List.mem_cons] at empty ⊢; tauto))
    · exact absurd empty List.not_mem_nil

theorem dirLine_mem {folder : Bytes} {subfolders : List FolderEntry} {files : List FileEntry}
    {entry : FolderEntry} (below : entry ∈ subfolders) :
    dirLine (shownFolder entry.folderPath) ∈ folderLines folder subfolders files := by
  rw [folderLines, if_neg (List.ne_nil_of_mem below)]
  refine List.mem_append_left _ (List.mem_append_left _ (List.mem_append_right _ (List.mem_append_right _ ?_)))
  exact List.mem_map_of_mem below

theorem nameLine_mem {folder : Bytes} {subfolders : List FolderEntry} {files : List FileEntry}
    {entry : FileEntry} (inside : entry ∈ files) :
    nameLine entry.filename ∈ folderLines folder subfolders files := by
  rw [folderLines, if_neg (List.ne_nil_of_mem inside)]
  refine List.mem_append_left _ (List.mem_append_right _ (List.mem_append_right _ ?_))
  exact List.mem_map_of_mem inside

theorem folderLines_plain {folder : Bytes} {subfolders : List FolderEntry} {files : List FileEntry}
    (here : ScreenText folder) (below : ∀ entry ∈ subfolders, ScreenText entry.folderPath)
    (inside : ∀ entry ∈ files, ScreenText entry.filename) :
    ∀ line ∈ folderLines folder subfolders files, ScreenText line := by
  have header : ScreenText (lit "Contents of ") := by decide +kernel
  have colon : ScreenText (lit ":") := by decide +kernel
  have dir : ScreenText (lit "  [DIR] ") := by decide +kernel
  have indent : ScreenText (lit "  ") := by decide +kernel
  have titles : ∀ line ∈ [[], lit "Folders:", lit "Files:", lit "(empty)"], ScreenText line := by decide +kernel
  intro line member
  rcases mem_folderLines member with rfl | title | ⟨entry, listed, rfl⟩ | ⟨entry, listed, rfl⟩
  · exact (header.append here).append colon
  · exact titles line title
  · exact dir.append fun c char => below entry listed c (shownFolder_subset _ char)
  · exact indent.append (inside entry listed)

theorem folderLines_end (folder : Bytes) (subfolders : List FolderEntry) (files : List FileEntry) :
    ∃ front start c, folderLines folder subfolders files = front ++ [start ++ [c]] := by
  have ended (front : List Bytes) {last : Bytes} (filled : last ≠ []) :
      ∃ lines start c, front ++ [last] = lines ++ [start ++ [c]] := by
    obtain ⟨start, c, rfl⟩ := (List.eq_nil_or_concat' last).resolve_left filled
    exact ⟨front, start, c, rfl⟩
  rw [folderLines]
  by_cases noFiles : files = []
  · by_cases noFolders : subfolders = []
    · rw [if_pos noFolders, if_pos noFiles, if_pos ⟨noFiles, noFolders⟩]
      exact @ended ([lit "Contents of " ++ folder ++ lit ":"] ++ [] ++ [] ++ [[]]) (lit "(empty)") (by decide)
    · obtain ⟨front, last, rfl⟩ := (List.eq_nil_or_concat' subfolders).resolve_left noFolders
      rw [if_neg noFolders, if_pos noFiles, if_neg fun both => noFolders both.2, List.map_append,
        ← List.append_assoc, ← List.append_assoc, List.append_nil, List.append_nil]
      exact ended _ (by simp [dirLine, lit])
  · have some (both : files = [] ∧ subfolders = []) : False := noFiles both.1
    rw [if_neg noFiles, if_neg some, List.append_nil]
    obtain ⟨front, last, rfl⟩ := (List.eq_nil_or_concat' files).resolve_left noFiles
    rw [List.map_append, ← List.append_assoc, ← List.append_assoc]
    exact ended _ (by simp [nameLine, lit])

theorem tokens_lines {lines : List Bytes} (plain : ∀ line ∈ lines, newline ∉ line) :
    tokens isNewline (unlines lines) = lines.filter (· ≠ []) := by
  induction lines with
  | nil => rfl
  | cons line lines ih =>
      obtain ⟨here, later⟩ := List.forall_mem_cons.mp plain
      rw [unlines_cons, tokens_append isNewline _ _ (by decide), ih later]
      by_cases blank : line = []
      · simp [blank, tokens, tokensFrom]
      · rw [tokens_last isNewline line blank (eq_of_free here), List.filter_cons_of_pos (by simpa using blank)]
        rfl

theorem mem_indexGetFilesInFolder {index : FileIndex} (room : index.length ≤ 1000) {folder : Bytes}
    {entry : FileEntry} : entry ∈ indexGetFilesInFolder index folder 1000 ↔
      entry ∈ index ∧ entry.folderPath = normalizeFolderPath folder := by
  have all := @indexGetAllFiles_perm index _ (le_max_right ((List.range indexHashSize).flatMap fun hash =>
    index.filter fun entry => indexHash entry.filename = hash).length index.length)
  rw [indexGetAllFiles, List.take_of_length_le (le_max_left ..)] at all
  have short : (((List.range indexHashSize).flatMap fun hash =>
      index.filter fun entry => indexHash entry.filename = hash).filter fun entry =>
        entry.folderPath = normalizeFolderPath folder).length ≤ 1000 :=
    (List.length_filter_le ..).trans (all.length_eq.trans_le room)
  rw [indexGetFilesInFolder, List.take_of_length_le short, List.mem_filter, all.mem_iff, decide_eq_true_iff]

section

variable {tree : FolderTree} (sound : tree.Sound) (viewable : tree.Viewable) (world : World) {username : Bytes}
  (user : WireField 64 username) {folder : Bytes} (known : folder ∈ tree.names.folders)
include sound viewable known

omit known in
theorem FolderTree.subfolder_known {entry : FolderEntry} (member : entry ∈ tree.table.getSubfolders folder 1000) :
    entry.folderPath ∈ tree.names.folders := by
  have below := (sound.hashed.getSubfolders_iff viewable.folders folder entry.folderPath).mp ⟨entry, member, rfl⟩
  exact (sound.same _).mp below.1

include user

/-- The screen has the lines of the listing. -/
theorem FolderTree.screen_lines : tokens isNewline (tree.screen world username folder) =
    (folderLines folder (tree.table.getSubfolders folder 1000)
      (indexGetFilesInFolder tree.names.index folder 1000)).filter (· ≠ []) := by
  have normal := sound.normal folder known
  have listed : indexFolderExists tree.names.folders folder = true := by
    rw [indexFolderExists, normal]
    exact decide_eq_true known
  have indexed : tree.table.folderExists folder = true := by
    rw [sound.hashed.folderExists_iff, normal]
    exact (sound.same folder).mpr known
  have size : outputSize - 1 = 8191 := rfl
  have fits := viewable.fits folder known
  have room : (folderPrinted folder (tree.table.getSubfolders folder 1000)
      (indexGetFilesInFolder tree.names.index folder 1000)).text.length ≤ 1792 := by
    rw [FolderTree.folderText, viewfolderOutput, if_pos indexed, List.length_take, size] at fits
    omega
  have text : tree.folderText folder = unlines (folderLines folder (tree.table.getSubfolders folder 1000)
      (indexGetFilesInFolder tree.names.index folder 1000)) := by
    rw [FolderTree.folderText, viewfolderOutput, if_pos indexed, List.take_of_length_le (by omega)]
    exact folderPrinted_text (lt_of_le_of_lt room (by decide))
  have plain := @folderLines_plain folder (tree.table.getSubfolders folder 1000)
    (indexGetFilesInFolder tree.names.index folder 1000) (viewable.plainFolders folder known)
    (fun entry member => viewable.plainFolders _ (FolderTree.subfolder_known sound viewable member))
    (fun entry member => viewable.plainFiles entry ((mem_indexGetFilesInFolder viewable.files).mp member).1)
  obtain ⟨front, start, c, shape⟩ := folderLines_end folder (tree.table.getSubfolders folder 1000)
    (indexGetFilesInFolder tree.names.index folder 1000)
  rw [text] at fits
  have oneLine : newline ∉ start ++ [c] := fun member =>
    (plain _ (by rw [shape]; simp) newline member).2.1 rfl
  have last : c ≠ newline := fun same => oneLine (by simp [same])
  have closed : unlines (front ++ [start ++ [c]]) = unlines front ++ start ++ [c, newline] := by
    rw [unlines_concat]
    simp
  rw [FolderTree.screen, World.handleViewfolder, FolderTree.serving, if_pos listed]
  dsimp only
  rw [text, printReply_plain user
    (unlines_without (by decide) fun line member char => (plain line member 0 char).1 rfl)
    (unlines_without (by decide) fun line member char => (plain line member soh char).2.2 rfl), shape, closed]
  · have short : (unlines front ++ start).length ≤ 1790 := by
      rw [shape, closed, List.length_append] at fits
      exact Nat.le_of_add_le_add_right fits
    rw [tokens_arriving last short, ← closed, ← shape,
      tokens_lines fun line member char => (plain line member newline char).2.1 rfl]
  · rw [shape, closed, arriving]
    intro none
    have first := congrArg List.length none
    rw [List.length_append, List.length_take, List.length_append, List.length_nil] at first
    simp at first

theorem FolderTree.showsFile {entry : FileEntry} (indexed : entry ∈ tree.names.index)
    (inside : entry.folderPath = folder) : tree.ShowsFile world username folder entry.filename := by
  have listed : entry ∈ indexGetFilesInFolder tree.names.index folder 1000 :=
    (mem_indexGetFilesInFolder viewable.files).mpr ⟨indexed, by rw [inside, sound.normal folder known]⟩
  have filled : nameLine entry.filename ≠ [] := by simp [nameLine, lit]
  rw [FolderTree.ShowsFile, FolderTree.screen_lines sound viewable world user known]
  exact List.mem_filter.mpr ⟨nameLine_mem listed, decide_eq_true filled⟩

theorem FolderTree.dirLine_shown {shown : Bytes} (closed : shown.getLast? = some slash) :
    dirLine shown ∈ tokens isNewline (tree.screen world username folder) ↔
      ∃ entry ∈ tree.table.getSubfolders folder 1000, shownFolder entry.folderPath = shown := by
  have filled : dirLine shown ≠ [] := by simp [dirLine, lit]
  have indented : (dirLine shown).head? = some 32 := rfl
  rw [FolderTree.screen_lines sound viewable world user known, List.mem_filter, decide_eq_true_iff,
    and_iff_left filled]
  constructor
  · intro member
    rcases mem_folderLines member with header | title | ⟨entry, below, same⟩ | ⟨entry, inside, same⟩
    · rw [header] at indented
      simp [lit] at indented
    · have other : ∀ line ∈ [[], lit "Folders:", lit "Files:", lit "(empty)"], line.head? ≠ some 32 := by decide
      exact absurd indented (other _ title)
    · exact ⟨entry, below, List.append_cancel_left same⟩
    · have level := sound.oneLevel entry ((mem_indexGetFilesInFolder viewable.files).mp inside).1
      have split : lit "  [DIR] " = lit "  " ++ lit "[DIR] " := by decide
      have name : entry.filename = lit "[DIR] " ++ shown := by
        rw [nameLine, dirLine, split, List.append_assoc] at same
        exact List.append_cancel_left same
      rw [name] at level
      exact absurd (List.mem_append_right _ (List.mem_of_getLast? closed)) level
  · rintro ⟨entry, below, rfl⟩
    exact dirLine_mem below

theorem FolderTree.leadsTo_iff (closed : folder.getLast? = some slash) (next : Bytes) :
    tree.LeadsTo world username folder next ↔ Opens slash (· ∈ tree.names.folders) folder next := by
  obtain ⟨front, rfl⟩ := List.getLast?_eq_some_iff.mp closed
  constructor
  · rintro ⟨shown, ended, line, rfl⟩
    obtain ⟨entry, listed, rfl⟩ := (FolderTree.dirLine_shown sound viewable world user known ended).mp line
    obtain ⟨indexed, direct⟩ :=
      (sound.hashed.getSubfolders_iff viewable.folders _ entry.folderPath).mp ⟨entry, listed, rfl⟩
    obtain ⟨name, free, path⟩ := (FolderTable.directChild_slash front entry.folderPath).mp direct
    have shape : entry.folderPath = front ++ [slash] ++ name ++ [slash] := by simp [path]
    rw [shape, sound.same] at indexed
    rw [shape, shownFolder_level closed free, ← List.append_assoc]
    exact ⟨⟨name, free, rfl⟩, indexed⟩
  · rintro ⟨⟨name, free, rfl⟩, indexed⟩
    have direct : FolderTable.directChild (front ++ [slash]) (front ++ [slash] ++ name ++ [slash]) = true :=
      (FolderTable.directChild_slash front _).mpr ⟨name, free, by simp⟩
    obtain ⟨entry, below, path⟩ :=
      (sound.hashed.getSubfolders_iff viewable.folders _ _).mpr ⟨(sound.same _).mpr indexed, direct⟩
    refine ⟨name ++ [slash], by simp, ?_, List.append_assoc ..⟩
    refine (FolderTree.dirLine_shown sound viewable world user known (by simp)).mpr ⟨entry, below, ?_⟩
    rw [path, shownFolder_level closed free]

omit known in
theorem FolderTree.browsed_iff (folder : Bytes) : tree.Browsed world username folder ↔ folder = rootFolder ∨
    rootFolder <+: folder ∧ folder.getLast? = some slash ∧
      ∀ front, Above slash rootFolder folder front → front ∈ tree.names.folders := by
  rw [← reaches_iff]
  have ends (folder : Bytes) (reached : Relation.ReflTransGen (Opens slash (· ∈ tree.names.folders)) rootFolder
      folder) : folder ∈ tree.names.folders ∧ folder.getLast? = some slash := by
    cases reached with
    | refl => exact ⟨sound.rooted, rfl⟩
    | tail _ opened =>
        obtain ⟨⟨name, _, rfl⟩, known⟩ := opened
        exact ⟨known, by simp⟩
  constructor
  · intro browsed
    induction browsed with
    | refl => exact .refl
    | tail _ leads ih =>
        obtain ⟨known, closed⟩ := ends _ ih
        exact .tail ih ((FolderTree.leadsTo_iff sound viewable world user known closed _).mp leads)
  · intro reached
    induction reached with
    | refl => exact .refl
    | tail earlier opened ih =>
        obtain ⟨known, closed⟩ := ends _ earlier
        exact .tail ih ((FolderTree.leadsTo_iff sound viewable world user known closed _).mpr opened)

end

def deepFile : List TreeEvent :=
  [.names (.register exampleSs1
    (lit "host=127.0.0.1,client_port=6001,storage=s1,files=/a/b/notes|ann|0|0|0"))]

def upperFolder : List TreeEvent := deepFile ++ [.createFolder (lit "/a") .success]

end SharedFileSystem
