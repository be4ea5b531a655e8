import SharedFileSystem.NameServer
import SharedFileSystem.Lib.Paths

/-!
Where the storage server keeps the content and the record of a file, and the paths that the name
server puts into its requests about an index entry.
-/

namespace SharedFileSystem

open ByteText Paths

abbrev Disk := List Bytes → Option Bytes

def filesDir (storage : List Bytes) : List Bytes := lit "files" :: storage

def metadataDir (storage : List Bytes) : List Bytes := lit "metadata" :: storage

def metaSuffix : Bytes := lit ".meta"

def contentPath (storage : List Bytes) (filename : Bytes) : List Bytes :=
  resolve (filesDir storage) (normalizeFilename filename)

def recordPath (storage : List Bytes) (filename : Bytes) : List Bytes :=
  resolve (metadataDir storage) (normalizeFilename filename ++ metaSuffix)

theorem resolve_normalizeFilename (directory : List Bytes) (filename : Bytes) :
    resolve directory (normalizeFilename filename) = resolve directory filename := by
  cases filename with
  | nil => rfl
  | cons c rest =>
      by_cases leading : c = slash
      · subst leading
        simp [normalizeFilename, resolve_slash]
      · simp [normalizeFilename, leading]

theorem normalizeFilename_append (front rest : Bytes) (nonempty : front ≠ []) :
    normalizeFilename (front ++ rest) = normalizeFilename front ++ rest := by
  cases front with
  | nil => contradiction
  | cons c front =>
      by_cases leading : c = slash
      · simp [normalizeFilename, leading]
      · simp [normalizeFilename, leading]

theorem ordinary_meta {name : Bytes} (proper : Ordinary name) : Ordinary (name ++ metaSuffix) := by
  have size : (name ++ metaSuffix).length = name.length + 5 := List.length_append
  have free : slash ∉ metaSuffix := by decide
  refine ⟨?_, ?_, ?_, ?_⟩
  · simp [proper.nonempty]
  · simp [proper.oneComponent, free]
  · intro same
    rw [same] at size
    simp at size
  · intro same
    rw [same] at size
    simp at size

theorem resolve_fullPath (directory : List Bytes) (entry : FileEntry) (suffix : Bytes) :
    resolve directory (buildFullPath entry ++ suffix) =
      resolve (resolve directory entry.folderPath) (entry.filename ++ suffix) := by
  unfold buildFullPath
  split
  · rename_i root
    rw [root]
    rfl
  · split
    · rename_i last
      obtain ⟨front, whole⟩ := List.getLast?_eq_some_iff.mp last
      rw [whole, List.dropLast_concat, List.append_assoc, List.cons_append, resolve_append,
        resolve_folder]
    · rw [List.append_assoc, List.cons_append, resolve_append]

theorem buildFullPath_ne_nil {entry : FileEntry} (proper : Ordinary entry.filename) :
    buildFullPath entry ≠ [] := by
  unfold buildFullPath
  split
  · exact proper.nonempty
  · split
    · simp
    · simp

theorem contentPath_fullPath (storage : List Bytes) {entry : FileEntry}
    (proper : Ordinary entry.filename) :
    contentPath storage (buildFullPath entry) =
      entry.filename :: resolve (filesDir storage) entry.folderPath := by
  have whole := resolve_fullPath (filesDir storage) entry []
  rw [List.append_nil, List.append_nil] at whole
  rw [contentPath, resolve_normalizeFilename, whole, resolve_ordinary _ proper]

theorem recordPath_fullPath (storage : List Bytes) {entry : FileEntry}
    (proper : Ordinary entry.filename) :
    recordPath storage (buildFullPath entry) =
      (entry.filename ++ metaSuffix) :: resolve (metadataDir storage) entry.folderPath := by
  rw [recordPath, ← normalizeFilename_append _ _ (buildFullPath_ne_nil proper),
    resolve_normalizeFilename, resolve_fullPath, resolve_ordinary _ (ordinary_meta proper)]

theorem contentPath_ordinary (storage : List Bytes) {name : Bytes} (proper : Ordinary name) :
    contentPath storage name = name :: filesDir storage := by
  rw [contentPath, resolve_normalizeFilename, resolve_ordinary _ proper]

theorem recordPath_ordinary (storage : List Bytes) {name : Bytes} (proper : Ordinary name) :
    recordPath storage name = (name ++ metaSuffix) :: metadataDir storage := by
  rw [recordPath, ← normalizeFilename_append _ _ proper.nonempty, resolve_normalizeFilename,
    resolve_ordinary _ (ordinary_meta proper)]

inductive EntryRequest where
  -- `fetch_acl_from_ss`
  | getAcl
  -- `fetch_file_content_from_ss`, for EXEC
  | getFile
  -- `load_owner_from_ss`
  | getMeta
  -- a job that a recovery queues
  | update
deriving DecidableEq, Repr

def EntryRequest.path (entry : FileEntry) : EntryRequest → Bytes
  | .getAcl => buildFullPath entry
  | .getFile | .getMeta | .update => entry.filename

def handleExec (index : FileIndex) (fetchAcl : Bytes → Option ACL)
    (fetchContent : Bytes → Option Bytes) (username filename : Bytes) : Option Bytes :=
  match indexLookupFile index filename with
  | none => none
  | some entry =>
      match fetchAcl (EntryRequest.getAcl.path entry) with
      | none => none
      | some acl =>
          if aclCheckRead acl username then fetchContent (EntryRequest.getFile.path entry) else none

theorem recoveryJobs_path {index : FileIndex} {source recovered : Bytes} {job : SyncJob}
    (queued : job ∈ recoveryJobs index source recovered) :
    ∃ entry ∈ index, job.filename = EntryRequest.update.path entry := by
  obtain ⟨entry, kept, rfl⟩ := List.mem_map.mp queued
  have listed := List.mem_of_mem_take (List.mem_of_mem_filter kept)
  obtain ⟨hash, _, member⟩ := List.mem_flatMap.mp listed
  exact ⟨entry, List.mem_of_mem_filter member, rfl⟩

def SameStored (storage : List Bytes) (first second : Bytes) : Prop :=
  contentPath storage first = contentPath storage second ∧
    recordPath storage first = recordPath storage second

def InRoot (storage : List Bytes) (folder : Bytes) : Prop :=
  resolve (filesDir storage) folder = filesDir storage ∧
    resolve (metadataDir storage) folder = metadataDir storage

instance (storage : List Bytes) (folder : Bytes) : Decidable (InRoot storage folder) :=
  inferInstanceAs (Decidable (_ ∧ _))

theorem sameStored_fullPath_iff (storage : List Bytes) {entry : FileEntry}
    (proper : Ordinary entry.filename) :
    SameStored storage entry.filename (buildFullPath entry) ↔ InRoot storage entry.folderPath := by
  rw [SameStored, contentPath_fullPath storage proper, recordPath_fullPath storage proper,
    contentPath_ordinary storage proper, recordPath_ordinary storage proper, List.cons_inj_right,
    List.cons_inj_right]
  constructor
  · rintro ⟨files, records⟩
    exact ⟨files.symm, records.symm⟩
  · rintro ⟨files, records⟩
    exact ⟨files.symm, records.symm⟩

theorem handleExec_content {index : FileIndex} {fetchAcl : Bytes → Option ACL}
    {fetchContent : Bytes → Option Bytes} {username filename script : Bytes} {entry : FileEntry}
    (found : indexLookupFile index filename = some entry)
    (ran : handleExec index fetchAcl fetchContent username filename = some script) :
    fetchContent entry.filename = some script := by
  unfold handleExec at ran
  rw [found] at ran
  dsimp only at ran
  split at ran
  · simp at ran
  · split at ran
    · exact ran
    · simp at ran

/-- Every request about an entry names the file that GET_ACL names, and EXEC runs that file, exactly
where the folder of the entry is the root. -/
theorem requests_name_entry_iff (storage : List Bytes) (entry : FileEntry)
    (proper : Ordinary entry.filename) :
    ((∀ request : EntryRequest, SameStored storage (request.path entry) (buildFullPath entry)) ∧
        ∀ (disk : Disk) (index : FileIndex) (fetchAcl : Bytes → Option ACL)
          (username filename script : Bytes), indexLookupFile index filename = some entry →
          handleExec index fetchAcl (fun path => disk (contentPath storage path)) username filename =
            some script →
          disk (contentPath storage (buildFullPath entry)) = some script) ↔
      InRoot storage entry.folderPath := by
  rw [← sameStored_fullPath_iff storage proper]
  constructor
  · exact fun ⟨requests, _⟩ => requests .getFile
  · intro same
    refine ⟨?_, ?_⟩
    · intro request
      cases request with
      | getAcl => exact ⟨rfl, rfl⟩
      | getFile | getMeta | update => exact same
    · intro disk index fetchAcl username filename script found ran
      rw [← same.1]
      exact handleExec_content found ran

def scriptEntry (folder : String) : FileEntry :=
  newEntry (lit folder, lit "run.sh") (lit "ann") ⟨lit "127.0.0.1", 9001, lit "ss1"⟩

theorem requests_name_entry_root :
    SameStored [lit "srv"] (EntryRequest.getAcl.path (scriptEntry "/")) (buildFullPath (scriptEntry "/")) ∧
      SameStored [lit "srv"] (EntryRequest.getFile.path (scriptEntry "/"))
        (buildFullPath (scriptEntry "/")) ∧
      SameStored [lit "srv"] (EntryRequest.getMeta.path (scriptEntry "/"))
        (buildFullPath (scriptEntry "/")) ∧
      SameStored [lit "srv"] (EntryRequest.update.path (scriptEntry "/"))
        (buildFullPath (scriptEntry "/")) := by
  have named := ((requests_name_entry_iff [lit "srv"] (scriptEntry "/") (by decide)).mpr (by decide)).1
  exact ⟨named .getAcl, named .getFile, named .getMeta, named .update⟩

def exampleScripts : Disk := fun path =>
  if path = [lit "run.sh", lit "docs", lit "files", lit "srv"] then some (lit "echo docs")
  else if path = [lit "run.sh", lit "files", lit "srv"] then some (lit "echo root")
  else none

-- ann may read `/docs/run.sh` and nothing else; EXEC runs the script in the root
theorem exec_runs_unchecked_script :
    handleExec [scriptEntry "/docs/"]
        (fun path => if path = lit "/docs/run.sh" then some (aclInit (lit "ann")) else none)
        (fun path => exampleScripts (contentPath [lit "srv"] path)) (lit "ann")
        (lit "/docs/run.sh") = some (lit "echo root") ∧
      exampleScripts (contentPath [lit "srv"] (buildFullPath (scriptEntry "/docs/"))) =
        some (lit "echo docs") ∧
      ¬SameStored [lit "srv"] (EntryRequest.getFile.path (scriptEntry "/docs/"))
        (EntryRequest.getAcl.path (scriptEntry "/docs/")) := by
  refine ⟨by decide +kernel, by decide +kernel, ?_⟩
  intro same
  exact absurd same.1 (by decide +kernel)

end SharedFileSystem
