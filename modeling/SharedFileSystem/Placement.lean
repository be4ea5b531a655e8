import SharedFileSystem.CreateRace

/-!
Where new files and new folders are placed (`nm/registry.c`): the candidates for a file in the order of their
load, and the one server for a folder, found in a single pass over the registry.
-/

namespace SharedFileSystem

open ByteText KeyedList

structure RegisteredParty where
  role : Bytes
  entry : RegistryEntry
deriving DecidableEq, Repr

def RegisteredParty.key (party : RegisteredParty) : Bytes × Bytes := (party.role, party.entry.username)

def ssRole : Bytes := lit "SS"

def serversOf (parties : List RegisteredParty) : List RegistryEntry :=
  (parties.filter fun party => party.role = ssRole).map RegisteredParty.entry

/-- The latest registration first; a storage server that registers again keeps its entry. -/
structure Registry where
  parties : List RegisteredParty
  short : ∀ party ∈ parties, party.entry.username.length ≤ 63
  distinct : ((serversOf parties).map RegistryEntry.username).Nodup

def Registry.servers (registry : Registry) : List RegistryEntry := serversOf registry.parties

def registryAddParty (parties : List RegisteredParty) (role username payload : Bytes) :
    List RegisteredParty :=
  if parties.any (fun party => party.key = (role, username)) then
    modifyKey RegisteredParty.key (role, username)
      (fun party => { party with entry := { party.entry with payload := payload.take 255 } }) parties
  else ⟨role.take 15, username.take 63, payload.take 255, 0⟩ :: parties

def RegistryEntry.isBackup (entry : RegistryEntry) : Bool := backupSuffix.isSuffixOf entry.username

-- the loop of `registry_get_least_loaded_ss`
def leastLoadedStep (best : Option RegistryEntry) (party : RegisteredParty) : Option RegistryEntry :=
  if party.role = ssRole then
    match best with
    | none => some party.entry
    | some held => if party.entry.fileCount < held.fileCount then some party.entry else some held
  else best

def registryGetLeastLoadedSs (parties : List RegisteredParty) : Option Bytes :=
  (parties.foldl leastLoadedStep none).map fun best => best.username.take 63

def registryCandidates (parties : List RegisteredParty) (maxEntries : Int) : List Bytes :=
  if maxEntries ≤ 0 then [] else registryGetSsCandidates (serversOf parties) maxEntries.toNat

theorem serverNames_eq (parties : List RegisteredParty) :
    (serversOf parties).map RegistryEntry.username =
      ((parties.map RegisteredParty.key).filter fun key => key.1 = ssRole).map Prod.snd := by
  rw [List.filter_map, List.map_map, serversOf, List.map_map]
  rfl

theorem ssRole_of_take {role : Bytes} (named : role.take 15 = ssRole) : role = ssRole := by
  have short := congrArg List.length named
  have size : ssRole.length = 2 := rfl
  rw [List.length_take, size] at short
  rwa [List.take_of_length_le (by omega)] at named

def Registry.empty : Registry := ⟨[], by simp, List.nodup_nil⟩

def Registry.add (registry : Registry) (role username payload : Bytes) (fits : username.length ≤ 63) :
    Registry where
  parties := registryAddParty registry.parties role username payload
  short := by
    rw [registryAddParty]
    split
    · intro party member
      rcases mem_modifyKey RegisteredParty.key member with old | ⟨old, inside, _, rfl⟩
      · exact registry.short party old
      · exact registry.short old inside
    · intro party member
      rcases List.mem_cons.mp member with rfl | old
      · exact List.length_take_le 63 username
      · exact registry.short party old
  distinct := by
    have kept := registry.distinct
    rw [serverNames_eq] at kept ⊢
    rw [registryAddParty]
    split
    · have keeps (party : RegisteredParty) : RegisteredParty.key { party with
          entry := { party.entry with payload := payload.take 255 } } = party.key := rfl
      rw [map_modifyKey RegisteredParty.key keeps]
      exact kept
    · rename_i unknown
      rw [List.map_cons, List.filter_cons]
      split
      · rename_i named
        refine List.nodup_cons.mpr ⟨?_, kept⟩
        intro member
        obtain ⟨⟨role', name⟩, inside, same⟩ := List.mem_map.mp member
        obtain ⟨known, server⟩ := List.mem_filter.mp inside
        obtain ⟨party, listed, key⟩ := List.mem_map.mp known
        have roles : role' = role :=
          (of_decide_eq_true server).trans (ssRole_of_take (of_decide_eq_true named)).symm
        have names : name = username := same.trans (List.take_of_length_le fits)
        exact unknown (List.any_eq_true.mpr ⟨party, listed, by simp [key, roles, names]⟩)
      · exact kept

theorem serversOf_modifyKey (parties : List RegisteredParty) (username : Bytes)
    (change : RegistryEntry → RegistryEntry) :
    serversOf (modifyKey RegisteredParty.key (ssRole, username)
        (fun party => { party with entry := change party.entry }) parties) =
      modifyKey RegistryEntry.username username change (serversOf parties) := by
  induction parties with
  | nil => rfl
  | cons party rest ih =>
      by_cases server : party.role = ssRole
      · by_cases named : party.entry.username = username
        · have hit : party.key = (ssRole, username) := by rw [RegisteredParty.key, server, named]
          rw [modifyKey, if_pos hit]
          simp [serversOf, server, modifyKey, named]
        · have missed : party.key ≠ (ssRole, username) := fun same => named (congrArg Prod.snd same)
          rw [modifyKey, if_neg missed]
          simp only [serversOf] at ih ⊢
          simp [server, modifyKey, named, ih]
      · have missed : party.key ≠ (ssRole, username) := fun same => server (congrArg Prod.fst same)
        rw [modifyKey, if_neg missed]
        simp only [serversOf] at ih ⊢
        simp [server, ih]

theorem serversOf_add (parties : List RegisteredParty) (username payload : Bytes) :
    serversOf (registryAddParty parties ssRole username payload) =
      registryAdd (serversOf parties) username payload := by
  have known : (parties.any fun party => party.key = (ssRole, username)) =
      (serversOf parties).any fun entry => entry.username = username := by
    simp [serversOf, RegisteredParty.key]
  rw [registryAddParty, registryAdd, known]
  split
  · exact serversOf_modifyKey parties username fun entry => { entry with payload := payload.take 255 }
  · rfl

instance : Std.Total candidateBefore where
  total first second := by
    rcases lt_trichotomy first.fileCount second.fileCount with less | same | more
    · exact Or.inl (Or.inl less)
    · rcases List.le_total first.username second.username with before | after
      · exact Or.inl (Or.inr ⟨same, before⟩)
      · exact Or.inr (Or.inr ⟨same.symm, after⟩)
    · exact Or.inr (Or.inl more)

instance : IsTrans RegistryEntry candidateBefore where
  trans first second third := by
    rintro (less | ⟨same, before⟩) (later | ⟨equal, after⟩)
    · exact Or.inl (less.trans later)
    · exact Or.inl (equal ▸ less)
    · exact Or.inl (same ▸ later)
    · exact Or.inr ⟨same.trans equal, List.le_trans before after⟩

def Registry.ranked (registry : Registry) : List RegistryEntry :=
  (registry.servers.filter fun entry => !entry.isBackup).insertionSort candidateBefore

theorem Registry.mem_ranked {registry : Registry} {entry : RegistryEntry} :
    entry ∈ registry.ranked ↔ entry ∈ registry.servers ∧ entry.isBackup = false := by
  rw [ranked, List.mem_insertionSort, List.mem_filter, Bool.not_eq_true']

theorem Registry.servers_short {registry : Registry} {entry : RegistryEntry}
    (member : entry ∈ registry.servers) : entry.username.length ≤ 63 := by
  obtain ⟨party, inside, rfl⟩ := List.mem_map.mp member
  exact registry.short party (List.mem_filter.mp inside).1

theorem Registry.candidates_eq (registry : Registry) (maxEntries : Int) :
    registryCandidates registry.parties maxEntries =
      (registry.ranked.take maxEntries.toNat).map RegistryEntry.username := by
  have whole : ∀ entry ∈ registry.ranked.take maxEntries.toNat, entry.username.take 63 = entry.username :=
    fun entry member => List.take_of_length_le
      (servers_short (mem_ranked.mp (List.mem_of_mem_take member)).1)
  rw [registryCandidates]
  split
  · rename_i none
    rw [Int.toNat_of_nonpos none]
    rfl
  · exact List.map_congr_left whole

theorem Registry.ranked_head {registry : Registry} {first : RegistryEntry}
    (head : registry.ranked.head? = some first) :
    first ∈ registry.servers ∧ first.isBackup = false ∧
      ∀ other ∈ registry.servers, other.isBackup = false → candidateBefore first other := by
  obtain ⟨rest, split⟩ := List.head?_eq_some_iff.mp head
  have member : first ∈ registry.ranked := by simp [split]
  refine ⟨(mem_ranked.mp member).1, (mem_ranked.mp member).2, ?_⟩
  intro other inside original
  have ranked : other ∈ registry.ranked := mem_ranked.mpr ⟨inside, original⟩
  have sorted := List.pairwise_insertionSort candidateBefore
    (registry.servers.filter fun entry => !entry.isBackup)
  change registry.ranked.Pairwise candidateBefore at sorted
  rw [split] at ranked sorted
  rcases List.mem_cons.mp ranked with rfl | later
  · exact Or.inr ⟨rfl, List.le_refl _⟩
  · exact List.rel_of_pairwise_cons sorted later

theorem leastLoaded_argmin (parties : List RegisteredParty) :
    parties.foldl leastLoadedStep none = (serversOf parties).argmin RegistryEntry.fileCount := by
  induction parties using List.reverseRecOn with
  | nil => rfl
  | append_singleton front party ih =>
      have split : serversOf (front ++ [party]) = serversOf front ++ serversOf [party] := by
        simp [serversOf]
      rw [List.foldl_append, List.foldl_cons, List.foldl_nil, ih, split]
      by_cases server : party.role = ssRole
      · have last : serversOf [party] = [party.entry] := by simp [serversOf, server]
        rw [last, List.argmin_concat]
        cases (serversOf front).argmin RegistryEntry.fileCount <;> exact if_pos server
      · have last : serversOf [party] = [] := by simp [serversOf, server]
        rw [last, List.append_nil]
        exact if_neg server

/-- The candidates are the servers that are no backups, each once and by their load and name, and the server
for a folder is the first of them. -/
structure PlacementsAgree (registry : Registry) : Prop where
  ranked : ∃ ranked : List RegistryEntry,
    ranked.Perm (registry.servers.filter fun entry => !entry.isBackup) ∧ ranked.Pairwise candidateBefore ∧
      (ranked.map RegistryEntry.username).Nodup ∧ ∀ maxEntries,
        registryCandidates registry.parties maxEntries =
          (ranked.take maxEntries.toNat).map RegistryEntry.username
  first : ∀ maxEntries, 0 < maxEntries →
    registryGetLeastLoadedSs registry.parties = (registryCandidates registry.parties maxEntries).head?
  original : ∀ server, registryGetLeastLoadedSs registry.parties = some server →
    backupSuffix.isSuffixOf server = false

/-- The latest registered of the servers with the fewest files is no backup and comes first by name among
those that are none. -/
def LeastIsFirst (registry : Registry) : Prop :=
  registry.servers = [] ∨ ∃ least ∈ registry.servers, least.isBackup = false ∧
    ∀ other ∈ registry.servers, least.fileCount ≤ other.fileCount ∧
      (other.fileCount = least.fileCount →
        registry.servers.idxOf least ≤ registry.servers.idxOf other ∧
          (other.isBackup = false → least.username ≤ other.username))

theorem Registry.candidates_ranked (registry : Registry) :
    registry.ranked.Perm (registry.servers.filter fun entry => !entry.isBackup) ∧
      registry.ranked.Pairwise candidateBefore ∧ (registry.ranked.map RegistryEntry.username).Nodup := by
  have same : registry.ranked.Perm (registry.servers.filter fun entry => !entry.isBackup) :=
    List.perm_insertionSort _ _
  refine ⟨same, List.pairwise_insertionSort _ _, (same.map _).nodup_iff.mpr ?_⟩
  exact (List.filter_sublist.map _).nodup registry.distinct

theorem Registry.candidates_head (registry : Registry) {maxEntries : Int} (positive : 0 < maxEntries) :
    (registryCandidates registry.parties maxEntries).head? =
      registry.ranked.head?.map RegistryEntry.username := by
  obtain ⟨size, rfl⟩ : ∃ size : Nat, maxEntries = size + 1 := ⟨(maxEntries - 1).toNat, by omega⟩
  rw [registry.candidates_eq, List.head?_map]
  cases registry.ranked <;> rfl

theorem Registry.entry_unique {registry : Registry} {first second : RegistryEntry}
    (left : first ∈ registry.servers) (right : second ∈ registry.servers)
    (same : first.username = second.username) : first = second :=
  List.inj_on_of_nodup_map registry.distinct left right same

theorem Registry.least_username {registry : Registry} {least : RegistryEntry}
    (found : registry.servers.argmin RegistryEntry.fileCount = some least) :
    registryGetLeastLoadedSs registry.parties = some least.username := by
  have member := List.argmin_mem found
  rw [registryGetLeastLoadedSs, leastLoaded_argmin, ← Registry.servers, found, Option.map_some,
    List.take_of_length_le (servers_short member)]

theorem Registry.least_head {registry : Registry} (condition : LeastIsFirst registry) :
    registryGetLeastLoadedSs registry.parties = registry.ranked.head?.map RegistryEntry.username := by
  rcases condition with missing | ⟨least, member, original, all⟩
  · have unranked : registry.ranked = [] := by
      rw [ranked, missing]
      rfl
    rw [registryGetLeastLoadedSs, leastLoaded_argmin, ← Registry.servers, missing, unranked]
    rfl
  · have found : registry.servers.argmin RegistryEntry.fileCount = some least := by
      refine List.argmin_eq_some_iff.mpr ⟨member, fun other listed => (all other listed).1, ?_⟩
      intro other listed fewer
      exact ((all other listed).2 (le_antisymm fewer (all other listed).1)).1
    rw [least_username found]
    cases head : registry.ranked.head? with
    | none =>
        have listed : least ∈ registry.ranked := mem_ranked.mpr ⟨member, original⟩
        rw [List.head?_eq_none_iff.mp head] at listed
        cases listed
    | some first =>
        obtain ⟨listed, kept, before⟩ := ranked_head head
        obtain ⟨fewest, tied⟩ := all first listed
        have names : first.username = least.username := by
          rcases before least member original with less | ⟨equal, ahead⟩
          · omega
          · exact List.le_antisymm ahead ((tied equal).2 kept)
        rw [Option.map_some, names]

theorem placements_agree_iff (registry : Registry) : PlacementsAgree registry ↔ LeastIsFirst registry := by
  constructor
  · intro agree
    cases found : registry.servers.argmin RegistryEntry.fileCount with
    | none => exact Or.inl (List.argmin_eq_none.mp found)
    | some least =>
        have chosen := agree.first 1 (by decide)
        rw [registry.candidates_head (by decide), Registry.least_username found] at chosen
        obtain ⟨first, head, same⟩ := Option.map_eq_some_iff.mp chosen.symm
        obtain ⟨member, original, before⟩ := Registry.ranked_head head
        obtain ⟨inside, fewest, earliest⟩ := List.argmin_eq_some_iff.mp found
        obtain rfl := Registry.entry_unique member inside same
        refine Or.inr ⟨first, inside, original, ?_⟩
        intro other listed
        refine ⟨fewest other listed, ?_⟩
        intro equal
        refine ⟨earliest other listed (le_of_eq equal), ?_⟩
        intro kept
        rcases before other listed kept with less | ⟨_, names⟩
        · omega
        · exact names
  · intro condition
    refine ⟨⟨registry.ranked, ?_⟩, ?_, ?_⟩
    · obtain ⟨same, sorted, once⟩ := registry.candidates_ranked
      exact ⟨same, sorted, once, registry.candidates_eq⟩
    · intro maxEntries positive
      rw [registry.candidates_head positive]
      exact Registry.least_head condition
    · intro server chosen
      rw [Registry.least_head condition] at chosen
      obtain ⟨first, head, rfl⟩ := Option.map_eq_some_iff.mp chosen
      exact (Registry.ranked_head head).2.1

def pairedRegistry : Registry :=
  (Registry.empty.add ssRole (lit "ss1") (lit "host=127.0.0.1,client_port=6001")
    (Nat.le_of_ble_eq_true rfl)).add ssRole (lit "ss1_backup") (lit "host=127.0.0.1,client_port=6002")
      (Nat.le_of_ble_eq_true rfl)

theorem folder_on_backup : ¬PlacementsAgree pairedRegistry := by
  intro agree
  have chosen : registryGetLeastLoadedSs pairedRegistry.parties = some (lit "ss1_backup") := by
    decide +kernel
  have backup := agree.original _ chosen
  revert backup
  decide

end SharedFileSystem
