import SharedFileSystem.IndexTable
import SharedFileSystem.Lib.RecentCache

/-!
The list of recently used entries of `nm/index.c`: over every run its links thread live entries in the
order of their last lookups.
-/

namespace SharedFileSystem

open ByteText Runs LinkedNodes IndexTable RecentCache

inductive ListEffect where
  | nothing
  | looked (address : Nat)
  | removed (address : Nat)

def IndexCall.effect (table : IndexTable) (call : IndexCall) : ListEffect :=
  match table.find (pathParts call.path), call with
  | none, _ => .nothing
  | some address, .remove _ => .removed address
  | some address, _ => .looked address

/-- The table, its live entries that were looked up, the latest lookup first, and those of them that a
cache of the size keeps. -/
structure RecentTable where
  table : IndexTable
  history : List Nat
  cache : List Nat

def lruCapacity : Nat := lruCacheSize.toNat

def RecentTable.apply (state : RecentTable) (call : IndexCall) : RecentTable :=
  let after := call.apply state.table
  match call.effect state.table with
  | .nothing => ⟨after, state.history, state.cache⟩
  | .looked address =>
      ⟨after, used state.history address, touch lruCapacity state.cache address⟩
  | .removed address => ⟨after, state.history.erase address, state.cache.erase address⟩

def RecentTable.init : RecentTable := ⟨IndexTable.init, [], []⟩

def RecentTable.Admits (state : RecentTable) (call : IndexCall) : Prop := call.Allocates state.table

instance (state : RecentTable) (call : IndexCall) : Decidable (state.Admits call) :=
  inferInstanceAs (Decidable (call.Allocates state.table))

/-- The links thread these entries, the ones that were looked up last, and the others are loose. -/
structure ListsRecent (table : IndexTable) (nodes history : List Nat) : Prop where
  threads : table.lru.Threads nodes
  latest : nodes <+: history
  distinct : history.Nodup
  live : ∀ address ∈ history, table.Live address
  loose : ∀ address, table.Live address → address ∉ nodes → table.lru.Loose address

/-- The list is as before, and so are the live entries. -/
structure SameList (before after : IndexTable) : Prop where
  links : after.lru = before.lru
  size : after.lruSize = before.lruSize
  live : ∀ address, after.Live address ↔ before.Live address

def touchedNodes (table : IndexTable) (nodes : List Nat) (address : Nat) : List Nat :=
  if address ∈ nodes then used nodes address
  else if lruCacheSize ≤ table.lruSize then address :: nodes.dropLast
  else address :: nodes

namespace ListsRecent

variable {table : IndexTable} {nodes history : List Nat}

theorem linked_iff (lists : ListsRecent table nodes history) {address : Nat}
    (live : table.Live address) : Linked table.lru address ↔ address ∈ nodes :=
  lists.threads.linked_iff (lists.loose address live)

theorem congr (lists : ListsRecent table nodes history) {after : IndexTable}
    (same : SameList table after) : ListsRecent after nodes history := by
  refine ⟨?_, lists.latest, lists.distinct, ?_, ?_⟩
  · rw [same.links]
    exact lists.threads
  · exact fun address member => (same.live address).mpr (lists.live address member)
  · intro address here
    rw [same.links]
    exact lists.loose address ((same.live address).mp here)

end ListsRecent

/-- Putting an entry in front of the list from which it has been taken. -/
theorem putFront_lists {lru : Links Nat} {nodes : List Nat} {address : Nat}
    (threads : lru.Threads nodes) (outside : address ∉ nodes) (live : Nat → Prop)
    (loose : ∀ other, live other → other ∉ nodes → other ≠ address → lru.Loose other) :
    (lru.putFront address).Threads (address :: nodes) ∧
      ∀ other, live other → other ∉ address :: nodes → (lru.putFront address).Loose other := by
  obtain ⟨front, same⟩ := Links.putFront_threads threads outside
  refine ⟨front, ?_⟩
  intro other here elsewhere
  obtain ⟨next, prev⟩ := same other elsewhere
  rw [List.mem_cons, not_or] at elsewhere
  obtain ⟨noNext, noPrev⟩ := loose other here elsewhere.2 elsewhere.1
  exact ⟨next.trans noNext, prev.trans noPrev⟩

namespace ListsRecent

variable {table : IndexTable} {nodes history : List Nat}

theorem touch_links (lists : ListsRecent table nodes history) {address : Nat}
    (live : table.Live address) :
    (table.lruTouch address).lru.Threads (touchedNodes table nodes address) ∧
      ∀ other, table.Live other → other ∉ touchedNodes table nodes address →
        (table.lruTouch address).lru.Loose other := by
  have linked := lists.linked_iff live
  by_cases member : address ∈ nodes
  · -- a listed entry is taken out and put in front
    have kept : (table.lruTouch address).lru = (table.lru.takeOut address).putFront address := by
      rw [lruTouch, if_neg fun full => full.2 (linked.mpr member)]
      rfl
    rw [kept, touchedNodes, if_pos member, used]
    obtain ⟨front, back, shape⟩ := List.append_of_mem member
    have threads := lists.threads
    rw [shape] at threads
    have bypassed := Links.takeOut_bypassed threads
    have once := List.nodup_middle.mp threads.distinct
    have erased : nodes.erase address = front ++ back := by
      rw [shape, List.erase_append_right _ fun inFront =>
        (List.nodup_cons.mp once).1 (List.mem_append_left _ inFront), List.erase_cons_head]
    rw [erased]
    refine putFront_lists (bypassed.threads threads) (List.nodup_cons.mp once).1 table.Live ?_
    intro other here outside different
    obtain ⟨next, prev⟩ := bypassed.loose outside
    have unlisted : other ∉ nodes := by
      rw [shape, List.mem_append, List.mem_cons]
      rw [List.mem_append] at outside
      tauto
    obtain ⟨noNext, noPrev⟩ := lists.loose other here unlisted
    exact ⟨next.trans noNext, prev.trans noPrev⟩
  · rw [touchedNodes, if_neg member]
    by_cases full : lruCacheSize ≤ table.lruSize
    · have dropped : (table.lruTouch address).lru =
          (table.lruRemoveTail.lru.takeOut address).putFront address := by
        rw [lruTouch, if_pos ⟨full, fun here => member (linked.mp here)⟩]
        rfl
      rw [dropped, if_pos full]
      rcases List.eq_nil_or_concat nodes with rfl | ⟨rest, last, rfl⟩
      · -- the counter is full and the list is empty
        have noTail : table.lru.tail = none := lists.threads.tail
        rw [lruRemoveTail, if_pos noTail,
          Links.takeOut_loose lists.threads member (lists.loose address live member)]
        exact putFront_lists lists.threads member table.Live fun other here outside _ =>
          lists.loose other here outside
      · -- the last entry leaves the list
        rw [List.concat_eq_append] at *
        have tail : table.lru.tail = some last := by simpa using lists.threads.tail
        obtain ⟨threads, lastLoose, same⟩ := Links.dropTail_threads lists.threads
        have links : table.lruRemoveTail.lru = table.lru.dropTail := by
          rw [lruRemoveTail, if_neg (by rw [tail]; simp)]
        have apart : address ∉ rest ∧ address ≠ last := by simpa using member
        have looseElsewhere (other : Nat) (here : table.Live other) (outside : other ∉ rest) :
            table.lru.dropTail.Loose other := by
          by_cases isLast : other = last
          · rw [isLast]
            exact lastLoose
          · obtain ⟨next, prev⟩ := same other outside isLast
            obtain ⟨noNext, noPrev⟩ := lists.loose other here (by simp [outside, isLast])
            exact ⟨next.trans noNext, prev.trans noPrev⟩
        rw [links, Links.takeOut_loose threads apart.1 (looseElsewhere address live apart.1),
          List.dropLast_concat]
        exact putFront_lists threads apart.1 table.Live fun other here outside _ =>
          looseElsewhere other here outside
    · have kept : (table.lruTouch address).lru =
          (table.lru.takeOut address).putFront address := by
        rw [lruTouch, if_neg fun both => full both.1]
        rfl
      rw [kept, if_neg full, Links.takeOut_loose lists.threads member (lists.loose address live member)]
      exact putFront_lists lists.threads member table.Live fun other here outside _ =>
        lists.loose other here outside

theorem touch_latest (lists : ListsRecent table nodes history) (address : Nat) :
    touchedNodes table nodes address <+: used history address := by
  rw [touchedNodes]
  split
  · exact used_front lists.latest address
  · rename_i outside
    split
    · have shorter : nodes.dropLast <+: history := (List.dropLast_prefix nodes).trans lists.latest
      have kept := used_front shorter address
      rwa [used, List.erase_of_not_mem fun inside => outside (List.dropLast_subset nodes inside)] at kept
    · have kept := used_front lists.latest address
      rwa [used, List.erase_of_not_mem outside] at kept

theorem touch (lists : ListsRecent table nodes history) {address : Nat} (live : table.Live address) :
    ListsRecent (table.lruTouch address) (touchedNodes table nodes address) (used history address) := by
  obtain ⟨threads, loose⟩ := lists.touch_links live
  have same (other : Nat) : (table.lruTouch address).Live other ↔ table.Live other := by
    rw [Live, Live, (table.lruTouch_files address).entries]
  refine ⟨threads, lists.touch_latest address, used_nodup lists.distinct address, ?_, ?_⟩
  · intro other member
    rw [same]
    rcases mem_used member with rfl | older
    · exact live
    · exact lists.live other older
  · intro other here
    exact loose other ((same other).mp here)

theorem insert (lists : ListsRecent table nodes history) {address : Nat} (free : ¬table.Live address)
    (stored : StoredEntry) : ListsRecent (table.insert address stored) nodes history := by
  have outside : address ∉ nodes := fun member =>
    free (lists.live address (lists.latest.subset member))
  obtain ⟨threads, loose, same⟩ := Links.loosen_threads lists.threads outside
  have live (other : Nat) (different : other ≠ address) :
      (table.insert address stored).Live other ↔ table.Live other := by
    rw [Live, Live, IndexTable.insert]
    dsimp only
    rw [Function.update_of_ne different]
  refine ⟨threads, lists.latest, lists.distinct, ?_, ?_⟩
  · intro other member
    have different : other ≠ address := by
      rintro rfl
      exact free (lists.live other member)
    exact (live other different).mpr (lists.live other member)
  · intro other here unlisted
    by_cases different : other = address
    · rw [different]
      exact loose
    · obtain ⟨next, prev⟩ := same other different
      obtain ⟨noNext, noPrev⟩ := lists.loose other ((live other different).mp here) unlisted
      exact ⟨next.trans noNext, prev.trans noPrev⟩

end ListsRecent

theorem lruUnlink_takeOut {lru : Links Nat} {front back : List Nat} {address : Nat}
    (threads : lru.Threads (front ++ address :: back)) :
    lruUnlink lru address = lru.takeOut address := by
  obtain ⟨next, prev⟩ := threads.between front address back rfl
  have bypassed := Links.takeOut_bypassed threads
  have once := (List.nodup_cons.mp (List.nodup_middle.mp threads.distinct)).1
  have forward : unlinkForward lru address = lru.skipForward address := by
    rw [unlinkForward, Links.skipForward, prev]
    cases last : front.getLast? with
    | none =>
        rw [List.getLast?_eq_none_iff] at last
        subst last
        exact (if_pos threads.head).symm
    | some before => rfl
  have kept : (lru.skipForward address).next address = back.head? ∧
      (lru.skipForward address).tail = lru.tail := by
    rw [Links.skipForward, prev]
    cases last : front.getLast? with
    | none =>
        dsimp only
        split
        · exact ⟨next, rfl⟩
        · exact ⟨next, rfl⟩
    | some before =>
        have different : address ≠ before := by
          rintro rfl
          exact once (List.mem_append_left _ (List.mem_of_getLast? last))
        exact ⟨(Function.update_of_ne different ..).trans next, rfl⟩
  have backward : unlinkBackward (lru.skipForward address) address = lru.takeOut address := by
    rw [Links.takeOut, unlinkBackward, Links.skipBackward, kept.1]
    cases first : back.head? with
    | none =>
        rw [List.head?_eq_none_iff] at first
        subst first
        have tail : lru.tail = some address := by simpa using threads.tail
        exact (if_pos (kept.2.trans tail)).symm
    | some after => rfl
  have head : (lru.takeOut address).head ≠ some address := by
    rw [bypassed.head]
    exact fun same => once (List.mem_of_head? same)
  have tail : (lru.takeOut address).tail ≠ some address := by
    rw [bypassed.tail]
    exact fun same => once (List.mem_of_getLast? same)
  rw [lruUnlink, forward, backward, if_neg head, if_neg tail]

theorem ListsRecent.remove {table : IndexTable} {nodes history : List Nat}
    (lists : ListsRecent table nodes history) {path : Bytes} {address : Nat}
    (found : table.find (pathParts path) = some address) :
    ListsRecent (table.removeFile path) (nodes.erase address) (history.erase address) := by
  obtain ⟨stored, present, _⟩ := find_some found
  have linked := lists.linked_iff (Option.isSome_of_eq_some present)
  have live (other : Nat) :
      (table.removeFile path).Live other ↔ other ≠ address ∧ table.Live other := by
    rw [removeFile_found found, Live, Live]
    dsimp only
    rw [Function.update_apply]
    by_cases here : other = address
    · simp [here]
    · simp [here]
  have links : (table.removeFile path).lru.Threads (nodes.erase address) ∧
      ∀ other, other ≠ address → table.Live other → other ∉ nodes →
        (table.removeFile path).lru.Loose other := by
    rw [removeFile_found found]
    by_cases member : address ∈ nodes
    · obtain ⟨front, back, shape⟩ := List.append_of_mem member
      have threads := lists.threads
      rw [shape] at threads
      have bypassed := Links.takeOut_bypassed threads
      have once := (List.nodup_cons.mp (List.nodup_middle.mp threads.distinct)).1
      dsimp only
      rw [if_pos (linked.mpr member), lruUnlink_takeOut threads, shape,
        List.erase_append_right _ fun inFront => once (List.mem_append_left _ inFront),
        List.erase_cons_head]
      refine ⟨bypassed.threads threads, ?_⟩
      intro other different here outside
      have elsewhere : other ∉ front ++ back := by
        rw [List.mem_append, List.mem_cons] at outside
        rw [List.mem_append]
        tauto
      obtain ⟨next, prev⟩ := bypassed.loose elsewhere
      obtain ⟨noNext, noPrev⟩ := lists.loose other here (by rwa [shape])
      exact ⟨next.trans noNext, prev.trans noPrev⟩
    · dsimp only
      rw [if_neg fun here => member (linked.mp here), List.erase_of_not_mem member]
      exact ⟨lists.threads, fun other _ here outside => lists.loose other here outside⟩
  refine ⟨links.1, erase_front lists.latest address, lists.distinct.erase address, ?_, ?_⟩
  · intro other member
    obtain ⟨different, older⟩ := (List.Nodup.mem_erase_iff lists.distinct).mp member
    exact (live other).mpr ⟨different, lists.live other older⟩
  · intro other here outside
    obtain ⟨different, before⟩ := (live other).mp here
    refine links.2 other different before fun member => outside ?_
    exact (List.mem_erase_of_ne different).mpr member

section
variable {table : IndexTable} {call : IndexCall} {address : Nat}

theorem effect_nothing (idle : call.effect table = .nothing) :
    table.find (pathParts call.path) = none := by
  unfold IndexCall.effect at idle
  cases found : table.find (pathParts call.path) with
  | none => rfl
  | some address =>
      rw [found] at idle
      cases call <;> simp at idle

theorem effect_looked (looked : call.effect table = .looked address) :
    table.find (pathParts call.path) = some address ∧ ∀ path, call ≠ .remove path := by
  unfold IndexCall.effect at looked
  cases found : table.find (pathParts call.path) with
  | none => simp [found] at looked
  | some address =>
      rw [found] at looked
      cases call <;> simp_all

theorem effect_removed (removed : call.effect table = .removed address) :
    ∃ path, call = .remove path ∧ table.find (pathParts path) = some address := by
  unfold IndexCall.effect at removed
  cases found : table.find (pathParts call.path) with
  | none => simp [found] at removed
  | some address =>
      rw [found] at removed
      cases call <;> simp_all [IndexCall.path]

theorem modify_list (table : IndexTable) (address : Nat) (change : StoredEntry → StoredEntry) :
    SameList table (table.modify address change) := by
  refine ⟨rfl, rfl, ?_⟩
  intro other
  rw [Live, Live, modify_entries]
  split
  · rw [Option.isSome_map]
  · rfl

theorem IndexCall.idle (idle : call.effect table = .nothing) (allocates : call.Allocates table) :
    call.apply table = table ∨
      ∃ address stored, ¬table.Live address ∧ call.apply table = table.insert address stored := by
  have missing := effect_nothing idle
  cases call with
  | add path owner location now address =>
      change table.find (pathParts path) = none at missing
      refine Or.inr ⟨address, .new (pathParts path) owner location now, allocates, ?_⟩
      rw [apply, addFile_eq, missing]
  | remove path => exact Or.inl (removeFile_missing missing)
  | lookup path =>
      change table.find (pathParts path) = none at missing
      refine Or.inl ?_
      rw [apply, lookupFile_eq, missing]
      rfl
  | update path accessed modified size words chars =>
      change table.find (pathParts path) = none at missing
      refine Or.inl ?_
      rw [apply, updateMetadata_eq, missing]
  | move filename oldFolder newFolder =>
      change table.find (pathParts (oldFullPath oldFolder filename)) = none at missing
      refine Or.inl ?_
      rw [apply, moveFile_eq, missing]

theorem IndexCall.looked (looked : call.effect table = .looked address) :
    SameList (table.lruTouch address) (call.apply table) := by
  obtain ⟨found, remains⟩ := effect_looked looked
  cases call with
  | add path owner location now fresh =>
      change table.find (pathParts path) = some address at found
      rw [apply, addFile_eq, found]
      exact modify_list ..
  | remove path => exact absurd rfl (remains path)
  | lookup path =>
      change table.find (pathParts path) = some address at found
      rw [apply, lookupFile_eq, found]
      exact ⟨rfl, rfl, fun _ => Iff.rfl⟩
  | update path accessed modified size words chars =>
      change table.find (pathParts path) = some address at found
      rw [apply, updateMetadata_eq, found]
      exact modify_list ..
  | move filename oldFolder newFolder =>
      change table.find (pathParts (oldFullPath oldFolder filename)) = some address at found
      rw [apply, moveFile_eq, found]
      exact modify_list ..

end

def RecentTable.nodesAfter (state : RecentTable) (call : IndexCall) (nodes : List Nat) : List Nat :=
  match call.effect state.table with
  | .nothing => nodes
  | .looked address => touchedNodes state.table nodes address
  | .removed address => nodes.erase address

namespace ListsRecent

variable {state : RecentTable} {call : IndexCall} {nodes : List Nat}

/-- The list after one call. -/
theorem apply (lists : ListsRecent state.table nodes state.history) (admits : state.Admits call) :
    ListsRecent (state.apply call).table (state.nodesAfter call nodes) (state.apply call).history := by
  rw [RecentTable.apply, RecentTable.nodesAfter]
  cases effect : call.effect state.table with
  | nothing =>
      rcases IndexCall.idle effect admits with same | ⟨address, stored, free, same⟩
      · dsimp only
        rwa [same]
      · dsimp only
        rw [same]
        exact lists.insert free stored
  | looked address =>
      obtain ⟨stored, present, _⟩ := find_some (effect_looked effect).1
      exact (lists.touch (Option.isSome_of_eq_some present)).congr (IndexCall.looked effect)
  | removed address =>
      obtain ⟨path, rfl, found⟩ := effect_removed effect
      exact lists.remove found

end ListsRecent

theorem init_lists : ListsRecent RecentTable.init.table [] RecentTable.init.history :=
  ⟨Links.empty_threads, List.nil_prefix, List.nodup_nil, fun _ member => by simp [RecentTable.init] at member,
    fun _ _ _ => ⟨rfl, rfl⟩⟩

theorem run_lists {calls : List IndexCall}
    (guarded : Guarded RecentTable.apply RecentTable.Admits .init calls) :
    ∃ nodes, ListsRecent (run RecentTable.apply .init calls).table nodes
      (run RecentTable.apply .init calls).history :=
  @Guarded.invariant _ _ _ _ (fun state => ∃ nodes, ListsRecent state.table nodes state.history)
    (fun _ _ ⟨_, lists⟩ admits => ⟨_, lists.apply admits⟩) _ _ ⟨[], init_lists⟩ guarded

/-- After every run the links visit live entries from the head to the tail, once each and in the order
of their last lookups, and the other entries have no links. -/
theorem lru_well_formed (calls : List IndexCall)
    (guarded : Guarded RecentTable.apply RecentTable.Admits .init calls) :
    let state := run RecentTable.apply .init calls
    let lru := state.table.lru
    ∃ nodes : List Nat,
      (∀ steps, nodes.length ≤ steps → lru.walk steps lru.head = nodes) ∧ nodes.Nodup ∧
      lru.tail = nodes.getLast? ∧
      (∀ node other, (node ∈ nodes ∧ lru.next node = some other) ↔
        (other ∈ nodes ∧ lru.prev other = some node)) ∧
      (lru.head = none ↔ lru.tail = none) ∧
      (∀ node ∈ nodes, state.table.Live node) ∧
      (∀ address, state.table.Live address → address ∉ nodes → lru.Loose address) ∧
      nodes <+: state.history := by
  obtain ⟨nodes, lists⟩ := run_lists guarded
  have threads := lists.threads
  refine ⟨nodes, ?_, threads.distinct, threads.tail, threads.inverse, threads.head_tail, ?_,
    lists.loose, lists.latest⟩
  · exact fun steps enough => threads.walk_head enough
  · exact fun node member => lists.live node (lists.latest.subset member)

def exampleLookups : List IndexCall :=
  [.add (lit "a") (lit "ann") ⟨lit "127.0.0.1", 9001, lit "ss1"⟩ 1 0,
    .add (lit "b") (lit "ann") ⟨lit "127.0.0.1", 9001, lit "ss1"⟩ 1 1,
    .add (lit "c") (lit "ann") ⟨lit "127.0.0.1", 9001, lit "ss1"⟩ 1 2,
    .lookup (lit "a"), .lookup (lit "b"), .lookup (lit "c"), .remove (lit "b")]

theorem lru_well_formed_removed :
    let lru := (run RecentTable.apply .init exampleLookups).table.lru
    lru.walk 2 lru.head = [2, 0] ∧ lru.tail = some 0 ∧
      ∀ node other, (node ∈ [2, 0] ∧ lru.next node = some other) ↔
        (other ∈ [2, 0] ∧ lru.prev other = some node) := by
  obtain ⟨nodes, walked, _, tail, inverse, _, _, _, latest⟩ :=
    lru_well_formed exampleLookups (by decide +kernel)
  have history : (run RecentTable.apply .init exampleLookups).history = [2, 0] := by decide +kernel
  rw [history] at latest
  have short : nodes.length ≤ 2 := latest.length_le
  obtain rfl : nodes = [2, 0] := (walked 2 short).symm.trans (by decide +kernel)
  exact ⟨walked 2 le_rfl, tail, inverse⟩

theorem touchedNodes_length (table : IndexTable) {nodes : List Nat} {address : Nat} :
    (touchedNodes table nodes address).length =
      if address ∈ nodes then nodes.length
      else if lruCacheSize ≤ table.lruSize then nodes.length - 1 + 1 else nodes.length + 1 := by
  rw [touchedNodes]
  split
  · rename_i member
    have positive := List.length_pos_of_mem member
    rw [used, List.length_cons, List.length_erase_of_mem member]
    omega
  · split
    · rw [List.length_cons, List.length_dropLast]
    · rw [List.length_cons]

namespace ListsRecent

variable {table : IndexTable} {nodes history : List Nat}

theorem touch_size (lists : ListsRecent table nodes history) {address : Nat}
    (live : table.Live address) :
    (table.lruTouch address).lruSize =
      if address ∉ nodes ∧ lruCacheSize ≤ table.lruSize ∧ 0 < nodes.length then table.lruSize
      else table.lruSize + 1 := by
  have linked := lists.linked_iff live
  rw [lruTouch]
  by_cases full : lruCacheSize ≤ table.lruSize ∧ ¬Linked table.lru address
  · rw [if_pos full]
    by_cases empty : nodes = []
    · have noTail : table.lru.tail = none := by
        rw [lists.threads.tail, empty]
        rfl
      rw [if_neg fun all => List.length_pos_iff.mp all.2.2 empty, lruRemoveTail, if_pos noTail]
      rfl
    · have tail : table.lru.tail ≠ none := by
        rw [lists.threads.tail]
        simpa using empty
      rw [if_pos ⟨fun member => full.2 (linked.mpr member), full.1, List.length_pos_iff.mpr empty⟩,
        lruRemoveTail, if_neg tail]
      exact Int.sub_add_cancel _ _
  · rw [if_neg full, if_neg fun all => full ⟨all.2.1, fun here => all.1 (linked.mp here)⟩]
    rfl

theorem remove_size (lists : ListsRecent table nodes history) {path : Bytes} {address : Nat}
    (found : table.find (pathParts path) = some address) :
    (table.removeFile path).lruSize =
      if address ∈ nodes then table.lruSize - 1 else table.lruSize := by
  obtain ⟨stored, present, _⟩ := find_some found
  have linked := lists.linked_iff (Option.isSome_of_eq_some present)
  rw [removeFile_found found]
  simp only [linked]

end ListsRecent

/-- The counter is at least the length of the list, which is at most the size of the cache. -/
structure Bounded (table : IndexTable) (nodes : List Nat) : Prop where
  counted : (nodes.length : Int) ≤ table.lruSize
  short : nodes.length ≤ lruCapacity

namespace Bounded

variable {table : IndexTable} {nodes history : List Nat}

theorem touch (bounded : Bounded table nodes) (lists : ListsRecent table nodes history)
    {address : Nat} (live : table.Live address) :
    Bounded (table.lruTouch address) (touchedNodes table nodes address) := by
  obtain ⟨counted, short⟩ := bounded
  have capacity : (lruCapacity : Int) = lruCacheSize := rfl
  have size := lists.touch_size live
  have length := @touchedNodes_length table nodes address
  by_cases member : address ∈ nodes
  · rw [if_neg fun all => all.1 member] at size
    rw [if_pos member] at length
    exact ⟨by omega, by omega⟩
  · rw [if_neg member] at length
    by_cases full : lruCacheSize ≤ table.lruSize
    · rw [if_pos full] at length
      by_cases nonempty : 0 < nodes.length
      · rw [if_pos ⟨member, full, nonempty⟩] at size
        exact ⟨by omega, by omega⟩
      · rw [if_neg fun all => nonempty all.2.2] at size
        have room : 0 < lruCapacity := by decide
        exact ⟨by omega, by omega⟩
    · rw [if_neg full] at length
      rw [if_neg fun all => full all.2.1] at size
      exact ⟨by omega, by omega⟩

theorem remove (bounded : Bounded table nodes) (lists : ListsRecent table nodes history)
    {path : Bytes} {address : Nat} (found : table.find (pathParts path) = some address) :
    Bounded (table.removeFile path) (nodes.erase address) := by
  obtain ⟨counted, short⟩ := bounded
  have size := lists.remove_size found
  by_cases member : address ∈ nodes
  · have positive := List.length_pos_of_mem member
    rw [if_pos member] at size
    have length := List.length_erase_of_mem member
    exact ⟨by omega, by omega⟩
  · rw [if_neg member] at size
    rw [List.erase_of_not_mem member]
    exact ⟨by omega, short⟩

theorem apply {state : RecentTable} {call : IndexCall} (bounded : Bounded state.table nodes)
    (lists : ListsRecent state.table nodes state.history) (admits : state.Admits call) :
    Bounded (state.apply call).table (state.nodesAfter call nodes) := by
  rw [RecentTable.apply, RecentTable.nodesAfter]
  cases effect : call.effect state.table with
  | nothing =>
      rcases IndexCall.idle effect admits with same | ⟨address, stored, _, same⟩
      · dsimp only
        rwa [same]
      · dsimp only
        rw [same]
        exact ⟨bounded.counted, bounded.short⟩
  | looked address =>
      obtain ⟨stored, present, _⟩ := find_some (effect_looked effect).1
      have touched := bounded.touch lists (Option.isSome_of_eq_some present)
      exact ⟨(IndexCall.looked effect).size ▸ touched.counted, touched.short⟩
  | removed address =>
      obtain ⟨path, rfl, found⟩ := effect_removed effect
      exact bounded.remove lists found

end Bounded

def ListEffect.Unlisted (table : IndexTable) : ListEffect → Prop
  | .looked address => ¬Linked table.lru address
  | .nothing | .removed _ => True

instance (table : IndexTable) : (effect : ListEffect) → Decidable (effect.Unlisted table)
  | .looked address => inferInstanceAs (Decidable (¬Linked table.lru address))
  | .nothing | .removed _ => isTrue trivial

def RecentTable.Unlisted (state : RecentTable) (call : IndexCall) : Prop :=
  (call.effect state.table).Unlisted state.table

instance (state : RecentTable) (call : IndexCall) : Decidable (state.Unlisted call) :=
  inferInstanceAs (Decidable ((call.effect state.table).Unlisted state.table))

def ListEffect.LeavesNoGap (table : IndexTable) (history : List Nat) : ListEffect → Prop
  | .removed address => Linked table.lru address → ∀ other ∈ history, Linked table.lru other
  | .nothing | .looked _ => True

instance (table : IndexTable) (history : List Nat) :
    (effect : ListEffect) → Decidable (effect.LeavesNoGap table history)
  | .removed address =>
      inferInstanceAs (Decidable (Linked table.lru address → ∀ other ∈ history, Linked table.lru other))
  | .nothing | .looked _ => isTrue trivial

def RecentTable.LeavesNoGap (state : RecentTable) (call : IndexCall) : Prop :=
  (call.effect state.table).LeavesNoGap state.table state.history

instance (state : RecentTable) (call : IndexCall) : Decidable (state.LeavesNoGap call) :=
  inferInstanceAs (Decidable ((call.effect state.table).LeavesNoGap state.table state.history))

/-- The list is the cache, and the counter its length. -/
structure Exact (state : RecentTable) : Prop where
  lists : ListsRecent state.table state.cache state.history
  bounded : Bounded state.table state.cache
  counted : state.table.lruSize = state.cache.length

namespace Exact

variable {state : RecentTable} {call : IndexCall}

theorem init_exact : Exact .init := ⟨init_lists, ⟨by decide, by decide⟩, rfl⟩

theorem touched (kept : Exact state) {address : Nat} (outside : address ∉ state.cache) :
    touchedNodes state.table state.cache address =
      RecentCache.touch lruCapacity state.cache address := by
  have capacity : (lruCapacity : Int) = lruCacheSize := rfl
  have counted := kept.counted
  have short := kept.bounded.short
  rw [touchedNodes, if_neg outside, RecentCache.touch, used, List.erase_of_not_mem outside]
  split
  · have full : state.cache.length = lruCapacity := by omega
    have size : lruCapacity = (lruCapacity - 1) + 1 := rfl
    rw [size, List.take_succ_cons, List.dropLast_eq_take, full]
  · rw [List.take_of_length_le]
    rw [List.length_cons]
    omega

theorem looked_outside (kept : Exact state) {address : Nat}
    (effect : call.effect state.table = .looked address) (unlisted : state.Unlisted call) :
    address ∉ state.cache := by
  obtain ⟨stored, present, _⟩ := find_some (effect_looked effect).1
  rw [RecentTable.Unlisted, effect] at unlisted
  exact fun member => unlisted ((kept.lists.linked_iff (Option.isSome_of_eq_some present)).mpr member)

theorem nodesAfter (kept : Exact state) (unlisted : state.Unlisted call) :
    state.nodesAfter call state.cache = (state.apply call).cache := by
  rw [RecentTable.nodesAfter, RecentTable.apply]
  cases effect : call.effect state.table with
  | nothing => rfl
  | looked address => exact kept.touched (kept.looked_outside effect unlisted)
  | removed address => rfl

theorem apply (kept : Exact state) (admits : state.Admits call) (unlisted : state.Unlisted call) :
    Exact (state.apply call) := by
  have lists := kept.lists.apply admits
  have bounded := kept.bounded.apply kept.lists admits
  rw [kept.nodesAfter unlisted] at lists bounded
  refine ⟨lists, bounded, ?_⟩
  have capacity : (lruCapacity : Int) = lruCacheSize := rfl
  have counted := kept.counted
  have short := kept.bounded.short
  rw [RecentTable.apply]
  cases effect : call.effect state.table with
  | nothing =>
      rcases IndexCall.idle effect admits with same | ⟨address, stored, _, same⟩
      · dsimp only
        rwa [same]
      · dsimp only
        rw [same]
        exact counted
  | looked address =>
      have outside := kept.looked_outside effect unlisted
      obtain ⟨stored, present, _⟩ := find_some (effect_looked effect).1
      have size := kept.lists.touch_size (Option.isSome_of_eq_some present)
      have length := touch_length outside lruCapacity
      rw [← (IndexCall.looked effect).size] at size
      dsimp only
      by_cases full : lruCacheSize ≤ state.table.lruSize
      · have positive : 0 < lruCapacity := by decide
        have nonempty : 0 < state.cache.length := by omega
        rw [if_pos ⟨outside, full, nonempty⟩] at size
        omega
      · rw [if_neg fun all => full all.2.1] at size
        omega
  | removed address =>
      obtain ⟨path, rfl, found⟩ := effect_removed effect
      have size := kept.lists.remove_size found
      refine size.trans ?_
      dsimp only
      split
      · rename_i member
        have positive := List.length_pos_of_mem member
        rw [List.length_erase_of_mem member]
        omega
      · rename_i outside
        rwa [List.erase_of_not_mem outside]

/-- An entry leaves the list only when as many others as the list holds were looked up after it. -/
theorem evicted (kept : Exact state) (admits : state.Admits call) (unlisted : state.Unlisted call)
    {address : Nat} (member : address ∈ state.cache) (live : (state.apply call).table.Live address)
    (gone : ¬Linked (state.apply call).table.lru address) :
    ∃ later earlier, (state.apply call).history = later ++ address :: earlier ∧
      lruCapacity ≤ later.length := by
  have after := kept.apply admits unlisted
  rw [after.lists.linked_iff live] at gone
  have latest := after.lists.latest
  have older := kept.lists.latest.subset member
  rw [RecentTable.apply] at gone latest live ⊢
  cases effect : call.effect state.table with
  | nothing =>
      rw [effect] at gone
      exact absurd member gone
  | looked other =>
      rw [effect] at gone latest
      dsimp only at gone latest ⊢
      have outside := kept.looked_outside effect unlisted
      have different : address ≠ other := by
        rintro rfl
        exact outside member
      have inside : address ∈ used state.history other :=
        List.mem_cons_of_mem _ ((List.mem_erase_of_ne different).mpr older)
      obtain ⟨later, earlier, shape, length⟩ := behind latest inside gone
      refine ⟨later, earlier, shape, ?_⟩
      rw [touch_length outside] at length
      by_contra short
      have room : (other :: state.cache).length ≤ lruCapacity := by
        rw [List.length_cons]
        omega
      rw [RecentCache.touch, used, List.erase_of_not_mem outside, List.take_of_length_le room] at gone
      exact gone (List.mem_cons_of_mem _ member)
  | removed other =>
      rw [effect] at gone live
      dsimp only at gone live
      obtain ⟨path, rfl, found⟩ := effect_removed effect
      have same : address = other := by
        by_contra different
        exact gone ((List.mem_erase_of_ne different).mpr member)
      change (state.table.removeFile path).Live address at live
      rw [removeFile_found found, Live, same] at live
      simp at live

theorem full (kept : Exact state) (leavesNoGap : state.LeavesNoGap call)
    (unlisted : state.Unlisted call)
    (size : state.cache.length = min lruCapacity state.history.length) :
    (state.apply call).cache.length = min lruCapacity (state.apply call).history.length := by
  have short := kept.bounded.short
  have fewer := kept.lists.latest.length_le
  rw [RecentTable.apply]
  cases effect : call.effect state.table with
  | nothing => exact size
  | looked address =>
      have outside := kept.looked_outside effect unlisted
      dsimp only
      rw [touch_length outside, used, List.length_cons, List.length_erase]
      split
      · -- a live entry that was looked up is not on the list, so the list is full
        rename_i older
        obtain ⟨later, earlier, shape, length⟩ := behind kept.lists.latest older outside
        have whole := congrArg List.length shape
        rw [List.length_append, List.length_cons] at whole
        omega
      · omega
  | removed address =>
      obtain ⟨path, rfl, found⟩ := effect_removed effect
      obtain ⟨stored, present, _⟩ := find_some found
      have linked := kept.lists.linked_iff (Option.isSome_of_eq_some present)
      rw [RecentTable.LeavesNoGap, effect] at leavesNoGap
      dsimp only at leavesNoGap ⊢
      by_cases member : address ∈ state.cache
      · have older := kept.lists.latest.subset member
        have all : state.history ⊆ state.cache := by
          intro other inside
          exact (kept.lists.linked_iff (kept.lists.live other inside)).mp
            (leavesNoGap (linked.mpr member) other inside)
        have same := (kept.lists.distinct.subperm all).length_le
        rw [List.length_erase_of_mem member, List.length_erase_of_mem older]
        omega
      · rw [List.erase_of_not_mem member, List.length_erase]
        split
        · rename_i older
          obtain ⟨later, earlier, shape, length⟩ := behind kept.lists.latest older member
          have whole := congrArg List.length shape
          rw [List.length_append, List.length_cons] at whole
          omega
        · exact size

end Exact

/-- The list has the entries that were looked up last, at most as many as the cache is large. As long as
no lookup finds an entry that is already listed, it is the list of a cache of that size, the counter is
its length, and an entry is evicted only when as many others were looked up after it; it is full as long
as also no removal leaves a gap. -/
theorem lru_keeps_latest (calls : List IndexCall)
    (guarded : Guarded RecentTable.apply RecentTable.Admits .init calls) :
    let state := run RecentTable.apply .init calls
    ∃ nodes : List Nat, state.table.lru.Threads nodes ∧ nodes <+: state.history ∧
      nodes.length ≤ lruCapacity ∧
      (Guarded RecentTable.apply RecentTable.Unlisted .init calls →
        nodes = state.cache ∧ state.table.lruSize = nodes.length ∧
        (∀ call, state.Admits call → state.Unlisted call → ∀ address ∈ nodes,
          (state.apply call).table.Live address → ¬Linked (state.apply call).table.lru address →
          ∃ later earlier, (state.apply call).history = later ++ address :: earlier ∧
            lruCapacity ≤ later.length) ∧
        (Guarded RecentTable.apply RecentTable.LeavesNoGap .init calls →
          nodes.length = min lruCapacity state.history.length)) := by
  have listed : ∃ nodes, ListsRecent (run RecentTable.apply .init calls).table nodes
      (run RecentTable.apply .init calls).history ∧
      Bounded (run RecentTable.apply .init calls).table nodes :=
    @Guarded.invariant _ _ _ _
      (fun state => ∃ nodes, ListsRecent state.table nodes state.history ∧ Bounded state.table nodes)
      (fun _ _ ⟨_, lists, bounded⟩ admits => ⟨_, lists.apply admits, bounded.apply lists admits⟩)
      _ _ ⟨[], init_lists, by decide, by decide⟩ guarded
  obtain ⟨nodes, lists, bounded⟩ := listed
  refine ⟨nodes, lists.threads, lists.latest, bounded.short, ?_⟩
  intro unlisted
  have kept : Exact (run RecentTable.apply .init calls) :=
    (guarded.and unlisted).invariant (fun _ _ kept both => kept.apply both.1 both.2)
      Exact.init_exact
  obtain rfl := lists.threads.unique kept.lists.threads
  refine ⟨rfl, kept.counted, ?_, ?_⟩
  · exact fun call admits fresh address member live gone =>
      kept.evicted admits fresh member live gone
  · intro leavesNoGap
    have full : Exact (run RecentTable.apply .init calls) ∧
        (run RecentTable.apply .init calls).cache.length =
          min lruCapacity (run RecentTable.apply .init calls).history.length :=
      @Guarded.invariant _ _ _ _
        (fun state => Exact state ∧ state.cache.length = min lruCapacity state.history.length)
        (fun _ _ both guard =>
          ⟨both.1.apply guard.1.1 guard.1.2, both.1.full guard.2 guard.1.2 both.2⟩)
        _ _ ⟨Exact.init_exact, rfl⟩ ((guarded.and unlisted).and leavesNoGap)
    exact full.2

theorem lru_keeps_latest_lookups :
    (run RecentTable.apply .init exampleLookups).table.lruSize =
      min lruCapacity (run RecentTable.apply .init exampleLookups).history.length := by
  obtain ⟨nodes, _, _, _, unlisted⟩ := lru_keeps_latest exampleLookups (by decide +kernel)
  obtain ⟨_, counted, _, full⟩ := unlisted (by decide +kernel)
  rw [counted, full (by decide +kernel)]

def gapCalls : List IndexCall :=
  ((List.range 101).map fun n =>
      .add [UInt8.ofNat (100 + n)] (lit "ann") ⟨lit "127.0.0.1", 9001, lit "ss1"⟩ 1 n) ++
    ((List.range 101).map fun n => .lookup [UInt8.ofNat (100 + n)]) ++ [.remove [200]]

def repeatedLookups : List IndexCall :=
  ([lit "a", lit "b", lit "c"].zipIdx.map fun (name, n) =>
      .add name (lit "ann") ⟨lit "127.0.0.1", 9001, lit "ss1"⟩ 1 n) ++
    List.replicate 100 (.lookup (lit "a")) ++ [.lookup (lit "b"), .lookup (lit "c")]

/-- A second lookup counts the entry again, so that each of the later two entries drives out the one before
it; a removal leaves room that an older entry does not get. -/
theorem lru_counts_twice :
    (run RecentTable.apply .init (exampleLookups.take 4 ++ [.lookup (lit "a")])).table.lruSize = 2 ∧
      (run RecentTable.apply .init (exampleLookups.take 4 ++ [.lookup (lit "a")])).table.lru.walk 9
        (run RecentTable.apply .init (exampleLookups.take 4 ++ [.lookup (lit "a")])).table.lru.head =
          [0] ∧
      (run RecentTable.apply .init repeatedLookups).history = [2, 1, 0] ∧
      (run RecentTable.apply .init repeatedLookups).table.lru.walk 200
        (run RecentTable.apply .init repeatedLookups).table.lru.head = [2] ∧
      (run RecentTable.apply .init gapCalls).history.length = 100 ∧
      ((run RecentTable.apply .init gapCalls).table.lru.walk 200
        (run RecentTable.apply .init gapCalls).table.lru.head).length = 99 := by
  refine ⟨by decide +kernel, by decide +kernel, by decide +kernel, by decide +kernel, ?_⟩
  -- the long run is evaluated once
  decide +kernel

end SharedFileSystem
