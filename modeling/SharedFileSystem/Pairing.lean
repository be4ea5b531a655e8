import SharedFileSystem.NameServer
import SharedFileSystem.Lib.Runs
import Mathlib.Data.Finset.Dedup

/-!
The pairs that the registrations of storage servers leave, in whatever order and however often
the servers register. A pair is made where the primary or its backup registers.
-/

namespace SharedFileSystem

open ByteText KeyedList Runs

def NameServer.registered (server : NameServer) (username : Bytes) : Prop :=
  (registryGetSsInfo server.registry username).isSome

theorem registered_iff (server : NameServer) (username : Bytes) : server.registered username ↔
    (server.registry.find? fun entry => entry.username = username).isSome := by
  rw [NameServer.registered, registryGetSsInfo, Option.isSome_map]

theorem find?_registryAdd (registry : List RegistryEntry) {sender : Bytes} (short : sender.length ≤ 63)
    (payload username : Bytes) :
    ((registryAdd registry sender payload).find? fun entry => entry.username = username).isSome ↔
      username = sender ∨ (registry.find? fun entry => entry.username = username).isSome := by
  unfold registryAdd
  by_cases known : registry.any fun entry => entry.username = sender
  · rw [if_pos known, find?_modifyKey RegistryEntry.username (by intro entry; rfl)]
    by_cases same : username = sender
    · rw [if_pos same, Option.isSome_map, List.find?_isSome, same]
      simpa using known
    · rw [if_neg same]
      simp [same]
  · rw [if_neg known, List.take_of_length_le short, List.find?_cons]
    by_cases same : sender = username
    · simp [same]
    · have other : ¬username = sender := fun hit => same hit.symm
      simp [same, other]

theorem register_registry (server : NameServer) (sender payload : Bytes) :
    (server.register sender payload).registry = registrySetFileCount
      (registryAdd server.registry sender payload) sender (listedFiles sender payload).length := by
  unfold NameServer.register
  dsimp only
  split
  · rfl
  · rfl

theorem registered_register (server : NameServer) {sender : Bytes} (short : sender.length ≤ 63)
    (payload username : Bytes) : (server.register sender payload).registered username ↔
      username = sender ∨ server.registered username := by
  rw [registered_iff, registered_iff, register_registry, registrySetFileCount,
    find?_modifyKey RegistryEntry.username (by intro entry; rfl), ← find?_registryAdd _ short payload]
  split
  · rw [Option.isSome_map]
  · rfl

def pairNames (pairs : List ServerPair) : List (Bytes × Bytes) :=
  pairs.map fun pair => (pair.primarySs, pair.replicaSs)

theorem pairNames_modifyPair {change : ServerPair → ServerPair}
    (keeps : ∀ pair, (change pair).primarySs = pair.primarySs ∧ (change pair).replicaSs = pair.replicaSs)
    (username : Bytes) (pairs : List ServerPair) :
    pairNames (modifyPair change username pairs) = pairNames pairs := by
  induction pairs with
  | nil => rfl
  | cons pair rest ih =>
      unfold pairNames at ih ⊢
      rw [modifyPair]
      split
      · rw [List.map_cons, List.map_cons, (keeps pair).1, (keeps pair).2]
      · rw [List.map_cons, List.map_cons, ih]

theorem pairNames_register (server : NameServer) (sender payload : Bytes) :
    pairNames (server.register sender payload).pairs = pairNames (({ server with
      registry := (server.register sender payload).registry } : NameServer).assign sender) := by
  unfold NameServer.register
  dsimp only
  split
  · exact pairNames_modifyPair (by intro pair; exact ⟨rfl, rfl⟩) sender _
  · rfl

theorem findPair_none {pairs : List ServerPair} {username : Bytes}
    (absent : findPairBySs pairs username = none) (replica : Bytes) :
    (username, replica) ∉ pairNames pairs := by
  intro member
  obtain ⟨pair, inside, same⟩ := List.mem_map.mp member
  have apart := List.find?_eq_none.mp absent pair inside
  rw [Prod.mk.injEq] at same
  simp [same.1] at apart

theorem findPair_some {pairs : List ServerPair} {username : Bytes}
    (present : (findPairBySs pairs username).isSome) :
    (∃ replica, (username, replica) ∈ pairNames pairs) ∨
      ∃ primary, (primary, username) ∈ pairNames pairs := by
  obtain ⟨pair, found⟩ := Option.isSome_iff_exists.mp present
  have member := List.mem_of_find?_eq_some found
  have role := List.find?_some found
  rw [Bool.or_eq_true, decide_eq_true_eq, decide_eq_true_eq] at role
  rcases role with rfl | rfl
  · exact Or.inl ⟨pair.replicaSs, List.mem_map_of_mem member⟩
  · exact Or.inr ⟨pair.primarySs, List.mem_map_of_mem member⟩

theorem assignReplica_cases (server : NameServer) {primary : Bytes} (short : primary.length ≤ 56) :
    ((findPairBySs server.pairs primary).isSome ∧
      replicationAssignReplica server primary = server.pairs) ∨
    (findPairBySs server.pairs primary = none ∧ ¬server.registered (primary ++ backupSuffix) ∧
      replicationAssignReplica server primary = server.pairs) ∨
    (findPairBySs server.pairs primary = none ∧ server.registered (primary ++ backupSuffix) ∧
      replicationAssignReplica server primary =
        ⟨primary, primary ++ backupSuffix, .syncing⟩ :: server.pairs) := by
  have suffix : backupSuffix.length = 7 := by decide
  have whole : (primary ++ backupSuffix).take 63 = primary ++ backupSuffix :=
    List.take_of_length_le (by rw [List.length_append]; omega)
  unfold replicationAssignReplica NameServer.registered
  rw [whole, List.take_of_length_le (by omega : primary.length ≤ 63)]
  cases findPairBySs server.pairs primary with
  | some pair => simp
  | none => cases info : registryGetSsInfo server.registry (primary ++ backupSuffix) with
    | none => simp [info]
    | some location => simp [info]

structure ServerName (name : Bytes) : Prop where
  short : name.length ≤ 56
  single : ¬(backupSuffix ++ backupSuffix) <:+ name

structure Paired (registered : Bytes → Prop) (names : List (Bytes × Bytes)) : Prop where
  distinct : names.Nodup
  shape : ∀ primary replica, (primary, replica) ∈ names →
    replica = primary ++ backupSuffix ∧ registered replica ∧ (primary = [] → registered [])
  whole : ∀ primary, primary ≠ [] → registered (primary ++ backupSuffix) →
    (primary, primary ++ backupSuffix) ∈ names

theorem paired_started : Paired NameServer.started.registered (pairNames NameServer.started.pairs) where
  distinct := List.nodup_nil
  shape := by
    intro primary replica member
    cases member
  whole := by
    intro primary _ registered
    cases registered

theorem Paired.kept {registered joined : Bytes → Prop} {names : List (Bytes × Bytes)} {sender : Bytes}
    (paired : Paired registered names) (joins : ∀ name, joined name ↔ name = sender ∨ registered name)
    (there : ∀ primary, primary ≠ [] → primary ++ backupSuffix = sender →
      (primary, primary ++ backupSuffix) ∈ names) : Paired joined names where
  distinct := paired.distinct
  shape := by
    intro primary replica member
    obtain ⟨same, known, empty⟩ := paired.shape primary replica member
    refine ⟨same, (joins replica).mpr (Or.inr known), ?_⟩
    exact fun nobody => (joins []).mpr (Or.inr (empty nobody))
  whole := by
    intro primary somebody known
    rcases (joins _).mp known with now | before
    · exact there primary somebody now
    · exact paired.whole primary somebody before

theorem Paired.assignReplica {registered : Bytes → Prop} {server : NameServer} {sender primary : Bytes}
    (paired : Paired registered (pairNames server.pairs))
    (joins : ∀ name, server.registered name ↔ name = sender ∨ registered name)
    (short : primary.length ≤ 56) (plain : ¬backupSuffix <:+ primary)
    (empty : primary = [] → server.registered [])
    (tried : ∀ other, other ≠ [] → other ++ backupSuffix = sender → other = primary) :
    Paired server.registered (pairNames (replicationAssignReplica server primary)) := by
  rcases assignReplica_cases server short with ⟨present, same⟩ | ⟨_, absent, same⟩ | ⟨fresh, known, added⟩
  · rw [same]
    refine paired.kept joins ?_
    intro other somebody backup
    obtain rfl := tried other somebody backup
    rcases findPair_some present with ⟨replica, member⟩ | ⟨above, member⟩
    · exact (paired.shape _ _ member).1 ▸ member
    · exact absurd ⟨above, (paired.shape _ _ member).1.symm⟩ plain
  · rw [same]
    refine paired.kept joins ?_
    intro other somebody backup
    obtain rfl := tried other somebody backup
    exact absurd ((joins _).mpr (Or.inl backup)) absent
  · have old (other replica : Bytes) (member : (other, replica) ∈ pairNames server.pairs) :
        replica = other ++ backupSuffix ∧ server.registered replica ∧
          (other = [] → server.registered []) := by
      obtain ⟨same, before, nobody⟩ := paired.shape other replica member
      exact ⟨same, (joins _).mpr (Or.inr before), fun hit => (joins _).mpr (Or.inr (nobody hit))⟩
    rw [added, pairNames, List.map_cons]
    constructor
    · exact List.nodup_cons.mpr ⟨findPair_none fresh _, paired.distinct⟩
    · intro other replica member
      rcases List.mem_cons.mp member with here | before
      · obtain ⟨rfl, rfl⟩ := Prod.mk.inj here
        exact ⟨rfl, known, empty⟩
      · exact old other replica before
    · intro other somebody joined
      rcases (joins _).mp joined with now | before
      · rw [tried other somebody now]
        exact List.mem_cons_self
      · exact List.mem_cons_of_mem _ (paired.whole other somebody before)

theorem Paired.assign {registered : Bytes → Prop} {server : NameServer} {sender : Bytes}
    (paired : Paired registered (pairNames server.pairs)) (proper : ServerName sender)
    (joins : ∀ name, server.registered name ↔ name = sender ∨ registered name) :
    Paired server.registered (pairNames (server.assign sender)) := by
  unfold NameServer.assign
  by_cases backup : backupSuffix <:+ sender
  · rw [if_pos (List.isSuffixOf_iff_suffix.mpr backup)]
    obtain ⟨primary, rfl⟩ := backup
    have bound := proper.short
    rw [List.length_append] at bound
    have stripped : (primary ++ backupSuffix).take ((primary ++ backupSuffix).length -
        backupSuffix.length) = primary := by
      rw [List.length_append, Nat.add_sub_cancel, List.take_left]
    rw [stripped]
    by_cases nobody : primary = []
    · subst nobody
      refine paired.kept joins ?_
      intro other somebody same
      exact absurd (List.append_cancel_right same) somebody
    · rw [if_pos ⟨List.length_pos_iff.mpr nobody, by omega⟩]
      refine paired.assignReplica joins (by omega) ?_ (fun hit => absurd hit nobody) ?_
      · rintro ⟨above, rfl⟩
        refine proper.single ⟨above, ?_⟩
        rw [List.append_assoc]
      · intro other _ same
        exact List.append_cancel_right same
  · have plain : ¬backupSuffix.isSuffixOf sender := fun hit => backup (List.isSuffixOf_iff_suffix.mp hit)
    rw [if_neg plain]
    refine paired.assignReplica joins proper.short backup ?_ ?_
    · intro nobody
      exact (joins []).mpr (Or.inl nobody.symm)
    · intro other _ same
      exact absurd ⟨other, same⟩ backup

structure Registration where
  sender : Bytes
  payload : Bytes

def NameServer.serve (server : NameServer) (message : Registration) : NameServer :=
  server.register message.sender message.payload

def registerAll (order : List Registration) : NameServer :=
  run NameServer.serve NameServer.started order

theorem Paired.serve {server : NameServer}
    (paired : Paired server.registered (pairNames server.pairs)) {message : Registration}
    (proper : ServerName message.sender) :
    Paired (server.serve message).registered (pairNames (server.serve message).pairs) := by
  have short : message.sender.length ≤ 63 := proper.short.trans (by decide)
  have joins := registered_register server short message.payload
  unfold NameServer.serve
  rw [pairNames_register]
  exact @Paired.assign server.registered { server with
    registry := (server.register message.sender message.payload).registry } _ paired proper joins

theorem paired_run {server : NameServer}
    (paired : Paired server.registered (pairNames server.pairs)) {order : List Registration}
    (proper : ∀ message ∈ order, ServerName message.sender) :
    Paired (run NameServer.serve server order).registered
      (pairNames (run NameServer.serve server order).pairs) := by
  induction order generalizing server with
  | nil => exact paired
  | cons message order ih =>
      have first := paired.serve (proper message (by simp))
      exact ih first fun other member => proper other (by simp [member])

theorem registered_run (server : NameServer) {order : List Registration}
    (proper : ∀ message ∈ order, ServerName message.sender) (username : Bytes) :
    (run NameServer.serve server order).registered username ↔
      username ∈ order.map Registration.sender ∨ server.registered username := by
  induction order generalizing server with
  | nil => simp
  | cons message order ih =>
      have short : message.sender.length ≤ 63 := (proper message (by simp)).short.trans (by decide)
      have first := registered_register server short message.payload username
      rw [run_cons, ih (server.serve message) fun other member => proper other (by simp [member])]
      rw [NameServer.serve, first, List.map_cons, List.mem_cons]
      tauto

theorem empty_assignReplica {registered : Bytes → Prop} {server : NameServer} {primary : Bytes}
    (paired : Paired registered (pairNames server.pairs)) (short : primary.length ≤ 56) :
    ([], backupSuffix) ∈ pairNames (replicationAssignReplica server primary) ↔
      ([], backupSuffix) ∈ pairNames server.pairs ∨
        primary = [] ∧ server.registered backupSuffix := by
  rcases assignReplica_cases server short with ⟨present, same⟩ | ⟨_, absent, same⟩ | ⟨_, known, added⟩
  · rw [same]
    refine ⟨Or.inl, fun either => either.elim id ?_⟩
    rintro ⟨rfl, _⟩
    rcases findPair_some present with ⟨replica, member⟩ | ⟨above, member⟩
    · have backup : replica = backupSuffix := (paired.shape _ _ member).1
      exact backup ▸ member
    · have empty : [] = above ++ backupSuffix := (paired.shape _ _ member).1
      exact absurd empty.symm (List.append_ne_nil_of_right_ne_nil _ (by decide))
  · rw [same]
    refine ⟨Or.inl, fun either => either.elim id ?_⟩
    rintro ⟨rfl, known⟩
    exact absurd known absent
  · rw [added, pairNames, List.map_cons, List.mem_cons]
    constructor
    · rintro (here | before)
      · obtain ⟨nobody, _⟩ := Prod.mk.inj here
        subst nobody
        exact Or.inr ⟨rfl, known⟩
      · exact Or.inl before
    · rintro (before | ⟨rfl, _⟩)
      · exact Or.inr before
      · exact Or.inl rfl

theorem empty_serve {server : NameServer}
    (paired : Paired server.registered (pairNames server.pairs)) {message : Registration}
    (proper : ServerName message.sender) :
    ([], backupSuffix) ∈ pairNames (server.serve message).pairs ↔
      ([], backupSuffix) ∈ pairNames server.pairs ∨
        message.sender = [] ∧ server.registered backupSuffix := by
  have short : message.sender.length ≤ 63 := proper.short.trans (by decide)
  have joins : (server.serve message).registered backupSuffix ↔
      backupSuffix = message.sender ∨ server.registered backupSuffix :=
    registered_register server short message.payload backupSuffix
  have attempt (primary : Bytes) (fits : primary.length ≤ 56) :=
    @empty_assignReplica server.registered { server with
      registry := (server.serve message).registry } primary paired fits
  unfold NameServer.serve at joins attempt ⊢
  rw [pairNames_register]
  unfold NameServer.assign
  by_cases backup : backupSuffix <:+ message.sender
  · have somebody : message.sender ≠ [] := by
      intro empty
      rw [empty, List.suffix_nil] at backup
      cases backup
    rw [if_pos (List.isSuffixOf_iff_suffix.mpr backup)]
    dsimp only
    split
    · rename_i room
      have nonempty := List.length_pos_iff.mp room.1
      have fits := (List.length_take_le (message.sender.length - backupSuffix.length)
        message.sender).trans (by have := proper.short; omega : _ ≤ 56)
      rw [attempt _ fits]
      simp [nonempty, somebody]
    · simp [somebody]
  · have plain : ¬backupSuffix.isSuffixOf message.sender :=
      fun hit => backup (List.isSuffixOf_iff_suffix.mp hit)
    rw [if_neg plain, attempt _ proper.short]
    refine or_congr_right (and_congr_right fun empty => ?_)
    have apart : backupSuffix ≠ message.sender := by
      rw [empty]
      decide
    exact joins.trans (or_iff_right apart)

theorem empty_run {server : NameServer}
    (paired : Paired server.registered (pairNames server.pairs)) {order : List Registration}
    (proper : ∀ message ∈ order, ServerName message.sender) :
    ([], backupSuffix) ∈ pairNames (run NameServer.serve server order).pairs ↔
      ([], backupSuffix) ∈ pairNames server.pairs ∨
        ∃ front message back, order = front ++ message :: back ∧ message.sender = [] ∧
          (backupSuffix ∈ front.map Registration.sender ∨ server.registered backupSuffix) := by
  induction order generalizing server with
  | nil => simp
  | cons first order ih =>
      have now := proper first (by simp)
      have joins := registered_register server (now.short.trans (by decide)) first.payload backupSuffix
      rw [run_cons, ih (paired.serve now) fun other member => proper other (by simp [member]),
        empty_serve paired now, or_assoc]
      refine or_congr_right ?_
      constructor
      · rintro (⟨empty, known⟩ | ⟨front, message, back, rfl, empty, known⟩)
        · exact ⟨[], first, order, rfl, empty, Or.inr known⟩
        · refine ⟨first :: front, message, back, rfl, empty, ?_⟩
          rw [List.map_cons, List.mem_cons]
          rcases known with before | here
          · exact Or.inl (Or.inr before)
          · rcases joins.mp here with sent | before
            · exact Or.inl (Or.inl sent)
            · exact Or.inr before
      · rintro ⟨front, message, back, split, empty, known⟩
        cases front with
        | nil =>
            obtain ⟨rfl, rfl⟩ := List.cons.inj split
            exact Or.inl ⟨empty, known.resolve_left (by simp)⟩
        | cons head front =>
            obtain ⟨rfl, rfl⟩ := List.cons.inj split
            refine Or.inr ⟨front, message, back, rfl, empty, ?_⟩
            rw [List.map_cons, List.mem_cons] at known
            rcases known with (sent | before) | here
            · exact Or.inr (joins.mpr (Or.inl sent))
            · exact Or.inl before
            · exact Or.inr (joins.mpr (Or.inr here))

def Orders (names : Finset Bytes) (order : List Registration) : Prop :=
  ∀ username, username ∈ order.map Registration.sender ↔ username ∈ names

structure PairsOf (names : Finset Bytes) (server : NameServer) : Prop where
  once : (pairNames server.pairs).Nodup
  exactly : ∀ primary replica, (primary, replica) ∈ pairNames server.pairs ↔
    primary ≠ [] ∧ replica = primary ++ backupSuffix ∧ replica ∈ names

def EmptyAfterBackup (order : List Registration) : Prop :=
  ∃ front message back, order = front ++ message :: back ∧ message.sender = [] ∧
    backupSuffix ∈ front.map Registration.sender

theorem pairsOf_iff {names : Finset Bytes} (proper : ∀ name ∈ names, ServerName name)
    {order : List Registration} (orders : Orders names order) :
    PairsOf names (registerAll order) ↔ ¬EmptyAfterBackup order := by
  have good : ∀ message ∈ order, ServerName message.sender := fun message member =>
    proper _ ((orders _).mp (List.mem_map_of_mem member))
  have paired := paired_run paired_started good
  have nobody (username : Bytes) : ¬NameServer.started.registered username := by
    intro known
    cases known
  have known (username : Bytes) : (registerAll order).registered username ↔ username ∈ names := by
    rw [registerAll, registered_run NameServer.started good, orders]
    exact or_iff_left (nobody username)
  have empty : ([], backupSuffix) ∈ pairNames (registerAll order).pairs ↔ EmptyAfterBackup order := by
    rw [registerAll, empty_run paired_started good]
    simp only [nobody, or_false]
    exact or_iff_right (by simp [NameServer.started, pairNames])
  rw [← empty]
  constructor
  · intro pairs member
    exact ((pairs.exactly _ _).mp member).1 rfl
  · intro apart
    refine ⟨paired.distinct, fun primary replica => ⟨fun member => ?_, ?_⟩⟩
    · obtain ⟨same, there, _⟩ := paired.shape primary replica member
      refine ⟨?_, same, (known replica).mp there⟩
      rintro rfl
      have backup : replica = backupSuffix := same
      exact apart (backup ▸ member)
    · rintro ⟨somebody, rfl, there⟩
      exact paired.whole primary somebody ((known _).mpr there)

/-- Two orders of the registrations leave the same pairs, those of the names, exactly if neither of
them registers the empty name after `_backup`. -/
theorem pairing_order_free_iff {names : Finset Bytes} (proper : ∀ name ∈ names, ServerName name)
    {first second : List Registration} (orders : Orders names first) (others : Orders names second) :
    ((∀ pair, pair ∈ pairNames (registerAll first).pairs ↔
        pair ∈ pairNames (registerAll second).pairs) ∧
      PairsOf names (registerAll first) ∧ PairsOf names (registerAll second)) ↔
      ¬EmptyAfterBackup first ∧ ¬EmptyAfterBackup second := by
  rw [← pairsOf_iff proper orders, ← pairsOf_iff proper others]
  refine ⟨And.right, fun both => ⟨?_, both⟩⟩
  rintro ⟨primary, replica⟩
  rw [both.1.exactly, both.2.exactly]

theorem pairing_order_free_ss1 :
    let first : List Registration := [⟨lit "ss1", []⟩, ⟨lit "ss1_backup", []⟩]
    let second : List Registration := [⟨lit "ss1_backup", []⟩, ⟨lit "ss1", []⟩, ⟨lit "ss1_backup", []⟩]
    PairsOf {lit "ss1", lit "ss1_backup"} (registerAll first) ∧
      PairsOf {lit "ss1", lit "ss1_backup"} (registerAll second) := by
  intro first second
  have proper : ∀ name ∈ ({lit "ss1", lit "ss1_backup"} : Finset Bytes), ServerName name := by
    intro name member
    rcases Finset.mem_insert.mp member with rfl | rest
    · exact ⟨by decide, by decide⟩
    · obtain rfl := Finset.mem_singleton.mp rest
      exact ⟨by decide, by decide⟩
  have never (order : List Registration) (named : ∀ message ∈ order, message.sender ≠ []) :
      ¬EmptyAfterBackup order := by
    rintro ⟨front, message, back, rfl, empty, _⟩
    exact named message (by simp) empty
  have orders : Orders {lit "ss1", lit "ss1_backup"} first := by
    intro username
    simp [first]
  have others : Orders {lit "ss1", lit "ss1_backup"} second := by
    intro username
    simp [second]
    tauto
  refine ((pairing_order_free_iff proper orders others).mpr ⟨never first ?_, never second ?_⟩).2
  · decide
  · decide

theorem empty_name_order :
    let first : List Registration := [⟨backupSuffix, []⟩, ⟨[], []⟩]
    let second : List Registration := [⟨[], []⟩, ⟨backupSuffix, []⟩]
    (∀ name ∈ ({[], backupSuffix} : Finset Bytes), ServerName name) ∧
      Orders {[], backupSuffix} first ∧ Orders {[], backupSuffix} second ∧
      ([], backupSuffix) ∈ pairNames (registerAll first).pairs ∧
      ([], backupSuffix) ∉ pairNames (registerAll second).pairs := by
  refine ⟨?_, by intro username; simp; tauto, by intro username; simp, by decide +kernel, by decide +kernel⟩
  intro name member
  rcases Finset.mem_insert.mp member with rfl | rest
  · exact ⟨by decide, by decide⟩
  · obtain rfl := Finset.mem_singleton.mp rest
    exact ⟨by decide, by decide⟩

end SharedFileSystem
