import SharedFileSystem.Lib.Since
import SharedFileSystem.Pairing

/-!
What a pair has been through. A server that comes back after a failure gets its files from the other server of its
pair; from which of them, the status of the pair decides, and that is what the last failure or return left.
-/

namespace SharedFileSystem

open ByteText KeyedList Runs

def replicationMarkSynced (pairs : List ServerPair) (primary replica : Bytes) : List ServerPair :=
  modifyKey (fun pair => (pair.primarySs, pair.replicaSs)) (primary, replica)
    (fun pair => { pair with status := if pair.status = .syncing then .synced else pair.status }) pairs

inductive PairEvent where
  | register (sender payload : Bytes)
  | heartbeat (username : Bytes)
  | giveUp (username : Bytes)
  | failover (username : Bytes)
  | writeComplete (username filename : Bytes)
  | synced (primary replica : Bytes)

def NameServer.pairStep (server : NameServer) : PairEvent → NameServer
  | .register sender payload => server.register sender payload
  | .heartbeat username => server.heartbeat username
  | .giveUp username =>
      if server.status username = .alive then
        { server with status := Function.update server.status username .failed }
      else server
  | .failover username => server.onSsFailure username
  | .writeComplete username filename => server.writeComplete username filename
  | .synced primary replica =>
      { server with pairs := replicationMarkSynced server.pairs primary replica }

def PairEvent.Named : PairEvent → Prop
  | .register sender _ => ServerName sender
  | _ => True

def PairEvent.PrimaryFails (primary replica : Bytes) (server : NameServer) : PairEvent → Prop
  | .failover username => username = primary ∧ (primary, replica) ∈ pairNames server.pairs
  | _ => False

def PairEvent.Turns (primary replica : Bytes) (server : NameServer) : PairEvent → Prop
  | .failover username => username = primary ∨ username = replica
  | .register sender _ => (sender = primary ∨ sender = replica) ∧ server.status sender = .failed
  | _ => False

-- the primary has failed, and nothing has befallen the pair since
def PrimaryLost (events : List PairEvent) (primary replica : Bytes) : Prop :=
  Since NameServer.pairStep (fun server event => event.PrimaryFails primary replica server)
    (fun server event => event.Turns primary replica server) NameServer.started events

def ServerPair.Has (pair : ServerPair) (username : Bytes) : Prop :=
  pair.primarySs = username ∨ pair.replicaSs = username

structure OnePairEach (server : NameServer) : Prop where
  paired : Paired server.registered (pairNames server.pairs)
  proper : ∀ username, server.registered username → ServerName username

theorem OnePairEach.backup {server : NameServer} (sound : OnePairEach server) {pair : ServerPair}
    (member : pair ∈ server.pairs) : pair.replicaSs = pair.primarySs ++ backupSuffix ∧
      ¬(backupSuffix ++ backupSuffix) <:+ pair.replicaSs := by
  have named : (pair.primarySs, pair.replicaSs) ∈ pairNames server.pairs := List.mem_map_of_mem member
  obtain ⟨shape, known, _⟩ := sound.paired.shape _ _ named
  exact ⟨shape, (sound.proper _ known).single⟩

theorem OnePairEach.primary_not_replica {server : NameServer} (sound : OnePairEach server)
    {first second : ServerPair} (one : first ∈ server.pairs) (two : second ∈ server.pairs) :
    first.primarySs ≠ second.replicaSs := by
  intro same
  obtain ⟨shape, single⟩ := sound.backup one
  refine single ⟨second.primarySs, ?_⟩
  rw [shape, same, (sound.backup two).1, List.append_assoc]

theorem OnePairEach.same_names {server : NameServer} (sound : OnePairEach server)
    {first second : ServerPair} (one : first ∈ server.pairs) (two : second ∈ server.pairs)
    (primary : first.primarySs = second.primarySs) : first = second := by
  have replica : first.replicaSs = second.replicaSs := by
    rw [(sound.backup one).1, (sound.backup two).1, primary]
  exact List.inj_on_of_nodup_map sound.paired.distinct one two (Prod.ext primary replica)

theorem OnePairEach.unique {server : NameServer} (sound : OnePairEach server)
    {first second : ServerPair} (one : first ∈ server.pairs) (two : second ∈ server.pairs)
    {username : Bytes} (left : first.Has username) (right : second.Has username) : first = second := by
  rcases left with rfl | rfl
  · rcases right with primary | replica
    · exact sound.same_names one two primary.symm
    · exact absurd replica.symm (sound.primary_not_replica one two)
  · rcases right with primary | replica
    · exact absurd primary (sound.primary_not_replica two one)
    · refine sound.same_names one two ?_
      rw [(sound.backup one).1, (sound.backup two).1] at replica
      exact (List.append_cancel_right replica).symm

theorem OnePairEach.started : OnePairEach NameServer.started where
  paired := paired_started
  proper := by
    intro username known
    cases known

section

variable {change : ServerPair → ServerPair} {username : Bytes}

theorem ServerPair.has_iff (pair : ServerPair) (username : Bytes) :
    (pair.primarySs = username || pair.replicaSs = username) = true ↔ pair.Has username := by
  rw [Bool.or_eq_true, decide_eq_true_eq, decide_eq_true_eq, ServerPair.Has]

theorem mem_modifyPair {pairs : List ServerPair} (distinct : pairs.Nodup)
    (apart : ∀ first ∈ pairs, ∀ second ∈ pairs, first.Has username → second.Has username → first = second)
    (pair : ServerPair) : pair ∈ modifyPair change username pairs ↔
      ∃ old ∈ pairs, old.Has username ∧ pair = change old ∨ ¬old.Has username ∧ pair = old := by
  induction pairs with
  | nil => simp [modifyPair]
  | cons head rest ih =>
      obtain ⟨fresh, others⟩ := List.nodup_cons.mp distinct
      rw [modifyPair, List.exists_mem_cons_iff]
      by_cases hit : head.Has username
      · have rests : ∀ old ∈ rest, ¬old.Has username := by
          intro old later also
          exact fresh (apart old (List.mem_cons_of_mem _ later) head List.mem_cons_self also hit ▸ later)
        rw [if_pos ((head.has_iff username).mpr hit), List.mem_cons]
        constructor
        · rintro (rfl | later)
          · exact Or.inl (Or.inl ⟨hit, rfl⟩)
          · exact Or.inr ⟨pair, later, Or.inr ⟨rests pair later, rfl⟩⟩
        · rintro ((⟨_, rfl⟩ | ⟨missed, _⟩) | ⟨old, later, (⟨also, _⟩ | ⟨_, rfl⟩)⟩)
          · exact Or.inl rfl
          · exact absurd hit missed
          · exact absurd also (rests old later)
          · exact Or.inr later
      · have inner := ih others fun first one second two =>
          apart first (List.mem_cons_of_mem _ one) second (List.mem_cons_of_mem _ two)
        rw [if_neg (mt (head.has_iff username).mp hit), List.mem_cons, inner]
        constructor
        · rintro (rfl | later)
          · exact Or.inl (Or.inr ⟨hit, rfl⟩)
          · exact Or.inr later
        · rintro ((⟨also, _⟩ | ⟨_, rfl⟩) | later)
          · exact absurd also hit
          · exact Or.inl rfl
          · exact Or.inr later

end

section

variable {server : NameServer} {username : Bytes}

theorem OnePairEach.mem_modified (sound : OnePairEach server) (change : ServerPair → ServerPair)
    (username : Bytes) (pair : ServerPair) : pair ∈ modifyPair change username server.pairs ↔
      ∃ old ∈ server.pairs, old.Has username ∧ pair = change old ∨ ¬old.Has username ∧ pair = old :=
  mem_modifyPair (List.Nodup.of_map _ sound.paired.distinct)
    (fun _ one _ two left right => sound.unique one two left right) pair

theorem NameServer.onSsFailure_pairs (server : NameServer) (failed : Bytes) :
    (server.onSsFailure failed).pairs = replicationFailover server.pairs failed := by
  unfold NameServer.onSsFailure
  dsimp only
  split
  · rfl
  · split <;> rfl

theorem NameServer.onSsFailure_registry (server : NameServer) (failed : Bytes) :
    (server.onSsFailure failed).registry = server.registry := by
  unfold NameServer.onSsFailure
  dsimp only
  split
  · rfl
  · split <;> rfl

theorem NameServer.writeComplete_kept (server : NameServer) (username filename : Bytes) :
    (server.writeComplete username filename).pairs = server.pairs ∧
      (server.writeComplete username filename).registry = server.registry := by
  unfold NameServer.writeComplete
  split <;> exact ⟨rfl, rfl⟩

theorem NameServer.pairStep_names (server : NameServer) (event : PairEvent) :
    (∃ sender payload, event = .register sender payload) ∨
      (server.pairStep event).registry = server.registry ∧
        pairNames (server.pairStep event).pairs = pairNames server.pairs := by
  cases event with
  | register sender payload => exact Or.inl ⟨sender, payload, rfl⟩
  | heartbeat username => exact Or.inr ⟨rfl, rfl⟩
  | giveUp username =>
      refine Or.inr ?_
      unfold NameServer.pairStep
      dsimp only
      split <;> exact ⟨rfl, rfl⟩
  | failover username =>
      refine Or.inr ⟨server.onSsFailure_registry username, ?_⟩
      rw [NameServer.pairStep, server.onSsFailure_pairs]
      exact pairNames_modifyPair (by intro pair; exact ⟨rfl, rfl⟩) username _
  | writeComplete username filename =>
      obtain ⟨pairs, registry⟩ := server.writeComplete_kept username filename
      exact Or.inr ⟨registry, congrArg pairNames pairs⟩
  | synced primary replica =>
      exact Or.inr ⟨rfl, map_modifyKey _ (by intro pair; rfl) server.pairs⟩

theorem OnePairEach.step (sound : OnePairEach server) {event : PairEvent} (named : event.Named) :
    OnePairEach (server.pairStep event) := by
  rcases server.pairStep_names event with ⟨sender, payload, rfl⟩ | ⟨registry, names⟩
  · refine ⟨@Paired.serve server sound.paired ⟨sender, payload⟩ named, ?_⟩
    intro username known
    have short : sender.length ≤ 63 := Nat.le_trans named.short (by decide)
    rcases (registered_register server short payload username).mp known with rfl | before
    · exact named
    · exact sound.proper username before
  · have same : (server.pairStep event).registered = server.registered := by
      funext username
      rw [NameServer.registered, NameServer.registered, registry]
    refine ⟨?_, ?_⟩
    · rw [same, names]
      exact sound.paired
    · rw [same]
      exact sound.proper

def NameServer.joined (server : NameServer) (sender payload : Bytes) : NameServer :=
  let files := listedFiles sender payload
  let registered : NameServer := { server with
    index := files.foldl (indexListedFile (registeredLocation sender payload)) server.index
    folders := registerFolders server.folders files
    registry := registrySetFileCount (registryAdd server.registry sender payload) sender files.length
    status := Function.update server.status sender .alive }
  { registered with pairs := registered.assign sender }

theorem NameServer.register_joined (server : NameServer) (sender payload : Bytes) :
    server.register sender payload = if server.status sender = .failed
      then (server.joined sender payload).recover sender else server.joined sender payload := rfl

theorem OnePairEach.joined (sound : OnePairEach server) {sender : Bytes} (named : ServerName sender)
    (payload : Bytes) : OnePairEach (server.joined sender payload) := by
  have whole : OnePairEach (server.register sender payload) :=
    @OnePairEach.step server sound (.register sender payload) named
  rw [NameServer.register_joined] at whole
  split at whole
  · obtain ⟨paired, proper⟩ := whole
    have names : pairNames ((server.joined sender payload).recover sender).pairs =
        pairNames (server.joined sender payload).pairs :=
      pairNames_modifyPair (by intro pair; exact ⟨rfl, rfl⟩) sender _
    rw [names] at paired
    exact ⟨paired, proper⟩
  · exact whole

theorem NameServer.mem_joined (server : NameServer) (sender payload : Bytes) {pair : ServerPair}
    (old : pair.status ≠ .syncing) :
    pair ∈ (server.joined sender payload).pairs ↔ pair ∈ server.pairs := by
  have assigned (middle : NameServer) (primary : Bytes) :
      pair ∈ replicationAssignReplica middle primary ↔ pair ∈ middle.pairs := by
    unfold replicationAssignReplica
    dsimp only
    split
    · rfl
    · split
      · rfl
      · rw [List.mem_cons]
        refine ⟨fun either => either.resolve_left ?_, Or.inr⟩
        rintro rfl
        exact old rfl
  unfold NameServer.joined NameServer.assign
  dsimp only
  split
  · split
    · exact assigned ..
    · rfl
  · exact assigned ..

variable {primary replica : Bytes}

def Promoted (primary replica : Bytes) (server : NameServer) : Prop :=
  ⟨primary, replica, .primaryFailed⟩ ∈ server.pairs

theorem Promoted.named (promoted : Promoted primary replica server) :
    (primary, replica) ∈ pairNames server.pairs := List.mem_map_of_mem promoted

theorem OnePairEach.recovered (sound : OnePairEach server) {username : Bytes} :
    Promoted primary replica (server.recover username) ↔
      Promoted primary replica server ∧ primary ≠ username ∧ replica ≠ username := by
  rw [Promoted, NameServer.recover]
  refine (sound.mem_modified _ username _).trans ?_
  constructor
  · rintro ⟨old, member, (⟨_, changed⟩ | ⟨missed, rfl⟩)⟩
    · have status := congrArg ServerPair.status changed
      dsimp only at status
      split at status
      · split at status <;> exact nomatch status
      · exact nomatch status
    · exact ⟨member, not_or.mp missed⟩
  · rintro ⟨member, missed⟩
    exact ⟨_, member, Or.inr ⟨not_or.mpr missed, rfl⟩⟩

theorem OnePairEach.failedOver (sound : OnePairEach server) {username : Bytes} :
    Promoted primary replica (server.onSsFailure username) ↔
      username = primary ∧ (primary, replica) ∈ pairNames server.pairs ∨
        (username ≠ primary ∧ username ≠ replica) ∧ Promoted primary replica server := by
  rw [Promoted, server.onSsFailure_pairs]
  refine (sound.mem_modified _ username _).trans ?_
  constructor
  · rintro ⟨old, member, (⟨_, changed⟩ | ⟨missed, rfl⟩)⟩
    · have first := congrArg ServerPair.primarySs changed
      have second := congrArg ServerPair.replicaSs changed
      have status := congrArg ServerPair.status changed
      dsimp only at first second status
      split at status
      · rename_i own
        exact Or.inl ⟨own.symm.trans first.symm, List.mem_map.mpr ⟨old, member, by rw [first, second]⟩⟩
      · exact nomatch status
    · exact Or.inr ⟨⟨fun same => missed (Or.inl same.symm), fun same => missed (Or.inr same.symm)⟩, member⟩
  · rintro (⟨rfl, named⟩ | ⟨⟨apart, beside⟩, member⟩)
    · obtain ⟨pair, inside, names⟩ := List.mem_map.mp named
      obtain ⟨same, rfl⟩ := Prod.mk.inj names
      refine ⟨pair, inside, Or.inl ⟨Or.inl same, ?_⟩⟩
      rw [if_pos same, ← same]
    · exact ⟨_, member, Or.inr ⟨not_or.mpr ⟨apart.symm, beside.symm⟩, rfl⟩⟩

theorem markSynced_promoted (pairs : List ServerPair) (first second : Bytes) :
    ⟨primary, replica, .primaryFailed⟩ ∈ replicationMarkSynced pairs first second ↔
      ⟨primary, replica, .primaryFailed⟩ ∈ pairs := by
  induction pairs with
  | nil => rfl
  | cons pair rest ih =>
      unfold replicationMarkSynced at ih ⊢
      rw [modifyKey]
      split
      · rw [List.mem_cons, List.mem_cons]
        refine or_congr_left ?_
        cases pair with
        | mk own backup status => cases status <;> simp
      · rw [List.mem_cons, List.mem_cons, ih]

theorem OnePairEach.promoted_step (sound : OnePairEach server) {event : PairEvent} (named : event.Named) :
    Promoted primary replica (server.pairStep event) ↔ event.PrimaryFails primary replica server ∨
      ¬event.Turns primary replica server ∧ Promoted primary replica server := by
  have quiet : ∀ after : NameServer, after.pairs = server.pairs →
      (Promoted primary replica after ↔ False ∨ ¬False ∧ Promoted primary replica server) := by
    intro after same
    rw [Promoted, same, false_or, not_false_eq_true, true_and, Promoted]
  cases event with
  | heartbeat username => exact quiet _ rfl
  | giveUp username =>
      refine quiet _ ?_
      unfold NameServer.pairStep
      dsimp only
      split <;> rfl
  | writeComplete username filename => exact quiet _ (server.writeComplete_kept username filename).1
  | synced first second =>
      have same := @markSynced_promoted primary replica server.pairs first second
      exact same.trans (quiet server rfl)
  | failover username =>
      refine sound.failedOver.trans (or_congr_right (and_congr_left fun _ => ?_))
      exact not_or.symm
  | register sender payload =>
      have same := @NameServer.mem_joined server sender payload ⟨primary, replica, .primaryFailed⟩ (by simp)
      change Promoted primary replica (server.register sender payload) ↔
        False ∨ ¬((sender = primary ∨ sender = replica) ∧ server.status sender = .failed) ∧ _
      rw [NameServer.register_joined, false_or]
      split
      · rename_i down
        rw [(sound.joined named payload).recovered, Promoted, same, Promoted]
        refine (and_comm).trans (and_congr_left fun _ => ?_)
        rw [and_iff_left down, not_or, ← ne_eq, ← ne_eq, ne_comm, ne_comm (a := replica)]
      · rename_i up
        rw [Promoted, same, Promoted]
        exact (and_iff_right fun turned => up turned.2).symm

theorem primaryLost_run {events : List PairEvent} (named : ∀ event ∈ events, event.Named) :
    OnePairEach (run NameServer.pairStep NameServer.started events) ∧
      (Promoted primary replica (run NameServer.pairStep NameServer.started events) ↔
        PrimaryLost events primary replica) :=
  mark_iff_since (by simp [Promoted, NameServer.started]) OnePairEach.started
    (fun _ event member sound => sound.step (named event member))
    fun _ event member sound => sound.promoted_step (named event member)

theorem find?_unique {α : Type*} {items : List α} {test : α → Bool}
    (unique : ∀ first ∈ items, ∀ second ∈ items, test first = true → test second = true → first = second)
    (item : α) : items.find? test = some item ↔ item ∈ items ∧ test item = true := by
  constructor
  · exact fun found => ⟨List.mem_of_find?_eq_some found, List.find?_some found⟩
  · rintro ⟨member, passed⟩
    obtain ⟨other, found⟩ := Option.isSome_iff_exists.mp (List.find?_isSome.mpr ⟨item, member, passed⟩)
    rw [unique item member other (List.mem_of_find?_eq_some found) passed (List.find?_some found)]
    exact found

theorem OnePairEach.find? (sound : OnePairEach server) (username : Bytes) (pair : ServerPair) :
    findPairBySs server.pairs username = some pair ↔ pair ∈ server.pairs ∧ pair.Has username := by
  rw [← pair.has_iff username]
  exact find?_unique (fun first one second two left right =>
    sound.unique one two ((first.has_iff username).mp left) ((second.has_iff username).mp right)) pair

theorem OnePairEach.getReplica (sound : OnePairEach server) (first second : Bytes) :
    replicationGetReplica server.pairs first = some second ↔ (first, second) ∈ pairNames server.pairs := by
  have found := @find?_unique _ server.pairs (fun pair => pair.primarySs = first)
    fun _ one _ two left right =>
      sound.same_names one two ((of_decide_eq_true left).trans (of_decide_eq_true right).symm)
  simp only [replicationGetReplica, Option.map_eq_some_iff, found, pairNames, List.mem_map, Prod.mk.injEq,
    decide_eq_true_eq, and_assoc]

theorem OnePairEach.getPrimary (sound : OnePairEach server) (first second : Bytes) :
    replicationGetPrimary server.pairs second = some first ↔ (first, second) ∈ pairNames server.pairs := by
  have found := @find?_unique _ server.pairs (fun pair => pair.replicaSs = second)
    fun _ one _ two left right =>
      sound.unique one two (Or.inr (of_decide_eq_true left)) (Or.inr (of_decide_eq_true right))
  simp only [replicationGetPrimary, Option.map_eq_some_iff, found, pairNames, List.mem_map, Prod.mk.injEq,
    decide_eq_true_eq, and_assoc, and_comm]

theorem OnePairEach.source (sound : OnePairEach server) (recovered other : Bytes) :
    recoverySource server.pairs recovered = some other ↔
      Promoted recovered other server ∨
        (other, recovered) ∈ pairNames server.pairs ∧ ¬Promoted other recovered server := by
  unfold recoverySource
  cases found : findPairBySs server.pairs recovered with
  | none =>
      have nowhere (primary replica : Bytes) (here : primary = recovered ∨ replica = recovered) :
          (primary, replica) ∉ pairNames server.pairs := by
        intro member
        obtain ⟨pair, inside, names⟩ := List.mem_map.mp member
        obtain ⟨rfl, rfl⟩ := Prod.mk.inj names
        exact nomatch found.symm.trans ((sound.find? recovered pair).mpr ⟨inside, here⟩)
      rw [Option.map_none, Option.getD_none, if_neg (by decide), sound.getPrimary]
      refine iff_of_false (nowhere _ _ (Or.inr rfl)) ?_
      rintro (promoted | ⟨member, _⟩)
      · exact nowhere _ _ (Or.inl rfl) promoted.named
      · exact nowhere _ _ (Or.inr rfl) member
  | some pair =>
      obtain ⟨inside, own⟩ := (sound.find? recovered pair).mp found
      rw [Option.map_some, Option.getD_some]
      split
      · rename_i lost
        have promoted : ∀ replacement ∈ server.pairs, replacement.Has recovered →
            replacement.status = .primaryFailed := by
          intro replacement member has
          rw [sound.unique member inside has own]
          exact lost
        have whole (primary replica : Bytes) (here : primary = recovered ∨ replica = recovered)
            (named : (primary, replica) ∈ pairNames server.pairs) : Promoted primary replica server := by
          obtain ⟨mate, member, names⟩ := List.mem_map.mp named
          obtain ⟨rfl, rfl⟩ := Prod.mk.inj names
          have status := promoted mate member here
          rw [Promoted, ← status]
          exact member
        rw [sound.getReplica]
        constructor
        · exact fun named => Or.inl (whole _ _ (Or.inl rfl) named)
        · rintro (standsIn | ⟨named, kept⟩)
          · exact standsIn.named
          · exact absurd (whole _ _ (Or.inr rfl) named) kept
      · rename_i kept
        have never (primary replica : Bytes) (here : primary = recovered ∨ replica = recovered) :
            ¬Promoted primary replica server := by
          intro promoted
          rw [← sound.unique promoted inside here own] at kept
          exact kept rfl
        rw [sound.getPrimary, or_iff_right (never _ _ (Or.inl rfl)),
          and_iff_left (never _ _ (Or.inr rfl))]

end

def lostPrimary : List PairEvent :=
  [.register (lit "ss1") (lit "host=127.0.0.1,client_port=6001,storage=s1,files=a.txt|ann|2|1|2"),
    .register (lit "ss1_backup") (backupPayload ""), .heartbeat (lit "ss1"),
    .synced (lit "ss1") (lit "ss1_backup"), .giveUp (lit "ss1"), .failover (lit "ss1")]

theorem lostPrimary_named : ∀ event ∈ lostPrimary, event.Named := by
  have first : ServerName (lit "ss1") := ⟨by decide, by decide⟩
  have second : ServerName (lit "ss1_backup") := ⟨by decide, by decide⟩
  simp [lostPrimary, PairEvent.Named, first, second]

end SharedFileSystem
