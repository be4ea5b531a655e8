import SharedFileSystem.NameServer
import SharedFileSystem.Lib.Runs

/-!
The heartbeat monitor (`nm/heartbeat_monitor.c`): the handlers of SS_REGISTER and HEARTBEAT enter
the last contact of a storage server into a list, and a thread walks the list again and again,
counts the overdue servers, and calls back with the lock released for each one that it gives up.
-/

namespace SharedFileSystem

open ByteText KeyedList Runs

def heartbeatTimeoutSec : Int := 15

def maxMissedHeartbeats : Nat := 3

structure HeartbeatStatus where
  ssUsername : Bytes
  lastHeartbeat : Int
  firstSeen : Int
  status : SSStatus
  missedCount : Nat
deriving DecidableEq, Repr

-- the field `username` of a message
structure SsName where
  bytes : Bytes
  short : bytes.length ≤ 63
deriving DecidableEq

-- where `monitor_thread_func` stands; it holds the lock in `walking` alone
inductive MonitorPhase where
  | sleeping
  | walking (now : Int) (current : Nat)
  | notifying (now : Int) (username : Bytes)
  | calling (now : Int) (username : Bytes)
deriving DecidableEq, Repr

def MonitorPhase.locked : MonitorPhase → Bool
  | .walking _ _ => true
  | .sleeping | .notifying _ _ | .calling _ _ => false

structure HeartbeatMonitor where
  heartbeatList : List HeartbeatStatus
  monitorRunning : Bool
  failureCallback : Bool
  phase : MonitorPhase
  clock : Int
  -- the threads that have not found their server and have not registered it yet
  updates : List SsName

def HeartbeatMonitor.started (clock : Int) : HeartbeatMonitor := ⟨[], true, true, .sleeping, clock, []⟩

def HeartbeatMonitor.knows (monitor : HeartbeatMonitor) (username : Bytes) : Bool :=
  monitor.heartbeatList.any fun entry => entry.ssUsername = username

def HeartbeatMonitor.registerSs (monitor : HeartbeatMonitor) (username : Bytes) : HeartbeatMonitor :=
  { monitor with
    heartbeatList :=
      if monitor.knows username then
        modifyKey HeartbeatStatus.ssUsername username (fun entry => { entry with
          lastHeartbeat := monitor.clock
          status := .alive
          missedCount := 0 }) monitor.heartbeatList
      else ⟨username.take 63, monitor.clock, monitor.clock, .alive, 0⟩ :: monitor.heartbeatList }

def HeartbeatMonitor.update (monitor : HeartbeatMonitor) (server : SsName) : HeartbeatMonitor :=
  if monitor.knows server.bytes then
    { monitor with
      heartbeatList := modifyKey HeartbeatStatus.ssUsername server.bytes (fun entry => { entry with
        lastHeartbeat := monitor.clock
        missedCount := 0
        status := if entry.status = .failed then .alive else entry.status }) monitor.heartbeatList }
  else { monitor with updates := server :: monitor.updates }

def HeartbeatMonitor.getStatus (monitor : HeartbeatMonitor) (username : Bytes) : SSStatus :=
  match monitor.heartbeatList.find? fun entry => entry.ssUsername = username with
  | none => .unknown
  | some entry => entry.status

def HeartbeatMonitor.visit (monitor : HeartbeatMonitor) (now : Int) (current : Nat) :
    HeartbeatMonitor :=
  match monitor.heartbeatList[current]? with
  | none => { monitor with phase := .sleeping }
  | some entry =>
      if entry.status = .alive ∧ heartbeatTimeoutSec < now - entry.lastHeartbeat then
        let missed := entry.missedCount + 1
        if maxMissedHeartbeats ≤ missed then
          { monitor with
            heartbeatList := monitor.heartbeatList.set current
              { entry with missedCount := missed, status := .failed }
            phase := if monitor.failureCallback then .notifying now (entry.ssUsername.take 63)
              else .walking now (current + 1) }
        else
          { monitor with
            heartbeatList := monitor.heartbeatList.set current { entry with missedCount := missed }
            phase := .walking now (current + 1) }
      else { monitor with phase := .walking now (current + 1) }

def HeartbeatMonitor.resume (monitor : HeartbeatMonitor) (now : Int) (username : Bytes) :
    HeartbeatMonitor :=
  { monitor with
    phase :=
      match monitor.heartbeatList.findIdx? fun entry => entry.ssUsername = username with
      | none => .walking now 0
      | some place => .walking now (place + 1) }

inductive MonitorEvent where
  | tick (seconds : Nat)
  | registerSs (server : SsName)
  | update (server : SsName)
  | finishUpdate (server : SsName)
  | stop
  | beginPass
  | visit
  | notify
  | resume

-- `none` where the lock is held by the other side, or the thread is not at that point
def HeartbeatMonitor.step (monitor : HeartbeatMonitor) : MonitorEvent → Option HeartbeatMonitor
  | .tick seconds => some { monitor with clock := monitor.clock + seconds }
  | .registerSs server =>
      if monitor.phase.locked then none else some (monitor.registerSs server.bytes)
  | .update server => if monitor.phase.locked then none else some (monitor.update server)
  | .finishUpdate server =>
      if monitor.phase.locked ∨ server ∉ monitor.updates then none
      else some { monitor.registerSs server.bytes with updates := monitor.updates.erase server }
  | .stop => some { monitor with monitorRunning := false }
  | .beginPass =>
      if monitor.phase = .sleeping ∧ monitor.monitorRunning then
        some { monitor with phase := .walking monitor.clock 0 }
      else none
  | .visit => match monitor.phase with
      | .walking now current => some (monitor.visit now current)
      | _ => none
  | .notify => match monitor.phase with
      | .notifying now username => some { monitor with phase := .calling now username }
      | _ => none
  | .resume => match monitor.phase with
      | .calling now username => some (monitor.resume now username)
      | _ => none

inductive Sight where
  | contact (username : Bytes) (time : Int)
  | pass (now : Int)
deriving DecidableEq, Repr

def lastContact (username : Bytes) : List Sight → Option Int
  | [] => none
  | .contact other time :: rest => if other = username then some time else lastContact username rest
  | .pass _ :: rest => lastContact username rest

def passesSince (username : Bytes) : List Sight → List Int
  | [] => []
  | .contact other _ :: rest => if other = username then [] else passesSince username rest
  | .pass now :: rest => now :: passesSince username rest

def overdue (since now : Int) : Bool := heartbeatTimeoutSec < now - since

structure Watched where
  monitor : HeartbeatMonitor
  sights : List Sight
  -- the servers that have gone from ALIVE to FAILED, and those of the calls of the callback
  failures : List Bytes
  calls : List Bytes

def Watched.started (clock : Int) : Watched := ⟨HeartbeatMonitor.started clock, [], [], []⟩

def HeartbeatMonitor.sights (monitor : HeartbeatMonitor) : MonitorEvent → List Sight
  | .registerSs server | .update server | .finishUpdate server =>
      [.contact server.bytes monitor.clock]
  | .beginPass => [.pass monitor.clock]
  | .tick _ | .stop | .visit | .notify | .resume => []

def newlyFailed (before after : HeartbeatMonitor) : List Bytes :=
  (before.heartbeatList.map HeartbeatStatus.ssUsername).filter fun username =>
    before.getStatus username = .alive && after.getStatus username = .failed

def HeartbeatMonitor.pendingCall (monitor : HeartbeatMonitor) : List Bytes :=
  match monitor.phase with
  | .notifying _ username => [username]
  | .sleeping | .walking _ _ | .calling _ _ => []

def HeartbeatMonitor.callsMade (monitor : HeartbeatMonitor) : MonitorEvent → List Bytes
  | .notify => monitor.pendingCall
  | _ => []

def Watched.step (watched : Watched) (event : MonitorEvent) : Watched :=
  match watched.monitor.step event with
  | none => watched
  | some after =>
      { monitor := after
        sights := watched.monitor.sights event ++ watched.sights
        failures := newlyFailed watched.monitor after ++ watched.failures
        calls := watched.monitor.callsMade event ++ watched.calls }

abbrev HeartbeatMonitor.names (monitor : HeartbeatMonitor) : List Bytes :=
  monitor.heartbeatList.map HeartbeatStatus.ssUsername

theorem getStatus_of_mem {monitor : HeartbeatMonitor} (distinct : monitor.names.Nodup)
    {entry : HeartbeatStatus} (member : entry ∈ monitor.heartbeatList) :
    monitor.getStatus entry.ssUsername = entry.status := by
  rw [HeartbeatMonitor.getStatus, find?_key HeartbeatStatus.ssUsername distinct member]

theorem entry_of_getStatus {monitor : HeartbeatMonitor} {username : Bytes} {status : SSStatus}
    (known : status ≠ .unknown) (reads : monitor.getStatus username = status) :
    ∃ entry ∈ monitor.heartbeatList, entry.ssUsername = username ∧ entry.status = status := by
  unfold HeartbeatMonitor.getStatus at reads
  split at reads
  · exact absurd reads.symm known
  · rename_i entry found
    exact ⟨entry, List.mem_of_find?_eq_some found, by simpa using List.find?_some found, reads⟩

-- the list `after` is the list `before` but for one entry
structure Renewed (before after : List HeartbeatStatus) (entry : HeartbeatStatus) : Prop where
  here : entry ∈ after
  others : ∀ other ∈ after, other = entry ∨ other.ssUsername ≠ entry.ssUsername ∧ other ∈ before

theorem renewed_middle {pre post : List HeartbeatStatus} {old new : HeartbeatStatus}
    (distinct : ((pre ++ old :: post).map HeartbeatStatus.ssUsername).Nodup)
    (same : new.ssUsername = old.ssUsername) : Renewed (pre ++ old :: post) (pre ++ new :: post) new := by
  refine ⟨by simp, fun other member => ?_⟩
  by_cases here : other = new
  · exact Or.inl here
  · have rest : other ∈ pre ++ post := by simpa [here] using member
    have moved : (old.ssUsername :: (pre ++ post).map HeartbeatStatus.ssUsername).Nodup := by
      rw [← List.map_cons]
      exact (List.perm_middle.map _).nodup_iff.mp distinct
    refine Or.inr ⟨fun clash => ?_, ?_⟩
    · refine (List.nodup_cons.mp moved).1 (List.mem_map.mpr ⟨other, rest, ?_⟩)
      exact clash.trans same
    · rw [List.mem_append] at rest
      rw [List.mem_append, List.mem_cons]
      tauto

theorem renewed_set {list : List HeartbeatStatus} {place : Nat} {old new : HeartbeatStatus}
    (distinct : (list.map HeartbeatStatus.ssUsername).Nodup) (found : list[place]? = some old)
    (same : new.ssUsername = old.ssUsername) :
    Renewed list (list.set place new) new ∧
      (list.set place new).map HeartbeatStatus.ssUsername = list.map HeartbeatStatus.ssUsername := by
  obtain ⟨bound, rfl⟩ := List.getElem?_eq_some_iff.mp found
  have split : list = list.take place ++ list[place] :: list.drop (place + 1) := by
    rw [List.getElem_cons_drop, List.take_append_drop]
  have replaced : list.set place new = list.take place ++ new :: list.drop (place + 1) :=
    List.set_eq_take_append_cons_drop.trans (if_pos bound)
  constructor
  · rw [replaced]
    conv in Renewed list => rw [split]
    exact renewed_middle (split ▸ distinct) same
  · rw [replaced]
    conv_rhs => rw [split]
    simp only [List.map_append, List.map_cons, same]

theorem renewed_modifyKey {list : List HeartbeatStatus} {username : Bytes}
    {change : HeartbeatStatus → HeartbeatStatus}
    (distinct : (list.map HeartbeatStatus.ssUsername).Nodup)
    (keeps : ∀ entry, (change entry).ssUsername = entry.ssUsername)
    (known : list.any (fun entry => entry.ssUsername = username)) :
    ∃ entry, entry.ssUsername = username ∧
      Renewed list (modifyKey HeartbeatStatus.ssUsername username change list) (change entry) := by
  obtain ⟨entry, found⟩ : ∃ entry,
      list.find? (fun other => other.ssUsername = username) = some entry := by
    rw [← Option.isSome_iff_exists, List.find?_isSome]
    simpa using known
  obtain ⟨pre, post, rfl, changed⟩ :=
    @modifyKey_found _ _ HeartbeatStatus.ssUsername _ _ change _ _ found
  refine ⟨entry, by simpa using List.find?_some found, ?_⟩
  rw [changed]
  exact renewed_middle distinct (keeps entry)

theorem newlyFailed_same {before after : HeartbeatMonitor}
    (same : after.heartbeatList = before.heartbeatList) : newlyFailed before after = [] := by
  rw [newlyFailed, List.filter_eq_nil_iff]
  intro username _
  have status : after.getStatus username = before.getStatus username := by
    rw [HeartbeatMonitor.getStatus, HeartbeatMonitor.getStatus, same]
  rw [status]
  cases before.getStatus username with
  | unknown => decide
  | alive => decide
  | failed => decide

theorem failed_renewed {before after : HeartbeatMonitor} (distinct : before.names.Nodup)
    {entry : HeartbeatStatus} (renewed : Renewed before.heartbeatList after.heartbeatList entry)
    {username : Bytes} (alive : before.getStatus username = .alive)
    (failed : after.getStatus username = .failed) :
    username = entry.ssUsername ∧ entry.status = .failed := by
  obtain ⟨found, member, rfl, status⟩ := entry_of_getStatus (by decide) failed
  rcases renewed.others found member with rfl | ⟨_, kept⟩
  · exact ⟨rfl, status⟩
  · rw [getStatus_of_mem distinct kept, status] at alive
    cases alive

theorem newlyFailed_contact {before after : HeartbeatMonitor} (distinct : before.names.Nodup)
    {entry : HeartbeatStatus} (renewed : Renewed before.heartbeatList after.heartbeatList entry)
    (well : entry.status ≠ .failed) : newlyFailed before after = [] := by
  rw [newlyFailed, List.filter_eq_nil_iff]
  intro username _ both
  rw [Bool.and_eq_true, decide_eq_true_eq, decide_eq_true_eq] at both
  exact well (failed_renewed distinct renewed both.1 both.2).2

theorem newlyFailed_visit {before after : HeartbeatMonitor} (distinct : before.names.Nodup)
    (kept : after.names = before.names) {old new : HeartbeatStatus}
    (member : old ∈ before.heartbeatList) (same : new.ssUsername = old.ssUsername)
    (renewed : Renewed before.heartbeatList after.heartbeatList new) (alive : old.status = .alive)
    (failed : new.status = .failed) : newlyFailed before after = [old.ssUsername] := by
  have only : ∀ username ∈ before.names,
      (before.getStatus username = .alive && after.getStatus username = .failed) =
        decide (username = old.ssUsername) := by
    intro username _
    rw [Bool.eq_iff_iff, Bool.and_eq_true, decide_eq_true_eq, decide_eq_true_eq, decide_eq_true_eq]
    constructor
    · rintro ⟨was, becomes⟩
      exact (failed_renewed distinct renewed was becomes).1.trans same
    · rintro rfl
      refine ⟨(getStatus_of_mem distinct member).trans alive, ?_⟩
      rw [← same, getStatus_of_mem (kept ▸ distinct) renewed.here, failed]
  have once : before.names.count old.ssUsername = 1 :=
    List.count_eq_one_of_mem distinct (List.mem_map_of_mem member)
  rw [newlyFailed, List.filter_congr only, List.filter_eq, once, List.replicate_one]

def MonitorPhase.pass : MonitorPhase → Option Int
  | .sleeping => none
  | .walking now _ | .notifying now _ | .calling now _ => some now

def MonitorPhase.called : MonitorPhase → Option Bytes
  | .sleeping | .walking _ _ => none
  | .notifying _ username | .calling _ username => some username

def MonitorPhase.unvisited (names : List Bytes) : MonitorPhase → List Bytes
  | .sleeping => []
  | .walking _ current => names.drop current
  | .notifying _ username | .calling _ username => (names.dropWhile (· ≠ username)).tail

theorem unvisited_found {names : List Bytes} (distinct : names.Nodup) {place : Nat} {username : Bytes}
    (found : names[place]? = some username) :
    (names.dropWhile (· ≠ username)).tail = names.drop (place + 1) := by
  induction names generalizing place with
  | nil => simp at found
  | cons first rest ih =>
      cases place with
      | zero =>
          obtain rfl : first = username := by simpa using found
          simp
      | succ place =>
          have later : rest[place]? = some username := by simpa using found
          have apart : first ≠ username := by
            rintro rfl
            exact (List.nodup_cons.mp distinct).1 (List.mem_of_getElem? later)
          rw [List.dropWhile_cons_of_pos (by simpa using apart), List.drop_succ_cons]
          exact ih (List.nodup_cons.mp distinct).2 later

theorem unvisited_cons {phase : MonitorPhase} (unlocked : phase.locked = false) {names : List Bytes}
    {fresh : Bytes} (absent : fresh ∉ names)
    (present : ∀ username, phase.called = some username → username ∈ names) :
    phase.unvisited (fresh :: names) = phase.unvisited names := by
  have apart : ∀ username, phase.called = some username → fresh ≠ username := by
    rintro username called rfl
    exact absent (present _ called)
  cases phase with
  | sleeping => rfl
  | walking now current => cases unlocked
  | notifying now username =>
      rw [MonitorPhase.unvisited, MonitorPhase.unvisited,
        List.dropWhile_cons_of_pos (by simpa using apart username rfl)]
  | calling now username =>
      rw [MonitorPhase.unvisited, MonitorPhase.unvisited,
        List.dropWhile_cons_of_pos (by simpa using apart username rfl)]

def MonitorPhase.room (phase : MonitorPhase) (names : List Bytes) (entry : HeartbeatStatus) : Nat :=
  match phase.pass with
  | none => 0
  | some now =>
      if entry.ssUsername ∈ phase.unvisited names ∧ overdue entry.lastHeartbeat now then 1 else 0

theorem room_mono {phase next : MonitorPhase} {names names' : List Bytes} {entry : HeartbeatStatus}
    (same : next.pass = phase.pass)
    (fewer : entry.ssUsername ∈ next.unvisited names' → entry.ssUsername ∈ phase.unvisited names) :
    next.room names' entry ≤ phase.room names entry := by
  rw [MonitorPhase.room, MonitorPhase.room, same]
  cases phase.pass with
  | none => exact le_rfl
  | some now =>
      dsimp only
      by_cases later : entry.ssUsername ∈ next.unvisited names' ∧ overdue entry.lastHeartbeat now
      · rw [if_pos later, if_pos ⟨fewer later.1, later.2⟩]
      · rw [if_neg later]
        exact Nat.zero_le _

theorem room_visited {phase : MonitorPhase} {names : List Bytes} {entry : HeartbeatStatus}
    (visited : entry.ssUsername ∉ phase.unvisited names) : phase.room names entry = 0 := by
  rw [MonitorPhase.room]
  cases phase.pass with
  | none => rfl
  | some now => exact if_neg fun both => visited both.1

theorem room_sleeping {phase : MonitorPhase} (idle : phase.pass = none) (names : List Bytes)
    (entry : HeartbeatStatus) : phase.room names entry = 0 := by
  rw [MonitorPhase.room, idle]

theorem room_recent {phase : MonitorPhase} {names : List Bytes} {entry : HeartbeatStatus}
    (begun : ∀ now, phase.pass = some now → now ≤ entry.lastHeartbeat) :
    phase.room names entry = 0 := by
  rw [MonitorPhase.room]
  cases stands : phase.pass with
  | none => rfl
  | some now =>
      refine if_neg fun both => ?_
      have early := begun now stands
      have late : heartbeatTimeoutSec < now - entry.lastHeartbeat := of_decide_eq_true both.2
      unfold heartbeatTimeoutSec at late
      omega

structure Counted (sights : List Sight) (phase : MonitorPhase) (names : List Bytes)
    (entry : HeartbeatStatus) : Prop where
  short : entry.ssUsername.length ≤ 63
  contacted : lastContact entry.ssUsername sights = some entry.lastHeartbeat
  current : ∀ now, phase.pass = some now → overdue entry.lastHeartbeat now →
    (passesSince entry.ssUsername sights).head? = some now
  counted : entry.missedCount + phase.room names entry ≤
    (passesSince entry.ssUsername sights).countP (overdue entry.lastHeartbeat)

structure Watched.Sound (watched : Watched) : Prop where
  hooked : watched.monitor.failureCallback = true
  distinct : watched.monitor.names.Nodup
  begun : ∀ now, watched.monitor.phase.pass = some now → now ≤ watched.monitor.clock
  present : ∀ username, watched.monitor.phase.called = some username →
    username ∈ watched.monitor.names
  entries : ∀ entry ∈ watched.monitor.heartbeatList,
    Counted watched.sights watched.monitor.phase watched.monitor.names entry
  answered : watched.failures = watched.monitor.pendingCall ++ watched.calls

theorem sound_started (clock : Int) : (Watched.started clock).Sound where
  hooked := rfl
  distinct := List.nodup_nil
  begun := by
    intro now passing
    cases passing
  present := by
    intro username called
    cases called
  entries := by
    intro entry member
    cases member
  answered := rfl

theorem Counted.mono {sights : List Sight} {phase next : MonitorPhase} {names names' : List Bytes}
    {entry : HeartbeatStatus} (counted : Counted sights phase names entry)
    (same : next.pass = phase.pass)
    (fewer : entry.ssUsername ∈ next.unvisited names' → entry.ssUsername ∈ phase.unvisited names) :
    Counted sights next names' entry where
  short := counted.short
  contacted := counted.contacted
  current := by
    rw [same]
    exact counted.current
  counted := by
    have less := room_mono same fewer
    have bound := counted.counted
    omega

theorem Counted.other {sights : List Sight} {phase : MonitorPhase} {names : List Bytes}
    {entry : HeartbeatStatus} (counted : Counted sights phase names entry) {username : Bytes}
    (apart : entry.ssUsername ≠ username) (time : Int) :
    Counted (.contact username time :: sights) phase names entry := by
  have last : lastContact entry.ssUsername (.contact username time :: sights) =
      lastContact entry.ssUsername sights := if_neg apart.symm
  have since : passesSince entry.ssUsername (.contact username time :: sights) =
      passesSince entry.ssUsername sights := if_neg apart.symm
  refine ⟨counted.short, last.trans counted.contacted, ?_, ?_⟩
  · rw [since]
    exact counted.current
  · rw [since]
    exact counted.counted

theorem counted_contact {sights : List Sight} {phase : MonitorPhase} {names : List Bytes}
    {entry : HeartbeatStatus} (short : entry.ssUsername.length ≤ 63) (reset : entry.missedCount = 0)
    (begun : ∀ now, phase.pass = some now → now ≤ entry.lastHeartbeat) :
    Counted (.contact entry.ssUsername entry.lastHeartbeat :: sights) phase names entry where
  short := short
  contacted := if_pos rfl
  current := by
    intro now passing late
    have early := begun now passing
    have past : heartbeatTimeoutSec < now - entry.lastHeartbeat := of_decide_eq_true late
    unfold heartbeatTimeoutSec at past
    omega
  counted := by
    rw [reset, room_recent begun]
    exact Nat.zero_le _

theorem counted_pass {sights : List Sight} {names : List Bytes} {entry : HeartbeatStatus}
    (counted : Counted sights .sleeping names entry) (now : Int) :
    Counted (.pass now :: sights) (.walking now 0) names entry where
  short := counted.short
  contacted := counted.contacted
  current := by
    rintro other passing _
    exact passing
  counted := by
    have before : entry.missedCount + 0 ≤
        (passesSince entry.ssUsername sights).countP (overdue entry.lastHeartbeat) := counted.counted
    rw [passesSince, List.countP_cons]
    have room : (MonitorPhase.walking now 0).room names entry ≤
        if overdue entry.lastHeartbeat now then 1 else 0 := by
      rw [MonitorPhase.room]
      dsimp only [MonitorPhase.pass]
      split
      · rename_i both
        rw [if_pos both.2]
      · exact Nat.zero_le _
    omega

structure Contacted (before after : HeartbeatMonitor) (username : Bytes) : Prop where
  phase : after.phase = before.phase
  clock : after.clock = before.clock
  hooked : after.failureCallback = before.failureCallback
  names : after.names = before.names ∨
    username ∉ before.names ∧ after.names = username :: before.names
  renewed : ∃ entry, Renewed before.heartbeatList after.heartbeatList entry ∧
    entry.ssUsername = username ∧ entry.lastHeartbeat = before.clock ∧ entry.missedCount = 0 ∧
    entry.status ≠ .failed

theorem contacted_registerSs {monitor : HeartbeatMonitor} (distinct : monitor.names.Nodup)
    (server : SsName) : Contacted monitor (monitor.registerSs server.bytes) server.bytes := by
  unfold HeartbeatMonitor.registerSs
  by_cases known : monitor.knows server.bytes
  · obtain ⟨entry, same, renewed⟩ := @renewed_modifyKey _ _ (fun entry => { entry with
      lastHeartbeat := monitor.clock, status := .alive, missedCount := 0 }) distinct
      (fun _ => rfl) known
    simp only [known, if_true]
    refine ⟨rfl, rfl, rfl, Or.inl ?_, _, renewed, same, rfl, rfl, ?_⟩
    · exact map_modifyKey HeartbeatStatus.ssUsername (by intro entry; rfl) _
    · intro failed
      cases failed
  · simp only [known, if_false, Bool.false_eq_true]
    have absent : server.bytes ∉ monitor.names := by
      intro member
      obtain ⟨entry, inside, same⟩ := List.mem_map.mp member
      exact known (List.any_eq_true.mpr ⟨entry, inside, by simpa using same⟩)
    have whole : server.bytes.take 63 = server.bytes := List.take_of_length_le server.short
    rw [whole]
    refine ⟨rfl, rfl, rfl, Or.inr ⟨absent, rfl⟩, ⟨server.bytes, monitor.clock, monitor.clock, .alive, 0⟩,
      ⟨by simp, ?_⟩, rfl, rfl, rfl, ?_⟩
    · intro other member
      rcases List.mem_cons.mp member with same | old
      · exact Or.inl same
      · exact Or.inr ⟨fun clash => absent (List.mem_map.mpr ⟨other, old, clash⟩), old⟩
    · intro failed
      cases failed

theorem contacted_update {monitor : HeartbeatMonitor} (distinct : monitor.names.Nodup)
    {server : SsName} (known : monitor.knows server.bytes) :
    Contacted monitor (monitor.update server) server.bytes := by
  obtain ⟨entry, same, renewed⟩ := @renewed_modifyKey _ _ (fun entry => { entry with
    lastHeartbeat := monitor.clock, missedCount := 0,
    status := if entry.status = .failed then .alive else entry.status }) distinct
    (fun _ => rfl) known
  rw [HeartbeatMonitor.update, if_pos known]
  refine ⟨rfl, rfl, rfl, Or.inl ?_, _, renewed, same, rfl, rfl, ?_⟩
  · exact map_modifyKey HeartbeatStatus.ssUsername (by intro entry; rfl) _
  · dsimp only
    split
    · decide
    · assumption

theorem Contacted.newlyFailed {before after : HeartbeatMonitor} {username : Bytes}
    (contacted : Contacted before after username) (distinct : before.names.Nodup) :
    newlyFailed before after = [] := by
  obtain ⟨entry, renewed, _, _, _, well⟩ := contacted.renewed
  exact newlyFailed_contact distinct renewed well

theorem Watched.Sound.contact {watched : Watched} (sound : watched.Sound) {after : HeartbeatMonitor}
    {server : SsName} (unlocked : watched.monitor.phase.locked = false)
    (contacted : Contacted watched.monitor after server.bytes) :
    Watched.Sound ⟨after, .contact server.bytes watched.monitor.clock :: watched.sights,
      watched.failures, watched.calls⟩ := by
  obtain ⟨entry, renewed, named, fresh, reset, _⟩ := contacted.renewed
  have waiting : after.phase.unvisited after.names =
      watched.monitor.phase.unvisited watched.monitor.names := by
    rw [contacted.phase]
    rcases contacted.names with same | ⟨absent, front⟩
    · rw [same]
    · rw [front]
      exact unvisited_cons unlocked absent sound.present
  constructor
  · exact contacted.hooked.trans sound.hooked
  · rcases contacted.names with same | ⟨absent, front⟩
    · exact same ▸ sound.distinct
    · exact front ▸ List.nodup_cons.mpr ⟨absent, sound.distinct⟩
  · dsimp only
    rw [contacted.phase, contacted.clock]
    exact sound.begun
  · dsimp only
    rw [contacted.phase]
    intro username called
    have inside := sound.present username called
    rcases contacted.names with same | ⟨_, front⟩
    · exact same ▸ inside
    · exact front ▸ List.mem_cons_of_mem _ inside
  · intro other member
    rcases renewed.others other member with rfl | ⟨apart, kept⟩
    · dsimp only
      rw [← named, ← fresh]
      refine counted_contact (named ▸ server.short) reset ?_
      rw [contacted.phase, fresh]
      exact sound.begun
    · refine Counted.other ?_ (named ▸ apart) _
      refine (sound.entries other kept).mono (by rw [contacted.phase]) ?_
      exact fun inside => waiting ▸ inside
  · dsimp only [HeartbeatMonitor.pendingCall]
    rw [contacted.phase]
    exact sound.answered

theorem visit_cases {monitor : HeartbeatMonitor} (hooked : monitor.failureCallback = true)
    (now : Int) (current : Nat) :
    (monitor.heartbeatList[current]? = none ∧
      monitor.visit now current = { monitor with phase := .sleeping }) ∨
    monitor.visit now current = { monitor with phase := .walking now (current + 1) } ∨
    ∃ entry, monitor.heartbeatList[current]? = some entry ∧ entry.status = .alive ∧
      overdue entry.lastHeartbeat now ∧
      ((entry.missedCount + 1 < maxMissedHeartbeats ∧ monitor.visit now current = { monitor with
          heartbeatList := monitor.heartbeatList.set current
            { entry with missedCount := entry.missedCount + 1 }
          phase := .walking now (current + 1) }) ∨
        (maxMissedHeartbeats ≤ entry.missedCount + 1 ∧ monitor.visit now current = { monitor with
          heartbeatList := monitor.heartbeatList.set current
            { entry with missedCount := entry.missedCount + 1, status := .failed }
          phase := .notifying now (entry.ssUsername.take 63) })) := by
  unfold HeartbeatMonitor.visit
  cases found : monitor.heartbeatList[current]? with
  | none => exact Or.inl ⟨rfl, rfl⟩
  | some entry =>
      refine Or.inr ?_
      by_cases late : entry.status = .alive ∧ heartbeatTimeoutSec < now - entry.lastHeartbeat
      · refine Or.inr ⟨entry, rfl, late.1, decide_eq_true late.2, ?_⟩
        by_cases limit : maxMissedHeartbeats ≤ entry.missedCount + 1
        · refine Or.inr ⟨limit, ?_⟩
          simp only [late, limit, hooked, and_self, if_true]
        · refine Or.inl ⟨Nat.lt_of_not_le limit, ?_⟩
          simp only [late, limit, and_self, if_true, if_false]
      · refine Or.inl ?_
        simp only [late, if_false]

theorem Watched.Sound.onward {watched : Watched} (sound : watched.Sound) {phase : MonitorPhase}
    (running : Bool) (passing : ∀ now, phase.pass = some now → watched.monitor.phase.pass = some now)
    (called : ∀ username, phase.called = some username → username ∈ watched.monitor.names)
    (fewer : ∀ username, username ∈ phase.unvisited watched.monitor.names →
      username ∈ watched.monitor.phase.unvisited watched.monitor.names)
    {calls : List Bytes}
    (answered : watched.failures =
      ({ watched.monitor with phase := phase } : HeartbeatMonitor).pendingCall ++ calls) :
    Watched.Sound ⟨{ watched.monitor with phase := phase, monitorRunning := running },
      watched.sights, watched.failures, calls⟩ where
  hooked := sound.hooked
  distinct := sound.distinct
  begun := fun now here => sound.begun now (passing now here)
  present := called
  entries := by
    intro entry member
    have counted := sound.entries entry member
    cases stands : phase.pass with
    | some now => exact counted.mono (stands.trans (passing now stands).symm) (fewer _)
    | none =>
        refine ⟨counted.short, counted.contacted, ?_, ?_⟩
        · intro now here
          cases stands.symm.trans here
        · rw [room_sleeping stands, Nat.add_zero]
          exact (Nat.le_add_right _ _).trans counted.counted
  answered := answered

theorem Watched.Sound.counts {watched : Watched} (sound : watched.Sound) {now : Int} {current : Nat}
    (walking : watched.monitor.phase = .walking now current) {entry : HeartbeatStatus}
    (found : watched.monitor.heartbeatList[current]? = some entry)
    (late : overdue entry.lastHeartbeat now) :
    entry.missedCount + 1 ≤
        (passesSince entry.ssUsername watched.sights).countP (overdue entry.lastHeartbeat) ∧
      (passesSince entry.ssUsername watched.sights).head? = some now := by
  have counted := sound.entries entry (List.mem_of_getElem? found)
  have passing : watched.monitor.phase.pass = some now := by rw [walking, MonitorPhase.pass]
  have ahead : entry.ssUsername ∈ watched.monitor.phase.unvisited watched.monitor.names := by
    have named : watched.monitor.names[current]? = some entry.ssUsername := by
      rw [List.getElem?_map, found, Option.map_some]
    obtain ⟨bound, here⟩ := List.getElem?_eq_some_iff.mp named
    rw [walking, MonitorPhase.unvisited, List.drop_eq_getElem_cons bound, here]
    exact List.mem_cons_self
  have room : watched.monitor.phase.room watched.monitor.names entry = 1 := by
    rw [MonitorPhase.room, passing]
    exact if_pos ⟨ahead, late⟩
  have bound := counted.counted
  exact ⟨room ▸ bound, counted.current now passing late⟩

theorem Watched.Sound.visited {watched : Watched} (sound : watched.Sound) {now : Int} {current : Nat}
    (walking : watched.monitor.phase = .walking now current) {old new : HeartbeatStatus}
    (found : watched.monitor.heartbeatList[current]? = some old)
    (late : overdue old.lastHeartbeat now) (same : new.ssUsername = old.ssUsername)
    (last : new.lastHeartbeat = old.lastHeartbeat) (counts : new.missedCount = old.missedCount + 1)
    {phase : MonitorPhase} (passing : phase.pass = some now)
    (called : ∀ username, phase.called = some username → username = old.ssUsername)
    (behind : phase.unvisited watched.monitor.names = watched.monitor.names.drop (current + 1))
    {failures : List Bytes}
    (answered : failures =
      ({ watched.monitor with phase := phase } : HeartbeatMonitor).pendingCall ++ watched.calls) :
    Watched.Sound ⟨{ watched.monitor with
      heartbeatList := watched.monitor.heartbeatList.set current new, phase := phase },
      watched.sights, failures, watched.calls⟩ := by
  obtain ⟨renewed, names⟩ := renewed_set sound.distinct found same
  have member := List.mem_of_getElem? found
  have before : watched.monitor.phase.pass = some now := by rw [walking, MonitorPhase.pass]
  have named : watched.monitor.names[current]? = some old.ssUsername := by
    rw [List.getElem?_map, found, Option.map_some]
  obtain ⟨bound, here⟩ := List.getElem?_eq_some_iff.mp named
  have split := List.drop_eq_getElem_cons bound
  rw [here] at split
  constructor
  · exact sound.hooked
  · change ((watched.monitor.heartbeatList.set current new).map HeartbeatStatus.ssUsername).Nodup
    exact names ▸ sound.distinct
  · intro other stands
    exact sound.begun other (before.trans (passing.symm.trans stands))
  · intro username stands
    rw [called username stands, ← same]
    exact List.mem_map_of_mem renewed.here
  · intro other inside
    dsimp only [HeartbeatMonitor.names] at names ⊢
    rw [names]
    rcases renewed.others other inside with rfl | ⟨apart, kept⟩
    · have counted := sound.entries old member
      obtain ⟨enough, first⟩ := sound.counts walking found late
      refine ⟨same ▸ counted.short, ?_, ?_, ?_⟩
      · rw [same, last]
        exact counted.contacted
      · intro other stands _
        rw [same, first, ← passing, stands]
      · have distinct := sound.distinct.sublist (List.drop_sublist current _)
        rw [split, List.nodup_cons] at distinct
        have visited : other.ssUsername ∉ phase.unvisited watched.monitor.names := by
          rw [behind, same]
          exact distinct.1
        rw [room_visited visited, same, last, counts]
        exact enough
    · refine (sound.entries other kept).mono (passing.trans before.symm) fun ahead => ?_
      rw [walking, MonitorPhase.unvisited, split]
      exact List.mem_cons_of_mem _ (behind ▸ ahead)
  · exact answered

theorem Watched.Sound.visit {watched : Watched} (sound : watched.Sound) {now : Int} {current : Nat}
    (walking : watched.monitor.phase = .walking now current) :
    Watched.Sound ⟨watched.monitor.visit now current, watched.sights,
      newlyFailed watched.monitor (watched.monitor.visit now current) ++ watched.failures,
      watched.calls⟩ := by
  have passing : watched.monitor.phase.pass = some now := by rw [walking, MonitorPhase.pass]
  have quiet : watched.failures = [] ++ watched.calls := by
    have answered := sound.answered
    rwa [HeartbeatMonitor.pendingCall, walking] at answered
  rcases visit_cases sound.hooked now current with ⟨_, ends⟩ | skips | ⟨entry, found, alive, late, moves⟩
  · rw [ends, newlyFailed_same (by rfl)]
    refine sound.onward _ ?_ ?_ ?_ quiet
    · intro other stands
      cases stands
    · intro username stands
      cases stands
    · intro username member
      cases member
  · rw [skips, newlyFailed_same (by rfl)]
    refine sound.onward _ ?_ ?_ ?_ quiet
    · intro other stands
      exact passing.trans stands
    · intro username stands
      cases stands
    · intro username member
      rw [walking]
      exact List.drop_subset_drop_left _ (Nat.le_succ current) member
  · have named : watched.monitor.names[current]? = some entry.ssUsername := by
      rw [List.getElem?_map, found, Option.map_some]
    rcases moves with ⟨_, misses⟩ | ⟨_, fails⟩
    · have renewed := (@renewed_set _ _ _ { entry with missedCount := entry.missedCount + 1 }
        sound.distinct found rfl).1
      rw [misses, newlyFailed_contact sound.distinct renewed (by rw [alive]; decide)]
      refine sound.visited walking found late (by rfl) (by rfl) (by rfl) (by rfl) ?_ (by rfl) ?_
      · intro username stands
        cases stands
      · exact quiet
    · obtain ⟨renewed, names⟩ := @renewed_set _ _ _
        { entry with missedCount := entry.missedCount + 1, status := .failed } sound.distinct found rfl
      have whole : entry.ssUsername.take 63 = entry.ssUsername :=
        List.take_of_length_le (sound.entries entry (List.mem_of_getElem? found)).short
      rw [fails, whole, newlyFailed_visit sound.distinct names (List.mem_of_getElem? found) (by rfl)
        renewed alive (by rfl)]
      refine sound.visited walking found late (by rfl) (by rfl) (by rfl) (by rfl) ?_ ?_ ?_
      · intro username stands
        exact (Option.some.inj stands).symm
      · exact unvisited_found sound.distinct named
      · rw [quiet]
        rfl

theorem resume_found {monitor : HeartbeatMonitor} (distinct : monitor.names.Nodup) {now : Int}
    {username : Bytes} (present : username ∈ monitor.names) :
    ∃ place, monitor.resume now username = { monitor with phase := .walking now (place + 1) } ∧
      monitor.names.drop (place + 1) = (monitor.names.dropWhile (· ≠ username)).tail := by
  obtain ⟨entry, member, rfl⟩ := List.mem_map.mp present
  unfold HeartbeatMonitor.resume
  cases search : monitor.heartbeatList.findIdx? fun other => other.ssUsername = entry.ssUsername with
  | none =>
      have absent := List.findIdx?_eq_none_iff.mp search entry member
      simp at absent
  | some place =>
      obtain ⟨bound, here, _⟩ := List.findIdx?_eq_some_iff_getElem.mp search
      refine ⟨place, rfl, (unvisited_found distinct ?_).symm⟩
      rw [List.getElem?_map, List.getElem?_eq_getElem bound, Option.map_some]
      exact congrArg some (of_decide_eq_true here)

theorem Watched.Sound.notify {watched : Watched} (sound : watched.Sound) {now : Int}
    {username : Bytes} (notifying : watched.monitor.phase = .notifying now username) :
    Watched.Sound ⟨{ watched.monitor with phase := .calling now username }, watched.sights,
      watched.failures, watched.monitor.callsMade .notify ++ watched.calls⟩ := by
  refine sound.onward _ ?_ ?_ ?_ sound.answered
  · rw [notifying]
    exact fun _ => id
  · exact fun other called => sound.present other (notifying ▸ called)
  · rw [notifying]
    exact fun _ => id

theorem Watched.Sound.resume {watched : Watched} (sound : watched.Sound) {now : Int}
    {username : Bytes} (calling : watched.monitor.phase = .calling now username) :
    Watched.Sound ⟨watched.monitor.resume now username, watched.sights, watched.failures,
      watched.calls⟩ := by
  have present : username ∈ watched.monitor.names := sound.present username (by rw [calling]; rfl)
  obtain ⟨place, moved, rest⟩ := @resume_found _ sound.distinct now _ present
  rw [moved]
  refine sound.onward _ ?_ ?_ ?_ ?_
  · rw [calling]
    exact fun _ => id
  · intro other stands
    cases stands
  · intro other ahead
    rw [calling, MonitorPhase.unvisited, ← rest]
    exact ahead
  · have answered := sound.answered
    rwa [HeartbeatMonitor.pendingCall, calling] at answered

theorem Watched.Sound.beginPass {watched : Watched} (sound : watched.Sound)
    (idle : watched.monitor.phase = .sleeping) :
    Watched.Sound ⟨{ watched.monitor with phase := .walking watched.monitor.clock 0 },
      .pass watched.monitor.clock :: watched.sights, watched.failures, watched.calls⟩ where
  hooked := sound.hooked
  distinct := sound.distinct
  begun := fun now passing => (Option.some.inj passing).symm.le
  present := by
    intro username stands
    cases stands
  entries := by
    intro entry member
    have counted := sound.entries entry member
    rw [idle] at counted
    exact counted_pass counted _
  answered := by
    have answered := sound.answered
    rwa [HeartbeatMonitor.pendingCall, idle] at answered

theorem Watched.Sound.unfound {watched : Watched} (sound : watched.Sound) {server : SsName}
    (unknown : ¬watched.monitor.knows server.bytes) :
    Watched.Sound ⟨watched.monitor.update server,
      .contact server.bytes watched.monitor.clock :: watched.sights, watched.failures,
      watched.calls⟩ := by
  rw [HeartbeatMonitor.update, if_neg unknown]
  refine ⟨sound.hooked, sound.distinct, sound.begun, sound.present, ?_, sound.answered⟩
  intro entry member
  refine (sound.entries entry member).other (fun same => unknown ?_) _
  exact List.any_eq_true.mpr ⟨entry, member, by simpa using same⟩

theorem newlyFailed_step {before after : HeartbeatMonitor} (distinct : before.names.Nodup)
    {event : MonitorEvent} (taken : before.step event = some after) (elsewhere : event ≠ .visit) :
    newlyFailed before after = [] := by
  cases event with
  | visit => exact absurd rfl elsewhere
  | tick | stop =>
      obtain rfl := Option.some.inj taken
      exact newlyFailed_same rfl
  | registerSs server =>
      obtain ⟨_, moved⟩ := Option.ite_none_left_eq_some.mp taken
      obtain rfl := Option.some.inj moved
      exact (contacted_registerSs distinct server).newlyFailed distinct
  | update server =>
      obtain ⟨_, moved⟩ := Option.ite_none_left_eq_some.mp taken
      obtain rfl := Option.some.inj moved
      by_cases known : before.knows server.bytes
      · exact (contacted_update distinct known).newlyFailed distinct
      · rw [HeartbeatMonitor.update, if_neg known]
        exact newlyFailed_same rfl
  | finishUpdate server =>
      obtain ⟨_, moved⟩ := Option.ite_none_left_eq_some.mp taken
      obtain rfl := Option.some.inj moved
      exact (contacted_registerSs distinct server).newlyFailed distinct
  | beginPass =>
      obtain ⟨_, moved⟩ := Option.ite_none_right_eq_some.mp taken
      obtain rfl := Option.some.inj moved
      exact newlyFailed_same rfl
  | notify | resume =>
      simp only [HeartbeatMonitor.step] at taken
      split at taken
      · obtain rfl := Option.some.inj taken
        exact newlyFailed_same rfl
      · cases taken

theorem Watched.Sound.step {watched : Watched} (sound : watched.Sound) (event : MonitorEvent) :
    (watched.step event).Sound := by
  rw [Watched.step]
  cases taken : watched.monitor.step event with
  | none => exact sound
  | some after =>
      dsimp only
      by_cases visiting : event = .visit
      · subst event
        cases stands : watched.monitor.phase with
        | sleeping | notifying | calling => simp [HeartbeatMonitor.step, stands] at taken
        | walking now current =>
            simp only [HeartbeatMonitor.step, stands, Option.some.injEq] at taken
            obtain rfl := taken
            exact sound.visit stands
      rw [newlyFailed_step sound.distinct taken visiting, List.nil_append]
      cases event with
      | visit => exact absurd rfl visiting
      | tick seconds =>
          obtain rfl := Option.some.inj taken
          refine ⟨sound.hooked, sound.distinct, ?_, sound.present, sound.entries, sound.answered⟩
          intro now passing
          have before := sound.begun now passing
          dsimp only
          omega
      | registerSs server =>
          obtain ⟨unlocked, moved⟩ := Option.ite_none_left_eq_some.mp taken
          obtain rfl := Option.some.inj moved
          exact sound.contact (Bool.eq_false_iff.mpr unlocked)
            (contacted_registerSs sound.distinct server)
      | update server =>
          obtain ⟨unlocked, moved⟩ := Option.ite_none_left_eq_some.mp taken
          obtain rfl := Option.some.inj moved
          by_cases known : watched.monitor.knows server.bytes
          · exact sound.contact (Bool.eq_false_iff.mpr unlocked)
              (contacted_update sound.distinct known)
          · exact sound.unfound known
      | finishUpdate server =>
          obtain ⟨free, moved⟩ := Option.ite_none_left_eq_some.mp taken
          obtain rfl := Option.some.inj moved
          rw [not_or] at free
          have contacted := contacted_registerSs sound.distinct server
          exact sound.contact (Bool.eq_false_iff.mpr free.1) ⟨contacted.phase, contacted.clock,
            contacted.hooked, contacted.names, contacted.renewed⟩
      | stop =>
          obtain rfl := Option.some.inj taken
          exact sound.onward false (fun _ => id) sound.present (fun _ => id) sound.answered
      | beginPass =>
          obtain ⟨idle, moved⟩ := Option.ite_none_right_eq_some.mp taken
          obtain rfl := Option.some.inj moved
          exact sound.beginPass idle.1
      | notify =>
          cases stands : watched.monitor.phase with
          | sleeping | walking | calling => simp [HeartbeatMonitor.step, stands] at taken
          | notifying now username =>
              simp only [HeartbeatMonitor.step, stands, Option.some.injEq] at taken
              obtain rfl := taken
              exact sound.notify stands
      | resume =>
          cases stands : watched.monitor.phase with
          | sleeping | walking | notifying => simp [HeartbeatMonitor.step, stands] at taken
          | calling now username =>
              simp only [HeartbeatMonitor.step, stands, Option.some.injEq] at taken
              obtain rfl := taken
              exact sound.resume stands

theorem sound_run (clock : Int) (events : List MonitorEvent) :
    (run Watched.step (Watched.started clock) events).Sound :=
  List.foldlRecOn events Watched.step (sound_started clock) fun _ sound event _ => sound.step event

theorem HeartbeatMonitor.pendingCall_next (monitor : HeartbeatMonitor)
    (pending : monitor.pendingCall ≠ []) : (monitor.step .notify).isSome ∧
      monitor.step .visit = none ∧ monitor.step .beginPass = none := by
  unfold HeartbeatMonitor.pendingCall at pending
  cases stands : monitor.phase with
  | sleeping | walking | calling => simp [stands] at pending
  | notifying now username => simp [HeartbeatMonitor.step, stands]

def Watched.GivesUp (watched : Watched) (username : Bytes) : Prop :=
  ∃ now current since earlier, watched.monitor.phase = .walking now current ∧
    lastContact username watched.sights = some since ∧
    passesSince username watched.sights = now :: earlier ∧
    heartbeatTimeoutSec < now - since ∧
    maxMissedHeartbeats ≤ ((now :: earlier).filter (overdue since)).length

theorem Watched.Sound.givesUp {watched : Watched} (sound : watched.Sound) {now : Int} {current : Nat}
    (walking : watched.monitor.phase = .walking now current) {username : Bytes}
    (alive : watched.monitor.getStatus username = .alive)
    (failed : (watched.monitor.visit now current).getStatus username = .failed) :
    watched.GivesUp username := by
  have unmoved {phase : MonitorPhase} (reads : HeartbeatMonitor.getStatus
      { watched.monitor with phase := phase } username = .failed) : False := by
    have same : watched.monitor.getStatus username = .failed := reads
    rw [alive] at same
    cases same
  rcases visit_cases sound.hooked now current with ⟨_, ends⟩ | skips | ⟨entry, found, well, late, moves⟩
  · rw [ends] at failed
    exact (unmoved failed).elim
  · rw [skips] at failed
    exact (unmoved failed).elim
  · rcases moves with ⟨_, misses⟩ | ⟨limit, fails⟩
    · have renewed := (@renewed_set _ _ _ { entry with missedCount := entry.missedCount + 1 }
        sound.distinct found rfl).1
      rw [misses] at failed
      have status := (failed_renewed sound.distinct renewed alive failed).2
      cases well.symm.trans status
    · have renewed := (@renewed_set _ _ _
        { entry with missedCount := entry.missedCount + 1, status := .failed } sound.distinct found
          rfl).1
      rw [fails] at failed
      obtain ⟨rfl, _⟩ := failed_renewed sound.distinct renewed alive failed
      obtain ⟨enough, first⟩ := sound.counts walking found late
      obtain ⟨earlier, passes⟩ := List.head?_eq_some_iff.mp first
      refine ⟨now, current, entry.lastHeartbeat, earlier, walking, ?_, passes, of_decide_eq_true late, ?_⟩
      · exact (sound.entries entry (List.mem_of_getElem? found)).contacted
      · rw [← List.countP_eq_length_filter, ← passes]
        omega

/-- In every interleaving, a server goes from ALIVE to FAILED in the visit of a pass that is at
least the third one to find it overdue since its last contact, and these transitions and the calls
of the callback are the same, one by one and in one order; where the last call is still to come,
it is what the thread does next. -/
theorem failure_detection (clock : Int) (events : List MonitorEvent) :
    let watched := run Watched.step (Watched.started clock) events
    (∀ event after username, watched.monitor.step event = some after →
      watched.monitor.getStatus username = .alive → after.getStatus username = .failed →
      event = .visit ∧ watched.GivesUp username) ∧
    watched.failures = watched.monitor.pendingCall ++ watched.calls ∧
    (watched.monitor.pendingCall ≠ [] → (watched.monitor.step .notify).isSome ∧
      watched.monitor.step .visit = none ∧ watched.monitor.step .beginPass = none) := by
  intro watched
  have sound : watched.Sound := sound_run clock events
  refine ⟨?_, sound.answered, watched.monitor.pendingCall_next⟩
  intro event after username taken alive failed
  have visiting : event = .visit := by
    by_contra elsewhere
    obtain ⟨entry, member, rfl, _⟩ := entry_of_getStatus (by decide) alive
    have quiet := newlyFailed_step sound.distinct taken elsewhere
    refine List.filter_eq_nil_iff.mp quiet _ (List.mem_map_of_mem member) ?_
    rw [alive, failed]
    decide
  subst event
  refine ⟨rfl, ?_⟩
  cases stands : watched.monitor.phase with
  | sleeping | notifying | calling => simp [HeartbeatMonitor.step, stands] at taken
  | walking now current =>
      simp only [HeartbeatMonitor.step, stands, Option.some.injEq] at taken
      exact sound.givesUp stands alive (taken ▸ failed)

def exampleSs1 : SsName := ⟨lit "ss1", by decide⟩

def exampleSs2 : SsName := ⟨lit "ss2", by decide⟩

def exampleFailure : List MonitorEvent :=
  [.registerSs exampleSs1, .tick 16, .beginPass, .visit, .visit, .tick 5, .beginPass, .visit, .visit,
    .tick 5, .beginPass, .visit, .notify, .registerSs exampleSs2, .update exampleSs1, .resume, .visit]

theorem failure_detection_example :
    (run Watched.step (Watched.started 100) exampleFailure).calls = [lit "ss1"] ∧
      (run Watched.step (Watched.started 100) (exampleFailure.take 11)).GivesUp (lit "ss1") := by
  constructor
  · have answered := (failure_detection 100 exampleFailure).2.1
    have quiet : (run Watched.step (Watched.started 100) exampleFailure).monitor.pendingCall = [] := by
      decide +kernel
    have failures : (run Watched.step (Watched.started 100) exampleFailure).failures =
        [lit "ss1"] := by
      decide +kernel
    rw [quiet, failures] at answered
    exact answered.symm
  · obtain ⟨after, taken, alive, failed⟩ : ∃ after,
        (run Watched.step (Watched.started 100) (exampleFailure.take 11)).monitor.step .visit =
          some after ∧
        (run Watched.step (Watched.started 100) (exampleFailure.take 11)).monitor.getStatus
          (lit "ss1") = .alive ∧ after.getStatus (lit "ss1") = .failed := by
      refine ⟨_, rfl, ?_, ?_⟩
      · decide +kernel
      · decide +kernel
    exact ((failure_detection 100 (exampleFailure.take 11)).1 _ _ _ taken alive failed).2

end SharedFileSystem
