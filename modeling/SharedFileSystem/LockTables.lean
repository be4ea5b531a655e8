import SharedFileSystem.RuntimeState
import SharedFileSystem.Lib.Compaction
import SharedFileSystem.Lib.KeyedMap
import SharedFileSystem.Lib.Runs

/-!
The lock tables of all files (`ss/runtime_state.c`), used by any number of threads. A call first looks for
the table of its file under the mutex of the manager, makes it there if it is missing, and then holds its
address for the section under the mutex of the table.
-/

namespace SharedFileSystem

open ByteText Runs

inductive LockCall where
  | acquire (filename : Bytes) (sentenceId : Int) (username : Bytes)
  | release (filename : Bytes) (sentenceId sessionId : Int)
  | releaseAll (filename : Bytes) (sessionId : Int)
deriving DecidableEq

def LockCall.filename : LockCall → Bytes
  | .acquire filename _ _ | .release filename _ _ | .releaseAll filename _ => filename

def LockCall.rejected : LockCall → Bool
  | .acquire _ sentenceId _ => decide (sentenceId ≤ 0)
  | .release _ sentenceId sessionId => decide (sentenceId ≤ 0 ∨ sessionId ≤ 0)
  | .releaseAll _ sessionId => decide (sessionId ≤ 0)

def sentenceLockReleased (state : FileRuntimeState) (sentenceId sessionId : Int) : Bool :=
  state.locks.any fun lock => lock.sentenceId = sentenceId && lock.sessionId = sessionId

def sentenceLockReleaseAll (state : FileRuntimeState) (sessionId : Int) : FileRuntimeState :=
  { state with locks := Compaction.filterInPlace (fun lock => lock.sessionId ≠ sessionId) state.locks }

-- `sentence_lock_release_all` returns nothing, which is 0 here
def LockCall.perform (state : FileRuntimeState) : LockCall → FileRuntimeState × Int
  | .acquire _ sentenceId username =>
      match sentenceLockAcquire state sentenceId username with
      | none => (state, -1)
      | some (sessionId, next) => (next, sessionId)
  | .release _ sentenceId sessionId =>
      (sentenceLockRelease state sentenceId sessionId,
        if sentenceLockReleased state sentenceId sessionId then 0 else -1)
  | .releaseAll _ sessionId => (sentenceLockReleaseAll state sessionId, 0)

def LockCall.rejection : LockCall → Int
  | .acquire .. | .release .. => -1
  | .releaseAll .. => 0

-- the name is a buffer of 256 bytes
structure NamedTable where
  filename : Bytes
  state : FileRuntimeState

inductive LockPhase where
  | looking (call : LockCall)
  | making (call : LockCall)
  | holding (call : LockCall) (address : Nat)

structure LockManager where
  node : Nat → NamedTable
  chain : List Nat
  threads : Nat → Option LockPhase
  history : List (LockCall × Int)

def LockManager.init : LockManager := ⟨fun _ => ⟨[], .fresh⟩, [], fun _ => none, []⟩

inductive LockEvent where
  | call (thread : Nat) (call : LockCall)
  | go (thread : Nat)

def LockManager.findState (manager : LockManager) (filename : Bytes) : Option Nat :=
  manager.chain.find? fun address => (manager.node address).filename = filename

def LockManager.createState (manager : LockManager) (filename : Bytes) : LockManager × Nat :=
  match manager.findState filename with
  | some address => (manager, address)
  | none =>
      let address := manager.chain.length
      ({ manager with
        node := Function.update manager.node address ⟨filename.take 255, .fresh⟩
        chain := address :: manager.chain }, address)

def LockManager.move (manager : LockManager) (thread : Nat) (phase : Option LockPhase) : LockManager :=
  { manager with threads := Function.update manager.threads thread phase }

def LockManager.perform (manager : LockManager) (call : LockCall) (address : Nat) : LockManager :=
  let (state, result) := call.perform (manager.node address).state
  { manager with
    node := Function.update manager.node address { manager.node address with state := state }
    history := manager.history ++ [(call, result)] }

def LockManager.advance (manager : LockManager) (thread : Nat) : LockPhase → LockManager
  | .looking call =>
      match manager.findState call.filename with
      | some address => manager.move thread (some (.holding call address))
      | none => manager.move thread (some (.making call))
  | .making call =>
      let (created, address) := manager.createState call.filename
      created.move thread (some (.holding call address))
  | .holding call address => (manager.perform call address).move thread none

def LockManager.step (manager : LockManager) : LockEvent → LockManager
  | .call thread call =>
      match manager.threads thread with
      | some _ => manager
      | none =>
          if call.rejected then
            { manager with history := manager.history ++ [(call, call.rejection)] }
          else manager.move thread (some (.looking call))
  | .go thread =>
      match manager.threads thread with
      | some phase => manager.advance thread phase
      | none => manager

def LockManager.table (manager : LockManager) (filename : Bytes) : FileRuntimeState :=
  match manager.findState filename with
  | some address => (manager.node address).state
  | none => .fresh

/-- For each file the session that holds a sentence, and the sessions that were returned so far. -/
structure LockMap where
  held : Bytes → Int → Option Int
  issued : Bytes → List Int

def LockMap.empty : LockMap := ⟨fun _ _ => none, fun _ => []⟩

def LockMap.Full (map : LockMap) (filename : Bytes) : Prop :=
  maxRuntimeLocks ≤ {sentenceId | map.held filename sentenceId ≠ none}.ncard

def LockMap.hold (map : LockMap) (filename : Bytes) (change : (Int → Option Int) → Int → Option Int) :
    LockMap :=
  { map with held := Function.update map.held filename (change (map.held filename)) }

/-- What a call returns and what it does to the map. A session is numbered by the acquisitions of the file
before it, so that it fits an `int` as long as there are fewer than 2^31 - 1 of them. -/
def LockMap.Does (map : LockMap) : LockCall → Int → LockMap → Prop
  | .acquire filename sentenceId _, result, next =>
      (map.held filename sentenceId ≠ none ∨ map.Full filename) ∧ result = -1 ∧ next = map ∨
      (map.held filename sentenceId = none ∧ ¬map.Full filename) ∧
        0 < result ∧ result ≤ (map.issued filename).length + 1 ∧ result ∉ map.issued filename ∧
        next = { map.hold filename (Function.update · sentenceId (some result)) with
          issued := Function.update map.issued filename (result :: map.issued filename) }
  | .release filename sentenceId sessionId, result, next =>
      map.held filename sentenceId = some sessionId ∧ result = 0 ∧
        next = map.hold filename (Function.update · sentenceId none) ∨
      map.held filename sentenceId ≠ some sessionId ∧ result = -1 ∧ next = map
  | .releaseAll filename sessionId, _, next =>
      next = map.hold filename fun held sentenceId => (held sentenceId).filter (· ≠ sessionId)

/-- One completed call after the other. -/
inductive LockMap.Follows : LockMap → List (LockCall × Int) → LockMap → Prop
  | start (map : LockMap) : Follows map [] map
  | next {map middle last : LockMap} {history : List (LockCall × Int)} {call : LockCall} {result : Int} :
      Follows map history middle → middle.Does call result last →
      Follows map (history ++ [(call, result)]) last

def heldIn (locks : List SentenceLock) : Int → Option Int :=
  KeyedMap.lookup SentenceLock.sentenceId SentenceLock.sessionId locks

def issuedBy (filename : Bytes) : LockCall × Int → Option Int
  | (.acquire name _ _, result) => if name = filename ∧ 0 < result then some result else none
  | _ => none

def issuedIn (history : List (LockCall × Int)) (filename : Bytes) : List Int :=
  (history.filterMap (issuedBy filename)).reverse

structure FileRuntimeState.Counted (state : FileRuntimeState) (issued : List Int) : Prop where
  distinct : (state.locks.map SentenceLock.sentenceId).Nodup
  positive : ∀ lock ∈ state.locks, 0 < lock.sentenceId ∧ 0 < lock.sessionId
  next : state.nextSessionId = issued.length + 1
  below : ∀ session ∈ issued, session ≤ issued.length

theorem FileRuntimeState.fresh_counted : FileRuntimeState.fresh.Counted [] :=
  ⟨List.nodup_nil, by simp [fresh], rfl, by simp⟩

def LockMap.table (map : LockMap) (filename : Bytes) (state : FileRuntimeState) (issued : List Int) :
    LockMap :=
  ⟨Function.update map.held filename (heldIn state.locks), Function.update map.issued filename issued⟩

theorem dropLock_missed {found : SentenceLock → Bool} {locks : List SentenceLock}
    (missed : ∀ lock ∈ locks, ¬found lock = true) : dropLock found locks = locks := by
  induction locks with
  | nil => rfl
  | cons lock rest ih =>
      rw [dropLock, if_neg (missed lock (by simp)), ih fun other member => missed other (by simp [member])]

section Table

variable {map : LockMap} {filename : Bytes} {state : FileRuntimeState} {issued : List Int}
  (counted : state.Counted issued) (held : map.held filename = heldIn state.locks)
  (returned : map.issued filename = issued)

include held returned in
theorem LockMap.table_same : map.table filename state issued = map := by
  rw [LockMap.table, ← held, ← returned, Function.update_eq_self, Function.update_eq_self]

include counted held in
theorem LockMap.full_iff : map.Full filename ↔ maxRuntimeLocks ≤ state.locks.length := by
  rw [LockMap.Full, held, heldIn, KeyedMap.ncard_lookup counted.distinct]

include counted in
theorem sentenceLockAcquire_eq {sentenceId : Int} (positive : 0 < sentenceId) (username : Bytes) :
    sentenceLockAcquire state sentenceId username =
      if heldIn state.locks sentenceId ≠ none ∨ maxRuntimeLocks ≤ state.locks.length then none
      else some ((issued.length : Int) + 1,
        ⟨state.locks ++ [⟨sentenceId, username.take 63, issued.length + 1⟩], issued.length + 1 + 1⟩) := by
  have fresh : ¬state.nextSessionId ≤ 0 := by
    rw [counted.next]
    omega
  have present : heldIn state.locks sentenceId ≠ none ↔
      state.locks.any (fun lock => lock.sentenceId = sentenceId) = true := by
    rw [heldIn, ne_eq, KeyedMap.lookup_none]
    simp
  rw [sentenceLockAcquire, if_neg (by omega)]
  by_cases taken : state.locks.any (fun lock => lock.sentenceId = sentenceId) = true
  · rw [if_pos taken, if_pos (Or.inl (present.mpr taken))]
  · by_cases full : maxRuntimeLocks ≤ state.locks.length
    · rw [if_neg taken, if_pos full, if_pos (Or.inr full)]
    · rw [if_neg taken, if_neg full, if_neg (not_or.mpr ⟨present.not.mpr taken, full⟩), allocateSession, if_neg fresh,
        counted.next]

include counted held returned in
theorem acquire_does {sentenceId : Int} (positive : 0 < sentenceId) (username : Bytes) :
    let call := LockCall.acquire filename sentenceId username
    let later := (issuedBy filename (call, (call.perform state).2)).toList ++ issued
    (call.perform state).1.Counted later ∧
      map.Does call (call.perform state).2 (map.table filename (call.perform state).1 later) := by
  intro call later
  have full := LockMap.full_iff counted held
  have result := sentenceLockAcquire_eq counted positive username
  by_cases refused : heldIn state.locks sentenceId ≠ none ∨ maxRuntimeLocks ≤ state.locks.length
  · rw [if_pos refused] at result
    have done : call.perform state = (state, -1) := by
      simp only [call, LockCall.perform, result]
    have same : later = issued := by
      simp [later, call, done, issuedBy]
    rw [same, done]
    refine ⟨counted, Or.inl ⟨?_, rfl, LockMap.table_same held returned⟩⟩
    rwa [held, full]
  · rw [if_neg refused] at result
    have done : call.perform state = (⟨state.locks ++
        [⟨sentenceId, username.take 63, issued.length + 1⟩], issued.length + 1 + 1⟩,
        (issued.length : Int) + 1) := by
      simp only [call, LockCall.perform, result]
    have grown : later = (issued.length + 1 : Int) :: issued := by
      have above : (0 : Int) < issued.length + 1 := by omega
      simp [later, call, done, issuedBy, above]
    obtain ⟨free, room⟩ := not_or.mp refused
    have absent : ∀ lock ∈ state.locks, lock.sentenceId ≠ sentenceId :=
      KeyedMap.lookup_none.mp (not_not.mp free)
    rw [grown, done]
    constructor
    · refine ⟨?_, ?_, ?_, ?_⟩
      · rw [List.map_append, List.nodup_append]
        refine ⟨counted.distinct, List.nodup_singleton _, ?_⟩
        intro id member other last
        obtain ⟨lock, inside, rfl⟩ := List.mem_map.mp member
        rw [List.map_cons, List.map_nil, List.mem_singleton] at last
        rw [last]
        exact absent lock inside
      · intro lock member
        rcases List.mem_append.mp member with old | new
        · exact counted.positive lock old
        · rw [List.mem_singleton.mp new]
          exact ⟨positive, by dsimp only; omega⟩
      · rw [List.length_cons]
        push_cast
        rfl
      · intro session member
        rw [List.length_cons]
        rcases List.mem_cons.mp member with rfl | earlier
        · push_cast
          omega
        · have bound := counted.below session earlier
          push_cast
          omega
    · refine Or.inr ⟨⟨?_, ?_⟩, by omega, by rw [returned], ?_, ?_⟩
      · rw [held]
        exact not_not.mp free
      · rwa [full]
      · rw [returned]
        intro member
        have bound := counted.below _ member
        omega
      · rw [LockMap.table, LockMap.hold, held, returned, heldIn, KeyedMap.lookup_append absent]
        rfl

include counted held returned in
theorem release_does (sentenceId sessionId : Int) :
    let call := LockCall.release filename sentenceId sessionId
    (call.perform state).1.Counted issued ∧
      map.Does call (call.perform state).2 (map.table filename (call.perform state).1 issued) := by
  intro call
  have present : sentenceLockReleased state sentenceId sessionId = true ↔
      heldIn state.locks sentenceId = some sessionId := by
    rw [sentenceLockReleased, List.any_eq_true, heldIn, KeyedMap.lookup_some counted.distinct]
    simp
  by_cases taken : heldIn state.locks sentenceId = some sessionId
  · obtain ⟨lock, member, sameId, sameSession⟩ := (KeyedMap.lookup_some counted.distinct).mp taken
    obtain ⟨idPositive, sessionPositive⟩ := counted.positive lock member
    have accepted : ¬(sentenceId ≤ 0 ∨ sessionId ≤ 0) := by
      rw [← sameId, ← sameSession]
      omega
    have done : call.perform state = ({ state with locks := dropLock (fun lock =>
        lock.sentenceId = sentenceId && lock.sessionId = sessionId) state.locks }, 0) := by
      simp only [call, LockCall.perform, sentenceLockRelease, present.mpr taken, if_neg accepted,
        if_pos]
    have erased := dropLock_perm (fun lock : SentenceLock =>
      lock.sentenceId = sentenceId && lock.sessionId = sessionId) state.locks
    have kept : ((state.locks.eraseP fun lock =>
        lock.sentenceId = sentenceId && lock.sessionId = sessionId).map
          SentenceLock.sentenceId).Nodup :=
      counted.distinct.sublist (List.eraseP_sublist.map _)
    rw [done]
    constructor
    · refine ⟨(erased.map _).nodup_iff.mpr kept, ?_, counted.next, counted.below⟩
      intro other inside
      exact counted.positive other (List.mem_of_mem_eraseP (erased.mem_iff.mp inside))
    · refine Or.inl ⟨by rwa [held], rfl, ?_⟩
      have taken_out : heldIn (dropLock (fun lock =>
          lock.sentenceId = sentenceId && lock.sessionId = sessionId) state.locks) =
          Function.update (heldIn state.locks) sentenceId none := by
        rw [heldIn, KeyedMap.lookup_perm ((erased.map _).nodup_iff.mpr kept) erased, ← sameId]
        refine KeyedMap.lookup_eraseP counted.distinct member (by simp [sameSession]) ?_
        intro other _ hit
        simp only [Bool.and_eq_true, decide_eq_true_eq] at hit
        exact hit.1
      rw [LockMap.table, LockMap.hold, held, taken_out, ← returned, Function.update_eq_self]
  · have missed : ∀ lock ∈ state.locks,
        ¬(lock.sentenceId = sentenceId && lock.sessionId = sessionId) = true := by
      intro lock member hit
      simp only [Bool.and_eq_true, decide_eq_true_eq] at hit
      exact taken ((KeyedMap.lookup_some counted.distinct).mpr ⟨lock, member, hit⟩)
    have unreleased : sentenceLockRelease state sentenceId sessionId = state := by
      rw [sentenceLockRelease, dropLock_missed missed, ite_id]
    have done : call.perform state = (state, -1) := by
      simp only [call, LockCall.perform, unreleased, if_neg (present.not.mpr taken)]
    rw [done]
    exact ⟨counted, Or.inr ⟨by rwa [held], rfl, LockMap.table_same held returned⟩⟩

include counted held returned in
theorem releaseAll_does (sessionId : Int) :
    let call := LockCall.releaseAll filename sessionId
    (call.perform state).1.Counted issued ∧
      map.Does call (call.perform state).2 (map.table filename (call.perform state).1 issued) := by
  intro call
  have kept : (sentenceLockReleaseAll state sessionId).locks =
      state.locks.filter fun lock => lock.sessionId ≠ sessionId := Compaction.filterInPlace_eq ..
  constructor
  · refine ⟨?_, ?_, counted.next, counted.below⟩
    · dsimp only [call, LockCall.perform]
      rw [kept]
      exact counted.distinct.sublist (List.filter_sublist.map _)
    · intro lock member
      dsimp only [call, LockCall.perform] at member
      rw [kept] at member
      exact counted.positive lock (List.mem_of_mem_filter member)
  · have filtered : heldIn (sentenceLockReleaseAll state sessionId).locks =
        fun sentenceId => (heldIn state.locks sentenceId).filter (· ≠ sessionId) := by
      funext sentenceId
      rw [kept]
      exact KeyedMap.lookup_filter counted.distinct (fun session => decide (session ≠ sessionId)) sentenceId
    dsimp only [call, LockCall.perform, LockMap.Does]
    rw [LockMap.table, LockMap.hold, held, filtered, ← returned, Function.update_eq_self]

end Table

def LockCall.Proper (call : LockCall) : Prop :=
  call.filename.length ≤ 255 ∧
    match call with
    | .acquire _ sentenceId _ => 0 < sentenceId
    | .release .. | .releaseAll .. => True

instance (call : LockCall) : Decidable call.Proper := by
  unfold LockCall.Proper
  cases call <;> exact inferInstance

/-- What a call does to its table, beside the sessions of the file before it. -/
theorem LockCall.perform_does {map : LockMap} {state : FileRuntimeState} {issued : List Int}
    {call : LockCall} (proper : call.Proper) (counted : state.Counted issued)
    (held : map.held call.filename = heldIn state.locks) (returned : map.issued call.filename = issued) :
    let later := (issuedBy call.filename (call, (call.perform state).2)).toList ++ issued
    (call.perform state).1.Counted later ∧
      map.Does call (call.perform state).2 (map.table call.filename (call.perform state).1 later) := by
  cases call with
  | acquire filename sentenceId username => exact acquire_does counted held returned proper.2 username
  | release filename sentenceId sessionId => exact release_does counted held returned sentenceId sessionId
  | releaseAll filename sessionId => exact releaseAll_does counted held returned sessionId

def LockManager.view (manager : LockManager) : LockMap :=
  ⟨fun filename => heldIn (manager.table filename).locks, issuedIn manager.history⟩

def LockPhase.made : LockPhase → LockCall
  | .looking call | .making call | .holding call _ => call

structure LockManager.Sound (manager : LockManager) : Prop where
  addresses : ∀ address ∈ manager.chain, address < manager.chain.length
  holding : ∀ thread call address, manager.threads thread = some (.holding call address) →
    manager.findState call.filename = some address
  proper : ∀ thread phase, manager.threads thread = some phase → phase.made.Proper
  counted : ∀ filename, (manager.table filename).Counted (issuedIn manager.history filename)

theorem LockManager.init_sound : LockManager.init.Sound := by
  refine ⟨by simp [init], by simp [init], by simp [init], ?_⟩
  intro filename
  exact FileRuntimeState.fresh_counted

theorem LockManager.createState_findState {manager : LockManager} (sound : manager.Sound)
    {filename : Bytes} (short : filename.length ≤ 255) (missing : manager.findState filename = none)
    (other : Bytes) :
    (manager.createState filename).1.findState other =
      if other = filename then some manager.chain.length else manager.findState other := by
  have shape : (manager.createState filename).1 = { manager with
      node := Function.update manager.node manager.chain.length ⟨filename, .fresh⟩
      chain := manager.chain.length :: manager.chain } := by
    rw [createState, missing, List.take_of_length_le short]
  rw [shape]
  by_cases here : other = filename
  · rw [if_pos here, findState]
    exact List.find?_cons_of_pos (by simp [here])
  · have others : ∀ address ∈ manager.chain,
        decide ((Function.update manager.node manager.chain.length ⟨filename, .fresh⟩ address).filename =
          other) = decide ((manager.node address).filename = other) := by
      intro address member
      have older := Nat.ne_of_lt (sound.addresses address member)
      rw [Function.update_of_ne older]
    have different : ¬filename = other := fun same => here same.symm
    rw [if_neg here, findState, List.find?_cons_of_neg (by simp [different])]
    exact List.find?_congr others

theorem LockManager.createState_table {manager : LockManager} (sound : manager.Sound) {filename : Bytes}
    (short : filename.length ≤ 255) (other : Bytes) :
    (manager.createState filename).1.table other = manager.table other := by
  cases missing : manager.findState filename with
  | some address => rw [createState, missing]
  | none =>
      have nodes : (manager.createState filename).1.node =
          Function.update manager.node manager.chain.length ⟨filename, .fresh⟩ := by
        rw [createState, missing, List.take_of_length_le short]
      rw [table, createState_findState sound short missing, nodes]
      by_cases here : other = filename
      · rw [if_pos here, here, table, missing]
        simp
      · rw [if_neg here, table]
        cases found : manager.findState other with
        | none => rfl
        | some address =>
            have older := Nat.ne_of_lt (sound.addresses address (List.mem_of_find?_eq_some found))
            dsimp only
            rw [Function.update_of_ne older]

theorem LockManager.createState_found {manager : LockManager} (sound : manager.Sound) {filename : Bytes}
    (short : filename.length ≤ 255) :
    (manager.createState filename).1.findState filename = some (manager.createState filename).2 := by
  cases missing : manager.findState filename with
  | some address =>
      rw [createState, missing]
      exact missing
  | none => rw [createState_findState sound short missing, if_pos rfl, createState, missing]

theorem LockManager.perform_node (manager : LockManager) (call : LockCall) (address : Nat) :
    (manager.perform call address).node = Function.update manager.node address
      ⟨(manager.node address).filename, (call.perform (manager.node address).state).1⟩ := rfl

theorem LockManager.perform_findState (manager : LockManager) (call : LockCall) (address : Nat)
    (other : Bytes) : (manager.perform call address).findState other = manager.findState other := by
  refine List.find?_congr fun listed _ => ?_
  have name : ((manager.perform call address).node listed).filename = (manager.node listed).filename := by
    by_cases here : listed = address
    · rw [here, perform_node, Function.update_self]
    · rw [perform_node, Function.update_of_ne here]
  rw [name]

theorem LockManager.perform_table {manager : LockManager} {call : LockCall} {address : Nat}
    (found : manager.findState call.filename = some address) (other : Bytes) :
    (manager.perform call address).table other =
      if other = call.filename then (call.perform (manager.table call.filename)).1
      else manager.table other := by
  have here : manager.table call.filename = (manager.node address).state := by
    rw [table, found]
  rw [table, perform_findState]
  by_cases same : other = call.filename
  · rw [if_pos same, same, found, here]
    dsimp only
    rw [perform_node, Function.update_self]
  · rw [if_neg same, table]
    cases elsewhere : manager.findState other with
    | none => rfl
    | some second =>
        have firstName : (manager.node address).filename = call.filename := by
          simpa using List.find?_some found
        have secondName : (manager.node second).filename = other := by
          simpa using List.find?_some elsewhere
        have apart : second ≠ address := by
          rintro rfl
          exact same (secondName.symm.trans firstName)
        dsimp only
        rw [perform_node, Function.update_of_ne apart]

theorem issuedIn_append (history : List (LockCall × Int)) (done : LockCall × Int) (filename : Bytes) :
    issuedIn (history ++ [done]) filename =
      (issuedBy filename done).toList ++ issuedIn history filename := by
  rw [issuedIn, List.filterMap_append, List.reverse_append, issuedIn]
  cases returned : issuedBy filename done with
  | none => simp [returned]
  | some session => simp [returned]

theorem issuedBy_other {call : LockCall} {filename : Bytes} (other : filename ≠ call.filename)
    (result : Int) : issuedBy filename (call, result) = none := by
  cases call with
  | acquire name sentenceId username =>
      have different : ¬name = filename := fun same => other same.symm
      simp [issuedBy, different]
  | release name sentenceId sessionId => rfl
  | releaseAll name sessionId => rfl

theorem LockManager.perform_does {manager : LockManager} (sound : manager.Sound) {call : LockCall}
    (proper : call.Proper) {address : Nat} (found : manager.findState call.filename = some address) :
    (∀ filename, ((manager.perform call address).table filename).Counted
        (issuedIn (manager.perform call address).history filename)) ∧
      manager.view.Does call (call.perform (manager.table call.filename)).2
        (manager.perform call address).view := by
  have history : (manager.perform call address).history = manager.history ++
      [(call, (call.perform (manager.table call.filename)).2)] := by
    rw [perform, table, found]
  obtain ⟨counted, does⟩ := @LockCall.perform_does manager.view _ _ call proper
    (sound.counted call.filename) rfl rfl
  constructor
  · intro filename
    rw [history, issuedIn_append, perform_table found]
    by_cases here : filename = call.filename
    · rw [if_pos here, here]
      exact counted
    · rw [if_neg here, issuedBy_other here]
      exact sound.counted filename
  · have view : (manager.perform call address).view = manager.view.table call.filename
        (call.perform (manager.table call.filename)).1
        ((issuedBy call.filename (call, (call.perform (manager.table call.filename)).2)).toList ++
          issuedIn manager.history call.filename) := by
      have held : (manager.perform call address).view.held = Function.update manager.view.held
          call.filename (heldIn (call.perform (manager.table call.filename)).1.locks) := by
        funext filename
        by_cases here : filename = call.filename
        · rw [here, Function.update_self, LockManager.view]
          dsimp only
          rw [perform_table found, if_pos rfl]
        · rw [Function.update_of_ne here, LockManager.view]
          dsimp only
          rw [perform_table found, if_neg here]
          rfl
      have issued : (manager.perform call address).view.issued = Function.update manager.view.issued
          call.filename ((issuedBy call.filename
            (call, (call.perform (manager.table call.filename)).2)).toList ++
              issuedIn manager.history call.filename) := by
        funext filename
        rw [LockManager.view]
        dsimp only
        rw [history, issuedIn_append]
        by_cases here : filename = call.filename
        · rw [here, Function.update_self]
        · rw [Function.update_of_ne here, issuedBy_other here]
          rfl
      exact congrArg₂ LockMap.mk held issued
    rw [view]
    exact does

theorem LockManager.createState_sound {manager : LockManager} (sound : manager.Sound) {filename : Bytes}
    (short : filename.length ≤ 255) :
    (manager.createState filename).1.Sound ∧
      (manager.createState filename).1.view = manager.view := by
  have tables := createState_table sound short
  have others : (manager.createState filename).1.history = manager.history ∧
      (manager.createState filename).1.threads = manager.threads := by
    unfold createState
    split <;> exact ⟨rfl, rfl⟩
  have view : (manager.createState filename).1.view = manager.view := by
    rw [LockManager.view, others.1]
    simp only [tables]
    rfl
  refine ⟨⟨?_, ?_, ?_, ?_⟩, view⟩
  · cases missing : manager.findState filename with
    | some address =>
        rw [createState, missing]
        exact sound.addresses
    | none =>
        rw [createState, missing]
        intro address member
        dsimp only at member ⊢
        rw [List.length_cons]
        rcases List.mem_cons.mp member with rfl | older
        · exact Nat.lt_succ_self _
        · exact Nat.lt_succ_of_lt (sound.addresses address older)
  · intro thread call address held
    rw [others.2] at held
    have found := sound.holding thread call address held
    cases missing : manager.findState filename with
    | some known =>
        rw [createState, missing]
        exact found
    | none =>
        have different : call.filename ≠ filename := by
          rintro same
          rw [same, missing] at found
          cases found
        rw [createState_findState sound short missing, if_neg different, found]
  · rw [others.2]
    exact sound.proper
  · intro name
    rw [others.1, tables]
    exact sound.counted name

theorem LockManager.move_sound {manager : LockManager} (sound : manager.Sound) (thread : Nat)
    {phase : Option LockPhase} (proper : ∀ made ∈ phase, made.made.Proper)
    (holding : ∀ call address, phase = some (.holding call address) →
      manager.findState call.filename = some address) : (manager.move thread phase).Sound := by
  refine ⟨sound.addresses, ?_, ?_, sound.counted⟩
  · intro other call address held
    change Function.update manager.threads thread phase other = _ at held
    by_cases here : other = thread
    · rw [here, Function.update_self] at held
      exact holding call address held
    · rw [Function.update_of_ne here] at held
      exact sound.holding other call address held
  · intro other made held
    change Function.update manager.threads thread phase other = _ at held
    by_cases here : other = thread
    · rw [here, Function.update_self] at held
      exact proper made held
    · rw [Function.update_of_ne here] at held
      exact sound.proper other made held

/-- What a step adds to the completed calls, and to the map. -/
def LockManager.Continues (before after : LockManager) : Prop :=
  after.history = before.history ∧ after.view = before.view ∨
    ∃ call result, after.history = before.history ++ [(call, result)] ∧
      before.view.Does call result after.view

def LockEvent.Proper : LockEvent → Prop
  | .call _ made => made.Proper
  | .go _ => True

instance : (event : LockEvent) → Decidable event.Proper
  | .call _ made => inferInstanceAs (Decidable made.Proper)
  | .go _ => isTrue trivial

theorem LockCall.rejection_unissued (call : LockCall) (filename : Bytes) :
    issuedBy filename (call, call.rejection) = none := by
  cases call with
  | acquire name sentenceId username => simp [issuedBy, LockCall.rejection]
  | release name sentenceId sessionId => rfl
  | releaseAll name sessionId => rfl

theorem LockManager.rejected_does {manager : LockManager} (sound : manager.Sound) {call : LockCall}
    (proper : call.Proper) (rejected : call.rejected = true) :
    manager.view.Does call call.rejection manager.view := by
  have positive (filename : Bytes) (sentenceId sessionId : Int)
      (held : manager.view.held filename sentenceId = some sessionId) :
      0 < sentenceId ∧ 0 < sessionId := by
    obtain ⟨lock, member, rfl, rfl⟩ :=
      (KeyedMap.lookup_some (sound.counted filename).distinct).mp held
    exact (sound.counted filename).positive lock member
  cases call with
  | acquire filename sentenceId username =>
      have above : 0 < sentenceId := proper.2
      have below : sentenceId ≤ 0 := of_decide_eq_true rejected
      omega
  | release filename sentenceId sessionId =>
      have refused : sentenceId ≤ 0 ∨ sessionId ≤ 0 := of_decide_eq_true rejected
      refine Or.inr ⟨?_, rfl, rfl⟩
      intro held
      have both := positive filename sentenceId sessionId held
      omega
  | releaseAll filename sessionId =>
      have refused : sessionId ≤ 0 := of_decide_eq_true rejected
      have same : (fun sentenceId => (manager.view.held filename sentenceId).filter (· ≠ sessionId)) =
          manager.view.held filename := by
        funext sentenceId
        cases held : manager.view.held filename sentenceId with
        | none => rfl
        | some session =>
            have above := (positive filename sentenceId session held).2
            have different : session ≠ sessionId := by omega
            simp [different]
      rw [LockMap.Does, LockMap.hold, same, Function.update_eq_self]

theorem LockManager.advance_spec {manager : LockManager} (sound : manager.Sound) {thread : Nat}
    {phase : LockPhase} (here : manager.threads thread = some phase) :
    (manager.advance thread phase).Sound ∧ manager.Continues (manager.advance thread phase) := by
  have made := sound.proper thread phase here
  cases phase with
  | looking call =>
      have proper : call.Proper := made
      rw [advance]
      cases found : manager.findState call.filename with
      | some address =>
          refine ⟨move_sound sound thread ?_ ?_, Or.inl ⟨rfl, rfl⟩⟩
          · rintro later ⟨⟩
            exact proper
          · rintro other address ⟨⟩
            exact found
      | none =>
          refine ⟨move_sound sound thread ?_ ?_, Or.inl ⟨rfl, rfl⟩⟩
          · rintro later ⟨⟩
            exact proper
          · rintro other address ⟨⟩
  | making call =>
      have proper : call.Proper := made
      obtain ⟨created, view⟩ := createState_sound sound proper.1
      have history : (manager.createState call.filename).1.history = manager.history := by
        unfold createState
        split <;> rfl
      refine ⟨move_sound created thread ?_ ?_, Or.inl ⟨history, view⟩⟩
      · rintro later ⟨⟩
        exact proper
      · rintro other address ⟨⟩
        exact createState_found sound proper.1
  | holding call address =>
      have proper : call.Proper := made
      have found := sound.holding thread call address here
      obtain ⟨counted, does⟩ := perform_does sound proper found
      have performed : (manager.perform call address).Sound := by
        refine ⟨sound.addresses, ?_, sound.proper, counted⟩
        intro other later place held
        rw [perform_findState]
        exact sound.holding other later place held
      have history : (manager.perform call address).history = manager.history ++
          [(call, (call.perform (manager.table call.filename)).2)] := by
        rw [table, found]
        rfl
      exact ⟨move_sound performed thread (by simp) (by simp), Or.inr ⟨call, _, history, does⟩⟩

theorem LockManager.step_spec {manager : LockManager} (sound : manager.Sound) {event : LockEvent}
    (proper : event.Proper) :
    (manager.step event).Sound ∧ manager.Continues (manager.step event) := by
  cases event with
  | go thread =>
      rw [step]
      cases here : manager.threads thread with
      | some phase => exact advance_spec sound here
      | none => exact ⟨sound, Or.inl ⟨rfl, rfl⟩⟩
  | call thread call =>
      rw [step]
      cases here : manager.threads thread with
      | some phase => exact ⟨sound, Or.inl ⟨rfl, rfl⟩⟩
      | none =>
          dsimp only
          split
          · rename_i rejected
            have issued : issuedIn (manager.history ++ [(call, call.rejection)]) =
                issuedIn manager.history := by
              funext filename
              rw [issuedIn_append, call.rejection_unissued]
              rfl
            refine ⟨⟨sound.addresses, sound.holding, sound.proper, ?_⟩, Or.inr ⟨call, _, rfl, ?_⟩⟩
            · intro filename
              dsimp only
              rw [issued]
              exact sound.counted filename
            · have view : LockManager.view { manager with
                  history := manager.history ++ [(call, call.rejection)] } = manager.view :=
                congrArg (LockMap.mk _) issued
              rw [view]
              exact rejected_does sound proper rejected
          · refine ⟨move_sound sound thread ?_ ?_, Or.inl ⟨rfl, rfl⟩⟩
            · rintro later ⟨⟩
              exact proper
            · rintro other address ⟨⟩

theorem LockManager.run_spec {events : List LockEvent} (proper : ∀ event ∈ events, event.Proper)
    {manager : LockManager} (sound : manager.Sound)
    (follows : LockMap.empty.Follows manager.history manager.view) :
    (run LockManager.step manager events).Sound ∧
      LockMap.empty.Follows (run LockManager.step manager events).history
        (run LockManager.step manager events).view := by
  induction events generalizing manager with
  | nil => exact ⟨sound, follows⟩
  | cons event events ih =>
      obtain ⟨later, continues⟩ := step_spec sound (proper event (by simp))
      refine ih (fun other member => proper other (by simp [member])) later ?_
      rcases continues with ⟨history, view⟩ | ⟨call, result, history, does⟩
      · rwa [history, view]
      · rw [history]
        exact follows.next does

/-- In every interleaving of calls the tables are a partial map from sentences to sessions, and the
completed calls, one after the other, return and do to it what the map says. -/
theorem lock_tables_partial_map {events : List LockEvent} (proper : ∀ event ∈ events, event.Proper) :
    (∀ filename, (((run LockManager.step .init events).table filename).locks.map
        SentenceLock.sentenceId).Nodup) ∧
      LockMap.empty.Follows (run LockManager.step .init events).history
        (run LockManager.step .init events).view := by
  obtain ⟨sound, follows⟩ := LockManager.run_spec proper LockManager.init_sound (.start _)
  exact ⟨fun filename => (sound.counted filename).distinct, follows⟩

theorem lock_tables_partial_map_race :
    LockMap.empty.Follows
      (run LockManager.step .init [.call 0 (.acquire (lit "a.txt") 1 (lit "ann")),
        .call 1 (.acquire (lit "a.txt") 1 (lit "bob")), .go 0, .go 1, .go 0, .go 1, .go 1, .go 0]).history
      (run LockManager.step .init [.call 0 (.acquire (lit "a.txt") 1 (lit "ann")),
        .call 1 (.acquire (lit "a.txt") 1 (lit "bob")), .go 0, .go 1, .go 0, .go 1, .go 1,
        .go 0]).view :=
  (lock_tables_partial_map (by decide)).2

end SharedFileSystem
