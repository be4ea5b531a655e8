import SharedFileSystem.NameServer
import SharedFileSystem.Lib.Runs

/-!
CREATE of one file name by any number of callers. The name server looks the name up, tries the
storage servers in the order of their load until one replies, and enters the file into the index;
the storage servers look for the file, create it and write its record. Any reply may be lost.
-/

namespace SharedFileSystem

open ByteText KeyedList Runs

def maxSsCandidates : Nat := 64

def candidateBefore (first second : RegistryEntry) : Prop :=
  first.fileCount < second.fileCount ∨
    (first.fileCount = second.fileCount ∧ first.username ≤ second.username)

instance (first second : RegistryEntry) : Decidable (candidateBefore first second) :=
  inferInstanceAs (Decidable (_ ∨ _))

def registryGetSsCandidates (registry : List RegistryEntry) (maxEntries : Nat) : List Bytes :=
  (((registry.filter fun entry => !backupSuffix.isSuffixOf entry.username).insertionSort
    candidateBefore).take maxEntries).map fun entry => entry.username.take 63

def registryAdjustFileCount (registry : List RegistryEntry) (username : Bytes) (delta : Int) :
    List RegistryEntry :=
  modifyKey RegistryEntry.username username
    (fun entry => { entry with fileCount := max 0 (entry.fileCount + delta) }) registry

-- where `file_create` stands: before `access`, before `fopen`, before `metadata_save`, at its end
inductive HandlerStage where
  | arrived
  | checked
  | opened
  | created
  | refused
deriving DecidableEq, Repr

def HandlerStage.passed : HandlerStage → Bool
  | .checked | .opened | .created => true
  | .arrived | .refused => false

def HandlerStage.stores : HandlerStage → Bool
  | .opened | .created => true
  | .arrived | .checked | .refused => false

structure CreateHandler where
  thread : Nat
  server : Bytes
  owner : User
  now : Int
  stage : HandlerStage

def serveCreate (file : FileState) (handler : CreateHandler) : FileState × HandlerStage :=
  match handler.stage with
  | .arrived => if fileExists file then (file, .refused) else (file, .checked)
  | .checked => ({ file with content := some [] }, .opened)
  | .opened => (saveMetadata file (newMetadata handler.owner.name handler.now), .created)
  | .created => (file, .created)
  | .refused => (file, .refused)

inductive CreateStage where
  | called
  | unindexed
  | trying (candidates : List Bytes)
  | waiting (handler : Nat) (server : Bytes) (rest : List Bytes)
  | selected (server : Bytes)
  | looked (server : Bytes) (indexed : Bool)
  | succeeded (server : Bytes)
  | failed
deriving DecidableEq, Repr

def CreateStage.chosen : CreateStage → Option Bytes
  | .selected server | .looked server _ | .succeeded server => some server
  | .called | .unindexed | .trying _ | .waiting _ _ _ | .failed => none

def CreateStage.pending : CreateStage → List Bytes
  | .trying candidates => candidates
  | .waiting _ _ rest => rest
  | _ => []

structure CreateCall where
  user : User
  stage : CreateStage

structure Creates where
  files : Bytes → FileState
  registry : List RegistryEntry
  index : FileIndex
  calls : Nat → Option CreateCall
  handlers : Nat → Option CreateHandler
  nextHandler : Nat

def Creates.started (registry : List RegistryEntry) (index : FileIndex) : Creates :=
  ⟨fun _ => FileState.absent, registry, index, fun _ => none, fun _ => none, 0⟩

inductive CreateEvent where
  | call (thread : Nat) (user : User)
  | advance (thread : Nat) (connects : Bool) (now : Int)
  | lose (thread : Nat)
  | serve (handler : Nat)

def Creates.move (state : Creates) (thread : Nat) (call : CreateCall) (stage : CreateStage) :
    Creates :=
  { state with calls := Function.update state.calls thread (some { call with stage := stage }) }

def Creates.send (state : Creates) (thread : Nat) (call : CreateCall) (server : Bytes)
    (rest : List Bytes) (now : Int) : Creates :=
  { (state.move thread call (.waiting state.nextHandler server rest)) with
    handlers := Function.update state.handlers state.nextHandler
      (some ⟨thread, server, call.user, now, .arrived⟩)
    nextHandler := state.nextHandler + 1 }

def Creates.receive (state : Creates) (thread : Nat) (call : CreateCall) (handler : Nat)
    (server : Bytes) : Creates :=
  match (state.handlers handler).map CreateHandler.stage with
  | some .created => state.move thread call (.selected server)
  | some .refused => state.move thread call .failed
  | _ => state

def createIndexed (index : FileIndex) (filename : Bytes) (user : User) (indexed : Bool) :
    Option Location → FileIndex
  | none => index
  | some location =>
      if indexed then
        modifyKey FileEntry.key (pathParts filename)
          (fun entry => { entry with owner := user.name.take 63 }) index
      else indexAddFile index filename user.name location

def Creates.enter (filename : Bytes) (state : Creates) (thread : Nat) (call : CreateCall)
    (server : Bytes) (indexed : Bool) : Creates :=
  let location := registryGetSsInfo state.registry server
  if location.isNone ∧ indexed = false then state.move thread call .failed
  else { (state.move thread call (.succeeded server)) with
    index := createIndexed state.index filename call.user indexed location
    registry := registryAdjustFileCount state.registry server 1 }

def Creates.advance (filename : Bytes) (state : Creates) (thread : Nat) (call : CreateCall)
    (connects : Bool) (now : Int) : Creates :=
  match call.stage with
  | .called =>
      if (indexLookupFile state.index filename).isSome then state.move thread call .failed
      else state.move thread call .unindexed
  | .unindexed =>
      state.move thread call (.trying (registryGetSsCandidates state.registry maxSsCandidates))
  | .trying [] => state.move thread call .failed
  | .trying (server :: rest) =>
      if connects then state.send thread call server rest now
      else state.move thread call (.trying rest)
  | .waiting handler server _ => state.receive thread call handler server
  | .selected server =>
      state.move thread call (.looked server (indexLookupFile state.index filename).isSome)
  | .looked server indexed => state.enter filename thread call server indexed
  | .succeeded _ | .failed => state

def Creates.lose (state : Creates) (thread : Nat) (call : CreateCall) : Creates :=
  match call.stage with
  | .waiting _ _ rest => state.move thread call (.trying rest)
  | _ => state

def Creates.serve (state : Creates) (id : Nat) (handler : CreateHandler) : Creates :=
  let (file, stage) := serveCreate (state.files handler.server) handler
  { state with
    files := Function.update state.files handler.server file
    handlers := Function.update state.handlers id (some { handler with stage := stage }) }

def Creates.step (filename : Bytes) (state : Creates) : CreateEvent → Creates
  | .call thread user => match state.calls thread with
    | none => { state with calls := Function.update state.calls thread (some ⟨user, .called⟩) }
    | some _ => state
  | .advance thread connects now => match state.calls thread with
    | none => state
    | some call => state.advance filename thread call connects now
  | .lose thread => match state.calls thread with
    | none => state
    | some call => state.lose thread call
  | .serve id => match state.handlers id with
    | none => state
    | some handler => state.serve id handler

/-- A CREATE that nobody interrupts is `file_create`. -/
theorem serveCreate_fileCreate (file : FileState) (thread : Nat) (server : Bytes) (owner : User)
    (now : Int) (absent : fileExists file = false) :
    let handler (stage : HandlerStage) : CreateHandler := ⟨thread, server, owner, now, stage⟩
    (serveCreate file (handler .arrived)).2 = .checked ∧
      fileCreate file owner.name now = some (serveCreate
        (serveCreate file (handler .checked)).1 (handler .opened)).1 := by
  constructor
  · simp [serveCreate, absent]
  · have none : file.content.isSome = false := absent
    simp [fileCreate, none, serveCreate, saveMetadata]

def Creates.Succeeded (state : Creates) (thread : Nat) : Prop :=
  ∃ call server, state.calls thread = some call ∧ call.stage = .succeeded server

structure Creates.Exclusive (filename : Bytes) (state : Creates) : Prop where
  callers : ∀ first second, state.Succeeded first → state.Succeeded second → first = second
  servers : ∀ first second, fileExists (state.files first) = true →
    fileExists (state.files second) = true → first = second
  owner : ∀ entry, indexLookupFile state.index filename = some entry →
    (loadMetadata (state.files entry.ssUsername)).map FileMetadata.owner = some entry.owner

-- the request finds no file at its server only while no server that was asked has the file, and
-- none is about to create it
def Creates.Alone (state : Creates) (handler : CreateHandler) : Prop :=
  handler.stage = .arrived → fileExists (state.files handler.server) = false →
    ∀ id < state.nextHandler, ∀ other ∈ state.handlers id,
      other.stage ≠ .checked ∧ fileExists (state.files other.server) = false

def CreatesAlone (state : Creates) : CreateEvent → Prop
  | .serve id => ∀ handler ∈ state.handlers id, state.Alone handler
  | .call _ _ | .advance _ _ _ | .lose _ => True

instance (state : Creates) (handler : CreateHandler) : Decidable (state.Alone handler) :=
  inferInstanceAs (Decidable (_ → _ → ∀ id < state.nextHandler, ∀ other ∈ state.handlers id, _))

instance (state : Creates) (event : CreateEvent) : Decidable (CreatesAlone state event) :=
  match event with
  | .serve id => inferInstanceAs (Decidable (∀ handler ∈ state.handlers id, _))
  | .call _ _ | .advance _ _ _ | .lose _ => isTrue trivial

def Creates.Won (state : Creates) (thread : Nat) (user : User) (server : Bytes) : Prop :=
  ∃ id handler, state.handlers id = some handler ∧ handler.stage = .created ∧
    handler.thread = thread ∧ handler.server = server ∧ handler.owner = user

structure CallInv (state : Creates) (thread : Nat) (call : CreateCall) : Prop where
  pending : ∀ server ∈ call.stage.pending, server.length ≤ 63
  waiting : ∀ id server rest, call.stage = .waiting id server rest →
    ∃ handler, state.handlers id = some handler ∧ handler.thread = thread ∧
      handler.server = server ∧ handler.owner = call.user
  chosen : ∀ server, call.stage.chosen = some server → state.Won thread call.user server
  unindexed : ∀ server, call.stage ≠ .looked server true

structure Creates.Inv (filename : Bytes) (state : Creates) : Prop where
  numbered : ∀ id handler, state.handlers id = some handler → id < state.nextHandler
  names : ∀ id handler, state.handlers id = some handler → handler.server.length ≤ 63
  alone : ∀ first second one other, state.handlers first = some one →
    state.handlers second = some other → one.stage.passed = true → other.stage.passed = true →
    first = second
  stored : ∀ server, fileExists (state.files server) = true →
    ∃ id handler, state.handlers id = some handler ∧ handler.server = server ∧
      handler.stage.stores = true
  present : ∀ id handler, state.handlers id = some handler → handler.stage.stores = true →
    fileExists (state.files handler.server) = true
  record : ∀ id handler, state.handlers id = some handler → handler.stage = .created →
    (state.files handler.server).metadata =
      some (metadataSave (newMetadata handler.owner.name handler.now))
  calls : ∀ thread call, state.calls thread = some call → CallInv state thread call
  indexed : ∀ entry, indexLookupFile state.index filename = some entry →
    ∃ thread call server, state.calls thread = some call ∧ call.stage = .succeeded server ∧
      entry.owner = call.user.name ∧ entry.ssUsername = server

theorem Creates.Inv.started {filename : Bytes} {registry : List RegistryEntry} {index : FileIndex}
    (unindexed : indexLookupFile index filename = none) :
    (Creates.started registry index).Inv filename := by
  refine ⟨?_, ?_, ?_, ?_, ?_, ?_, ?_, ?_⟩
  all_goals simp [Creates.started, fileExists, FileState.absent, unindexed]

theorem newMetadata_owner (owner : User) (now : Int) :
    (metadataLoad (metadataSave (newMetadata owner.name now))).owner = owner.name := by
  have proper := newMetadata_proper owner now
  rw [metadataLoad_metadataSave proper.wellFormed]
  exact proper.owner

section

variable {filename : Bytes} {state : Creates} (inv : state.Inv filename)

include inv

theorem Creates.Inv.won_unique {first second : Nat} {one other : User} {here there : Bytes}
    (left : state.Won first one here) (right : state.Won second other there) :
    first = second ∧ one = other ∧ here = there := by
  obtain ⟨id, handler, found, stage, rfl, rfl, rfl⟩ := left
  obtain ⟨id', handler', found', stage', rfl, rfl, rfl⟩ := right
  have same := inv.alone id id' handler handler' found found' (by rw [stage]; rfl)
    (by rw [stage']; rfl)
  rw [same, found'] at found
  cases Option.some.inj found
  exact ⟨rfl, rfl, rfl⟩

theorem Creates.Inv.exclusive : state.Exclusive filename := by
  refine ⟨?_, ?_, ?_⟩
  · rintro first second ⟨call, server, here, stage⟩ ⟨call', server', here', stage'⟩
    exact (inv.won_unique ((inv.calls first call here).chosen server (by rw [stage]; rfl))
      ((inv.calls second call' here').chosen server' (by rw [stage']; rfl))).1
  · intro first second one other
    obtain ⟨id, handler, found, rfl, stores⟩ := inv.stored first one
    obtain ⟨id', handler', found', rfl, stores'⟩ := inv.stored second other
    have passed {stage : HandlerStage} (opened : stage.stores = true) : stage.passed = true := by
      cases stage <;> simp_all [HandlerStage.stores, HandlerStage.passed]
    have same := inv.alone id id' handler handler' found found' (passed stores) (passed stores')
    rw [same, found'] at found
    rw [Option.some.inj found]
  · intro entry found
    obtain ⟨thread, call, server, here, stage, owner, located⟩ := inv.indexed entry found
    obtain ⟨id, handler, served, created, _, rfl, user⟩ :=
      (inv.calls thread call here).chosen server (by rw [stage]; rfl)
    rw [located, loadMetadata, inv.record id handler served created, Option.map_some,
      Option.map_some, newMetadata_owner, owner, user]

theorem Creates.Inv.not_indexed {thread : Nat} {call : CreateCall} {server : Bytes}
    (here : state.calls thread = some call) (chosen : call.stage.chosen = some server)
    (open_ : ∀ other, call.stage ≠ .succeeded other) :
    indexLookupFile state.index filename = none := by
  by_contra found
  obtain ⟨entry, indexed⟩ := Option.ne_none_iff_exists'.mp found
  obtain ⟨thread', call', server', here', stage', _⟩ := inv.indexed entry indexed
  have won := (inv.calls thread call here).chosen server chosen
  have won' := (inv.calls thread' call' here').chosen server' (by rw [stage']; rfl)
  rw [(inv.won_unique won won').1, here'] at here
  rw [← Option.some.inj here] at open_
  exact open_ server' stage'

theorem Creates.Inv.move {thread : Nat} {call : CreateCall} {stage : CreateStage}
    (here : state.calls thread = some call) (open_ : ∀ server, call.stage ≠ .succeeded server)
    (moved : CallInv state thread { call with stage := stage }) :
    (state.move thread call stage).Inv filename := by
  refine ⟨inv.numbered, inv.names, inv.alone, inv.stored, inv.present, inv.record, ?_, ?_⟩
  · intro other found there
    rcases update_some_cases there with ⟨rfl, rfl⟩ | ⟨_, old⟩
    · exact ⟨moved.pending, moved.waiting, moved.chosen, moved.unindexed⟩
    · have kept := inv.calls other found old
      exact ⟨kept.pending, kept.waiting, kept.chosen, kept.unindexed⟩
  · intro entry found
    obtain ⟨other, reported, server, there, succeeded, facts⟩ := inv.indexed entry found
    refine ⟨other, reported, server, ?_, succeeded, facts⟩
    have different : other ≠ thread := by
      rintro rfl
      rw [here] at there
      exact open_ server (Option.some.inj there ▸ succeeded)
    dsimp only [Creates.move]
    rw [Function.update_of_ne different]
    exact there

end

section Serve

variable (file : FileState) (handler : CreateHandler)

theorem serveCreate_exists (exists_ : fileExists file = true) :
    fileExists (serveCreate file handler).1 = true := by
  unfold serveCreate
  split
  · simp [exists_]
  · rfl
  · exact exists_
  · exact exists_
  · exact exists_

theorem serveCreate_idle (idle : handler.stage.passed = false) :
    (serveCreate file handler).1 = file := by
  unfold serveCreate
  split
  · split <;> rfl
  all_goals simp_all [HandlerStage.passed]

theorem serveCreate_passed (passed : (serveCreate file handler).2.passed = true) :
    handler.stage.passed = true ∨ (handler.stage = .arrived ∧ fileExists file = false) := by
  unfold serveCreate at passed
  split at passed
  · rename_i stage
    split at passed
    · simp [HandlerStage.passed] at passed
    · rename_i absent
      exact Or.inr ⟨stage, by simpa using absent⟩
  all_goals simp_all [HandlerStage.passed]

theorem serveCreate_stores (stores : handler.stage.stores = true) :
    (serveCreate file handler).2.stores = true := by
  unfold serveCreate
  split <;> simp_all [HandlerStage.stores]

theorem serveCreate_present (old : handler.stage.stores = true → fileExists file = true)
    (stores : (serveCreate file handler).2.stores = true) :
    fileExists (serveCreate file handler).1 = true := by
  unfold serveCreate at stores ⊢
  split at stores
  · split at stores
    · simp [HandlerStage.stores] at stores
    · simp [HandlerStage.stores] at stores
  · rfl
  · rename_i stage
    exact old (by rw [stage]; rfl)
  · rename_i stage
    exact old (by rw [stage]; rfl)
  · simp [HandlerStage.stores] at stores

theorem serveCreate_stored (exists_ : fileExists (serveCreate file handler).1 = true) :
    fileExists file = true ∨ (serveCreate file handler).2.stores = true := by
  unfold serveCreate at exists_ ⊢
  split at exists_
  · split at exists_
    · exact Or.inl exists_
    · exact Or.inl exists_
  · exact Or.inr rfl
  · exact Or.inr rfl
  · exact Or.inr rfl
  · exact Or.inl exists_

theorem serveCreate_created (created : handler.stage = .created) :
    serveCreate file handler = (file, .created) := by
  simp [serveCreate, created]

theorem serveCreate_record
    (old : handler.stage = .created → file.metadata =
      some (metadataSave (newMetadata handler.owner.name handler.now)))
    (created : (serveCreate file handler).2 = .created) :
    (serveCreate file handler).1.metadata =
      some (metadataSave (newMetadata handler.owner.name handler.now)) := by
  unfold serveCreate at created ⊢
  split at created
  · split at created <;> simp at created
  · simp at created
  · rfl
  · rename_i stage
    exact old stage
  · simp at created

end Serve

theorem CallInv.keep {state after : Creates} {thread : Nat} {call : CreateCall}
    (keeps : ∀ id handler, state.handlers id = some handler →
      ∃ later, after.handlers id = some later ∧ later.thread = handler.thread ∧
        later.server = handler.server ∧ later.owner = handler.owner ∧
        (handler.stage = .created → later.stage = .created))
    (inv : CallInv state thread call) : CallInv after thread call := by
  refine ⟨inv.pending, ?_, ?_, inv.unindexed⟩
  · intro id server rest stage
    obtain ⟨handler, found, rfl, rfl, owner⟩ := inv.waiting id server rest stage
    obtain ⟨later, there, sameThread, sameServer, sameOwner, _⟩ := keeps id handler found
    exact ⟨later, there, sameThread, sameServer, sameOwner.trans owner⟩
  · intro server chosen
    obtain ⟨id, handler, found, created, rfl, rfl, owner⟩ := inv.chosen server chosen
    obtain ⟨later, there, sameThread, sameServer, sameOwner, still⟩ := keeps id handler found
    exact ⟨id, later, there, still created, sameThread, sameServer, sameOwner.trans owner⟩

section Served

variable {filename : Bytes} {state : Creates} (inv : state.Inv filename) {id : Nat}
  {handler : CreateHandler}

include inv

theorem Creates.Inv.first_passed (guard : state.Alone handler) (arrived : handler.stage = .arrived)
    (absent : fileExists (state.files handler.server) = false) {other : Nat} {found : CreateHandler}
    (there : state.handlers other = some found) : found.stage.passed = false := by
  obtain ⟨notChecked, free⟩ := guard arrived absent other (inv.numbered other found there) found there
  cases stage : found.stage with
  | arrived | refused => rfl
  | checked => exact absurd stage notChecked
  | opened | created =>
      have present := inv.present other found there (by rw [stage]; rfl)
      rw [free] at present
      contradiction

theorem Creates.Inv.serve_files {other : Nat} {found : CreateHandler}
    (there : state.handlers other = some found) (stores : found.stage.stores = true) :
    fileExists (Function.update state.files handler.server
      (serveCreate (state.files handler.server) handler).1 found.server) = true := by
  have present := inv.present other found there stores
  by_cases same : found.server = handler.server
  · rw [same] at present ⊢
    rw [Function.update_self]
    exact serveCreate_exists _ _ present
  · rw [Function.update_of_ne same]
    exact present

variable (here : state.handlers id = some handler)

include here

theorem Creates.Inv.serve_alone (guard : state.Alone handler) {other : Nat} {found : CreateHandler}
    (passed : (serveCreate (state.files handler.server) handler).2.passed = true)
    (there : state.handlers other = some found) (otherPassed : found.stage.passed = true) :
    id = other := by
  rcases serveCreate_passed _ _ passed with before | ⟨arrived, absent⟩
  · exact inv.alone id other handler found here there before otherPassed
  · rw [inv.first_passed guard arrived absent there] at otherPassed
    contradiction

theorem Creates.Inv.serve (guard : state.Alone handler) :
    (state.serve id handler).Inv filename := by
  refine ⟨?_, ?_, ?_, ?_, ?_, ?_, ?_, inv.indexed⟩
  · intro other found there
    rcases update_some_cases there with ⟨rfl, _⟩ | ⟨_, before⟩
    · exact inv.numbered other handler here
    · exact inv.numbered other found before
  · intro other found there
    rcases update_some_cases there with ⟨_, rfl⟩ | ⟨_, before⟩
    · exact inv.names id handler here
    · exact inv.names other found before
  · intro first second one other left right onePassed otherPassed
    rcases update_some_cases left with ⟨rfl, rfl⟩ | ⟨_, oldLeft⟩
    · rcases update_some_cases right with ⟨rfl, _⟩ | ⟨_, oldRight⟩
      · rfl
      · exact inv.serve_alone here guard onePassed oldRight otherPassed
    · rcases update_some_cases right with ⟨rfl, rfl⟩ | ⟨_, oldRight⟩
      · exact (inv.serve_alone here guard otherPassed oldLeft onePassed).symm
      · exact inv.alone first second one other oldLeft oldRight onePassed otherPassed
  · intro server exists_
    have keep (stored : fileExists (state.files server) = true) :
        ∃ other found, (state.serve id handler).handlers other = some found ∧
          found.server = server ∧ found.stage.stores = true := by
      obtain ⟨other, found, before, located, stores⟩ := inv.stored server stored
      by_cases same : other = id
      · subst same
        rw [here] at before
        cases Option.some.inj before
        exact ⟨other, _, Function.update_self .., located, serveCreate_stores _ _ stores⟩
      · exact ⟨other, found, (Function.update_of_ne same ..).trans before, located, stores⟩
    by_cases same : server = handler.server
    · subst same
      dsimp only [Creates.serve] at exists_
      rw [Function.update_self] at exists_
      rcases serveCreate_stored _ _ exists_ with before | stores
      · exact keep before
      · exact ⟨id, _, Function.update_self .., rfl, stores⟩
    · dsimp only [Creates.serve] at exists_
      rw [Function.update_of_ne same] at exists_
      exact keep exists_
  · intro other found there stores
    rcases update_some_cases there with ⟨rfl, rfl⟩ | ⟨_, before⟩
    · dsimp only [Creates.serve]
      rw [Function.update_self]
      exact serveCreate_present _ _ (inv.present other handler here) stores
    · exact inv.serve_files before stores
  · intro other found there created
    rcases update_some_cases there with ⟨rfl, rfl⟩ | ⟨different, before⟩
    · dsimp only [Creates.serve]
      rw [Function.update_self]
      exact serveCreate_record _ _ (inv.record other handler here) created
    · have record := inv.record other found before created
      dsimp only [Creates.serve]
      by_cases same : found.server = handler.server
      · have idle : handler.stage.passed = false := by
          rw [Bool.eq_false_iff]
          intro passed
          exact different (inv.alone other id found handler before here (by rw [created]; rfl) passed)
        rw [same] at record ⊢
        rw [Function.update_self, serveCreate_idle _ _ idle]
        exact record
      · rw [Function.update_of_ne same]
        exact record
  · intro thread call calling
    refine (inv.calls thread call calling).keep ?_
    intro other found before
    by_cases same : other = id
    · subst same
      rw [here] at before
      cases Option.some.inj before
      refine ⟨_, Function.update_self .., rfl, rfl, rfl, ?_⟩
      intro created
      exact congrArg Prod.snd (serveCreate_created _ _ created)
    · exact ⟨found, (Function.update_of_ne same ..).trans before, rfl, rfl, rfl,
        fun created => created⟩

end Served

theorem candidates_short (registry : List RegistryEntry) (maxEntries : Nat) :
    ∀ server ∈ registryGetSsCandidates registry maxEntries, server.length ≤ 63 := by
  intro server member
  obtain ⟨entry, _, rfl⟩ := List.mem_map.mp member
  rw [List.length_take]
  omega

theorem callInv_of_open {state : Creates} {thread : Nat} {call : CreateCall}
    (noWait : ∀ id server rest, call.stage ≠ .waiting id server rest)
    (unchosen : call.stage.chosen = none)
    (pending : ∀ server ∈ call.stage.pending, server.length ≤ 63) : CallInv state thread call := by
  refine ⟨pending, ?_, ?_, ?_⟩
  · intro id server rest stage
    exact absurd stage (noWait id server rest)
  · intro server chosen
    rw [unchosen] at chosen
    contradiction
  · intro server stage
    rw [stage] at unchosen
    contradiction

section Calls

variable {filename : Bytes} {state : Creates} (inv : state.Inv filename) {thread : Nat}
  {call : CreateCall} (here : state.calls thread = some call)

include inv here

theorem Creates.Inv.send {server : Bytes} {rest : List Bytes} (now : Int)
    (stage : call.stage = .trying (server :: rest)) :
    (state.send thread call server rest now).Inv filename := by
  have short := (inv.calls thread call here).pending
  rw [stage] at short
  have fresh {id : Nat} {found : CreateHandler} (there : state.handlers id = some found) :
      id ≠ state.nextHandler := (inv.numbered id found there).ne
  have keeps {id : Nat} {found : CreateHandler} (there : state.handlers id = some found) :
      (state.send thread call server rest now).handlers id = some found :=
    (Function.update_of_ne (fresh there) ..).trans there
  refine ⟨?_, ?_, ?_, ?_, ?_, ?_, ?_, ?_⟩
  · intro id found there
    rcases update_some_cases there with ⟨rfl, _⟩ | ⟨_, old⟩
    · exact Nat.lt_succ_self _
    · exact Nat.lt_succ_of_lt (inv.numbered id found old)
  · intro id found there
    rcases update_some_cases there with ⟨_, rfl⟩ | ⟨_, old⟩
    · exact short server List.mem_cons_self
    · exact inv.names id found old
  · intro first second one other left right onePassed otherPassed
    rcases update_some_cases left with ⟨_, rfl⟩ | ⟨_, oldLeft⟩
    · simp [HandlerStage.passed] at onePassed
    · rcases update_some_cases right with ⟨_, rfl⟩ | ⟨_, oldRight⟩
      · simp [HandlerStage.passed] at otherPassed
      · exact inv.alone first second one other oldLeft oldRight onePassed otherPassed
  · intro place exists_
    obtain ⟨id, found, there, located, stores⟩ := inv.stored place exists_
    exact ⟨id, found, keeps there, located, stores⟩
  · intro id found there stores
    rcases update_some_cases there with ⟨_, rfl⟩ | ⟨_, old⟩
    · simp [HandlerStage.stores] at stores
    · exact inv.present id found old stores
  · intro id found there created
    rcases update_some_cases there with ⟨_, rfl⟩ | ⟨_, old⟩
    · simp at created
    · exact inv.record id found old created
  · intro other found there
    rcases update_some_cases there with ⟨rfl, rfl⟩ | ⟨_, old⟩
    · refine ⟨fun place member => short place (List.mem_cons_of_mem _ member), ?_, ?_, ?_⟩
      · rintro id place left waiting
        obtain ⟨rfl, rfl, rfl⟩ := CreateStage.waiting.inj waiting
        exact ⟨_, Function.update_self .., rfl, rfl, rfl⟩
      · intro place chosen
        simp [CreateStage.chosen] at chosen
      · intro place looked
        simp at looked
    · refine (inv.calls other found old).keep ?_
      intro id handler before
      exact ⟨handler, keeps before, rfl, rfl, rfl, fun created => created⟩
  · intro entry found
    obtain ⟨other, reported, place, there, succeeded, facts⟩ := inv.indexed entry found
    refine ⟨other, reported, place, ?_, succeeded, facts⟩
    have different : other ≠ thread := by
      rintro rfl
      rw [here] at there
      rw [← Option.some.inj there, stage] at succeeded
      contradiction
    exact (Function.update_of_ne different ..).trans there

theorem Creates.Inv.receive {id : Nat} {server : Bytes} {rest : List Bytes}
    (stage : call.stage = .waiting id server rest) :
    (state.receive thread call id server).Inv filename := by
  have open_ (other : Bytes) : call.stage ≠ .succeeded other := by simp [stage]
  obtain ⟨handler, found, rfl, rfl, owner⟩ := (inv.calls thread call here).waiting id server rest stage
  unfold Creates.receive
  rw [found, Option.map_some]
  split
  · rename_i created
    refine inv.move here open_ ⟨by simp [CreateStage.pending], by simp, ?_, by simp⟩
    rintro server chosen
    obtain rfl := Option.some.inj chosen
    exact ⟨id, handler, found, Option.some.inj created, rfl, rfl, owner⟩
  · exact inv.move here open_ (callInv_of_open (by simp) rfl (by simp [CreateStage.pending]))
  · exact inv

theorem Creates.Inv.enter {server : Bytes} {indexed : Bool}
    (stage : call.stage = .looked server indexed) :
    (state.enter filename thread call server indexed).Inv filename := by
  have open_ (other : Bytes) : call.stage ≠ .succeeded other := by simp [stage]
  have chosen : call.stage.chosen = some server := by
    rw [stage]
    rfl
  have won := (inv.calls thread call here).chosen server chosen
  have fresh := inv.not_indexed here chosen open_
  have new : indexed = false := by
    cases indexed with
    | false => rfl
    | true => exact absurd stage ((inv.calls thread call here).unindexed server)
  subst new
  unfold Creates.enter
  dsimp only
  split
  · exact inv.move here open_ (callInv_of_open (by simp) rfl (by simp [CreateStage.pending]))
  · rename_i present
    have moved : (state.move thread call (.succeeded server)).Inv filename := by
      refine inv.move here open_ ⟨by simp [CreateStage.pending], by simp, ?_, by simp⟩
      rintro place same
      obtain rfl := Option.some.inj same
      exact won
    obtain ⟨location, info⟩ : ∃ location, registryGetSsInfo state.registry server = some location := by
      simpa [Option.ne_none_iff_exists'] using present
    refine ⟨moved.numbered, moved.names, moved.alone, moved.stored, moved.present, moved.record, ?_, ?_⟩
    · intro other found there
      have kept := moved.calls other found there
      exact ⟨kept.pending, kept.waiting, kept.chosen, kept.unindexed⟩
    · intro entry found
      rw [info] at found
      dsimp only [createIndexed] at found
      rw [if_neg (by decide), indexLookupFile, indexLookup_add, if_pos rfl,
        ← indexLookupFile, fresh, Option.getD_none] at found
      refine ⟨thread, _, server, Function.update_self .., rfl, ?_, ?_⟩
      · rw [← Option.some.inj found]
        exact List.take_of_length_le call.user.proper.short
      · have located : location.username = server := by
          obtain ⟨_, _, rfl⟩ := Option.map_eq_some_iff.mp info
          rfl
        obtain ⟨id, handler, served, _, _, rfl, _⟩ := won
        rw [← Option.some.inj found]
        dsimp only [FileEntry.relocate]
        rw [located, List.take_of_length_le (inv.names id handler served)]

theorem Creates.Inv.advance (connects : Bool) (now : Int) :
    (state.advance filename thread call connects now).Inv filename := by
  have short := (inv.calls thread call here).pending
  unfold Creates.advance
  split
  · rename_i stage
    have open_ (server : Bytes) : call.stage ≠ .succeeded server := by simp [stage]
    split
    · exact inv.move here open_ (callInv_of_open (by simp) rfl (by simp [CreateStage.pending]))
    · exact inv.move here open_ (callInv_of_open (by simp) rfl (by simp [CreateStage.pending]))
  · rename_i stage
    exact inv.move here (by simp [stage]) (callInv_of_open (by simp) rfl
      (candidates_short state.registry maxSsCandidates))
  · rename_i stage
    exact inv.move here (by simp [stage])
      (callInv_of_open (by simp) rfl (by simp [CreateStage.pending]))
  · rename_i server rest stage
    split
    · exact inv.send here now stage
    · rw [stage] at short
      exact inv.move here (by simp [stage]) (callInv_of_open (by simp) rfl
        (fun place member => short place (List.mem_cons_of_mem _ member)))
  · rename_i id server rest stage
    exact inv.receive here stage
  · rename_i server stage
    have open_ (other : Bytes) : call.stage ≠ .succeeded other := by simp [stage]
    have chosen : call.stage.chosen = some server := by
      rw [stage]
      rfl
    rw [inv.not_indexed here chosen open_]
    refine inv.move here open_ ⟨by simp [CreateStage.pending], by simp, ?_, by simp⟩
    rintro place same
    obtain rfl := Option.some.inj same
    exact (inv.calls thread call here).chosen _ chosen
  · rename_i server indexed stage
    exact inv.enter here stage
  · exact inv
  · exact inv

theorem Creates.Inv.lose : (state.lose thread call).Inv filename := by
  unfold Creates.lose
  split
  · rename_i id server rest stage
    have short := (inv.calls thread call here).pending
    rw [stage] at short
    exact inv.move here (by simp [stage]) (callInv_of_open (by simp) rfl short)
  · exact inv

end Calls

theorem Creates.Inv.call {filename : Bytes} {state : Creates} (inv : state.Inv filename)
    {thread : Nat} (free : state.calls thread = none) (user : User) :
    ({ state with calls := Function.update state.calls thread (some ⟨user, .called⟩) } :
      Creates).Inv filename := by
  refine ⟨inv.numbered, inv.names, inv.alone, inv.stored, inv.present, inv.record, ?_, ?_⟩
  · intro other found there
    rcases update_some_cases there with ⟨rfl, rfl⟩ | ⟨_, old⟩
    · exact callInv_of_open (by simp) rfl (by simp [CreateStage.pending])
    · have kept := inv.calls other found old
      exact ⟨kept.pending, kept.waiting, kept.chosen, kept.unindexed⟩
  · intro entry found
    obtain ⟨other, reported, place, there, facts⟩ := inv.indexed entry found
    refine ⟨other, reported, place, ?_, facts⟩
    have different : other ≠ thread := by
      rintro rfl
      rw [free] at there
      contradiction
    exact (Function.update_of_ne different ..).trans there

theorem Creates.Inv.step {filename : Bytes} {state : Creates} (event : CreateEvent)
    (inv : state.Inv filename) (guard : CreatesAlone state event) :
    (state.step filename event).Inv filename := by
  cases event with
  | call thread user =>
      dsimp only [Creates.step]
      cases free : state.calls thread with
      | none => exact inv.call free user
      | some call => exact inv
  | advance thread connects now =>
      dsimp only [Creates.step]
      cases here : state.calls thread with
      | none => exact inv
      | some call => exact inv.advance here connects now
  | lose thread =>
      dsimp only [Creates.step]
      cases here : state.calls thread with
      | none => exact inv
      | some call => exact inv.lose here
  | serve id =>
      dsimp only [Creates.step]
      cases here : state.handlers id with
      | none => exact inv
      | some handler => exact inv.serve here (guard handler here)

/-- In every run in which no storage server lets a CREATE through while another one has the file or
is about to have it, one caller at most succeeds, one server at most has the file, and the index has
the owner that its server has. -/
theorem create_exclusive (filename : Bytes) (registry : List RegistryEntry) (index : FileIndex)
    (unindexed : indexLookupFile index filename = none) (events : List CreateEvent)
    (alone : Guarded (Creates.step filename) CreatesAlone (Creates.started registry index) events) :
    (run (Creates.step filename) (Creates.started registry index) events).Exclusive filename :=
  (alone.invariant (fun _ event inv guard => inv.step event guard)
    (Creates.Inv.started unindexed)).exclusive

def exampleRegistry : List RegistryEntry :=
  [⟨lit "ss2", lit "host=127.0.0.1,client_port=9002,", 0⟩,
    ⟨lit "ss1", lit "host=127.0.0.1,client_port=9001,", 0⟩]

def annUser : User := ⟨lit "ann", exampleUser.proper⟩

def bobUser : User := ⟨lit "bob", by decide, by decide, by decide⟩

theorem create_exclusive_two_callers :
    (run (Creates.step (lit "a.txt")) (Creates.started exampleRegistry [])
      [.call 1 annUser, .call 2 bobUser, .advance 1 true 0, .advance 1 true 0, .advance 1 true 0,
        .advance 2 true 0, .advance 2 true 0, .advance 2 true 0, .serve 0, .serve 0, .serve 0,
        .serve 1, .advance 1 true 0, .advance 1 true 0, .advance 1 true 0,
        .advance 2 true 0]).Exclusive (lit "a.txt") :=
  create_exclusive _ _ _ (by decide) _ (by decide +kernel)

def lostRefusal : Creates :=
  run (Creates.step (lit "a.txt")) (Creates.started exampleRegistry [])
    [.call 1 annUser, .call 2 bobUser, .advance 1 true 0, .advance 1 true 0, .advance 1 true 0,
      .advance 2 true 0, .advance 2 true 0, .advance 2 true 0, .serve 0, .serve 0, .serve 0, .serve 1,
      .lose 2, .advance 2 true 0, .serve 2, .serve 2, .serve 2, .advance 1 true 0, .advance 1 true 0,
      .advance 1 true 0, .advance 2 true 0, .advance 2 true 0, .advance 2 true 0]

theorem lost_refusal_creates_twice :
    (lostRefusal.calls 1).map CreateCall.stage = some (.succeeded (lit "ss1")) ∧
      (lostRefusal.calls 2).map CreateCall.stage = some (.succeeded (lit "ss2")) ∧
      fileExists (lostRefusal.files (lit "ss1")) = true ∧
      fileExists (lostRefusal.files (lit "ss2")) = true ∧
      lostRefusal.index.map (fun entry => (entry.owner, entry.ssUsername)) =
        [(lit "bob", lit "ss1")] ∧
      (loadMetadata (lostRefusal.files (lit "ss1"))).map FileMetadata.owner = some (lit "ann") := by
  decide +kernel

end SharedFileSystem
