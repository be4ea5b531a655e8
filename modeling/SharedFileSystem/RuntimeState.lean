import SharedFileSystem.Lib.Text

/-! Sentence locks held in memory, one table for each file name (`ss/runtime_state.c`). -/

namespace SharedFileSystem

open ByteText

def maxRuntimeLocks : Nat := 1024

structure SentenceLock where
  sentenceId : Int
  lockedBy : Bytes
  sessionId : Int
deriving DecidableEq, Repr

structure FileRuntimeState where
  locks : List SentenceLock
  nextSessionId : Int
deriving DecidableEq, Repr

-- `find_or_create_state` starts a name that has no table yet with this one
def FileRuntimeState.fresh : FileRuntimeState := ⟨[], 1⟩

def allocateSession (state : FileRuntimeState) : Int × FileRuntimeState :=
  let next := if state.nextSessionId ≤ 0 then 1 else state.nextSessionId
  (next, { state with nextSessionId := next + 1 })

def sentenceLockAcquire (state : FileRuntimeState) (sentenceId : Int) (username : Bytes) :
    Option (Int × FileRuntimeState) :=
  if sentenceId ≤ 0 then none
  else if state.locks.any (fun lock => lock.sentenceId = sentenceId) then none
  else if maxRuntimeLocks ≤ state.locks.length then none
  else
    let (sessionId, allocated) := allocateSession state
    some (sessionId, { allocated with
      locks := state.locks ++ [⟨sentenceId, username.take 63, sessionId⟩] })

def dropLock (found : SentenceLock → Bool) : List SentenceLock → List SentenceLock
  | [] => []
  | lock :: rest =>
      if found lock then
        match rest.getLast? with
        | none => []
        | some last => last :: rest.dropLast
      else lock :: dropLock found rest

def sentenceLockRelease (state : FileRuntimeState) (sentenceId sessionId : Int) : FileRuntimeState :=
  if sentenceId ≤ 0 ∨ sessionId ≤ 0 then state
  else { state with
    locks := dropLock (fun lock => lock.sentenceId = sentenceId && lock.sessionId = sessionId)
      state.locks }

theorem sentenceLockAcquire_some {state next : FileRuntimeState} {sentenceId sessionId : Int}
    {username : Bytes}
    (acquired : sentenceLockAcquire state sentenceId username = some (sessionId, next)) :
    0 < sentenceId ∧ (∀ lock ∈ state.locks, lock.sentenceId ≠ sentenceId) ∧ 0 < sessionId ∧
      next.locks = state.locks ++ [⟨sentenceId, username.take 63, sessionId⟩] := by
  unfold sentenceLockAcquire allocateSession at acquired
  split at acquired
  · simp at acquired
  · rename_i positive
    split at acquired
    · simp at acquired
    · rename_i unlocked
      split at acquired
      · simp at acquired
      · simp only [Option.some.injEq, Prod.mk.injEq] at acquired
        obtain ⟨session, rfl⟩ := acquired
        refine ⟨by omega, ?_, ?_, by rw [← session]⟩
        · intro lock member same
          exact unlocked (List.any_eq_true.mpr ⟨lock, member, by simpa using same⟩)
        · rw [← session]
          split <;> omega

theorem dropLock_perm (found : SentenceLock → Bool) (locks : List SentenceLock) :
    (dropLock found locks).Perm (locks.eraseP found) := by
  induction locks with
  | nil => exact List.Perm.refl _
  | cons lock rest ih =>
      unfold dropLock
      by_cases hit : found lock = true
      · rw [if_pos hit, List.eraseP_cons_of_pos hit]
        rcases List.eq_nil_or_concat rest with empty | ⟨front, last, shape⟩
        · simp [empty]
        · rw [shape, List.concat_eq_append]
          simpa using @List.perm_append_comm _ [last] front
      · rw [if_neg hit, List.eraseP_cons_of_neg hit]
        exact ih.cons lock

structure LocksHeld {ι : Type*} (locks : List SentenceLock) (holder : ι → Option (Int × Int)) :
    Prop where
  present : ∀ i sentenceId sessionId, holder i = some (sentenceId, sessionId) →
    0 < sentenceId ∧ 0 < sessionId ∧
      ∃ lock ∈ locks, lock.sentenceId = sentenceId ∧ lock.sessionId = sessionId
  apart : ∀ i j first second, i ≠ j → holder i = some first → holder j = some second →
    first.1 ≠ second.1

theorem LocksHeld.acquire {ι : Type*} [DecidableEq ι] {runtime next : FileRuntimeState}
    {holder : ι → Option (Int × Int)} {sentenceId sessionId : Int} {username : Bytes}
    (held : LocksHeld runtime.locks holder) (i : ι)
    (acquired : sentenceLockAcquire runtime sentenceId username = some (sessionId, next)) :
    LocksHeld next.locks (Function.update holder i (some (sentenceId, sessionId))) := by
  obtain ⟨positive, unlocked, session, locks⟩ := sentenceLockAcquire_some acquired
  have others (j : ι) (other : Int × Int) (found : holder j = some other) :
      other.1 ≠ sentenceId := by
    obtain ⟨_, _, lock, member, same, _⟩ := held.present j other.1 other.2 found
    exact same ▸ unlocked lock member
  constructor
  · intro j id key found
    by_cases here : j = i
    · subst here
      simp only [Function.update_self, Option.some.injEq, Prod.mk.injEq] at found
      obtain ⟨rfl, rfl⟩ := found
      exact ⟨positive, session, ⟨sentenceId, username.take 63, sessionId⟩, by rw [locks]; simp, rfl, rfl⟩
    · rw [Function.update_of_ne here] at found
      obtain ⟨idPositive, keyPositive, lock, member, same⟩ := held.present j id key found
      exact ⟨idPositive, keyPositive, lock, by rw [locks]; simp [member], same⟩
  · intro a b first second different foundA foundB
    by_cases hereA : a = i
    · subst hereA
      rw [Function.update_self] at foundA
      rw [Function.update_of_ne (Ne.symm different)] at foundB
      rw [← Option.some.inj foundA]
      exact (others b second foundB).symm
    · rw [Function.update_of_ne hereA] at foundA
      by_cases hereB : b = i
      · subst hereB
        rw [Function.update_self] at foundB
        rw [← Option.some.inj foundB]
        exact others a first foundA
      · rw [Function.update_of_ne hereB] at foundB
        exact held.apart a b first second different foundA foundB

theorem LocksHeld.release {ι : Type*} {runtime : FileRuntimeState} {holder : ι → Option (Int × Int)}
    (held : LocksHeld runtime.locks holder) (sentenceId sessionId : Int)
    (others : ∀ i other, holder i = some other → other.1 ≠ sentenceId) :
    LocksHeld (sentenceLockRelease runtime sentenceId sessionId).locks holder := by
  refine ⟨?_, held.apart⟩
  intro i id key found
  obtain ⟨idPositive, keyPositive, lock, member, same, sameKey⟩ := held.present i id key found
  refine ⟨idPositive, keyPositive, lock, ?_, same, sameKey⟩
  have different := others i (id, key) found
  unfold sentenceLockRelease
  split
  · exact member
  · rw [(dropLock_perm _ _).mem_iff]
    refine (List.mem_eraseP_of_neg ?_).mpr member
    simp [same, different]

theorem LocksHeld.release_acquired {ι : Type*} {runtime locked : FileRuntimeState}
    {holder : ι → Option (Int × Int)} {sentenceId sessionId : Int} {username : Bytes}
    (held : LocksHeld runtime.locks holder)
    (acquired : sentenceLockAcquire runtime sentenceId username = some (sessionId, locked)) :
    LocksHeld (sentenceLockRelease locked sentenceId sessionId).locks holder := by
  obtain ⟨_, unlocked, _, shape⟩ := sentenceLockAcquire_some acquired
  have wider : LocksHeld locked.locks holder := by
    refine ⟨?_, held.apart⟩
    intro i id key found
    obtain ⟨first, second, lock, member, rest⟩ := held.present i id key found
    exact ⟨first, second, lock, by rw [shape]; simp [member], rest⟩
  refine wider.release sentenceId sessionId ?_
  intro i other found
  obtain ⟨_, _, lock, member, sameId, _⟩ := held.present i other.1 other.2 found
  exact sameId ▸ unlocked lock member

theorem LocksHeld.clear {ι : Type*} [DecidableEq ι] {locks : List SentenceLock}
    {holder : ι → Option (Int × Int)} (held : LocksHeld locks holder) (i : ι) :
    LocksHeld locks (Function.update holder i none) := by
  have kept (j : ι) (other : Int × Int) (found : Function.update holder i none j = some other) :
      holder j = some other := by
    by_cases here : j = i
    · subst here
      simp at found
    · rwa [Function.update_of_ne here] at found
  exact ⟨fun j id key found => held.present j id key (kept j (id, key) found),
    fun a b first second different foundA foundB =>
      held.apart a b first second different (kept a first foundA) (kept b second foundB)⟩

theorem LocksHeld.release_clear {ι : Type*} [DecidableEq ι] {runtime : FileRuntimeState}
    {holder : ι → Option (Int × Int)} (held : LocksHeld runtime.locks holder) (i : ι)
    {sentenceId sessionId : Int} (found : holder i = some (sentenceId, sessionId)) :
    LocksHeld (sentenceLockRelease runtime sentenceId sessionId).locks
      (Function.update holder i none) := by
  refine (held.clear i).release sentenceId sessionId ?_
  intro j other present
  by_cases here : j = i
  · subst here
    simp at present
  · rw [Function.update_of_ne here] at present
    exact held.apart j i other (sentenceId, sessionId) here present found

end SharedFileSystem
