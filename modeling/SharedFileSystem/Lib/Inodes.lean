import Mathlib.Data.List.Basic
import Mathlib.Logic.Function.Basic
import SharedFileSystem.Lib.Runs

/-!
Files behind names. A name leads to an inode, and what has opened it keeps the inode, whatever becomes of the
name. Writers fill a file under a temporary name and rename it to the target; readers open the target.
-/

namespace Inodes

variable {π α κ ρ : Type*}

structure Disk (π α : Type*) where
  names : π → Option Nat
  data : Nat → List α
  -- no inode from here on has a name or was ever opened
  fresh : Nat

section

variable [DecidableEq π]

def Disk.truncate (disk : Disk π α) (path : π) : Disk π α × Nat :=
  match disk.names path with
  | some inode => ({ disk with data := Function.update disk.data inode [] }, inode)
  | none =>
      (⟨Function.update disk.names path (some disk.fresh), Function.update disk.data disk.fresh [],
        disk.fresh + 1⟩, disk.fresh)

def overwrite (blank : α) (old : List α) (offset : Nat) (items : List α) : List α :=
  old.take offset ++ List.replicate (offset - old.length) blank ++ items ++
    old.drop (offset + items.length)

def Disk.write (blank : α) (disk : Disk π α) (inode offset : Nat) (items : List α) : Disk π α :=
  { disk with data := Function.update disk.data inode (overwrite blank (disk.data inode) offset items) }

def Disk.rename (disk : Disk π α) (source target : π) : Option (Disk π α) :=
  match disk.names source with
  | none => none
  | some inode =>
      if source = target then some disk
      else some { disk with
        names := Function.update (Function.update disk.names target (some inode)) source none }

def Disk.unlink (disk : Disk π α) (path : π) : Disk π α :=
  { disk with names := Function.update disk.names path none }

end

theorem overwrite_end (blank : α) (old items : List α) :
    overwrite blank old old.length items = old ++ items := by
  simp [overwrite]

structure Disk.Proper (disk : Disk π α) : Prop where
  named : ∀ path inode, disk.names path = some inode → inode < disk.fresh
  single : ∀ path other inode, disk.names path = some inode → disk.names other = some inode → path = other

def Spares (before after : Disk π α) (path : π) : Prop :=
  ∀ inode, before.names path = some inode →
    after.names path = some inode ∧ after.data inode = before.data inode

def Keeps (before after : Disk π α) (target : π) : Prop :=
  ∀ inode, inode < before.fresh → (∀ path, before.names path = some inode → path = target) →
    inode < after.fresh ∧ after.data inode = before.data inode ∧
      ∀ path, after.names path = some inode → path = target

section

variable [DecidableEq π] {disk : Disk π α} {path other target : π}

theorem Disk.truncate_cases (disk : Disk π α) (path : π) :
    (∃ inode, disk.names path = some inode ∧
        disk.truncate path = ({ disk with data := Function.update disk.data inode [] }, inode)) ∨
      disk.names path = none ∧ disk.truncate path =
        (⟨Function.update disk.names path (some disk.fresh), Function.update disk.data disk.fresh [],
          disk.fresh + 1⟩, disk.fresh) := by
  unfold Disk.truncate
  cases named : disk.names path with
  | none => exact Or.inr ⟨rfl, rfl⟩
  | some inode => exact Or.inl ⟨inode, rfl, rfl⟩

theorem Disk.truncate_opened (disk : Disk π α) (path : π) :
    (disk.truncate path).1.names path = some (disk.truncate path).2 ∧
      (disk.truncate path).1.data (disk.truncate path).2 = [] := by
  rcases disk.truncate_cases path with ⟨inode, named, result⟩ | ⟨_, result⟩
  · rw [result]
    exact ⟨named, Function.update_self ..⟩
  · rw [result]
    exact ⟨Function.update_self .., Function.update_self ..⟩

theorem Disk.truncate_names (disk : Disk π α) (different : other ≠ path) :
    (disk.truncate path).1.names other = disk.names other := by
  rcases disk.truncate_cases path with ⟨inode, _, result⟩ | ⟨_, result⟩
  · rw [result]
  · rw [result]
    exact Function.update_of_ne different _ _

theorem Disk.Proper.truncate (proper : disk.Proper) (path : π) : (disk.truncate path).1.Proper := by
  rcases disk.truncate_cases path with ⟨inode, _, result⟩ | ⟨_, result⟩
  · rw [result]
    exact ⟨proper.named, proper.single⟩
  · rw [result]
    refine ⟨?_, ?_⟩
    · intro other inode named
      dsimp only at named ⊢
      by_cases same : other = path
      · subst same
        rw [Function.update_self] at named
        rw [← Option.some.inj named]
        exact Nat.lt_succ_self _
      · rw [Function.update_of_ne same] at named
        exact Nat.lt_succ_of_lt (proper.named other inode named)
    · intro first second inode left right
      dsimp only at left right
      by_cases one : first = path
      · by_cases two : second = path
        · rw [one, two]
        · rw [one, Function.update_self] at left
          rw [Function.update_of_ne two] at right
          have old := proper.named second inode right
          rw [← Option.some.inj left] at old
          exact absurd old (Nat.lt_irrefl _)
      · rw [Function.update_of_ne one] at left
        by_cases two : second = path
        · rw [two, Function.update_self] at right
          have old := proper.named first inode left
          rw [← Option.some.inj right] at old
          exact absurd old (Nat.lt_irrefl _)
        · rw [Function.update_of_ne two] at right
          exact proper.single first second inode left right

theorem Disk.Proper.truncate_spares (proper : disk.Proper) (different : other ≠ path) :
    Spares disk (disk.truncate path).1 other := by
  intro inode named
  rcases disk.truncate_cases path with ⟨emptied, own, result⟩ | ⟨_, result⟩
  · rw [result]
    refine ⟨named, Function.update_of_ne ?_ _ _⟩
    rintro rfl
    exact different (proper.single other path inode named own)
  · rw [result]
    refine ⟨(Function.update_of_ne different _ _).trans named, Function.update_of_ne ?_ _ _⟩
    exact Nat.ne_of_lt (proper.named other inode named)

theorem Disk.truncate_keeps (absent : path = target → disk.names path = none) :
    Keeps disk (disk.truncate path).1 target := by
  intro inode old alone
  rcases disk.truncate_cases path with ⟨emptied, own, result⟩ | ⟨_, result⟩
  · rw [result]
    refine ⟨old, Function.update_of_ne ?_ _ _, alone⟩
    rintro rfl
    exact nomatch (absent (alone path own)).symm.trans own
  · rw [result]
    refine ⟨Nat.lt_succ_of_lt old, Function.update_of_ne (Nat.ne_of_lt old) _ _, ?_⟩
    intro other named
    dsimp only at named
    by_cases same : other = path
    · subst same
      rw [Function.update_self] at named
      exact absurd (Option.some.inj named) (Nat.ne_of_gt old)
    · rw [Function.update_of_ne same] at named
      exact alone other named

omit [DecidableEq π] in
theorem Disk.Proper.write (proper : disk.Proper) (blank : α) (inode offset : Nat) (items : List α) :
    (disk.write blank inode offset items).Proper := ⟨proper.named, proper.single⟩

omit [DecidableEq π] in
theorem Disk.Proper.write_spares (proper : disk.Proper) {inode : Nat}
    (own : disk.names path = some inode) (different : other ≠ path) (blank : α) (offset : Nat)
    (items : List α) : Spares disk (disk.write blank inode offset items) other := by
  intro found named
  refine ⟨named, Function.update_of_ne ?_ _ _⟩
  rintro rfl
  exact different (proper.single other path found named own)

omit [DecidableEq π] in
theorem Disk.write_keeps {inode : Nat} (own : disk.names path = some inode) (different : path ≠ target)
    (blank : α) (offset : Nat) (items : List α) :
    Keeps disk (disk.write blank inode offset items) target := by
  intro held old alone
  refine ⟨old, Function.update_of_ne ?_ _ _, alone⟩
  rintro rfl
  exact different (alone path own)

theorem Disk.unlink_gone (disk : Disk π α) (path : π) : (disk.unlink path).names path = none :=
  Function.update_self ..

theorem Disk.unlink_names {name : π} {inode : Nat}
    (named : (disk.unlink path).names name = some inode) : disk.names name = some inode := by
  unfold Disk.unlink at named
  by_cases same : name = path
  · subst same
    exact nomatch (Function.update_self name none disk.names).symm.trans named
  · exact (Function.update_of_ne same _ _).symm.trans named

theorem Disk.Proper.unlink (proper : disk.Proper) (path : π) : (disk.unlink path).Proper :=
  ⟨fun name inode named => proper.named name inode (Disk.unlink_names named),
    fun first second inode left right =>
      proper.single first second inode (Disk.unlink_names left) (Disk.unlink_names right)⟩

theorem Disk.unlink_spares (disk : Disk π α) (different : other ≠ path) :
    Spares disk (disk.unlink path) other :=
  fun _ named => ⟨(Function.update_of_ne different _ _).trans named, rfl⟩

theorem Disk.unlink_keeps (disk : Disk π α) (path target : π) : Keeps disk (disk.unlink path) target :=
  fun _ old alone => ⟨old, rfl, fun name named => alone name (Disk.unlink_names named)⟩

theorem Disk.rename_eq {inode : Nat} (own : disk.names path = some inode) (different : path ≠ target) :
    disk.rename path target = some { disk with
      names := Function.update (Function.update disk.names target (some inode)) path none } := by
  rw [Disk.rename, own]
  exact if_neg different

theorem renamed_names {names : π → Option Nat} {inode found : Nat} {name : π}
    (named : Function.update (Function.update names target (some inode)) path none name = some found) :
    name ≠ path ∧ (name = target ∧ found = inode ∨ name ≠ target ∧ names name = some found) := by
  by_cases source : name = path
  · subst source
    rw [Function.update_self] at named
    exact nomatch named
  · rw [Function.update_of_ne source] at named
    refine ⟨source, ?_⟩
    by_cases goal : name = target
    · subst goal
      rw [Function.update_self] at named
      exact Or.inl ⟨rfl, (Option.some.inj named).symm⟩
    · rw [Function.update_of_ne goal] at named
      exact Or.inr ⟨goal, named⟩

theorem Disk.Proper.renamed (proper : disk.Proper) {inode : Nat} (own : disk.names path = some inode) :
    Disk.Proper { disk with
      names := Function.update (Function.update disk.names target (some inode)) path none } := by
  refine ⟨?_, ?_⟩
  · intro name found named
    rcases (renamed_names named).2 with ⟨_, rfl⟩ | ⟨_, old⟩
    · exact proper.named path found own
    · exact proper.named name found old
  · intro first second found left right
    obtain ⟨notFirst, one⟩ := renamed_names left
    obtain ⟨notSecond, two⟩ := renamed_names right
    rcases one with ⟨rfl, rfl⟩ | ⟨_, old⟩
    · rcases two with ⟨same, _⟩ | ⟨_, other⟩
      · exact same.symm
      · exact absurd (proper.single second path found other own) notSecond
    · rcases two with ⟨_, rfl⟩ | ⟨_, other⟩
      · exact absurd (proper.single first path found old own) notFirst
      · exact proper.single first second found old other

theorem renamed_spares {inode : Nat} (notSource : other ≠ path) (notTarget : other ≠ target) :
    Spares disk { disk with
      names := Function.update (Function.update disk.names target (some inode)) path none } other := by
  intro found named
  exact ⟨(Function.update_of_ne notSource _ _).trans ((Function.update_of_ne notTarget _ _).trans named), rfl⟩

theorem renamed_keeps (inode : Nat) :
    Keeps disk { disk with
      names := Function.update (Function.update disk.names target (some inode)) path none } target := by
  intro found old alone
  refine ⟨old, rfl, ?_⟩
  intro name named
  rcases (renamed_names named).2 with ⟨goal, _⟩ | ⟨_, before⟩
  · exact goal
  · exact alone name before

end

theorem take_part (items : List α) (offset count : Nat) :
    items.take offset ++ (items.drop offset).take count =
      items.take (offset + ((items.drop offset).take count).length) := by
  have front := List.prefix_iff_eq_take.mp (List.take_prefix count (items.drop offset))
  rw [List.take_add, ← front]

inductive Writer where
  | waiting
  | writing (inode offset : Nat)
  | closed
  | done (renamed : Bool)
deriving DecidableEq, Repr

def Writer.active : Writer → Bool
  | .writing _ _ => true
  | .closed => true
  | _ => false

-- `seen` is what the file held when it was opened
inductive Reader (α : Type*) where
  | waiting
  | opened (inode : Nat) (seen : List α)
  | reading (inode size : Nat) (got seen : List α)
  | missing
  | finished (got seen : List α)
deriving DecidableEq, Repr

structure System (π α κ ρ : Type*) where
  disk : Disk π α
  writers : κ → Writer
  readers : ρ → Reader α
  versions : List (List α)

inductive Event (κ ρ : Type*) where
  -- at most `count + 1` items are written or read
  | write (who : κ) (count : Nat)
  | fail (who : κ)
  | read (who : ρ) (count : Nat)
  | create
  | remove

variable [DecidableEq π] [DecidableEq κ] [DecidableEq ρ]

section

variable (blank : α) (target : π) (temp : κ → π) (content : κ → List α)

def System.writeStep (system : System π α κ ρ) (who : κ) (count : Nat) : System π α κ ρ :=
  match system.writers who with
  | .waiting =>
      let opened := system.disk.truncate (temp who)
      { system with
        disk := opened.1
        writers := Function.update system.writers who (.writing opened.2 0) }
  | .writing inode offset =>
      if offset < (content who).length then
        let items := ((content who).drop offset).take (count + 1)
        { system with
          disk := system.disk.write blank inode offset items
          writers := Function.update system.writers who (.writing inode (offset + items.length)) }
      else { system with writers := Function.update system.writers who .closed }
  | .closed =>
      match system.disk.rename (temp who) target with
      | none => { system with
          disk := system.disk.unlink (temp who)
          writers := Function.update system.writers who (.done false) }
      | some disk => { system with
          disk := disk
          writers := Function.update system.writers who (.done true)
          versions := content who :: system.versions }
  | .done _ => system

def System.failStep (system : System π α κ ρ) (who : κ) : System π α κ ρ :=
  match system.writers who with
  | .writing _ _ => { system with
      disk := system.disk.unlink (temp who)
      writers := Function.update system.writers who (.done false) }
  | _ => system

def System.readStep (system : System π α κ ρ) (who : ρ) (count : Nat) : System π α κ ρ :=
  let next (reader : Reader α) : System π α κ ρ :=
    { system with readers := Function.update system.readers who reader }
  match system.readers who with
  | .waiting => match system.disk.names target with
      | none => next .missing
      | some inode => next (.opened inode (system.disk.data inode))
  | .opened inode seen => next (.reading inode (system.disk.data inode).length [] seen)
  | .reading inode size got seen =>
      if got.length < size then
        let items := ((system.disk.data inode).drop got.length).take (min (count + 1) (size - got.length))
        if items.isEmpty then next (.finished got seen) else next (.reading inode size (got ++ items) seen)
      else next (.finished got seen)
  | _ => system

def System.step (system : System π α κ ρ) : Event κ ρ → System π α κ ρ
  | .write who count => system.writeStep blank target temp content who count
  | .fail who => system.failStep temp who
  | .read who count => system.readStep target who count
  | .create => { system with
      disk := (system.disk.truncate target).1
      versions := [] :: system.versions }
  | .remove => { system with disk := system.disk.unlink target }

-- a temporary name is opened only while no other writer uses it, the target is created only where there is none
def System.Alone (system : System π α κ ρ) : Event κ ρ → Prop
  | .write who _ => system.writers who = .waiting →
      ∀ other, (system.writers other).active = true → temp other ≠ temp who
  | .create => system.disk.names target = none
  | _ => True

def Writer.Sound (disk : Disk π α) (path : π) (content : List α) : Writer → Prop
  | .writing inode offset => disk.names path = some inode ∧ offset ≤ content.length ∧
      disk.data inode = content.take offset
  | .closed => ∃ inode, disk.names path = some inode ∧ disk.data inode = content
  | _ => True

def Held (disk : Disk π α) (target : π) (versions : List (List α)) (inode : Nat) (seen : List α) : Prop :=
  inode < disk.fresh ∧ disk.data inode = seen ∧ (∀ path, disk.names path = some inode → path = target) ∧
    seen ∈ versions

def Reader.Sound (disk : Disk π α) (target : π) (versions : List (List α)) : Reader α → Prop
  | .opened inode seen => Held disk target versions inode seen
  | .reading inode size got seen => Held disk target versions inode seen ∧ size = seen.length ∧
      got = seen.take got.length
  | .finished got seen => got = seen ∧ seen ∈ versions
  | _ => True

structure System.Sound (system : System π α κ ρ) : Prop where
  proper : system.disk.Proper
  latest : ∀ inode, system.disk.names target = some inode →
    system.versions.head? = some (system.disk.data inode)
  apart : ∀ who other, (system.writers who).active = true → (system.writers other).active = true →
    temp who = temp other → who = other
  writers : ∀ who, (system.writers who).Sound system.disk (temp who) (content who)
  readers : ∀ who, (system.readers who).Sound system.disk target system.versions

end

omit [DecidableEq π] [DecidableEq κ] [DecidableEq ρ] in
theorem Writer.Sound.spared {before after : Disk π α} {path : π} {content : List α}
    (spares : Spares before after path) {writer : Writer} (sound : writer.Sound before path content) :
    writer.Sound after path content := by
  cases writer with
  | waiting => trivial
  | done renamed => trivial
  | writing inode offset =>
      obtain ⟨named, inside, data⟩ := sound
      obtain ⟨stays, same⟩ := spares inode named
      exact ⟨stays, inside, same.trans data⟩
  | closed =>
      obtain ⟨inode, named, data⟩ := sound
      obtain ⟨stays, same⟩ := spares inode named
      exact ⟨inode, stays, same.trans data⟩

omit [DecidableEq π] [DecidableEq κ] [DecidableEq ρ] in
theorem Held.kept {before after : Disk π α} {target : π} (keeps : Keeps before after target)
    {versions later : List (List α)} (more : ∀ version ∈ versions, version ∈ later) {inode : Nat}
    {seen : List α} (held : Held before target versions inode seen) :
    Held after target later inode seen := by
  obtain ⟨old, data, alone, known⟩ := held
  obtain ⟨stays, same, still⟩ := keeps inode old alone
  exact ⟨stays, same.trans data, still, more seen known⟩

omit [DecidableEq π] [DecidableEq κ] [DecidableEq ρ] in
theorem Reader.Sound.kept {before after : Disk π α} {target : π} (keeps : Keeps before after target)
    {versions later : List (List α)} (more : ∀ version ∈ versions, version ∈ later) {reader : Reader α}
    (sound : reader.Sound before target versions) : reader.Sound after target later := by
  cases reader with
  | waiting => trivial
  | missing => trivial
  | opened inode seen => exact Held.kept keeps more sound
  | reading inode size got seen => exact ⟨Held.kept keeps more sound.1, sound.2⟩
  | finished got seen => exact ⟨sound.1, more seen sound.2⟩

section

variable {blank : α} {target : π} {temp : κ → π} {content : κ → List α} {system : System π α κ ρ}

omit [DecidableEq π] [DecidableEq ρ] in
theorem System.Sound.writer (sound : system.Sound target temp content) {who : κ} {disk : Disk π α}
    {versions : List (List α)} {writer : Writer} (proper : disk.Proper)
    (latest : ∀ inode, disk.names target = some inode → versions.head? = some (disk.data inode))
    (more : ∀ version ∈ system.versions, version ∈ versions)
    (spares : ∀ other, other ≠ who → (system.writers other).active = true →
      Spares system.disk disk (temp other))
    (keeps : Keeps system.disk disk target) (own : writer.Sound disk (temp who) (content who))
    (alone : writer.active = true → ∀ other, other ≠ who → (system.writers other).active = true →
      temp other ≠ temp who) :
    System.Sound target temp content
      ⟨disk, Function.update system.writers who writer, system.readers, versions⟩ := by
  refine ⟨proper, latest, ?_, ?_, fun reader => (sound.readers reader).kept keeps more⟩
  · intro first second one two same
    dsimp only at one two
    by_cases left : first = who
    · by_cases right : second = who
      · rw [left, right]
      · rw [left, Function.update_self] at one
        rw [Function.update_of_ne right] at two
        exact absurd (same.symm.trans (congrArg temp left)) (alone one second right two)
    · rw [Function.update_of_ne left] at one
      by_cases right : second = who
      · rw [right, Function.update_self] at two
        exact absurd (same.trans (congrArg temp right)) (alone two first left one)
      · rw [Function.update_of_ne right] at two
        exact sound.apart first second one two same
  · intro other
    dsimp only
    by_cases same : other = who
    · subst same
      rw [Function.update_self]
      exact own
    · rw [Function.update_of_ne same]
      have before := sound.writers other
      cases state : system.writers other with
      | waiting => trivial
      | done renamed => trivial
      | writing inode offset =>
          rw [state] at before
          exact before.spared (spares other same (by rw [state]; rfl))
      | closed =>
          rw [state] at before
          exact before.spared (spares other same (by rw [state]; rfl))

omit [DecidableEq π] [DecidableEq κ] [DecidableEq ρ] in
theorem System.Sound.target_kept (sound : system.Sound target temp content) {disk : Disk π α}
    (names : disk.names target = system.disk.names target) (spares : Spares system.disk disk target)
    (inode : Nat) (named : disk.names target = some inode) :
    system.versions.head? = some (disk.data inode) := by
  rw [names] at named
  rw [(spares inode named).2]
  exact sound.latest inode named

omit [DecidableEq π] [DecidableEq κ] [DecidableEq ρ] in
theorem System.Sound.others (sound : system.Sound target temp content) {who : κ}
    (active : (system.writers who).active = true) {other : κ} (different : other ≠ who)
    (also : (system.writers other).active = true) : temp other ≠ temp who :=
  fun same => different (sound.apart other who also active same)

omit [DecidableEq ρ] in
theorem System.Sound.writeStep (sound : system.Sound target temp content)
    (off : ∀ who, temp who ≠ target) {who : κ} {count : Nat}
    (alone : system.Alone target temp (.write who count)) :
    (system.writeStep blank target temp content who count).Sound target temp content := by
  unfold System.writeStep
  have own := sound.writers who
  cases state : system.writers who with
  | done renamed => exact sound
  | waiting =>
      have others := alone state
      refine sound.writer (sound.proper.truncate (temp who)) ?_ (fun _ => id) ?_ ?_ ?_ ?_
      · exact sound.target_kept (system.disk.truncate_names (off who).symm)
          (sound.proper.truncate_spares (off who).symm)
      · intro other _ active
        exact sound.proper.truncate_spares (others other active)
      · exact Disk.truncate_keeps fun same => absurd same (off who)
      · obtain ⟨named, empty⟩ := system.disk.truncate_opened (temp who)
        exact ⟨named, Nat.zero_le _, empty⟩
      · intro _ other _ active
        exact others other active
  | writing inode offset =>
      rw [state] at own
      obtain ⟨named, inside, data⟩ := own
      have active : (system.writers who).active = true := by rw [state]; rfl
      dsimp only
      split
      · have position : offset = (system.disk.data inode).length := by
          rw [data, List.length_take]
          omega
        refine sound.writer (sound.proper.write blank inode offset _) ?_ (fun _ => id) ?_ ?_ ?_ ?_
        · exact sound.target_kept rfl (sound.proper.write_spares named (off who).symm blank offset _)
        · intro other different also
          exact sound.proper.write_spares named (sound.others active different also) blank offset _
        · exact Disk.write_keeps named (off who) blank offset _
        · refine ⟨named, ?_, ?_⟩
          · rw [List.length_take, List.length_drop]
            omega
          · have written : overwrite blank (system.disk.data inode) offset
                (((content who).drop offset).take (count + 1)) =
                  (content who).take offset ++ ((content who).drop offset).take (count + 1) := by
              rw [position, overwrite_end, ← position, data]
            exact (Function.update_self inode _ _).trans (written.trans (take_part _ offset (count + 1)))
        · intro _ other different also
          exact sound.others active different also
      · refine sound.writer sound.proper sound.latest (fun _ => id) (fun _ _ _ _ named => ⟨named, rfl⟩)
          (fun _ old alone => ⟨old, rfl, alone⟩) ?_ fun _ other different also =>
            sound.others active different also
        refine ⟨inode, named, ?_⟩
        rw [data, List.take_of_length_le (by omega)]
  | closed =>
      rw [state] at own
      obtain ⟨inode, named, data⟩ := own
      have active : (system.writers who).active = true := by rw [state]; rfl
      dsimp only
      rw [Disk.rename_eq named (off who)]
      refine sound.writer (sound.proper.renamed named) ?_ (fun _ => List.mem_cons_of_mem _) ?_
        (renamed_keeps inode) trivial (fun same => nomatch same)
      · intro found renamed
        rcases (renamed_names renamed).2 with ⟨_, rfl⟩ | ⟨other, _⟩
        · dsimp only
          rw [data, List.head?_cons]
        · exact absurd rfl other
      · intro other different also
        exact renamed_spares (sound.others active different also) (off other)

omit [DecidableEq ρ] in
theorem System.Sound.failStep (sound : system.Sound target temp content)
    (off : ∀ who, temp who ≠ target) (who : κ) :
    (system.failStep temp who).Sound target temp content := by
  unfold System.failStep
  cases state : system.writers who with
  | waiting => exact sound
  | closed => exact sound
  | done renamed => exact sound
  | writing inode offset =>
      have active : (system.writers who).active = true := by rw [state]; rfl
      refine sound.writer (sound.proper.unlink (temp who)) ?_ (fun _ => id) ?_
        (system.disk.unlink_keeps (temp who) target) trivial (fun same => nomatch same)
      · exact sound.target_kept (Function.update_of_ne (off who).symm _ _)
          (system.disk.unlink_spares (off who).symm)
      · intro other different also
        exact system.disk.unlink_spares (sound.others active different also)

omit [DecidableEq π] [DecidableEq κ] in
theorem System.Sound.reader (sound : system.Sound target temp content) {who : ρ} {reader : Reader α}
    (own : reader.Sound system.disk target system.versions) :
    System.Sound target temp content { system with readers := Function.update system.readers who reader } := by
  refine ⟨sound.proper, sound.latest, sound.apart, sound.writers, ?_⟩
  intro other
  dsimp only
  by_cases same : other = who
  · subst same
    rw [Function.update_self]
    exact own
  · rw [Function.update_of_ne same]
    exact sound.readers other

omit [DecidableEq π] [DecidableEq κ] in
theorem System.Sound.readStep (sound : system.Sound target temp content) (who : ρ) (count : Nat) :
    (system.readStep target who count).Sound target temp content := by
  unfold System.readStep
  have own := sound.readers who
  cases state : system.readers who with
  | missing => exact sound
  | finished got seen => exact sound
  | waiting =>
      dsimp only
      cases named : system.disk.names target with
      | none => exact sound.reader trivial
      | some inode =>
          refine sound.reader ⟨sound.proper.named target inode named, rfl, ?_, List.mem_of_mem_head? (sound.latest inode named)⟩
          exact fun path other => sound.proper.single path target inode other named
  | opened inode seen =>
      rw [state] at own
      exact sound.reader ⟨own, congrArg List.length own.2.1, rfl⟩
  | reading inode size got seen =>
      rw [state] at own
      obtain ⟨held, length, front⟩ := own
      have data : system.disk.data inode = seen := held.2.1
      dsimp only
      split
      · rename_i less
        rw [data]
        have some_ : 0 < ((seen.drop got.length).take (min (count + 1) (size - got.length))).length := by
          rw [List.length_take, List.length_drop]
          omega
        rw [if_neg (by rw [List.isEmpty_iff_length_eq_zero]; omega)]
        refine sound.reader ⟨held, length, ?_⟩
        have longer := take_part seen got.length (min (count + 1) (size - got.length))
        rw [← front] at longer
        rw [List.length_append]
        exact longer
      · refine sound.reader ⟨?_, held.2.2.2⟩
        rw [front, List.take_of_length_le (by omega)]

omit [DecidableEq π] [DecidableEq κ] [DecidableEq ρ] in
theorem System.Sound.moved (sound : system.Sound target temp content) {disk : Disk π α}
    {versions : List (List α)} (proper : disk.Proper)
    (latest : ∀ inode, disk.names target = some inode → versions.head? = some (disk.data inode))
    (more : ∀ version ∈ system.versions, version ∈ versions)
    (spares : ∀ who, Spares system.disk disk (temp who)) (keeps : Keeps system.disk disk target) :
    System.Sound target temp content ⟨disk, system.writers, system.readers, versions⟩ :=
  ⟨proper, latest, sound.apart, fun who => (sound.writers who).spared (spares who),
    fun who => (sound.readers who).kept keeps more⟩

theorem System.Sound.step (sound : system.Sound target temp content) (off : ∀ who, temp who ≠ target)
    {event : Event κ ρ} (alone : system.Alone target temp event) :
    (system.step blank target temp content event).Sound target temp content := by
  cases event with
  | write who count => exact sound.writeStep off alone
  | fail who => exact sound.failStep off who
  | read who count => exact sound.readStep who count
  | create =>
      obtain ⟨named, empty⟩ := system.disk.truncate_opened target
      refine sound.moved (sound.proper.truncate target) ?_ (fun _ => List.mem_cons_of_mem _)
        (fun who => sound.proper.truncate_spares (off who)) (Disk.truncate_keeps fun _ => alone)
      intro inode found
      obtain rfl := Option.some.inj (named.symm.trans found)
      rw [empty, List.head?_cons]
  | remove =>
      refine sound.moved (sound.proper.unlink target) ?_ (fun _ => id)
        (fun who => system.disk.unlink_spares (off who)) (system.disk.unlink_keeps target target)
      intro inode found
      exact nomatch (system.disk.unlink_gone target).symm.trans found

end

variable (blank : α) (target : π) (temp : κ → π) (content : κ → List α)

def System.start (disk : Disk π α) : System π α κ ρ where
  disk := disk
  writers := fun _ => .waiting
  readers := fun _ => .waiting
  versions := match disk.names target with
    | none => []
    | some inode => [disk.data inode]

omit [DecidableEq π] [DecidableEq κ] [DecidableEq ρ] in
theorem System.start_sound {disk : Disk π α} (proper : disk.Proper) :
    (System.start target disk : System π α κ ρ).Sound target temp content := by
  refine ⟨proper, ?_, fun _ _ active => (nomatch active), fun _ => trivial, fun _ => trivial⟩
  intro inode named
  have only : (System.start target disk : System π α κ ρ).versions = [disk.data inode] := by
    have here : disk.names target = some inode := named
    simp only [System.start, here]
  rw [only, List.head?_cons]
  rfl

theorem System.Sound.run {system : System π α κ ρ} (sound : system.Sound target temp content)
    (off : ∀ who, temp who ≠ target) {events : List (Event κ ρ)}
    (alone : Runs.Guarded (System.step blank target temp content) (System.Alone target temp) system events) :
    (Runs.run (System.step blank target temp content) system events).Sound target temp content := by
  induction events generalizing system with
  | nil => exact sound
  | cons event events ih =>
      obtain ⟨now, later⟩ := alone
      exact ih (sound.step off now) later

/-- While no two writers share a temporary name, a reader gets all of what the target held when it was
opened, and that was written whole. -/
theorem System.reader_whole {disk : Disk π α} (proper : disk.Proper) (off : ∀ who, temp who ≠ target)
    {events : List (Event κ ρ)}
    (alone : Runs.Guarded (System.step blank target temp content) (System.Alone target temp)
      (System.start target disk) events) {who : ρ} {got seen : List α}
    (finished : (Runs.run (System.step blank target temp content)
      (System.start target disk) events).readers who = .finished got seen) :
    got = seen ∧ seen ∈ (Runs.run (System.step blank target temp content)
      (System.start target disk : System π α κ ρ) events).versions := by
  have sound := (System.start_sound target temp content proper).run blank target temp content off alone
  have own := sound.readers who
  rwa [finished] at own

theorem System.target_latest {disk : Disk π α} (proper : disk.Proper) (off : ∀ who, temp who ≠ target)
    {events : List (Event κ ρ)}
    (alone : Runs.Guarded (System.step blank target temp content) (System.Alone target temp)
      (System.start target disk) events) {inode : Nat}
    (named : (Runs.run (System.step blank target temp content)
      (System.start target disk : System π α κ ρ) events).disk.names target = some inode) :
    (Runs.run (System.step blank target temp content)
        (System.start target disk : System π α κ ρ) events).versions.head? =
      some ((Runs.run (System.step blank target temp content)
        (System.start target disk : System π α κ ρ) events).disk.data inode) :=
  ((System.start_sound target temp content proper).run blank target temp content off alone).latest
    inode named

section

variable {blank : α} {target : π} {temp : κ → π} {content : κ → List α}

def System.Replaced (system : System π α κ ρ) (who : κ) : Prop := system.writers who = .done true

def System.Known (initial : List (List α)) (content : κ → List α) (system : System π α κ ρ) : Prop :=
  ∀ version ∈ system.versions,
    version ∈ initial ∨ version = [] ∨ ∃ who, system.Replaced who ∧ version = content who

omit [DecidableEq π] [DecidableEq ρ] in
theorem System.Known.move {initial : List (List α)} {system : System π α κ ρ}
    (known : system.Known initial content) {who : κ} (moving : ¬system.Replaced who) (disk : Disk π α)
    (writer : Writer) :
    System.Known initial content
      { system with disk := disk, writers := Function.update system.writers who writer } := by
  intro version member
  rcases known version member with old | empty | ⟨other, replaced, written⟩
  · exact Or.inl old
  · exact Or.inr (Or.inl empty)
  · have different : other ≠ who := by
      rintro rfl
      exact moving replaced
    exact Or.inr (Or.inr ⟨other, (Function.update_of_ne different _ _).trans replaced, written⟩)

omit [DecidableEq ρ] in
theorem System.Known.writeStep {initial : List (List α)} {system : System π α κ ρ}
    (known : system.Known initial content) (who : κ) (count : Nat) :
    (system.writeStep blank target temp content who count).Known initial content := by
  unfold System.writeStep
  cases state : system.writers who with
  | done renamed => exact known
  | waiting => exact known.move (by rw [Replaced, state]; exact nofun) _ _
  | writing inode offset =>
      have moving : ¬system.Replaced who := by rw [Replaced, state]; exact nofun
      dsimp only
      split
      · exact known.move moving _ _
      · exact known.move moving _ _
  | closed =>
      have moving : ¬system.Replaced who := by rw [Replaced, state]; exact nofun
      dsimp only
      split
      · exact known.move moving _ _
      · rename_i disk _
        intro version member
        rcases List.mem_cons.mp member with rfl | old
        · exact Or.inr (Or.inr ⟨who, Function.update_self .., rfl⟩)
        · exact known.move moving disk (.done true) version old

omit [DecidableEq ρ] in
theorem System.Known.failStep {initial : List (List α)} {system : System π α κ ρ}
    (known : system.Known initial content) (who : κ) :
    (system.failStep temp who).Known initial content := by
  unfold System.failStep
  cases state : system.writers who with
  | writing inode offset => exact known.move (by rw [Replaced, state]; exact nofun) _ _
  | _ => exact known

omit [DecidableEq π] [DecidableEq κ] in
theorem System.Known.readStep {initial : List (List α)} {system : System π α κ ρ}
    (known : system.Known initial content) (who : ρ) (count : Nat) :
    (system.readStep target who count).Known initial content := by
  unfold System.readStep
  cases system.readers who with
  | waiting =>
      dsimp only
      split <;> exact known
  | reading inode size got seen =>
      dsimp only
      split
      · split <;> exact known
      · exact known
  | _ => exact known

theorem System.Known.step {initial : List (List α)} {system : System π α κ ρ}
    (known : system.Known initial content) (event : Event κ ρ) :
    (system.step blank target temp content event).Known initial content := by
  cases event with
  | write who count => exact known.writeStep who count
  | fail who => exact known.failStep who
  | read who count => exact known.readStep who count
  | remove => exact known
  | create =>
      intro version member
      rcases List.mem_cons.mp member with rfl | old
      · exact Or.inr (Or.inl rfl)
      · exact known version old

theorem System.Known.run {initial : List (List α)} {system : System π α κ ρ}
    (known : system.Known initial content) (events : List (Event κ ρ)) :
    (Runs.run (System.step blank target temp content) system events).Known initial content := by
  induction events generalizing system with
  | nil => exact known
  | cons event events ih => exact ih (known.step event)

end

end Inodes
