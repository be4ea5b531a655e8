import SharedFileSystem.Lib.Runs
import SharedFileSystem.Placement
import SharedFileSystem.Protocol

/-!
The names of the clients (`nm/registry.c`): `registry_add` keeps them in the registry, a new one is appended to
a file once the lock is given back, and `registry_init_persistence` reads the file when the name server starts.
-/

namespace SharedFileSystem

open ByteText KeyedList Runs

def clientRole : Bytes := lit "CLIENT"

-- `registry_get_clients`, without its limit
def clientNames (parties : List RegisteredParty) : List Bytes :=
  (parties.filter fun party => party.role = clientRole).map fun party => party.entry.username

-- `char line[128]`
def rosterLine : Nat := 128

def rosterName (line : Bytes) : Bytes :=
  (cstr line).takeWhile fun c => c ≠ carriageReturn ∧ c ≠ newline

def rosterNames (file : Bytes) : List Bytes :=
  ((fgetsFrom rosterLine [] file).map rosterName).filter fun name => name ≠ []

def loadRoster (file : Bytes) : List RegisteredParty :=
  (rosterNames file).foldl (fun parties name => registryAddParty parties clientRole name []) []

structure Roster where
  parties : List RegisteredParty
  -- threads that have added a name and not yet opened the file
  pending : List Bytes
  -- names whose file could not be opened
  unwritten : List Bytes
  file : Bytes
deriving DecidableEq

structure WireName where
  text : Bytes
  field : WireField 64 text

inductive RosterEvent where
  | client (name : WireName) (payload : Bytes)
  | server (name : WireName) (payload : Bytes)
  | append (thread : Nat) (opened : Bool)
  | restart

def Roster.register (roster : Roster) (role name payload : Bytes) : Roster :=
  let known := roster.parties.any fun party => party.key = (role, name)
  { roster with
    parties := registryAddParty roster.parties role name payload
    pending :=
      if known = false ∧ role = clientRole ∧ name ≠ [] then roster.pending ++ [name]
      else roster.pending }

def Roster.append (roster : Roster) (thread : Nat) (opened : Bool) : Roster :=
  match roster.pending[thread]? with
  | none => roster
  | some name =>
      if opened then { roster with
        pending := roster.pending.eraseIdx thread
        file := roster.file ++ name ++ [newline] }
      else { roster with
        pending := roster.pending.eraseIdx thread
        unwritten := roster.unwritten ++ [name] }

def Roster.restart (roster : Roster) : Roster := ⟨loadRoster roster.file, [], [], roster.file⟩

def Roster.step (roster : Roster) : RosterEvent → Roster
  | .client name payload => roster.register clientRole name.text payload
  | .server name payload => roster.register ssRole name.text payload
  | .append thread opened => roster.append thread opened
  | .restart => roster.restart

def Roster.start : Roster := ⟨[], [], [], []⟩

structure Storable (name : Bytes) : Prop where
  short : name.length ≤ 63
  line : Line name
  noReturn : carriageReturn ∉ name

def RosterEvent.Stores : RosterEvent → Prop
  | .client name _ => name.text ≠ [] ∧ carriageReturn ∉ name.text
  | _ => True

def RosterEvent.InOrder : RosterEvent → Prop
  | .append thread opened => thread = 0 ∧ opened = true
  | _ => True

theorem Storable.rosterName {name : Bytes} (storable : Storable name) :
    rosterName (name ++ [newline]) = name := by
  have free : 0 ∉ name ++ [newline] := by
    rw [List.mem_append, not_or]
    exact ⟨storable.line.2.2, by decide⟩
  have plain : ∀ c ∈ name, decide (c ≠ carriageReturn ∧ c ≠ newline) = true := by
    intro c member
    refine decide_eq_true ⟨fun same => storable.noReturn (same ▸ member), ?_⟩
    exact fun same => storable.line.2.1 (same ▸ member)
  rw [SharedFileSystem.rosterName, cstr_of_free free, List.takeWhile_append_of_pos plain]
  simp

theorem rosterNames_unlines {names : List Bytes} (storable : ∀ name ∈ names, Storable name) :
    rosterNames (unlines names) = names := by
  have fit : ∀ name ∈ names, newline ∉ name ∧ name.length + 2 ≤ rosterLine := by
    intro name member
    have short := (storable name member).short
    refine ⟨(storable name member).line.2.1, ?_⟩
    rw [rosterLine]
    omega
  have read : names.map (rosterName ∘ fun name => name ++ [newline]) = names := by
    refine (List.map_congr_left ?_).trans (List.map_id names)
    exact fun name member => (storable name member).rosterName
  rw [rosterNames, fgetsFrom_unlines fit, List.map_map, read, List.filter_eq_self]
  exact fun name member => decide_eq_true (storable name member).line.1

theorem takeWhile_free {p : UInt8 → Bool} {text : Bytes} {c : UInt8} (stops : p c = false) :
    c ∉ text.takeWhile p := by
  intro member
  exact absurd (List.mem_takeWhile_imp member) (by simp [stops])

theorem mem_rosterNames {file name : Bytes} (member : name ∈ rosterNames file) :
    name ≠ [] ∧ carriageReturn ∉ name ∧ newline ∉ name ∧ 0 ∉ name := by
  obtain ⟨inside, filled⟩ := List.mem_filter.mp member
  obtain ⟨line, _, rfl⟩ := List.mem_map.mp inside
  refine ⟨by simpa using filled, takeWhile_free (by decide), takeWhile_free (by decide), ?_⟩
  exact fun zero => cstr_free line ((List.takeWhile_sublist _).subset zero)

theorem clientNames_eq (parties : List RegisteredParty) : clientNames parties =
    ((parties.map RegisteredParty.key).filter fun key => key.1 = clientRole).map Prod.snd := by
  rw [List.filter_map, List.map_map, clientNames]
  rfl

theorem clientNames_known {parties : List RegisteredParty} {role name payload : Bytes}
    (known : (parties.any fun party => party.key = (role, name)) = true) :
    clientNames (registryAddParty parties role name payload) = clientNames parties := by
  have keeps (party : RegisteredParty) : RegisteredParty.key { party with
      entry := { party.entry with payload := payload.take 255 } } = party.key := rfl
  rw [registryAddParty, if_pos known, clientNames_eq, map_modifyKey RegisteredParty.key keeps,
    ← clientNames_eq]

theorem clientNames_client {parties : List RegisteredParty} {name payload : Bytes}
    (short : name.length ≤ 63)
    (unknown : (parties.any fun party => party.key = (clientRole, name)) = false) :
    clientNames (registryAddParty parties clientRole name payload) = name :: clientNames parties := by
  have role : clientRole.take 15 = clientRole := by decide
  rw [registryAddParty, if_neg (by simp [unknown]), clientNames, role, List.take_of_length_le short,
    List.filter_cons_of_pos (by simp)]
  rfl

theorem clientNames_server (parties : List RegisteredParty) (name payload : Bytes) :
    clientNames (registryAddParty parties ssRole name payload) = clientNames parties := by
  cases known : parties.any fun party => party.key = (ssRole, name) with
  | true => exact clientNames_known known
  | false =>
      have other : ¬ssRole.take 15 = clientRole := by decide
      rw [registryAddParty, if_neg (by simp [known]), clientNames, List.filter_cons_of_neg (by simpa using other)]
      rfl

theorem known_iff {parties : List RegisteredParty} {name : Bytes} :
    (parties.any fun party => party.key = (clientRole, name)) = true ↔ name ∈ clientNames parties := by
  simp only [List.any_eq_true, decide_eq_true_eq, clientNames, List.mem_map, List.mem_filter,
    RegisteredParty.key, Prod.mk.injEq]
  constructor
  · rintro ⟨party, member, role, named⟩
    exact ⟨party, ⟨member, role⟩, named⟩
  · rintro ⟨party, ⟨member, role⟩, named⟩
    exact ⟨party, member, role, named⟩

theorem clientNames_load {names : List Bytes} (short : ∀ name ∈ names, name.length ≤ 63)
    {parties : List RegisteredParty} (distinct : names.Nodup)
    (fresh : ∀ name ∈ names, name ∉ clientNames parties) :
    clientNames (names.foldl (fun parties name => registryAddParty parties clientRole name []) parties) =
      names.reverse ++ clientNames parties := by
  induction names generalizing parties with
  | nil => rfl
  | cons name names ih =>
      rw [List.nodup_cons] at distinct
      have unknown := Bool.eq_false_iff.mpr fun known => fresh name (by simp) (known_iff.mp known)
      have added := @clientNames_client parties name [] (short name (by simp)) unknown
      rw [List.foldl_cons, ih (fun other member => short other (by simp [member])) distinct.2 ?_, added,
        List.reverse_cons, List.append_assoc, List.singleton_append]
      intro other member
      rw [added, List.mem_cons, not_or]
      exact ⟨fun same => distinct.1 (same ▸ member), fresh other (by simp [member])⟩

structure Roster.Recorded (roster : Roster) (written : List Bytes) : Prop where
  file : roster.file = unlines written
  storable : ∀ name ∈ written ++ roster.pending, Storable name
  names : (clientNames roster.parties).Perm (written ++ roster.pending ++ roster.unwritten)
  distinct : (clientNames roster.parties).Nodup

theorem Roster.Recorded.loaded {roster : Roster} {written : List Bytes}
    (recorded : roster.Recorded written) : clientNames (loadRoster roster.file) = written.reverse := by
  have storable (name : Bytes) (member : name ∈ written) : Storable name :=
    recorded.storable name (List.mem_append_left _ member)
  have distinct := recorded.names.nodup_iff.mp recorded.distinct
  rw [List.append_assoc] at distinct
  rw [loadRoster, recorded.file, rosterNames_unlines storable,
    clientNames_load (fun name member => (storable name member).short) distinct.of_append_left
      (by simp [clientNames])]
  exact List.append_nil _

theorem Roster.Recorded.restart {roster : Roster} {written : List Bytes}
    (recorded : roster.Recorded written) : roster.restart.Recorded written := by
  have loaded := recorded.loaded
  have distinct := recorded.names.nodup_iff.mp recorded.distinct
  rw [List.append_assoc] at distinct
  refine ⟨recorded.file, ?_, ?_, ?_⟩
  · intro name member
    rw [Roster.restart, List.append_nil] at member
    exact recorded.storable name (List.mem_append_left _ member)
  · rw [Roster.restart, loaded, List.append_nil, List.append_nil]
    exact List.reverse_perm written
  · rw [Roster.restart, loaded]
    exact List.nodup_reverse.mpr distinct.of_append_left

theorem Roster.Recorded.server {roster : Roster} {written : List Bytes}
    (recorded : roster.Recorded written) (name payload : Bytes) :
    (roster.register ssRole name payload).Recorded written := by
  have pending : (roster.register ssRole name payload).pending = roster.pending :=
    if_neg fun both => absurd both.2.1 (by decide)
  refine ⟨recorded.file, ?_, ?_, ?_⟩
  · rw [pending]
    exact recorded.storable
  · rw [pending, Roster.register, clientNames_server]
    exact recorded.names
  · rw [Roster.register, clientNames_server]
    exact recorded.distinct

theorem Roster.Recorded.client {roster : Roster} {written : List Bytes}
    (recorded : roster.Recorded written) {name : Bytes} (storable : Storable name) (payload : Bytes) :
    (roster.register clientRole name payload).Recorded written := by
  cases known : roster.parties.any fun party => party.key = (clientRole, name) with
  | true =>
      have pending : (roster.register clientRole name payload).pending = roster.pending :=
        if_neg fun both => Bool.noConfusion (known.symm.trans both.1)
      refine ⟨recorded.file, ?_, ?_, ?_⟩
      · rw [pending]
        exact recorded.storable
      · rw [pending, Roster.register, clientNames_known known]
        exact recorded.names
      · rw [Roster.register, clientNames_known known]
        exact recorded.distinct
  | false =>
      have pending : (roster.register clientRole name payload).pending = roster.pending ++ [name] :=
        if_pos ⟨known, rfl, storable.line.1⟩
      refine ⟨recorded.file, ?_, ?_, ?_⟩
      · rw [pending]
        intro other member
        rw [← List.append_assoc, List.mem_append, List.mem_singleton] at member
        rcases member with old | rfl
        · exact recorded.storable other old
        · exact storable
      · rw [pending, Roster.register, clientNames_client storable.short known]
        have split : written ++ (roster.pending ++ [name]) ++ roster.unwritten =
            written ++ roster.pending ++ name :: roster.unwritten := by
          simp
        rw [split]
        exact (recorded.names.cons name).trans List.perm_middle.symm
      · rw [Roster.register, clientNames_client storable.short known]
        refine List.nodup_cons.mpr ⟨fun member => ?_, recorded.distinct⟩
        exact Bool.noConfusion (known.symm.trans (known_iff.mpr member))

theorem Roster.append_cases (roster : Roster) (thread : Nat) (opened : Bool) :
    roster.append thread opened = roster ∨
      ∃ front name back, roster.pending = front ++ name :: back ∧ front = roster.pending.take thread ∧
        roster.append thread opened =
          if opened then
            ⟨roster.parties, front ++ back, roster.unwritten, roster.file ++ name ++ [newline]⟩
          else ⟨roster.parties, front ++ back, roster.unwritten ++ [name], roster.file⟩ := by
  unfold Roster.append
  cases found : roster.pending[thread]? with
  | none => exact Or.inl rfl
  | some name =>
      obtain ⟨bound, rfl⟩ := List.getElem?_eq_some_iff.mp found
      refine Or.inr ⟨roster.pending.take thread, roster.pending[thread], roster.pending.drop (thread + 1),
        ?_, rfl, ?_⟩
      · rw [List.getElem_cons_drop, List.take_append_drop]
      · rw [← List.eraseIdx_eq_take_drop_succ]

theorem Roster.Recorded.written {roster : Roster} {written : List Bytes}
    (recorded : roster.Recorded written) {front back : List Bytes} {name : Bytes}
    (pending : roster.pending = front ++ name :: back) :
    Roster.Recorded ⟨roster.parties, front ++ back, roster.unwritten, roster.file ++ name ++ [newline]⟩
      (written ++ [name]) := by
  have storable := recorded.storable
  have names := recorded.names
  rw [pending] at storable names
  refine ⟨?_, ?_, names.trans ?_, recorded.distinct⟩
  · rw [recorded.file, unlines, unlines, List.flatMap_append]
    simp
  · intro other member
    refine storable other ?_
    simp only [List.mem_append, List.mem_cons, List.not_mem_nil] at member ⊢
    tauto
  · rw [List.perm_iff_count]
    intro other
    simp only [List.count_append, List.count_cons, List.count_nil]
    omega

theorem Roster.Recorded.unopened {roster : Roster} {written : List Bytes}
    (recorded : roster.Recorded written) {front back : List Bytes} {name : Bytes}
    (pending : roster.pending = front ++ name :: back) :
    Roster.Recorded ⟨roster.parties, front ++ back, roster.unwritten ++ [name], roster.file⟩ written := by
  have storable := recorded.storable
  have names := recorded.names
  rw [pending] at storable names
  refine ⟨recorded.file, ?_, names.trans ?_, recorded.distinct⟩
  · intro other member
    refine storable other ?_
    simp only [List.mem_append, List.mem_cons] at member ⊢
    tauto
  · rw [List.perm_iff_count]
    intro other
    simp only [List.count_append, List.count_cons, List.count_nil]
    omega

theorem Roster.Recorded.append {roster : Roster} {written : List Bytes}
    (recorded : roster.Recorded written) (thread : Nat) (opened : Bool) :
    ∃ later, (roster.append thread opened).Recorded later := by
  rcases roster.append_cases thread opened with same | ⟨front, name, back, pending, _, after⟩
  · rw [same]
    exact ⟨written, recorded⟩
  · rw [after]
    cases opened with
    | true => exact ⟨_, recorded.written pending⟩
    | false => exact ⟨_, recorded.unopened pending⟩

theorem WireName.storable {name : WireName} (stores : name.text ≠ [] ∧ carriageReturn ∉ name.text) :
    Storable name.text :=
  ⟨Nat.le_of_lt_succ name.field.short, ⟨stores.1, name.field.oneLine, name.field.noNul⟩, stores.2⟩

theorem Roster.Recorded.step {roster : Roster} {written : List Bytes}
    (recorded : roster.Recorded written) {event : RosterEvent} (stores : event.Stores) :
    ∃ later, (roster.step event).Recorded later := by
  cases event with
  | client name payload => exact ⟨written, recorded.client (WireName.storable stores) payload⟩
  | server name payload => exact ⟨written, recorded.server name.text payload⟩
  | append thread opened => exact recorded.append thread opened
  | restart => exact ⟨written, recorded.restart⟩

theorem Roster.Recorded.run {roster : Roster} {written : List Bytes}
    (recorded : roster.Recorded written) {events : List RosterEvent}
    (stores : ∀ event ∈ events, event.Stores) :
    ∃ later, (run Roster.step roster events).Recorded later := by
  induction events generalizing roster written with
  | nil => exact ⟨written, recorded⟩
  | cons event events ih =>
      obtain ⟨later, kept⟩ := recorded.step (stores event (by simp))
      exact ih kept fun other member => stores other (by simp [member])

theorem Roster.start_recorded : Roster.start.Recorded [] :=
  ⟨rfl, by simp [Roster.start], List.Perm.refl _, List.nodup_nil⟩

structure Roster.Ordered (roster : Roster) (written : List Bytes) : Prop extends roster.Recorded written where
  ordered : clientNames roster.parties = (written ++ roster.pending).reverse
  opened : roster.unwritten = []

theorem Roster.Ordered.client {roster : Roster} {written : List Bytes} (ordered : roster.Ordered written)
    {name : Bytes} (storable : Storable name) (payload : Bytes) :
    (roster.register clientRole name payload).Ordered written := by
  refine ⟨ordered.toRecorded.client storable payload, ?_, ordered.opened⟩
  cases known : roster.parties.any fun party => party.key = (clientRole, name) with
  | true =>
      have pending : (roster.register clientRole name payload).pending = roster.pending :=
        if_neg fun both => Bool.noConfusion (known.symm.trans both.1)
      rw [pending, Roster.register, clientNames_known known]
      exact ordered.ordered
  | false =>
      have pending : (roster.register clientRole name payload).pending = roster.pending ++ [name] :=
        if_pos ⟨known, rfl, storable.line.1⟩
      rw [pending, Roster.register, clientNames_client storable.short known, ordered.ordered,
        ← List.append_assoc, List.reverse_concat]

theorem Roster.Ordered.server {roster : Roster} {written : List Bytes} (ordered : roster.Ordered written)
    (name payload : Bytes) : (roster.register ssRole name payload).Ordered written := by
  refine ⟨ordered.toRecorded.server name payload, ?_, ordered.opened⟩
  have pending : (roster.register ssRole name payload).pending = roster.pending :=
    if_neg fun both => absurd both.2.1 (by decide)
  rw [pending, Roster.register, clientNames_server]
  exact ordered.ordered

theorem Roster.Ordered.restart {roster : Roster} {written : List Bytes} (ordered : roster.Ordered written) :
    roster.restart.Ordered written := by
  refine ⟨ordered.toRecorded.restart, ?_, rfl⟩
  rw [Roster.restart, ordered.toRecorded.loaded, List.append_nil]

theorem Roster.Ordered.append {roster : Roster} {written : List Bytes} (ordered : roster.Ordered written) :
    ∃ later, (roster.append 0 true).Ordered later := by
  rcases roster.append_cases 0 true with same | ⟨front, name, back, pending, first, after⟩
  · rw [same]
    exact ⟨written, ordered⟩
  · obtain rfl : front = [] := first
    rw [after]
    refine ⟨written ++ [name], ordered.toRecorded.written pending, ?_, ordered.opened⟩
    rw [if_pos rfl, ordered.ordered, pending, List.append_assoc]
    rfl

theorem Roster.Ordered.step {roster : Roster} {written : List Bytes} (ordered : roster.Ordered written)
    {event : RosterEvent} (stores : event.Stores) (inOrder : event.InOrder) :
    ∃ later, (roster.step event).Ordered later := by
  cases event with
  | client name payload => exact ⟨written, ordered.client (WireName.storable stores) payload⟩
  | server name payload => exact ⟨written, ordered.server name.text payload⟩
  | append thread opened =>
      obtain ⟨rfl, rfl⟩ := inOrder
      exact ordered.append
  | restart => exact ⟨written, ordered.restart⟩

theorem Roster.Ordered.run {roster : Roster} {written : List Bytes} (ordered : roster.Ordered written)
    {events : List RosterEvent} (stores : ∀ event ∈ events, event.Stores)
    (inOrder : ∀ event ∈ events, event.InOrder) :
    ∃ later, (run Roster.step roster events).Ordered later := by
  induction events generalizing roster written with
  | nil => exact ⟨written, ordered⟩
  | cons event events ih =>
      obtain ⟨later, kept⟩ := ordered.step (stores event (by simp)) (inOrder event (by simp))
      exact ih kept (fun other member => stores other (by simp [member]))
        fun other member => inOrder other (by simp [member])

theorem Roster.start_ordered : Roster.start.Ordered [] := ⟨Roster.start_recorded, rfl, rfl⟩

def Roster.clients (roster : Roster) : List Bytes := clientNames roster.parties

theorem mem_clientNames_add {parties : List RegisteredParty} {name payload other : Bytes}
    (member : other ∈ clientNames (registryAddParty parties clientRole name payload)) :
    other = name.take 63 ∨ other ∈ clientNames parties := by
  cases known : parties.any fun party => party.key = (clientRole, name) with
  | true =>
      rw [clientNames_known known] at member
      exact Or.inr member
  | false =>
      have role : clientRole.take 15 = clientRole := by decide
      rw [registryAddParty, if_neg (by simp [known]), clientNames, role,
        List.filter_cons_of_pos (by simp)] at member
      exact List.mem_cons.mp member

theorem mem_clientNames_load {names : List Bytes} {parties : List RegisteredParty} {other : Bytes}
    (member : other ∈ clientNames
      (names.foldl (fun parties name => registryAddParty parties clientRole name []) parties)) :
    (∃ name ∈ names, other = name.take 63) ∨ other ∈ clientNames parties := by
  induction names generalizing parties with
  | nil => exact Or.inr member
  | cons name names ih =>
      rcases ih member with ⟨later, listed, same⟩ | added
      · exact Or.inl ⟨later, List.mem_cons_of_mem _ listed, same⟩
      · rcases mem_clientNames_add added with same | old
        · exact Or.inl ⟨name, List.mem_cons_self, same⟩
        · exact Or.inr old

theorem clients_restart {roster : Roster} {name : Bytes} (member : name ∈ roster.restart.clients) :
    name ≠ [] ∧ carriageReturn ∉ name := by
  rw [Roster.clients, Roster.restart, loadRoster] at member
  rcases mem_clientNames_load member with ⟨line, listed, rfl⟩ | none_
  · obtain ⟨filled, noReturn, _⟩ := mem_rosterNames listed
    refine ⟨?_, fun inside => noReturn (List.mem_of_mem_take inside)⟩
    obtain ⟨c, rest, rfl⟩ := List.exists_cons_of_ne_nil filled
    exact List.cons_ne_nil _ _
  · exact absurd none_ (by simp [clientNames])

/-- A restart loses the names that no line can hold. In a run without them every client is listed once, a
restart loses just the names that are not in the file, and it keeps the order if each name was written before
the next one came. -/
theorem restart_keeps_written_clients (events : List RosterEvent) :
    let roster := run Roster.step Roster.start events
    (∀ name ∈ roster.restart.clients, name ≠ [] ∧ carriageReturn ∉ name) ∧
      ((∀ event ∈ events, event.Stores) →
        roster.clients.Nodup ∧
          roster.clients.Perm (roster.restart.clients ++ roster.pending ++ roster.unwritten) ∧
          ((∀ event ∈ events, event.InOrder) →
            roster.restart.clients = roster.clients.drop roster.pending.length)) := by
  intro roster
  refine ⟨fun name member => clients_restart member, ?_⟩
  intro stores
  obtain ⟨written, recorded⟩ := Roster.start_recorded.run stores
  have loaded : roster.restart.clients = written.reverse := recorded.loaded
  refine ⟨recorded.distinct, ?_, ?_⟩
  · rw [loaded, List.append_assoc]
    refine recorded.names.trans ?_
    rw [List.append_assoc]
    exact (List.reverse_perm written).symm.append_right _
  · intro inOrder
    obtain ⟨later, ordered⟩ := Roster.start_ordered.run stores inOrder
    have front : roster.restart.clients = later.reverse := ordered.toRecorded.loaded
    have listed : roster.clients = (later ++ roster.pending).reverse := ordered.ordered
    rw [front, listed, List.reverse_append, List.drop_left']
    exact List.length_reverse

def wireName (text : String) (field : WireField 64 (lit text) := by decide) : WireName := ⟨lit text, field⟩

def rosterEvents : List RosterEvent :=
  [.client (wireName "ann") [], .append 0 true, .server (wireName "ss1") [], .client (wireName "bob") []]

theorem restart_keeps_written_clients_ann :
    (run Roster.step Roster.start rosterEvents).clients = [lit "bob", lit "ann"] ∧
      (run Roster.step Roster.start rosterEvents).restart.clients = [lit "ann"] := by
  have stores : ∀ event ∈ rosterEvents, event.Stores := by
    simp only [rosterEvents, List.forall_mem_cons, RosterEvent.Stores, wireName]
    exact ⟨by decide, trivial, trivial, by decide, by simp⟩
  have inOrder : ∀ event ∈ rosterEvents, event.InOrder := by
    simp [rosterEvents, RosterEvent.InOrder]
  have kept := ((restart_keeps_written_clients rosterEvents).2 stores).2.2 inOrder
  have listed : (run Roster.step Roster.start rosterEvents).clients = [lit "bob", lit "ann"] := by
    decide +kernel
  refine ⟨listed, kept.trans ?_⟩
  rw [listed]
  decide +kernel

end SharedFileSystem
