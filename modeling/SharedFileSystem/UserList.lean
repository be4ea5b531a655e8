import SharedFileSystem.ClientRoster
import SharedFileSystem.ListedFiles
import SharedFileSystem.ReplySteps

/-!
LIST, from the registrations of the clients over restarts of the name server to what a client prints.
-/

namespace SharedFileSystem

open ByteText KeyedList Runs Cursor

-- `char output[4096]`
def listSize : Nat := 4096

-- `char clients[100][64]`
def maxListed : Nat := 100

def registryGetClients (parties : List RegisteredParty) : List Bytes := (clientNames parties).take maxListed

def userLine (name : Bytes) : Bytes := lit "--> " ++ name

-- a row has at most 68 bytes, so that the last one fits
def listPrinted (names : List Bytes) : Output UInt8 :=
  Output.empty.printWhile (fun pos => pos < listSize - 100) (names.map fun name => userLine name ++ [newline])

def listText (parties : List RegisteredParty) : Bytes :=
  (listPrinted (registryGetClients parties)).text.take (listSize - 1)

def Roster.serving (roster : Roster) (world : World) : World := { world with listText := listText roster.parties }

def ShowsUser (printed name : Bytes) : Prop := userLine name ∈ tokens isNewline printed

/-- What is in the registry, in the file and on the way to it came from clients with names for a line. -/
def Roster.Lined (roster : Roster) : Prop :=
  (∃ written, roster.Recorded written) ∧ ∀ name ∈ roster.unwritten, Storable name

theorem Roster.step_unwritten {roster : Roster} {event : RosterEvent} {name : Bytes}
    (member : name ∈ (roster.step event).unwritten) : name ∈ roster.unwritten ∨ name ∈ roster.pending := by
  cases event with
  | client other payload => exact Or.inl member
  | server other payload => exact Or.inl member
  | append thread opened =>
      rcases roster.append_cases thread opened with same | ⟨front, other, back, pending, _, after⟩
      · rw [Roster.step, same] at member
        exact Or.inl member
      · rw [Roster.step, after] at member
        cases opened with
        | true => exact Or.inl member
        | false =>
            rcases List.mem_append.mp member with old | fresh
            · exact Or.inl old
            · rw [List.mem_singleton.mp fresh, pending]
              exact Or.inr (List.mem_append_right _ List.mem_cons_self)
  | restart => exact absurd member List.not_mem_nil

theorem Roster.Lined.step {roster : Roster} (lined : roster.Lined) {event : RosterEvent} (stores : event.Stores) :
    (roster.step event).Lined := by
  obtain ⟨⟨written, recorded⟩, unwritten⟩ := lined
  refine ⟨recorded.step stores, fun name member => ?_⟩
  rcases Roster.step_unwritten member with old | waiting
  · exact unwritten name old
  · exact recorded.storable name (List.mem_append_right _ waiting)

theorem Roster.Lined.run {events : List RosterEvent} (stores : ∀ event ∈ events, event.Stores) :
    (run Roster.step .start events).Lined := by
  induction events using List.reverseRecOn with
  | nil => exact ⟨⟨[], Roster.start_recorded⟩, by simp [Runs.run, Roster.start]⟩
  | append_singleton events event ih =>
      rw [run_append]
      exact (ih fun other member => stores other (by simp [member])).step (stores event (by simp))

theorem Roster.Lined.names {roster : Roster} (lined : roster.Lined) :
    (clientNames roster.parties).Nodup ∧ ∀ name ∈ clientNames roster.parties, Storable name := by
  obtain ⟨⟨written, recorded⟩, unwritten⟩ := lined
  refine ⟨recorded.distinct, fun name member => ?_⟩
  rcases List.mem_append.mp (recorded.names.mem_iff.mp member) with kept | lost
  · exact recorded.storable name kept
  · exact unwritten name lost

theorem Storable.userLine {name : Bytes} (storable : Storable name) (plain : soh ∉ name) :
    Line (userLine name) ∧ soh ∉ userLine name := by
  obtain ⟨_, oneLine, noNul⟩ := storable.line
  have first : newline ∉ lit "--> " := by decide
  have second : 0 ∉ lit "--> " := by decide
  have third : soh ∉ lit "--> " := by decide
  refine ⟨⟨by simp [SharedFileSystem.userLine, lit], ?_, ?_⟩, ?_⟩
  · exact fun member => (List.mem_append.mp member).elim first oneLine
  · exact fun member => (List.mem_append.mp member).elim second noNul
  · exact fun member => (List.mem_append.mp member).elim third plain

theorem userLine_mem {name : Bytes} {names : List Bytes} :
    userLine name ∈ names.map userLine ↔ name ∈ names :=
  List.mem_map_of_injective (List.append_right_injective _)

theorem listPrinted_text (names : List Bytes) : ∃ count, 1792 ≤ count ∧
    (listPrinted names).text.take (listSize - 1) = (unlines (names.map userLine)).take count := by
  have rows : (names.map fun name => userLine name ++ [newline]).flatten = unlines (names.map userLine) := by
    rw [unlines, List.flatMap_map, List.flatMap_def]
  obtain ⟨front, whole⟩ := Output.printWhile_text (fun pos => pos < listSize - 100) Output.empty
    (names.map fun name => userLine name ++ [newline])
  rw [rows] at front whole
  have size : listSize = 4096 := rfl
  rcases whole with all | full
  · exact ⟨listSize - 1, by omega, congrArg (List.take (listSize - 1)) all⟩
  · refine ⟨min (listSize - 1) (listPrinted names).text.length, ?_, ?_⟩
    · have reached := of_decide_eq_false full
      rw [listPrinted]
      omega
    · rw [← List.take_take]
      exact congrArg (List.take (listSize - 1)) (List.prefix_iff_eq_take.mp front)

theorem unlines_userLine (names : List Bytes) :
    (unlines (names.map userLine)).length = (names.map fun name => name.length + 5).sum := by
  have arrow : (lit "--> ").length = 4 := rfl
  induction names with
  | nil => rfl
  | cons name names ih =>
      rw [List.map_cons, unlines_cons, List.length_append, List.length_cons, ih, List.map_cons, List.sum_cons,
        userLine, List.length_append, arrow]
      omega

theorem listed_filled {parties : List RegisteredParty} (filled : clientNames parties ≠ []) :
    (registryGetClients parties).map userLine ≠ [] := by
  rw [Ne, List.map_eq_nil_iff, registryGetClients, List.take_eq_nil_iff, not_or]
  exact ⟨by decide, filled⟩

section

variable {parties : List RegisteredParty} (storable : ∀ name ∈ clientNames parties, Storable name)
  (plain : ∀ name ∈ clientNames parties, soh ∉ name) {username : Bytes} (user : WireField 64 username)
include storable plain user

theorem list_printed (filled : clientNames parties ≠ []) : ∃ count, 1792 ≤ count ∧
    printReply (sendDataResponse [] username (listText parties)) =
      arriving 1790 ((unlines ((registryGetClients parties).map userLine)).take count) ++ [newline] := by
  obtain ⟨count, enough, text⟩ := listPrinted_text (registryGetClients parties)
  refine ⟨count, enough, ?_⟩
  rw [listText, text]
  refine printReply_lines (listed_filled filled) ?_ (by omega) user
  rw [List.forall_mem_map]
  intro name member
  have inside := List.mem_of_mem_take member
  exact (storable name inside).userLine (plain name inside)

omit user in
theorem list_lines : ∀ line ∈ (registryGetClients parties).map userLine, Line line := by
  rw [List.forall_mem_map]
  intro name member
  have inside := List.mem_of_mem_take member
  exact ((storable name inside).userLine (plain name inside)).1

theorem list_fits (fits : ((registryGetClients parties).map fun name => name.length + 5).sum ≤ 1792)
    (name : Bytes) :
    ShowsUser (printReply (sendDataResponse [] username (listText parties))) name ↔
      name ∈ registryGetClients parties := by
  by_cases none : clientNames parties = []
  · have empty : listText parties = [] := by
      rw [listText, registryGetClients, none]
      rfl
    rw [empty, printReply_data user, registryGetClients, none, ShowsUser]
    exact iff_of_false List.not_mem_nil List.not_mem_nil
  · obtain ⟨count, enough, printed⟩ := list_printed storable plain user none
    have size := unlines_userLine (registryGetClients parties)
    rw [printed, List.take_of_length_le (by omega), ShowsUser,
      arriving_fits (list_lines storable plain) (listed_filled none) (by omega), userLine_mem]

theorem list_cut (distinct : (clientNames parties).Nodup)
    (large : 1792 < ((registryGetClients parties).map fun name => name.length + 5).sum) :
    ∃ name ∈ clientNames parties,
      ¬ShowsUser (printReply (sendDataResponse [] username (listText parties))) name := by
  have filled : clientNames parties ≠ [] := by
    intro none
    rw [registryGetClients, none] at large
    exact absurd large (by decide)
  obtain ⟨count, enough, printed⟩ := list_printed storable plain user filled
  have size := unlines_userLine (registryGetClients parties)
  have lines : ((registryGetClients parties).map userLine).Nodup :=
    (distinct.sublist (List.take_sublist _ _)).map (List.append_right_injective _)
  obtain ⟨line, member, missing⟩ := arriving_cut (list_lines storable plain) lines
    (by omega : 1790 + 2 ≤ count) (by omega)
  obtain ⟨name, inside, rfl⟩ := List.mem_map.mp member
  refine ⟨name, List.mem_of_mem_take inside, ?_⟩
  rw [printed]
  exact missing

omit plain in
/-- The names that are listed: a hundred at most, with no byte that ends a line on the screen, and short enough
for one payload together. -/
theorem list_shows_iff (distinct : (clientNames parties).Nodup) :
    (∀ name, ShowsUser (printReply (sendDataResponse [] username (listText parties))) name ↔
        name ∈ clientNames parties) ↔
      (clientNames parties).length ≤ maxListed ∧ (∀ name ∈ clientNames parties, soh ∉ name) ∧
        ((clientNames parties).map fun name => name.length + 5).sum ≤ 1792 := by
  constructor
  · intro shows
    have plain : ∀ name ∈ clientNames parties, soh ∉ name := by
      intro name member
      have shown := (shows name).mpr member
      rw [printReply_data user] at shown
      obtain ⟨_, inside⟩ := tokens_mem isNewline _ _ shown
      exact fun here => printPayload_noSoh _ (inside soh (List.mem_append_right _ here)).2
    have fits : ((registryGetClients parties).map fun name => name.length + 5).sum ≤ 1792 := by
      by_contra large
      obtain ⟨name, member, missing⟩ := list_cut storable plain user distinct (not_le.mp large)
      exact missing ((shows name).mpr member)
    have listed : clientNames parties ⊆ registryGetClients parties := fun name member =>
      (list_fits storable plain user fits name).mp ((shows name).mpr member)
    have few : (clientNames parties).length ≤ maxListed :=
      (distinct.subperm listed).length_le.trans (List.length_take_le ..)
    rw [registryGetClients, List.take_of_length_le few] at fits
    exact ⟨few, plain, fits⟩
  · rintro ⟨few, plain, fits⟩ name
    have all : registryGetClients parties = clientNames parties := List.take_of_length_le few
    rw [list_fits storable plain user (by rwa [all]), all]

end

/-- In every run of registrations, writes of the client file and restarts, if every name can be stored in a line,
LIST prints the registered clients and nobody else exactly if they are a hundred at most, none has the byte that
the client prints as a line end, and their rows fit one payload. -/
theorem list_shows_registered_iff (events : List RosterEvent) (stores : ∀ event ∈ events, event.Stores)
    (world : World) {username : Bytes} (user : WireField 64 username) :
    let roster := run Roster.step .start events
    (∀ name, ShowsUser (printReply ((roster.serving world).handleList username)) name ↔
        name ∈ clientNames roster.parties) ↔
      (clientNames roster.parties).length ≤ maxListed ∧ (∀ name ∈ clientNames roster.parties, soh ∉ name) ∧
        ((clientNames roster.parties).map fun name => name.length + 5).sum ≤ 1792 := by
  intro roster
  obtain ⟨distinct, storable⟩ := (Roster.Lined.run stores).names
  exact list_shows_iff storable user distinct

theorem list_shows_registered_iff_bob :
    ShowsUser (printReply (((run Roster.step .start rosterEvents).serving emptyWorld).handleList (lit "ann")))
        (lit "bob") ∧
      ¬ShowsUser (printReply (((run Roster.step .start rosterEvents).serving emptyWorld).handleList (lit "ann")))
        (lit "eve") := by
  have stores : ∀ event ∈ rosterEvents, event.Stores := by
    simp only [rosterEvents, List.forall_mem_cons, RosterEvent.Stores, wireName]
    exact ⟨by decide, trivial, trivial, by decide, by simp⟩
  have clients : clientNames (run Roster.step .start rosterEvents).parties = [lit "bob", lit "ann"] := by
    decide +kernel
  have user : WireField 64 (lit "ann") := by decide
  have shows := (list_shows_registered_iff rosterEvents stores emptyWorld user).mpr (by rw [clients]; decide)
  exact ⟨(shows _).mpr (by rw [clients]; decide), mt (shows _).mp (by rw [clients]; decide)⟩

end SharedFileSystem
