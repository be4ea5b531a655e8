import SharedFileSystem.Lib.Runs
import SharedFileSystem.ReplyShapes

/-!
A client and the name server on one connection. The client writes a command and reads until
`send_command_and_receive` returns; `client_thread` takes line after line and writes what the
handlers send. Each side goes on whenever it can, so that bytes may be under way at any time.
-/

namespace SharedFileSystem

open ByteText

inductive LoopAction where
  | skip
  | exit
  | send (command : ParsedCommand)
deriving DecidableEq, Repr

def commandLoop (line : CommandLine) : LoopAction :=
  let command := parseCommand line.text
  if command.cmd = [] then .skip
  else if command.cmd = lit "EXIT" then .exit
  else if command.cmd = lit "HELP" then .skip
  else if command.valid then .send command
  else .skip

-- the line that `recv_line` returns, once there is one, and the bytes behind it
def nextLine (stream : Bytes) : Option (Bytes × Bytes) :=
  let line := recvLine stream maxLine
  if line.getLast? = some newline ∨ line.length = maxLine - 1 then
    some (line, stream.drop line.length)
  else none

def lineMessage (unset : Message) (text : Bytes) : Option Message :=
  match protoParseLine text with
  | .message msg => some msg
  | .unset => some unset
  | .invalid => none

def readsOn (streaming : Bool) (taken : List Bytes) : Option Message → Bool
  | none => false
  | some msg =>
      if taken = [] then streaming && msg.type = lit "DATA"
      else msg.type ≠ lit "STOP" && msg.type ≠ lit "ERROR"

inductive ClientPhase where
  | prompt
  | waiting (request : Message) (streaming : Bool) (taken : List Bytes)
  | exited
deriving DecidableEq, Repr

structure Exchange where
  request : Message
  lines : List Bytes
deriving DecidableEq, Repr

structure ClientLink where
  phase : ClientPhase
  up : Bytes
  down : Bytes
  queue : List Bytes
  handled : List Exchange
  finished : List Exchange
deriving DecidableEq, Repr

inductive LinkEvent where
  | type (line : CommandLine) (now : Int)
  | handle (world : World) (unset : Message)
  | put
  | read (unset : Message)

namespace ClientLink

def ask (link : ClientLink) (request : Message) (streaming : Bool) : ClientLink :=
  if (protoFormatLine request maxLine).2 then
    { link with
      up := link.up ++ (protoFormatLine request maxLine).1
      phase := .waiting request streaming [] }
  else link

def handleLine (link : ClientLink) (world : World) (unset : Message) : ClientLink :=
  match link.queue, nextLine link.up with
  | [], some (text, rest) => match lineMessage unset text with
    | none => { link with up := rest }
    | some msg =>
        { link with
          up := rest
          queue := handleMessage world msg
          handled := link.handled ++ [⟨msg, handleMessage world msg⟩] }
  | _, _ => link

def putLine (link : ClientLink) : ClientLink :=
  match link.queue with
  | [] => link
  | line :: rest => { link with queue := rest, down := link.down ++ line }

def readLine (link : ClientLink) (unset : Message) : ClientLink :=
  match link.phase, nextLine link.down with
  | .waiting request streaming taken, some (text, rest) =>
      if readsOn streaming taken (lineMessage unset text) then
        { link with phase := .waiting request streaming (taken ++ [text]), down := rest }
      else
        { link with
          phase := .prompt
          down := rest
          finished := link.finished ++ [⟨request, taken ++ [text]⟩] }
  | _, _ => link

def step (username : Bytes) (link : ClientLink) : LinkEvent → ClientLink
  | .type line now =>
      if link.phase = .prompt then
        match commandLoop line with
        | .skip => link
        | .exit => { link with phase := .exited }
        | .send command =>
            link.ask (formatCommandMessage command username now) (streams command.cmd)
      else link
  | .handle world unset => link.handleLine world unset
  | .put => link.putLine
  | .read unset => link.readLine unset

def idle : ClientLink := ⟨.prompt, [], [], [], [], []⟩

end ClientLink

-- `g_username`
def clientName (username : Bytes) : Bytes := (cstr username).take 63

def registerMessage (username : Bytes) : Message :=
  ⟨lit "CLIENT_REGISTER", lit "1", clientName username, lit "CLIENT", []⟩

-- `main` registers first and waits for one line
def registering (username : Bytes) : ClientLink :=
  ClientLink.idle.ask (registerMessage username) false

def clientSession (username : Bytes) (events : List LinkEvent) : ClientLink :=
  Runs.run (ClientLink.step (clientName username)) (registering username) events

def LinkEvent.Admitted : LinkEvent → Prop
  | .type line _ => line.NoPipe
  | .handle world _ => world.Honest
  | .put => True
  | .read _ => True

def LinkEvent.Answers : LinkEvent → Prop
  | .type _ _ => False
  | .handle world _ => world.Honest
  | .put => True
  | .read _ => True

structure Exchange.Matches (handled finished : Exchange) : Prop where
  request : handled.request = finished.request
  lines : handled.lines = finished.lines
  shape : Sends (replyShape finished.request.type) finished.lines

namespace ClientLink

structure Quiet (link : ClientLink) : Prop where
  up : link.up = []
  down : link.down = []
  queue : link.queue = []
  answered : link.handled.length = link.finished.length

structure Stuck (link : ClientLink) : Prop where
  waits : ∃ request streaming taken, link.phase = .waiting request streaming taken
  unread : nextLine link.down = none
  unsent : link.queue = []
  unhandled : nextLine link.up = none

inductive Returns (username : Bytes) : ClientLink → Prop where
  | back {link : ClientLink}
      (done : ∀ request streaming taken, link.phase ≠ .waiting request streaming taken) :
      Returns username link
  | later {link : ClientLink}
      (someStep : ∃ event : LinkEvent, event.Answers ∧ link.step username event ≠ link)
      (everyStep : ∀ event : LinkEvent, event.Answers → link.step username event ≠ link →
        Returns username (link.step username event)) : Returns username link

structure InStep (link : ClientLink) : Prop where
  same : List.Forall₂ Exchange.Matches (link.handled.take link.finished.length) link.finished
  quiet : link.phase = .prompt → link.Quiet
  answered : ¬link.Stuck

end ClientLink

theorem nextLine_nil : nextLine [] = none := by
  have line : recvLine [] maxLine = [] := by simp [recvLine]
  rw [nextLine, line]
  exact if_neg (by decide)

theorem nextLine_line {msg : Message} (proper : msg.WellFormed) (rest : Bytes) :
    nextLine (msg.line ++ rest) = some (msg.line, rest) := by
  have body := msg.line_body
  have short := proper.line_length
  rw [body, List.length_append, List.length_singleton] at short
  have line : recvLine (msg.line ++ rest) maxLine = msg.line := by
    rw [body, List.append_assoc, List.singleton_append]
    exact recvLine_line (proper.body_free (Or.inl rfl)) rest short
  have ending : msg.line.getLast? = some newline := by
    rw [body]
    exact List.getLast?_concat
  rw [nextLine, line, if_pos (Or.inl ending), List.drop_left]

theorem lineMessage_line {msg : Message} (proper : msg.WellFormed) (unset : Message) :
    lineMessage unset msg.line = some msg := by
  rw [lineMessage, protoParseLine_line proper proper.line_length]

theorem readsOn_run {before rest : List Message} {msg : Message}
    (shape : ReplyRun (before ++ msg :: rest)) {taken : List Bytes} :
    readsOn true taken (some msg) = true ↔ rest ≠ [] := by
  obtain ⟨data, last, whole, types, ends⟩ := shape
  rcases List.eq_nil_or_concat rest with rfl | ⟨front, final, rfl⟩
  · obtain ⟨_, same⟩ := List.append_inj' whole rfl
    obtain rfl := List.singleton_inj.mp same
    have stops : readsOn true taken (some msg) = false := by
      rw [readsOn]
      split
      · rcases ends with stop | error
        · rw [stop]
          decide
        · rw [error]
          decide
      · rcases ends with stop | error
        · rw [stop]
          decide
        · rw [error]
          decide
    simp [stops]
  · rw [List.concat_eq_append, ← List.cons_append, ← List.append_assoc] at whole
    obtain ⟨same, _⟩ := List.append_inj' whole rfl
    have type : msg.type = lit "DATA" := types msg (by simp [← same])
    have goesOn : readsOn true taken (some msg) = true := by
      rw [readsOn]
      split
      · rw [type]
        decide
      · rw [type]
        decide
    simp [goesOn]

theorem readsOn_one {before rest : List Message} {msg : Message}
    (shape : OneReply (before ++ msg :: rest)) {taken : List Bytes}
    (read : taken = before.map Message.line) :
    readsOn false taken (some msg) = true ↔ rest ≠ [] := by
  obtain ⟨only, whole⟩ := shape
  obtain ⟨rfl, same⟩ : before = [] ∧ msg :: rest = [only] := by
    cases before with
    | nil => exact ⟨rfl, whole⟩
    | cons first before => simp at whole
  obtain ⟨rfl, rfl⟩ := List.cons.inj same
  rw [read, List.map_nil, readsOn, if_pos rfl]
  simp

theorem readsOn_iff {type : Bytes} {before rest : List Message} {msg : Message}
    (shape : replyShape type (before ++ msg :: rest)) {taken : List Bytes}
    (read : taken = before.map Message.line) :
    readsOn (streams type) taken (some msg) = true ↔ rest ≠ [] := by
  rw [replyShape] at shape
  cases streaming : streams type with
  | true =>
      rw [streaming] at shape
      exact readsOn_run shape
  | false =>
      rw [streaming] at shape
      exact readsOn_one shape read

theorem replyShape_nonempty {type : Bytes} {messages : List Message}
    (shape : replyShape type messages) : messages ≠ [] := by
  rw [replyShape] at shape
  split at shape
  · obtain ⟨data, last, rfl, _⟩ := shape
    simp
  · obtain ⟨msg, rfl⟩ := shape
    simp

namespace ClientLink

structure Asked (link : ClientLink) (request : Message) : Prop where
  proper : request.WellFormed
  tagged : takesTag request.type → pipe ∈ request.payload
  up : link.up = request.line
  down : link.down = []
  queue : link.queue = []
  answered : link.handled.length = link.finished.length

structure Answering (link : ClientLink) (request : Message) (taken : List Bytes)
    (before moved left : List Message) : Prop where
  up : link.up = []
  proper : ∀ msg ∈ before ++ (moved ++ left), msg.WellFormed
  shape : replyShape request.type (before ++ (moved ++ left))
  more : moved ++ left ≠ []
  taken : taken = before.map Message.line
  down : link.down = moved.flatMap Message.line
  queue : link.queue = left.map Message.line
  handled : ∃ earlier, earlier.length = link.finished.length ∧
    link.handled = earlier ++ [⟨request, (before ++ (moved ++ left)).map Message.line⟩]

inductive Current (link : ClientLink) : ClientPhase → Prop where
  | prompt (quiet : link.Quiet) : Current link .prompt
  | exited (quiet : link.Quiet) : Current link .exited
  | asked {request : Message} (asked : link.Asked request) :
      Current link (.waiting request (streams request.type) [])
  | answering {request : Message} {taken : List Bytes} {before moved left : List Message}
      (answering : link.Answering request taken before moved left) :
      Current link (.waiting request (streams request.type) taken)

structure Kept (link : ClientLink) : Prop where
  same : List.Forall₂ Exchange.Matches (link.handled.take link.finished.length) link.finished
  current : link.Current link.phase

theorem Kept.inStep {link : ClientLink} (kept : link.Kept) : link.InStep where
  same := kept.same
  quiet := by
    intro prompt
    have current := kept.current
    rw [prompt] at current
    cases current with
    | prompt quiet => exact quiet
  answered := by
    rintro ⟨⟨request, streaming, taken, waits⟩, unread, unsent, unhandled⟩
    have current := kept.current
    rw [waits] at current
    cases current with
    | asked asked =>
        have line := nextLine_line asked.proper []
        rw [List.append_nil, ← asked.up, unhandled] at line
        simp at line
    | @answering _ _ before moved left answering =>
        cases moved with
        | nil =>
            have empty : left = [] := by simpa [unsent] using answering.queue
            exact answering.more (by simp [empty])
        | cons msg moved =>
            have line := nextLine_line (answering.proper msg (by simp))
              (moved.flatMap Message.line)
            rw [← List.flatMap_cons, ← answering.down, unread] at line
            simp at line

theorem ask_kept {link : ClientLink} (kept : link.Kept) (prompt : link.phase = .prompt)
    {request : Message} (proper : request.WellFormed)
    (tagged : takesTag request.type → pipe ∈ request.payload) :
    (link.ask request (streams request.type)).Kept := by
  have quiet := kept.inStep.quiet prompt
  unfold ask
  rw [proper.protoFormatLine_eq]
  refine ⟨kept.same, .asked ⟨proper, tagged, ?_, quiet.down, quiet.queue, quiet.answered⟩⟩
  show link.up ++ request.line = request.line
  rw [quiet.up, List.nil_append]

theorem handleLine_still {link : ClientLink} (nothing : link.up = []) (world : World)
    (unset : Message) : link.handleLine world unset = link := by
  unfold handleLine
  rw [nothing, nextLine_nil]
  split
  · rename_i impossible
    simp at impossible
  · rfl

theorem handleLine_asked {link : ClientLink} {request : Message} (asked : link.Asked request)
    (world : World) (unset : Message) :
    link.handleLine world unset =
      { link with
        up := []
        queue := handleMessage world request
        handled := link.handled ++ [⟨request, handleMessage world request⟩] } := by
  have line := nextLine_line asked.proper []
  rw [List.append_nil] at line
  unfold handleLine
  rw [asked.queue, asked.up, line]
  dsimp only
  rw [lineMessage_line asked.proper]

theorem handleLine_kept {link : ClientLink} (kept : link.Kept) {world : World}
    (honest : world.Honest) (unset : Message) : (link.handleLine world unset).Kept := by
  have current := kept.current
  generalize phase : link.phase = now at current
  cases current with
  | prompt quiet =>
      rw [handleLine_still quiet.up]
      exact kept
  | exited quiet =>
      rw [handleLine_still quiet.up]
      exact kept
  | answering answering =>
      rw [handleLine_still answering.up]
      exact kept
  | @asked request asked =>
      obtain ⟨messages, proper, shape, sent⟩ :=
        (handleMessage_sends honest asked.proper asked.tagged).messages
      rw [handleLine_asked asked, sent]
      constructor
      · show List.Forall₂ _ ((link.handled ++ [_]).take link.finished.length) link.finished
        rw [List.take_append_of_le_length (by rw [asked.answered])]
        exact kept.same
      · show Current _ link.phase
        rw [phase]
        refine @Current.answering _ _ _ [] [] messages ?_
        exact ⟨rfl, proper, shape, replyShape_nonempty shape, rfl, asked.down, rfl, link.handled,
          asked.answered, rfl⟩

theorem putLine_still {link : ClientLink} (nothing : link.queue = []) : link.putLine = link := by
  unfold putLine
  rw [nothing]

theorem putLine_kept {link : ClientLink} (kept : link.Kept) : link.putLine.Kept := by
  have current := kept.current
  generalize phase : link.phase = now at current
  cases current with
  | prompt quiet =>
      rw [putLine_still quiet.queue]
      exact kept
  | exited quiet =>
      rw [putLine_still quiet.queue]
      exact kept
  | asked asked =>
      rw [putLine_still asked.queue]
      exact kept
  | @answering request taken before moved left answering =>
      have queue := answering.queue
      cases left with
      | nil =>
          rw [putLine_still queue]
          exact kept
      | cons msg left =>
          have put : link.putLine = { link with
              queue := left.map Message.line
              down := link.down ++ msg.line } := by
            unfold putLine
            rw [queue]
            rfl
          have whole : (moved ++ [msg]) ++ left = moved ++ msg :: left := by simp
          rw [put]
          refine ⟨kept.same, ?_⟩
          show Current _ link.phase
          rw [phase]
          refine @Current.answering _ _ _ before (moved ++ [msg]) left ?_
          constructor
          · exact answering.up
          · rw [whole]
            exact answering.proper
          · rw [whole]
            exact answering.shape
          · simp
          · exact answering.taken
          · rw [List.flatMap_append, List.flatMap_singleton, answering.down]
          · rfl
          · rw [whole]
            exact answering.handled

theorem readLine_still {link : ClientLink} (nothing : link.down = []) (unset : Message) :
    link.readLine unset = link := by
  unfold readLine
  rw [nothing, nextLine_nil]
  split
  · rename_i impossible
    simp at impossible
  · rfl

theorem forall₂_finish {handled finished : List Exchange} {earlier : List Exchange}
    {last done : Exchange} (same : List.Forall₂ Exchange.Matches
      (handled.take finished.length) finished) (count : earlier.length = finished.length)
    (whole : handled = earlier ++ [last]) (matching : last.Matches done) :
    List.Forall₂ Exchange.Matches (handled.take (finished ++ [done]).length)
      (finished ++ [done]) := by
  have front : handled.take finished.length = earlier := by
    rw [whole, ← count, List.take_left]
  have all : handled.take (finished ++ [done]).length = earlier ++ [last] := by
    rw [whole]
    refine List.take_of_length_le ?_
    simp [count]
  rw [front] at same
  rw [all]
  exact List.rel_append same (.cons matching .nil)

theorem readLine_kept {link : ClientLink} (kept : link.Kept) (unset : Message) :
    (link.readLine unset).Kept := by
  have current := kept.current
  generalize phase : link.phase = now at current
  cases current with
  | prompt quiet =>
      rw [readLine_still quiet.down]
      exact kept
  | exited quiet =>
      rw [readLine_still quiet.down]
      exact kept
  | asked asked =>
      rw [readLine_still asked.down]
      exact kept
  | @answering request taken before moved left answering =>
      have down := answering.down
      cases moved with
      | nil =>
          rw [readLine_still down]
          exact kept
      | cons msg moved =>
          have proper := answering.proper msg (by simp)
          have line : nextLine link.down = some (msg.line, moved.flatMap Message.line) := by
            rw [down, List.flatMap_cons, nextLine_line proper]
          have shape := answering.shape
          rw [List.cons_append] at shape
          have goesOn := readsOn_iff shape answering.taken
          have whole : (before ++ [msg]) ++ (moved ++ left) = before ++ (msg :: moved ++ left) := by
            simp
          have taken : taken ++ [msg.line] = (before ++ [msg]).map Message.line := by
            rw [answering.taken, List.map_append, List.map_singleton]
          unfold readLine
          rw [phase, line]
          dsimp only
          rw [lineMessage_line proper]
          split
          · rename_i reads
            refine ⟨kept.same, @Current.answering _ _ _ (before ++ [msg]) moved left ?_⟩
            constructor
            · exact answering.up
            · rw [whole]
              exact answering.proper
            · rw [whole]
              exact answering.shape
            · exact goesOn.mp reads
            · exact taken
            · rfl
            · exact answering.queue
            · rw [whole]
              exact answering.handled
          · rename_i ends
            obtain ⟨rfl, rfl⟩ : moved = [] ∧ left = [] := by
              simpa using mt goesOn.mpr ends
            obtain ⟨earlier, count, handled⟩ := answering.handled
            refine ⟨forall₂_finish kept.same count handled ?_, .prompt ?_⟩
            · refine ⟨rfl, ?_, ?_⟩
              · rw [taken]
                simp
              · exact ⟨before ++ [msg], answering.proper, answering.shape, taken⟩
            · refine ⟨answering.up, rfl, answering.queue, ?_⟩
              rw [handled]
              simp [count]

end ClientLink

theorem commandLoop_send {line : CommandLine} {command : ParsedCommand}
    (sends : commandLoop line = .send command) :
    command = parseCommand line.text ∧ command.valid = true := by
  unfold commandLoop at sends
  dsimp only at sends
  split at sends
  · simp at sends
  · split at sends
    · simp at sends
    · split at sends
      · simp at sends
      · split at sends
        · rename_i valid
          obtain rfl := LoopAction.send.inj sends
          exact ⟨rfl, valid⟩
        · simp at sends

theorem streams_messageType (cmd : Bytes) : streams (messageType cmd) = streams cmd := by
  rcases messageType_cases cmd with same | ⟨full, word⟩
  · rw [same]
  · have plain : ∀ type ∈ [lit "REQUESTACCESS", lit "VIEWACCESSREQUESTS",
        lit "APPROVEACCESSREQUEST", lit "DISAPPROVEACCESSREQUEST"], streams type = false := by
      decide
    have short : ∀ type ∈ [lit "RACC", lit "VIEWACCR", lit "APPROVEACCR", lit "DISACCR"],
        streams type = false := by
      decide
    rw [plain _ full, short _ word]

theorem takesTag_messageType {cmd : Bytes} (tags : takesTag (messageType cmd) = true) :
    cmd = lit "CHECKPOINT" ∨ cmd = lit "VIEWCHECKPOINT" ∨ cmd = lit "REVERT" := by
  rcases messageType_cases cmd with same | ⟨full, _⟩
  · rw [same, takesTag] at tags
    simpa [or_assoc] using tags
  · have plain : ∀ type ∈ [lit "REQUESTACCESS", lit "VIEWACCESSREQUESTS",
        lit "APPROVEACCESSREQUEST", lit "DISAPPROVEACCESSREQUEST"], takesTag type = false := by
      decide
    rw [plain _ full] at tags
    simp at tags

theorem pipe_mem_bothArgs {args : List Bytes} (proper : ∀ arg ∈ args, WireField 256 arg)
    (two : 2 ≤ args.length) : pipe ∈ bothArgs args := by
  match args, two with
  | first :: second :: _, _ =>
      have short := (proper first (by simp)).short
      obtain ⟨room, enough⟩ : ∃ room, 1023 - first.length = room + 1 :=
        ⟨1022 - first.length, by omega⟩
      rw [bothArgs, List.take_append, enough, List.take_succ_cons]
      simp

theorem commandPayload_tagged {command : ParsedCommand} (proper : command.Proper)
    (valid : command.valid = true) (tags : takesTag (messageType command.cmd) = true) :
    pipe ∈ commandPayload command := by
  rw [ParsedCommand.valid, Bool.and_eq_true, decide_eq_true_eq] at valid
  have cmd := takesTag_messageType tags
  have two : 2 ≤ command.args.length := by
    have needed : neededArgs command.cmd = 2 := by
      rcases cmd with cmd | cmd | cmd <;> rw [cmd] <;> decide
    omega
  have payload : commandPayload command = bothArgs command.args := by
    rcases cmd with cmd | cmd | cmd <;> rw [commandPayload, cmd] <;> rfl
  rw [payload]
  exact pipe_mem_bothArgs proper.args two

theorem clientName_wireField {username : Bytes} (noPipe : pipe ∉ username)
    (oneLine : newline ∉ username) : WireField 64 (clientName username) := by
  have inside : ∀ c ∈ clientName username, c ∈ username := by
    intro c member
    exact (List.takeWhile_sublist _).subset (List.mem_of_mem_take member)
  exact ⟨Nat.lt_succ_of_le (List.length_take_le 63 _), fun member => noPipe (inside pipe member),
    fun member => oneLine (inside newline member),
    fun member => cstr_free username (List.mem_of_mem_take member)⟩

theorem LinkEvent.Answers.admitted {event : LinkEvent} (answers : event.Answers) :
    event.Admitted := by
  cases event with
  | type line now => exact answers.elim
  | handle world unset => exact answers
  | put => trivial
  | read unset => trivial

def emptyWorld : World where
  index := []
  folders := []
  registry := []
  requests := []
  nextRequestId := 1
  leastLoaded := none
  activeServer := fun entry => entry.location
  fetchAcl := fun _ => none
  fetchContent := fun _ => none
  loadedOwner := fun _ => none
  ask := fun _ _ => .unreachable
  relay := fun _ _ => .unreachable
  execute := fun _ => .error .fork
  stillIndexed := true
  viewText := fun _ _ => []
  listText := []
  folderText := fun _ => []
  requestsText := fun _ _ => []
  infoTimes := fun _ => ⟨[], [], []⟩
  unsetText := []
  unsetMessage := ⟨[], [], [], [], []⟩

theorem emptyWorld_honest : emptyWorld.Honest where
  host := by simp [emptyWorld]
  activeHost := by simp [emptyWorld]
  requester := by simp [emptyWorld]
  requestName := by simp [emptyWorld]
  requestFolder := by simp [emptyWorld]
  answers := by simp [emptyWorld]
  relays := by simp [emptyWorld]

theorem nextLine_shorter {stream text rest : Bytes} (next : nextLine stream = some (text, rest)) :
    rest.length < stream.length := by
  unfold nextLine at next
  dsimp only at next
  split at next
  · rename_i complete
    obtain ⟨rfl, rfl⟩ := Prod.mk.inj (Option.some.inj next)
    have nonempty : 0 < (recvLine stream maxLine).length := by
      rcases complete with ending | full
      · exact List.length_pos_of_ne_nil fun empty => by simp [empty] at ending
      · rw [full]
        decide
    have room : 0 < stream.length := by
      cases stream with
      | nil => simp [recvLine] at nonempty
      | cons c stream => simp
    rw [List.length_drop]
    omega
  · simp at next

namespace ClientLink

def outstanding (link : ClientLink) : Nat :=
  link.down.length + (link.queue.map fun line => line.length + 1).sum

structure Fewer (later earlier : ClientLink) : Prop where
  order : later.up.length < earlier.up.length ∨
    (later.up = earlier.up ∧ later.outstanding < earlier.outstanding)

theorem Fewer.ne {later earlier : ClientLink} (fewer : Fewer later earlier) : later ≠ earlier := by
  rintro rfl
  rcases fewer.order with shorter | ⟨_, fewer⟩
  · exact Nat.lt_irrefl _ shorter
  · exact Nat.lt_irrefl _ fewer

theorem handleLine_fewer {link : ClientLink} (sent : link.queue = []) {text rest : Bytes}
    (next : nextLine link.up = some (text, rest)) (world : World) (unset : Message) :
    Fewer (link.handleLine world unset) link := by
  have shorter := nextLine_shorter next
  unfold handleLine
  rw [sent, next]
  dsimp only
  split
  · exact ⟨Or.inl shorter⟩
  · exact ⟨Or.inl shorter⟩

theorem putLine_fewer {link : ClientLink} {line : Bytes} {rest : List Bytes}
    (queue : link.queue = line :: rest) : Fewer link.putLine link := by
  unfold putLine
  rw [queue]
  refine ⟨Or.inr ⟨rfl, ?_⟩⟩
  simp only [outstanding, queue, List.length_append, List.map_cons, List.sum_cons]
  omega

theorem readLine_fewer {link : ClientLink} {request : Message} {streaming : Bool}
    {taken : List Bytes} (waits : link.phase = .waiting request streaming taken)
    {text rest : Bytes} (next : nextLine link.down = some (text, rest)) (unset : Message) :
    Fewer (link.readLine unset) link := by
  have shorter := nextLine_shorter next
  unfold readLine
  rw [waits, next]
  dsimp only
  split
  · refine ⟨Or.inr ⟨rfl, ?_⟩⟩
    simp only [outstanding]
    omega
  · refine ⟨Or.inr ⟨rfl, ?_⟩⟩
    simp only [outstanding]
    omega

theorem step_fewer {username : Bytes} {link : ClientLink} {event : LinkEvent}
    (answers : event.Answers) (moves : link.step username event ≠ link) :
    Fewer (link.step username event) link := by
  cases event with
  | type line now => exact answers.elim
  | handle world unset =>
      cases sent : link.queue with
      | nil =>
          cases next : nextLine link.up with
          | none => exact absurd (by simp [step, handleLine, sent, next]) moves
          | some line => exact handleLine_fewer sent next world unset
      | cons line rest => exact absurd (by simp [step, handleLine, sent]) moves
  | put =>
      cases queue : link.queue with
      | nil => exact absurd (putLine_still queue) moves
      | cons line rest => exact putLine_fewer queue
  | read unset =>
      cases waits : link.phase with
      | prompt => exact absurd (by simp [step, readLine, waits]) moves
      | exited => exact absurd (by simp [step, readLine, waits]) moves
      | waiting request streaming taken =>
          cases next : nextLine link.down with
          | none => exact absurd (by simp [step, readLine, waits, next]) moves
          | some line => exact readLine_fewer waits next unset

theorem Kept.moves {link : ClientLink} (kept : link.Kept) {request : Message} {streaming : Bool}
    {taken : List Bytes} (waits : link.phase = .waiting request streaming taken)
    (username : Bytes) : ∃ event : LinkEvent, event.Answers ∧ link.step username event ≠ link := by
  cases unread : nextLine link.down with
  | some line =>
      exact ⟨.read (registerMessage username), trivial,
        (readLine_fewer waits unread _).ne⟩
  | none =>
      cases unsent : link.queue with
      | cons line rest => exact ⟨.put, trivial, (putLine_fewer unsent).ne⟩
      | nil =>
          cases unhandled : nextLine link.up with
          | some line =>
              exact ⟨.handle emptyWorld (registerMessage username), emptyWorld_honest,
                (handleLine_fewer unsent unhandled _ _).ne⟩
          | none =>
              have waiting : ∃ request streaming taken,
                  link.phase = .waiting request streaming taken := ⟨request, streaming, taken, waits⟩
              exact absurd ⟨waiting, unread, unsent, unhandled⟩ kept.inStep.answered

variable {username : Bytes} (user : WireField 64 username)

include user

theorem step_kept {link : ClientLink} (kept : link.Kept) {event : LinkEvent}
    (admitted : event.Admitted) : (link.step username event).Kept := by
  cases event with
  | type line now =>
      rw [step]
      split
      · rename_i prompt
        split
        · exact kept
        · have quiet := kept.inStep.quiet prompt
          exact ⟨kept.same, .exited ⟨quiet.up, quiet.down, quiet.queue, quiet.answered⟩⟩
        · rename_i command sends
          obtain ⟨rfl, valid⟩ := commandLoop_send sends
          have proper := parseCommand_proper admitted
          have type := formatCommandMessage_type proper username now
          rw [← streams_messageType, ← type]
          refine ask_kept kept prompt (formatCommandMessage_wellFormed proper user now) ?_
          intro tags
          rw [type] at tags
          exact commandPayload_tagged proper valid tags
      · exact kept
  | handle world unset => exact handleLine_kept kept admitted unset
  | put => exact putLine_kept kept
  | read unset => exact readLine_kept kept unset

theorem Kept.returns {link : ClientLink} (kept : link.Kept) : link.Returns username := by
  cases waits : link.phase with
  | prompt => exact .back (by simp [waits])
  | exited => exact .back (by simp [waits])
  | waiting request streaming taken =>
      refine .later (kept.moves waits username) fun event answers moves => ?_
      have fewer := (step_fewer answers moves).order
      exact Kept.returns (step_kept user kept answers.admitted)
termination_by (link.up.length, link.outstanding)
decreasing_by
  rcases fewer with shorter | ⟨same, fewer⟩
  · exact Prod.Lex.left _ _ shorter
  · rw [same]
    exact Prod.Lex.right _ fewer

end ClientLink

theorem registering_kept {username : Bytes} (user : WireField 64 (clientName username)) :
    (registering username).Kept := by
  have type : WireField 32 (lit "CLIENT_REGISTER") := by decide
  have proper : (registerMessage username).WellFormed :=
    ⟨type, (by decide : WireField 64 (lit "1")), user, (by decide : WireField 16 (lit "CLIENT")),
      Nat.zero_lt_succ 1791, List.not_mem_nil, List.not_mem_nil⟩
  have noTag : takesTag (lit "CLIENT_REGISTER") = false := by decide
  have start : ClientLink.idle.Kept := ⟨.nil, .prompt ⟨rfl, rfl, rfl, rfl⟩⟩
  have single : streams (lit "CLIENT_REGISTER") = false := by decide
  rw [registering, ← single]
  refine ClientLink.ask_kept start rfl proper fun tags => absurd tags ?_
  rw [registerMessage, noTag]
  exact Bool.false_ne_true

theorem clientSession_kept {username : Bytes} (user : WireField 64 (clientName username))
    {events : List LinkEvent} (admitted : ∀ event ∈ events, event.Admitted) :
    (clientSession username events).Kept := by
  have guarded : Runs.Guarded (ClientLink.step (clientName username))
      (fun _ event => LinkEvent.Admitted event) (registering username) events :=
    @Runs.guarded_of_inv _ _ _ _ (fun _ => True) _ _ trivial (fun _ _ _ _ => trivial)
      fun _ event member _ => admitted event member
  exact @Runs.Guarded.invariant _ _ _ _ ClientLink.Kept
    (fun _ _ kept allowed => ClientLink.step_kept user kept allowed) _ _ (registering_kept user)
    guarded

/-- With a user name that fits a field of a line, the client reads for every message what the name
server has sent for it, leaves nothing of it unread and always gets to the end of it. -/
theorem replies_in_step (username : Bytes) (noPipe : pipe ∉ username)
    (oneLine : newline ∉ username) (events : List LinkEvent)
    (admitted : ∀ event ∈ events, event.Admitted) :
    (clientSession username events).InStep ∧
      (clientSession username events).Returns (clientName username) := by
  have user := clientName_wireField noPipe oneLine
  have kept := clientSession_kept user admitted
  exact ⟨kept.inStep, kept.returns user⟩

def scriptWorld : World :=
  { emptyWorld with
    index := [⟨lit "notes", rootFolder, lit "ann", lit "10.0.0.1", 6000, lit "ss1", 0, 0, 0⟩]
    fetchAcl := fun _ => some ⟨lit "ann", []⟩
    fetchContent := fun _ => some (lit "ls")
    execute := fun _ => .ok (lit "a" ++ [newline] ++ lit "b" ++ [newline]) }

theorem scriptWorld_honest : scriptWorld.Honest where
  host := by simp only [scriptWorld, List.mem_singleton, forall_eq]; decide
  activeHost := by simp only [scriptWorld, emptyWorld, List.mem_singleton, forall_eq]; decide
  requester := by simp [scriptWorld, emptyWorld]
  requestName := by simp [scriptWorld, emptyWorld]
  requestFolder := by simp [scriptWorld, emptyWorld]
  answers := by simp [scriptWorld, emptyWorld]
  relays := by simp [scriptWorld, emptyWorld]

def noMessage : Message := ⟨[], [], [], [], []⟩

def execLine : CommandLine := ⟨lit "exec notes" ++ [newline], by decide⟩

def execEvents : List LinkEvent :=
  [.handle scriptWorld noMessage, .put, .read noMessage, .type execLine 5,
    .handle scriptWorld noMessage, .put, .read noMessage, .put, .read noMessage]

theorem replies_in_step_exec :
    ((clientSession (lit "ann") execEvents).finished.map fun done => done.lines.length) = [1, 2] ∧
      (clientSession (lit "ann") execEvents).InStep := by
  have admitted : ∀ event ∈ execEvents, event.Admitted := by
    intro event member
    simp only [execEvents, List.mem_cons, List.not_mem_nil, or_false] at member
    rcases member with rfl | rfl | rfl | rfl | rfl | rfl | rfl | rfl | rfl
    · exact scriptWorld_honest
    · trivial
    · trivial
    · exact (by decide : ∀ token ∈ execLine.tokens, pipe ∉ token)
    · exact scriptWorld_honest
    · trivial
    · trivial
    · trivial
    · trivial
  exact ⟨by decide +kernel, (replies_in_step (lit "ann") (by decide) (by decide) execEvents
    admitted).1⟩

def twoLineName : Bytes := lit "a" ++ [newline] ++ lit "b"

def createLine : CommandLine := ⟨lit "create f" ++ [newline], by decide⟩

def registeredPart : Message := ⟨lit "b", lit "CLIENT", [], [], []⟩

def twoLineEvents : List LinkEvent :=
  [.handle emptyWorld noMessage, .handle emptyWorld registeredPart, .put, .read noMessage,
    .type createLine 5, .handle emptyWorld noMessage, .handle emptyWorld noMessage]

theorem two_line_name_waits :
    pipe ∉ twoLineName ∧ (∀ event ∈ twoLineEvents, event.Admitted) ∧
      ¬(clientSession twoLineName twoLineEvents).InStep := by
  refine ⟨by decide, ?_, fun inStep => ?_⟩
  · intro event member
    simp only [twoLineEvents, List.mem_cons, List.not_mem_nil, or_false] at member
    rcases member with rfl | rfl | rfl | rfl | rfl | rfl | rfl
    · exact emptyWorld_honest
    · exact emptyWorld_honest
    · trivial
    · trivial
    · exact (by decide : ∀ token ∈ createLine.tokens, pipe ∉ token)
    · exact emptyWorld_honest
    · exact emptyWorld_honest
  · have waits : ∃ request streaming taken,
        (clientSession twoLineName twoLineEvents).phase = .waiting request streaming taken :=
      ⟨formatCommandMessage (parseCommand createLine.text) (clientName twoLineName) 5, false, [],
        by decide +kernel⟩
    exact inStep.answered ⟨waits, by decide +kernel, by decide +kernel, by decide +kernel⟩

end SharedFileSystem
