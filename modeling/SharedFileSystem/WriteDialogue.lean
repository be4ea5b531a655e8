import SharedFileSystem.EditTransfer

/-!
A WRITE as `perform_write_session` (`client/main.c`) and the loop of `handle_command` (`ss/main.c`) run it
between them: the client sends a line and waits for one reply. Other sessions of the file come and go,
any step of the server may fail, and the connection may break at any time.
-/

namespace SharedFileSystem

open ByteText Runs

-- `cmd->args[0]`, `cmd->args[1]` and `g_username`
structure WriteCommand where
  filename : Bytes
  sentenceArg : Bytes
  username : Bytes
  name : LineText filename
  index : LineText sentenceArg
  user : WireField 64 username

def WriteCommand.message (command : WriteCommand) (type payload : Bytes) (now : Int) : Message where
  type := type
  id := (showInt now).take 63
  username := command.username.take 63
  role := lit "CLIENT"
  payload := payload.take payloadMax

def WriteCommand.request (command : WriteCommand) (now : Int) : Message :=
  command.message (lit "WRITE") (command.filename ++ pipe :: command.sentenceArg) now

theorem WriteCommand.message_wellFormed (command : WriteCommand) {type payload : Bytes}
    (kind : WireField 32 type) (text : LineText payload) (now : Int) :
    (command.message type payload now).WellFormed := by
  have cut := text.take payloadMax
  have name : command.username.take 63 = command.username :=
    List.take_of_length_le (Nat.le_of_lt_succ command.user.short)
  refine ⟨kind, showInt_wireField now, ?_, (by decide : WireField 16 (lit "CLIENT")), ?_, cut.oneLine,
    cut.noNul⟩
  · rw [WriteCommand.message, name]
    exact command.user
  · exact Nat.lt_succ_of_le (List.length_take_le _ _)

theorem WriteCommand.request_wellFormed (command : WriteCommand) (now : Int) :
    (command.request now).WellFormed :=
  command.message_wellFormed (by decide) (command.name.separated command.index) now

inductive WriteOutcome where
  | saved
  -- a reply to ETIRW that is neither ERROR nor ACK: nothing is printed, and the result is 0
  | silent
  | refused
  | aborted
deriving DecidableEq, Repr

inductive WriterPhase where
  | opening
  | prompting
  | editing (payload : Bytes)
  | finishing
  | closed (outcome : WriteOutcome)
deriving DecidableEq, Repr

def WriterPhase.waits : WriterPhase → Bool
  | .opening => true
  | .editing _ => true
  | .finishing => true
  | _ => false

inductive ServerReply where
  | ready (sentence : Bytes)
  | answer (reply : Reply)
deriving DecidableEq, Repr

structure WriteDialogue where
  writer : WriterPhase
  -- the client has returned because a call on the connection failed
  lost : Bool
  requests : List Bytes
  replies : List ServerReply
  connection : WriteConnection
  -- the loop of the server has ended because `recv_line` failed
  cut : Bool
  opened : Option WriteSession
  acked : List Bytes
  committed : Option WriteSession

structure ServedInput extends LineInput where
  begins : BeginStep → Bool

inductive DialogueEvent where
  | typed (line : PromptLine) (now : Int)
  -- `fgets` returns NULL
  | ended (now : Int)
  | received
  | gaveUp
  | served (input : ServedInput)
  | dropped
  | acquired (sentenceId : Int) (username : Bytes)
  | released (lock : SentenceLock)

def WriteDialogue.send (dialogue : WriteDialogue) (msg : Message) (writer : WriterPhase) :
    WriteDialogue :=
  match protoFormatLine msg maxLine with
  | (line, true) => { dialogue with writer := writer, requests := dialogue.requests ++ [line] }
  | (_, false) => { dialogue with lost := true }

def WriteDialogue.prompt (command : WriteCommand) (dialogue : WriteDialogue) (line : PromptLine)
    (now : Int) : WriteDialogue :=
  match readPrompt line.text with
  | .ignored => dialogue
  | .refused _ => dialogue
  | .done => dialogue.send (command.message (lit "WRITE_DONE") [] now) .finishing
  | .edit wordIndex content =>
      let msg := editMessage wordIndex content command.username now
      dialogue.send msg (.editing msg.payload)

def WriteDialogue.hear (dialogue : WriteDialogue) (reply : ServerReply) : WriteDialogue :=
  match dialogue.writer, reply with
  | .opening, .ready _ => { dialogue with writer := .prompting }
  | .opening, .answer (.error _ _) => { dialogue with writer := .closed .refused }
  | .editing payload, .answer (.ack _) =>
      { dialogue with writer := .prompting, acked := dialogue.acked ++ [payload] }
  | .editing _, _ => { dialogue with writer := .prompting }
  | .finishing, .answer (.error _ _) => { dialogue with writer := .closed .refused }
  | .finishing, .answer (.ack _) => { dialogue with writer := .closed .saved }
  | .finishing, .ready _ => { dialogue with writer := .closed .silent }
  | _, _ => dialogue

def readyReply : Except Reply WriteSession → ServerReply
  | .error reply => .answer reply
  | .ok session => .ready (encodeNewlines (sessionText session))

def WriteDialogue.hangUp (dialogue : WriteDialogue) : WriteDialogue :=
  { dialogue with connection := { dialogue.connection with phase := .returned } }

def WriteDialogue.serveRequest (dialogue : WriteDialogue) (input : ServedInput) :
    LineResult → WriteDialogue
  | .message msg =>
      if msg.type = lit "WRITE" then
        let begun := (handleWriteFaults input.begins input.file dialogue.connection.runtime
          (writeRequest msg.payload).2 msg.username).2.2
        { dialogue with
          connection := dialogue.connection.request input.file msg.payload msg.username input.begins
          replies := dialogue.replies ++ [readyReply begun]
          opened := begun.toOption }
      else dialogue.hangUp
  | _ => dialogue.hangUp

def LineResult.heard (stale : Message) : LineResult → Option Message
  | .invalid => none
  | .unset => some stale
  | .message msg => some msg

def WriteDialogue.serveLine (dialogue : WriteDialogue) (input : ServedInput) (session : WriteSession)
    (result : LineResult) : WriteDialogue :=
  match result.heard input.stale with
  | none => dialogue
  | some msg => { dialogue with
      connection := dialogue.connection.read session input.toLineInput result
      replies := dialogue.replies ++
        [.answer (writeLine dialogue.connection.runtime session input.toLineInput msg).2.2]
      committed :=
        if msg.type = lit "WRITE_DONE" ∧
            (writeSessionCommitFaults input.faults input.file session input.now).2 = .ok () then
          some session
        else dialogue.committed }

def WriteDialogue.serve (dialogue : WriteDialogue) (input : ServedInput) : WriteDialogue :=
  match dialogue.requests with
  | [] => dialogue
  | line :: rest =>
      let result := protoParseLine (recvLine line maxLine)
      match dialogue.connection.phase with
      | .waiting => { dialogue with requests := rest }.serveRequest input result
      | .writing session => { dialogue with requests := rest }.serveLine input session result
      | .returned => dialogue

def WriteDialogue.connected (dialogue : WriteDialogue) (event : ConnectionEvent) : WriteDialogue :=
  { dialogue with connection := dialogue.connection.step event }

def WriteDialogue.step (command : WriteCommand) (dialogue : WriteDialogue) :
    DialogueEvent → WriteDialogue
  | .typed line now =>
      if dialogue.writer = .prompting ∧ dialogue.lost = false then dialogue.prompt command line now
      else dialogue
  | .ended now =>
      if dialogue.writer = .prompting ∧ dialogue.lost = false then
        dialogue.send (command.message (lit "WRITE_ABORT") [] now) (.closed .aborted)
      else dialogue
  | .received =>
      if dialogue.writer.waits = true ∧ dialogue.lost = false then
        match dialogue.replies with
        | [] => dialogue
        | reply :: rest => { dialogue with replies := rest }.hear reply
      else dialogue
  | .gaveUp => { dialogue with lost := true }
  | .served input => dialogue.serve input
  | .dropped => match dialogue.connection.phase with
    | .writing _ => { dialogue.connected .disconnected with cut := true }
    | _ => dialogue
  | .acquired sentenceId username => dialogue.connected (.acquired sentenceId username)
  | .released lock => dialogue.connected (.released lock)

def WriteDialogue.start (command : WriteCommand) (now : Int) : WriteDialogue :=
  ⟨.opening, false, [(protoFormatLine (command.request now) maxLine).1], [], WriteConnection.start,
    false, none, [], none⟩

def insertWords (words : List Bytes) (payload : Bytes) : List Bytes :=
  match editPayload payload with
  | none => words
  | some (wordIndex, content) =>
      words.take wordIndex.toNat ++ splitContentIntoTokens content ++ words.drop wordIndex.toNat

def editSession (session : WriteSession) (payload : Bytes) : WriteSession :=
  { session with entry := { session.entry with words := insertWords session.entry.words payload } }

def WriteDialogue.session (dialogue : WriteDialogue) : Option WriteSession :=
  dialogue.opened.map fun opened => dialogue.acked.foldl editSession opened

def WriteDialogue.Asks (dialogue : WriteDialogue) (msg : Message) : Prop :=
  dialogue.requests = [msg.line] ∧ dialogue.replies = []

def WriteDialogue.Answers (dialogue : WriteDialogue) (reply : ServerReply) : Prop :=
  dialogue.requests = [] ∧ dialogue.replies = [reply]

def WriteDialogue.Quiet (dialogue : WriteDialogue) : Prop :=
  dialogue.requests = [] ∧ dialogue.replies = []

def WriteDialogue.Writing (dialogue : WriteDialogue) (session : Option WriteSession) : Prop :=
  dialogue.committed = none ∧
    ((∃ current, session = some current ∧ dialogue.connection.phase = .writing current) ∨
      dialogue.cut = true ∧ dialogue.connection.phase = .returned)

def WriteDialogue.Ended (dialogue : WriteDialogue) (committed : Option WriteSession) : Prop :=
  dialogue.committed = committed ∧ dialogue.connection.phase = .returned

def WriteDialogue.Unserved (dialogue : WriteDialogue) (msg : Message) : Prop :=
  match dialogue.writer with
  | .opening => msg.type = lit "WRITE" ∧ dialogue.acked = [] ∧ dialogue.committed = none ∧
      dialogue.connection.phase = .waiting
  | .editing payload => msg.type = lit "WRITE_EDIT" ∧ msg.payload = payload ∧
      dialogue.Writing dialogue.session
  | .finishing => msg.type = lit "WRITE_DONE" ∧ dialogue.Writing dialogue.session
  | .closed .aborted => msg.type = lit "WRITE_ABORT" ∧ dialogue.Writing dialogue.session
  | _ => False

def WriteDialogue.Unheard (dialogue : WriteDialogue) (reply : ServerReply) : Prop :=
  match dialogue.writer, reply with
  | .opening, .ready _ => dialogue.Writing dialogue.session
  | .opening, .answer (.error _ _) => dialogue.Ended none
  | .editing payload, .answer (.ack _) =>
      dialogue.Writing (dialogue.session.map fun session => editSession session payload)
  | .editing _, .answer (.error _ _) => dialogue.Writing dialogue.session
  | .finishing, .answer (.ack _) => dialogue.session.isSome ∧ dialogue.Ended dialogue.session
  | .finishing, .answer (.error _ _) => dialogue.Ended none
  | .closed .aborted, .answer (.ack _) => dialogue.Ended none
  | _, _ => False

def WriteDialogue.Settled (dialogue : WriteDialogue) : Prop :=
  match dialogue.writer with
  | .prompting => dialogue.Writing dialogue.session
  | .closed .saved => dialogue.session.isSome ∧ dialogue.Ended dialogue.session
  | .closed .refused => dialogue.Ended none
  | _ => False

inductive WriteDialogue.Lockstep (dialogue : WriteDialogue) : Prop where
  | unserved (msg : Message) (proper : msg.WellFormed) (asks : dialogue.Asks msg)
      (waits : dialogue.Unserved msg)
  | unheard (reply : ServerReply) (answers : dialogue.Answers reply) (waits : dialogue.Unheard reply)
  | settled (quiet : dialogue.Quiet) (rests : dialogue.Settled)

theorem WriteDialogue.session_append (dialogue : WriteDialogue) (payload : Bytes)
    (writer : WriterPhase) :
    { dialogue with writer := writer, acked := dialogue.acked ++ [payload] }.session =
      dialogue.session.map fun session => editSession session payload := by
  rw [WriteDialogue.session, WriteDialogue.session, Option.map_map]
  congr 1
  funext opened
  exact List.foldl_append

theorem writeSessionApplyEdit_words {session edited : WriteSession} {wordIndex : Int} {content : Bytes}
    (applied : writeSessionApplyEdit session wordIndex content = .ok edited) :
    edited = { session with entry := { session.entry with
      words := session.entry.words.take wordIndex.toNat ++ splitContentIntoTokens content ++
        session.entry.words.drop wordIndex.toNat } } := by
  unfold writeSessionApplyEdit at applied
  split at applied
  · exact nomatch applied
  · split at applied
    · exact nomatch applied
    · dsimp only at applied
      split at applied
      · exact nomatch applied
      · exact (Except.ok.inj applied).symm

theorem handleEdit_session (fails : Bool) (session : WriteSession) (payload : Bytes) :
    (∃ text, handleEdit fails session payload = (editSession session payload, .ack text)) ∨
      ∃ code text, handleEdit fails session payload = (session, .error code text) := by
  unfold handleEdit editSession insertWords
  cases editPayload payload with
  | none => exact Or.inr ⟨_, _, rfl⟩
  | some named =>
      obtain ⟨wordIndex, content⟩ := named
      dsimp only
      cases applied : writeSessionApplyEdit session wordIndex content with
      | error problem => exact Or.inr ⟨_, _, rfl⟩
      | ok edited =>
          cases fails with
          | true => exact Or.inr ⟨_, _, rfl⟩
          | false =>
              rw [← writeSessionApplyEdit_words applied]
              exact Or.inl ⟨_, rfl⟩

theorem handleDone_reply (runtime : FileRuntimeState) (session : WriteSession)
    (result : Except Bytes Unit) :
    (∃ text, (handleDone runtime session result).2 = .ack text ∧ result = .ok ()) ∨
      ∃ code text, (handleDone runtime session result).2 = .error code text ∧ result ≠ .ok () := by
  cases result with
  | ok done => exact Or.inl ⟨_, rfl, rfl⟩
  | error problem => exact Or.inr ⟨_, _, rfl, fun same => nomatch same⟩

theorem handleWriteFaults_reply (faults : BeginStep → Bool) (state : FileState)
    (runtime : FileRuntimeState) (sentenceIndex : Int) (username : Bytes) {reply : Reply}
    (refused : (handleWriteFaults faults state runtime sentenceIndex username).2.2 = .error reply) :
    ∃ code text, reply = .error code text := by
  unfold handleWriteFaults at refused
  split at refused
  · exact ⟨_, _, (Except.error.inj refused).symm⟩
  · split at refused
    · exact ⟨_, _, (Except.error.inj refused).symm⟩
    · split at refused
      · exact ⟨_, _, (Except.error.inj refused).symm⟩
      · exact nomatch refused

theorem Message.WellFormed.arrives {msg : Message} (proper : msg.WellFormed) :
    protoParseLine (recvLine msg.line maxLine) = .message msg := by
  have received := recvLine_protoFormatLine proper proper.line_length
  rwa [proper.protoFormatLine_eq] at received

theorem WriteDialogue.Lockstep.request {dialogue : WriteDialogue} {msg : Message}
    (opening : dialogue.writer = .opening) (quiet : dialogue.Quiet) (write : msg.type = lit "WRITE")
    (fresh : dialogue.acked = []) (unsaved : dialogue.committed = none) (input : ServedInput) :
    (dialogue.serveRequest input (.message msg)).Lockstep := by
  have replies : dialogue.replies = [] := quiet.2
  unfold WriteDialogue.serveRequest
  dsimp only
  rw [if_pos write, WriteConnection.request]
  rcases result : handleWriteFaults input.begins input.file dialogue.connection.runtime
    (writeRequest msg.payload).2 msg.username with ⟨begun, left, outcome⟩
  cases outcome with
  | error reply =>
      obtain ⟨code, text, rfl⟩ := handleWriteFaults_reply _ _ _ _ _ (congrArg (·.2.2) result)
      refine .unheard (.answer (.error code text)) ⟨quiet.1, ?_⟩ ?_
      · simp [replies, readyReply]
      · simp only [WriteDialogue.Unheard, opening]
        exact ⟨unsaved, rfl⟩
  | ok session =>
      refine .unheard (.ready (encodeNewlines (sessionText session))) ⟨quiet.1, ?_⟩ ?_
      · simp [replies, readyReply]
      · simp only [WriteDialogue.Unheard, opening]
        refine ⟨unsaved, Or.inl ⟨session, ?_, rfl⟩⟩
        simp [WriteDialogue.session, fresh, Except.toOption]

section

variable (runtime : FileRuntimeState) (session : WriteSession) (input : LineInput) {msg : Message}

theorem writeLine_edit (edit : msg.type = lit "WRITE_EDIT") : writeLine runtime session input msg =
    (runtime, .writing (handleEdit input.editFails session msg.payload).1,
      (handleEdit input.editFails session msg.payload).2) := by
  rw [writeLine, if_pos edit]

theorem writeLine_done (done : msg.type = lit "WRITE_DONE") : writeLine runtime session input msg =
    ((handleDone runtime session (writeSessionCommitFaults input.faults input.file session input.now).2).1,
      .returned,
      (handleDone runtime session (writeSessionCommitFaults input.faults input.file session input.now).2).2) := by
  have other : ¬msg.type = lit "WRITE_EDIT" := by
    rw [done]
    decide
  rw [writeLine, if_neg other, if_pos done]

theorem writeLine_abort (abort : msg.type = lit "WRITE_ABORT") : writeLine runtime session input msg =
    ((writeSessionAbort runtime session).1, .returned, .ack (lit "Write aborted")) := by
  have edit : ¬msg.type = lit "WRITE_EDIT" := by
    rw [abort]
    decide
  have done : ¬msg.type = lit "WRITE_DONE" := by
    rw [abort]
    decide
  rw [writeLine, if_neg edit, if_neg done, if_pos abort]

end

theorem WriteDialogue.Lockstep.edit {dialogue : WriteDialogue} {msg : Message} {payload : Bytes}
    (editing : dialogue.writer = .editing payload) (quiet : dialogue.Quiet)
    (edit : msg.type = lit "WRITE_EDIT") (typed : msg.payload = payload) {session : WriteSession}
    (held : dialogue.session = some session) (unsaved : dialogue.committed = none)
    (input : ServedInput) : (dialogue.serveLine input session (.message msg)).Lockstep := by
  have other : ¬msg.type = lit "WRITE_DONE" := by
    rw [edit]
    decide
  simp only [WriteDialogue.serveLine, LineResult.heard, WriteConnection.read, writeLine_edit _ _ _ edit,
    typed, quiet.2, other, false_and, ↓reduceIte, List.nil_append]
  rcases handleEdit_session input.editFails session payload with ⟨text, result⟩ | ⟨code, text, result⟩
  · rw [result]
    refine .unheard (.answer (.ack text)) ⟨quiet.1, rfl⟩ ?_
    simp only [WriteDialogue.Unheard, editing]
    refine ⟨unsaved, Or.inl ⟨editSession session payload, ?_, rfl⟩⟩
    exact congrArg (Option.map fun current => editSession current payload) held
  · rw [result]
    refine .unheard (.answer (.error code text)) ⟨quiet.1, rfl⟩ ?_
    simp only [WriteDialogue.Unheard, editing]
    exact ⟨unsaved, Or.inl ⟨session, held, rfl⟩⟩

theorem WriteDialogue.Lockstep.done {dialogue : WriteDialogue} {msg : Message}
    (finishing : dialogue.writer = .finishing) (quiet : dialogue.Quiet)
    (done : msg.type = lit "WRITE_DONE") {session : WriteSession}
    (held : dialogue.session = some session) (unsaved : dialogue.committed = none)
    (input : ServedInput) : (dialogue.serveLine input session (.message msg)).Lockstep := by
  simp only [WriteDialogue.serveLine, LineResult.heard, WriteConnection.read, writeLine_done _ _ _ done,
    quiet.2, List.nil_append]
  rcases handleDone_reply dialogue.connection.runtime session
      (writeSessionCommitFaults input.faults input.file session input.now).2 with
    ⟨text, result, saved⟩ | ⟨code, text, result, failed⟩
  · rw [result, if_pos ⟨done, saved⟩]
    refine .unheard (.answer (.ack text)) ⟨quiet.1, rfl⟩ ?_
    simp only [WriteDialogue.Unheard, finishing]
    exact ⟨Option.isSome_iff_exists.mpr ⟨session, held⟩, held.symm, rfl⟩
  · rw [result, if_neg fun both => failed both.2]
    refine .unheard (.answer (.error code text)) ⟨quiet.1, rfl⟩ ?_
    simp only [WriteDialogue.Unheard, finishing]
    exact ⟨unsaved, rfl⟩

theorem WriteDialogue.Lockstep.abort {dialogue : WriteDialogue} {msg : Message}
    (aborted : dialogue.writer = .closed .aborted) (quiet : dialogue.Quiet)
    (abort : msg.type = lit "WRITE_ABORT") {session : WriteSession}
    (unsaved : dialogue.committed = none) (input : ServedInput) :
    (dialogue.serveLine input session (.message msg)).Lockstep := by
  have other : ¬msg.type = lit "WRITE_DONE" := by
    rw [abort]
    decide
  simp only [WriteDialogue.serveLine, LineResult.heard, WriteConnection.read, writeLine_abort _ _ _ abort,
    quiet.2, other, false_and, ↓reduceIte, List.nil_append]
  refine .unheard (.answer (.ack (lit "Write aborted"))) ⟨quiet.1, rfl⟩ ?_
  simp only [WriteDialogue.Unheard, aborted]
  exact ⟨unsaved, rfl⟩

theorem WriteDialogue.Lockstep.serve {dialogue : WriteDialogue} (lockstep : dialogue.Lockstep)
    (input : ServedInput) : (dialogue.serve input).Lockstep := by
  have idle (none_ : dialogue.requests = []) : dialogue.serve input = dialogue := by
    rw [WriteDialogue.serve, none_]
  cases lockstep with
  | unheard reply answers waits =>
      rw [idle answers.1]
      exact .unheard reply answers waits
  | settled quiet rests =>
      rw [idle quiet.1]
      exact .settled quiet rests
  | unserved msg proper asks waits =>
      have kept : WriteDialogue.Lockstep dialogue := .unserved msg proper asks waits
      have quiet : { dialogue with requests := [] }.Quiet := ⟨rfl, asks.2⟩
      rw [WriteDialogue.serve, asks.1]
      dsimp only
      rw [proper.arrives]
      have line {session : Option WriteSession} (writing : dialogue.Writing session)
          (served : ∀ current, session = some current →
            ({ dialogue with requests := [] }.serveLine input current (.message msg)).Lockstep) :
          (match dialogue.connection.phase with
            | .waiting => { dialogue with requests := [] }.serveRequest input (.message msg)
            | .writing current => { dialogue with requests := [] }.serveLine input current (.message msg)
            | .returned => dialogue).Lockstep := by
        rcases writing.2 with ⟨current, held, phase⟩ | ⟨_, phase⟩
        · rw [phase]
          exact served current held
        · rw [phase]
          exact kept
      unfold WriteDialogue.Unserved at waits
      split at waits
      · rename_i opening
        obtain ⟨write, fresh, unsaved, waiting⟩ := waits
        rw [waiting]
        exact @WriteDialogue.Lockstep.request { dialogue with requests := [] } _ opening quiet write fresh
          unsaved input
      · rename_i payload editing
        obtain ⟨edit, typed, writing⟩ := waits
        exact line writing fun current held =>
          @WriteDialogue.Lockstep.edit { dialogue with requests := [] } _ _ editing quiet edit typed _ held
            writing.1 input
      · rename_i finishing
        exact line waits.2 fun current held =>
          @WriteDialogue.Lockstep.done { dialogue with requests := [] } _ finishing quiet waits.1 _ held
            waits.2.1 input
      · rename_i aborted
        exact line waits.2 fun current held =>
          @WriteDialogue.Lockstep.abort { dialogue with requests := [] } _ aborted quiet waits.1 _ waits.2.1
            input
      · exact waits.elim

theorem WriteDialogue.Lockstep.hear {dialogue : WriteDialogue} {reply : ServerReply}
    (quiet : dialogue.Quiet) (waits : dialogue.writer.waits = true) (unheard : dialogue.Unheard reply) :
    (dialogue.hear reply).Lockstep ∧ (dialogue.hear reply).writer.waits = false := by
  unfold WriteDialogue.Unheard at unheard
  unfold WriteDialogue.hear
  split at unheard
  · rename_i sentence opening
    rw [opening]
    exact ⟨.settled quiet unheard, rfl⟩
  · rename_i code text opening
    rw [opening]
    exact ⟨.settled quiet unheard, rfl⟩
  · rename_i payload text editing
    rw [editing]
    refine ⟨.settled quiet ?_, rfl⟩
    simp only [WriteDialogue.Settled, WriteDialogue.session_append]
    exact unheard
  · rename_i payload code text editing
    rw [editing]
    exact ⟨.settled quiet unheard, rfl⟩
  · rename_i text finishing
    rw [finishing]
    exact ⟨.settled quiet unheard, rfl⟩
  · rename_i code text finishing
    rw [finishing]
    exact ⟨.settled quiet unheard, rfl⟩
  · rename_i text aborted
    rw [aborted] at waits
    exact nomatch waits
  · exact unheard.elim

theorem WriteDialogue.Lockstep.prompting {dialogue : WriteDialogue} (lockstep : dialogue.Lockstep)
    (prompting : dialogue.writer = .prompting) :
    dialogue.Quiet ∧ dialogue.Writing dialogue.session := by
  cases lockstep with
  | unserved msg proper asks waits =>
      rw [WriteDialogue.Unserved, prompting] at waits
      exact waits.elim
  | unheard reply answers waits =>
      simp only [WriteDialogue.Unheard, prompting] at waits
  | settled quiet rests =>
      rw [WriteDialogue.Settled, prompting] at rests
      exact ⟨quiet, rests⟩

theorem WriteDialogue.send_eq (dialogue : WriteDialogue) {msg : Message} (proper : msg.WellFormed)
    (writer : WriterPhase) : dialogue.send msg writer =
      { dialogue with writer := writer, requests := dialogue.requests ++ [msg.line] } := by
  rw [WriteDialogue.send, proper.protoFormatLine_eq]

theorem WriteDialogue.Lockstep.send {dialogue : WriteDialogue} (quiet : dialogue.Quiet) {msg : Message}
    (proper : msg.WellFormed) {writer : WriterPhase}
    (waits : { dialogue with writer := writer, requests := [msg.line] }.Unserved msg) :
    (dialogue.send msg writer).Lockstep := by
  rw [dialogue.send_eq proper, quiet.1]
  exact .unserved msg proper ⟨rfl, quiet.2⟩ waits

theorem WriteDialogue.Lockstep.prompt {dialogue : WriteDialogue} (lockstep : dialogue.Lockstep)
    (prompting : dialogue.writer = .prompting) (command : WriteCommand) (line : PromptLine)
    (now : Int) : (dialogue.prompt command line now).Lockstep := by
  obtain ⟨quiet, writing⟩ := lockstep.prompting prompting
  unfold WriteDialogue.prompt
  cases typed : readPrompt line.text with
  | ignored => exact lockstep
  | refused problem => exact lockstep
  | done =>
      have proper := command.message_wellFormed (by decide : WireField 32 (lit "WRITE_DONE"))
        (by decide : LineText []) now
      exact .send quiet proper ⟨rfl, writing⟩
  | edit wordIndex content =>
      exact .send quiet (editMessage_wellFormed typed command.user now) ⟨rfl, rfl, writing⟩

theorem WriteDialogue.Lockstep.ended {dialogue : WriteDialogue} (lockstep : dialogue.Lockstep)
    (prompting : dialogue.writer = .prompting) (command : WriteCommand) (now : Int) :
    (dialogue.send (command.message (lit "WRITE_ABORT") [] now) (.closed .aborted)).Lockstep := by
  obtain ⟨quiet, writing⟩ := lockstep.prompting prompting
  have proper := command.message_wellFormed (by decide : WireField 32 (lit "WRITE_ABORT"))
    (by decide : LineText []) now
  exact .send quiet proper ⟨rfl, writing⟩

theorem WriteDialogue.Lockstep.received {dialogue : WriteDialogue} (lockstep : dialogue.Lockstep)
    (waits : dialogue.writer.waits = true) {reply : ServerReply} {rest : List ServerReply}
    (replies : dialogue.replies = reply :: rest) :
    ({ dialogue with replies := rest }.hear reply).Lockstep ∧
      ({ dialogue with replies := rest }.hear reply).writer.waits = false := by
  cases lockstep with
  | unserved msg proper asks _ => exact nomatch replies.symm.trans asks.2
  | settled quiet _ => exact nomatch replies.symm.trans quiet.2
  | unheard other answers unheard =>
      obtain ⟨rfl, rfl⟩ := List.cons.inj (replies.symm.trans answers.2)
      exact @WriteDialogue.Lockstep.hear { dialogue with replies := [] } _ ⟨answers.1, rfl⟩ waits unheard

theorem WriteDialogue.Lockstep.gaveUp {dialogue : WriteDialogue} (lockstep : dialogue.Lockstep) :
    { dialogue with lost := true }.Lockstep := by
  cases lockstep with
  | unserved msg proper asks waits => exact .unserved msg proper asks waits
  | unheard reply answers waits => exact .unheard reply answers waits
  | settled quiet rests => exact .settled quiet rests

theorem WriteDialogue.Lockstep.connection {dialogue : WriteDialogue} (lockstep : dialogue.Lockstep)
    {connection : WriteConnection} {cut : Bool}
    (waiting : dialogue.connection.phase = .waiting → connection.phase = .waiting)
    (writing : ∀ session, dialogue.Writing session →
      { dialogue with connection := connection, cut := cut }.Writing session)
    (returned : dialogue.connection.phase = .returned → connection.phase = .returned) :
    { dialogue with connection := connection, cut := cut }.Lockstep := by
  have ended {committed : Option WriteSession} (ended : dialogue.Ended committed) :
      { dialogue with connection := connection, cut := cut }.Ended committed :=
    ⟨ended.1, returned ended.2⟩
  cases lockstep with
  | unserved msg proper asks waits =>
      refine .unserved msg proper asks ?_
      unfold WriteDialogue.Unserved at waits ⊢
      cases writer : dialogue.writer with
      | opening =>
          rw [writer] at waits
          exact ⟨waits.1, waits.2.1, waits.2.2.1, waiting waits.2.2.2⟩
      | prompting =>
          rw [writer] at waits
          exact waits
      | editing payload =>
          rw [writer] at waits
          exact ⟨waits.1, waits.2.1, writing _ waits.2.2⟩
      | finishing =>
          rw [writer] at waits
          exact ⟨waits.1, writing _ waits.2⟩
      | closed outcome =>
          rw [writer] at waits
          cases outcome with
          | aborted => exact ⟨waits.1, writing _ waits.2⟩
          | _ => exact waits.elim
  | unheard reply answers waits =>
      refine .unheard reply answers ?_
      unfold WriteDialogue.Unheard at waits ⊢
      split at waits
      · rename_i opening
        simp only [opening]
        exact writing _ waits
      · rename_i opening
        simp only [opening]
        exact ended waits
      · rename_i editing
        simp only [editing]
        exact writing _ waits
      · rename_i editing
        simp only [editing]
        exact writing _ waits
      · rename_i finishing
        simp only [finishing]
        exact ⟨waits.1, ended waits.2⟩
      · rename_i finishing
        simp only [finishing]
        exact ended waits
      · rename_i aborted
        simp only [aborted]
        exact ended waits
      · exact waits.elim
  | settled quiet rests =>
      refine .settled quiet ?_
      unfold WriteDialogue.Settled at rests ⊢
      split at rests
      · rename_i prompting
        simp only [prompting]
        exact writing _ rests
      · rename_i saved
        simp only [saved]
        exact ⟨rests.1, ended rests.2⟩
      · rename_i refused
        simp only [refused]
        exact ended rests
      · exact rests.elim

theorem WriteDialogue.Lockstep.moved {dialogue : WriteDialogue} (lockstep : dialogue.Lockstep)
    {connection : WriteConnection} (same : connection.phase = dialogue.connection.phase) :
    { dialogue with connection := connection }.Lockstep := by
  refine @WriteDialogue.Lockstep.connection _ lockstep connection dialogue.cut (same.trans ·) ?_
    (same.trans ·)
  intro session writing
  rw [WriteDialogue.Writing, same]
  exact writing

theorem WriteDialogue.Lockstep.dropped {dialogue : WriteDialogue} (lockstep : dialogue.Lockstep)
    {session : WriteSession} (phase : dialogue.connection.phase = .writing session) :
    { dialogue.connected .disconnected with cut := true }.Lockstep := by
  have left : (dialogue.connection.step .disconnected).phase = .returned := by
    simp only [WriteConnection.step, phase]
  refine lockstep.connection ?_ (fun held writing => ⟨writing.1, Or.inr ⟨rfl, left⟩⟩) fun _ => left
  intro waiting
  cases phase.symm.trans waiting

theorem WriteConnection.step_phase (connection : WriteConnection) :
    (∀ sentenceId username, (connection.step (.acquired sentenceId username)).phase = connection.phase) ∧
      ∀ lock, (connection.step (.released lock)).phase = connection.phase := by
  constructor
  · intro sentenceId username
    rw [WriteConnection.step]
    split
    · rfl
    · rfl
  · intro lock
    rw [WriteConnection.step]
    split
    · rfl
    · rfl

theorem WriteDialogue.Lockstep.step {dialogue : WriteDialogue} (lockstep : dialogue.Lockstep)
    (command : WriteCommand) (event : DialogueEvent) : (dialogue.step command event).Lockstep := by
  unfold WriteDialogue.step
  cases event with
  | typed line now =>
      dsimp only
      split
      · rename_i turn
        exact lockstep.prompt turn.1 command line now
      · exact lockstep
  | ended now =>
      dsimp only
      split
      · rename_i turn
        exact lockstep.ended turn.1 command now
      · exact lockstep
  | received =>
      dsimp only
      split
      · rename_i turn
        split
        · exact lockstep
        · rename_i reply rest replies
          exact (lockstep.received turn.1 replies).1
      · exact lockstep
  | gaveUp => exact lockstep.gaveUp
  | served input => exact lockstep.serve input
  | dropped =>
      dsimp only
      split
      · rename_i phase
        exact lockstep.dropped phase
      · exact lockstep
  | acquired sentenceId username =>
      exact lockstep.moved (dialogue.connection.step_phase.1 sentenceId username)
  | released lock => exact lockstep.moved (dialogue.connection.step_phase.2 lock)

theorem WriteDialogue.Lockstep.run {dialogue : WriteDialogue} (lockstep : dialogue.Lockstep)
    (command : WriteCommand) (events : List DialogueEvent) :
    (run (WriteDialogue.step command) dialogue events).Lockstep := by
  induction events generalizing dialogue with
  | nil => exact lockstep
  | cons event events ih => exact ih (lockstep.step command event)

theorem WriteDialogue.start_lockstep (command : WriteCommand) (now : Int) :
    (WriteDialogue.start command now).Lockstep := by
  have proper := command.request_wellFormed now
  refine .unserved (command.request now) proper ⟨?_, rfl⟩ ⟨rfl, rfl, rfl, rfl⟩
  rw [WriteDialogue.start, proper.protoFormatLine_eq]

theorem WriteConnection.Inv.read {connection : WriteConnection} (inv : connection.Inv)
    {session : WriteSession} (writing : connection.phase = .writing session) (input : LineInput)
    (result : LineResult) : (connection.read session input result).Inv := by
  cases result with
  | invalid => exact inv
  | unset => exact inv.line writing input input.stale
  | message msg => exact inv.line writing input msg

theorem WriteDialogue.inv_hangUp {dialogue : WriteDialogue} (inv : dialogue.connection.Inv)
    (waiting : dialogue.connection.phase = .waiting) : dialogue.hangUp.connection.Inv := by
  refine ⟨inv.table, ?_, fun _ found => nomatch found⟩
  have held := inv.held
  rw [waiting] at held
  exact held

theorem WriteDialogue.inv_serve {dialogue : WriteDialogue} (inv : dialogue.connection.Inv)
    (input : ServedInput) : (dialogue.serve input).connection.Inv := by
  unfold WriteDialogue.serve
  split
  · exact inv
  · dsimp only
    split
    · rename_i waiting
      unfold WriteDialogue.serveRequest
      split
      · split
        · exact inv.request waiting _ _ _ _
        · exact WriteDialogue.inv_hangUp inv waiting
      · exact WriteDialogue.inv_hangUp inv waiting
    · rename_i session writing
      unfold WriteDialogue.serveLine
      split
      · exact inv
      · exact inv.read writing _ _
    · exact inv

theorem WriteDialogue.send_connection (dialogue : WriteDialogue) (msg : Message)
    (writer : WriterPhase) : (dialogue.send msg writer).connection = dialogue.connection := by
  unfold WriteDialogue.send
  split
  · rfl
  · rfl

theorem WriteDialogue.prompt_connection (command : WriteCommand) (dialogue : WriteDialogue)
    (line : PromptLine) (now : Int) :
    (dialogue.prompt command line now).connection = dialogue.connection := by
  unfold WriteDialogue.prompt
  split
  · rfl
  · rfl
  · exact dialogue.send_connection _ _
  · exact dialogue.send_connection _ _

theorem WriteDialogue.hear_connection (dialogue : WriteDialogue) (reply : ServerReply) :
    (dialogue.hear reply).connection = dialogue.connection := by
  unfold WriteDialogue.hear
  split <;> rfl

theorem WriteDialogue.inv_step {dialogue : WriteDialogue} (inv : dialogue.connection.Inv)
    (command : WriteCommand) (event : DialogueEvent) :
    (dialogue.step command event).connection.Inv := by
  unfold WriteDialogue.step
  cases event with
  | typed line now =>
      dsimp only
      split
      · rw [dialogue.prompt_connection command]
        exact inv
      · exact inv
  | ended now =>
      dsimp only
      split
      · rw [dialogue.send_connection]
        exact inv
      · exact inv
  | received =>
      dsimp only
      split
      · split
        · exact inv
        · rw [WriteDialogue.hear_connection]
          exact inv
      · exact inv
  | gaveUp => exact inv
  | served input => exact WriteDialogue.inv_serve inv input
  | dropped =>
      dsimp only
      split
      · exact inv.step .disconnected
      · exact inv
  | acquired sentenceId username => exact inv.step (.acquired sentenceId username)
  | released lock => exact inv.step (.released lock)

theorem WriteDialogue.inv_run {dialogue : WriteDialogue} (inv : dialogue.connection.Inv)
    (command : WriteCommand) (events : List DialogueEvent) :
    (run (WriteDialogue.step command) dialogue events).connection.Inv := by
  induction events generalizing dialogue with
  | nil => exact inv
  | cons event events ih => exact ih (WriteDialogue.inv_step inv command event)

def WriteOutcome.Tells (committed : Option WriteSession) : WriteOutcome → Prop
  | .saved => committed.isSome
  | .silent => False
  | .refused => committed = none
  | .aborted => committed = none

structure WriteDialogue.Orderly (command : WriteCommand) (dialogue : WriteDialogue) : Prop where
  single : dialogue.requests.length + dialogue.replies.length ≤ 1
  -- the server answers a client that waits as soon as it reads on
  answered : dialogue.writer.waits = true → dialogue.cut = false → dialogue.replies = [] →
    ∀ input, (dialogue.step command (.served input)).replies ≠ []
  heard : dialogue.writer.waits = true → dialogue.lost = false → dialogue.replies ≠ [] →
    (dialogue.step command .received).writer.waits = false
  committed : ∀ session, dialogue.committed = some session → dialogue.session = some session
  told : ∀ outcome, dialogue.writer = .closed outcome → outcome.Tells dialogue.committed
  unlocked : ∀ outcome, dialogue.writer = .closed outcome → dialogue.requests = [] →
    dialogue.connection.runtime.locks.Perm dialogue.connection.others

theorem WriteDialogue.Lockstep.single {dialogue : WriteDialogue} (lockstep : dialogue.Lockstep) :
    dialogue.requests.length + dialogue.replies.length ≤ 1 := by
  cases lockstep with
  | unserved msg proper asks waits => simp [asks.1, asks.2]
  | unheard reply answers waits => simp [answers.1, answers.2]
  | settled quiet rests => simp [quiet.1, quiet.2]

theorem WriteDialogue.Settled.rests {dialogue : WriteDialogue} (settled : dialogue.Settled) :
    dialogue.writer.waits = false := by
  unfold WriteDialogue.Settled at settled
  split at settled
  · rename_i writer
    rw [writer]
    rfl
  · rename_i writer
    rw [writer]
    rfl
  · rename_i writer
    rw [writer]
    rfl
  · exact settled.elim

theorem WriteDialogue.Unserved.reads {dialogue : WriteDialogue} {msg : Message}
    (unserved : dialogue.Unserved msg) (whole : dialogue.cut = false) :
    (msg.type = lit "WRITE" ∧ dialogue.connection.phase = .waiting) ∨
      ∃ session, dialogue.connection.phase = .writing session := by
  have writing {session : Option WriteSession} (held : dialogue.Writing session) :
      ∃ session, dialogue.connection.phase = .writing session := by
    rcases held.2 with ⟨current, _, phase⟩ | ⟨cut, _⟩
    · exact ⟨current, phase⟩
    · exact nomatch whole.symm.trans cut
  unfold WriteDialogue.Unserved at unserved
  split at unserved
  · exact Or.inl ⟨unserved.1, unserved.2.2.2⟩
  · exact Or.inr (writing unserved.2.2)
  · exact Or.inr (writing unserved.2)
  · exact Or.inr (writing unserved.2)
  · exact unserved.elim

theorem WriteDialogue.Lockstep.answered {dialogue : WriteDialogue} (lockstep : dialogue.Lockstep)
    (waits : dialogue.writer.waits = true) (whole : dialogue.cut = false)
    (unheard : dialogue.replies = []) (input : ServedInput) : (dialogue.serve input).replies ≠ [] := by
  cases lockstep with
  | settled quiet rests => exact nomatch waits.symm.trans rests.rests
  | unheard reply answers _ => exact nomatch unheard.symm.trans answers.2
  | unserved msg proper asks unserved =>
      rw [WriteDialogue.serve, asks.1]
      dsimp only
      rw [proper.arrives]
      rcases unserved.reads whole with ⟨write, waiting⟩ | ⟨session, writing⟩
      · simp [waiting, WriteDialogue.serveRequest, write]
      · simp [writing, WriteDialogue.serveLine, LineResult.heard]

theorem WriteDialogue.Lockstep.committed {dialogue : WriteDialogue} (lockstep : dialogue.Lockstep) :
    dialogue.committed = none ∨
      dialogue.connection.phase = .returned ∧ dialogue.committed = dialogue.session := by
  cases lockstep with
  | unserved msg proper asks waits =>
      unfold WriteDialogue.Unserved at waits
      split at waits
      · exact Or.inl waits.2.2.1
      · exact Or.inl waits.2.2.1
      · exact Or.inl waits.2.1
      · exact Or.inl waits.2.1
      · exact waits.elim
  | unheard reply answers waits =>
      unfold WriteDialogue.Unheard at waits
      split at waits
      · exact Or.inl waits.1
      · exact Or.inl waits.1
      · exact Or.inl waits.1
      · exact Or.inl waits.1
      · exact Or.inr ⟨waits.2.2, waits.2.1⟩
      · exact Or.inl waits.1
      · exact Or.inl waits.1
      · exact waits.elim
  | settled quiet rests =>
      unfold WriteDialogue.Settled at rests
      split at rests
      · exact Or.inl rests.1
      · exact Or.inr ⟨rests.2.2, rests.2.1⟩
      · exact Or.inl rests.1
      · exact rests.elim

theorem WriteDialogue.Lockstep.closed {dialogue : WriteDialogue} (lockstep : dialogue.Lockstep)
    {outcome : WriteOutcome} (closed : dialogue.writer = .closed outcome) :
    (dialogue.requests = [] → dialogue.connection.phase = .returned) ∧
      outcome.Tells dialogue.committed := by
  cases lockstep with
  | unserved msg proper asks waits =>
      simp only [WriteDialogue.Unserved, closed] at waits
      cases outcome with
      | aborted => exact ⟨fun served => (nomatch served.symm.trans asks.1), waits.2.1⟩
      | _ => exact waits.elim
  | unheard reply answers waits =>
      unfold WriteDialogue.Unheard at waits
      split at waits
      · rename_i writer
        exact nomatch closed.symm.trans writer
      · rename_i writer
        exact nomatch closed.symm.trans writer
      · rename_i writer
        exact nomatch closed.symm.trans writer
      · rename_i writer
        exact nomatch closed.symm.trans writer
      · rename_i writer
        exact nomatch closed.symm.trans writer
      · rename_i writer
        exact nomatch closed.symm.trans writer
      · rename_i writer
        obtain rfl : outcome = .aborted := WriterPhase.closed.inj (closed.symm.trans writer)
        exact ⟨fun _ => waits.2, waits.1⟩
      · exact waits.elim
  | settled quiet rests =>
      simp only [WriteDialogue.Settled, closed] at rests
      cases outcome with
      | saved =>
          refine ⟨fun _ => rests.2.2, ?_⟩
          rw [WriteOutcome.Tells, rests.2.1]
          exact rests.1
      | refused => exact ⟨fun _ => rests.2, rests.1⟩
      | _ => exact rests.elim

theorem WriteDialogue.Lockstep.orderly {dialogue : WriteDialogue} (lockstep : dialogue.Lockstep)
    (inv : dialogue.connection.Inv) (command : WriteCommand) : dialogue.Orderly command := by
  constructor
  · exact lockstep.single
  · intro waits whole unheard input
    exact lockstep.answered waits whole unheard input
  · intro waits stays unheard
    obtain ⟨reply, rest, replies⟩ := List.exists_cons_of_ne_nil unheard
    simp only [WriteDialogue.step, if_pos (And.intro waits stays), replies]
    exact (lockstep.received waits replies).2
  · intro session found
    rcases lockstep.committed with none_ | ⟨_, same⟩
    · exact nomatch found.symm.trans none_
    · exact same.symm.trans found
  · intro outcome closed
    exact (lockstep.closed closed).2
  · intro outcome closed served
    have held := inv.held
    rw [(lockstep.closed closed).1 served] at held
    exact held

/-- Whatever the client types and wherever the connection breaks, the dialogue stays orderly. -/
theorem write_dialogue_orderly (command : WriteCommand) (now : Int) (events : List DialogueEvent) :
    (run (WriteDialogue.step command) (WriteDialogue.start command now) events).Orderly command := by
  have lockstep := (WriteDialogue.start_lockstep command now).run command events
  have inv := @WriteDialogue.inv_run (WriteDialogue.start command now) WriteConnection.start_inv command
    events
  exact lockstep.orderly inv command

def doneLine : PromptLine := ⟨⟨lit "etirw" ++ [newline], by decide⟩, by decide⟩

def exampleServed : DialogueEvent := .served ⟨editInput, fun _ => false⟩

example :
    let command : WriteCommand := ⟨lit "notes", lit "0", lit "ann", by decide, by decide, by decide⟩
    let dialogue := run (WriteDialogue.step command) (WriteDialogue.start command 7)
      [exampleServed, .received, .typed shortLine 7, exampleServed, .received, .typed doneLine 8,
        exampleServed, .received]
    dialogue.writer = .closed .saved ∧
      dialogue.committed.map (·.entry.words) = some [lit "all", lit "good"] := by
  decide +kernel

end SharedFileSystem
