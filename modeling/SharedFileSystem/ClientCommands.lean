import SharedFileSystem.ContentLines

/-!
The commands of the interactive client (`client/commands.c` and the loop of `client/main.c`): how a
line that the user typed becomes a message to the name server.
-/

namespace SharedFileSystem

open ByteText

def maxArgs : Nat := 32

def argBytes : Nat := 255

def minus : UInt8 := 45

def isBlank (c : UInt8) : Bool := c = space || c = 9

def isLineEnd (c : UInt8) : Bool := c = newline || c = carriageReturn

def upperByte (c : UInt8) : UInt8 := if 97 ≤ c && c ≤ 122 then c - 32 else c

structure ParsedCommand where
  cmd : Bytes
  args : List Bytes
  hasFlags : Bool
  flags : Bytes
deriving DecidableEq, Repr

def ParsedCommand.addToken (command : ParsedCommand) (token : Bytes) : ParsedCommand :=
  if token.head? = some minus then
    if command.flags.length + (token.drop 1).length < 16 then
      { command with flags := command.flags ++ token.drop 1, hasFlags := true }
    else command
  else { command with args := command.args ++ [token.take argBytes] }

def trimLineEnd (line : Bytes) : Bytes := (line.reverse.dropWhile isLineEnd).reverse

def parseCommand (line : Bytes) : ParsedCommand :=
  match (tokens isBlank (trimLineEnd (cstr line))).take maxArgs with
  | [] => ⟨[], [], false, []⟩
  | name :: rest =>
      rest.foldl ParsedCommand.addToken ⟨(name.take 31).map upperByte, [], false, []⟩

def neededArgs (cmd : Bytes) : Nat :=
  if cmd = lit "CHECKPOINT" ∨ cmd = lit "VIEWCHECKPOINT" ∨ cmd = lit "REVERT" then 2
  else if cmd = lit "LISTCHECKPOINTS" then 1
  else if cmd = lit "CREATE" ∨ cmd = lit "DELETE" ∨ cmd = lit "READ" ∨ cmd = lit "INFO" ∨
      cmd = lit "STREAM" ∨ cmd = lit "UNDO" ∨ cmd = lit "EXEC" ∨ cmd = lit "CREATEFOLDER" ∨
      cmd = lit "VIEWFOLDER" then 1
  else if cmd = lit "WRITE" ∨ cmd = lit "ADDACCESS" ∨ cmd = lit "REMACCESS" ∨ cmd = lit "MOVE"
    then 2
  else 0

def ParsedCommand.valid (command : ParsedCommand) : Bool :=
  decide (neededArgs command.cmd ≤ command.args.length) &&
    (decide (command.cmd ≠ lit "ADDACCESS") || command.hasFlags)

def messageType (cmd : Bytes) : Bytes :=
  if cmd = lit "RACC" then lit "REQUESTACCESS"
  else if cmd = lit "VIEWACCR" then lit "VIEWACCESSREQUESTS"
  else if cmd = lit "APPROVEACCR" then lit "APPROVEACCESSREQUEST"
  else if cmd = lit "DISACCR" then lit "DISAPPROVEACCESSREQUEST"
  else cmd

def firstArg (args : List Bytes) : Bytes :=
  match args with
  | [] => []
  | first :: _ => first.take 1023

def bothArgs (args : List Bytes) : Bytes :=
  match args with
  | first :: second :: _ => (first ++ pipe :: second).take 1023
  | _ => []

def commandPayload (command : ParsedCommand) : Bytes :=
  if command.cmd = lit "VIEW" then
    if command.hasFlags ∧ command.flags ≠ [] then (lit "flags=" ++ command.flags).take 1023 else []
  else if command.cmd = lit "ADDACCESS" then
    match command.args with
    | first :: second :: _ =>
        let flag := if command.hasFlags ∧ command.flags ≠ [] then command.flags else lit "R"
        (flag ++ pipe :: (first ++ pipe :: second)).take 1023
    | _ => []
  else if command.cmd = lit "WRITE" then
    if 2 ≤ command.args.length then bothArgs command.args else firstArg command.args
  else if command.cmd = lit "REMACCESS" ∨ command.cmd = lit "MOVE" ∨
      command.cmd = lit "CHECKPOINT" ∨ command.cmd = lit "VIEWCHECKPOINT" ∨
      command.cmd = lit "REVERT" ∨ messageType command.cmd = lit "REQUESTACCESS" then
    bothArgs command.args
  else firstArg command.args

def formatCommandMessage (command : ParsedCommand) (username : Bytes) (now : Int) : Message :=
  { type := (messageType command.cmd).take 31
    id := (showInt now).take 63
    username := username.take 63
    role := lit "CLIENT"
    payload := commandPayload command }

structure LineText (text : Bytes) : Prop where
  oneLine : newline ∉ text
  noNul : 0 ∉ text

instance (text : Bytes) : Decidable (LineText text) :=
  decidable_of_iff (newline ∉ text ∧ 0 ∉ text)
    ⟨fun ⟨oneLine, noNul⟩ => ⟨oneLine, noNul⟩, fun proper => ⟨proper.oneLine, proper.noNul⟩⟩

theorem LineText.subset {text whole : Bytes} (proper : LineText whole)
    (inside : ∀ c ∈ text, c ∈ whole) : LineText text :=
  ⟨fun member => proper.oneLine (inside newline member),
    fun member => proper.noNul (inside 0 member)⟩

theorem LineText.take {text : Bytes} (proper : LineText text) (count : Nat) :
    LineText (text.take count) :=
  proper.subset fun _ member => List.mem_of_mem_take member

theorem LineText.append {front rest : Bytes} (first : LineText front) (second : LineText rest) :
    LineText (front ++ rest) :=
  ⟨by simp [first.oneLine, second.oneLine], by simp [first.noNul, second.noNul]⟩

theorem LineText.separated {front rest : Bytes} (first : LineText front) (second : LineText rest) :
    LineText (front ++ pipe :: rest) :=
  first.append ((by decide : LineText [pipe]).append second)

theorem WireField.lineText {size : Nat} {field : Bytes} (proper : WireField size field) :
    LineText field :=
  ⟨proper.oneLine, proper.noNul⟩

theorem Message.WellFormed.payloadText {msg : Message} (proper : msg.WellFormed) :
    LineText msg.payload :=
  ⟨proper.payloadLine, proper.payloadNul⟩

structure CommandLine where
  text : Bytes
  oneLine : newline ∉ text.dropLast

def CommandLine.tokens (line : CommandLine) : List Bytes :=
  ByteText.tokens isBlank (trimLineEnd (cstr line.text))

def CommandLine.NoPipe (line : CommandLine) : Prop := ∀ token ∈ line.tokens, pipe ∉ token

theorem trimLineEnd_sublist (text : Bytes) : (trimLineEnd text).Sublist text := by
  have shorter := (List.dropWhile_sublist isLineEnd (l := text.reverse)).reverse
  rw [List.reverse_reverse] at shorter
  exact shorter

theorem trimLineEnd_subset {text : Bytes} {c : UInt8} (member : c ∈ trimLineEnd text) :
    c ∈ text :=
  (trimLineEnd_sublist text).subset member

theorem trimLineEnd_oneLine {text : Bytes} (oneLine : newline ∉ text.dropLast) :
    newline ∉ trimLineEnd text := by
  rcases List.eq_nil_or_concat text with rfl | ⟨front, last, rfl⟩
  · exact fun member => List.not_mem_nil (trimLineEnd_subset member)
  · rw [List.concat_eq_append] at oneLine ⊢
    rw [List.dropLast_concat] at oneLine
    rw [trimLineEnd, List.reverse_append, List.reverse_singleton, List.singleton_append,
      List.mem_reverse, List.dropWhile_cons]
    split
    · intro member
      exact oneLine (List.mem_reverse.mp ((List.dropWhile_sublist _).subset member))
    · rename_i ordinary
      rw [List.mem_cons, not_or, List.mem_reverse]
      refine ⟨?_, oneLine⟩
      rintro rfl
      exact ordinary (by decide)

theorem CommandLine.lineText (line : CommandLine) : LineText (trimLineEnd (cstr line.text)) := by
  obtain ⟨after, whole⟩ : cstr line.text <+: line.text := List.takeWhile_prefix _
  constructor
  · refine trimLineEnd_oneLine ?_
    intro lineEnd
    refine line.oneLine ?_
    rw [← whole]
    rcases List.eq_nil_or_concat after with rfl | ⟨front, last, rfl⟩
    · rw [List.append_nil]
      exact lineEnd
    · rw [List.concat_eq_append, ← List.append_assoc, List.dropLast_concat, List.mem_append]
      exact Or.inl (List.dropLast_subset _ lineEnd)
  · intro nul
    exact cstr_free line.text (trimLineEnd_subset nul)

theorem CommandLine.token_lineText (line : CommandLine) {token : Bytes}
    (member : token ∈ line.tokens) : LineText token := by
  obtain ⟨_, inside⟩ := tokens_mem isBlank (trimLineEnd (cstr line.text)) token member
  exact line.lineText.subset fun c here => (inside c here).2

structure ParsedCommand.Proper (command : ParsedCommand) : Prop where
  cmd : WireField 32 command.cmd
  args : ∀ arg ∈ command.args, WireField 256 arg
  flags : LineText command.flags

theorem upperByte_eq {c special : UInt8} (letter : ¬(65 ≤ special ∧ special ≤ 90))
    (upper : upperByte c = special) : c = special := by
  unfold upperByte at upper
  split at upper
  · rename_i lower
    simp only [Bool.and_eq_true, decide_eq_true_eq, UInt8.le_iff_toNat_le] at lower letter
    have value := congrArg UInt8.toNat upper
    rw [UInt8.toNat_sub] at value
    simp at lower letter value
    omega
  · exact upper

theorem WireField.upper {name : Bytes} (text : LineText name) (free : pipe ∉ name) :
    WireField 32 ((name.take 31).map upperByte) := by
  have inside : ∀ special : UInt8, ¬(65 ≤ special ∧ special ≤ 90) →
      special ∈ (name.take 31).map upperByte → special ∈ name := by
    intro special letter member
    obtain ⟨c, here, upper⟩ := List.mem_map.mp member
    rw [← upperByte_eq letter upper]
    exact List.mem_of_mem_take here
  refine ⟨?_, ?_, ?_, ?_⟩
  · rw [List.length_map]
    exact Nat.lt_succ_of_le (List.length_take_le 31 name)
  · exact fun member => free (inside pipe (by decide) member)
  · exact fun member => text.oneLine (inside newline (by decide) member)
  · exact fun member => text.noNul (inside 0 (by decide) member)

theorem ParsedCommand.Proper.addToken {command : ParsedCommand} (proper : command.Proper)
    {token : Bytes} (text : LineText token) (free : pipe ∉ token) :
    (command.addToken token).Proper := by
  unfold ParsedCommand.addToken
  split
  · split
    · exact ⟨proper.cmd, proper.args, proper.flags.append
        (text.subset fun _ member => List.mem_of_mem_drop member)⟩
    · exact proper
  · refine ⟨proper.cmd, ?_, proper.flags⟩
    intro arg member
    rcases List.mem_append.mp member with earlier | new
    · exact proper.args arg earlier
    · rw [List.mem_singleton.mp new]
      have cut := text.take argBytes
      exact ⟨Nat.lt_succ_of_le (List.length_take_le argBytes token),
        fun pipeInside => free (List.mem_of_mem_take pipeInside), cut.oneLine, cut.noNul⟩

theorem foldl_addToken_proper {tokens : List Bytes}
    (plain : ∀ token ∈ tokens, LineText token ∧ pipe ∉ token) {command : ParsedCommand}
    (proper : command.Proper) : (tokens.foldl ParsedCommand.addToken command).Proper := by
  induction tokens generalizing command with
  | nil => exact proper
  | cons token tokens ih =>
      obtain ⟨text, free⟩ := plain token (by simp)
      exact ih (fun other member => plain other (by simp [member])) (proper.addToken text free)

theorem parseCommand_proper {line : CommandLine} (noPipe : line.NoPipe) :
    (parseCommand line.text).Proper := by
  have plain : ∀ token ∈ line.tokens.take maxArgs, LineText token ∧ pipe ∉ token := by
    intro token member
    have listed := List.mem_of_mem_take member
    exact ⟨line.token_lineText listed, noPipe token listed⟩
  unfold parseCommand
  rw [← CommandLine.tokens]
  split
  · exact ⟨by decide, by simp, by decide⟩
  · rename_i name rest same
    rw [same] at plain
    obtain ⟨text, free⟩ := plain name (by simp)
    refine foldl_addToken_proper (fun token member => plain token (by simp [member])) ?_
    exact ⟨WireField.upper text free, by simp, (by decide : LineText [])⟩

structure CommandText (text : Bytes) : Prop where
  line : LineText text
  short : text.length ≤ 1023

theorem LineText.cut {text : Bytes} (proper : LineText text) : CommandText (text.take 1023) :=
  ⟨proper.take 1023, List.length_take_le 1023 text⟩

theorem CommandText.nil : CommandText [] := ⟨by decide, by simp⟩

theorem firstArg_text {args : List Bytes} (proper : ∀ arg ∈ args, WireField 256 arg) :
    CommandText (firstArg args) := by
  cases args with
  | nil => exact .nil
  | cons first rest => exact (proper first (by simp)).lineText.cut

theorem bothArgs_text {args : List Bytes} (proper : ∀ arg ∈ args, WireField 256 arg) :
    CommandText (bothArgs args) := by
  unfold bothArgs
  split
  · rename_i first second rest
    exact ((proper first (by simp)).lineText.separated (proper second (by simp)).lineText).cut
  · exact .nil

theorem commandPayload_text {command : ParsedCommand} (proper : command.Proper) :
    CommandText (commandPayload command) := by
  have first := firstArg_text proper.args
  have both := bothArgs_text proper.args
  unfold commandPayload
  split
  · split
    · exact ((by decide : LineText (lit "flags=")).append proper.flags).cut
    · exact .nil
  · split
    · split
      · rename_i file user rest same
        have flag : LineText (if command.hasFlags = true ∧ command.flags ≠ [] then command.flags
            else lit "R") := by
          split
          · exact proper.flags
          · decide
        have fileText := (proper.args file (by simp [same])).lineText
        have userText := (proper.args user (by simp [same])).lineText
        exact (flag.separated (fileText.separated userText)).cut
      · exact .nil
    · split
      · split
        · exact both
        · exact first
      · split
        · exact both
        · exact first

theorem messageType_cases (cmd : Bytes) :
    messageType cmd = cmd ∨
      (messageType cmd ∈ [lit "REQUESTACCESS", lit "VIEWACCESSREQUESTS",
        lit "APPROVEACCESSREQUEST", lit "DISAPPROVEACCESSREQUEST"] ∧
        cmd ∈ [lit "RACC", lit "VIEWACCR", lit "APPROVEACCR", lit "DISACCR"]) := by
  unfold messageType
  split
  · rename_i same
    exact Or.inr ⟨by decide, by rw [same]; decide⟩
  · split
    · rename_i same
      exact Or.inr ⟨by decide, by rw [same]; decide⟩
    · split
      · rename_i same
        exact Or.inr ⟨by decide, by rw [same]; decide⟩
      · split
        · rename_i same
          exact Or.inr ⟨by decide, by rw [same]; decide⟩
        · exact Or.inl rfl

theorem messageType_wireField {cmd : Bytes} (proper : WireField 32 cmd) :
    WireField 32 (messageType cmd) := by
  rcases messageType_cases cmd with same | ⟨full, _⟩
  · rw [same]
    exact proper
  · exact (by decide : ∀ type ∈ [lit "REQUESTACCESS", lit "VIEWACCESSREQUESTS",
      lit "APPROVEACCESSREQUEST", lit "DISAPPROVEACCESSREQUEST"], WireField 32 type) _ full

theorem showInt_wireField (now : Int) : WireField 64 ((showInt now).take 63) := by
  have plain := showInt_plain now
  have noPipe := pipe_notMem_showInt now
  exact ⟨Nat.lt_succ_of_le (List.length_take_le 63 _),
    fun member => noPipe (List.mem_of_mem_take member),
    fun member => plain.1 (List.mem_of_mem_take member),
    fun member => plain.2.1 (List.mem_of_mem_take member)⟩

theorem formatCommandMessage_type {command : ParsedCommand} (proper : command.Proper)
    (username : Bytes) (now : Int) :
    (formatCommandMessage command username now).type = messageType command.cmd := by
  have short := (messageType_wireField proper.cmd).short
  exact List.take_of_length_le (by omega)

theorem formatCommandMessage_wellFormed {command : ParsedCommand} (proper : command.Proper)
    {username : Bytes} (user : WireField 64 username) (now : Int) :
    (formatCommandMessage command username now).WellFormed where
  type := by
    rw [formatCommandMessage_type proper]
    exact messageType_wireField proper.cmd
  id := showInt_wireField now
  username := by
    have short := user.short
    have whole : username.take 63 = username := List.take_of_length_le (by omega)
    rw [formatCommandMessage, whole]
    exact user
  role := (by decide : WireField 16 (lit "CLIENT"))
  payloadShort := Nat.lt_of_le_of_lt (commandPayload_text proper).short (by decide)
  payloadLine := (commandPayload_text proper).line.oneLine
  payloadNul := (commandPayload_text proper).line.noNul

end SharedFileSystem
