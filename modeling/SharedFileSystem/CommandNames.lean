import SharedFileSystem.AclCodec
import SharedFileSystem.Replies

/-!
A file name as CREATE sends it and as the commands with a second argument send it: from the line that
the user types, over the message, to what the handler of the name server is given.
-/

namespace SharedFileSystem

open ByteText

structure ArgToken where
  bytes : Bytes
  nonempty : bytes ≠ []
  short : bytes.length ≤ argBytes
  plain : ∀ c ∈ bytes, isSpace c = false ∧ c ≠ 0
  noFlag : bytes.head? ≠ some minus

inductive NamedCommand where
  | write
  | move
  | remaccess
  | checkpoint
  | viewcheckpoint
  | revert
  | requestaccess
deriving DecidableEq, Repr

def NamedCommand.word : NamedCommand → Bytes
  | .write => lit "WRITE"
  | .move => lit "MOVE"
  | .remaccess => lit "REMACCESS"
  | .checkpoint => lit "CHECKPOINT"
  | .viewcheckpoint => lit "VIEWCHECKPOINT"
  | .revert => lit "REVERT"
  | .requestaccess => lit "REQUESTACCESS"

def typedLine (word : Bytes) (args : List ArgToken) : Bytes :=
  word ++ args.flatMap (fun arg => space :: arg.bytes) ++ [newline]

-- the message that `recv_line` and `proto_parse_line` make of the line of the client
def sentMessage (line username : Bytes) (now : Int) : Option Message :=
  parsedLine (recvLine (protoFormatLine
    (formatCommandMessage (parseCommand line) username now) maxLine).1 maxLine)

inductive SecondArg where
  | text (value : Bytes)
  | index (value : Int)
deriving DecidableEq, Repr

def NamedCommand.second (command : NamedCommand) (value : Bytes) : SecondArg :=
  match command with
  | .write => .index (atoiInt value)
  | _ => .text value

def NamedCommand.room : NamedCommand → Nat
  | .write => argBytes
  | .move => 511
  | .requestaccess => 7
  | _ => 63

def NamedCommand.nmCommand : NamedCommand → NmCommand
  | .write => .write
  | .move => .move
  | .remaccess => .remaccess
  | .checkpoint => .checkpoint
  | .viewcheckpoint => .viewcheckpoint
  | .revert => .revert
  | .requestaccess => .requestaccess

def NamedCommand.received (payload : Bytes) : NamedCommand → Option (Bytes × SecondArg)
  | .write => some ((writeRequest payload).1, .index (writeRequest payload).2)
  | .move => some ((moveNames payload).1, .text (moveNames payload).2)
  | .remaccess => some ((remaccessChange payload).filename, .text (remaccessChange payload).target)
  | .requestaccess => match cutField payload with
    | none => none
    | some (filename, type) =>
        if 256 ≤ filename.length then none else some (filename, .text (type.take 7))
  | .checkpoint | .viewcheckpoint | .revert => match cutField payload with
    | none => none
    | some (filename, tag) => some (filename.take 255, .text (tag.take 63))

def namesReceived (command : NamedCommand) (msg : Message) : Option (Bytes × SecondArg) :=
  if commandOf msg.type = some command.nmCommand then command.received msg.payload else none

def nameCreated (msg : Message) : Option Bytes :=
  if commandOf msg.type = some .create then some (msg.payload.take 255) else none

def World.handleNames (world : World) (username filename : Bytes) :
    NamedCommand → SecondArg → List Bytes
  | .write, _ => world.handleWrite username filename
  | .checkpoint, .text tag => world.handleCheckpoint username filename tag
  | .viewcheckpoint, .text tag => world.handleViewcheckpoint username filename tag
  | .revert, .text tag => world.handleRevertCheckpoint username filename tag
  | .move, .text folder => world.handleMove username filename folder
  | .remaccess, .text target =>
      world.handleAccess username ⟨.remove, [], filename, target⟩ (lit "Access removed successfully!")
  | .requestaccess, .text type => world.handleRequestaccess username (filename ++ pipe :: type)
  | _, .index _ => []

def NamesAgree (command : NamedCommand) (name second : ArgToken) (username : Bytes) (now : Int) :
    Prop :=
  ∃ filename, (sentMessage (typedLine (lit "CREATE") [name]) username now).bind nameCreated =
      some filename ∧
    (sentMessage (typedLine command.word [name, second]) username now).bind (namesReceived command) =
      some (filename, command.second second.bytes)

theorem cutField_free {text front rest : Bytes} (cut : cutField text = some (front, rest)) :
    pipe ∉ front := by
  unfold cutField at cut
  split at cut
  · simp only [Option.some.injEq, Prod.mk.injEq] at cut
    intro inside
    rw [← cut.1] at inside
    simpa using List.mem_takeWhile_imp inside
  · cases cut

theorem remaccessChange_names (payload : Bytes) : remaccessChange payload =
    ⟨.remove, [], (remaccessChange payload).filename, (remaccessChange payload).target⟩ := by
  unfold remaccessChange
  split <;> rfl

theorem handleRequestaccess_names (world : World) (username : Bytes) {payload filename type : Bytes}
    (cut : cutField payload = some (filename, type)) :
    world.handleRequestaccess username payload =
      world.handleRequestaccess username (filename ++ pipe :: type.take 7) := by
  have again := cutField_append (cutField_free cut) (type.take 7)
  have same : (type.take 7).take 7 = type.take 7 := by simp
  unfold World.handleRequestaccess
  simp only [cut, again, same]

theorem handleMessage_names {world : World} {command : NamedCommand} {msg : Message} {filename : Bytes}
    {second : SecondArg} (received : namesReceived command msg = some (filename, second)) :
    handleMessage world msg = world.handleNames msg.username filename command second := by
  unfold namesReceived at received
  split at received
  · rename_i dispatched
    have tagged (handler : Bytes → Bytes → List Bytes)
        (found : (match cutField msg.payload with
          | none => none
          | some (filename, tag) => some (filename.take 255, SecondArg.text (tag.take 63))) =
            some (filename, second)) :
        ∃ tag, second = .text tag ∧ withTag msg.payload handler = handler filename tag := by
      unfold withTag
      cases cut : cutField msg.payload with
      | none => simp [cut] at found
      | some parts =>
          simp only [cut, Option.some.injEq, Prod.mk.injEq] at found
          obtain ⟨rfl, rfl⟩ := found
          exact ⟨_, rfl, rfl⟩
    unfold handleMessage
    rw [dispatched]
    cases command with
    | write | move =>
        simp only [NamedCommand.received, Option.some.injEq, Prod.mk.injEq] at received
        obtain ⟨rfl, rfl⟩ := received
        rfl
    | remaccess =>
        simp only [NamedCommand.received, Option.some.injEq, Prod.mk.injEq] at received
        obtain ⟨rfl, rfl⟩ := received
        have change := remaccessChange_names msg.payload
        exact congrArg (world.handleAccess msg.username · _) change
    | checkpoint =>
        obtain ⟨tag, rfl, called⟩ := tagged (world.handleCheckpoint msg.username) received
        exact called
    | viewcheckpoint =>
        obtain ⟨tag, rfl, called⟩ := tagged (world.handleViewcheckpoint msg.username) received
        exact called
    | revert =>
        obtain ⟨tag, rfl, called⟩ := tagged (world.handleRevertCheckpoint msg.username) received
        exact called
    | requestaccess =>
        simp only [NamedCommand.received] at received
        split at received
        · cases received
        · rename_i cut
          split at received
          · cases received
          · simp only [Option.some.injEq, Prod.mk.injEq] at received
            obtain ⟨rfl, rfl⟩ := received
            exact handleRequestaccess_names world msg.username cut
  · cases received

theorem ArgToken.byte (arg : ArgToken) {c : UInt8} (member : c ∈ arg.bytes) :
    isBlank c = false ∧ isLineEnd c = false ∧ c ≠ 0 := by
  obtain ⟨notSpace, notNul⟩ := arg.plain c member
  simp only [isSpace, Bool.or_eq_false_iff, decide_eq_false_iff_not, Bool.and_eq_false_iff,
    UInt8.le_iff_toNat_le, ← UInt8.toNat_inj] at notSpace
  have numbers : (32 : UInt8).toNat = 32 ∧ (9 : UInt8).toNat = 9 ∧ (13 : UInt8).toNat = 13 := by decide
  refine ⟨?_, ?_, notNul⟩
  · simp only [isBlank, Bool.or_eq_false_iff, decide_eq_false_iff_not, ← UInt8.toNat_inj, space]
    omega
  · simp only [isLineEnd, Bool.or_eq_false_iff, decide_eq_false_iff_not, ← UInt8.toNat_inj, newline,
      carriageReturn]
    have ten : (10 : UInt8).toNat = 10 := by decide
    omega

structure CommandWord (word : Bytes) : Prop where
  nonempty : word ≠ []
  short : word.length ≤ 31
  letters : ∀ c ∈ word, 65 ≤ c ∧ c ≤ 90

instance (word : Bytes) : Decidable (CommandWord word) :=
  decidable_of_iff (word ≠ [] ∧ word.length ≤ 31 ∧ ∀ c ∈ word, 65 ≤ c ∧ c ≤ 90)
    ⟨fun ⟨nonempty, short, letters⟩ => ⟨nonempty, short, letters⟩,
      fun proper => ⟨proper.nonempty, proper.short, proper.letters⟩⟩

theorem NamedCommand.word_proper (command : NamedCommand) : CommandWord command.word := by
  cases command <;> decide +kernel

theorem typed_tokens {word : Bytes} (nonempty : word ≠ []) (plain : ∀ c ∈ word, isBlank c = false)
    (args : List ArgToken) :
    tokens isBlank (word ++ args.flatMap fun arg => space :: arg.bytes) =
      word :: args.map ArgToken.bytes := by
  induction args generalizing word with
  | nil => simpa using tokens_last isBlank word nonempty plain
  | cons arg args ih =>
      have rest := ih arg.nonempty fun c member => (arg.byte member).1
      rw [List.flatMap_cons, List.cons_append, tokens_cons isBlank word _ space nonempty plain rfl, rest]
      rfl

theorem foldl_addToken_args (args : List ArgToken) (command : ParsedCommand) :
    (args.map ArgToken.bytes).foldl ParsedCommand.addToken command =
      { command with args := command.args ++ args.map ArgToken.bytes } := by
  induction args generalizing command with
  | nil => simp
  | cons arg args ih =>
      have whole : arg.bytes.take argBytes = arg.bytes := List.take_of_length_le arg.short
      rw [List.map_cons, List.foldl_cons, ParsedCommand.addToken, if_neg arg.noFlag, whole, ih]
      simp

theorem CommandWord.byte {word : Bytes} (proper : CommandWord word) {c : UInt8} (member : c ∈ word) :
    isBlank c = false ∧ isLineEnd c = false ∧ c ≠ 0 ∧ c ≠ pipe ∧ upperByte c = c := by
  have letter := proper.letters c member
  simp only [UInt8.le_iff_toNat_le] at letter
  have numbers : (65 : UInt8).toNat = 65 ∧ (90 : UInt8).toNat = 90 ∧ (97 : UInt8).toNat = 97 ∧
      (32 : UInt8).toNat = 32 ∧ (9 : UInt8).toNat = 9 ∧ (10 : UInt8).toNat = 10 ∧
      (13 : UInt8).toNat = 13 ∧ (124 : UInt8).toNat = 124 ∧ (0 : UInt8).toNat = 0 := by decide
  refine ⟨?_, ?_, ?_, ?_, ?_⟩
  · simp only [isBlank, Bool.or_eq_false_iff, decide_eq_false_iff_not, ← UInt8.toNat_inj, space]
    omega
  · simp only [isLineEnd, Bool.or_eq_false_iff, decide_eq_false_iff_not, ← UInt8.toNat_inj, newline,
      carriageReturn]
    omega
  · simp only [ne_eq, ← UInt8.toNat_inj]
    omega
  · simp only [ne_eq, ← UInt8.toNat_inj, pipe]
    omega
  · unfold upperByte
    refine if_neg ?_
    simp only [Bool.and_eq_true, decide_eq_true_eq, UInt8.le_iff_toNat_le]
    omega

theorem trimLineEnd_typed {body : Bytes} (plain : ∀ c ∈ body, isLineEnd c = false) :
    trimLineEnd (body ++ [newline]) = body := by
  have kept : body.reverse.dropWhile isLineEnd = body.reverse := by
    cases shape : body.reverse with
    | nil => rfl
    | cons c rest =>
        have member : c ∈ body := List.mem_reverse.mp (by rw [shape]; simp)
        exact List.dropWhile_cons_of_neg (by simp [plain c member])
  rw [trimLineEnd, List.reverse_append, List.reverse_singleton, List.singleton_append,
    List.dropWhile_cons_of_pos (by decide), kept, List.reverse_reverse]

theorem parseCommand_typed {word : Bytes} (proper : CommandWord word) (args : List ArgToken)
    (few : args.length < maxArgs) :
    parseCommand (typedLine word args) = ⟨word, args.map ArgToken.bytes, false, []⟩ := by
  have body : ∀ c ∈ word ++ args.flatMap fun arg => space :: arg.bytes,
      isLineEnd c = false ∧ c ≠ 0 := by
    intro c member
    rcases List.mem_append.mp member with first | later
    · exact ⟨(proper.byte first).2.1, (proper.byte first).2.2.1⟩
    · obtain ⟨arg, _, inside⟩ := List.mem_flatMap.mp later
      rcases List.mem_cons.mp inside with rfl | inside
      · decide
      · exact (arg.byte inside).2
  have free : (0 : UInt8) ∉ typedLine word args := by
    intro member
    rcases List.mem_append.mp member with inside | last
    · exact (body 0 inside).2 rfl
    · exact absurd (List.mem_singleton.mp last) (by decide)
  have words := typed_tokens proper.nonempty (fun c member => (proper.byte member).1) args
  have upper : (word.take 31).map upperByte = word := by
    rw [List.take_of_length_le proper.short, List.map_congr_left (g := id)
      fun c member => (proper.byte member).2.2.2.2]
    exact List.map_id word
  have count : (word :: args.map ArgToken.bytes).length ≤ maxArgs := by
    rw [List.length_cons, List.length_map]
    exact few
  unfold parseCommand
  rw [cstr_of_free free, typedLine, trimLineEnd_typed fun c member => (body c member).1, words,
    List.take_of_length_le count]
  dsimp only
  rw [foldl_addToken_args, upper]
  rfl

theorem ArgToken.lineText (arg : ArgToken) : LineText arg.bytes := by
  refine ⟨fun member => ?_, fun member => ((arg.byte member).2.2) rfl⟩
  have notEnd := (arg.byte member).2.1
  exact absurd notEnd (by decide)

theorem CommandWord.wireField {word : Bytes} (proper : CommandWord word) : WireField 32 word := by
  refine ⟨Nat.lt_succ_of_le proper.short, ?_, ?_, ?_⟩
  · exact fun member => (proper.byte member).2.2.2.1 rfl
  · exact fun member => absurd (proper.byte member).2.1 (by decide)
  · exact fun member => (proper.byte member).2.2.1 rfl

theorem sentMessage_typed {word : Bytes} (proper : CommandWord word) (own : messageType word = word)
    (args : List ArgToken) (few : args.length < maxArgs) (username : UserName) (now : Int)
    (payload : CommandText (commandPayload ⟨word, args.map ArgToken.bytes, false, []⟩)) :
    ∃ msg, sentMessage (typedLine word args) username.bytes now = some msg ∧ msg.type = word ∧
      msg.payload = commandPayload ⟨word, args.map ArgToken.bytes, false, []⟩ := by
  have parsed := parseCommand_typed proper args few
  have typed : (formatCommandMessage (parseCommand (typedLine word args)) username.bytes now).type =
      word := by
    rw [parsed, formatCommandMessage, own]
    exact List.take_of_length_le proper.short
  refine ⟨formatCommandMessage (parseCommand (typedLine word args)) username.bytes now, ?_, typed, ?_⟩
  · have user : (username.bytes.take 63) = username.bytes := List.take_of_length_le username.short
    have wellFormed : (formatCommandMessage (parseCommand (typedLine word args)) username.bytes
        now).WellFormed := by
      rw [parsed] at typed ⊢
      refine ⟨?_, showInt_wireField now, ?_, (by decide : WireField 16 (lit "CLIENT")), ?_, payload.line.oneLine, payload.line.noNul⟩
      · rw [typed]
        exact proper.wireField
      · rw [formatCommandMessage, user]
        exact ⟨Nat.lt_succ_of_le username.short, username.noPipe, username.oneLine, username.noNul⟩
      · exact Nat.lt_of_le_of_lt payload.short (by decide)
    rw [sentMessage, parsedLine, recvLine_protoFormatLine wellFormed wellFormed.line_length]
  · rw [parsed]
    rfl

theorem cutField_early {name : Bytes} (inside : pipe ∈ name) (second : Bytes) : ∃ front rest,
    cutField (name ++ pipe :: second) = some (front, rest) ∧ front.length < name.length := by
  obtain ⟨front, rest, rfl, free⟩ := List.eq_append_cons_of_mem inside
  refine ⟨front, rest ++ pipe :: second, ?_, by simp⟩
  rw [List.append_assoc, List.cons_append]
  exact cutField_append free _

theorem NamedCommand.received_cut (command : NamedCommand) {payload front rest : Bytes}
    (cut : cutField payload = some (front, rest)) (short : payload.length ≤ 511)
    (frontShort : front.length ≤ 255) : ∃ value, command.received payload = some (front, value) ∧
      (rest.length ≤ command.room → value = command.second rest) := by
  have whole : payload.take 511 = payload := List.take_of_length_le short
  have name : front.take 255 = front := List.take_of_length_le frontShort
  have tag (fits : rest.length ≤ 63) : SecondArg.text (rest.take 63) = .text rest := by
    rw [List.take_of_length_le fits]
  cases command with
  | write =>
      unfold cutField at cut
      split at cut
      · simp only [Option.some.injEq, Prod.mk.injEq] at cut
        obtain ⟨rfl, rfl⟩ := cut
        refine ⟨_, ?_, fun _ => rfl⟩
        simp only [NamedCommand.received, writeRequest, whole, name]
        rfl
      · cases cut
  | move =>
      refine ⟨_, ?_, fun fits => congrArg SecondArg.text (boundedField_of_lt (Nat.lt_succ_of_le fits))⟩
      simp only [NamedCommand.received, moveNames, cut]
      rw [boundedField_of_lt (by omega)]
      rfl
  | remaccess =>
      refine ⟨_, ?_, fun fits => congrArg SecondArg.text (boundedField_of_lt (Nat.lt_succ_of_le fits))⟩
      simp only [NamedCommand.received, remaccessChange, whole, cut]
      rw [boundedField_of_lt (by omega)]
      rfl
  | requestaccess =>
      refine ⟨_, ?_, fun fits => congrArg SecondArg.text (List.take_of_length_le fits)⟩
      simp only [NamedCommand.received, cut]
      rw [if_neg (by omega)]
      rfl
  | checkpoint | viewcheckpoint | revert =>
      refine ⟨_, ?_, tag⟩
      simp only [NamedCommand.received, cut, name]

theorem commandPayload_pair (command : NamedCommand) (name second : ArgToken) :
    commandPayload ⟨command.word, [name.bytes, second.bytes], false, []⟩ =
      name.bytes ++ pipe :: second.bytes := by
  have first := name.short
  have last := second.short
  have whole : bothArgs [name.bytes, second.bytes] = name.bytes ++ pipe :: second.bytes := by
    refine List.take_of_length_le ?_
    rw [argBytes] at first last
    simp only [List.length_append, List.length_cons]
    omega
  rw [← whole]
  cases command <;> rfl

theorem nameCreated_typed (name : ArgToken) (username : UserName) (now : Int) :
    (sentMessage (typedLine (lit "CREATE") [name]) username.bytes now).bind nameCreated =
      some name.bytes := by
  have short := name.short
  rw [argBytes] at short
  have payload : commandPayload ⟨lit "CREATE", [name].map ArgToken.bytes, false, []⟩ = name.bytes :=
    List.take_of_length_le (by omega)
  obtain ⟨msg, sent, type, carried⟩ := sentMessage_typed (by decide +kernel : CommandWord (lit "CREATE"))
    (by decide) [name] (by simp [maxArgs]) username now (by
      rw [payload]
      exact ⟨name.lineText, by omega⟩)
  have created : commandOf msg.type = some .create := by rw [type]; decide
  rw [sent, Option.bind_some, nameCreated, if_pos created, carried, payload,
    List.take_of_length_le short]

/-- A command with two names gets the name that CREATE gets exactly when the name has no separator. -/
theorem names_agree_iff (command : NamedCommand) (name second : ArgToken)
    (fits : second.bytes.length ≤ command.room) (username : UserName) (now : Int) :
    NamesAgree command name second username.bytes now ↔ pipe ∉ name.bytes := by
  have nameShort := name.short
  have secondShort := second.short
  rw [argBytes] at nameShort secondShort
  have payload := commandPayload_pair command name second
  have joined : (name.bytes ++ pipe :: second.bytes).length ≤ 511 := by
    simp only [List.length_append, List.length_cons]
    omega
  obtain ⟨msg, sent, type, carried⟩ := sentMessage_typed command.word_proper (by cases command <;> decide)
    [name, second] (by simp [maxArgs]) username now (by
      rw [List.map_cons, List.map_cons, List.map_nil, payload]
      exact ⟨name.lineText.separated second.lineText, by omega⟩)
  have dispatched : commandOf msg.type = some command.nmCommand := by
    rw [type]
    cases command <;> decide
  have received : (sentMessage (typedLine command.word [name, second]) username.bytes now).bind
      (namesReceived command) = command.received (name.bytes ++ pipe :: second.bytes) := by
    rw [sent, Option.bind_some, namesReceived, if_pos dispatched, carried]
    exact congrArg command.received payload
  rw [NamesAgree, nameCreated_typed, received]
  by_cases inside : pipe ∈ name.bytes
  · obtain ⟨front, rest, cut, shorter⟩ := cutField_early inside second.bytes
    obtain ⟨value, found, _⟩ := command.received_cut cut joined (by omega)
    refine iff_of_false ?_ (not_not_intro inside)
    rintro ⟨filename, created, agrees⟩
    rw [found] at agrees
    simp only [Option.some.injEq, Prod.mk.injEq] at created agrees
    have same := congrArg List.length (agrees.1.trans created.symm)
    omega
  · obtain ⟨value, found, whole⟩ :=
      command.received_cut (cutField_append inside second.bytes) joined nameShort
    rw [found, whole fits]
    exact iff_of_true ⟨_, rfl, rfl⟩ inside

def plainName : ArgToken := ⟨lit "notes.txt", by decide, by decide, by decide +kernel, by decide⟩

def separatedName : ArgToken := ⟨lit "a|b", by decide, by decide, by decide +kernel, by decide⟩

def tagToken : ArgToken := ⟨lit "v1", by decide, by decide, by decide +kernel, by decide⟩

def typingUser : UserName :=
  ⟨lit "alice", aliceName.nonempty, aliceName.short, aliceName.noPipe, aliceName.oneLine, aliceName.noNul⟩

theorem names_agree_iff_plain :
    NamesAgree .checkpoint plainName tagToken typingUser.bytes 5 ↔ pipe ∉ plainName.bytes :=
  names_agree_iff .checkpoint plainName tagToken (by decide) typingUser 5

theorem separated_name_splits :
    (sentMessage (typedLine (lit "CREATE") [separatedName]) typingUser.bytes 5).bind nameCreated =
        some (lit "a|b") ∧
      (sentMessage (typedLine (lit "CHECKPOINT") [separatedName, tagToken]) typingUser.bytes 5).bind
        (namesReceived .checkpoint) = some (lit "a", .text (lit "b|v1")) ∧
      ¬NamesAgree .checkpoint separatedName tagToken typingUser.bytes 5 := by
  have created : (sentMessage (typedLine (lit "CREATE") [separatedName]) typingUser.bytes 5).bind
      nameCreated = some (lit "a|b") := by decide +kernel
  have received : (sentMessage (typedLine (lit "CHECKPOINT") [separatedName, tagToken])
      typingUser.bytes 5).bind (namesReceived .checkpoint) = some (lit "a", .text (lit "b|v1")) := by
    decide +kernel
  refine ⟨created, received, ?_⟩
  rintro ⟨filename, first, second⟩
  have same := (Option.some.inj (received.symm.trans second))
  have other := Option.some.inj (created.symm.trans first)
  have clash := (Prod.mk.inj same).1.trans other.symm
  exact absurd clash (by decide)

end SharedFileSystem
