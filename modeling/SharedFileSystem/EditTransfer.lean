import Mathlib.Data.Nat.Digits.Lemmas
import SharedFileSystem.ClientCommands
import SharedFileSystem.Framing
import SharedFileSystem.Lib.Cuts
import SharedFileSystem.WriteConnection

/-!
An edit on its way: the line typed at the prompt of `perform_write_session` (`client/main.c`), the WRITE_EDIT
made of it, and the words that the storage server puts into the session.
-/

namespace SharedFileSystem

open ByteText

def maxCmdLine : Nat := 1024

structure PromptLine extends CommandLine where
  short : text.length < maxCmdLine

inductive PromptResult where
  | ignored
  | done
  | refused (problem : Bytes)
  | edit (wordIndex : Int) (content : Bytes)
deriving DecidableEq, Repr

def readPrompt (text : Bytes) : PromptResult :=
  let input := trimLineEnd (cstr text)
  if input = [] then .ignored
  -- `strcasecmp`
  else if input.map upperByte = lit "ETIRW" then .done
  else if space ∉ input then .refused (lit "Error: Provide '<word_index> <content>'")
  else
    let content := ((input.dropWhile (· ≠ space)).drop 1).dropWhile (· = space)
    if content = [] then .refused (lit "Error: Content cannot be empty")
    else .edit (atoiInt (input.takeWhile (· ≠ space))) content

def editMessage (wordIndex : Int) (content username : Bytes) (now : Int) : Message where
  type := lit "WRITE_EDIT"
  id := (showInt now).take 63
  username := username.take 63
  role := lit "CLIENT"
  payload := (showInt wordIndex ++ pipe :: content).take payloadMax

theorem PromptLine.edit_sublist {line : PromptLine} {wordIndex : Int} {content : Bytes}
    (typed : readPrompt line.text = .edit wordIndex content) :
    IsInt wordIndex ∧ content.Sublist (trimLineEnd (cstr line.text)) := by
  unfold readPrompt at typed
  dsimp only at typed
  split at typed
  · exact nomatch typed
  · split at typed
    · exact nomatch typed
    · split at typed
      · exact nomatch typed
      · split at typed
        · exact nomatch typed
        · obtain ⟨rfl, rfl⟩ := PromptResult.edit.inj typed
          refine ⟨atoiInt_isInt _, ?_⟩
          exact (List.dropWhile_sublist _).trans ((List.drop_sublist 1 _).trans (List.dropWhile_sublist _))

theorem PromptLine.edit_length {line : PromptLine} {wordIndex : Int} {content : Bytes}
    (typed : readPrompt line.text = .edit wordIndex content) : content.length < maxCmdLine := by
  obtain ⟨_, inside⟩ := PromptLine.edit_sublist typed
  have kept := (inside.trans (trimLineEnd_sublist _)).length_le
  have before : (cstr line.text).length ≤ line.text.length := (List.takeWhile_sublist _).length_le
  have short := line.short
  omega

theorem editMessage_payload {wordIndex : Int} (range : IsInt wordIndex) {content : Bytes}
    (short : content.length < maxCmdLine) (username : Bytes) (now : Int) :
    (editMessage wordIndex content username now).payload = showInt wordIndex ++ pipe :: content := by
  have digits := range.showInt_length
  rw [maxCmdLine] at short
  refine List.take_of_length_le ?_
  rw [List.length_append, List.length_cons, payloadMax]
  omega

theorem editMessage_wellFormed {line : PromptLine} {wordIndex : Int} {content : Bytes}
    (typed : readPrompt line.text = .edit wordIndex content) {username : Bytes}
    (user : WireField 64 username) (now : Int) :
    (editMessage wordIndex content username now).WellFormed := by
  obtain ⟨range, inside⟩ := PromptLine.edit_sublist typed
  have digits := range.showInt_length
  have short := PromptLine.edit_length typed
  have name : username.take 63 = username := List.take_of_length_le (Nat.le_of_lt_succ user.short)
  obtain ⟨noLine, noNul, _⟩ := showInt_plain wordIndex
  have text : LineText (showInt wordIndex ++ pipe :: content) :=
    LineText.separated ⟨noLine, noNul⟩ (line.lineText.subset fun _ member => inside.subset member)
  have payload := editMessage_payload range short username now
  rw [maxCmdLine] at short
  refine ⟨(by decide : WireField 32 (lit "WRITE_EDIT")), showInt_wireField now, ?_,
    (by decide : WireField 16 (lit "CLIENT")), ?_, ?_, ?_⟩
  · rw [editMessage, name]
    exact user
  · rw [payload, List.length_append, List.length_cons]
    omega
  · rw [payload]
    exact text.oneLine
  · rw [payload]
    exact text.noNul

theorem editPayload_message {wordIndex : Int} (range : IsInt wordIndex) (content : Bytes) :
    editPayload (showInt wordIndex ++ pipe :: content) =
      some (wordIndex, content.take (editBuffer - 2 - (showInt wordIndex).length)) := by
  have digits := range.showInt_length
  have room : editBuffer - 1 - (showInt wordIndex).length =
      editBuffer - 2 - (showInt wordIndex).length + 1 := by
    rw [editBuffer]
    omega
  have copy : (showInt wordIndex ++ pipe :: content).take (editBuffer - 1) = showInt wordIndex ++
      pipe :: content.take (editBuffer - 2 - (showInt wordIndex).length) := by
    rw [List.take_append, List.take_of_length_le (by rw [editBuffer]; omega), room, List.take_succ_cons]
  have free := pipe_notMem_showInt wordIndex
  have number : atoiInt (showInt wordIndex) = wordIndex := by
    simpa using range.atoiInt_showInt [] stopsDigits_nil
  rw [editPayload, copy, if_pos (by simp), takeWhile_upTo free, dropWhile_upTo free, number, List.drop_one,
    List.tail_cons]

theorem handleEdit_acked {fails : Bool} {session edited : WriteSession} {wordIndex : Int}
    {content payload text : Bytes} (named : editPayload payload = some (wordIndex, content))
    (acked : handleEdit fails session payload = (edited, .ack text)) :
    edited.entry.words = session.entry.words.take wordIndex.toNat ++ splitContentIntoTokens content ++
      session.entry.words.drop wordIndex.toNat := by
  unfold handleEdit at acked
  rw [named] at acked
  dsimp only at acked
  unfold writeSessionApplyEdit at acked
  split at acked
  · exact absurd (congrArg Prod.snd acked) (fun refused => nomatch refused)
  · rename_i applied done
    split at acked
    · exact absurd (congrArg Prod.snd acked) (fun refused => nomatch refused)
    · obtain rfl : applied = edited := congrArg Prod.fst acked
      split at done
      · exact nomatch done
      · split at done
        · exact nomatch done
        · dsimp only at done
          split at done
          · exact nomatch done
          · rw [← Except.ok.inj done]

/-- An acknowledged edit has put in the words that were typed exactly when the part of the content that
the storage server cuts off is blank. -/
theorem edit_inserts_typed_iff {line : PromptLine} {wordIndex : Int} {content username : Bytes} {now : Int}
    (typed : readPrompt line.text = .edit wordIndex content) (user : WireField 64 username)
    {deliveries : List Delivery}
    (bytes : deliveredBytes deliveries = formattedBytes [editMessage wordIndex content username now]) :
    receiveAll (recvOutcomes deliveries) = [.message (editMessage wordIndex content username now)] ∧
      ∀ (runtime left : FileRuntimeState) (session edited : WriteSession) (input : LineInput) (text : Bytes),
        writeLine runtime session input (editMessage wordIndex content username now) =
          (left, .writing edited, .ack text) →
        (edited.entry.words = session.entry.words.take wordIndex.toNat ++ runs isSpace content ++
            session.entry.words.drop wordIndex.toNat ↔
          ∀ c ∈ content.drop (editBuffer - 2 - (showInt wordIndex).length), isSpace c = true) := by
  obtain ⟨range, inside⟩ := PromptLine.edit_sublist typed
  have proper := editMessage_wellFormed typed user now
  constructor
  · refine receive_lines ?_ bytes
    intro msg member
    rw [List.mem_singleton.mp member]
    exact proper
  · intro runtime left session edited input text acked
    have payload := editMessage_payload range (PromptLine.edit_length typed) username now
    have served : handleEdit input.editFails session (editMessage wordIndex content username now).payload =
        (edited, .ack text) := by
      have edits : (editMessage wordIndex content username now).type = lit "WRITE_EDIT" := rfl
      rw [writeLine, if_pos edits] at acked
      obtain ⟨_, rest⟩ := Prod.mk.inj acked
      obtain ⟨phase, reply⟩ := Prod.mk.inj rest
      exact Prod.ext (ConnectionPhase.writing.inj phase) reply
    rw [payload] at served
    have inserted := handleEdit_acked (editPayload_message range content) served
    have whole : cstr (content.take (editBuffer - 2 - (showInt wordIndex).length)) =
        content.take (editBuffer - 2 - (showInt wordIndex).length) := by
      refine cstr_of_free ?_
      intro nul
      exact line.lineText.noNul (inside.subset (List.mem_of_mem_take nul))
    rw [splitContentIntoTokens, whole] at inserted
    rw [inserted, List.append_left_inj, List.append_right_inj, ← tokens_eq_runs]
    exact tokens_take_iff isSpace content _

def emptyFile : FileState :=
  ⟨some [], some (metadataSave (newMetadata (lit "ann") 5)), none, none, fun _ => none, fun _ => none, none⟩

def emptySession : WriteSession := ⟨lit "ann", 0, 1, 1, true, ⟨1, 1, []⟩⟩

def editInput : LineInput := ⟨⟨[], [], [], [], []⟩, emptyFile, 9, false, fun _ => false⟩

def shortLine : PromptLine := ⟨⟨lit "0 all  good" ++ [newline], by decide⟩, by decide⟩

def shortEdit : Message := editMessage 0 (lit "all  good") (lit "ann") 7

theorem edit_inserts_typed_iff_short :
    receiveAll (recvOutcomes [.piece shortEdit.line]) = [.message shortEdit] ∧
      (handleEdit false emptySession shortEdit.payload).1.entry.words = [lit "all", lit "good"] := by
  have typed : readPrompt shortLine.text = .edit 0 (lit "all  good") := by decide
  have bytes : deliveredBytes [.piece shortEdit.line] =
      formattedBytes [editMessage 0 (lit "all  good") (lit "ann") 7] := by decide +kernel
  obtain ⟨arrives, inserts⟩ := edit_inserts_typed_iff typed (by decide) bytes
  have words := (inserts FileRuntimeState.fresh _ emptySession _ editInput _ rfl).mpr (by decide +kernel)
  exact ⟨arrives, words⟩

def longLine : PromptLine :=
  ⟨⟨lit "0 " ++ List.replicate 510 97 ++ [newline], by decide +kernel⟩, by decide +kernel⟩

def longEdit : Message := editMessage 0 (List.replicate 510 97) (lit "ann") 7

def cutSession : WriteSession := { emptySession with entry := ⟨1, 1, [List.replicate 509 97]⟩ }

/-- A word of 510 bytes is acknowledged, and its last byte is not in the session. -/
theorem long_edit_is_cut :
    (writeSessionBegin emptyFile FileRuntimeState.fresh 0 (lit "ann")).2.2 = .ok emptySession ∧
      readPrompt longLine.text = .edit 0 (List.replicate 510 97) ∧
      protoParseLine (recvLine (protoFormatLine longEdit maxLine).1 maxLine) = .message longEdit ∧
      writeLine FileRuntimeState.fresh emptySession editInput longEdit =
        (FileRuntimeState.fresh, .writing cutSession, editReply cutSession) ∧
      cutSession.entry.words ≠ emptySession.entry.words.take 0 ++
        runs isSpace (List.replicate 510 97) ++ emptySession.entry.words.drop 0 := by
  refine ⟨?_, ?_, ?_, ?_, ?_⟩
  · decide +kernel
  · decide +kernel
  · decide +kernel
  · decide +kernel
  · decide +kernel

end SharedFileSystem
