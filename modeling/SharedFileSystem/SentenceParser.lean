import SharedFileSystem.Lib.Text

/-!
Splitting text into sentences and words (`ss/sentence_parser.c`), and writing them
back (`sentence_entry_to_string` and `render_collection` of `ss/write_session.c`).
-/

namespace SharedFileSystem

open ByteText

structure SentenceEntry where
  sentenceId : Int
  version : Int
  words : List Bytes
deriving DecidableEq, Repr

abbrev SentenceCollection := List SentenceEntry

def isSentenceDelim (c : UInt8) : Bool := c = 46 || c = 33 || c = 63

structure ParseState where
  collection : SentenceCollection
  current : SentenceEntry
  token : Option Bytes
  nextId : Int

def appendWord (entry : SentenceEntry) (word : Bytes) : SentenceEntry :=
  if word.isEmpty then entry else { entry with words := entry.words ++ [word] }

def appendToLastWord (c : UInt8) : List Bytes → List Bytes
  | [] => []
  | [word] => [word ++ [c]]
  | word :: rest => word :: appendToLastWord c rest

-- a sentence without words is dropped, and the next one overwrites its id
def finalizeSentence (state : ParseState) : ParseState :=
  if state.current.words.isEmpty then state
  else { state with collection := state.collection ++ [state.current], current := ⟨0, 0, []⟩ }

def flushToken (state : ParseState) : ParseState :=
  match state.token with
  | some token => { state with current := appendWord state.current token, token := none }
  | none => state

def closeSentence (state : ParseState) (c : UInt8) : ParseState :=
  match state.token with
  | some token => { state with current := appendWord state.current (token ++ [c]), token := none }
  | none => { state with
      current := { state.current with words := appendToLastWord c state.current.words } }

def startSentence (state : ParseState) : ParseState :=
  { state with
    current := { state.current with sentenceId := state.nextId, version := 1 }
    nextId := state.nextId + 1 }

def parseByte (state : ParseState) (c : UInt8) : ParseState :=
  if isSpace c then flushToken state
  else if isSentenceDelim c then startSentence (finalizeSentence (closeSentence state c))
  else { state with token := some (state.token.getD [] ++ [c]) }

def sentenceParseText (text : Bytes) (startSentenceId : Int) : SentenceCollection × Int :=
  let state := (cstr text).foldl parseByte
    ⟨[], ⟨startSentenceId, 1, []⟩, none, startSentenceId + 1⟩
  let last := finalizeSentence (flushToken state)
  if last.collection.isEmpty then ([⟨last.nextId, 1, []⟩], last.nextId + 1)
  else (last.collection, last.nextId)

def joinWords : List Bytes → Bytes
  | [] => []
  | [word] => word
  | word :: rest => word ++ space :: joinWords rest

def sentenceEntryToString (entry : SentenceEntry) : Bytes := joinWords entry.words

structure Rendered where
  text : Bytes
  spans : List (Nat × Nat)

-- the loop of `render_collection`: `pos` bytes are written, `spans` are its offsets and lengths
def renderFrom (pos : Nat) : SentenceCollection → Rendered
  | [] => ⟨[], []⟩
  | entry :: rest =>
      let body := sentenceEntryToString entry
      let gap := if !rest.isEmpty && !body.isEmpty then [space] else []
      let tail := renderFrom (pos + body.length + gap.length) rest
      ⟨body ++ gap ++ tail.text, (pos, body.length) :: tail.spans⟩

def renderCollection (collection : SentenceCollection) : Rendered := renderFrom 0 collection

end SharedFileSystem
