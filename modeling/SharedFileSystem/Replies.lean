import SharedFileSystem.ClientCommands
import SharedFileSystem.ContentAccess
import SharedFileSystem.CreateRace
import SharedFileSystem.InfoCounts

/-!
What the name server writes to the connection of a client (`handle_message` of `nm/main.c` and the
handlers of `nm/commands.c`). A handler sees the tables of the name server and asks the storage
servers; every way through it ends with what is sent to the client.
-/

namespace SharedFileSystem

open ByteText

inductive ErrorCode where
  | invalid
  | unauthorized
  | notFound
  | conflict
  | unavailable
  | internal
deriving DecidableEq, Repr

def ErrorCode.word : ErrorCode → Bytes
  | .invalid => lit "INVALID"
  | .unauthorized => lit "UNAUTHORIZED"
  | .notFound => lit "NOT_FOUND"
  | .conflict => lit "CONFLICT"
  | .unavailable => lit "UNAVAILABLE"
  | .internal => lit "INTERNAL"

def sendLine (msg : Message) : List Bytes :=
  if (protoFormatLine msg maxLine).2 then [(protoFormatLine msg maxLine).1] else []

-- the text of an error has 256 bytes, the payload 512
def sendErrorResponse (id username : Bytes) (code : ErrorCode) (text : Bytes) : List Bytes :=
  let payload := code.word ++ pipe :: text.take 255
  if payload.length < 512 then sendLine ⟨lit "ERROR", id, username, lit "NM", payload⟩ else []

def sendSuccessResponse (id username text : Bytes) : List Bytes :=
  sendLine ⟨lit "ACK", id, username, lit "NM", text.take payloadMax⟩

-- the last place of the payload is not given to a line end
def encodeData : Nat → Bytes → Bytes
  | _, [] => []
  | 0, _ :: _ => []
  | room + 1, c :: rest =>
      if c = newline then
        if 0 < room then soh :: encodeData room rest else encodeData (room + 1) rest
      else c :: encodeData room rest

def sendDataResponse (id username data : Bytes) : List Bytes :=
  sendLine ⟨lit "DATA", id, username, lit "NM", encodeData payloadMax (cstr data)⟩

def sendRun : List Message → List Bytes × Bool
  | [] => ([], true)
  | msg :: rest =>
      if (protoFormatLine msg maxLine).2 then
        ((protoFormatLine msg maxLine).1 :: (sendRun rest).1, (sendRun rest).2)
      else ([], false)

def sendStreamingResponse (id username text : Bytes) : List Bytes × Bool :=
  sendRun (contentMessages (fun _ => id) username (lit "NM") (cstr text))

inductive Answer where
  | unreachable
  | unsent
  -- the connection is closed before a line has come
  | silent
  | line (text : Bytes)
deriving DecidableEq, Repr

inductive Relay where
  | unreachable
  | unsent
  | lines (received : List Bytes)
deriving DecidableEq, Repr

def ssRequest (type username payload : Bytes) : Message :=
  ⟨type, lit "1", username, lit "NM", payload.take payloadMax⟩

def parsedLine (text : Bytes) : Option Message :=
  match protoParseLine text with
  | .message msg => some msg
  | _ => none

-- `proto_parse_error`; without a code the two buffers stay as they are
def protoParseError (msg : Message) : Option (Bytes × Bytes) :=
  match (msg.payload.take 511).dropWhile (· = pipe) with
  | [] => none
  | text => some ((text.takeWhile (· ≠ pipe)).take 63,
      ((text.dropWhile (· ≠ pipe)).drop 1).take 255)

inductive ExecFailure where
  | mkstemp
  | write
  | pipe
  | fork
deriving DecidableEq, Repr

def ExecFailure.text : ExecFailure → Bytes
  | .mkstemp => lit "mkstemp failed"
  | .write => lit "write failed"
  | .pipe => lit "pipe failed"
  | .fork => lit "fork failed"

inductive AccessType where
  | read
  | write
  | both
deriving DecidableEq, Repr

def AccessType.letter : AccessType → Bytes
  | .read => lit "R"
  | .write => lit "W"
  | .both => lit "B"

structure AccessRequest where
  filename : Bytes
  folderPath : Bytes
  requester : Bytes
  owner : Bytes
  accessType : AccessType
  requestId : Int
deriving DecidableEq, Repr

/-- The tables of the name server while it handles a message, and what the other parties do. -/
structure World where
  index : FileIndex
  folders : List Bytes
  registry : List RegistryEntry
  -- the newest first
  requests : List AccessRequest
  nextRequestId : Int
  leastLoaded : Option Bytes
  -- the storage server of an entry, or the replica when it is down
  activeServer : FileEntry → Location
  fetchAcl : FileEntry → Option ACL
  fetchContent : FileEntry → Option Bytes
  loadedOwner : FileEntry → Option Bytes
  ask : Location → Message → Answer
  relay : Location → Message → Relay
  execute : Bytes → Except ExecFailure Bytes
  -- the entry is still in the index after the storage server has deleted the file
  stillIndexed : Bool
  viewText : Bytes → Bytes → Bytes
  listText : Bytes
  folderText : Bytes → Bytes
  requestsText : Bytes → Bytes → Bytes
  infoTimes : FileEntry → InfoTimes
  -- what an error text, or a message, holds that was never set
  unsetText : Bytes
  unsetMessage : Message

namespace World

variable (world : World) (username : Bytes)

def withFile (filename : Bytes) (next : FileEntry → List Bytes) : List Bytes :=
  match indexLookupFile world.index filename with
  | none =>
      sendErrorResponse [] username .notFound (lit "File '" ++ filename ++ lit "' not found")
  | some entry => next entry

def withAcl (entry : FileEntry) (next : ACL → List Bytes) : List Bytes :=
  match world.fetchAcl entry with
  | none => sendErrorResponse [] username .internal (lit "Failed to load ACL")
  | some acl => next acl

def accessError (filename : Bytes) (needWrite : Bool) : Bytes :=
  lit "User '" ++ username ++
    (if needWrite then lit "' does not have write access to file '"
      else lit "' does not have read access to file '") ++ filename ++ lit "'"

def ownerError (filename : Bytes) : Bytes :=
  lit "User '" ++ username ++ lit "' is not the owner of file '" ++ filename ++ lit "'"

def withAccess (filename : Bytes) (needWrite : Bool) (next : FileEntry → List Bytes) :
    List Bytes :=
  world.withFile username filename fun entry =>
    world.withAcl username entry fun acl =>
      if checkFileAccess acl username needWrite then next entry
      else sendErrorResponse [] username .unauthorized (accessError username filename needWrite)

def serverError (msg : Message) : List Bytes :=
  sendErrorResponse [] username .internal
    (match protoParseError msg with
      | none => world.unsetText
      | some (_, text) => text)

def withAnswer (answer : Answer) (unreachable : Bytes) (next : List Bytes) : List Bytes :=
  match answer with
  | .unreachable => sendErrorResponse [] username .unavailable unreachable
  | .unsent =>
      sendErrorResponse [] username .internal (lit "Failed to send command to storage server")
  | .silent => sendErrorResponse [] username .internal (lit "No response from storage server")
  | .line text =>
      match parsedLine text with
      | none => sendErrorResponse [] username .internal (lit "Invalid response from storage server")
      | some msg => if msg.type = lit "ERROR" then world.serverError username msg else next

def sendSsInfo (location : Location) : List Bytes :=
  sendLine ⟨lit "SS_INFO", [], username, lit "NM",
    (lit "host=" ++ location.host ++ lit ",port=" ++ showInt location.clientPort).take 255⟩

def handleView (flags : Bytes) : List Bytes :=
  sendDataResponse [] username (world.viewText username flags)

inductive Placement where
  | refused (msg : Message)
  | stored (server : Bytes)
  | nowhere

def place (filename : Bytes) : List Bytes → Placement
  | [] => .nowhere
  | candidate :: rest =>
      match registryGetSsInfo world.registry candidate with
      | none => place filename rest
      | some location =>
          if location.host = [] ∨ location.clientPort ≤ 0 then place filename rest
          else match world.ask location (ssRequest (lit "CREATE") username filename) with
            | .line text => match parsedLine text with
              | none => place filename rest
              | some msg => if msg.type = lit "ERROR" then .refused msg else .stored candidate
            | _ => place filename rest

def handleCreate (filename : Bytes) : List Bytes :=
  match indexLookupFile world.index filename with
  | some _ =>
      sendErrorResponse [] username .conflict (lit "File '" ++ filename ++ lit "' already exists")
  | none =>
      match registryGetSsCandidates world.registry maxSsCandidates with
      | [] => sendErrorResponse [] username .unavailable (lit "No storage server available")
      | candidates => match world.place username filename candidates with
        | .nowhere =>
            sendErrorResponse [] username .unavailable (lit "Cannot connect to any storage server")
        | .refused msg => world.serverError username msg
        | .stored server =>
            -- `selected_ss` is empty
            if server = [] then
              sendErrorResponse [] username .unavailable (lit "Cannot connect to any storage server")
            else match registryGetSsInfo world.registry server with
              | none => sendErrorResponse [] username .internal (lit "Failed to index file")
              | some _ => sendSuccessResponse [] username (lit "File Created Successfully!")

def handleDelete (filename : Bytes) : List Bytes :=
  world.withFile username filename fun entry =>
    if entry.owner ≠ username then
      sendErrorResponse [] username .unauthorized (ownerError username filename)
    else
      world.withAnswer username
        (world.ask (world.activeServer entry) (ssRequest (lit "DELETE") username filename))
        (lit "Cannot connect to storage server")
        (if world.stillIndexed then
          sendSuccessResponse [] username (lit "File deleted successfully!")
          else sendErrorResponse [] username .internal (lit "Failed to remove file from index"))

def handleInfo (filename : Bytes) : List Bytes :=
  world.withFile username filename fun found =>
    let entry := found.loadOwner (world.loadedOwner found)
    sendDataResponse [] username
      (infoText filename entry.owner username (world.infoTimes entry) entry.counts)

def handleList : List Bytes := sendDataResponse [] username world.listText

def handleRead (filename : Bytes) : List Bytes :=
  world.withAccess username filename false fun entry =>
    sendSsInfo username (world.activeServer entry)

def handleStream (filename : Bytes) : List Bytes := world.handleRead username filename

def handleWrite (filename : Bytes) : List Bytes :=
  world.withAccess username filename true fun entry =>
    sendSsInfo username (world.activeServer entry)

def handleUndo (filename : Bytes) : List Bytes :=
  world.withAccess username filename false fun entry => sendSsInfo username entry.location

def handleExec (filename id : Bytes) : List Bytes :=
  world.withAccess username filename false fun entry =>
    match world.fetchContent entry with
    | none => sendErrorResponse [] username .internal (lit "Failed to fetch file content")
    | some script => match world.execute script with
      | .error failure => sendErrorResponse [] username .internal failure.text
      | .ok output =>
          let (lines, sent) := sendStreamingResponse id username output
          if sent then lines
          else lines ++ sendErrorResponse [] username .internal (lit "Failed to send EXEC output")

def handleAccess (change : AclChange) (granted : Bytes) : List Bytes :=
  world.withFile username change.filename fun entry =>
    world.withAcl username entry fun acl =>
      if aclIsOwner acl username then
        world.withAnswer username (world.ask (world.activeServer entry) (change.message username))
          (lit "Cannot connect to storage server") (sendSuccessResponse [] username granted)
      else sendErrorResponse [] username .unauthorized (ownerError username change.filename)

def handleAddaccess (payload : Bytes) : List Bytes :=
  world.handleAccess username (addaccessChange payload) (lit "Access granted successfully!")

def handleRemaccess (payload : Bytes) : List Bytes :=
  world.handleAccess username (remaccessChange payload) (lit "Access removed successfully!")

def handleCreatefolder (folder : Bytes) : List Bytes :=
  if folder.head? ≠ some slash then
    sendErrorResponse [] username .invalid (lit "Folder path must start with /")
  else if indexFolderExists world.folders folder then
    sendErrorResponse [] username .conflict (lit "Folder already exists")
  else match world.leastLoaded with
    | none => sendErrorResponse [] username .unavailable (lit "No storage servers available")
    | some server => match registryGetSsInfo world.registry server with
      | none => sendErrorResponse [] username .internal (lit "Failed to get storage server info")
      | some location =>
          world.withAnswer username
            (world.ask location (ssRequest (lit "CREATE_FOLDER") username folder))
            (lit "Failed to connect to storage server")
            (sendSuccessResponse [] username (lit "Folder created successfully!"))

def handleMove (filename newFolder : Bytes) : List Bytes :=
  match indexLookupFile world.index filename with
  | none => sendErrorResponse [] username .notFound (lit "File not found")
  | some entry =>
      if newFolder ≠ rootFolder ∧ indexFolderExists world.folders newFolder = false then
        sendErrorResponse [] username .notFound (lit "Destination folder does not exist")
      else match world.fetchAcl entry with
        | none => sendErrorResponse [] username .internal (lit "Failed to fetch file permissions")
        | some acl =>
            if aclCheckWrite acl username = false then
              sendErrorResponse [] username .unauthorized
                (lit "You do not have write permission for this file")
            else
              world.withAnswer username
                (world.ask entry.location
                  (ssRequest (lit "MOVE") username (movePayload entry newFolder)))
                (lit "Failed to connect to storage server")
                (sendSuccessResponse [] username (lit "File moved successfully!"))

def handleViewfolder (folder : Bytes) : List Bytes :=
  if indexFolderExists world.folders folder then
    sendDataResponse [] username (world.folderText folder)
  else sendErrorResponse [] username .notFound (lit "Folder not found")

def requestedAccess (text : Bytes) : Option AccessType :=
  if text = lit "R" then some .read
  else if text = lit "W" then some .write
  else if text = lit "RW" ∨ text = lit "B" then some .both
  else none

def heldAccess (acl : ACL) : AccessType → Option Bytes
  | .read => if aclCheckRead acl username then some (lit "read") else none
  | .write => if aclCheckWrite acl username then some (lit "write") else none
  | .both =>
      if aclCheckRead acl username && aclCheckWrite acl username then some (lit "read/write")
      else none

-- -2 for a duplicate
def requestQueueAdd (entry : FileEntry) : Int :=
  if world.requests.any fun request => request.filename = entry.filename &&
      request.folderPath = entry.folderPath && request.requester = username then -2
  else world.nextRequestId

def handleRequestaccess (payload : Bytes) : List Bytes :=
  match cutField payload with
  | none =>
      sendErrorResponse [] username .invalid
        (lit "Invalid payload format. Expected: filename|access_type")
  | some (filename, type) =>
      if 256 ≤ filename.length then
        sendErrorResponse [] username .invalid (lit "Filename too long")
      else match requestedAccess (type.take 7) with
        | none =>
            sendErrorResponse [] username .invalid (lit "Invalid access type. Use R, W, or RW")
        | some accessType =>
            world.withFile username filename fun entry =>
              if entry.owner = username then
                sendErrorResponse [] username .invalid
                  (lit "Cannot request access to your own file")
              else match world.fetchAcl entry with
                | none => sendErrorResponse [] username .internal (lit "Failed to load file ACL")
                | some acl => match heldAccess username acl accessType with
                  | some held =>
                      sendErrorResponse [] username .invalid
                        (lit "You already have " ++ held ++ lit " access to this file")
                  | none =>
                      let requestId := world.requestQueueAdd username entry
                      if requestId = -2 then
                        sendErrorResponse [] username .conflict
                          (lit "You already have a pending request for this file")
                      else if requestId < 0 then
                        sendErrorResponse [] username .internal
                          (lit "Failed to create access request")
                      else
                        sendSuccessResponse [] username
                          (lit "Access request created with ID #" ++ showInt requestId)

def handleViewaccessrequests (payload : Bytes) : List Bytes :=
  sendDataResponse [] username (world.requestsText username payload)

def withRequest (payload : Bytes) (next : AccessRequest → List Bytes) : List Bytes :=
  if atoiInt payload ≤ 0 then sendErrorResponse [] username .invalid (lit "Invalid request ID")
  else match world.requests.find? (·.requestId = atoiInt payload) with
    | none => sendErrorResponse [] username .notFound (lit "Request not found")
    | some request =>
        if request.owner ≠ username then
          sendErrorResponse [] username .unauthorized (lit "You are not the owner of this file")
        else next request

def requestPath (request : AccessRequest) : Bytes :=
  (buildFullPath ⟨request.filename, request.folderPath, [], [], 0, [], 0, 0, 0⟩).take 767

def approvePayload (request : AccessRequest) : Bytes :=
  (lit "action=ADD,flag=" ++ request.accessType.letter ++ lit ",filename=" ++
    requestPath request ++ lit ",target_user=" ++ request.requester).take 1023

def handleApproveaccessrequest (payload : Bytes) : List Bytes :=
  world.withRequest username payload fun request =>
    match indexLookupFile world.index (requestPath request) with
    | none => sendErrorResponse [] username .notFound (lit "File no longer exists")
    | some entry =>
        match world.ask (world.activeServer entry)
          (ssRequest (lit "UPDATE_ACL") username (approvePayload request)) with
        | .unreachable =>
            sendErrorResponse [] username .unavailable (lit "Cannot connect to storage server")
        | .unsent =>
            sendErrorResponse [] username .internal
              (lit "Failed to send command to storage server")
        | .silent =>
            sendErrorResponse [] username .internal (lit "No response from storage server")
        | .line text =>
            let msg := (parsedLine text).getD world.unsetMessage
            if msg.type = lit "ERROR" then world.serverError username msg
            else
              sendSuccessResponse [] username
                ((lit "Access granted to " ++ request.requester ++ lit " for file " ++
                  requestPath request).take 1023)

def handleDisapproveaccessrequest (payload : Bytes) : List Bytes :=
  world.withRequest username payload fun _ =>
    sendSuccessResponse [] username (lit "Access request denied")

def forwardAnswer (checked : Bool) (answer : Answer) : List Bytes :=
  match answer with
  | .unreachable =>
      sendErrorResponse [] username .internal (lit "Cannot connect to storage server")
  | .unsent => sendErrorResponse [] username .internal (lit "Failed to send request to SS")
  | .silent => sendErrorResponse [] username .internal (lit "No response from SS")
  | .line text =>
      if checked ∧ protoParseLine text = .invalid then
        sendErrorResponse [] username .internal (lit "Invalid SS response")
      else [cstr text]

def checkpointRequest (type filename tag : Bytes) : Message :=
  ssRequest type username (tagPayload filename tag)

def handleCheckpoint (filename tag : Bytes) : List Bytes :=
  world.withAccess username filename true fun entry =>
    forwardAnswer username true (world.ask (world.activeServer entry)
      (checkpointRequest username (lit "CHECKPOINT") filename tag))

def handleRevertCheckpoint (filename tag : Bytes) : List Bytes :=
  world.withAccess username filename true fun entry =>
    forwardAnswer username false (world.ask (world.activeServer entry)
      (checkpointRequest username (lit "REVERT") filename tag))

def handleListcheckpoints (filename : Bytes) : List Bytes :=
  world.withAccess username filename false fun entry =>
    forwardAnswer username false (world.ask (world.activeServer entry)
      (ssRequest (lit "LISTCHECKPOINTS") username filename))

def relayLines : List Bytes → List Bytes
  | [] => sendErrorResponse [] username .internal (lit "Connection to SS closed unexpectedly")
  | text :: rest =>
      cstr text :: (match parsedLine text with
        | none => relayLines rest
        | some msg =>
            if msg.type = lit "STOP" ∨ msg.type = lit "ERROR" then [] else relayLines rest)

def handleViewcheckpoint (filename tag : Bytes) : List Bytes :=
  world.withAccess username filename false fun entry =>
    match world.relay (world.activeServer entry)
      (checkpointRequest username (lit "VIEWCHECKPOINT") filename tag) with
    | .unreachable =>
        sendErrorResponse [] username .internal (lit "Cannot connect to storage server")
    | .unsent => sendErrorResponse [] username .internal (lit "Failed to send request to SS")
    | .lines received => relayLines username received

end World

inductive NmCommand where
  | register
  | heartbeat
  | writeComplete
  | view
  | create
  | delete
  | info
  | list
  | read
  | stream
  | undo
  | checkpoint
  | viewcheckpoint
  | revert
  | listcheckpoints
  | exec
  | write
  | addaccess
  | remaccess
  | createfolder
  | move
  | viewfolder
  | requestaccess
  | viewaccessrequests
  | approveaccessrequest
  | disapproveaccessrequest
deriving DecidableEq, Repr

def commandTable : List (Bytes × NmCommand) :=
  [(lit "SS_REGISTER", .register), (lit "CLIENT_REGISTER", .register),
    (lit "HEARTBEAT", .heartbeat), (lit "WRITE_COMPLETE", .writeComplete), (lit "VIEW", .view),
    (lit "CREATE", .create), (lit "DELETE", .delete), (lit "INFO", .info), (lit "LIST", .list),
    (lit "READ", .read), (lit "STREAM", .stream), (lit "UNDO", .undo),
    (lit "CHECKPOINT", .checkpoint), (lit "VIEWCHECKPOINT", .viewcheckpoint),
    (lit "REVERT", .revert), (lit "LISTCHECKPOINTS", .listcheckpoints), (lit "EXEC", .exec),
    (lit "WRITE", .write), (lit "ADDACCESS", .addaccess), (lit "REMACCESS", .remaccess),
    (lit "CREATE_FOLDER", .createfolder), (lit "CREATEFOLDER", .createfolder),
    (lit "MOVE", .move), (lit "VIEWFOLDER", .viewfolder), (lit "VIEW_FOLDER", .viewfolder),
    (lit "REQUESTACCESS", .requestaccess), (lit "RACC", .requestaccess),
    (lit "VIEWACCESSREQUESTS", .viewaccessrequests), (lit "VIEWACCR", .viewaccessrequests),
    (lit "APPROVEACCESSREQUEST", .approveaccessrequest),
    (lit "APPROVEACCR", .approveaccessrequest),
    (lit "DISAPPROVEACCESSREQUEST", .disapproveaccessrequest),
    (lit "DISACCR", .disapproveaccessrequest)]

def commandOf (type : Bytes) : Option NmCommand :=
  (commandTable.find? (·.1 = type)).map Prod.snd

def viewFlags (payload : Bytes) : Bytes :=
  match strstr (lit "flags=") payload with
  | none => []
  | some found => match cutField (found.drop 6) with
    | none => (found.drop 6).take 15
    | some (flags, _) => boundedField 16 flags

def moveNames (payload : Bytes) : Bytes × Bytes :=
  match cutField payload with
  | none => ([], [])
  | some (filename, folder) => (boundedField 512 filename, boundedField 512 folder)

-- the line is sent whether it was formatted or not
def acknowledge (msg : Message) (text : Bytes) : List Bytes :=
  [(protoFormatLine ⟨lit "ACK", msg.id, msg.username, lit "NM", text⟩ maxLine).1]

def withTag (payload : Bytes) (next : Bytes → Bytes → List Bytes) : List Bytes :=
  match cutField payload with
  | none => []
  | some (filename, tag) => next (filename.take 255) (tag.take 63)

def handleMessage (world : World) (msg : Message) : List Bytes :=
  let username := msg.username
  let filename := msg.payload.take 255
  match commandOf msg.type with
  | some .register => acknowledge msg (lit "registered")
  | some .heartbeat => acknowledge msg (lit "pong")
  | some .writeComplete => acknowledge msg (lit "write_replication_queued")
  | some .view => world.handleView username (viewFlags msg.payload)
  | some .create => world.handleCreate username filename
  | some .delete => world.handleDelete username filename
  | some .info => world.handleInfo username filename
  | some .list => world.handleList username
  | some .read => world.handleRead username filename
  | some .stream => world.handleStream username filename
  | some .undo => world.handleUndo username filename
  | some .checkpoint => withTag msg.payload (world.handleCheckpoint username)
  | some .viewcheckpoint => withTag msg.payload (world.handleViewcheckpoint username)
  | some .revert => withTag msg.payload (world.handleRevertCheckpoint username)
  | some .listcheckpoints => world.handleListcheckpoints username filename
  | some .exec => world.handleExec username filename msg.id
  | some .write => world.handleWrite username (writeRequest msg.payload).1
  | some .addaccess => world.handleAddaccess username msg.payload
  | some .remaccess => world.handleRemaccess username msg.payload
  | some .createfolder => world.handleCreatefolder username msg.payload
  | some .move => world.handleMove username (moveNames msg.payload).1 (moveNames msg.payload).2
  | some .viewfolder => world.handleViewfolder username msg.payload
  | some .requestaccess => world.handleRequestaccess username msg.payload
  | some .viewaccessrequests => world.handleViewaccessrequests username msg.payload
  | some .approveaccessrequest => world.handleApproveaccessrequest username msg.payload
  | some .disapproveaccessrequest => world.handleDisapproveaccessrequest username msg.payload
  | none =>
      sendErrorResponse msg.id username .invalid (lit "Unknown command: " ++ msg.type)

end SharedFileSystem
