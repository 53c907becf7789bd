import Stomp.Server
import Stomp.Codec
import Stomp.Base.Throws

/-!
# The server with its exceptions

The same source as in the other modules, but here a reference can be null, an index can be out
of bounds, and a map can be given a null. A `String` of Java is an `Option Text`.
-/

open Stomp.Split Stomp.Utf8

namespace Stomp.Checked

open Stomp.Throws

/-- How Java joins a reference to a text. -/
def text (r : Option Text) : Text := r.getD "null".toList

/-! ## Frames -/

structure StompFrame where
  command : Option Text
  headers : Table Text (Option Text)
  body : Option Text

variable {S : Type}

/-- `split(sep, 2)` as an array. -/
def split (sep message : Text) : List Text :=
  (splitOnce sep message).1 :: (splitOnce sep message).2.toList

namespace StompFrame

def getHeader (f : StompFrame) (key : Text) : Option Text := (f.headers.lookup key).join

def headerLine (e : (_ : Text) × Option Text) : Text := e.1 ++ ':' :: text e.2

def toString (f : StompFrame) : Throws S Text := do
  let body ← deref f.body
  pure (text f.command ++ '\n' ::
    (unlines '\n' (f.headers.entries.map headerLine) ++ '\n' ::
      ((if body.isEmpty then [] else body ++ ['\n']) ++ ['\x00'])))

def putHeader (headers : Table Text (Option Text)) (line : Text) :
    Throws S (Table Text (Option Text)) :=
  let keyValue := split [':'] line
  if keyValue.length = 2 then do
    let key ← index keyValue 0
    let value ← index keyValue 1
    pure (headers.insert key (some value))
  else pure headers

def fromString (message : Option Text) : Throws S StompFrame := do
  let message ← deref message
  let message ← (if message.getLast? = some '\x00' then slice message 0 (message.length - 1)
    else pure message)
  let parts := split ['\n', '\n'] message
  let headerPart ← index parts 0
  let body ← (if 1 < parts.length then index parts 1 else pure [])
  let lines := splitAll '\n' headerPart
  let command ← index lines 0
  let headers ← (List.range' 1 (lines.length - 1)).foldlM
    (fun headers i => index lines i >>= putHeader headers) ∅
  pure ⟨some command, headers, some body⟩

end StompFrame

/-! ## The decoder -/

structure StompMessageEncoderDecoder where
  bytes : Bytes
  len : Nat

namespace StompMessageEncoderDecoder

def initial : StompMessageEncoderDecoder := ⟨List.replicate 1024 0, 0⟩

/-- `Arrays.copyOf` -/
def copyOf (bytes : Bytes) (n : Int) : Throws S Bytes :=
  if n < 0 then throw .negativeArraySize
  else pure (Stomp.StompMessageEncoderDecoder.copyOf bytes n.toNat)

/-- The buffer is twice as long when it is full. -/
def grow : Throws StompMessageEncoderDecoder Unit := do
  let d ← get
  if d.len < d.bytes.length then pure ()
  else do
    let bytes ← copyOf d.bytes (Decimal.wrap (d.len * 2))
    set { d with bytes := bytes }

def pushByte (nextByte : UInt8) : Throws StompMessageEncoderDecoder Unit := do
  grow
  let d ← get
  set { d with len := d.len + 1 }
  let bytes ← store d.bytes d.len nextByte
  set (⟨bytes, d.len + 1⟩ : StompMessageEncoderDecoder)

def popFrame : Throws StompMessageEncoderDecoder StompFrame := do
  let d ← get
  let bytes ← slice d.bytes 0 d.len
  set { d with len := 0 }
  StompFrame.fromString (some (Utf8.decode bytes))

def decodeNextByte (nextByte : UInt8) : Throws StompMessageEncoderDecoder (Option StompFrame) :=
  if nextByte = 0 then some <$> popFrame
  else do
    pushByte nextByte
    pure none

def encode (message : StompFrame) : Throws S Bytes := Utf8.encode <$> message.toString

end StompMessageEncoderDecoder

/-! ## The protocol object and the shared tables -/

structure StompMessagingProtocolImpl where
  connectionId : ConnectionId
  shouldTerminate : Bool
  connected : Bool
  clientSubscriptions : Table Int (Option Text)

/-- What a call of `process` works on. The output stream of a blocking handler is null until
its thread runs. -/
structure State where
  this : StompMessagingProtocolImpl
  connections : ConnectionsImpl
  streams : Table ConnectionId Bytes

namespace Connections

def put (x : ConnectionsImpl) : Throws State Unit := modify fun s => { s with connections := x }

def send (connectionId : ConnectionId) (msg : StompFrame) : Throws State Bool := do
  let s ← get
  if s.connections.isRegistered connectionId then do
    let encodedMsg ← StompMessageEncoderDecoder.encode msg
    let out ← deref (s.streams.lookup connectionId)
    set { s with streams := s.streams.insert connectionId (out ++ encodedMsg) }
    pure true
  else pure false

/-- It only removes, under keys that are numbers. -/
def disconnect (connectionId : ConnectionId) : Throws State Unit :=
  modify fun s => { s with connections := s.connections.disconnect connectionId }

def authenticateUser (connectionId : ConnectionId) (username password : Option Text) :
    Throws State Bool := do
  let x := (← get).connections
  if ← ConcurrentHashMap.containsKey x.users username then do
    let stored ← ConcurrentHashMap.get x.users username
    let stored ← deref stored
    pure (decide (some stored = password))
  else do
    let users ← ConcurrentHashMap.put x.users username password
    put { x with users := users }
    let activeUsers ← ConcurrentHashMap.put x.activeUsers (some connectionId) username
    put { x with users := users, activeUsers := activeUsers }
    pure true

def isUserActive (username : Option Text) : Throws State Bool := do
  let x := (← get).connections
  ConcurrentHashMap.containsValue x.activeUsers username

def getNextMessageId : Throws State Int := do
  let r := (← get).connections.getNextMessageId
  put r.2
  pure r.1

def addSubscription (topic : Option Text) (connectionId : ConnectionId) (subscriptionId : Int) :
    Throws State Unit := do
  let x := (← get).connections
  let topics ← ConcurrentHashMap.putIfAbsent x.topicSubscriptions topic (some ∅)
  put { x with topicSubscriptions := topics }
  let subscribers ← ConcurrentHashMap.get topics topic
  let subscribers ← deref subscribers
  let topics ← ConcurrentHashMap.put topics topic
    (some (subscribers.insert connectionId subscriptionId))
  put { x with topicSubscriptions := topics }

def removeSubscription (topic : Option Text) (connectionId : ConnectionId) :
    Throws State Unit := do
  let x := (← get).connections
  if ← ConcurrentHashMap.containsKey x.topicSubscriptions topic then do
    let subscribers ← ConcurrentHashMap.get x.topicSubscriptions topic
    let subscribers ← deref subscribers
    let topics ← ConcurrentHashMap.put x.topicSubscriptions topic
      (some (subscribers.erase connectionId))
    put { x with topicSubscriptions := topics }
    let subscribers ← ConcurrentHashMap.get topics topic
    let subscribers ← deref subscribers
    if Table.isEmpty subscribers then do
      let topics ← ConcurrentHashMap.remove topics topic
      put { x with topicSubscriptions := topics }
    else pure ()
  else pure ()

def getSubscribers (topic : Option Text) : Throws State (Table ConnectionId Int) := do
  let x := (← get).connections
  ConcurrentHashMap.getOrDefault x.topicSubscriptions topic ∅

end Connections

/-- `Integer.parseInt` -/
def parseInt (s : Option Text) : Throws S Int :=
  match s.bind Decimal.parseInt with
  | some n => pure n
  | none => throw .numberFormat

/-- `parseInt` in its `try`, with no number when the exception is caught. -/
def tryParseInt (s : Option Text) : Throws S (Option Int) :=
  tryCatch (some <$> parseInt s) fun
    | .numberFormat => pure none
    | e => throw e

namespace StompMessagingProtocolImpl

open Stomp.StompMessagingProtocolImpl (receiptKey)

def start (connectionId : ConnectionId) : StompMessagingProtocolImpl :=
  ⟨connectionId, false, false, ∅⟩

def this : Throws State StompMessagingProtocolImpl := do
  let s ← get
  pure s.this

def setThis (p : StompMessagingProtocolImpl) : Throws State Unit := modify fun s => { s with this := p }

def sendError (errorMessage : Text) (receiptId : Option Text) (originalMessage : StompFrame) :
    Throws State Unit := do
  let original ← originalMessage.toString
  let body := "The message:\n".toList ++ "-----\n".toList ++ original ++ "\n".toList ++
    "-----\n".toList ++ "Reason: ".toList ++ errorMessage
  let headers := (∅ : Table Text (Option Text)).insert "message".toList (some (' ' :: errorMessage))
  let headers := if receiptId = none then headers else headers.insert "receipt-id".toList receiptId
  let p ← this
  let _ ← Connections.send p.connectionId ⟨some "ERROR".toList, headers, some body⟩
  let p ← this
  setThis { p with shouldTerminate := true }

def sendReceiptIfRequested (receiptId : Option Text) : Throws State Unit :=
  if receiptId = none then pure ()
  else do
    let p ← this
    let _ ← Connections.send p.connectionId ⟨some "RECEIPT".toList,
      (∅ : Table Text (Option Text)).insert "receipt-id".toList receiptId, some []⟩
    pure ()

variable (message : StompFrame)

def handleConnect : Throws State Unit := do
  let p ← this
  if p.connected then
    sendError "User already logged in".toList (message.getHeader receiptKey) message
  else do
    let version := message.getHeader "accept-version".toList
    let login := message.getHeader "login".toList
    let passcode := message.getHeader "passcode".toList
    let host := message.getHeader "host".toList
    let receiptId := message.getHeader receiptKey
    if version = none ∨ login = none ∨ passcode = none ∨ host = none then
      sendError
        "Missing required headers in CONNECT. Required: accept-version, login, passcode, host".toList
        receiptId message
    else if ← Connections.isUserActive login then
      sendError "User already logged in".toList receiptId message
    else if !(← Connections.authenticateUser p.connectionId login passcode) then
      sendError ("Invalid password for user: ".toList ++ text login) (message.getHeader receiptKey)
        message
    else do
      setThis { p with connected := true }
      let _ ← Connections.send p.connectionId ⟨some "CONNECTED".toList,
        (∅ : Table Text (Option Text)).insert "version".toList (some "1.2".toList), some []⟩
      sendReceiptIfRequested receiptId

/-- The loop of `handleDisconnect` over the topics of the session. -/
def removeSubscriptions (connectionId : ConnectionId) : List (Option Text) → Throws State Unit
  | [] => pure ()
  | topic :: topics => do
    Connections.removeSubscription topic connectionId
    removeSubscriptions connectionId topics

def handleDisconnect : Throws State Unit := do
  let p ← this
  if !p.connected then
    sendError "User is already disconnected.".toList (message.getHeader receiptKey) message
  else do
    setThis { p with shouldTerminate := true }
    removeSubscriptions p.connectionId p.clientSubscriptions.values
    setThis { p with shouldTerminate := true, clientSubscriptions := ∅ }
    sendReceiptIfRequested (message.getHeader receiptKey)
    Connections.disconnect p.connectionId

def handleSubscribe : Throws State Unit := do
  let p ← this
  if !p.connected then
    sendError "SUBSCRIBE received before CONNECT".toList (message.getHeader receiptKey) message
  else do
    let topic := message.getHeader "destination".toList
    let subscriptionIdStr := message.getHeader "id".toList
    if topic = none ∨ subscriptionIdStr = none then
      sendError "Missing required headers in SUBSCRIBE. Required: destination, id".toList
        (message.getHeader receiptKey) message
    else
      match ← tryParseInt subscriptionIdStr with
      | none =>
        sendError ("Invalid subscription ID format: ".toList ++ text subscriptionIdStr)
          (message.getHeader receiptKey) message
      | some subscriptionId => do
        setThis { p with clientSubscriptions := p.clientSubscriptions.insert subscriptionId topic }
        Connections.addSubscription topic p.connectionId subscriptionId
        sendReceiptIfRequested (message.getHeader receiptKey)

def handleUnsubscribe : Throws State Unit := do
  let p ← this
  if !p.connected then
    sendError "UNSUBSCRIBE received before CONNECT".toList (message.getHeader receiptKey) message
  else do
    let subscriptionIdStr := message.getHeader "id".toList
    if subscriptionIdStr = none then
      sendError "Missing `id` header in UNSUBSCRIBE".toList (message.getHeader receiptKey) message
    else
      match ← tryParseInt subscriptionIdStr with
      | none =>
        sendError ("Invalid subscription ID format: ".toList ++ text subscriptionIdStr)
          (message.getHeader receiptKey) message
      | some subscriptionId => do
        let topic := (p.clientSubscriptions.lookup subscriptionId).join
        setThis { p with clientSubscriptions := p.clientSubscriptions.erase subscriptionId }
        if topic = none then
          sendError "Attempted unsubscribing from a channel not subscribed to.".toList
            (message.getHeader receiptKey) message
        else do
          Connections.removeSubscription topic p.connectionId
          sendReceiptIfRequested (message.getHeader receiptKey)

/-- The loop of `handleSend` over the entries of the subscriber map. -/
def sendMessages (topic : Option Text) (messageId : Int) (body : Option Text) :
    List ((_ : ConnectionId) × Int) → Throws State Unit
  | [] => pure ()
  | entry :: entries => do
    let _ ← Connections.send entry.1 ⟨some "MESSAGE".toList,
      (((∅ : Table Text (Option Text)).insert "destination".toList topic).insert
        "subscription".toList (some (Decimal.valueOf entry.2))).insert
          "message-id".toList (some (Decimal.valueOf messageId)), body⟩
    sendMessages topic messageId body entries

def handleSend : Throws State Unit := do
  let p ← this
  if !p.connected then
    sendError "SEND received before CONNECT".toList (message.getHeader receiptKey) message
  else do
    let topic := message.getHeader "destination".toList
    if topic = none then
      sendError "Missing destination header in SEND".toList (message.getHeader receiptKey) message
    else if !p.clientSubscriptions.containsValue topic then
      sendError ("You must be subscribed to topic ".toList ++ text topic ++ " to send messages.".toList)
        (message.getHeader receiptKey) message
    else do
      let messageId ← Connections.getNextMessageId
      let subscribers ← Connections.getSubscribers topic
      sendMessages topic messageId message.body (AList.entries subscribers)

/-- A `switch` on a text calls a method of it. -/
def process : Throws State Unit := do
  let command ← deref message.command
  if command = "CONNECT".toList then handleConnect message
  else if command = "SEND".toList then handleSend message
  else if command = "SUBSCRIBE".toList then handleSubscribe message
  else if command = "UNSUBSCRIBE".toList then handleUnsubscribe message
  else if command = "DISCONNECT".toList then handleDisconnect message
  else
    sendError ("Invalid command: ".toList ++ command) (message.getHeader receiptKey) message

end StompMessagingProtocolImpl

end Stomp.Checked
