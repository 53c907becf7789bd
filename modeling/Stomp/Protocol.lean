import Stomp.Connections
import Stomp.Base.Prog

/-!
# The messaging protocol of one connection

A handler is a program of calls on the shared tables. It reads the fields of its own
session as they were when `process` began: no other thread writes them.
-/

namespace Stomp

structure StompMessagingProtocolImpl where
  connectionId : ConnectionId
  shouldTerminate : Bool
  connected : Bool
  clientSubscriptions : Table Int Text

/-- One step of a handler: a write to the fields of the session, or a method of `Connections`. -/
inductive Call where
  | put (session : StompMessagingProtocolImpl)
  | send (connectionId : ConnectionId) (msg : StompFrame)
  | disconnect (connectionId : ConnectionId)
  | authenticateUser (connectionId : ConnectionId) (username password : Text)
  | isUserActive (username : Text)
  | getNextMessageId
  | addSubscription (topic : Text) (connectionId : ConnectionId) (subscriptionId : Int)
  | removeSubscription (topic : Text) (connectionId : ConnectionId)
  | getSubscribers (topic : Text)

/-- What a call answers. The map of `getSubscribers` stays shared: the answer stands for the entries
that the loop over it is given. -/
@[reducible]
def Reply : Call → Type
  | .put _ => Unit
  | .send _ _ => Bool
  | .disconnect _ => Unit
  | .authenticateUser _ _ _ => Bool
  | .isUserActive _ => Bool
  | .getNextMessageId => Int
  | .addSubscription _ _ _ => Unit
  | .removeSubscription _ _ => Unit
  | .getSubscribers _ => List ((_ : ConnectionId) × Int)

abbrev Handler := Prog Call Reply Unit

namespace Connections

abbrev send (connectionId : ConnectionId) (msg : StompFrame) : Prog Call Reply Bool :=
  Prog.op (Call.send connectionId msg)

abbrev disconnect (connectionId : ConnectionId) : Handler := Prog.op (Call.disconnect connectionId)

abbrev authenticateUser (connectionId : ConnectionId) (username password : Text) :
    Prog Call Reply Bool :=
  Prog.op (Call.authenticateUser connectionId username password)

abbrev isUserActive (username : Text) : Prog Call Reply Bool := Prog.op (Call.isUserActive username)

abbrev getNextMessageId : Prog Call Reply Int := Prog.op Call.getNextMessageId

abbrev addSubscription (topic : Text) (connectionId : ConnectionId) (subscriptionId : Int) : Handler :=
  Prog.op (Call.addSubscription topic connectionId subscriptionId)

abbrev removeSubscription (topic : Text) (connectionId : ConnectionId) : Handler :=
  Prog.op (Call.removeSubscription topic connectionId)

abbrev getSubscribers (topic : Text) : Prog Call Reply (List ((_ : ConnectionId) × Int)) :=
  Prog.op (Call.getSubscribers topic)

end Connections

namespace StompMessagingProtocolImpl

abbrev put (session : StompMessagingProtocolImpl) : Handler := Prog.op (Call.put session)

/-- `start` on a new protocol object. -/
def start (connectionId : ConnectionId) : StompMessagingProtocolImpl :=
  ⟨connectionId, false, false, ∅⟩

/-! ## The frames of the server -/

def receiptKey : Text := "receipt".toList

def connectedFrame : StompFrame where
  command := "CONNECTED".toList
  headers := Table.ofPairs [("version".toList, "1.2".toList)]
  body := []

def receiptFrame (receiptId : Text) : StompFrame where
  command := "RECEIPT".toList
  headers := Table.ofPairs [("receipt-id".toList, receiptId)]
  body := []

def messageFrame (topic : Text) (subscriptionId messageId : Int) (body : Text) : StompFrame where
  command := "MESSAGE".toList
  headers := Table.ofPairs [("destination".toList, topic),
    ("subscription".toList, Decimal.valueOf subscriptionId),
    ("message-id".toList, Decimal.valueOf messageId)]
  body := body

theorem receiptFrame_has (receiptId : Text) :
    (receiptFrame receiptId).Has "RECEIPT" [("receipt-id".toList, receiptId)] [] :=
  StompFrame.has_ofPairs "RECEIPT" [] (List.nodup_singleton _)

theorem messageFrame_has (topic : Text) (subscriptionId messageId : Int) (body : Text) :
    (messageFrame topic subscriptionId messageId body).Has "MESSAGE"
      [("destination".toList, topic), ("subscription".toList, Decimal.valueOf subscriptionId),
        ("message-id".toList, Decimal.valueOf messageId)] body :=
  StompFrame.has_ofPairs "MESSAGE" body (by
    show (["destination".toList, "subscription".toList, "message-id".toList] : List Text).Nodup
    decide)

def errorBody (errorMessage : Text) (originalMessage : StompFrame) : Text :=
  "The message:\n".toList ++ "-----\n".toList ++ originalMessage.toString ++ "\n".toList ++
    "-----\n".toList ++ "Reason: ".toList ++ errorMessage

def errorFrame (errorMessage : Text) (receiptId : Option Text) (originalMessage : StompFrame) :
    StompFrame where
  command := "ERROR".toList
  headers :=
    let headers := Table.ofPairs [("message".toList, ' ' :: errorMessage)]
    match receiptId with
    | some receiptId => headers.insert "receipt-id".toList receiptId
    | none => headers
  body := errorBody errorMessage originalMessage

/-! ## The handlers -/

variable (self : StompMessagingProtocolImpl) (message : StompFrame)

def sendError (errorMessage : Text) (receiptId : Option Text) (originalMessage : StompFrame) :
    Handler := do
  let _ ← Connections.send self.connectionId (errorFrame errorMessage receiptId originalMessage)
  put { self with shouldTerminate := true }

def sendReceiptIfRequested (receiptId : Option Text) : Handler :=
  match receiptId with
  | some receiptId => do
    let _ ← Connections.send self.connectionId (receiptFrame receiptId)
    pure ()
  | none => pure ()

def handleConnect : Handler :=
  if self.connected then
    sendError self "User already logged in".toList (message.getHeader receiptKey) message
  else
    let receiptId := message.getHeader receiptKey
    match message.getHeader "accept-version".toList, message.getHeader "login".toList,
      message.getHeader "passcode".toList, message.getHeader "host".toList with
    | some _, some login, some passcode, some _ => do
      let active ← Connections.isUserActive login
      if active then sendError self "User already logged in".toList receiptId message
      else
        let authenticated ← Connections.authenticateUser self.connectionId login passcode
        if !authenticated then
          sendError self ("Invalid password for user: ".toList ++ login)
            (message.getHeader receiptKey) message
        else
          let self := { self with connected := true }
          put self
          let _ ← Connections.send self.connectionId connectedFrame
          sendReceiptIfRequested self receiptId
    | _, _, _, _ =>
      sendError self
        "Missing required headers in CONNECT. Required: accept-version, login, passcode, host".toList
        receiptId message

/-- The loop of `handleDisconnect` over the topics of the session. -/
def removeSubscriptions : List Text → Handler
  | [] => pure ()
  | topic :: topics => do
    Connections.removeSubscription topic self.connectionId
    removeSubscriptions topics

def handleDisconnect : Handler :=
  if !self.connected then
    sendError self "User is already disconnected.".toList (message.getHeader receiptKey) message
  else do
    let self := { self with shouldTerminate := true }
    put self
    removeSubscriptions self self.clientSubscriptions.values
    let self := { self with clientSubscriptions := ∅ }
    put self
    sendReceiptIfRequested self (message.getHeader receiptKey)
    Connections.disconnect self.connectionId

def handleSubscribe : Handler :=
  if !self.connected then
    sendError self "SUBSCRIBE received before CONNECT".toList (message.getHeader receiptKey) message
  else
    match message.getHeader "destination".toList, message.getHeader "id".toList with
    | some topic, some subscriptionIdStr =>
      match Decimal.parseInt subscriptionIdStr with
      | none =>
        sendError self ("Invalid subscription ID format: ".toList ++ subscriptionIdStr)
          (message.getHeader receiptKey) message
      | some subscriptionId => do
        let self := { self with
          clientSubscriptions := self.clientSubscriptions.insert subscriptionId topic }
        put self
        Connections.addSubscription topic self.connectionId subscriptionId
        sendReceiptIfRequested self (message.getHeader receiptKey)
    | _, _ =>
      sendError self "Missing required headers in SUBSCRIBE. Required: destination, id".toList
        (message.getHeader receiptKey) message

def handleUnsubscribe : Handler :=
  if !self.connected then
    sendError self "UNSUBSCRIBE received before CONNECT".toList (message.getHeader receiptKey) message
  else
    match message.getHeader "id".toList with
    | none =>
      sendError self "Missing `id` header in UNSUBSCRIBE".toList (message.getHeader receiptKey) message
    | some subscriptionIdStr =>
      match Decimal.parseInt subscriptionIdStr with
      | none =>
        sendError self ("Invalid subscription ID format: ".toList ++ subscriptionIdStr)
          (message.getHeader receiptKey) message
      | some subscriptionId =>
        match self.clientSubscriptions.lookup subscriptionId with
        | none =>
          sendError self "Attempted unsubscribing from a channel not subscribed to.".toList
            (message.getHeader receiptKey) message
        | some topic => do
          let self := { self with
            clientSubscriptions := self.clientSubscriptions.erase subscriptionId }
          put self
          Connections.removeSubscription topic self.connectionId
          sendReceiptIfRequested self (message.getHeader receiptKey)

/-- The loop of `handleSend` over the entries of the subscriber map. -/
def sendMessages (topic : Text) (messageId : Int) (body : Text) :
    List ((_ : ConnectionId) × Int) → Handler
  | [] => pure ()
  | entry :: entries => do
    let _ ← Connections.send entry.1 (messageFrame topic entry.2 messageId body)
    sendMessages topic messageId body entries

def handleSend : Handler :=
  if !self.connected then
    sendError self "SEND received before CONNECT".toList (message.getHeader receiptKey) message
  else
    match message.getHeader "destination".toList with
    | none =>
      sendError self "Missing destination header in SEND".toList (message.getHeader receiptKey) message
    | some topic =>
      if !self.clientSubscriptions.containsValue topic then
        sendError self
          ("You must be subscribed to topic ".toList ++ topic ++ " to send messages.".toList)
          (message.getHeader receiptKey) message
      else do
        let messageId ← Connections.getNextMessageId
        let subscribers ← Connections.getSubscribers topic
        sendMessages topic messageId message.body subscribers

def process : Handler :=
  if message.command = "CONNECT".toList then handleConnect self message
  else if message.command = "SEND".toList then handleSend self message
  else if message.command = "SUBSCRIBE".toList then handleSubscribe self message
  else if message.command = "UNSUBSCRIBE".toList then handleUnsubscribe self message
  else if message.command = "DISCONNECT".toList then handleDisconnect self message
  else
    sendError self ("Invalid command: ".toList ++ message.command) (message.getHeader receiptKey)
      message

end StompMessagingProtocolImpl

end Stomp
