import Stomp.Client.ConnectionHandler
import Stomp.Client.Event
import Stomp.Base.HeaderLines

/-!
# The protocol of the client

The entries of a `std::map` stand in the order of its iteration.
-/

open Stomp.Split Stomp.Utf8

namespace Stomp.Client

abbrev Headers := Table Bytes Bytes

structure StompProtocol where
  connected : Bool
  stopCommunication : Bool
  errorOccured : Bool
  idCounter : Int
  receiptCounter : Int
  eventSummary : Table Bytes (List Event)
  receiptMap : Table Int Bytes
  subscriptionIds : Table Bytes Int

namespace StompProtocol

def initial : StompProtocol := ⟨false, false, false, 0, 0, ∅, ∅, ∅⟩

/-! ## Small methods -/

def getNextId (p : StompProtocol) : Int × StompProtocol :=
  (p.idCounter, { p with idCounter := Decimal.wrap (p.idCounter + 1) })

def getNextReceiptId (p : StompProtocol) : Int × StompProtocol :=
  (p.receiptCounter, { p with receiptCounter := Decimal.wrap (p.receiptCounter + 1) })

def hasSubscription (p : StompProtocol) (channel : Bytes) : Bool :=
  (p.subscriptionIds.lookup channel).isSome

def getSubscriptionId (p : StompProtocol) (channel : Bytes) : Int :=
  (p.subscriptionIds.lookup channel).getD (-1)

def storeSubscriptionId (p : StompProtocol) (channel : Bytes) (subscriptionId : Int) : StompProtocol :=
  { p with subscriptionIds := p.subscriptionIds.insert channel subscriptionId }

def removeSubscription (p : StompProtocol) (channel : Bytes) : StompProtocol :=
  { p with subscriptionIds := p.subscriptionIds.erase channel }

def storeReceipt (p : StompProtocol) (receiptId : Int) (requestType : Bytes) : StompProtocol :=
  { p with receiptMap := p.receiptMap.insert receiptId requestType }

/-! ## Sending -/

def headerLine (e : (_ : Bytes) × Bytes) : Bytes := e.1 ++ ascii ":" ++ e.2 ++ ascii "\n"

/-- The text that `send` builds. The NUL in its string literals ends them, and is not sent. -/
def frameStr (command : Bytes) (headers : Headers) (body : Bytes) : Bytes :=
  command ++ ascii "\n" ++ headers.entries.flatMap headerLine ++
    (if !body.isEmpty then ascii "\n" ++ body else ascii "\n")

def send (p : StompProtocol) (command : Bytes) (headers : Headers) (body : Bytes) (s : Socket) : Socket :=
  if !p.connected ∧ command ≠ ascii "CONNECT" then s
  else (sendFrameAscii (frameStr command headers body) 0 s).2

/-! ## Receiving -/

/-- What `parseFrame` takes out of a message. -/
structure Parsed where
  command : Bytes
  headers : Headers
  body : Bytes
  deriving DecidableEq

/-- One header line: `find(":")`, and an assignment if there is one. -/
def putHeader (headers : Headers) (line : Bytes) : Headers := HeaderLines.put colon headers line

/-- The loop over the header lines. It reads a line in each turn, so that there are fewer turns
than bytes. -/
def readHeaders : Nat → Headers → Option Bytes → Headers × Option Bytes
  | 0, headers, stream => (headers, stream)
  | fuel + 1, headers, stream =>
    match getline nl stream with
    | (none, stream) => (headers, stream)
    | (some line, stream) =>
      if line.isEmpty then (headers, stream) else readHeaders fuel (putHeader headers line) stream

def parse (message : Bytes) : Parsed :=
  let r := getline nl (some message)
  let q := readHeaders (message.length + 1) ∅ r.2
  ⟨r.1.getD [], q.1, (getline 0 q.2).1.getD []⟩

def handleConnected (p : StompProtocol) : StompProtocol := { p with connected := true }

/-- `none` is the exception of a missing destination, or of the constructor of the event. -/
def handleMessage (p : StompProtocol) (headers : Headers) (body : Bytes) : Option StompProtocol :=
  match headers.lookup (ascii "destination") with
  | none => none
  | some destination =>
    (Event.ofBody body).map fun newEvent =>
      { p with
        eventSummary := p.eventSummary.insert destination
          ((p.eventSummary.lookup destination).getD [] ++ [newEvent]) }

def handleError (p : StompProtocol) : StompProtocol :=
  { p with stopCommunication := true, errorOccured := true }

/-- `none` is the exception of `stoi`. -/
def handleReceipt (p : StompProtocol) (headers : Headers) : Option StompProtocol :=
  match headers.lookup (ascii "receipt-id") with
  | none => some p
  | some text =>
    match stoi text with
    | none => none
    | some receiptId =>
      match p.receiptMap.lookup receiptId with
      | none => some p
      | some requestType =>
        let p := if requestType = ascii "Logout" then { p with stopCommunication := true } else p
        some { p with receiptMap := p.receiptMap.erase receiptId }

/-- `none` is an exception that leaves `parseFrame`. -/
def parseFrame (p : StompProtocol) (message : Bytes) : Option StompProtocol :=
  let m := parse message
  if m.command = ascii "CONNECTED" then some p.handleConnected
  else if m.command = ascii "MESSAGE" then p.handleMessage m.headers m.body
  else if m.command = ascii "ERROR" then some p.handleError
  else if m.command = ascii "RECEIPT" then p.handleReceipt m.headers
  else some p

/-! ## What a message does -/

/-- The number that a RECEIPT brings back. -/
def Parsed.receiptId (m : Parsed) : Option Int := (m.headers.lookup (ascii "receipt-id")).bind stoi

/-- Everything that a message can do to the protocol object. -/
inductive Handles (p : StompProtocol) (m : Parsed) : StompProtocol → Prop
  | connected (hc : m.command = ascii "CONNECTED") : Handles p m p.handleConnected
  | message {destination : Bytes} {newEvent : Event} (hc : m.command = ascii "MESSAGE")
    (hd : m.headers.lookup (ascii "destination") = some destination)
    (he : Event.ofBody m.body = some newEvent) :
    Handles p m { p with
      eventSummary := p.eventSummary.insert destination
        ((p.eventSummary.lookup destination).getD [] ++ [newEvent]) }
  | error (hc : m.command = ascii "ERROR") : Handles p m p.handleError
  | unknown (hc : m.command = ascii "RECEIPT")
    (hid : ∀ id, m.receiptId = some id → p.receiptMap.lookup id = none) : Handles p m p
  | receipt {id : Int} {requestType : Bytes} (hc : m.command = ascii "RECEIPT")
    (hid : m.receiptId = some id) (ht : p.receiptMap.lookup id = some requestType) :
    Handles p m
      { (if requestType = ascii "Logout" then { p with stopCommunication := true } else p) with
        receiptMap := p.receiptMap.erase id }
  | other (hc : m.command ≠ ascii "CONNECTED" ∧ m.command ≠ ascii "MESSAGE" ∧
      m.command ≠ ascii "ERROR" ∧ m.command ≠ ascii "RECEIPT") : Handles p m p

theorem handleMessage_handles {p p' : StompProtocol} {m : Parsed} (hc : m.command = ascii "MESSAGE")
    (h : p.handleMessage m.headers m.body = some p') : Handles p m p' := by
  unfold handleMessage at h
  split at h
  · cases h
  · next destination hd =>
    obtain ⟨newEvent, he, rfl⟩ := Option.map_eq_some_iff.mp h
    exact .message hc hd he

theorem handleReceipt_handles {p p' : StompProtocol} {m : Parsed} (hc : m.command = ascii "RECEIPT")
    (h : p.handleReceipt m.headers = some p') : Handles p m p' := by
  unfold handleReceipt at h
  split at h
  · next hnone =>
    cases h
    exact .unknown hc (by simp [Parsed.receiptId, hnone])
  next text htext =>
  split at h
  · cases h
  next id hid =>
  have hreceipt : m.receiptId = some id := by simp [Parsed.receiptId, htext, hid]
  split at h
  · next hnone =>
    cases h
    refine .unknown hc fun id' hid' => ?_
    cases hreceipt.symm.trans hid'
    exact hnone
  · next requestType ht =>
    cases h
    have hmap : (if requestType = ascii "Logout" then { p with stopCommunication := true }
        else p).receiptMap = p.receiptMap := by split <;> rfl
    rw [hmap]
    exact .receipt hc hreceipt ht

theorem parseFrame_handles {p p' : StompProtocol} {message : Bytes}
    (h : p.parseFrame message = some p') : Handles p (parse message) p' := by
  unfold parseFrame at h
  dsimp only at h
  split at h
  · next hc =>
    cases h
    exact .connected hc
  next hconnected =>
  split at h
  · next hc => exact handleMessage_handles hc h
  next hmessage =>
  split at h
  · next hc =>
    cases h
    exact .error hc
  next herror =>
  split at h
  · next hc => exact handleReceipt_handles hc h
  · next hreceipt =>
    cases h
    exact .other ⟨hconnected, hmessage, herror, hreceipt⟩

end StompProtocol

end Stomp.Client
