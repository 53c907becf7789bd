import Stomp.Client.Commands
import Stomp.Base.Prog

/-!
# The calls of the client

The branches of `main`, call by call. Between two calls the communication thread may handle a frame,
and the server may read what is written so far.
-/

open Stomp.Split Stomp.Utf8

namespace Stomp.Client

inductive Call where
  /-- `isConnected`, and the look at `connected` in `send`. -/
  | isConnected
  | hasSubscription (channel : Bytes)
  | getNextId
  | getNextReceiptId
  | getSubscriptionId (channel : Bytes)
  | removeSubscription (channel : Bytes)
  | storeReceipt (receiptId : Int) (requestType : Bytes)
  | storeSubscriptionId (channel : Bytes) (subscriptionId : Int)
  /-- A byte that `write_some` takes. -/
  | write (b : UInt8)
  /-- `communicator.join()` -/
  | join

/-- What a call answers. -/
@[reducible]
def Reply : Call → Type
  | .isConnected => Bool
  | .hasSubscription _ => Bool
  | .getNextId => Int
  | .getNextReceiptId => Int
  | .getSubscriptionId _ => Int
  | .removeSubscription _ => Unit
  | .storeReceipt _ _ => Unit
  | .storeSubscriptionId _ _ => Unit
  | .write _ => Unit
  | .join => Unit

/-- A branch of `main`, or a part of it. -/
abbrev Branch := Prog Call Reply Unit

namespace Call

abbrev removes (channel : Bytes) : Branch := Prog.op (removeSubscription channel)

abbrev stores (receiptId : Int) (requestType : Bytes) : Branch :=
  Prog.op (storeReceipt receiptId requestType)

abbrev subscribes (channel : Bytes) (subscriptionId : Int) : Branch :=
  Prog.op (storeSubscriptionId channel subscriptionId)

abbrev writes (b : UInt8) : Branch := Prog.op (write b)

abbrev joins : Branch := Prog.op join

end Call

namespace Branch

open Prog Call

/-! ## Sending -/

def sendBytes : Bytes → Branch
  | [] => pure ()
  | b :: bytes => do
    writes b
    sendBytes bytes

def sendFrameAscii (frame : Bytes) (delimiter : UInt8) : Branch := do
  sendBytes frame
  sendBytes [delimiter]

def send (command : Bytes) (headers : Headers) (body : Bytes) : Branch := do
  let connected ← op isConnected
  if !connected ∧ command ≠ ascii "CONNECT" then pure ()
  else sendFrameAscii (StompProtocol.frameStr command headers body) 0

def sendFrame (m : Framing.ClientFrame) : Branch := send m.command m.headers m.body

/-! ## The branches -/

def join (channel : Bytes) : Branch := do
  let connected ← op isConnected
  if !connected then pure ()
  else
    let subscribed ← op (hasSubscription channel)
    if subscribed then pure ()
    else
      let subscriptionId ← op getNextId
      let receiptId ← op getNextReceiptId
      stores receiptId (ascii "Joined channel " ++ channel)
      subscribes channel subscriptionId
      sendFrame (subscribeFrame channel subscriptionId receiptId)

def exit (channel : Bytes) : Branch := do
  let connected ← op isConnected
  if !connected then pure ()
  else
    let receiptId ← op getNextReceiptId
    let subscriptionId ← op (getSubscriptionId channel)
    if subscriptionId = -1 then pure ()
    else
      removes channel
      stores receiptId (ascii "Exited channel " ++ channel)
      sendFrame (unsubscribeFrame subscriptionId receiptId)

/-- The loop over the events of a report. -/
def sendEvents (username channel_name : Bytes) : List Event → Branch
  | [] => pure ()
  | event :: events => do
    sendFrame (reportFrame username channel_name event)
    sendEvents username channel_name events

def report (username channel_name : Bytes) (events : List Event) : Branch := do
  let connected ← op isConnected
  if !connected then pure () else sendEvents username channel_name events

def logout : Branch := do
  let connected ← op isConnected
  if !connected then pure ()
  else
    let receiptId ← op getNextReceiptId
    stores receiptId (ascii "Logout")
    sendFrame (disconnectFrame receiptId)
    joins

end Branch

def Command.branch (username : Bytes) : Command → Branch
  | .join channel => Branch.join channel
  | .exit channel => Branch.exit channel
  | .report channel_name events => Branch.report username channel_name events
  | .logout => Branch.logout

/-! ## What only `main` uses -/

/-- The members of the protocol object that the communication thread does not touch. -/
structure Own where
  idCounter : Int
  receiptCounter : Int
  subscriptionIds : Table Bytes Int

namespace StompProtocol

variable (p : StompProtocol)

def own : Own := ⟨p.idCounter, p.receiptCounter, p.subscriptionIds⟩

def withOwn (o : Own) : StompProtocol :=
  { p with
    idCounter := o.idCounter, receiptCounter := o.receiptCounter, subscriptionIds := o.subscriptionIds }

@[simp]
theorem own_withOwn (o : Own) : (p.withOwn o).own = o := rfl

@[simp]
theorem withOwn_own : p.withOwn p.own = p := rfl

@[simp]
theorem withOwn_withOwn (o o' : Own) : (p.withOwn o).withOwn o' = p.withOwn o' := rfl

theorem handleMessage_withOwn (o : Own) (headers : Headers) (body : Bytes) :
    (p.withOwn o).handleMessage headers body = (p.handleMessage headers body).map (·.withOwn o) := by
  unfold handleMessage
  cases headers.lookup (ascii "destination") with
  | none => rfl
  | some destination =>
    dsimp only
    rw [Option.map_map]
    rfl

theorem handleReceipt_withOwn (o : Own) (headers : Headers) :
    (p.withOwn o).handleReceipt headers = (p.handleReceipt headers).map (·.withOwn o) := by
  unfold handleReceipt
  cases headers.lookup (ascii "receipt-id") with
  | none => rfl
  | some text =>
    dsimp only
    cases stoi text with
    | none => rfl
    | some receiptId =>
      dsimp only
      have hmap : (p.withOwn o).receiptMap = p.receiptMap := rfl
      rw [hmap]
      cases p.receiptMap.lookup receiptId with
      | none => rfl
      | some requestType =>
        dsimp only
        split <;> rfl

theorem parseFrame_withOwn (o : Own) (message : Bytes) :
    (p.withOwn o).parseFrame message = (p.parseFrame message).map (·.withOwn o) := by
  unfold parseFrame
  dsimp only
  split
  · rfl
  split
  · exact p.handleMessage_withOwn o _ _
  split
  · rfl
  split
  · exact p.handleReceipt_withOwn o _
  · rfl

theorem parseFrame_own {p p' : StompProtocol} {message : Bytes} (h : p.parseFrame message = some p') :
    p'.own = p.own := by
  have hown := p.parseFrame_withOwn p.own message
  rw [withOwn_own, h, Option.map_some, Option.some.injEq] at hown
  rw [hown]
  rfl

end StompProtocol

end Stomp.Client
