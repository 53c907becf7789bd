import Stomp.Protocol

/-!
# The calls of the handlers

A handler that answers no CONNECT makes calls of few kinds only. `Permits` lists them. A CONNECT
that gets as far as `isUserActive` goes through the stages below.
-/

namespace Stomp

namespace StompMessagingProtocolImpl

/-! ## The stages of a CONNECT -/

variable (p : StompMessagingProtocolImpl) (f : StompFrame)

/-- After `authenticateUser` and the write of `connected`. -/
def welcome : Handler :=
  .call (.send p.connectionId connectedFrame) fun _ =>
    sendReceiptIfRequested p (f.getHeader receiptKey)

def connect : Handler :=
  .call (.put { p with connected := true }) fun _ => welcome { p with connected := true } f

def authenticate (login passcode : Text) : Handler :=
  .call (.authenticateUser p.connectionId login passcode) fun authenticated =>
    if !authenticated then
      sendError p ("Invalid password for user: ".toList ++ login) (f.getHeader receiptKey) f
    else connect p f

def checkActive (login passcode : Text) : Handler :=
  .call (.isUserActive login) fun active =>
    if active then sendError p "User already logged in".toList (f.getHeader receiptKey) f
    else authenticate p f login passcode

theorem handleConnect_cases : (∃ reason, handleConnect p f =
      sendError p reason (f.getHeader receiptKey) f) ∨
    p.connected = false ∧ ∃ login passcode, f.getHeader "login".toList = some login ∧
      handleConnect p f = checkActive p f login passcode := by
  unfold handleConnect
  split
  · exact .inl ⟨_, rfl⟩
  next hcon =>
  dsimp only
  split
  · next login passcode _ _ hlogin _ _ =>
    exact .inr ⟨by simpa using hcon, login, passcode, hlogin, rfl⟩
  · exact .inl ⟨_, rfl⟩

/-! ## The kinds of calls -/

/-- Calls that a session with a frame may make without logging in. -/
structure Permits (P : Call → Prop) (p : StompMessagingProtocolImpl) (f : StompFrame) : Prop where
  put : ∀ q : StompMessagingProtocolImpl, q.connectionId = p.connectionId →
    q.connected = p.connected → P (.put q)
  sendError : ∀ reason receiptId, P (.send p.connectionId (errorFrame reason receiptId f))
  sendReceipt : ∀ receiptId, P (.send p.connectionId (receiptFrame receiptId))
  sendMessage : ∀ c topic id messageId body, P (.send c (messageFrame topic id messageId body))
  disconnect : P (.disconnect p.connectionId)
  isUserActive : ∀ login, P (.isUserActive login)
  getNextMessageId : P .getNextMessageId
  addSubscription : ∀ topic id, P (.addSubscription topic p.connectionId id)
  removeSubscription : ∀ topic, P (.removeSubscription topic p.connectionId)
  getSubscribers : ∀ topic, P (.getSubscribers topic)

namespace Permits

variable {P : Call → Prop} {p : StompMessagingProtocolImpl} {f : StompFrame} (h : Permits P p f)

include h

theorem calls_sendError (reason : Text) (receiptId : Option Text) :
    (p.sendError reason receiptId f).Calls P :=
  ⟨h.sendError reason receiptId, fun _ => ⟨h.put _ rfl rfl, fun _ => trivial⟩⟩

theorem calls_sendReceipt {q : StompMessagingProtocolImpl} (hq : q.connectionId = p.connectionId)
    (receiptId : Option Text) : (sendReceiptIfRequested q receiptId).Calls P := by
  cases receiptId with
  | none => trivial
  | some r => exact ⟨hq ▸ h.sendReceipt r, fun _ => trivial⟩

theorem calls_removeSubscriptions {q : StompMessagingProtocolImpl}
    (hq : q.connectionId = p.connectionId) (topics : List Text) :
    (removeSubscriptions q topics).Calls P := by
  induction topics with
  | nil => trivial
  | cons topic topics ih => exact ⟨hq ▸ h.removeSubscription topic, fun _ => ih⟩

theorem calls_sendMessages (topic body : Text) (messageId : Int)
    (entries : List ((_ : ConnectionId) × Int)) :
    (sendMessages topic messageId body entries).Calls P := by
  induction entries with
  | nil => trivial
  | cons e entries ih => exact ⟨h.sendMessage _ _ _ _ _, fun _ => ih⟩

theorem calls_handleDisconnect : (handleDisconnect p f).Calls P := by
  unfold handleDisconnect
  split
  · exact h.calls_sendError _ _
  rw [Prog.op_bind]
  refine ⟨h.put _ rfl rfl, fun _ => Prog.calls_bind (h.calls_removeSubscriptions (by rfl) _) fun _ => ?_⟩
  rw [Prog.op_bind]
  refine ⟨h.put _ rfl rfl, fun _ => Prog.calls_bind (h.calls_sendReceipt rfl _) fun _ => ?_⟩
  exact ⟨h.disconnect, fun _ => trivial⟩

theorem calls_handleSubscribe : (handleSubscribe p f).Calls P := by
  unfold handleSubscribe
  split
  · exact h.calls_sendError _ _
  split
  · split
    · exact h.calls_sendError _ _
    · exact ⟨h.put _ rfl rfl, fun _ => ⟨h.addSubscription _ _, fun _ => h.calls_sendReceipt rfl _⟩⟩
  · exact h.calls_sendError _ _

theorem calls_handleUnsubscribe : (handleUnsubscribe p f).Calls P := by
  unfold handleUnsubscribe
  split
  · exact h.calls_sendError _ _
  split
  · exact h.calls_sendError _ _
  split
  · exact h.calls_sendError _ _
  split
  · exact h.calls_sendError _ _
  · exact ⟨h.put _ rfl rfl, fun _ => ⟨h.removeSubscription _, fun _ => h.calls_sendReceipt rfl _⟩⟩

theorem calls_handleSend : (handleSend p f).Calls P := by
  unfold handleSend
  split
  · exact h.calls_sendError _ _
  split
  · exact h.calls_sendError _ _
  split
  · exact h.calls_sendError _ _
  · exact ⟨h.getNextMessageId, fun _ => ⟨h.getSubscribers _, fun _ => h.calls_sendMessages _ _ _ _⟩⟩

theorem process_cases : (p.process f).Calls P ∨
    p.connected = false ∧ ∃ login passcode, f.getHeader "login".toList = some login ∧
      p.process f = checkActive p f login passcode := by
  unfold StompMessagingProtocolImpl.process
  split
  · obtain ⟨reason, heq⟩ | hconnect := handleConnect_cases p f
    · exact .inl (heq ▸ h.calls_sendError _ _)
    · exact .inr hconnect
  split
  · exact .inl h.calls_handleSend
  split
  · exact .inl h.calls_handleSubscribe
  split
  · exact .inl h.calls_handleUnsubscribe
  split
  · exact .inl h.calls_handleDisconnect
  · exact .inl (h.calls_sendError _ _)

end Permits

/-! ## Calls under the session's own id -/

/-- A call that changes the tables for the connection `c` only. -/
def Own (c : ConnectionId) : Call → Prop
  | .put q => q.connectionId = c
  | .disconnect d => d = c
  | .authenticateUser d _ _ => d = c
  | .addSubscription _ d _ => d = c
  | .removeSubscription _ d => d = c
  | _ => True

theorem own_permits : Permits (Own p.connectionId) p f where
  put _ hid _ := hid
  sendError _ _ := trivial
  sendReceipt _ := trivial
  sendMessage _ _ _ _ _ := trivial
  disconnect := rfl
  isUserActive _ := trivial
  getNextMessageId := trivial
  addSubscription _ _ := rfl
  removeSubscription _ := rfl
  getSubscribers _ := trivial

theorem process_own : (p.process f).Calls (Own p.connectionId) := by
  have h := own_permits p f
  obtain hcalls | ⟨-, login, passcode, -, heq⟩ := h.process_cases
  · exact hcalls
  · rw [heq]
    refine ⟨trivial, fun active => Prog.calls_ite (fun _ => h.calls_sendError _ _) fun _ => ?_⟩
    refine ⟨rfl, fun authenticated => Prog.calls_ite (fun _ => h.calls_sendError _ _) fun _ => ?_⟩
    exact ⟨rfl, fun _ => ⟨trivial, fun _ => h.calls_sendReceipt rfl _⟩⟩

end StompMessagingProtocolImpl

end Stomp
