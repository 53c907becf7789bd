import Stomp.Protocol
import Stomp.Base.Run

/-!
# The server, one frame at a time

`process` runs a handler in one go. `Outcome` says everything that it can do.
-/

namespace Stomp

abbrev Session := StompMessagingProtocolImpl

open StompMessagingProtocolImpl

/-- A frame that was handed to `Connections.send`, which finds a registered handler or does nothing. -/
structure Sent where
  connectionId : ConnectionId
  msg : StompFrame
  delivered : Bool
  deriving DecidableEq

structure Server where
  connections : ConnectionsImpl
  sessions : Table ConnectionId Session
  connectionCounter : Nat
  ids : ∀ c p, sessions.lookup c = some p → p.connectionId = c

namespace Server

def initial : Server := ⟨.initial, ∅, 0, fun c p h => by simp at h⟩

def setSession (s : Server) (p : Session) : Server :=
  { s with
    sessions := s.sessions.insert p.connectionId p
    ids := fun c q h => by
      rw [Table.lookup_insert_if] at h
      split at h
      · next hc => cases h; exact hc.symm
      · exact s.ids c q h }

def setConnections (s : Server) (x : ConnectionsImpl) : Server := { s with connections := x }

/-! ## Calls -/

/-- Each call with no other thread in between: no map changes under a loop, and nothing throws. -/
def answer : Prog.Answer Call Reply (Server × List Sent)
  | .put p, (s, out) => ((), s.setSession p, out)
  | .send c msg, (s, out) =>
    let delivered := s.connections.isRegistered c
    (delivered, s, out ++ [⟨c, msg, delivered⟩])
  | .disconnect c, (s, out) => ((), s.setConnections (s.connections.disconnect c), out)
  | .authenticateUser c u w, (s, out) =>
    let r := s.connections.authenticateUser c u w
    (r.1, s.setConnections r.2, out)
  | .isUserActive u, (s, out) => (s.connections.isUserActive u, s, out)
  | .getNextMessageId, (s, out) =>
    let r := s.connections.getNextMessageId
    (r.1, s.setConnections r.2, out)
  | .addSubscription t c i, (s, out) =>
    ((), s.setConnections (s.connections.addSubscription t c i), out)
  | .removeSubscription t c, (s, out) =>
    ((), s.setConnections (s.connections.removeSubscription t c), out)
  | .getSubscribers t, (s, out) => (AList.entries (s.connections.getSubscribers t), s, out)

section Run

variable (s : Server) (out : List Sent)

@[simp] theorem run_put (p : Session) (k : Unit → Handler) :
    (Prog.call (.put p) k).run answer (s, out) = (k ()).run answer (s.setSession p, out) := rfl

@[simp] theorem run_send (c : ConnectionId) (msg : StompFrame) (k : Bool → Handler) :
    (Prog.call (.send c msg) k).run answer (s, out) =
      (k (s.connections.isRegistered c)).run answer
        (s, out ++ [⟨c, msg, s.connections.isRegistered c⟩]) := rfl

@[simp] theorem run_authenticateUser (c : ConnectionId) (u w : Text) (k : Bool → Handler) :
    (Prog.call (.authenticateUser c u w) k).run answer (s, out) =
      (k (s.connections.authenticateUser c u w).1).run answer
        (s.setConnections (s.connections.authenticateUser c u w).2, out) := rfl

@[simp] theorem run_isUserActive (u : Text) (k : Bool → Handler) :
    (Prog.call (.isUserActive u) k).run answer (s, out) =
      (k (s.connections.isUserActive u)).run answer (s, out) := rfl

@[simp] theorem run_getNextMessageId (k : Int → Handler) :
    (Prog.call .getNextMessageId k).run answer (s, out) =
      (k s.connections.getNextMessageId.1).run answer
        (s.setConnections s.connections.getNextMessageId.2, out) := rfl

@[simp] theorem run_addSubscription (t : Text) (c : ConnectionId) (i : Int) (k : Unit → Handler) :
    (Prog.call (.addSubscription t c i) k).run answer (s, out) =
      (k ()).run answer (s.setConnections (s.connections.addSubscription t c i), out) := rfl

@[simp] theorem run_removeSubscription (t : Text) (c : ConnectionId) (k : Unit → Handler) :
    (Prog.call (.removeSubscription t c) k).run answer (s, out) =
      (k ()).run answer (s.setConnections (s.connections.removeSubscription t c), out) := rfl

@[simp] theorem run_getSubscribers (t : Text)
    (k : List ((_ : ConnectionId) × Int) → Handler) :
    (Prog.call (.getSubscribers t) k).run answer (s, out) =
      (k (AList.entries (s.connections.getSubscribers t))).run answer (s, out) := rfl

end Run

/-- A whole handler, with the frames it handed to `send`. -/
def exec (s : Server) (h : Handler) : Server × List Sent := (h.run answer (s, [])).2

/-- `process` of the connection's protocol object. -/
def process (s : Server) (c : ConnectionId) (f : StompFrame) : Server × List Sent :=
  match s.sessions.lookup c with
  | some p => s.exec (p.process f)
  | none => (s, [])

/-! ## What a handler can do -/

/-- `Connections.send` to a connection in a server state. -/
def sent (s : Server) (c : ConnectionId) (msg : StompFrame) : Sent :=
  ⟨c, msg, s.connections.isRegistered c⟩

/-- The receipt that a frame asks for. -/
def receipts (s : Server) (c : ConnectionId) (f : StompFrame) : List Sent :=
  (f.getHeader receiptKey).toList.map fun r => s.sent c (receiptFrame r)

/-- The messages that one SEND makes. -/
def messages (s : Server) (topic : Text) (messageId : Int) (body : Text) : List Sent :=
  (s.connections.getSubscribers topic).entries.map fun e =>
    s.sent e.1 (messageFrame topic e.2 messageId body)

/-- A CONNECT that logs its session in. -/
structure Connects (x : ConnectionsImpl) (p : Session) (f : StompFrame) (login passcode : Text) : Prop where
  command : f.command = "CONNECT".toList
  fresh : p.connected = false
  version : ∃ v, f.getHeader "accept-version".toList = some v
  host : ∃ v, f.getHeader "host".toList = some v
  login_eq : f.getHeader "login".toList = some login
  passcode_eq : f.getHeader "passcode".toList = some passcode
  inactive : x.isUserActive login = false
  authentic : (x.authenticateUser p.connectionId login passcode).1 = true

structure Subscribes (p : Session) (f : StompFrame) (topic : Text) (id : Int) : Prop where
  command : f.command = "SUBSCRIBE".toList
  connected : p.connected = true
  destination : f.getHeader "destination".toList = some topic
  id_eq : (f.getHeader "id".toList).bind Decimal.parseInt = some id

structure Unsubscribes (p : Session) (f : StompFrame) (topic : Text) (id : Int) : Prop where
  command : f.command = "UNSUBSCRIBE".toList
  connected : p.connected = true
  id_eq : (f.getHeader "id".toList).bind Decimal.parseInt = some id
  held : p.clientSubscriptions.lookup id = some topic

structure Sends (p : Session) (f : StompFrame) (topic : Text) : Prop where
  command : f.command = "SEND".toList
  connected : p.connected = true
  destination : f.getHeader "destination".toList = some topic
  held : p.clientSubscriptions.containsValue topic = true

structure Disconnects (p : Session) (f : StompFrame) : Prop where
  command : f.command = "DISCONNECT".toList
  connected : p.connected = true

/-- The frame is carried out, not answered with an ERROR. -/
inductive Accepts (x : ConnectionsImpl) (p : Session) (f : StompFrame) : Prop
  | connect {login passcode} (h : Connects x p f login passcode)
  | subscribe {topic id} (h : Subscribes p f topic id)
  | unsubscribe {topic id} (h : Unsubscribes p f topic id)
  | send {topic} (h : Sends p f topic)
  | disconnect (h : Disconnects p f)

/-- Everything that processing a frame can do. -/
inductive Outcome (s : Server) (p : Session) (f : StompFrame) : Server × List Sent → Prop
  | refused (reason : Text) (h : ¬ Accepts s.connections p f) :
    Outcome s p f (s.setSession { p with shouldTerminate := true },
      [s.sent p.connectionId (errorFrame reason (f.getHeader receiptKey) f)])
  | connect {login passcode : Text} (h : Connects s.connections p f login passcode) :
    Outcome s p f
      ((s.setConnections (s.connections.authenticateUser p.connectionId login passcode).2).setSession
        { p with connected := true },
      s.sent p.connectionId connectedFrame :: s.receipts p.connectionId f)
  | subscribe {topic : Text} {id : Int} (h : Subscribes p f topic id) :
    Outcome s p f
      ((s.setConnections (s.connections.addSubscription topic p.connectionId id)).setSession
        { p with clientSubscriptions := p.clientSubscriptions.insert id topic },
      s.receipts p.connectionId f)
  | unsubscribe {topic : Text} {id : Int} (h : Unsubscribes p f topic id) :
    Outcome s p f
      ((s.setConnections (s.connections.removeSubscription topic p.connectionId)).setSession
        { p with clientSubscriptions := p.clientSubscriptions.erase id },
      s.receipts p.connectionId f)
  | send {topic : Text} (h : Sends p f topic) :
    Outcome s p f (s.setConnections s.connections.getNextMessageId.2,
      s.messages topic s.connections.getNextMessageId.1 f.body)
  | disconnect (h : Disconnects p f) :
    Outcome s p f
      ((s.setConnections ((p.clientSubscriptions.values.foldl
          (fun x topic => x.removeSubscription topic p.connectionId) s.connections).disconnect
            p.connectionId)).setSession
        { p with shouldTerminate := true, clientSubscriptions := ∅ },
      s.receipts p.connectionId f)

/-! ## The handlers one by one -/

@[simp] theorem setSession_setSession (s : Server) (p q : Session)
    (h : p.connectionId = q.connectionId) : (s.setSession p).setSession q = s.setSession q := by
  simp only [setSession, Server.mk.injEq, true_and, and_true]
  rw [h, AList.insert_insert]

theorem run_sendReceipt (s : Server) (out : List Sent) (p : Session) (f : StompFrame) :
    ((sendReceiptIfRequested p (f.getHeader receiptKey)).run answer (s, out)).2 =
      (s, out ++ s.receipts p.connectionId f) := by
  unfold sendReceiptIfRequested receipts
  cases f.getHeader receiptKey with
  | none => simp
  | some r => rfl

theorem run_removeSubscriptions (topics : List Text) (s : Server) (out : List Sent) (p : Session) :
    ((removeSubscriptions p topics).run answer (s, out)).2 =
      (s.setConnections
        (topics.foldl (fun x topic => x.removeSubscription topic p.connectionId) s.connections),
        out) := by
  induction topics generalizing s with
  | nil => rfl
  | cons topic topics ih => exact ih _

theorem run_sendMessages (topic : Text) (messageId : Int) (body : Text)
    (entries : List ((_ : ConnectionId) × Int)) (s : Server) (out : List Sent) :
    ((sendMessages topic messageId body entries).run answer (s, out)).2 =
      (s, out ++ entries.map fun e => s.sent e.1 (messageFrame topic e.2 messageId body)) := by
  induction entries generalizing out with
  | nil => simp [sendMessages]
  | cons e entries ih =>
    rw [List.map_cons, List.append_cons]
    exact ih _

theorem sent_congr {s s' : Server}
    (h : s'.connections.activeConnections = s.connections.activeConnections) (c : ConnectionId)
    (msg : StompFrame) : s'.sent c msg = s.sent c msg := by
  simp [sent, ConnectionsImpl.isRegistered, h]

theorem receipts_congr {s s' : Server}
    (h : s'.connections.activeConnections = s.connections.activeConnections) (c : ConnectionId)
    (f : StompFrame) : s'.receipts c f = s.receipts c f := by
  simp only [receipts, sent_congr h]

theorem refused_outcome (s : Server) (p : Session) (f : StompFrame) (reason : Text)
    (h : ¬ Accepts s.connections p f) :
    Outcome s p f (s.exec (sendError p reason (f.getHeader receiptKey) f)) :=
  .refused reason h

theorem Accepts.by_command {x : ConnectionsImpl} {p : Session} {f : StompFrame} (h : Accepts x p f) :
    (f.command = "CONNECT".toList → ∃ login passcode, Connects x p f login passcode) ∧
      (f.command = "SEND".toList → ∃ topic, Sends p f topic) ∧
      (f.command = "SUBSCRIBE".toList → ∃ topic id, Subscribes p f topic id) ∧
      (f.command = "UNSUBSCRIBE".toList → ∃ topic id, Unsubscribes p f topic id) ∧
      (f.command = "DISCONNECT".toList → Disconnects p f) := by
  cases h with
  | connect h =>
    simp only [h.command]
    exact ⟨fun _ => ⟨_, _, h⟩, fun e => absurd e (by decide), fun e => absurd e (by decide),
      fun e => absurd e (by decide), fun e => absurd e (by decide)⟩
  | send h =>
    simp only [h.command]
    exact ⟨fun e => absurd e (by decide), fun _ => ⟨_, h⟩, fun e => absurd e (by decide),
      fun e => absurd e (by decide), fun e => absurd e (by decide)⟩
  | subscribe h =>
    simp only [h.command]
    exact ⟨fun e => absurd e (by decide), fun e => absurd e (by decide), fun _ => ⟨_, _, h⟩,
      fun e => absurd e (by decide), fun e => absurd e (by decide)⟩
  | unsubscribe h =>
    simp only [h.command]
    exact ⟨fun e => absurd e (by decide), fun e => absurd e (by decide), fun e => absurd e (by decide),
      fun _ => ⟨_, _, h⟩, fun e => absurd e (by decide)⟩
  | disconnect h =>
    simp only [h.command]
    exact ⟨fun e => absurd e (by decide), fun e => absurd e (by decide), fun e => absurd e (by decide),
      fun e => absurd e (by decide), fun _ => h⟩

theorem handleConnect_outcome (s : Server) (p : Session) (f : StompFrame)
    (hc : f.command = "CONNECT".toList) : Outcome s p f (s.exec (handleConnect p f)) := by
  have hno : (∀ login passcode, ¬ Connects s.connections p f login passcode) →
      ¬ Accepts s.connections p f := by
    intro h ha
    obtain ⟨login, passcode, hcon⟩ := ha.by_command.1 hc
    exact h login passcode hcon
  unfold handleConnect
  split
  · next hcon => exact refused_outcome _ _ _ _ (hno fun _ _ h => by simp [h.fresh] at hcon)
  next hcon =>
  dsimp only
  split
  · next v login passcode host hv hl hp hh =>
    have hsame : ∀ l w, Connects s.connections p f l w → l = login ∧ w = passcode := fun l w h =>
      ⟨Option.some.inj (h.login_eq.symm.trans hl), Option.some.inj (h.passcode_eq.symm.trans hp)⟩
    rw [exec, Prog.op_bind, run_isUserActive]
    by_cases hactive : s.connections.isUserActive login = true
    · rw [if_pos hactive]
      refine refused_outcome _ _ _ _ (hno fun l w h => ?_)
      have := h.inactive
      rw [(hsame l w h).1, hactive] at this
      cases this
    rw [if_neg hactive, Prog.op_bind, run_authenticateUser]
    by_cases hauth : (s.connections.authenticateUser p.connectionId login passcode).1 = true
    · have h : Connects s.connections p f login passcode :=
        ⟨hc, by simpa using hcon, ⟨v, hv⟩, ⟨host, hh⟩, hl, hp, by simpa using hactive, hauth⟩
      have hsame := (s.connections.authenticateUser_fields p.connectionId login passcode).1
      rw [if_neg (by simp [hauth]), Prog.op_bind, run_put, Prog.op_bind, run_send, run_sendReceipt,
        receipts_congr (s := s) hsame]
      have hsent : (s.setConnections
          (s.connections.authenticateUser p.connectionId login passcode).2).sent p.connectionId
            connectedFrame = s.sent p.connectionId connectedFrame := sent_congr hsame _ _
      have := Outcome.connect h
      rwa [← hsent] at this
    · rw [if_pos (by simp [hauth]), ConnectionsImpl.authenticateUser_refused _ _ hauth]
      refine refused_outcome s _ _ _ (hno fun l w h => hauth ?_)
      rw [← (hsame l w h).1, ← (hsame l w h).2]
      exact h.authentic
  · next hmissing =>
    refine refused_outcome _ _ _ _ (hno fun l w h => ?_)
    obtain ⟨v, hv⟩ := h.version
    obtain ⟨host, hh⟩ := h.host
    exact hmissing v l w host hv h.login_eq h.passcode_eq hh

theorem handleSubscribe_outcome (s : Server) (p : Session) (f : StompFrame)
    (hc : f.command = "SUBSCRIBE".toList) : Outcome s p f (s.exec (handleSubscribe p f)) := by
  have hno : (∀ topic id, ¬ Subscribes p f topic id) → ¬ Accepts s.connections p f := by
    intro h ha
    obtain ⟨topic, id, hs⟩ := ha.by_command.2.2.1 hc
    exact h topic id hs
  unfold handleSubscribe
  split
  · next hcon => exact refused_outcome _ _ _ _ (hno fun _ _ h => by simp [h.connected] at hcon)
  next hcon =>
  split
  · next topic idStr hd hi =>
    split
    · next hparse =>
      refine refused_outcome _ _ _ _ (hno fun t i h => ?_)
      have := h.id_eq
      rw [hi, Option.bind_some, hparse] at this
      cases this
    · next id hparse =>
      have h : Subscribes p f topic id :=
        ⟨hc, by simpa using hcon, hd, by rw [hi, Option.bind_some, hparse]⟩
      rw [exec, Prog.op_bind, run_put, Prog.op_bind, run_addSubscription, run_sendReceipt]
      exact .subscribe h
  · next hmissing =>
    refine refused_outcome _ _ _ _ (hno fun t i h => ?_)
    obtain ⟨idStr, hi, -⟩ := Option.bind_eq_some_iff.mp h.id_eq
    exact hmissing t idStr h.destination hi

theorem handleUnsubscribe_outcome (s : Server) (p : Session) (f : StompFrame)
    (hc : f.command = "UNSUBSCRIBE".toList) : Outcome s p f (s.exec (handleUnsubscribe p f)) := by
  have hno : (∀ topic id, ¬ Unsubscribes p f topic id) → ¬ Accepts s.connections p f := by
    intro h ha
    obtain ⟨topic, id, hs⟩ := ha.by_command.2.2.2.1 hc
    exact h topic id hs
  unfold handleUnsubscribe
  split
  · next hcon => exact refused_outcome _ _ _ _ (hno fun _ _ h => by simp [h.connected] at hcon)
  next hcon =>
  split
  · next hmissing =>
    refine refused_outcome _ _ _ _ (hno fun t i h => ?_)
    have := h.id_eq
    rw [hmissing] at this
    cases this
  next idStr hi =>
  split
  · next hparse =>
    refine refused_outcome _ _ _ _ (hno fun t i h => ?_)
    have := h.id_eq
    rw [hi, Option.bind_some, hparse] at this
    cases this
  next id hparse =>
  have hid : (f.getHeader "id".toList).bind Decimal.parseInt = some id := by
    rw [hi, Option.bind_some, hparse]
  split
  · next hfree =>
    refine refused_outcome _ _ _ _ (hno fun t i h => ?_)
    have := h.held
    rw [Option.some.inj (h.id_eq.symm.trans hid), hfree] at this
    cases this
  · next topic held =>
    have h : Unsubscribes p f topic id := ⟨hc, by simpa using hcon, hid, held⟩
    have hsame := (s.connections.removeSubscription_fields topic p.connectionId).1
    rw [exec, Prog.op_bind, run_put, Prog.op_bind, run_removeSubscription, run_sendReceipt,
      receipts_congr (s := s) hsame]
    exact .unsubscribe h

theorem handleSend_outcome (s : Server) (p : Session) (f : StompFrame)
    (hc : f.command = "SEND".toList) : Outcome s p f (s.exec (handleSend p f)) := by
  have hno : (∀ topic, ¬ Sends p f topic) → ¬ Accepts s.connections p f := by
    intro h ha
    obtain ⟨topic, hs⟩ := ha.by_command.2.1 hc
    exact h topic hs
  unfold handleSend
  split
  · next hcon => exact refused_outcome _ _ _ _ (hno fun _ h => by simp [h.connected] at hcon)
  next hcon =>
  split
  · next hmissing =>
    refine refused_outcome _ _ _ _ (hno fun t h => ?_)
    have := h.destination
    rw [hmissing] at this
    cases this
  next topic hd =>
  split
  · next hfree =>
    refine refused_outcome _ _ _ _ (hno fun t h => ?_)
    have := h.held
    rw [Option.some.inj (h.destination.symm.trans hd)] at this
    simp [this] at hfree
  · next held =>
    have h : Sends p f topic := ⟨hc, by simpa using hcon, hd, by simpa using held⟩
    rw [exec, Prog.op_bind, run_getNextMessageId, Prog.op_bind, run_getSubscribers, run_sendMessages]
    exact .send h

theorem handleDisconnect_outcome (s : Server) (p : Session) (f : StompFrame)
    (hc : f.command = "DISCONNECT".toList) : Outcome s p f (s.exec (handleDisconnect p f)) := by
  have hno : ¬ Disconnects p f → ¬ Accepts s.connections p f := fun h ha =>
    h (ha.by_command.2.2.2.2 hc)
  unfold handleDisconnect
  split
  · next hcon => exact refused_outcome _ _ _ _ (hno fun h => by simp [h.connected] at hcon)
  next hcon =>
  have h : Disconnects p f := ⟨hc, by simpa using hcon⟩
  have hsame := (s.connections.removeSubscriptions_fields p.connectionId
    p.clientSubscriptions.values).1
  rw [exec, Prog.op_bind, run_put, Prog.run_bind, run_removeSubscriptions, Prog.op_bind, run_put,
    Prog.run_bind, run_sendReceipt, receipts_congr (s := s) hsame]
  have hput := setSession_setSession (s.setConnections ((p.clientSubscriptions.values.foldl
    (fun x topic => x.removeSubscription topic p.connectionId) s.connections).disconnect
      p.connectionId)) { p with shouldTerminate := true }
    { p with shouldTerminate := true, clientSubscriptions := ∅ } rfl
  have := Outcome.disconnect (s := s) h
  rw [← hput] at this
  exact this

/-- Processing a frame does one of the things that `Outcome` lists. -/
theorem process_outcome (s : Server) (p : Session) (f : StompFrame) :
    Outcome s p f (s.exec (p.process f)) := by
  unfold StompMessagingProtocolImpl.process
  split
  · next hc => exact handleConnect_outcome s p f hc
  split
  · next hc => exact handleSend_outcome s p f hc
  split
  · next hc => exact handleSubscribe_outcome s p f hc
  split
  · next hc => exact handleUnsubscribe_outcome s p f hc
  split
  · next hc => exact handleDisconnect_outcome s p f hc
  next h1 h2 h3 h4 h5 =>
  refine refused_outcome _ _ _ _ fun ha => ?_
  cases ha with
  | connect h => exact h1 h.command
  | send h => exact h2 h.command
  | subscribe h => exact h3 h.command
  | unsubscribe h => exact h4 h.command
  | disconnect h => exact h5 h.command

end Server

end Stomp
