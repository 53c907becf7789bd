import Stomp.Server

/-!
# Runs of the server

Frames of any connections are processed one at a time, in any order. A transport accepts
connections and hands lost ones to `Connections.disconnect`.
-/

namespace Stomp

open StompMessagingProtocolImpl

inductive ServerEvent where
  | accept
  | frame (c : ConnectionId) (f : StompFrame)
  | disconnect (c : ConnectionId)

namespace Server

/-- A new connection: the handler is registered and its protocol object started. -/
def accept (s : Server) : Server :=
  let connectionId := s.connectionCounter + 1
  { (s.setConnections (s.connections.register connectionId)).setSession (start connectionId) with
    connectionCounter := connectionId }

def next (s : Server) : ServerEvent → Option Server
  | .accept => some s.accept
  | .frame c f => if (s.sessions.lookup c).isSome then some (s.process c f).1 else none
  | .disconnect c => some (s.setConnections (s.connections.disconnect c))

def runs : System Server ServerEvent := ⟨.initial, next⟩

/-- A CONNECT with all the headers that the server asks for. -/
def connectFrame (login passcode : String) : StompFrame :=
  .ofStrings "CONNECT" [("accept-version", "1.2"), ("host", "h"), ("login", login),
    ("passcode", passcode)] ""

def subscribeFrame (topic id : String) : StompFrame :=
  .ofStrings "SUBSCRIBE" [("destination", topic), ("id", id)] ""

def unsubscribeFrame (id : String) : StompFrame := .ofStrings "UNSUBSCRIBE" [("id", id)] ""

/-! ## What a step leaves alone -/

@[simp] theorem connections_setSession (s : Server) (p : Session) :
    (s.setSession p).connections = s.connections := rfl

@[simp] theorem connections_setConnections (s : Server) (x : ConnectionsImpl) :
    (s.setConnections x).connections = x := rfl

@[simp] theorem sessions_setConnections (s : Server) (x : ConnectionsImpl) :
    (s.setConnections x).sessions = s.sessions := rfl

theorem lookup_setSession (s : Server) (p : Session) (d : ConnectionId) :
    (s.setSession p).sessions.lookup d = if d = p.connectionId then some p else s.sessions.lookup d :=
  Table.lookup_insert_if _ _ _ _

theorem lookup_accept (s : Server) :
    s.accept.sessions.lookup (s.connectionCounter + 1) = some (start (s.connectionCounter + 1)) := by
  show ((s.setConnections _).setSession (start (s.connectionCounter + 1))).sessions.lookup _ = _
  rw [lookup_setSession]
  exact if_pos rfl

/-- The session and all table entries of a connection are what they were. -/
structure Untouched (d : ConnectionId) (s s' : Server) : Prop where
  session : s'.sessions.lookup d = s.sessions.lookup d
  registered : d ∈ s'.connections.activeConnections ↔ d ∈ s.connections.activeConnections
  active : s'.connections.activeUsers.lookup d = s.connections.activeUsers.lookup d
  subscribed : ∀ t, s'.connections.subscription t d = s.connections.subscription t d

theorem Outcome.untouched {s : Server} {p : Session} {f : StompFrame} {r : Server × List Sent}
    (h : Outcome s p f r) {d : ConnectionId} (hd : d ≠ p.connectionId) : Untouched d s r.1 := by
  cases h with
  | refused reason h => exact ⟨by simp [lookup_setSession, hd], Iff.rfl, rfl, fun _ => rfl⟩
  | @connect login passcode h =>
    obtain ⟨hreg, htopics, -⟩ := s.connections.authenticateUser_fields p.connectionId login passcode
    refine ⟨by simp [lookup_setSession, hd], by simp [hreg], ?_, fun t => ?_⟩
    · simp only [connections_setSession, connections_setConnections,
        ConnectionsImpl.authenticateUser]
      split
      · rfl
      · exact AList.lookup_insert_ne hd
    · simp [ConnectionsImpl.subscription, htopics]
  | subscribe h =>
    exact ⟨by simp [lookup_setSession, hd], Iff.rfl, rfl, fun t => by
      simp [ConnectionsImpl.subscription_addSubscription, hd]⟩
  | @unsubscribe topic id h =>
    obtain ⟨hreg, hact, -⟩ := s.connections.removeSubscription_fields topic p.connectionId
    exact ⟨by simp [lookup_setSession, hd], by simp [hreg], by simp [hact], fun t => by
      simp [ConnectionsImpl.subscription_removeSubscription, hd]⟩
  | send h => exact ⟨rfl, Iff.rfl, rfl, fun _ => rfl⟩
  | disconnect h =>
    obtain ⟨hreg, hact, -⟩ := s.connections.removeSubscriptions_fields p.connectionId
      p.clientSubscriptions.values
    refine ⟨by simp [lookup_setSession, hd], ?_, ?_, fun t => ?_⟩
    · simp [ConnectionsImpl.disconnect, hreg, hd]
    · simp only [connections_setSession, connections_setConnections, ConnectionsImpl.disconnect]
      rw [AList.lookup_erase_ne hd, hact]
    · simp [ConnectionsImpl.subscription_disconnect,
        ConnectionsImpl.subscription_removeSubscriptions, hd]

theorem untouched_disconnect (s : Server) {c d : ConnectionId} (hd : d ≠ c) :
    Untouched d s (s.setConnections (s.connections.disconnect c)) where
  session := rfl
  registered := by simp [ConnectionsImpl.disconnect, hd]
  active := AList.lookup_erase_ne hd
  subscribed t := by simp [ConnectionsImpl.subscription_disconnect, hd]

theorem untouched_accept (s : Server) {d : ConnectionId} (hd : d ≠ s.connectionCounter + 1) :
    Untouched d s s.accept where
  session := by
    show ((s.setConnections _).setSession _).sessions.lookup d = _
    rw [lookup_setSession]
    exact if_neg hd
  registered := by simp [accept, ConnectionsImpl.register, hd]
  active := rfl
  subscribed _ := rfl

/-! ## The steps of a run -/

theorem next_cases {s s' : Server} {e : ServerEvent} (h : s.next e = some s') :
    (e = .accept ∧ s' = s.accept) ∨
    (∃ c f p out, e = .frame c f ∧ s.sessions.lookup c = some p ∧ p.connectionId = c ∧
      s.process c f = (s', out) ∧ Outcome s p f (s', out)) ∨
    (∃ c, e = .disconnect c ∧ s' = s.setConnections (s.connections.disconnect c)) := by
  cases e with
  | accept => exact .inl ⟨rfl, (Option.some.inj h).symm⟩
  | frame c f =>
    simp only [next] at h
    split at h
    · next hc =>
      obtain ⟨p, hp⟩ := Option.isSome_iff_exists.mp hc
      have hrun : s.process c f = s.exec (p.process f) := by simp [Server.process, hp]
      refine .inr (.inl ⟨c, f, p, (s.process c f).2, rfl, hp, s.ids c p hp, ?_, ?_⟩)
      · rw [← Option.some.inj h]
      · rw [← Option.some.inj h, hrun]
        exact process_outcome s p f
    · cases h
  | disconnect c => exact .inr (.inr ⟨c, rfl, (Option.some.inj h).symm⟩)

/-- Ids that were not given yet are nowhere. -/
def IdsFresh (s : Server) : Prop :=
  ∀ c, s.connectionCounter < c → s.sessions.lookup c = none ∧ s.connections.NoTrace c

theorem Untouched.noTrace {d : ConnectionId} {s s' : Server} (h : Untouched d s s')
    (hn : s.connections.NoTrace d) : s'.connections.NoTrace d where
  unregistered := fun hr => hn.unregistered (h.registered.mp hr)
  inactive := h.active.trans hn.inactive
  unsubscribed t := (h.subscribed t).trans (hn.unsubscribed t)

theorem Outcome.counter {s : Server} {p : Session} {f : StompFrame} {r : Server × List Sent}
    (h : Outcome s p f r) : r.1.connectionCounter = s.connectionCounter := by
  cases h <;> rfl

theorem idsFresh_step {s s' : Server} {e : ServerEvent} (hf : s.IdsFresh) (h : s.next e = some s') :
    s'.IdsFresh := by
  intro d hd
  obtain ⟨rfl, rfl⟩ | ⟨c, f, p, out, rfl, hp, rfl, -, ho⟩ | ⟨c, rfl, rfl⟩ := next_cases h
  · have hlt : s.connectionCounter + 1 < d := hd
    have hu := s.untouched_accept (Nat.ne_of_gt hlt)
    exact ⟨hu.session.trans (hf d (by omega)).1, hu.noTrace (hf d (by omega)).2⟩
  · have hcount := ho.counter
    have hlt : s.connectionCounter < d := Nat.lt_of_le_of_lt (Nat.le_of_eq hcount.symm) hd
    have hne : d ≠ p.connectionId := by
      rintro rfl
      rw [(hf _ hlt).1] at hp
      cases hp
    have hu := ho.untouched hne
    exact ⟨hu.session.trans (hf d hlt).1, hu.noTrace (hf d hlt).2⟩
  · have hlt : s.connectionCounter < d := hd
    by_cases hne : d = c
    · subst hne
      exact ⟨(hf d hlt).1, ConnectionsImpl.noTrace_disconnect _ _⟩
    · have hu := s.untouched_disconnect hne
      exact ⟨hu.session.trans (hf d hlt).1, hu.noTrace (hf d hlt).2⟩

theorem idsFresh_initial : initial.IdsFresh := fun _ _ => ⟨rfl, ⟨by simp [initial,
  ConnectionsImpl.initial], rfl, fun _ => rfl⟩⟩

/-! ## What a step sends -/

/-- The frames that a step hands to `send`. -/
def outputs : Server × ServerEvent → List Sent
  | (s, .frame c f) => (s.process c f).2
  | _ => []

/-- Those of them that are for one connection. -/
def sentTo (c : ConnectionId) (out : List Sent) : List Sent := out.filter fun x => x.connectionId = c

theorem sentTo_messages (s : Server) (c : ConnectionId) (topic : Text) (m : Int) (body : Text) :
    sentTo c (s.messages topic m body) =
      (s.connections.subscription topic c).toList.map fun i =>
        s.sent c (messageFrame topic i m body) := by
  rw [sentTo, messages, List.filter_map, ← ConnectionsImpl.lookup_getSubscribers]
  have := Table.filter_entries_key (s.connections.getSubscribers topic) c
  simp only [Function.comp_def, sent] at this ⊢
  rw [this]
  simp

/-- The frame is not answered with an ERROR. -/
def accepted (s : Server) (c : ConnectionId) (f : StompFrame) : Bool :=
  (s.process c f).2.all fun x => x.msg.command ≠ "ERROR".toList

theorem process_of_session {s : Server} {c : ConnectionId} {p : Session} (f : StompFrame)
    (hp : s.sessions.lookup c = some p) : s.process c f = s.exec (p.process f) := by
  simp [Server.process, hp]

theorem receipts_command {s : Server} {c : ConnectionId} {f : StompFrame} {x : Sent}
    (hx : x ∈ s.receipts c f) : x.msg.command = "RECEIPT".toList := by
  obtain ⟨r, -, rfl⟩ := List.mem_map.mp hx
  rfl

theorem messages_command {s : Server} {topic : Text} {m : Int} {body : Text} {x : Sent}
    (hx : x ∈ s.messages topic m body) : x.msg.command = "MESSAGE".toList := by
  obtain ⟨e, -, rfl⟩ := List.mem_map.mp hx
  rfl

theorem accepted_iff {s : Server} {c : ConnectionId} {p : Session} {f : StompFrame}
    (hp : s.sessions.lookup c = some p) : s.accepted c f = true ↔ Accepts s.connections p f := by
  rw [accepted, process_of_session f hp, List.all_eq_true]
  simp only [decide_eq_true_eq]
  have ho := process_outcome s p f
  revert ho
  generalize s.exec (p.process f) = r
  intro ho
  have hreceipts : ∀ x ∈ s.receipts p.connectionId f, x.msg.command ≠ "ERROR".toList := by
    intro x hx
    rw [receipts_command hx]
    decide
  cases ho with
  | refused reason hno =>
    refine iff_of_false (fun hall => ?_) hno
    exact hall _ (List.mem_singleton_self _) rfl
  | connect h =>
    refine iff_of_true (fun x hx => ?_) (.connect h)
    rcases List.mem_cons.mp hx with rfl | hx
    · show connectedFrame.command ≠ _
      decide
    · exact hreceipts x hx
  | subscribe h => exact iff_of_true hreceipts (.subscribe h)
  | unsubscribe h => exact iff_of_true hreceipts (.unsubscribe h)
  | send h =>
    refine iff_of_true (fun x hx => ?_) (.send h)
    rw [messages_command hx]
    decide
  | disconnect h => exact iff_of_true hreceipts (.disconnect h)

end Server

end Stomp
