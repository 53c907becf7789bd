import Stomp.Requests

/-!
# Clients and the server

Any number of clients are joined to the server by channels that keep the order of the bytes.
The server reads a byte at a time, and processes a frame when its last byte is read. A client
runs the commands of its user and reads the frames that the server sent.
-/

open Stomp.Split Stomp.Utf8 Stomp.Client

namespace Stomp

open StompMessageEncoderDecoder

/-- A client from its login on, the decoder of its connection, and the bytes on the way. -/
structure Peer where
  protocol : StompProtocol
  username : Bytes
  /-- `main` waits for the communication thread to end. -/
  waits : Bool
  toServer : Bytes
  encdec : StompMessageEncoderDecoder
  toClient : Bytes

structure Link where
  server : Server
  peers : Table ConnectionId Peer

inductive LinkEvent where
  | login (username password : Word)
  | command (c : ConnectionId) (command : Command)
  /-- The server reads a byte of a client. -/
  | deliver (c : ConnectionId)
  /-- A client reads a frame of the server. -/
  | receive (c : ConnectionId)
  /-- The channels between a client and the server break. -/
  | lose (c : ConnectionId)
  /-- The server gives up a connection. -/
  | disconnect (c : ConnectionId)

namespace Peer

/-- A new connection, with the CONNECT that `main` sends at once. -/
def login (username password : Word) : Peer :=
  ⟨.initial, username, false, (connectFrame username password).wire, .initial, []⟩

/-- A command writes its frames to the channel. -/
def command (x : Peer) (command : Command) : Peer :=
  let r := command.run x.protocol x.username
  { x with
    protocol := r.1
    toServer := x.toServer ++ r.2.flatMap Framing.ClientFrame.wire
    waits := command.waits x.protocol }

/-- The frame that the next byte of the channel ends. -/
def completed (x : Peer) : Option StompFrame :=
  match x.toServer with
  | [] => none
  | b :: _ =>
    match (x.encdec.decodeNextByte b).1 with
    | .frame f => some f
    | _ => none

theorem completed_eq {x : Peer} {f : StompFrame} (h : x.completed = some f) :
    ∃ rest, x.toServer = 0 :: rest ∧ outcome x.encdec.pending = .frame f := by
  unfold Peer.completed at h
  split at h
  · cases h
  next b rest hb =>
  split at h
  · next g hg =>
    cases h
    obtain ⟨rfl, hout, -⟩ := decodeNextByte_frame hg
    exact ⟨rest, hb, hout⟩
  · cases h

theorem completed_some {x : Peer} {b : UInt8} {rest : Bytes} {f : StompFrame}
    (hb : x.toServer = b :: rest) (hr : (x.encdec.decodeNextByte b).1 = .frame f) :
    x.completed = some f := by
  simp [completed, hb, hr]

theorem completed_none {x : Peer} {b : UInt8} {rest : Bytes} (hb : x.toServer = b :: rest)
    (hr : ∀ f, (x.encdec.decodeNextByte b).1 ≠ .frame f) : x.completed = none := by
  by_contra hne
  obtain ⟨f, hf⟩ := Option.ne_none_iff_exists'.mp hne
  obtain ⟨rest', hzero, hout⟩ := completed_eq hf
  cases hb.symm.trans hzero
  exact hr f ((decodeNextByte_zero _).1.trans hout)

end Peer

namespace Link

/-- What `Connections.send` puts in the channel of a registered client. -/
def handOver (peers : Table ConnectionId Peer) (m : Sent) : Table ConnectionId Peer :=
  if m.delivered then
    peers.modify m.connectionId fun x =>
      { x with toClient := x.toClient ++ StompMessageEncoderDecoder.encode m.msg }
  else peers

/-- An exception of the decoder ends the reading of the connection. -/
def deliver (s : Link) (c : ConnectionId) (x : Peer) : Option Link :=
  match x.toServer with
  | [] => none
  | b :: rest =>
    let r := x.encdec.decodeNextByte b
    let x := { x with toServer := rest, encdec := r.2 }
    match r.1 with
    | .null => some { s with peers := s.peers.insert c x }
    | .frame f =>
      let r := s.server.process c f
      some ⟨r.1, r.2.foldl handOver (s.peers.insert c x)⟩
    | .exception => some { s with peers := s.peers.erase c }

/-- The loop of `communicate`. When it ends, or when an exception leaves it, the socket is closed. -/
def receive (s : Link) (c : ConnectionId) (x : Peer) : Option Link :=
  if x.protocol.stopCommunication then some { s with peers := s.peers.erase c }
  else
    match getFrameAscii [] 0 x.toClient with
    | none => none
    | some (message, rest) =>
      match x.protocol.parseFrame message with
      | none => some { s with peers := s.peers.erase c }
      | some p => some { s with peers := s.peers.insert c { x with protocol := p, toClient := rest } }

def next (s : Link) : LinkEvent → Option Link
  | .login username password =>
    let server := s.server.accept
    some ⟨server, s.peers.insert server.connectionCounter (.login username password)⟩
  | .command c command =>
    (s.peers.lookup c).bind fun x =>
      if x.waits then none else some { s with peers := s.peers.insert c (x.command command) }
  | .deliver c => (s.peers.lookup c).bind (s.deliver c)
  | .receive c => (s.peers.lookup c).bind (s.receive c)
  | .lose c => some { s with peers := s.peers.erase c }
  | .disconnect c =>
    some { s with server := s.server.setConnections (s.server.connections.disconnect c) }

def runs : System Link LinkEvent := ⟨⟨.initial, ∅⟩, next⟩

/-- A step in which a session has an ERROR or a DISCONNECT, or loses its connection. -/
def disturbs (c : ConnectionId) : Link × LinkEvent → Bool
  | (s, .deliver d) => d = c && ((s.peers.lookup c).bind Peer.completed).any fun f =>
      !s.server.accepted c f || f.command = "DISCONNECT".toList
  | (_, .disconnect d) => d = c
  | _ => false

/-- A step in which a client takes a subscription id. -/
def joins (c : ConnectionId) : Link × LinkEvent → Bool
  | (s, .command d command) => d = c && (s.peers.lookup c).any fun x => command.takesId x.protocol
  | _ => false

/-! ## Steps -/

/-- Everything that a step can be. -/
inductive Step (s : Link) : LinkEvent → Link → Prop
  | login (username password : Word) :
    Step s (.login username password)
      ⟨s.server.accept, s.peers.insert (s.server.connectionCounter + 1) (.login username password)⟩
  | command {c : ConnectionId} {x : Peer} (command : Command) (hx : s.peers.lookup c = some x) :
    Step s (.command c command) { s with peers := s.peers.insert c (x.command command) }
  | byte {c : ConnectionId} {x : Peer} {b : UInt8} {rest : Bytes} (hx : s.peers.lookup c = some x)
    (hb : x.toServer = b :: rest) (hr : (x.encdec.decodeNextByte b).1 = .null) :
    Step s (.deliver c) { s with
      peers := s.peers.insert c { x with toServer := rest, encdec := (x.encdec.decodeNextByte b).2 } }
  | frame {c : ConnectionId} {x : Peer} {b : UInt8} {rest : Bytes} {f : StompFrame}
    (hx : s.peers.lookup c = some x) (hb : x.toServer = b :: rest)
    (hr : (x.encdec.decodeNextByte b).1 = .frame f) :
    Step s (.deliver c) ⟨(s.server.process c f).1, (s.server.process c f).2.foldl handOver
      (s.peers.insert c { x with toServer := rest, encdec := (x.encdec.decodeNextByte b).2 })⟩
  | receive {c : ConnectionId} {x : Peer} {message rest : Bytes} {p : StompProtocol}
    (hx : s.peers.lookup c = some x) (hm : getFrameAscii [] 0 x.toClient = some (message, rest))
    (hp : x.protocol.parseFrame message = some p) :
    Step s (.receive c)
      { s with peers := s.peers.insert c { x with protocol := p, toClient := rest } }
  | lost (e : LinkEvent) (c : ConnectionId) : Step s e { s with peers := s.peers.erase c }
  | disconnect (c : ConnectionId) :
    Step s (.disconnect c)
      { s with server := s.server.setConnections (s.server.connections.disconnect c) }

theorem next_step {s s' : Link} {e : LinkEvent} (h : s.next e = some s') : Step s e s' := by
  cases e with
  | login username password =>
    cases h
    exact .login username password
  | disconnect c =>
    cases h
    exact .disconnect c
  | lose c =>
    cases h
    exact .lost _ c
  | command c command =>
    obtain ⟨x, hx, h⟩ := Option.bind_eq_some_iff.mp h
    split at h
    · cases h
    · cases h
      exact .command command hx
  | receive c =>
    obtain ⟨x, hx, h⟩ := Option.bind_eq_some_iff.mp h
    unfold receive at h
    split at h
    · cases h
      exact .lost _ c
    split at h
    · cases h
    next message rest hm =>
    split at h
    · cases h
      exact .lost _ c
    · next p hp =>
      cases h
      exact .receive hx hm hp
  | deliver c =>
    obtain ⟨x, hx, h⟩ := Option.bind_eq_some_iff.mp h
    unfold deliver at h
    split at h
    · cases h
    next b rest hb =>
    dsimp only at h
    split at h
    · next hr =>
      cases h
      exact .byte hx hb hr
    · next f hr =>
      cases h
      exact .frame hx hb hr
    · cases h
      exact .lost _ c

theorem Step.server {s s' : Link} {e : LinkEvent} (h : Step s e s') :
    s'.server = s.server ∨ ∃ e', s.server.next e' = some s'.server := by
  cases h with
  | login username password => exact .inr ⟨.accept, rfl⟩
  | disconnect c => exact .inr ⟨.disconnect c, rfl⟩
  | @frame c x b rest f hx hb hr =>
    cases hp : s.server.sessions.lookup c with
    | none => exact .inl (by simp [Server.process, hp])
    | some p => exact .inr ⟨.frame c f, by simp [Server.next, hp]⟩
  | command _ _ | byte _ _ _ | receive _ _ _ | lost _ _ => exact .inl rfl

theorem lookup_foldl_handOver (out : List Sent) (peers : Table ConnectionId Peer) (c : ConnectionId) :
    (out.foldl handOver peers).lookup c = (peers.lookup c).map fun x =>
      { x with
        toClient := x.toClient ++ (out.filter fun m => c = m.connectionId && m.delivered).flatMap
          fun m => StompMessageEncoderDecoder.encode m.msg } := by
  induction out generalizing peers with
  | nil => simp
  | cons m out ih =>
    rw [List.foldl_cons, ih]
    by_cases hd : m.delivered = true
    · rw [handOver, if_pos hd, Table.lookup_modify]
      by_cases hc : c = m.connectionId
      · subst hc
        rw [if_pos rfl, Option.map_map, List.filter_cons_of_pos (by simp [hd])]
        congr 1
        funext x
        simp
      · rw [if_neg hc, List.filter_cons_of_neg (by simp [hc])]
    · rw [handOver, if_neg hd, List.filter_cons_of_neg (by simp [hd])]

theorem lookup_handOver (out : List Sent) (peers : Table ConnectionId Peer) (c : ConnectionId) :
    ∃ bs, (out.foldl handOver peers).lookup c =
        (peers.lookup c).map (fun x => { x with toClient := x.toClient ++ bs }) ∧
      ((∀ m ∈ out, m.connectionId ≠ c) → bs = []) := by
  refine ⟨_, lookup_foldl_handOver out peers c, fun h => ?_⟩
  have hnone : out.filter (fun m => c = m.connectionId && m.delivered) = [] := by
    refine List.filter_eq_nil_iff.mpr fun m hm => ?_
    simp [Ne.symm (h m hm)]
  rw [hnone, List.flatMap_nil]

theorem process_other (s : Server) {c d : ConnectionId} (f : StompFrame) (hd : c ≠ d) :
    Server.Untouched c s (s.process d f).1 ∧
      ∀ m ∈ (s.process d f).2, m.connectionId = c → ∃ t, s.connections.subscription t c ≠ none := by
  cases hp : s.sessions.lookup d with
  | none =>
    have hnone : s.process d f = (s, []) := by simp [Server.process, hp]
    rw [hnone]
    exact ⟨⟨rfl, Iff.rfl, rfl, fun _ => rfl⟩, by simp⟩
  | some p =>
    obtain rfl := s.ids d p hp
    have ho := Server.process_outcome s p f
    rw [← Server.process_of_session f hp] at ho
    refine ⟨ho.untouched hd, fun m hm hc => ?_⟩
    have hreceipts : ∀ m ∈ s.receipts p.connectionId f, m.connectionId = p.connectionId := by
      intro m hm
      obtain ⟨r, -, rfl⟩ := List.mem_map.mp hm
      rfl
    generalize s.process p.connectionId f = r at ho hm
    cases ho with
    | refused reason _ =>
      obtain rfl := List.mem_singleton.mp hm
      exact absurd hc.symm hd
    | connect _ =>
      rcases List.mem_cons.mp hm with rfl | hm
      · exact absurd hc.symm hd
      · exact absurd (hc.symm.trans (hreceipts m hm)) hd
    | subscribe _ => exact absurd (hc.symm.trans (hreceipts m hm)) hd
    | unsubscribe _ => exact absurd (hc.symm.trans (hreceipts m hm)) hd
    | disconnect _ => exact absurd (hc.symm.trans (hreceipts m hm)) hd
    | @send topic _ =>
      obtain ⟨e, he, rfl⟩ := List.mem_map.mp hm
      have hlookup := (Table.mem_entries_iff _ e.1 e.2).mp he
      rw [ConnectionsImpl.lookup_getSubscribers] at hlookup
      refine ⟨topic, ?_⟩
      rw [← hc]
      exact Option.ne_none_iff_exists'.mpr ⟨e.2, hlookup⟩

end Link

end Stomp
