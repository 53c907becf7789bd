import Stomp.Link
import Stomp.Answers
import Stomp.Base.Stream

/-!
# What was written and what was read

The history of one client in a run: the frames that it wrote, those that the server read of it,
those that the server handed to it, and the messages that it handled. A channel holds what was
written to it and was not read yet.
-/

open Stomp.Split Stomp.Utf8 Stomp.Client

namespace Stomp

open StompMessageEncoderDecoder StompMessagingProtocolImpl

theorem getFrameAscii_some {input message rest : Bytes}
    (h : getFrameAscii [] 0 input = some (message, rest)) : 0 ∉ message ∧ input = message ++ 0 :: rest := by
  by_cases hm : (0 : UInt8) ∈ input
  · obtain ⟨xs, ys, rfl, hx⟩ := List.eq_append_cons_of_mem hm
    rw [getFrameAscii_frame [] xs ys hx] at h
    cases h
    exact ⟨hx, rfl⟩
  · rw [getFrameAscii_end [] input hm] at h
    cases h

/-- A frame that the server hands to a client, and the frame that it processes. -/
structure Handed where
  sender : ConnectionId
  cause : StompFrame
  msg : StompFrame

def Handed.wire (e : Handed) : Bytes := StompMessageEncoderDecoder.encode e.msg

theorem filterMap_snoc {α β : Type} (f : α → Option β) (l : List α) (a : α) :
    (l ++ [a]).filterMap f = l.filterMap f ++ (f a).toList := by
  rw [List.filterMap_append]
  cases h : f a <;> simp [h]

namespace Peer

/-- The message that the client handles next. -/
def incoming (x : Peer) : Option StompProtocol.Parsed :=
  if x.protocol.stopCommunication then none
  else (getFrameAscii [] 0 x.toClient).map fun r => StompProtocol.parse r.1

/-- The messages on their way to the client. -/
def inFlight (x : Peer) : List StompProtocol.Parsed := (pieces 0 x.toClient).map StompProtocol.parse

/-- Those of them with a command. -/
def inFlightOf (command : String) (x : Peer) : List StompProtocol.Parsed :=
  x.inFlight.filter fun m => m.command = ascii command

end Peer

namespace Link

/-! ## The history of a client -/

def writes (c : ConnectionId) : Link × LinkEvent → List Framing.ClientFrame
  | (s, .login username password) =>
    if c = s.server.connectionCounter + 1 then [connectFrame username password] else []
  | (s, .command d command) =>
    if c = d then (s.peers.lookup d).elim [] fun x => (command.run x.protocol x.username).2 else []
  | _ => []

def reads (c : ConnectionId) : Link × LinkEvent → Option StompFrame
  | (s, .deliver d) => if c = d then (s.peers.lookup d).bind Peer.completed else none
  | _ => none

def hands (c : ConnectionId) : Link × LinkEvent → List Handed
  | (s, .deliver d) => ((s.peers.lookup d).bind Peer.completed).elim [] fun f =>
      ((s.server.process d f).2.filter fun m => c = m.connectionId && m.delivered).map
        fun m => ⟨d, f, m.msg⟩
  | _ => []

def handles (c : ConnectionId) : Link × LinkEvent → Option StompProtocol.Parsed
  | (s, .receive d) => if c = d then (s.peers.lookup d).bind Peer.incoming else none
  | _ => none

/-- The frames with a command that the server handed to a client. -/
def handsOf (command : String) (c : ConnectionId) (trace : List (Link × LinkEvent)) : List Handed :=
  (trace.flatMap (hands c)).filter fun e => e.msg.command = command.toList

/-- The messages with a command that a client handled. -/
def handlesOf (command : String) (c : ConnectionId) (trace : List (Link × LinkEvent)) :
    List StompProtocol.Parsed :=
  (trace.filterMap (handles c)).filter fun m => m.command = ascii command

/-- All bytes that a client wrote. -/
def written (c : ConnectionId) (trace : List (Link × LinkEvent)) : Bytes :=
  (trace.flatMap (writes c)).flatMap Framing.ClientFrame.wire

/-- All bytes that the server handed to a client. -/
def handed (c : ConnectionId) (trace : List (Link × LinkEvent)) : Bytes :=
  (trace.flatMap (hands c)).flatMap Handed.wire

/-- Both channels of a client hold what was written to them and not read yet. -/
structure Channels (trace : List (Link × LinkEvent)) (c : ConnectionId) (x : Peer) : Prop where
  pending : 0 ∉ x.encdec.pending
  toServer : ∃ ps, Consumed 0 (written c trace) ps (x.encdec.pending ++ x.toServer) ∧
    ps.map outcome = (trace.filterMap (reads c)).map .frame
  toClient : ∃ ps, Consumed 0 (handed c trace) ps x.toClient ∧
    ps.map StompProtocol.parse = trace.filterMap (handles c)

/-- Nothing happened to the client yet. -/
structure Absent (trace : List (Link × LinkEvent)) (c : ConnectionId) (s : Link) : Prop where
  peer : s.peers.lookup c = none
  writes : trace.flatMap (writes c) = []
  reads : trace.filterMap (reads c) = []
  hands : trace.flatMap (hands c) = []
  handles : trace.filterMap (handles c) = []

theorem handed_snoc (c : ConnectionId) (trace : List (Link × LinkEvent)) (e : Link × LinkEvent) :
    handed c (trace ++ [e]) = handed c trace ++ (hands c e).flatMap Handed.wire := by
  simp [handed]

theorem written_snoc (c : ConnectionId) (trace : List (Link × LinkEvent)) (e : Link × LinkEvent) :
    written c (trace ++ [e]) = written c trace ++ (writes c e).flatMap Framing.ClientFrame.wire := by
  simp [written]

/-! ## What a step does to one client -/

theorem lookup_handOver_hands {s : Link} {c d : ConnectionId} {y : Peer} {f : StompFrame}
    (hy : s.peers.lookup d = some y) (hf : y.completed = some f) (peers : Table ConnectionId Peer) :
    ((s.server.process d f).2.foldl handOver peers).lookup c = (peers.lookup c).map fun x =>
      { x with toClient := x.toClient ++ (hands c (s, .deliver d)).flatMap Handed.wire } := by
  have hhands : hands c (s, .deliver d) = ((s.server.process d f).2.filter
      fun m => c = m.connectionId && m.delivered).map fun m => ⟨d, f, m.msg⟩ := by
    simp [hands, hy, hf]
  rw [hhands, List.flatMap_map]
  exact lookup_foldl_handOver _ peers c

/-- Everything that a step can do to a client that is there before and after it. -/
inductive PeerStep (c : ConnectionId) (s : Link) : LinkEvent → Peer → Peer → Prop
  | quiet {e : LinkEvent} {x : Peer} (he : ∀ command, e ≠ .command c command)
    (hw : writes c (s, e) = []) (hr : reads c (s, e) = none) (hh : hands c (s, e) = [])
    (hm : handles c (s, e) = none) : PeerStep c s e x x
  | command {x : Peer} (command : Command) (hwaits : x.waits = false) :
    PeerStep c s (.command c command) x (x.command command)
  | byte {x : Peer} {b : UInt8} {rest : Bytes} (hb : x.toServer = b :: rest)
    (hr : (x.encdec.decodeNextByte b).1 = .null) :
    PeerStep c s (.deliver c) x { x with toServer := rest, encdec := (x.encdec.decodeNextByte b).2 }
  | frame {x : Peer} {b : UInt8} {rest : Bytes} {f : StompFrame} (hb : x.toServer = b :: rest)
    (hf : (x.encdec.decodeNextByte b).1 = .frame f) :
    PeerStep c s (.deliver c) x { x with
      toServer := rest
      encdec := (x.encdec.decodeNextByte b).2
      toClient := x.toClient ++ (hands c (s, .deliver c)).flatMap Handed.wire }
  | handed {d : ConnectionId} {x : Peer} (hd : c ≠ d) : PeerStep c s (.deliver d) x
      { x with toClient := x.toClient ++ (hands c (s, .deliver d)).flatMap Handed.wire }
  | receive {x : Peer} {message rest : Bytes} {p : StompProtocol}
    (hstop : x.protocol.stopCommunication = false)
    (hm : getFrameAscii [] 0 x.toClient = some (message, rest))
    (hp : x.protocol.parseFrame message = some p) :
    PeerStep c s (.receive c) x { x with protocol := p, toClient := rest }

theorem deliver_ne {c d : ConnectionId} (command : Command) :
    LinkEvent.deliver d ≠ .command c command := by
  intro h
  cases h

theorem receive_ne {c d : ConnectionId} (command : Command) :
    LinkEvent.receive d ≠ .command c command := by
  intro h
  cases h

theorem quiet_of_ne {s : Link} {c d : ConnectionId} (hd : c ≠ d) (x : Peer) :
    (∀ command, PeerStep c s (.command d command) x x) ∧ PeerStep c s (.receive d) x x := by
  refine ⟨fun command => .quiet ?_ (if_neg hd) rfl rfl rfl, .quiet receive_ne rfl rfl rfl (if_neg hd)⟩
  intro command' heq
  cases heq
  exact hd rfl

theorem peerStep_deliver {s s' : Link} {c d : ConnectionId} {x' : Peer}
    (h : s.next (.deliver d) = some s') (hx : s'.peers.lookup c = some x') :
    ∃ x, s.peers.lookup c = some x ∧ PeerStep c s (.deliver d) x x' := by
  obtain ⟨y, hy, h⟩ := Option.bind_eq_some_iff.mp h
  unfold deliver at h
  split at h
  · cases h
  next b rest hb =>
  have hnone : y.completed = none → c ≠ d → PeerStep c s (.deliver d) x' x' := fun hn hd =>
    .quiet deliver_ne rfl (if_neg hd) (by simp [hands, hy, hn]) rfl
  dsimp only at h
  split at h
  · next hr =>
    cases h
    rw [Table.lookup_insert_if] at hx
    split at hx
    · next heq =>
      cases hx
      subst heq
      exact ⟨y, hy, .byte hb hr⟩
    · next hd => exact ⟨x', hx, hnone (Peer.completed_none hb (by simp [hr])) hd⟩
  · next f hr =>
    cases h
    rw [lookup_handOver_hands hy (Peer.completed_some hb hr), Table.lookup_insert_if] at hx
    split at hx
    · next heq =>
      cases hx
      subst heq
      exact ⟨y, hy, .frame hb hr⟩
    · next hd =>
      obtain ⟨x, hlookup, rfl⟩ := Option.map_eq_some_iff.mp hx
      exact ⟨x, hlookup, .handed hd⟩
  · next hr =>
    cases h
    obtain ⟨hd, hx⟩ := Table.lookup_of_lookup_erase hx
    exact ⟨x', hx, hnone (Peer.completed_none hb (by simp [hr])) hd⟩

theorem peerStep_receive {s s' : Link} {c d : ConnectionId} {x' : Peer}
    (h : s.next (.receive d) = some s') (hx : s'.peers.lookup c = some x') :
    ∃ x, s.peers.lookup c = some x ∧ PeerStep c s (.receive d) x x' := by
  obtain ⟨y, hy, h⟩ := Option.bind_eq_some_iff.mp h
  have herase : (s.peers.erase d).lookup c = some x' →
      ∃ x, s.peers.lookup c = some x ∧ PeerStep c s (.receive d) x x' := by
    intro hx
    obtain ⟨hd, hx⟩ := Table.lookup_of_lookup_erase hx
    exact ⟨x', hx, (quiet_of_ne hd x').2⟩
  unfold receive at h
  split at h
  · cases h
    exact herase hx
  next hstop =>
  split at h
  · cases h
  next message rest hm =>
  split at h
  · cases h
    exact herase hx
  · next p hp =>
    cases h
    rw [Table.lookup_insert_if] at hx
    split at hx
    · next heq =>
      cases hx
      subst heq
      exact ⟨y, hy, .receive (by simpa using hstop) hm hp⟩
    · next hd => exact ⟨x', hx, (quiet_of_ne hd x').2⟩

theorem next_peerStep {s s' : Link} {e : LinkEvent} {c : ConnectionId} {x' : Peer}
    (h : s.next e = some s') (hx : s'.peers.lookup c = some x') :
    (∃ x, s.peers.lookup c = some x ∧ PeerStep c s e x x') ∨
      ∃ username password, e = .login username password ∧ c = s.server.connectionCounter + 1 ∧
        x' = .login username password := by
  cases e with
  | login username password =>
    cases h
    rw [Table.lookup_insert_if] at hx
    split at hx
    · next heq =>
      cases hx
      exact .inr ⟨username, password, rfl, heq, rfl⟩
    · next hne => exact .inl ⟨x', hx, .quiet nofun (if_neg hne) rfl rfl rfl⟩
  | command d command =>
    obtain ⟨y, hy, h⟩ := Option.bind_eq_some_iff.mp h
    split at h
    · cases h
    next hwaits =>
    cases h
    rw [Table.lookup_insert_if] at hx
    split at hx
    · next heq =>
      cases hx
      subst heq
      exact .inl ⟨y, hy, .command command (by simpa using hwaits)⟩
    · next hd => exact .inl ⟨x', hx, (quiet_of_ne hd x').1 command⟩
  | deliver d => exact .inl (peerStep_deliver h hx)
  | receive d => exact .inl (peerStep_receive h hx)
  | lose d =>
    cases h
    exact .inl ⟨x', (Table.lookup_of_lookup_erase hx).2, .quiet nofun rfl rfl rfl rfl⟩
  | disconnect d =>
    cases h
    exact .inl ⟨x', hx, .quiet nofun rfl rfl rfl rfl⟩

/-! ## Runs -/

theorem counter_le {s s' : Link} {e : LinkEvent} (h : s.next e = some s') :
    s.server.connectionCounter ≤ s'.server.connectionCounter := by
  rcases (next_step h).server with heq | ⟨e', he'⟩
  · exact (congrArg Server.connectionCounter heq).ge
  · obtain ⟨rfl, heq⟩ | ⟨c, f, p, out, rfl, -, -, -, ho⟩ | ⟨c, rfl, heq⟩ := Server.next_cases he'
    · rw [heq]
      exact Nat.le_succ _
    · exact ho.counter.ge
    · rw [heq]
      exact le_refl _

theorem idsFresh_run {trace : List (Link × LinkEvent)} {s : Link} (h : runs.Run trace s) :
    s.server.IdsFresh := by
  refine System.Run.inv (M := runs) (fun s => s.server.IdsFresh) Server.idsFresh_initial
    (fun s e s' hf hs => ?_) h
  rcases (next_step hs).server with heq | ⟨e', he'⟩
  · exact heq ▸ hf
  · exact Server.idsFresh_step hf he'

theorem absent_step {s : Link} {c : ConnectionId} (hpeer : s.peers.lookup c = none)
    (hreg : c ∉ s.server.connections.activeConnections) (e : LinkEvent) :
    reads c (s, e) = none ∧ hands c (s, e) = [] ∧ handles c (s, e) = none ∧
      ((∀ username password, e = .login username password → c ≠ s.server.connectionCounter + 1) →
        writes c (s, e) = []) := by
  -- A connection id that is not given yet has no part in a step.
  have hown : ∀ {β : Type} (d : ConnectionId) (k : Option Peer → β),
      (if c = d then k (s.peers.lookup d) else k none) = k none := by
    intro β d k
    split
    · next hd => rw [← hd, hpeer]
    · rfl
  cases e with
  | login username password => exact ⟨rfl, rfl, rfl, fun hne => if_neg (hne _ _ rfl)⟩
  | command d command =>
    refine ⟨rfl, rfl, rfl, fun _ => ?_⟩
    exact hown d fun x => x.elim [] fun x => (command.run x.protocol x.username).2
  | deliver d =>
    refine ⟨hown d fun x => x.bind Peer.completed, ?_, rfl, fun _ => rfl⟩
    show ((s.peers.lookup d).bind Peer.completed).elim [] _ = _
    cases (s.peers.lookup d).bind Peer.completed with
    | none => rfl
    | some f =>
      refine List.map_eq_nil_iff.mpr (List.filter_eq_nil_iff.mpr fun m hm => ?_)
      rw [s.server.process_delivered d f m hm, ConnectionsImpl.isRegistered, Bool.and_eq_true,
        decide_eq_true_eq, decide_eq_true_eq]
      rintro ⟨rfl, hm⟩
      exact hreg hm
  | receive d => exact ⟨rfl, rfl, hown d fun x => x.bind Peer.incoming, fun _ => rfl⟩
  | lose d => exact ⟨rfl, rfl, rfl, fun _ => rfl⟩
  | disconnect d => exact ⟨rfl, rfl, rfl, fun _ => rfl⟩

theorem absent_run {trace : List (Link × LinkEvent)} {s : Link} {c : ConnectionId}
    (h : runs.Run trace s) (hc : s.server.connectionCounter < c) : Absent trace c s := by
  induction h with
  | nil => exact ⟨rfl, rfl, rfl, rfl, rfl⟩
  | @snoc trace s e s' hr hs ih =>
    have hlt : s.server.connectionCounter < c := Nat.lt_of_le_of_lt (counter_le hs) hc
    obtain ⟨hpeer, hwrites, hreads, hhands, hhandles⟩ := ih hlt
    have hlogin : ∀ username password, e = .login username password →
        c ≠ s.server.connectionCounter + 1 := by
      rintro username password rfl
      cases hs
      exact Nat.ne_of_gt hc
    obtain ⟨hr', hh', hm', hw'⟩ := absent_step hpeer ((idsFresh_run hr) c hlt).2.unregistered e
    refine ⟨?_, ?_, ?_, ?_, ?_⟩
    · cases hx : s'.peers.lookup c with
      | none => rfl
      | some x' =>
        rcases next_peerStep hs hx with ⟨x, hx, -⟩ | ⟨username, password, he, heq, -⟩
        · rw [hpeer] at hx
          cases hx
        · exact absurd heq (hlogin username password he)
    · rw [List.flatMap_append, hwrites, List.flatMap_singleton, hw' hlogin, List.nil_append]
    · rw [List.filterMap_append, hreads, List.filterMap_cons_none hr', List.filterMap_nil,
        List.nil_append]
    · rw [List.flatMap_append, hhands, List.flatMap_singleton, hh', List.nil_append]
    · rw [List.filterMap_append, hhandles, List.filterMap_cons_none hm', List.filterMap_nil,
        List.nil_append]

/-- What holds of a client at its login, and is kept by its steps and by those that reach it, holds
of it in every state. -/
theorem peer_run {P : List (Link × LinkEvent) → Peer → Prop} {c : ConnectionId}
    (login : ∀ trace s username password, runs.Run trace s →
      c = s.server.connectionCounter + 1 → Absent trace c s →
      P (trace ++ [(s, .login username password)]) (.login username password))
    (step : ∀ trace s e x x', runs.Run trace s → s.peers.lookup c = some x →
      PeerStep c s e x x' → P trace x → P (trace ++ [(s, e)]) x')
    {trace : List (Link × LinkEvent)} {s : Link} {x : Peer} (h : runs.Run trace s)
    (hx : s.peers.lookup c = some x) : P trace x := by
  induction h generalizing x with
  | nil => cases hx
  | @snoc trace s e s' hr hs ih =>
    rcases next_peerStep hs hx with ⟨y, hy, hstep⟩ | ⟨username, password, rfl, hc, rfl⟩
    · exact step trace s e y x hr hy hstep (ih hy)
    · exact login trace s username password hr hc (absent_run hr (hc ▸ Nat.lt_succ_self _))

/-! ## The channels of a client -/

theorem reads_deliver {s : Link} {c : ConnectionId} {x : Peer} (hx : s.peers.lookup c = some x) :
    reads c (s, .deliver c) = x.completed := by
  simp [reads, hx]

theorem handles_receive {s : Link} {c : ConnectionId} {x : Peer} (hx : s.peers.lookup c = some x) :
    handles c (s, .receive c) = x.incoming := by
  simp [handles, hx]

theorem writes_command {s : Link} {c : ConnectionId} {x : Peer} (hx : s.peers.lookup c = some x)
    (command : Command) :
    writes c (s, .command c command) = (command.run x.protocol x.username).2 := by
  simp [writes, hx]

theorem Channels.write {trace : List (Link × LinkEvent)} {c : ConnectionId} {x x' : Peer}
    {e : Link × LinkEvent} (h : Channels trace c x) (hp : 0 ∉ x'.encdec.pending)
    (hs : x'.encdec.pending ++ x'.toServer =
      x.encdec.pending ++ x.toServer ++ (writes c e).flatMap Framing.ClientFrame.wire)
    (hc : x'.toClient = x.toClient ++ (hands c e).flatMap Handed.wire) (hr : reads c e = none)
    (hm : handles c e = none) : Channels (trace ++ [e]) c x' := by
  obtain ⟨-, ⟨ps, hps, hout⟩, qs, hqs, hparse⟩ := h
  refine ⟨hp, ⟨ps, ?_, ?_⟩, qs, ?_, ?_⟩
  · rw [written_snoc, hs]
    exact hps.write _
  · rw [hout, List.filterMap_append, List.filterMap_cons_none hr, List.filterMap_nil,
      List.append_nil]
  · rw [handed_snoc, hc]
    exact hqs.write _
  · rw [hparse, List.filterMap_append, List.filterMap_cons_none hm, List.filterMap_nil,
      List.append_nil]

theorem Channels.step {trace : List (Link × LinkEvent)} {s : Link} {c : ConnectionId} {e : LinkEvent}
    {x x' : Peer} (h : Channels trace c x) (hx : s.peers.lookup c = some x)
    (hs : PeerStep c s e x x') : Channels (trace ++ [(s, e)]) c x' := by
  cases hs with
  | quiet _ hw hr hh hm => exact h.write h.pending (by simp [hw]) (by simp [hh]) hr hm
  | command command _ =>
    refine h.write h.pending ?_ (List.append_nil _).symm rfl rfl
    rw [writes_command hx, List.append_assoc]
    rfl
  | @byte _ b rest hb hr =>
    obtain ⟨hne, hpending⟩ := decodeNextByte_null hr
    have hnone : x.completed = none := by simp [Peer.completed, hb, hr]
    refine h.write ?_ ?_ ?_ ((reads_deliver hx).trans hnone) rfl
    · rw [hpending]
      simp [h.pending, Ne.symm hne]
    · rw [hpending, hb]
      simp [writes]
    · simp [hands, hx, hnone]
  | @frame _ b rest f hb hf =>
    obtain ⟨rfl, hout, hpending⟩ := decodeNextByte_frame hf
    have hread : reads c (s, .deliver c) = some f := by
      rw [reads_deliver hx, Peer.completed, hb]
      simp [hf]
    obtain ⟨h0, ⟨ps, hps, houts⟩, qs, hqs, hparse⟩ := h
    refine ⟨by simp [hpending], ⟨ps ++ [x.encdec.pending], ?_, ?_⟩, qs, ?_, ?_⟩
    · rw [hb] at hps
      rw [written_snoc, hpending]
      simpa [writes] using hps.read h0
    · rw [List.map_append, houts, List.filterMap_append, List.filterMap_cons_some hread,
        List.map_append, List.map_singleton, hout]
      rfl
    · rw [handed_snoc]
      exact hqs.write _
    · rw [hparse, List.filterMap_append]
      exact (List.append_nil _).symm
  | handed hd => exact h.write h.pending (by simp [writes]) rfl (if_neg hd) rfl
  | @receive _ message rest p hstop hm hp =>
    obtain ⟨h0, hrest⟩ := getFrameAscii_some hm
    have hhandles : handles c (s, .receive c) = some (StompProtocol.parse message) := by
      rw [handles_receive hx, Peer.incoming, hstop, hm]
      rfl
    obtain ⟨hpending, ⟨ps, hps, hout⟩, qs, hqs, hparse⟩ := h
    rw [hrest] at hqs
    refine ⟨hpending, ⟨ps, ?_, ?_⟩, qs ++ [message], ?_, ?_⟩
    · rw [written_snoc]
      simpa [writes] using hps
    · rw [hout, List.filterMap_append]
      exact congrArg _ (List.append_nil _).symm
    · rw [handed_snoc]
      simpa [hands] using hqs.read h0
    · rw [List.map_append, hparse, List.filterMap_append, List.filterMap_cons_some hhandles]
      rfl

theorem channels_run {trace : List (Link × LinkEvent)} {s : Link} {c : ConnectionId} {x : Peer}
    (h : runs.Run trace s) (hx : s.peers.lookup c = some x) : Channels trace c x := by
  refine peer_run (P := fun trace x => Channels trace c x) ?_ ?_ h hx
  · intro trace s username password _ hc habsent
    have hwrites : writes c (s, .login username password) = [connectFrame username password] :=
      if_pos hc
    refine ⟨List.not_mem_nil, ⟨[], ?_, ?_⟩, [], ?_, ?_⟩
    · rw [written_snoc, written, habsent.writes, hwrites]
      simpa [Peer.login] using Consumed.start 0 (connectFrame username password).wire
    · rw [List.filterMap_append, habsent.reads]
      rfl
    · rw [handed_snoc, handed, habsent.hands]
      exact Consumed.start 0 []
    · rw [List.filterMap_append, habsent.handles]
      rfl
  · exact fun trace s e x x' _ hx hs h => h.step hx hs

theorem reads_toServer {trace : List (Link × LinkEvent)} {s : Link} {c : ConnectionId} {x : Peer}
    (h : runs.Run trace s) (hx : s.peers.lookup c = some x) :
    (trace.filterMap (reads c)).map .frame ++
        (pieces 0 (x.encdec.pending ++ x.toServer)).map outcome =
      (trace.flatMap (writes c)).flatMap fun m => (pieces 0 m.wire).map outcome := by
  obtain ⟨-, ⟨ps, hps, hout⟩, -⟩ := channels_run h hx
  have hwritten : written c trace ++ [] = written c trace := List.append_nil _
  rw [← hout, ← List.map_append, hps.pieces_eq, ← hwritten]
  unfold written Framing.ClientFrame.wire
  rw [pieces_flatMap_append, pieces_nil, List.append_nil, List.map_flatMap]

theorem handles_inFlight {trace : List (Link × LinkEvent)} {s : Link} {c : ConnectionId} {x : Peer}
    (h : runs.Run trace s) (hx : s.peers.lookup c = some x) :
    trace.filterMap (handles c) ++ x.inFlight =
      (trace.flatMap (hands c)).flatMap fun e => messagesOf e.msg := by
  obtain ⟨-, -, ps, hps, hparse⟩ := channels_run h hx
  have hhanded : handed c trace ++ [] = handed c trace := List.append_nil _
  have hwire : Handed.wire = fun e => Replies.frameBytes e.msg ++ [0] :=
    funext fun e => Replies.encode_eq e.msg
  rw [← hparse, Peer.inFlight, ← List.map_append, hps.pieces_eq, ← hhanded]
  unfold handed messagesOf
  rw [hwire, pieces_flatMap_append, pieces_nil, List.append_nil, List.map_flatMap]
  simp only [Replies.encode_eq]

/-! ## What the server hands to a client -/

/-- Why the server hands out a frame. -/
structure HandedFor (c : ConnectionId) (t : Link) (e : Handed) (y : Peer) (p : Session) : Prop where
  peer : t.peers.lookup e.sender = some y
  completed : y.completed = some e.cause
  session : t.server.sessions.lookup e.sender = some p
  noNul : e.cause.NoNul
  answers : Server.Answers t.server p e.cause (t.server.sent c e.msg)

theorem handedFor {pre : List (Link × LinkEvent)} {t : Link} {ev : LinkEvent} {c : ConnectionId}
    {e : Handed} (h : runs.Run pre t) (he : e ∈ hands c (t, ev)) :
    ev = .deliver e.sender ∧ ∃ y p, HandedFor c t e y p := by
  cases ev with
  | deliver d =>
    obtain ⟨f, hf⟩ : ∃ f, (t.peers.lookup d).bind Peer.completed = some f := by
      cases hf : (t.peers.lookup d).bind Peer.completed with
      | some f => exact ⟨f, rfl⟩
      | none => simp [hands, hf] at he
    obtain ⟨y, hy, hcompleted⟩ := Option.bind_eq_some_iff.mp hf
    have hhands : hands c (t, .deliver d) = ((t.server.process d f).2.filter
        fun m => c = m.connectionId && m.delivered).map fun m => ⟨d, f, m.msg⟩ := by
      simp [hands, hf]
    rw [hhands] at he
    obtain ⟨m, hm, rfl⟩ := List.mem_map.mp he
    obtain ⟨hsent, hto⟩ := List.mem_filter.mp hm
    simp only [Bool.and_eq_true, decide_eq_true_eq] at hto
    obtain ⟨rest, -, hout⟩ := Peer.completed_eq hcompleted
    have hclean := Replies.noNul_of_outcome (channels_run h hy).pending hout
    cases hp : t.server.sessions.lookup d with
    | none => simp [Server.process, hp] at hsent
    | some p =>
      have hanswers := Server.process_answers hp hclean m hsent
      have heq : m = t.server.sent c m.msg := by
        obtain ⟨rfl, -⟩ := hto
        rw [Server.sent, ← t.server.process_delivered d f m hsent]
      rw [heq] at hanswers
      exact ⟨rfl, y, p, hy, hcompleted, hp, hclean, hanswers⟩
  | login _ _ | command _ _ | receive _ | lose _ | disconnect _ => cases he

theorem mem_hands {trace : List (Link × LinkEvent)} {s : Link} {c : ConnectionId} {e : Handed}
    (h : runs.Run trace s) (he : e ∈ trace.flatMap (hands c)) :
    ∃ pre t post y p, trace = pre ++ (t, .deliver e.sender) :: post ∧ runs.Run pre t ∧
      HandedFor c t e y p := by
  obtain ⟨⟨t, ev⟩, hmem, he⟩ := List.mem_flatMap.mp he
  obtain ⟨pre, post, htrace⟩ := List.append_of_mem hmem
  have hr := (h.split htrace).1
  obtain ⟨rfl, y, p, hfor⟩ := handedFor hr he
  exact ⟨pre, t, post, y, p, htrace, hr, hfor⟩

theorem mem_handsOf {trace : List (Link × LinkEvent)} {s : Link} {c : ConnectionId} {e : Handed}
    {command : String} (h : runs.Run trace s) (he : e ∈ handsOf command c trace) :
    e.msg.command = command.toList ∧ ∃ pre t post y p, trace = pre ++ (t, .deliver e.sender) :: post ∧
      runs.Run pre t ∧ HandedFor c t e y p := by
  obtain ⟨he, hc⟩ := List.mem_filter.mp he
  exact ⟨of_decide_eq_true hc, mem_hands h he⟩

theorem handsOf_snoc (command : String) (c : ConnectionId) (trace : List (Link × LinkEvent))
    (e : Link × LinkEvent) : handsOf command c (trace ++ [e]) =
      handsOf command c trace ++ (hands c e).filter fun e => e.msg.command = command.toList := by
  rw [handsOf, List.flatMap_append, List.flatMap_singleton, List.filter_append, handsOf]

theorem handlesOf_snoc (command : String) (c : ConnectionId) (trace : List (Link × LinkEvent))
    (e : Link × LinkEvent) : handlesOf command c (trace ++ [e]) =
      handlesOf command c trace ++ (handles c e).toList.filter fun m => m.command = ascii command := by
  rw [handlesOf, filterMap_snoc, List.filter_append, handlesOf]

/-- What a client reads of a frame that it is handed. -/
inductive Arrives (c : ConnectionId) (t : Link) (e : Handed) (p : Session) : Prop
  | error {m m' : StompProtocol.Parsed} {reason : Text} {receiptId : Option Text}
    (hmsg : e.msg = errorFrame reason receiptId e.cause) (hm : messagesOf e.msg = [m, m'])
    (hc : m.command = ascii "ERROR") (hc' : m'.command = [])
  | connected {m : StompProtocol.Parsed} {login passcode : Text} (hsender : e.sender = c)
    (hmsg : e.msg = connectedFrame) (hm : messagesOf e.msg = [m])
    (hc : m.command = ascii "CONNECTED")
    (h : Server.Connects t.server.connections p e.cause login passcode)
  | receipt {m : StompProtocol.Parsed} {r : Text} (hsender : e.sender = c)
    (hmsg : e.msg = receiptFrame r) (hm : messagesOf e.msg = [m])
    (hc : m.command = ascii "RECEIPT") (hr : e.cause.getHeader receiptKey = some r)
    (ha : Server.Accepts t.server.connections p e.cause)
  | message {m : StompProtocol.Parsed} {topic : Text} {id messageId : Int}
    (hmsg : e.msg = messageFrame topic id messageId e.cause.body) (hm : messagesOf e.msg = [m])
    (hc : m.command = ascii "MESSAGE") (h : Server.Sends p e.cause topic)

theorem HandedFor.arrives {c : ConnectionId} {t : Link} {e : Handed} {y : Peer} {p : Session}
    (h : HandedFor c t e y p) : Arrives c t e p := by
  have hid := t.server.ids _ _ h.session
  have hanswers := h.answers
  have hto : (t.server.sent c e.msg).connectionId = c := rfl
  have hsent : (t.server.sent c e.msg).msg = e.msg := rfl
  revert hanswers hto hsent
  generalize t.server.sent c e.msg = x
  intro hanswers hto hsent
  cases hanswers with
  | @error reason h0 =>
    have hreceipt : ∀ r ∈ e.cause.getHeader receiptKey, '\x00' ∉ r :=
      fun r hr => h.noNul.value _ _ hr
    obtain ⟨m, m', hm, hc, hc'⟩ := messagesOf_errorFrame h0 hreceipt h.noNul
    exact .error hsent.symm (hsent ▸ hm) hc hc'
  | connected hconnects =>
    obtain ⟨m, hm, hc⟩ := messagesOf_connectedFrame
    exact .connected (hid.symm.trans hto) hsent.symm (hsent ▸ hm) hc hconnects
  | receipt hr ha =>
    obtain ⟨m, hm, hc⟩ := messagesOf_receiptFrame (h.noNul.value _ _ hr)
    exact .receipt (hid.symm.trans hto) hsent.symm (hsent ▸ hm) hc hr ha
  | @message topic hsends d id messageId =>
    obtain ⟨m, hm, hc⟩ := messagesOf_messageFrame id messageId
      (h.noNul.value _ _ hsends.destination) h.noNul.body
    exact .message hsent.symm (hsent ▸ hm) hc hsends

theorem Arrives.messages {c : ConnectionId} {t : Link} {e : Handed} {p : Session}
    (h : Arrives c t e p) : ∃ m ms, messagesOf e.msg = m :: ms ∧ m.command = Utf8.encode e.msg.command ∧
      (e.msg.command ≠ "ERROR".toList → ms = []) ∧ ∀ m' ∈ ms, m'.command = [] := by
  cases h with
  | @error m m' _ _ hmsg hm hc hc' =>
    refine ⟨m, [m'], hm, by rw [hc, hmsg]; rfl, fun hne => absurd (by rw [hmsg]; rfl) hne, ?_⟩
    intro m'' hm''
    rwa [List.mem_singleton.mp hm'']
  | connected _ hmsg hm hc _ => exact ⟨_, [], hm, by rw [hc, hmsg]; rfl, fun _ => rfl, nofun⟩
  | receipt _ hmsg hm hc _ _ => exact ⟨_, [], hm, by rw [hc, hmsg]; rfl, fun _ => rfl, nofun⟩
  | message hmsg hm hc _ => exact ⟨_, [], hm, by rw [hc, hmsg]; rfl, fun _ => rfl, nofun⟩

theorem messages_of {trace : List (Link × LinkEvent)} {s : Link} {c : ConnectionId} {x : Peer}
    {command : String} (h : runs.Run trace s) (hx : s.peers.lookup c = some x)
    (herror : command.toList ≠ "ERROR".toList) (hne : command.toList ≠ []) :
    (handsOf command c trace).flatMap (fun e => messagesOf e.msg) =
      handlesOf command c trace ++ x.inFlightOf command := by
  have hall : ∀ e ∈ trace.flatMap (hands c),
      (messagesOf e.msg).filter (fun m => m.command = ascii command) =
        if e.msg.command = command.toList then messagesOf e.msg else [] := by
    intro e he
    obtain ⟨pre, t, post, y, p, -, -, hfor⟩ := mem_hands h he
    obtain ⟨m, ms, hm, hc, hone, hrest⟩ := hfor.arrives.messages
    have hms : ms.filter (fun m => m.command = ascii command) = [] := by
      refine List.filter_eq_nil_iff.mpr fun m' hm' => ?_
      rw [decide_eq_true_eq, hrest m' hm']
      intro heq
      have hempty : Utf8.encode [] = Utf8.encode command.toList := heq
      exact hne (encode_injective hempty).symm
    have hfirst : m.command = ascii command ↔ e.msg.command = command.toList := by
      rw [hc]
      exact ⟨fun heq => encode_injective heq, fun heq => congrArg Utf8.encode heq⟩
    rw [hm]
    by_cases he : e.msg.command = command.toList
    · rw [List.filter_cons, if_pos (decide_eq_true (hfirst.mpr he)), hms, if_pos he,
        hone (he ▸ herror)]
    · rw [List.filter_cons, if_neg (by simpa using fun heq => he (hfirst.mp heq)), hms, if_neg he]
  rw [handlesOf, Peer.inFlightOf, ← List.filter_append, handles_inFlight h hx, handsOf]
  generalize trace.flatMap (hands c) = es at hall
  induction es with
  | nil => rfl
  | cons e es ih =>
    have ih := ih fun e he => hall e (List.mem_cons_of_mem _ he)
    rw [List.flatMap_cons, List.filter_append, hall e List.mem_cons_self, ← ih]
    by_cases he : e.msg.command = command.toList
    · rw [List.filter_cons, if_pos (decide_eq_true he), List.flatMap_cons, if_pos he]
    · rw [List.filter_cons, if_neg (by simpa using he), if_neg he, List.nil_append]

/-! ## Where a message comes from -/

theorem incoming_eq {x : Peer} {m : StompProtocol.Parsed} (h : x.incoming = some m) :
    x.protocol.stopCommunication = false ∧ ∃ ms, x.inFlight = m :: ms := by
  unfold Peer.incoming at h
  split at h
  · cases h
  next hstop =>
  obtain ⟨⟨message, rest⟩, hmessage, rfl⟩ := Option.map_eq_some_iff.mp h
  obtain ⟨h0, heq⟩ := getFrameAscii_some hmessage
  refine ⟨by simpa using hstop, (pieces 0 rest).map StompProtocol.parse, ?_⟩
  rw [Peer.inFlight, heq, pieces_cons _ _ _ h0, List.map_cons]

theorem mem_inFlight {trace : List (Link × LinkEvent)} {s : Link} {c : ConnectionId} {x : Peer}
    {m : StompProtocol.Parsed} (h : runs.Run trace s) (hx : s.peers.lookup c = some x)
    (hm : m ∈ x.inFlight) : ∃ e ∈ trace.flatMap (hands c), m ∈ messagesOf e.msg := by
  -- A message on its way is of a frame that the server handed out.
  rw [← List.mem_flatMap, ← handles_inFlight h hx]
  exact List.mem_append_right _ hm

theorem HandedFor.reads {c : ConnectionId} {t : Link} {e : Handed} {y : Peer} {p : Session}
    (h : HandedFor c t e y p) : Link.reads e.sender (t, .deliver e.sender) = some e.cause :=
  (reads_deliver h.peer).trans h.completed

theorem written_of_completed {trace : List (Link × LinkEvent)} {s : Link} {c : ConnectionId} {x : Peer}
    {f : StompFrame} (h : runs.Run trace s) (hx : s.peers.lookup c = some x)
    (hf : x.completed = some f) :
    ∃ m ∈ trace.flatMap (writes c), ∃ piece ∈ pieces 0 m.wire, outcome piece = .frame f := by
  obtain ⟨rest, hrest, hout⟩ := Peer.completed_eq hf
  have hmem : Decoded.frame f ∈
      (trace.flatMap (writes c)).flatMap fun m => (pieces 0 m.wire).map outcome := by
    rw [← reads_toServer h hx, hrest, pieces_cons _ _ _ (channels_run h hx).pending, List.map_cons,
      hout]
    exact List.mem_append_right _ List.mem_cons_self
  obtain ⟨m, hm, hpiece⟩ := List.mem_flatMap.mp hmem
  exact ⟨m, hm, List.mem_map.mp hpiece⟩

end Link

end Stomp
