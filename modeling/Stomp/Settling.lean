import Mathlib.Data.Prod.Lex
import Stomp.Base.Rest
import Stomp.Outstanding

/-!
# When nothing is on its way

The server reads what the clients wrote, and the clients read what it sent. Without new commands this
comes to an end in every order, and then both sides agree and nothing is owed.
-/

open Stomp.Split Stomp.Utf8 Stomp.Client
open scoped List

namespace Stomp

open StompMessageEncoderDecoder StompMessagingProtocolImpl

/-- The server reads a byte, or a client a frame. -/
def LinkEvent.moves : LinkEvent → Bool
  | .deliver _ | .receive _ => true
  | _ => false

namespace Link

/-! ## It comes to an end -/

/-- The bytes on their way to the server. -/
def unread (peers : Table ConnectionId Peer) : Nat := Table.total (fun x => x.toServer.length) peers

/-- The bytes on their way to the clients, and the clients that read them. -/
def unhandled (peers : Table ConnectionId Peer) : Nat :=
  Table.total (fun x => x.toClient.length + 1) peers

def left (s : Link) : Nat ×ₗ Nat := toLex (unread s.peers, unhandled s.peers)

theorem unread_handOver (peers : Table ConnectionId Peer) (ms : List Sent) :
    unread (ms.foldl handOver peers) = unread peers := by
  -- What the server sends in answer is not on its way to the server.
  induction ms generalizing peers with
  | nil => rfl
  | cons m ms ih =>
    rw [List.foldl_cons, ih]
    unfold handOver
    split
    · exact Table.total_modify (f := fun x => x.toServer.length)
        (g := fun x : Peer => { x with toClient := x.toClient ++ encode m.msg }) (fun _ => rfl) peers _
    · rfl

section Left

variable {s s' : Link} {c : ConnectionId} {x : Peer}

theorem unread_insert (hx : s.peers.lookup c = some x) (y : Peer) :
    unread (s.peers.insert c y) + x.toServer.length = unread s.peers + y.toServer.length := by
  have h := Table.total_insert (fun x : Peer => x.toServer.length) s.peers c y
  rwa [hx, Option.elim_some] at h

theorem unhandled_insert (hx : s.peers.lookup c = some x) (y : Peer) :
    unhandled (s.peers.insert c y) + x.toClient.length = unhandled s.peers + y.toClient.length := by
  have h := Table.total_insert (fun x : Peer => x.toClient.length + 1) s.peers c y
  rw [hx, Option.elim_some] at h
  unfold unhandled
  omega

theorem left_erase (hx : s.peers.lookup c = some x) :
    unread (s.peers.erase c) + x.toServer.length = unread s.peers ∧
      unhandled (s.peers.erase c) < unhandled s.peers := by
  have hserver := Table.total_erase (fun x : Peer => x.toServer.length) s.peers c
  have hclient := Table.total_erase (fun x : Peer => x.toClient.length + 1) s.peers c
  rw [hx, Option.elim_some] at hserver hclient
  unfold unread unhandled
  omega

theorem left_deliver (hx : s.peers.lookup c = some x) (h : s.deliver c x = some s') :
    s'.left < s.left := by
  refine Prod.Lex.toLex_lt_toLex.mpr (.inl ?_)
  unfold deliver at h
  split at h
  · cases h
  next b rest hb =>
  have hlength : x.toServer.length = rest.length + 1 := by rw [hb, List.length_cons]
  have hinsert := fun encdec => unread_insert hx { x with toServer := rest, encdec := encdec }
  dsimp only at h hinsert
  split at h
  · next hr =>
    cases h
    have := hinsert (x.encdec.decodeNextByte b).2
    dsimp only
    omega
  · next f hr =>
    cases h
    have := hinsert (x.encdec.decodeNextByte b).2
    dsimp only
    rw [unread_handOver]
    omega
  · cases h
    have := (left_erase hx).1
    dsimp only
    omega

theorem left_receive (hx : s.peers.lookup c = some x) (h : s.receive c x = some s') :
    s'.left < s.left := by
  have herase := left_erase hx
  have hlost : left { s with peers := s.peers.erase c } < s.left := by
    refine Prod.Lex.toLex_lt_toLex'.mpr ⟨?_, fun _ => herase.2⟩
    dsimp only
    omega
  unfold receive at h
  split at h
  · cases h
    exact hlost
  split at h
  · cases h
  next message rest hm =>
  split at h
  · cases h
    exact hlost
  · next p hp =>
    cases h
    have hserver := unread_insert hx { x with protocol := p, toClient := rest }
    have hclient := unhandled_insert hx { x with protocol := p, toClient := rest }
    have hlength : x.toClient.length = message.length + rest.length + 1 := by
      rw [(getFrameAscii_some hm).2, List.length_append, List.length_cons]
      omega
    dsimp only at hserver hclient
    refine Prod.Lex.toLex_lt_toLex'.mpr ⟨?_, fun _ => ?_⟩ <;> dsimp only <;> omega

end Left

theorem comesToRest : runs.ComesToRest fun e => e.moves = true := by
  refine System.comesToRest_of_lt left fun s e s' he hs => ?_
  cases e with
  | deliver c =>
    obtain ⟨x, hx, h⟩ := Option.bind_eq_some_iff.mp hs
    exact left_deliver hx h
  | receive c =>
    obtain ⟨x, hx, h⟩ := Option.bind_eq_some_iff.mp hs
    exact left_receive hx h
  | login _ _ | command _ _ | lose _ | disconnect _ => cases he

/-! ## The login is answered -/

theorem greeted_frame {s : Server} {c : ConnectionId} {p : Session} {f : StompFrame}
    (hp : s.sessions.lookup c = some p) (ha : s.accepted c f = true) :
    p.connected = true ∨ s.sent c connectedFrame ∈ (s.process c f).2 := by
  have haccepts := (Server.accepted_iff hp).mp ha
  obtain rfl := s.ids c p hp
  have ho := Server.process_outcome s p f
  rw [← Server.process_of_session f hp] at ho
  generalize s.process p.connectionId f = r at ho ⊢
  cases ho with
  | refused _ hno => exact absurd haccepts hno
  | connect _ => exact .inr List.mem_cons_self
  | subscribe h | unsubscribe h | send h | disconnect h => exact .inl h.connected

theorem greeted_run {trace : List (Link × LinkEvent)} {s : Link} {c : ConnectionId} {x : Peer}
    {p : Session} (h : runs.Run trace s) (hcalm : ∀ e ∈ trace, disturbs c e = false)
    (hx : s.peers.lookup c = some x) (hp : s.server.sessions.lookup c = some p)
    (hconnected : p.connected = true) : ∃ e ∈ trace.flatMap (hands c), e.msg = connectedFrame := by
  -- When the session is connected, the server has said so.
  induction h generalizing x p with
  | nil => cases hx
  | @snoc trace s e s' hr hs ih =>
    have hd := hcalm _ (List.mem_append_right _ (List.mem_singleton_self _))
    have hinit : ∀ e ∈ trace, disturbs c e = false := fun e he => hcalm e (List.mem_append_left _ he)
    rw [List.flatMap_append, List.flatMap_singleton]
    rcases next_peerStep hs hx with ⟨y, hy, -⟩ | ⟨username, password, rfl, rfl, -⟩
    · have hkeep : ∀ q, s.server.sessions.lookup c = some q → q.connected = true →
          ∃ e' ∈ trace.flatMap (hands c) ++ hands c (s, e), e'.msg = connectedFrame := by
        intro q hq hcon
        obtain ⟨e', he', hmsg⟩ := ih hinit hy hq hcon
        exact ⟨e', List.mem_append_left _ he', hmsg⟩
      have hother : ∀ {t : Server}, Server.Untouched c s.server t → t.sessions.lookup c = some p →
          ∃ e' ∈ trace.flatMap (hands c) ++ hands c (s, e), e'.msg = connectedFrame :=
        fun hu hp => hkeep p (hu.session.symm.trans hp) hconnected
      have hpresent := present_run hr hinit hy
      cases next_step hs with
      | login username password =>
        have hnew : c ≠ s.server.connectionCounter + 1 := by
          rintro rfl
          obtain ⟨q, hq⟩ := hpresent.session
          rw [(idsFresh_run hr _ (Nat.lt_succ_self _)).1] at hq
          cases hq
        exact hother (s.server.untouched_accept hnew) hp
      | disconnect d =>
        have hcd : c ≠ d := by
          rintro rfl
          simp [disturbs] at hd
        exact hother (s.server.untouched_disconnect hcd) hp
      | command _ _ | byte _ _ _ | receive _ _ _ | lost _ _ => exact hkeep p hp hconnected
      | @frame d z b rest f hz hb hread =>
        by_cases hcd : c = d
        · subst hcd
          have hf : z.completed = some f := Peer.completed_some hb hread
          obtain ⟨q, hq⟩ := hpresent.session
          rcases greeted_frame hq (calm_frame hz hf hd).1 with hcon | hsent
          · exact hkeep q hq hcon
          · have hreg : c ∈ s.server.connections.activeConnections := hpresent.registered
            refine ⟨⟨c, f, connectedFrame⟩, List.mem_append_right _ ?_, rfl⟩
            simp only [hands, hz, Option.bind_some, hf, Option.elim_some]
            refine List.mem_map.mpr ⟨_, List.mem_filter.mpr ⟨hsent, ?_⟩, rfl⟩
            simp [Server.sent, ConnectionsImpl.isRegistered, hreg]
        · exact hother (process_other s.server f hcd).1 hp
    · cases hs
      rw [Server.lookup_accept] at hp
      cases hp
      cases hconnected

theorem connected_run {trace : List (Link × LinkEvent)} {s : Link} {c : ConnectionId} {x : Peer}
    {m : StompProtocol.Parsed} (h : runs.Run trace s) (hx : s.peers.lookup c = some x)
    (hm : m ∈ trace.filterMap (handles c)) (hc : m.command = ascii "CONNECTED") :
    x.protocol.connected = true := by
  refine peer_run (P := fun trace x => ∀ m ∈ trace.filterMap (handles c),
    m.command = ascii "CONNECTED" → x.protocol.connected = true) ?_ ?_ h hx m hm hc
  · intro trace s username password _ _ habsent m hm
    rw [filterMap_snoc, habsent.handles] at hm
    cases hm
  · intro trace s e x x' _ hx hs ih m hm hc
    have hkeep : handles c (s, e) = none → x.protocol.connected = true := by
      intro hnone
      rw [filterMap_snoc, hnone, Option.toList_none, List.append_nil] at hm
      exact ih m hm hc
    cases hs with
    | quiet _ _ _ _ hnone => exact hkeep hnone
    | byte _ _ | frame _ _ | handed _ => exact hkeep rfl
    | command command _ =>
      exact (Command.run_connected x.protocol x.username command).trans (hkeep rfl)
    | @receive _ message rest p hstop hmessage hp =>
      have hhandles : handles c (s, .receive c) = some (StompProtocol.parse message) := by
        rw [handles_receive hx, Peer.incoming, hstop, hmessage]
        rfl
      rw [filterMap_snoc, hhandles, Option.toList_some] at hm
      have hbefore : (StompProtocol.parse message).command ≠ ascii "CONNECTED" →
          x.protocol.connected = true := by
        intro hne
        rcases List.mem_append.mp hm with hm | hm
        · exact ih m hm hc
        · exact absurd (List.mem_singleton.mp hm ▸ hc) hne
      cases StompProtocol.parseFrame_handles hp with
      | connected _ => rfl
      | message hc' _ _ => exact hbefore (hc' ▸ by decide)
      | error hc' => exact hbefore (hc' ▸ by decide)
      | unknown hc' _ => exact hbefore (hc' ▸ by decide)
      | other hc' => exact hbefore hc'.1
      | receipt hc' _ _ =>
        have hcon := hbefore (hc' ▸ by decide)
        dsimp only
        split <;> exact hcon

/-! ## What is so at rest -/

/-- The client names channels that a header can hold, reports no NUL, takes no number twice, and has
no ERROR, no DISCONNECT and no loss of its connection on the server. -/
structure Orderly (c : ConnectionId) (trace : List (Link × LinkEvent)) : Prop where
  commands : ∀ e ∈ trace, ∀ command, e.2 = .command c command → command.ChannelsOk ∧ command.NoNul
  joins : trace.countP (joins c) < 2 ^ 31
  draws : trace.countP (draws c) < 2 ^ 31
  calm : ∀ e ∈ trace, disturbs c e = false

/-- The client is logged in, all that it asked for is done and all that it was sent is handled, and
the server has its subscriptions. -/
structure Done (trace : List (Link × LinkEvent)) (s : Link) (c : ConnectionId) (x : Peer) : Prop where
  connected : x.protocol.connected = true
  acknowledged : List.Forall₂ Request.Acknowledged (trace.filterMap (requests c))
    (handlesOf "RECEIPT" c trace)
  receiptMap : ∀ id, x.protocol.receiptMap.lookup id = none
  handled : trace.filterMap (handles c) =
    (trace.flatMap (hands c)).flatMap fun e => messagesOf e.msg
  subscribed : ∃ p, s.server.sessions.lookup c = some p ∧
    (∀ channel id, x.protocol.subscriptionIds.lookup channel = some id ↔
      ∃ t, channel = Utf8.encode t ∧ p.clientSubscriptions.lookup id = some t) ∧
    ∀ t id, p.clientSubscriptions.lookup id = some t ↔
      s.server.connections.subscription t c = some id

theorem atRest_iff (s : Link) : runs.AtRest (fun e => e.moves = true) s ↔
    ∀ c x, s.peers.lookup c = some x → s.deliver c x = none ∧ s.receive c x = none := by
  constructor
  · intro h c x hx
    have hdeliver : s.next (.deliver c) = none := h (.deliver c) rfl
    have hreceive : s.next (.receive c) = none := h (.receive c) rfl
    simp only [next, hx, Option.bind_some] at hdeliver hreceive
    exact ⟨hdeliver, hreceive⟩
  · intro h e he
    show s.next e = none
    cases e with
    | deliver c => exact Option.bind_eq_none_iff.mpr fun x hx => (h c x hx).1
    | receive c => exact Option.bind_eq_none_iff.mpr fun x hx => (h c x hx).2
    | login _ _ | command _ _ | lose _ | disconnect _ => cases he

theorem quiet_of_atRest {s : Link} {c : ConnectionId} {x : Peer} (hx : s.peers.lookup c = some x)
    (h : runs.AtRest (fun e => e.moves = true) s) : x.toServer = [] ∧ x.inFlight = [] := by
  obtain ⟨hdeliver, hreceive⟩ := (atRest_iff s).mp h c x hx
  constructor
  · unfold deliver at hdeliver
    split at hdeliver
    · next hnil => exact hnil
    · dsimp only at hdeliver
      split at hdeliver <;> cases hdeliver
  · unfold receive at hreceive
    split at hreceive
    · cases hreceive
    split at hreceive
    · next hm =>
      rcases eq_open_or_cons 0 x.toClient with hopen | ⟨message, rest, h0, heq⟩
      · rw [Peer.inFlight, pieces_open _ _ hopen, List.map_nil]
      · rw [heq, getFrameAscii_frame [] message rest h0] at hm
        cases hm
    · split at hreceive <;> cases hreceive

theorem done_of_atRest {trace : List (Link × LinkEvent)} {s : Link} {c : ConnectionId} {x : Peer}
    (h : runs.Run trace s) (ho : Orderly c trace) (hx : s.peers.lookup c = some x)
    (hrest : runs.AtRest (fun e => e.moves = true) s) : Done trace s c x := by
  obtain ⟨hserver, hclient⟩ := quiet_of_atRest hx hrest
  have hpending := (channels_run h hx).pending
  have hundelivered : x.undelivered = [] := by
    rw [Peer.undelivered, hserver, List.append_nil, pieces_open _ _ hpending, List.filterMap_nil]
  have hplain : Plain c trace := by
    intro e he command heq
    obtain ⟨hchannels, hnul⟩ := ho.commands e he command heq
    exact ⟨plain_of_ok hchannels, hnul⟩
  have hhandled := handles_inFlight h hx
  rw [hclient, List.append_nil] at hhandled
  obtain ⟨-, hstage⟩ := stage_run h ho.calm ho.commands ho.joins
  cases hstage x hx with
  | connecting hstage =>
    -- The server has read the NUL of the CONNECT.
    obtain ⟨password, -, -, hwire⟩ := hstage.stream
    rw [hserver, List.append_nil] at hwire
    rw [hwire, Framing.ClientFrame.wire_eq] at hpending
    exact absurd (List.mem_append_right _ (List.mem_singleton_self 0)) hpending
  | @loggedIn p own topics goal ps xs hstage =>
    obtain ⟨p', hp', hsubscribed⟩ := hstage.agree
    rw [applied, hundelivered] at hp' hsubscribed
    obtain ⟨done, waiting, unread, hplaces⟩ := places_run h hplain ho.draws ho.calm hx
    have hwaiting : waiting = [] := by
      have hnone := hplaces.inFlight
      rw [Peer.inFlightOf, hclient] at hnone
      cases hnone
      rfl
    have hunread : unread = [] := by
      have hnone := hplaces.unread
      rw [hundelivered] at hnone
      cases hnone
      rfl
    subst hwaiting hunread
    obtain ⟨e, he, hmsg⟩ := greeted_run h ho.calm hx hstage.holds.session hstage.holds.connected
    obtain ⟨m, hm, hc⟩ := messagesOf_connectedFrame
    refine ⟨?_, ?_, fun id => ?_, hhandled, p', hp', hsubscribed⟩
    · refine connected_run h hx (m := m) ?_ hc
      rw [hhandled]
      refine List.mem_flatMap.mpr ⟨e, he, ?_⟩
      rw [hmsg, hm]
      exact List.mem_singleton_self m
    · rw [hplaces.requests, List.append_nil, List.append_nil]
      exact hplaces.handled
    · rw [Option.eq_none_iff_forall_ne_some]
      intro text hid
      obtain ⟨q, hq, -⟩ := (hplaces.stored (keeps_run h hplain ho.draws hx)
        (stores_run h hplain ho.draws hx) id text).mp hid
      cases hq

/-- Without new commands the server and the clients cannot read for ever, and can read until nothing
is on its way. Then each orderly client is done. -/
theorem settles {trace : List (Link × LinkEvent)} {s : Link} (h : runs.Run trace s) :
    (∀ f : Nat → Link, ∃ n, ∀ e : LinkEvent, e.moves = true → (f n).next e ≠ some (f (n + 1))) ∧
    (∃ post s', runs.Run (trace ++ post) s' ∧ (∀ e ∈ post, e.2.moves = true) ∧
      runs.AtRest (fun e => e.moves = true) s') ∧
    (runs.AtRest (fun e => e.moves = true) s → ∀ c x, s.peers.lookup c = some x →
      Orderly c trace → Done trace s c x) := by
  refine ⟨comesToRest.not_endless, ?_, fun hrest c x hx ho => done_of_atRest h ho hx hrest⟩
  obtain ⟨post, s', hp, hmoves, hrest⟩ := comesToRest.exists_rest s
  exact ⟨post, s', h.append hp, hmoves, hrest⟩

/-- A client joins a channel, and everything is read. -/
def settledRun : List LinkEvent := joinRun ++ List.replicate 41 (.deliver 1) ++ [.receive 1]

theorem settles_joined : ∃ trace s x, runs.Run trace s ∧ s.peers.lookup 1 = some x ∧
    (trace.filterMap (requests 1)).length = 1 ∧ Done trace s 1 x := by
  obtain ⟨trace, s, hr, hl, hs⟩ := System.exists_run_labels (M := runs) settledRun (fun trace s =>
    trace.all (fun e => !disturbs 1 e) && decide (trace.countP (draws 1) < 2 ^ 31) &&
      decide (trace.countP (joins 1) < 2 ^ 31) && decide ((trace.filterMap (requests 1)).length = 1) &&
        s.peers.entries.all (fun e => (s.deliver e.1 e.2).isNone && (s.receive e.1 e.2).isNone) &&
          (s.peers.lookup 1).isSome) (by decide +kernel)
  simp only [Bool.and_eq_true, List.all_eq_true, Bool.not_eq_true', decide_eq_true_eq,
    Option.isNone_iff_eq_none, Option.isSome_iff_exists] at hs
  obtain ⟨⟨⟨⟨⟨hcalm, hdraws⟩, hjoins⟩, hone⟩, hrest⟩, x, hx⟩ := hs
  have hrest : runs.AtRest (fun e => e.moves = true) s := (atRest_iff s).mpr
    ((Table.forall_lookup_iff _ fun c x => s.deliver c x = none ∧ s.receive c x = none).mpr hrest)
  refine ⟨trace, s, x, hr, hx, hone, (settles hr).2.2 hrest 1 x hx ⟨fun e he command heq => ?_, hjoins,
    hdraws, hcalm⟩⟩
  have hmem : .command 1 command ∈ settledRun := hl ▸ heq ▸ List.mem_map_of_mem he
  simp only [settledRun, List.mem_append, List.mem_replicate, List.mem_singleton] at hmem
  rcases hmem with (hmem | ⟨-, hmem⟩) | hmem
  · rw [mem_joinRun hmem]
    exact ⟨headerText_t, trivial⟩
  · cases hmem
  · cases hmem

end Link

end Stomp
