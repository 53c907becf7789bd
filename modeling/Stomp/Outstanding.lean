import Stomp.Matching
import Stomp.Summaries

/-!
# No receipt is lost

Until a client leaves, each of its requests is in one of three places: answered and forgotten, with
its RECEIPT on the way back, or with its frame still on the way out. The receipts that the client
stores are those of the last two.
-/

open Stomp.Split Stomp.Utf8 Stomp.Client
open scoped List

namespace Stomp

open StompMessageEncoderDecoder StompMessagingProtocolImpl

theorem Client.Command.run_receiptMap (p : StompProtocol) (username : Bytes) (command : Command) :
    (command.request p = none ∧ (command.run p username).1.receiptMap = p.receiptMap) ∨
      ∃ q, command.request p = some q ∧ q.receiptId = p.receiptCounter ∧
        (command.run p username).1.receiptMap = p.receiptMap.insert q.receiptId q.requestType := by
  have hdraws := command.run_draws p username
  generalize command.run p username = r at hdraws ⊢
  cases hdraws with
  | request hq _ hid hmap _ => exact .inr ⟨_, hq, hid, hmap⟩
  | unused hq _ hmap _ => exact .inl ⟨hq, hmap⟩
  | report hcommand _ => exact .inl ⟨hcommand ▸ rfl, rfl⟩
  | nothing hq _ => exact .inl ⟨hq, rfl⟩

/-! ## The connection is there -/

namespace Server

/-- The connection has a protocol object, and `Connections` knows it. -/
structure Present (s : Server) (c : ConnectionId) : Prop where
  session : ∃ p, s.sessions.lookup c = some p
  registered : c ∈ s.connections.activeConnections

variable {s s' : Server} {c : ConnectionId} {p : Session} {f : StompFrame}

theorem Present.untouched (h : s.Present c) (hu : Untouched c s s') : s'.Present c := by
  obtain ⟨p, hp⟩ := h.session
  exact ⟨⟨p, hu.session.trans hp⟩, hu.registered.mpr h.registered⟩

theorem present_accept (s : Server) : s.accept.Present (s.connectionCounter + 1) :=
  ⟨⟨_, s.lookup_accept⟩, by simp [accept, ConnectionsImpl.register]⟩

theorem Present.process (h : s.Present c) (ha : s.accepted c f = true)
    (hf : f.command ≠ "DISCONNECT".toList) : (s.process c f).1.Present c := by
  -- A frame that is carried out keeps the connection, unless it is a DISCONNECT.
  obtain ⟨p, hp⟩ := h.session
  have haccepts := (accepted_iff hp).mp ha
  obtain rfl := s.ids c p hp
  have hreg := h.registered
  have ho := process_outcome s p f
  rw [← process_of_session f hp] at ho
  generalize s.process p.connectionId f = r at ho ⊢
  cases ho with
  | refused _ hno => exact absurd haccepts hno
  | @connect login passcode _ =>
    obtain ⟨hactive, -⟩ := s.connections.authenticateUser_fields p.connectionId login passcode
    exact ⟨⟨_, by simp [lookup_setSession]; rfl⟩, by simpa [hactive] using hreg⟩
  | subscribe _ => exact ⟨⟨_, by simp [lookup_setSession]; rfl⟩, hreg⟩
  | @unsubscribe topic _ _ =>
    obtain ⟨hactive, -⟩ := s.connections.removeSubscription_fields topic p.connectionId
    exact ⟨⟨_, by simp [lookup_setSession]; rfl⟩, by simpa [hactive] using hreg⟩
  | send _ => exact ⟨⟨p, hp⟩, hreg⟩
  | disconnect hd => exact absurd hd.command hf

/-! ## Every receipt that is asked for is sent -/

theorem process_isReceipt (hp : s.sessions.lookup c = some p) (ha : s.accepted c f = true)
    (hf : f.command = "SEND".toList → f.getHeader receiptKey = none) :
    (s.process c f).2.filter Sent.isReceipt = s.receipts c f := by
  have haccepts := (accepted_iff hp).mp ha
  have hall : (s.receipts c f).filter Sent.isReceipt = s.receipts c f :=
    List.filter_eq_self.mpr fun m hm => decide_eq_true (receipts_command hm)
  obtain rfl := s.ids c p hp
  have ho := process_outcome s p f
  rw [← process_of_session f hp] at ho
  generalize s.process p.connectionId f = r at ho ⊢
  cases ho with
  | refused _ hno => exact absurd haccepts hno
  | connect _ =>
    have hconnected : ¬ (s.sent p.connectionId connectedFrame).isReceipt = true := by
      show ¬ decide (connectedFrame.command = "RECEIPT".toList) = true
      decide
    exact (List.filter_cons_of_neg hconnected).trans hall
  | subscribe _ | unsubscribe _ | disconnect _ => exact hall
  | @send topic h =>
    have hnone : s.receipts p.connectionId f = [] := by simp [receipts, hf h.command]
    rw [hnone]
    refine List.filter_eq_nil_iff.mpr fun m hm => ?_
    rw [Sent.isReceipt, messages_command hm]
    decide

end Server

namespace Link

theorem calm_frame {s : Link} {c : ConnectionId} {x : Peer} {f : StompFrame}
    (hx : s.peers.lookup c = some x) (hf : x.completed = some f)
    (hd : disturbs c (s, .deliver c) = false) :
    s.server.accepted c f = true ∧ f.command ≠ "DISCONNECT".toList := by
  simp only [disturbs, decide_true, hx, Option.bind_some, hf, Option.any_some, Bool.true_and,
    Bool.or_eq_false_iff, Bool.not_eq_false', decide_eq_false_iff_not] at hd
  exact hd

theorem present_step {s s' : Link} {e : LinkEvent} {c : ConnectionId} (h : s.next e = some s')
    (hf : s.server.connectionCounter + 1 ≠ c) (hd : disturbs c (s, e) = false)
    (hp : s.server.Present c) : s'.server.Present c := by
  cases next_step h with
  | login _ _ => exact hp.untouched (s.server.untouched_accept (Ne.symm hf))
  | @frame d x b rest f hx hb hr =>
    by_cases hcd : c = d
    · subst hcd
      obtain ⟨ha, hne⟩ := calm_frame hx (Peer.completed_some hb hr) hd
      exact hp.process ha hne
    · exact hp.untouched (process_other s.server f hcd).1
  | disconnect d =>
    have hcd : c ≠ d := by
      rintro rfl
      simp [disturbs] at hd
    exact hp.untouched (s.server.untouched_disconnect hcd)
  | command _ _ | byte _ _ _ | receive _ _ _ | lost _ _ => exact hp

theorem present_run {trace : List (Link × LinkEvent)} {s : Link} {c : ConnectionId} {x : Peer}
    (h : runs.Run trace s) (hcalm : ∀ e ∈ trace, disturbs c e = false)
    (hx : s.peers.lookup c = some x) : s.server.Present c := by
  induction h generalizing x with
  | nil => cases hx
  | @snoc trace s e s' hr hs ih =>
    have hd := hcalm _ (List.mem_append_right _ (List.mem_singleton_self _))
    rcases next_peerStep hs hx with ⟨y, hy, -⟩ | ⟨username, password, rfl, rfl, -⟩
    · have hp := ih (fun e he => hcalm e (List.mem_append_left _ he)) hy
      refine present_step hs (fun hnew => ?_) hd hp
      obtain ⟨p, hp⟩ := hp.session
      rw [(idsFresh_run hr c (by omega)).1] at hp
      cases hp
    · cases hs
      exact s.server.present_accept

/-! ## Every request is answered -/

theorem answered_frame {s : Link} {c : ConnectionId} {x : Peer} {f : StompFrame}
    (hx : s.peers.lookup c = some x) (hf : x.completed = some f) (hp : s.server.Present c)
    (hd : disturbs c (s, .deliver c) = false)
    (hsend : f.command = "SEND".toList → f.getHeader receiptKey = none) :
    ((hands c (s, .deliver c)).filter fun e => e.msg.command = "RECEIPT".toList).map Handed.cause =
      [f].filter hasReceipt := by
  obtain ⟨ha, -⟩ := calm_frame hx hf hd
  obtain ⟨p, hsession⟩ := hp.session
  have hhands : hands c (s, .deliver c) = ((s.server.process c f).2.filter
      fun m => c = m.connectionId && m.delivered).map fun m => ⟨c, f, m.msg⟩ := by
    simp [hands, hx, hf]
  have hcauses : ((hands c (s, .deliver c)).filter
      fun e => e.msg.command = "RECEIPT".toList).map Handed.cause =
        ((s.server.receipts c f).filter fun m => c = m.connectionId && m.delivered).map fun _ => f := by
    rw [← Server.process_isReceipt hsession ha hsend, hhands, List.filter_map, List.map_map,
      List.filter_filter, List.filter_filter]
    refine congrArg (List.map _) (List.filter_congr fun m _ => ?_)
    exact Bool.and_comm _ _
  rw [hcauses]
  have hreg : c ∈ s.server.connections.activeConnections := hp.registered
  cases hr : f.getHeader receiptKey with
  | none => simp [Server.receipts, hasReceipt, hr]
  | some r => simp [Server.receipts, hasReceipt, hr, Server.sent, ConnectionsImpl.isRegistered, hreg]

theorem reads_cases {s : Link} {e : LinkEvent} {c : ConnectionId} {f : StompFrame}
    (h : reads c (s, e) = some f) :
    e = .deliver c ∧ ∃ x, s.peers.lookup c = some x ∧ x.completed = some f := by
  unfold reads at h
  split at h
  · next t d heq =>
    cases heq
    simp only [Option.ite_none_right_eq_some] at h
    obtain ⟨rfl, h⟩ := h
    exact ⟨rfl, Option.bind_eq_some_iff.mp h⟩
  · cases h

theorem answered_step {trace : List (Link × LinkEvent)} {s : Link} {e : LinkEvent} {c : ConnectionId}
    (h : runs.Run trace s) (hcalm : ∀ e ∈ trace, disturbs c e = false)
    (hd : disturbs c (s, e) = false)
    (hsend : ∀ f, reads c (s, e) = some f → f.command = "SEND".toList → f.getHeader receiptKey = none) :
    ((hands c (s, e)).filter fun e => e.msg.command = "RECEIPT".toList).map Handed.cause =
      (reads c (s, e)).toList.filter hasReceipt := by
  cases hr : reads c (s, e) with
  | none =>
    have hcauses := causes_step h e c
    rw [hr] at hcauses
    exact List.sublist_nil.mp hcauses
  | some f =>
    obtain ⟨rfl, x, hx, hf⟩ := reads_cases hr
    exact answered_frame hx hf (present_run h hcalm hx) hd (hsend f hr)

theorem answered_run {trace : List (Link × LinkEvent)} {s : Link} {c : ConnectionId}
    (h : runs.Run trace s) (hcalm : ∀ e ∈ trace, disturbs c e = false)
    (hsend : ∀ f ∈ trace.filterMap (reads c), f.command = "SEND".toList →
      f.getHeader receiptKey = none) :
    (handsOf "RECEIPT" c trace).map Handed.cause = (trace.filterMap (reads c)).filter hasReceipt := by
  induction h with
  | nil => rfl
  | @snoc trace s e s' hr hs ih =>
    have hinit : ∀ e ∈ trace, disturbs c e = false := fun e he => hcalm e (List.mem_append_left _ he)
    rw [filterMap_snoc] at hsend ⊢
    have hlast := answered_step hr hinit (hcalm _ (List.mem_append_right _ (List.mem_singleton_self _)))
      fun f hf => hsend f (List.mem_append_right _ (by simp [hf]))
    rw [handsOf_snoc, List.filter_append, List.map_append, hlast,
      ih hinit fun f hf => hsend f (List.mem_append_left _ hf)]

/-! ## The three places of a request -/

theorem mem_requests {trace : List (Link × LinkEvent)} {c : ConnectionId} {q : Request}
    (h : q ∈ trace.filterMap (requests c)) : ∃ p command, Command.request p command = some q := by
  obtain ⟨⟨s, e⟩, -, hq⟩ := List.mem_filterMap.mp h
  unfold requests at hq
  split at hq
  · simp only [Option.ite_none_right_eq_some, Option.bind_eq_some_iff] at hq
    obtain ⟨-, x, -, hq⟩ := hq
    exact ⟨_, _, hq⟩
  · cases hq

theorem asked_eq {trace : List (Link × LinkEvent)} {s : Link} {c : ConnectionId} {x : Peer}
    (h : runs.Run trace s) (hx : s.peers.lookup c = some x) :
    asked (trace.flatMap (writes c)) =
      (trace.filterMap (reads c)).filter hasReceipt ++ x.undelivered.filter hasReceipt := by
  have hread : ∀ fs : List StompFrame,
      (fs.map Decoded.frame).filterMap asksReceipt = fs.filter hasReceipt := by
    intro fs
    rw [List.filterMap_map]
    exact congrFun List.filterMap_eq_filter fs
  rw [asked, ← reads_toServer h hx, List.filterMap_append, hread]
  refine congrArg _ ?_
  rw [List.filterMap_map, Peer.undelivered, List.filter_filterMap]
  refine List.filterMap_congr fun piece _ => ?_
  show asksReceipt (outcome piece) = _
  cases outcome piece <;> rfl

/-- The receipts that a client stores: each is of a request, and none is there any more whose RECEIPT
was handled. -/
structure Stores (qs : List Request) (hs : List StompProtocol.Parsed) (x : Peer) : Prop where
  asked : ∀ id text, x.protocol.receiptMap.lookup id = some text →
    ∃ q ∈ qs, q.receiptId = id ∧ q.requestType = text
  handled : ∀ m ∈ hs, m.command = ascii "RECEIPT" → ∀ id, m.receiptId = some id →
    x.protocol.receiptMap.lookup id = none

namespace Stores

variable {qs : List Request} {hs : List StompProtocol.Parsed} {x x' : Peer}

theorem quiet (h : Stores qs hs x) (hmap : x'.protocol.receiptMap = x.protocol.receiptMap)
    {hs' : List StompProtocol.Parsed} (hnew : ∀ m ∈ hs', m.command = ascii "RECEIPT" → ∀ id,
      m.receiptId = some id → x.protocol.receiptMap.lookup id = none) : Stores qs (hs ++ hs') x' := by
  refine ⟨hmap ▸ h.asked, fun m hm => ?_⟩
  rw [hmap]
  exact (List.mem_append.mp hm).elim (h.handled m) (hnew m)

theorem request {q : Request} (h : Stores qs hs x)
    (hmap : x'.protocol.receiptMap = x.protocol.receiptMap.insert q.receiptId q.requestType)
    (hnew : ∀ m ∈ hs, m.command = ascii "RECEIPT" → m.receiptId ≠ some q.receiptId) :
    Stores (qs ++ [q]) hs x' := by
  constructor
  · intro id text hid
    rw [hmap, Table.lookup_insert_if] at hid
    split at hid
    · next heq =>
      refine ⟨q, List.mem_append_right _ (List.mem_singleton_self q), heq.symm, ?_⟩
      exact Option.some.inj hid
    · obtain ⟨q', hq', hq⟩ := h.asked id text hid
      exact ⟨q', List.mem_append_left _ hq', hq⟩
  · intro m hm hc id hid
    rw [hmap, Table.lookup_insert_if, if_neg, h.handled m hm hc id hid]
    rintro rfl
    exact hnew m hm hc hid

theorem receipt {m : StompProtocol.Parsed} {id : Int} (h : Stores qs hs x)
    (hid : m.receiptId = some id)
    (hmap : x'.protocol.receiptMap = x.protocol.receiptMap.erase id) : Stores qs (hs ++ [m]) x' := by
  have herased : ∀ id', x'.protocol.receiptMap.lookup id' =
      if id' = id then none else x.protocol.receiptMap.lookup id' := by
    intro id'
    rw [hmap, Table.lookup_erase_if]
  constructor
  · intro id' text hlookup
    rw [herased] at hlookup
    split at hlookup
    · cases hlookup
    · exact h.asked id' text hlookup
  · intro m' hm' hc id' hid'
    rw [herased]
    split
    · rfl
    · next hne =>
      rcases List.mem_append.mp hm' with hm' | hm'
      · exact h.handled m' hm' hc id' hid'
      · rw [List.mem_singleton.mp hm', hid, Option.some.injEq] at hid'
        exact absurd hid'.symm hne

end Stores

theorem Stores.step {trace : List (Link × LinkEvent)} {s : Link} {c : ConnectionId} {e : LinkEvent}
    {x x' : Peer} (hr : runs.Run trace s) (hplain : Plain c trace)
    (hcount : trace.countP (draws c) < 2 ^ 31) (hx : s.peers.lookup c = some x)
    (h : Stores (trace.filterMap (requests c)) (trace.filterMap (handles c)) x)
    (hs : PeerStep c s e x x') :
    Stores ((trace ++ [(s, e)]).filterMap (requests c)) ((trace ++ [(s, e)]).filterMap (handles c))
      x' := by
  -- What a client stores of the requests of a run.
  rw [filterMap_snoc, filterMap_snoc]
  have hsilent : (∀ command, e ≠ .command c command) → handles c (s, e) = none →
      x'.protocol.receiptMap = x.protocol.receiptMap → Stores (trace.filterMap (requests c) ++
        (requests c (s, e)).toList) (trace.filterMap (handles c) ++ (handles c (s, e)).toList) x' := by
    intro he hm hmap
    rw [(requests_none he).1, hm, Option.toList_none, List.append_nil]
    exact h.quiet hmap nofun
  cases hs with
  | quiet he _ _ _ hm => exact hsilent he hm rfl
  | byte _ _ => exact hsilent deliver_ne rfl rfl
  | frame _ _ => exact hsilent deliver_ne rfl rfl
  | handed _ => exact hsilent deliver_ne rfl rfl
  | command command _ =>
    rw [(requests_command hx command).1, show handles c (s, .command c command) = none from rfl,
      Option.toList_none, List.append_nil]
    rcases command.run_receiptMap x.protocol x.username with ⟨hq, hmap⟩ | ⟨q, hq, hid, hmap⟩
    · rw [hq, Option.toList_none, List.append_nil, ← List.append_nil (trace.filterMap (handles c))]
      exact h.quiet hmap nofun
    · rw [hq]
      refine h.request hmap fun m hm hc hack => ?_
      -- An earlier RECEIPT is for an earlier request, with a smaller id.
      obtain ⟨done, waiting, hmatched⟩ := matched_run hr hplain hcount hx
      have hm : m ∈ handlesOf "RECEIPT" c trace := List.mem_filter.mpr ⟨hm, decide_eq_true hc⟩
      obtain ⟨q', hq', -, hack'⟩ := forall₂_mem_right hmatched.handled hm
      have hkept : Kept _ _ _ _ x := keeps_run hr hplain hcount hx
      have hlt := (hkept.bound q' (hmatched.made.subset (List.mem_append_left _ hq'))).2
      have heq : q'.receiptId = q.receiptId := Option.some.inj (hack'.symm.trans hack)
      rw [heq, hid, hkept.counter] at hlt
      omega
  | @receive _ message rest p hstop hm hp =>
    have hhandles : handles c (s, .receive c) = some (StompProtocol.parse message) := by
      rw [handles_receive hx, Peer.incoming, hstop, hm]
      rfl
    rw [(requests_none receive_ne).1, hhandles, Option.toList_none, List.append_nil,
      Option.toList_some]
    have hother : (StompProtocol.parse message).command ≠ ascii "RECEIPT" →
        p.receiptMap = x.protocol.receiptMap → Stores (trace.filterMap (requests c))
          (trace.filterMap (handles c) ++ [StompProtocol.parse message])
            { x with protocol := p, toClient := rest } := by
      intro hne hmap
      refine h.quiet hmap fun m hm hc => ?_
      rw [List.mem_singleton.mp hm] at hc
      exact absurd hc hne
    cases StompProtocol.parseFrame_handles hp with
    | connected hc => exact hother (hc ▸ by decide) rfl
    | message hc _ _ => exact hother (hc ▸ by decide) rfl
    | error hc => exact hother (hc ▸ by decide) rfl
    | other hc => exact hother hc.2.2.2 rfl
    | unknown hc hnone =>
      refine h.quiet ?_ fun m hm _ id hid => ?_
      · rfl
      · rw [List.mem_singleton.mp hm] at hid
        exact hnone id hid
    | receipt _ hid _ => exact h.receipt hid rfl

theorem stores_run {trace : List (Link × LinkEvent)} {s : Link} {c : ConnectionId} {x : Peer}
    (h : runs.Run trace s) (hplain : Plain c trace) (hcount : trace.countP (draws c) < 2 ^ 31)
    (hx : s.peers.lookup c = some x) :
    Stores (trace.filterMap (requests c)) (trace.filterMap (handles c)) x := by
  refine peer_run (P := fun trace x => Plain c trace → trace.countP (draws c) < 2 ^ 31 →
    Stores (trace.filterMap (requests c)) (trace.filterMap (handles c)) x) ?_ ?_ h hx hplain hcount
  · intro trace s username password hr hc habsent _ _
    have hlt : s.server.connectionCounter < c := hc ▸ Nat.lt_succ_self s.server.connectionCounter
    rw [filterMap_snoc, filterMap_snoc, habsent.handles, (absent_requests hr hlt).1]
    exact ⟨nofun, nofun⟩
  · intro trace s e x x' hr hx hs ih hplain hcount
    have hpre : trace.countP (draws c) < 2 ^ 31 :=
      Nat.lt_of_le_of_lt (by simp [List.countP_append]) hcount
    have hinit : Plain c trace := fun e he => hplain e (List.mem_append_left _ he)
    exact (ih hinit hpre).step hr hinit hpre hx hs

/-- The requests of a client that has not left, by where they are. -/
structure Places (trace : List (Link × LinkEvent)) (c : ConnectionId) (x : Peer)
    (done waiting unread : List Request) : Prop where
  requests : trace.filterMap (requests c) = done ++ waiting ++ unread
  handled : List.Forall₂ Request.Acknowledged done (handlesOf "RECEIPT" c trace)
  inFlight : List.Forall₂ Request.Acknowledged waiting (x.inFlightOf "RECEIPT")
  unread : List.Forall₂ Request.ReadAs unread (x.undelivered.filter hasReceipt)

theorem places_run {trace : List (Link × LinkEvent)} {s : Link} {c : ConnectionId} {x : Peer}
    (h : runs.Run trace s) (hplain : Plain c trace) (hcount : trace.countP (draws c) < 2 ^ 31)
    (hcalm : ∀ e ∈ trace, disturbs c e = false) (hx : s.peers.lookup c = some x) :
    ∃ done waiting unread, Places trace c x done waiting unread := by
  have hkept : Kept _ _ _ _ x := keeps_run h hplain hcount hx
  have hasked := hkept.asked
  rw [asked_eq h hx] at hasked
  -- No SEND asks for a receipt, which the server would not answer.
  have hsend : ∀ f ∈ trace.filterMap (reads c), f.command = "SEND".toList →
      f.getHeader receiptKey = none := by
    intro f hf hcommand
    by_contra hne
    have hmem : f ∈ (trace.filterMap (reads c)).filter hasReceipt :=
      List.mem_filter.mpr ⟨hf, Option.isSome_iff_ne_none.mpr hne⟩
    obtain ⟨q, hq, hread⟩ := forall₂_mem_right hasked (List.mem_append_left _ hmem)
    obtain ⟨p, command, hrequest⟩ := mem_requests hq
    refine request_command hrequest ?_
    rw [hread.command, hcommand]
    rfl
  obtain ⟨read, unread, hrequests, hread, hunread⟩ := forall₂_append_right hasked
  rw [← answered_run h hcalm hsend, List.forall₂_map_right_iff] at hread
  have hack := forall₂_flatMap_right hread (S := Request.Acknowledged)
    (f := fun e => messagesOf e.msg) fun q hq e he hqe => by
      obtain ⟨hreceipt, pre, t, post, y, p, -, -, hfor⟩ := mem_handsOf h he
      have hmem : q ∈ trace.filterMap (Link.requests c) := hrequests ▸ List.mem_append_left _ hq
      exact hfor.acknowledged hreceipt hqe (hkept.inRange hcount hmem)
  have hmessages := messages_of h hx (show "RECEIPT".toList ≠ "ERROR".toList by decide) (by decide)
  rw [hmessages] at hack
  obtain ⟨done, waiting, rfl, hdone, hwaiting⟩ := forall₂_append_right hack
  exact ⟨done, waiting, unread, hrequests, hdone, hwaiting, hunread⟩

theorem Places.stored {trace : List (Link × LinkEvent)} {c : ConnectionId} {x : Peer}
    {done waiting unread : List Request} {n : Nat} {ms : List Framing.ClientFrame}
    (h : Places trace c x done waiting unread)
    (hkept : Kept n (trace.filterMap (Link.requests c)) ms (trace.filterMap (handles c)) x)
    (hstores : Stores (trace.filterMap (Link.requests c)) (trace.filterMap (handles c)) x)
    (id : Int) (text : Bytes) : x.protocol.receiptMap.lookup id = some text ↔
      ∃ q ∈ waiting ++ unread, q.receiptId = id ∧ q.requestType = text := by
  have hdistinct := hkept.distinct
  rw [h.requests, List.append_assoc, List.map_append, List.nodup_append] at hdistinct
  constructor
  · intro hid
    obtain ⟨q, hq, rfl, htype⟩ := hstores.asked id text hid
    rw [h.requests, List.append_assoc] at hq
    rcases List.mem_append.mp hq with hq | hq
    · -- Its RECEIPT was handled.
      obtain ⟨m, hm, hc, hack⟩ := forall₂_mem_left h.handled hq
      rw [hstores.handled m (List.mem_of_mem_filter hm) hc _ hack] at hid
      cases hid
    · exact ⟨q, hq, rfl, htype⟩
  · rintro ⟨q, hq, rfl, rfl⟩
    have hmem : q ∈ trace.filterMap (Link.requests c) := by
      rw [h.requests, List.append_assoc]
      exact List.mem_append_right _ hq
    rcases hkept.stored q hmem with hstored | ⟨m, hm, hc, hid⟩
    · exact hstored
    · have hm : m ∈ handlesOf "RECEIPT" c trace := List.mem_filter.mpr ⟨hm, decide_eq_true hc⟩
      obtain ⟨q', hq', -, hid'⟩ := forall₂_mem_right h.handled hm
      refine absurd ?_ (hdistinct.2.2 _ (List.mem_map_of_mem hq') _ (List.mem_map_of_mem hq))
      exact Option.some.inj (hid'.symm.trans hid)

/-- Until a client leaves, its requests are those whose RECEIPT it handled, those whose RECEIPT is on
its way, and those whose frame is on its way, in this order. It stores the last two. -/
theorem receipts_outstanding {trace : List (Link × LinkEvent)} {s : Link} {c : ConnectionId} {x : Peer}
    (h : runs.Run trace s) (hplain : Plain c trace) (hcount : trace.countP (draws c) < 2 ^ 31)
    (hcalm : ∀ e ∈ trace, disturbs c e = false) (hx : s.peers.lookup c = some x) :
    ∃ done waiting unread, trace.filterMap (requests c) = done ++ waiting ++ unread ∧
      List.Forall₂ Request.Acknowledged done (handlesOf "RECEIPT" c trace) ∧
      List.Forall₂ Request.Acknowledged waiting (x.inFlightOf "RECEIPT") ∧
      List.Forall₂ Request.ReadAs unread (x.undelivered.filter hasReceipt) ∧
      ∀ id text, x.protocol.receiptMap.lookup id = some text ↔
        ∃ q ∈ waiting ++ unread, q.receiptId = id ∧ q.requestType = text := by
  obtain ⟨done, waiting, unread, hplaces⟩ := places_run h hplain hcount hcalm hx
  exact ⟨done, waiting, unread, hplaces.requests, hplaces.handled, hplaces.inFlight, hplaces.unread,
    hplaces.stored (keeps_run h hplain hcount hx) (stores_run h hplain hcount hx)⟩

/-- A client joins two channels and leaves the first: one RECEIPT is handled, one is on its way, and
one frame is not read yet. -/
def outstandingRun : List LinkEvent :=
  joinRun ++ List.replicate 41 (.deliver 1) ++ [.receive 1, .command 1 (.join (ascii "v"))] ++
    List.replicate 41 (.deliver 1) ++ [.command 1 (.exit (ascii "t"))]

theorem mem_outstandingRun {command : Command} (h : .command 1 command ∈ outstandingRun) :
    command.ChannelsPlain ∧ command.NoNul := by
  have hplain : ∀ channel ∈ [ascii "t", ascii "v"], nl ∉ channel ∧ 0 ∉ channel := by decide
  simp only [outstandingRun, List.mem_append, List.mem_cons, List.mem_replicate] at h
  rcases h with (((h | ⟨-, h⟩) | h | h | h) | ⟨-, h⟩) | h | h
  · rw [mem_joinRun h]
    exact ⟨hplain _ (by simp), trivial⟩
  · cases h
  · cases h
  · cases h
    exact ⟨hplain _ (by simp), trivial⟩
  · cases h
  · cases h
  · cases h
    exact ⟨hplain _ (by simp), trivial⟩
  · cases h

theorem receipts_outstanding_joined : ∃ trace s x done waiting unread, runs.Run trace s ∧
    s.peers.lookup 1 = some x ∧ trace.filterMap (requests 1) = done ++ waiting ++ unread ∧
    done.length = 1 ∧ waiting.length = 1 ∧ unread.length = 1 ∧
    ∀ id text, x.protocol.receiptMap.lookup id = some text ↔
      ∃ q ∈ waiting ++ unread, q.receiptId = id ∧ q.requestType = text := by
  obtain ⟨trace, s, hr, hl, hs⟩ := System.exists_run_labels (M := runs) outstandingRun (fun trace s =>
    trace.all (fun e => !disturbs 1 e) && decide (trace.countP (draws 1) < 2 ^ 31) &&
      decide ((handlesOf "RECEIPT" 1 trace).length = 1) && (s.peers.lookup 1).any fun x : Peer =>
        decide ((x.inFlightOf "RECEIPT").length = 1) &&
          decide ((x.undelivered.filter hasReceipt).length = 1)) (by decide +kernel)
  simp only [Bool.and_eq_true, List.all_eq_true, Bool.not_eq_true', decide_eq_true_eq,
    Option.any_eq_true] at hs
  obtain ⟨⟨⟨hcalm, hcount⟩, hhandled⟩, x, hx, hflight, hunread⟩ := hs
  have hplain : Plain 1 trace := fun e he command heq =>
    mem_outstandingRun (hl ▸ heq ▸ List.mem_map_of_mem he)
  obtain ⟨done, waiting, unread, hrequests, h1, h2, h3, hstored⟩ :=
    receipts_outstanding hr hplain hcount hcalm hx
  exact ⟨trace, s, x, done, waiting, unread, hr, hx, hrequests, h1.length_eq.trans hhandled,
    h2.length_eq.trans hflight, h3.length_eq.trans hunread, hstored⟩

end Link

end Stomp
