import Stomp.ReceiptMap
import Stomp.Agreement

/-!
# The client matches every receipt to its request

The RECEIPTs that a client handled or has still to read belong one by one to requests that it made,
in their order.
-/

open Stomp.Split Stomp.Utf8 Stomp.Client
open scoped List

namespace Stomp

open StompMessageEncoderDecoder StompMessagingProtocolImpl

def Sent.isReceipt (m : Sent) : Bool := m.msg.command = "RECEIPT".toList

/-- The RECEIPT brings back the id of the request. -/
def Client.Request.Acknowledged (q : Request) (m : StompProtocol.Parsed) : Prop :=
  m.command = ascii "RECEIPT" ∧ m.receiptId = some q.receiptId

/-! ## The RECEIPTs of the server -/

namespace Server

theorem receipts_length (s : Server) (c : ConnectionId) (f : StompFrame) :
    (s.receipts c f).length ≤ 1 := by
  rw [receipts, List.length_map]
  cases f.getHeader receiptKey <;> simp

theorem process_receipts (s : Server) (c : ConnectionId) (f : StompFrame) :
    ((s.process c f).2.filter Sent.isReceipt).length ≤ 1 := by
  cases hp : s.sessions.lookup c with
  | none => simp [Server.process, hp]
  | some p =>
    have hreceipts : ((s.receipts p.connectionId f).filter Sent.isReceipt).length ≤ 1 :=
      (List.length_filter_le _ _).trans (s.receipts_length p.connectionId f)
    rw [process_of_session f hp]
    have ho := process_outcome s p f
    generalize s.exec (p.process f) = r at ho
    cases ho with
    | refused _ _ => exact List.length_filter_le _ _
    | connect _ =>
      have hconnected : ¬ (s.sent p.connectionId connectedFrame).isReceipt = true := by
        show ¬ decide (connectedFrame.command = "RECEIPT".toList) = true
        decide
      show (List.filter Sent.isReceipt (_ :: _)).length ≤ 1
      rw [List.filter_cons_of_neg hconnected]
      exact hreceipts
    | subscribe _ => exact hreceipts
    | unsubscribe _ => exact hreceipts
    | @send topic _ =>
      have hnone : List.filter Sent.isReceipt (s.messages topic s.connections.getNextMessageId.1
          f.body) = [] := by
        refine List.filter_eq_nil_iff.mpr fun m hm => ?_
        rw [Sent.isReceipt, messages_command hm]
        decide
      show (List.filter Sent.isReceipt (s.messages topic _ f.body)).length ≤ 1
      rw [hnone]
      exact Nat.zero_le 1
    | disconnect _ => exact hreceipts

end Server

namespace Link

theorem hands_receipts (t : Link) (ev : LinkEvent) (c : ConnectionId) :
    ((hands c (t, ev)).filter fun e => e.msg.command = "RECEIPT".toList).length ≤ 1 := by
  cases ev with
  | deliver d =>
    show (List.filter _ (((t.peers.lookup d).bind Peer.completed).elim [] _)).length ≤ 1
    cases (t.peers.lookup d).bind Peer.completed with
    | none => exact Nat.zero_le 1
    | some f =>
      rw [Option.elim_some, List.filter_map, List.length_map, List.filter_filter]
      refine le_trans (List.Sublist.length_le ?_) (t.server.process_receipts d f)
      refine List.monotone_filter_right _ fun m hm => ?_
      exact (Bool.and_eq_true_iff.mp hm).1
  | login _ _ | command _ _ | receive _ | lose _ | disconnect _ => exact Nat.zero_le 1

theorem Arrives.receipt_of {c : ConnectionId} {t : Link} {e : Handed} {p : Session}
    (h : Arrives c t e p) (he : e.msg.command = "RECEIPT".toList) : e.sender = c ∧
      ∃ r, e.msg = receiptFrame r ∧ e.cause.getHeader receiptKey = some r ∧
        Server.Accepts t.server.connections p e.cause := by
  cases h with
  | error hmsg _ _ _ =>
    rw [hmsg] at he
    exact absurd (show "ERROR".toList = "RECEIPT".toList from he) (by decide)
  | connected _ hmsg _ _ _ =>
    rw [hmsg] at he
    exact absurd he (by decide)
  | receipt hsender hmsg _ _ hr ha => exact ⟨hsender, _, hmsg, hr, ha⟩
  | message hmsg _ _ _ =>
    rw [hmsg] at he
    exact absurd (show "MESSAGE".toList = "RECEIPT".toList from he) (by decide)

/-! ## What caused them -/

def hasReceipt (f : StompFrame) : Bool := (f.getHeader receiptKey).isSome

theorem causes_step {pre : List (Link × LinkEvent)} {t : Link} (h : runs.Run pre t) (ev : LinkEvent)
    (c : ConnectionId) :
    ((hands c (t, ev)).filter fun e => e.msg.command = "RECEIPT".toList).map Handed.cause <+
      (reads c (t, ev)).toList.filter hasReceipt := by
  have hlength := hands_receipts t ev c
  cases hreceipts : (hands c (t, ev)).filter fun e => e.msg.command = "RECEIPT".toList with
  | nil => exact List.nil_sublist _
  | cons e es =>
    obtain rfl : es = [] := by
      rw [hreceipts, List.length_cons] at hlength
      exact List.eq_nil_of_length_eq_zero (by omega)
    obtain ⟨he, hreceipt⟩ := List.mem_filter.mp (hreceipts ▸ List.mem_cons_self)
    obtain ⟨rfl, y, p, hfor⟩ := handedFor h he
    obtain ⟨rfl, r, -, hr, -⟩ := hfor.arrives.receipt_of (of_decide_eq_true hreceipt)
    rw [hfor.reads, Option.toList_some, List.map_singleton,
      List.filter_cons_of_pos (by simp [hasReceipt, hr]), List.filter_nil]

theorem causes_run {trace : List (Link × LinkEvent)} {s : Link} (h : runs.Run trace s)
    (c : ConnectionId) : (handsOf "RECEIPT" c trace).map Handed.cause <+
      (trace.filterMap (reads c)).filter hasReceipt := by
  induction h with
  | nil => exact List.nil_sublist _
  | @snoc trace s e s' hr hs ih =>
    rw [filterMap_snoc, handsOf_snoc, List.filter_append, List.map_append]
    exact ih.append (causes_step hr e c)

theorem reads_asked {trace : List (Link × LinkEvent)} {s : Link} {c : ConnectionId} {x : Peer}
    (h : runs.Run trace s) (hx : s.peers.lookup c = some x) :
    (trace.filterMap (reads c)).filter hasReceipt <+ asked (trace.flatMap (writes c)) := by
  have hfilter : ∀ fs : List StompFrame,
      (fs.map Decoded.frame).filterMap asksReceipt = fs.filter hasReceipt := by
    intro fs
    rw [List.filterMap_map]
    exact congrFun List.filterMap_eq_filter fs
  rw [asked, ← reads_toServer h hx, List.filterMap_append, hfilter]
  exact List.sublist_append_left _ _

/-! ## The match -/

theorem HandedFor.acknowledged {c : ConnectionId} {t : Link} {e : Handed} {y : Peer} {p : Session}
    {q : Request} (h : HandedFor c t e y p) (he : e.msg.command = "RECEIPT".toList) (hq : q.ReadAs e.cause)
    (hid : Decimal.InRange q.receiptId) : ∃ m, messagesOf e.msg = [m] ∧ q.Acknowledged m := by
  obtain ⟨-, r, hmsg, hr, -⟩ := h.arrives.receipt_of he
  obtain rfl : Decimal.valueOf q.receiptId = r := Option.some.inj (hq.receipt.symm.trans hr)
  have hline : StompFrame.Line (Decimal.valueOf q.receiptId) := by
    obtain ⟨-, hnl, h0⟩ := headerText_to_string q.receiptId
    rw [to_string, Framing.nl_mem_encode] at hnl
    rw [to_string, Framing.zero_mem_encode] at h0
    exact ⟨hnl, h0⟩
  obtain ⟨m, hm, hc, hlookup⟩ := messagesOf_receiptFrame_id hline
  refine ⟨m, hmsg ▸ hm, hc, ?_⟩
  rw [StompProtocol.Parsed.receiptId, hlookup, Option.bind_some]
  exact stoi_to_string hid

/-- The RECEIPTs of a client are for requests that it made, in their order: those that it handled
for `done`, those that are on their way for `waiting`. -/
structure Matched (trace : List (Link × LinkEvent)) (c : ConnectionId) (x : Peer)
    (done waiting : List Request) : Prop where
  made : (done ++ waiting) <+ trace.filterMap (requests c)
  /-- The server handed out each RECEIPT when it read the frame of the request. -/
  caused : List.Forall₂ (fun q e => e.sender = c ∧ outcome q.frame.text = .frame e.cause)
    (done ++ waiting) (handsOf "RECEIPT" c trace)
  messages : (handsOf "RECEIPT" c trace).flatMap (fun e => messagesOf e.msg) =
    handlesOf "RECEIPT" c trace ++ x.inFlightOf "RECEIPT"
  handled : List.Forall₂ Request.Acknowledged done (handlesOf "RECEIPT" c trace)
  inFlight : List.Forall₂ Request.Acknowledged waiting (x.inFlightOf "RECEIPT")
  distinct : ((done ++ waiting).map (·.receiptId)).Nodup
  known : ∀ q ∈ waiting, x.protocol.receiptMap.lookup q.receiptId = some q.requestType

theorem Kept.inRange {n : Nat} {qs : List Request} {ms : List Framing.ClientFrame}
    {hs : List StompProtocol.Parsed} {x : Peer} (h : Kept n qs ms hs x) (hn : n < 2 ^ 31) {q : Request}
    (hq : q ∈ qs) : Decimal.InRange q.receiptId := by
  have := h.bound q hq
  exact ⟨by omega, by omega⟩

theorem matched_run {trace : List (Link × LinkEvent)} {s : Link} {c : ConnectionId} {x : Peer}
    (h : runs.Run trace s) (hplain : Plain c trace) (hcount : trace.countP (draws c) < 2 ^ 31)
    (hx : s.peers.lookup c = some x) : ∃ done waiting, Matched trace c x done waiting := by
  have hkept : Kept _ _ _ _ x := keeps_run h hplain hcount hx
  have hcauses := (causes_run h c).trans (reads_asked h hx)
  obtain ⟨qs, hmade, hread⟩ := forall₂_sublist_right hkept.asked hcauses
  rw [List.forall₂_map_right_iff] at hread
  have hack := forall₂_flatMap_right hread (S := Request.Acknowledged)
    (f := fun e => messagesOf e.msg) fun q hq e he hqe => by
      obtain ⟨hreceipt, pre, t, post, y, p, -, -, hfor⟩ := mem_handsOf h he
      exact hfor.acknowledged hreceipt hqe (hkept.inRange hcount (hmade.subset hq))
  have hmessages := messages_of h hx (show "RECEIPT".toList ≠ "ERROR".toList by decide) (by decide)
  rw [hmessages] at hack
  obtain ⟨done, waiting, rfl, hdone, hwaiting⟩ := forall₂_append_right hack
  have hdistinct : ((done ++ waiting).map (·.receiptId)).Nodup :=
    (hmade.map _).nodup hkept.distinct
  refine ⟨done, waiting, hmade, ?_, hmessages, hdone, hwaiting, hdistinct, fun q hq => ?_⟩
  · refine forall₂_imp_mem hread fun q _ e he hqe => ?_
    obtain ⟨hreceipt, pre, t, post, y, p, -, -, hfor⟩ := mem_handsOf h he
    exact ⟨(hfor.arrives.receipt_of hreceipt).1, hqe.outcome_eq⟩
  · rcases hkept.stored q (hmade.subset (List.mem_append_right _ hq)) with hstored | ⟨m, hm, hc, hid⟩
    · exact hstored
    · have hm : m ∈ handlesOf "RECEIPT" c trace := List.mem_filter.mpr ⟨hm, decide_eq_true hc⟩
      obtain ⟨q', hq', -, hid'⟩ := forall₂_mem_right hdone hm
      rw [List.map_append, List.nodup_append] at hdistinct
      refine absurd ?_ (hdistinct.2.2 _ (List.mem_map_of_mem hq') _ (List.mem_map_of_mem hq))
      exact Option.some.inj (hid'.symm.trans hid)

/-! ## The logout -/

/-- A step in which the server carries out a DISCONNECT of a client. -/
def Leaves (c : ConnectionId) (e : Link × LinkEvent) : Prop :=
  ∃ f p, reads c e = some f ∧ e.1.server.sessions.lookup c = some p ∧ Server.Disconnects p f

theorem unsubscribed_step {s s' : Link} {e : LinkEvent} {c : ConnectionId} (h : s.next e = some s')
    (hr : reads c (s, e) = none) (hfree : ∀ t, s.server.connections.subscription t c = none) :
    ∀ t, s'.server.connections.subscription t c = none := by
  cases next_step h with
  | login _ _ => exact hfree
  | @frame d x b rest f hx hb hf =>
    have hd : c ≠ d := by
      rintro rfl
      rw [reads_deliver hx] at hr
      simp [Peer.completed, hb, hf] at hr
    exact fun t => ((process_other s.server f hd).1.subscribed t).trans (hfree t)
  | disconnect d =>
    intro t
    rw [Server.connections_setConnections, ConnectionsImpl.subscription_disconnect]
    simp [hfree t]
  | command _ _ | byte _ _ _ | receive _ _ _ | lost _ _ => exact hfree

theorem process_disconnects {s : Server} {c : ConnectionId} {p : Session} {f : StompFrame}
    (hp : s.sessions.lookup c = some p) (hd : Server.Disconnects p f) (t : Text) :
    (s.process c f).1.connections.subscription t c = none := by
  obtain rfl := s.ids c p hp
  have hcommand := hd.command
  have ho := Server.process_outcome s p f
  rw [← Server.process_of_session f hp] at ho
  generalize s.process p.connectionId f = r at ho
  cases ho with
  | refused _ hno => exact absurd (.disconnect hd) hno
  | connect h => exact absurd (hcommand.symm.trans h.command) (by decide)
  | subscribe h => exact absurd (hcommand.symm.trans h.command) (by decide)
  | unsubscribe h => exact absurd (hcommand.symm.trans h.command) (by decide)
  | send h => exact absurd (hcommand.symm.trans h.command) (by decide)
  | disconnect _ => exact (ConnectionsImpl.noTrace_disconnect _ _).unsubscribed t

theorem deliver_completed {s s' : Link} {c : ConnectionId} {y : Peer} {f : StompFrame}
    (hf : y.completed = some f) (h : s.deliver c y = some s') :
    s'.server = (s.server.process c f).1 := by
  unfold deliver at h
  split at h
  · cases h
  next b rest hb =>
  rw [Peer.completed, hb] at hf
  dsimp only at h hf
  split at hf
  · next g hg =>
    cases hf
    rw [hg] at h
    cases h
    rfl
  · cases hf

theorem Leaves.unsubscribed {s s' : Link} {e : LinkEvent} {c : ConnectionId} (h : Leaves c (s, e))
    (hs : s.next e = some s') : ∀ t, s'.server.connections.subscription t c = none := by
  obtain ⟨f, p, hr, hp, hd⟩ := h
  cases e with
  | deliver d =>
    simp only [reads, Option.ite_none_right_eq_some] at hr
    obtain ⟨rfl, hr⟩ := hr
    obtain ⟨y, hy, hf⟩ := Option.bind_eq_some_iff.mp hr
    obtain ⟨z, hz, hs⟩ := Option.bind_eq_some_iff.mp hs
    cases hy.symm.trans hz
    rw [deliver_completed hf hs]
    exact process_disconnects hp hd
  | login _ _ | command _ _ | receive _ | lose _ | disconnect _ => cases hr

theorem last_read {trace pre post : List (Link × LinkEvent)} {s t : Link} {c : ConnectionId} {x : Peer}
    {n : Nat} {qs : List Request} {ms : List Framing.ClientFrame} {hs : List StompProtocol.Parsed}
    {q : Request} {f : StompFrame} (h : runs.Run trace s) (hx : s.peers.lookup c = some x)
    (hkept : Kept n (qs ++ [q]) (ms ++ [q.frame]) hs x) (hn : n < 2 ^ 31)
    (hw : trace.flatMap (writes c) = ms ++ [q.frame]) (hq : q.ReadAs f)
    (htrace : trace = pre ++ (t, .deliver c) :: post) (hr : reads c (t, .deliver c) = some f) :
    ∀ e ∈ post, reads c e = none := by
  -- The frame of the last request is the last frame that the server can read.
  have hlast : (ms ++ [q.frame]).flatMap (fun m => (pieces 0 m.wire).map outcome) =
      ms.flatMap (fun m => (pieces 0 m.wire).map outcome) ++ [.frame f] := by
    rw [List.flatMap_append, List.flatMap_singleton, Framing.ClientFrame.wire_eq,
      pieces_cons _ _ _ hq.text, pieces_nil, List.map_singleton, hq.outcome_eq]
  have hasked : asked (ms ++ [q.frame]) = asked ms ++ [f] := by
    rw [asked_append, asked_request hq]
  -- No earlier frame asks for the same receipt.
  have hfirst : f ∉ asked ms := by
    intro hmem
    have hread := hkept.asked
    rw [hasked] at hread
    obtain ⟨qs', ys, heq, hqs, hys⟩ := forall₂_append_right hread
    cases hys with
    | cons _ hnil =>
      cases hnil
      obtain ⟨rfl, hy⟩ := List.append_inj' heq rfl
      obtain ⟨q', hq', hf'⟩ := forall₂_mem_right hqs hmem
      have hid : q'.receiptId = q.receiptId := by
        refine Decimal.valueOf_injective (hkept.inRange hn (List.mem_append_left _ hq'))
          (hkept.inRange hn (List.mem_append_right _ (List.mem_singleton_self _))) ?_
        exact Option.some.inj (hf'.receipt.symm.trans hq.receipt)
      have hdistinct := hkept.distinct
      rw [List.map_append, List.nodup_append] at hdistinct
      exact hdistinct.2.2 _ (List.mem_map_of_mem hq') _
        (List.mem_map_of_mem (List.mem_singleton_self q)) hid
  have hreads := reads_toServer h hx
  rw [hw, hlast, htrace, List.filterMap_append, List.filterMap_cons_some hr, List.map_append,
    List.map_cons, List.append_assoc, List.cons_append] at hreads
  rcases List.eq_nil_or_concat ((post.filterMap (reads c)).map Decoded.frame ++
    (pieces 0 (x.encdec.pending ++ x.toServer)).map outcome) with hnil | ⟨ds, d, hds⟩
  · rw [List.append_eq_nil_iff, List.map_eq_nil_iff, List.filterMap_eq_nil_iff] at hnil
    exact hnil.1
  · rw [hds, List.concat_eq_append, ← List.cons_append, ← List.append_assoc] at hreads
    obtain ⟨hms, -⟩ := List.append_inj' hreads rfl
    refine absurd ?_ hfirst
    rw [asked, ← hms, List.mem_filterMap]
    exact ⟨.frame f, List.mem_append_right _ List.mem_cons_self, by simp [asksReceipt, hq.receipt]⟩

theorem logout_left {trace : List (Link × LinkEvent)} {s : Link} {c : ConnectionId} {x : Peer}
    {done waiting : List Request} {q : Request} (h : runs.Run trace s) (hplain : Plain c trace)
    (hcount : trace.countP (draws c) < 2 ^ 31) (hx : s.peers.lookup c = some x)
    (hm : Matched trace c x done waiting) (hq : q ∈ waiting) (hlogout : q.requestType = ascii "Logout") :
    (∃ e ∈ trace, Leaves c e) ∧ ∀ t, s.server.connections.subscription t c = none := by
  -- A client waits for the receipt of its logout only when the server has carried the logout out.
  have hkept : Kept _ _ _ _ x := keeps_run h hplain hcount hx
  have hmem : q ∈ done ++ waiting := List.mem_append_right _ hq
  have hrequest := hm.made.subset hmem
  rcases hkept.logout with ⟨-, hopen⟩ | ⟨-, ms, qs, q', hms, hqs, hopen⟩
  · exact absurd hlogout (hopen q hrequest)
  obtain rfl : q = q' := by
    rw [hqs] at hrequest
    rcases List.mem_append.mp hrequest with hq' | hq'
    · exact absurd hlogout (hopen q hq')
    · exact List.mem_singleton.mp hq'
  obtain ⟨e, he, rfl, hcause⟩ := forall₂_mem_left hm.caused hmem
  obtain ⟨hreceipt, pre, t, post, y, p, htrace, hpre, hfor⟩ := mem_handsOf h he
  obtain ⟨-, r, -, -, haccepts⟩ := hfor.arrives.receipt_of hreceipt
  obtain ⟨f, -, hread⟩ := forall₂_mem_left hkept.asked hrequest
  cases hread.outcome_eq.symm.trans hcause
  have hleaves : Leaves e.sender (t, .deliver e.sender) :=
    ⟨e.cause, p, hfor.reads, hfor.session, haccepts.by_command.2.2.2.2 (hread.logout hlogout)⟩
  refine ⟨⟨_, htrace ▸ List.mem_append_right _ List.mem_cons_self, hleaves⟩, ?_⟩
  rw [hms, hqs] at hkept
  have hpost := last_read h hx hkept hcount hms hread htrace hfor.reads
  exact h.after (fun s => ∀ t, s.server.connections.subscription t e.sender = none) htrace
    (fun s' hs' => hleaves.unsubscribed hs')
    (fun x hx s' hfree hs' => unsubscribed_step hs' (hpost x hx) hfree)

/-- Every RECEIPT on its way to a client is for a request that the client still stores, and the
RECEIPT of a logout comes after the server has forgotten the client's subscriptions. -/
theorem receipts_match {trace : List (Link × LinkEvent)} {s : Link} {c : ConnectionId} {x : Peer}
    (h : runs.Run trace s) (hplain : Plain c trace) (hcount : trace.countP (draws c) < 2 ^ 31)
    (hx : s.peers.lookup c = some x) :
    (∃ done waiting, Matched trace c x done waiting) ∧
      ∀ m, x.incoming = some m → m.command = ascii "RECEIPT" →
        (∃ id text, m.receiptId = some id ∧ x.protocol.receiptMap.lookup id = some text) ∧
          ∀ p, x.protocol.handleReceipt m.headers = some p → p.stopCommunication = true →
            (∃ e ∈ trace, Leaves c e) ∧ ∀ t, s.server.connections.subscription t c = none := by
  obtain ⟨done, waiting, hm⟩ := matched_run h hplain hcount hx
  refine ⟨⟨done, waiting, hm⟩, fun m hincoming hc => ?_⟩
  obtain ⟨hstop, ms, hms⟩ := incoming_eq hincoming
  have hflight : m ∈ x.inFlightOf "RECEIPT" :=
    List.mem_filter.mpr ⟨hms ▸ List.mem_cons_self, decide_eq_true hc⟩
  obtain ⟨q, hq, -, hid⟩ := forall₂_mem_right hm.inFlight hflight
  have hknown := hm.known q hq
  refine ⟨⟨q.receiptId, q.requestType, hid, hknown⟩, fun p hp hstops => ?_⟩
  refine logout_left h hplain hcount hx hm hq ?_
  cases StompProtocol.handleReceipt_handles hc hp with
  | unknown _ hnone =>
    rw [hnone _ hid] at hknown
    cases hknown
  | connected hc' => exact absurd (hc'.symm.trans hc) (by decide)
  | message hc' _ _ => exact absurd (hc'.symm.trans hc) (by decide)
  | error hc' => exact absurd (hc'.symm.trans hc) (by decide)
  | other hc' => exact absurd hc hc'.2.2.2
  | @receipt id requestType _ hid' ht =>
    cases hid.symm.trans hid'
    cases hknown.symm.trans ht
    by_contra hne
    dsimp only at hstops
    rw [if_neg hne, hstop] at hstops
    cases hstops

/-! ## Two runs -/

theorem nl_not_mem_u : nl ∉ ascii "u" := by decide

theorem nl_not_mem_p : nl ∉ ascii "p" := by decide

/-- A client logs in and out, and the server reads everything. -/
def logoutRun : List LinkEvent :=
  .login (word "u" nl_not_mem_u) (word "p" nl_not_mem_p) :: List.replicate 72 (.deliver 1) ++
    .receive 1 :: .command 1 .logout :: List.replicate 23 (.deliver 1)

/-- An event whose description holds a NUL, and after it a DISCONNECT frame. -/
def leavingEvent : Event := ⟨[], [], [], 0, ascii "\x00DISCONNECT\nreceipt:7\n\n", ∅, []⟩

/-- The client reports the event, and the server reads everything. -/
def leavingRun : List LinkEvent :=
  joinRun ++ .command 1 (.report (ascii "t") [leavingEvent]) :: List.replicate 157 (.deliver 1)

theorem mem_logoutRun {command : Command} (h : .command 1 command ∈ logoutRun) : command = .logout := by
  simp only [logoutRun, List.mem_append, List.mem_cons, List.mem_replicate] at h
  rcases h with (h | ⟨-, h⟩) | h | h | ⟨-, h⟩ <;> cases h
  rfl

theorem mem_leavingRun {command : Command} (h : .command 1 command ∈ leavingRun) :
    command = .join (ascii "t") ∨ command = .report (ascii "t") [leavingEvent] := by
  simp only [leavingRun, List.mem_append, List.mem_cons, List.mem_replicate] at h
  rcases h with h | h | ⟨-, h⟩
  · exact .inl (mem_joinRun h)
  · cases h
    exact .inr rfl
  · cases h

theorem exists_drawing_run (ls : List LinkEvent) (q : Peer → Bool)
    (h : (runs.exec ls).any (fun r => decide (r.1.countP (draws 1) < 2 ^ 31) &&
      (r.2.peers.lookup 1).any q) = true) :
    ∃ trace s x, runs.Run trace s ∧ trace.map (·.2) = ls ∧ trace.countP (draws 1) < 2 ^ 31 ∧
      s.peers.lookup 1 = some x ∧ q x = true := by
  obtain ⟨trace, s, hr, hl, hs⟩ := System.exists_run_labels ls (fun trace s =>
    decide (trace.countP (draws 1) < 2 ^ 31) && (s.peers.lookup 1).any q) h
  simp only [Bool.and_eq_true, decide_eq_true_eq, Option.any_eq_true] at hs
  obtain ⟨hcount, x, hx, hq⟩ := hs
  exact ⟨trace, s, x, hr, hl, hcount, hx, hq⟩

/-- The RECEIPT of the logout is still on its way. -/
theorem receipts_match_logout : ∃ trace s x m, runs.Run trace s ∧ s.peers.lookup 1 = some x ∧
    x.incoming = some m ∧ m.command = ascii "RECEIPT" ∧
    (∃ done waiting, Matched trace 1 x done waiting) ∧
    (∃ id text, m.receiptId = some id ∧ x.protocol.receiptMap.lookup id = some text) ∧
    (∃ e ∈ trace, Leaves 1 e) ∧ ∀ t, s.server.connections.subscription t 1 = none := by
  obtain ⟨trace, s, x, hr, hl, hcount, hx, hq⟩ := exists_drawing_run logoutRun (fun x =>
    x.incoming.any fun m : StompProtocol.Parsed => decide (m.command = ascii "RECEIPT") &&
      (x.protocol.handleReceipt m.headers).any fun p : StompProtocol => p.stopCommunication)
    (by decide +kernel)
  simp only [Bool.and_eq_true, decide_eq_true_eq, Option.any_eq_true] at hq
  obtain ⟨m, hm, hc, p, hp, hstop⟩ := hq
  have hplain : Plain 1 trace := by
    intro e he command heq
    have hmem : .command 1 command ∈ logoutRun := hl ▸ heq ▸ List.mem_map_of_mem he
    rw [mem_logoutRun hmem]
    exact ⟨trivial, trivial⟩
  obtain ⟨hmatched, hmatch⟩ := receipts_match hr hplain hcount hx
  obtain ⟨hknown, hleft⟩ := hmatch m hm hc
  exact ⟨trace, s, x, m, hr, hx, hm, hc, hmatched, hknown, hleft p hp hstop⟩

/-- The server takes what follows the NUL for a DISCONNECT, and its RECEIPT is for no request. -/
theorem receipt_unknown : ∃ trace s x, runs.Run trace s ∧
    (∀ e ∈ trace, ∀ command, e.2 = .command 1 command → command.ChannelsPlain) ∧
    trace.countP (draws 1) < 2 ^ 31 ∧ s.peers.lookup 1 = some x ∧
    ∃ m ∈ x.inFlight, m.command = ascii "RECEIPT" ∧
      ∀ id, m.receiptId = some id → x.protocol.receiptMap.lookup id = none := by
  obtain ⟨trace, s, x, hr, hl, hcount, hx, hq⟩ := exists_drawing_run leavingRun (fun x =>
    x.inFlight.any fun m : StompProtocol.Parsed => decide (m.command = ascii "RECEIPT") &&
      m.receiptId.all fun id => decide (x.protocol.receiptMap.lookup id = none)) (by decide +kernel)
  simp only [Bool.and_eq_true, decide_eq_true_eq, List.any_eq_true, Option.all_eq_true] at hq
  obtain ⟨m, hm, hc, hid⟩ := hq
  refine ⟨trace, s, x, hr, fun e he command heq => ?_, hcount, hx, m, hm, hc, hid⟩
  have hplain : nl ∉ ascii "t" ∧ 0 ∉ ascii "t" := by decide
  have hmem : .command 1 command ∈ leavingRun := hl ▸ heq ▸ List.mem_map_of_mem he
  rcases mem_leavingRun hmem with rfl | rfl <;> exact hplain

end Link

end Stomp
