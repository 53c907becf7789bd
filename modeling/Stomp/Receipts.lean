import Stomp.ServerRun

/-!
# Receipts

Every handler but `handleSend` answers a frame that it accepts with the receipt that the frame asks
for, and every ERROR carries it.
-/

namespace Stomp

open StompMessagingProtocolImpl

def receiptIdKey : Text := "receipt-id".toList

namespace Server

/-- The frames that reach a connection with a receipt id. -/
def withReceipt (c : ConnectionId) (r : Text) (out : List Sent) : List Sent :=
  out.filter fun x => x.connectionId = c ∧ x.delivered = true ∧ x.msg.getHeader receiptIdKey = some r

/-- A frame that asks for a receipt gets one frame with it, a RECEIPT or an ERROR. Another frame
gets no RECEIPT. -/
structure ReceiptLaw (s : Server) (c : ConnectionId) (f : StompFrame) : Prop where
  acknowledged : ∀ r, f.getHeader receiptKey = some r → ∃ msg,
    withReceipt c r (outputs (s, .frame c f)) = [⟨c, msg, true⟩] ∧
      msg.command = if s.accepted c f = true then "RECEIPT".toList else "ERROR".toList
  unasked : f.getHeader receiptKey = none →
    ∀ x ∈ outputs (s, .frame c f), x.msg.command ≠ "RECEIPT".toList

/-! ## The frames of the server -/

theorem getHeader_receiptFrame (r : Text) : (receiptFrame r).getHeader receiptIdKey = some r := rfl

theorem getHeader_connectedFrame : connectedFrame.getHeader receiptIdKey = none := by decide

theorem getHeader_errorFrame (reason r : Text) (f : StompFrame) :
    (errorFrame reason (some r) f).getHeader receiptIdKey = some r := AList.lookup_insert _

theorem getHeader_messageFrame (topic : Text) (i m : Int) (body : Text) :
    (messageFrame topic i m body).getHeader receiptIdKey = none := rfl

theorem withReceipt_cons_none (s : Server) (c : ConnectionId) (r : Text) {msg : StompFrame}
    (h : msg.getHeader receiptIdKey = none) (out : List Sent) :
    withReceipt c r (s.sent c msg :: out) = withReceipt c r out :=
  List.filter_cons_of_neg (by simp [sent, h])

theorem withReceipt_sent {s : Server} {c : ConnectionId} {r : Text} {msg : StompFrame}
    (hreg : c ∈ s.connections.activeConnections) (h : msg.getHeader receiptIdKey = some r) :
    withReceipt c r [s.sent c msg] = [⟨c, msg, true⟩] := by
  simp [withReceipt, sent, ConnectionsImpl.isRegistered, hreg, h]

theorem receipts_some {s : Server} {c : ConnectionId} {f : StompFrame} {r : Text}
    (hr : f.getHeader receiptKey = some r) : s.receipts c f = [s.sent c (receiptFrame r)] := by
  simp [receipts, hr]

theorem receipts_none {s : Server} {c : ConnectionId} {f : StompFrame}
    (hr : f.getHeader receiptKey = none) : s.receipts c f = [] := by
  simp [receipts, hr]

theorem withReceipt_messages (s : Server) (c : ConnectionId) (r topic : Text) (m : Int)
    (body : Text) : withReceipt c r (s.messages topic m body) = [] := by
  rw [withReceipt, List.filter_eq_nil_iff]
  intro x hx
  obtain ⟨e, -, rfl⟩ := List.mem_map.mp hx
  simp [sent, getHeader_messageFrame]

/-! ## The law -/

theorem Outcome.acknowledged {s : Server} {p : Session} {f : StompFrame} {r : Server × List Sent}
    {id : Text} (h : Outcome s p f r) (hreg : p.connectionId ∈ s.connections.activeConnections)
    (hid : f.getHeader receiptKey = some id) :
    (∃ topic, Sends p f topic) ∧ withReceipt p.connectionId id r.2 = [] ∨
    (∀ topic, ¬ Sends p f topic) ∧ ∃ msg, withReceipt p.connectionId id r.2 =
      [⟨p.connectionId, msg, true⟩] ∧ (Accepts s.connections p f → msg.command = "RECEIPT".toList) ∧
      (¬ Accepts s.connections p f → msg.command = "ERROR".toList) := by
  have hquiet : f.command ≠ "SEND".toList → ∀ topic, ¬ Sends p f topic :=
    fun hne topic hs => hne hs.command
  have hreceipt : withReceipt p.connectionId id (s.receipts p.connectionId f) =
      [⟨p.connectionId, receiptFrame id, true⟩] := by
    rw [receipts_some hid]
    exact withReceipt_sent hreg (getHeader_receiptFrame id)
  have haccepted : f.command ≠ "SEND".toList → Accepts s.connections p f → ∀ out,
      withReceipt p.connectionId id out = [⟨p.connectionId, receiptFrame id, true⟩] →
      (∀ topic, ¬ Sends p f topic) ∧ ∃ msg, withReceipt p.connectionId id out =
        [⟨p.connectionId, msg, true⟩] ∧
        (Accepts s.connections p f → msg.command = "RECEIPT".toList) ∧
        (¬ Accepts s.connections p f → msg.command = "ERROR".toList) :=
    fun hne ha out hout => ⟨hquiet hne, _, hout, fun _ => rfl, fun hno => absurd ha hno⟩
  cases h with
  | refused reason hno =>
    refine .inr ⟨fun topic hs => hno (.send hs), errorFrame reason (some id) f, ?_,
      fun ha => absurd ha hno, fun _ => rfl⟩
    rw [hid]
    exact withReceipt_sent hreg (getHeader_errorFrame reason id f)
  | connect hc =>
    refine .inr (haccepted (by rw [hc.command]; decide) (.connect hc) _ ?_)
    exact (withReceipt_cons_none s _ id getHeader_connectedFrame _).trans hreceipt
  | subscribe hc => exact .inr (haccepted (by rw [hc.command]; decide) (.subscribe hc) _ hreceipt)
  | unsubscribe hc => exact .inr (haccepted (by rw [hc.command]; decide) (.unsubscribe hc) _ hreceipt)
  | disconnect hc => exact .inr (haccepted (by rw [hc.command]; decide) (.disconnect hc) _ hreceipt)
  | @send topic hs => exact .inl ⟨⟨topic, hs⟩, withReceipt_messages s _ id topic _ f.body⟩

theorem Outcome.unasked {s : Server} {p : Session} {f : StompFrame} {r : Server × List Sent}
    (h : Outcome s p f r) (hid : f.getHeader receiptKey = none) :
    ∀ x ∈ r.2, x.msg.command ≠ "RECEIPT".toList := by
  have hreceipts : s.receipts p.connectionId f = [] := receipts_none hid
  cases h with
  | refused reason hno =>
    intro x hx
    rw [List.mem_singleton.mp hx]
    show "ERROR".toList ≠ _
    decide
  | connect hc =>
    rw [hreceipts]
    intro x hx
    rw [List.mem_singleton.mp hx]
    show "CONNECTED".toList ≠ _
    decide
  | subscribe hc | unsubscribe hc | disconnect hc =>
    rw [hreceipts]
    intro x hx
    cases hx
  | send hs =>
    intro x hx
    rw [messages_command hx]
    decide

/-- In any state, a frame of a registered connection is acknowledged as it asks for, unless it is a
SEND that asks for a receipt and is carried out. -/
theorem receipt_law_iff {s s' : Server} {c : ConnectionId} {f : StompFrame}
    (hs : s.next (.frame c f) = some s') (hreg : c ∈ s.connections.activeConnections) :
    s.ReceiptLaw c f ↔ ¬ ((f.getHeader receiptKey).isSome = true ∧
      ∃ p topic, s.sessions.lookup c = some p ∧ Sends p f topic) := by
  obtain ⟨heq, -⟩ | ⟨c', f', p, out, heq, hp, rfl, hpr, ho⟩ | ⟨c', heq, -⟩ := next_cases hs <;>
    cases heq
  have hout : outputs (s, .frame p.connectionId f) = out := congrArg Prod.snd hpr
  have hacc := accepted_iff (f := f) hp
  constructor
  · rintro hlaw ⟨hsome, q, topic, hq, hsend⟩
    cases hp.symm.trans hq
    obtain ⟨id, hid⟩ := Option.isSome_iff_exists.mp hsome
    obtain ⟨msg, hmsg, -⟩ := hlaw.acknowledged id hid
    rw [hout] at hmsg
    obtain ⟨-, hnone⟩ | ⟨hno, -⟩ := ho.acknowledged hreg hid
    · rw [hnone] at hmsg
      cases hmsg
    · exact hno topic hsend
  · intro hno
    refine ⟨fun id hid => ?_, fun hid => ?_⟩
    · rw [hout]
      obtain ⟨⟨topic, hsend⟩, -⟩ | ⟨-, msg, hmsg, hreceipt, herror⟩ := ho.acknowledged hreg hid
      · exact absurd ⟨by rw [hid]; rfl, p, topic, hp, hsend⟩ hno
      · refine ⟨msg, hmsg, ?_⟩
        split
        · next ha => exact hreceipt (hacc.mp ha)
        · next ha => exact herror fun h => ha (hacc.mpr h)
    · rw [hout]
      exact ho.unasked hid

/-- A client logs in and subscribes to a topic. -/
def subscribed : List ServerEvent :=
  [.accept, .frame 1 (connectFrame "u" "p"), .frame 1 (subscribeFrame "t" "5")]

def unsubscribeWithReceipt : StompFrame :=
  .ofStrings "UNSUBSCRIBE" [("id", "5"), ("receipt", "7")] ""

def sendWithReceipt : StompFrame :=
  .ofStrings "SEND" [("destination", "t"), ("receipt", "7")] "x"

theorem exists_subscribed : ∃ trace s, runs.Run trace s ∧
    (∀ f, s.next (.frame 1 f) = some (s.process 1 f).1) ∧ 1 ∈ s.connections.activeConnections ∧
    ∃ p : Session, s.sessions.lookup 1 = some p ∧ p.connected = true ∧
      p.clientSubscriptions.containsValue "t".toList = true := by
  obtain ⟨trace, s, hr, hs⟩ := System.exists_run (M := runs) subscribed
    (fun _ s => decide (1 ∈ s.connections.activeConnections) &&
      (s.sessions.lookup 1).any fun p : Session => p.connected &&
        p.clientSubscriptions.containsValue "t".toList) (by decide)
  simp only [Bool.and_eq_true, decide_eq_true_eq, Option.any_eq_true] at hs
  obtain ⟨hreg, p, hp, hcon, hsub⟩ := hs
  exact ⟨trace, s, hr, fun f => by simp [next, hp], hreg, p, hp, hcon, hsub⟩

theorem receipt_law_unsubscribe : ∃ trace s, runs.Run trace s ∧
    s.ReceiptLaw 1 unsubscribeWithReceipt := by
  obtain ⟨trace, s, hr, hs, hreg, -⟩ := exists_subscribed
  refine ⟨trace, s, hr, (receipt_law_iff (hs unsubscribeWithReceipt) hreg).mpr ?_⟩
  rintro ⟨-, p, topic, -, hsend⟩
  exact absurd hsend.command (by decide)

/-- A SEND that is carried out gets no receipt. -/
theorem send_not_acknowledged : ∃ trace s, runs.Run trace s ∧
    1 ∈ s.connections.activeConnections ∧ (s.next (.frame 1 sendWithReceipt)).isSome = true ∧
    ¬ s.ReceiptLaw 1 sendWithReceipt := by
  obtain ⟨trace, s, hr, hs, hreg, p, hp, hcon, hsub⟩ := exists_subscribed
  refine ⟨trace, s, hr, hreg, by rw [hs]; rfl, fun hlaw => ?_⟩
  obtain ⟨msg, hmsg, -⟩ := hlaw.acknowledged "7".toList rfl
  have hsend : Sends p sendWithReceipt "t".toList := ⟨rfl, hcon, rfl, hsub⟩
  have ho := process_outcome s p sendWithReceipt
  have hid := s.ids 1 p hp
  rw [outputs, process_of_session _ hp, ← hid] at hmsg
  have hreceipt : sendWithReceipt.getHeader receiptKey = some "7".toList := rfl
  obtain ⟨-, hnone⟩ | ⟨hno, -⟩ := ho.acknowledged (hid.symm ▸ hreg) hreceipt
  · rw [hnone] at hmsg
    cases hmsg
  · exact hno _ hsend

end Server

end Stomp
