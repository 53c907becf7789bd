import Stomp.ServerRun

/-!
# Sessions do not disturb each other

A frame leaves the session and the table entries of every other connection as they are. All that
another connection gets of it is one MESSAGE, when it is subscribed to the topic of a SEND.
-/

namespace Stomp

open StompMessagingProtocolImpl

namespace Server

theorem sentTo_receipts (s : Server) {c d : ConnectionId} (hd : d ≠ c) (f : StompFrame) :
    sentTo d (s.receipts c f) = [] := by
  rw [sentTo, List.filter_eq_nil_iff]
  intro x hx
  obtain ⟨r, -, rfl⟩ := List.mem_map.mp hx
  simp [sent, Ne.symm hd]

theorem sentTo_cons_other (s : Server) {c d : ConnectionId} (hd : d ≠ c) (msg : StompFrame)
    (out : List Sent) : sentTo d (s.sent c msg :: out) = sentTo d out :=
  List.filter_cons_of_neg (by simp [sent, Ne.symm hd])

theorem Outcome.sentTo_other {s : Server} {p : Session} {f : StompFrame} {r : Server × List Sent}
    (h : Outcome s p f r) {d : ConnectionId} (hd : d ≠ p.connectionId) :
    (∃ topic, Sends p f topic ∧ sentTo d r.2 = (s.connections.subscription topic d).toList.map fun i =>
        s.sent d (messageFrame topic i s.connections.getNextMessageId.1 f.body)) ∨
    ((∀ topic, ¬ Sends p f topic) ∧ sentTo d r.2 = []) := by
  have hquiet : f.command ≠ "SEND".toList → ∀ topic, ¬ Sends p f topic :=
    fun hne topic hs => hne hs.command
  cases h with
  | refused reason hno =>
    exact .inr ⟨fun topic hs => hno (.send hs), sentTo_cons_other s hd _ []⟩
  | connect hc =>
    refine .inr ⟨hquiet (by rw [hc.command]; decide), ?_⟩
    exact (sentTo_cons_other s hd _ _).trans (sentTo_receipts s hd f)
  | subscribe hc => exact .inr ⟨hquiet (by rw [hc.command]; decide), sentTo_receipts s hd f⟩
  | unsubscribe hc => exact .inr ⟨hquiet (by rw [hc.command]; decide), sentTo_receipts s hd f⟩
  | disconnect hc => exact .inr ⟨hquiet (by rw [hc.command]; decide), sentTo_receipts s hd f⟩
  | @send topic hs => exact .inl ⟨topic, hs, sentTo_messages s d topic _ f.body⟩

/-- The SEND is carried out for the topic. -/
def AcceptedSend (s : Server) (c : ConnectionId) (f : StompFrame) (topic : Text) : Prop :=
  s.accepted c f = true ∧ f.command = "SEND".toList ∧ f.getHeader "destination".toList = some topic

theorem acceptedSend_iff {s : Server} {p : Session} {f : StompFrame}
    (hp : s.sessions.lookup p.connectionId = some p) (topic : Text) :
    s.AcceptedSend p.connectionId f topic ↔ Sends p f topic := by
  rw [AcceptedSend, accepted_iff hp]
  constructor
  · rintro ⟨ha, hcommand, hdest⟩
    obtain ⟨t, hs⟩ := ha.by_command.2.1 hcommand
    obtain rfl := Option.some.inj (hs.destination.symm.trans hdest)
    exact hs
  · exact fun hs => ⟨.send hs, hs.command, hs.destination⟩

/-- In any state, a frame of one connection leaves another as it was, and sends it nothing but the
one MESSAGE of an accepted SEND to a topic that it is subscribed to. -/
theorem sessions_apart {s s' : Server} {c d : ConnectionId} {f : StompFrame}
    (hs : s.next (.frame c f) = some s') (hd : d ≠ c) :
    Untouched d s s' ∧
    (∀ x ∈ outputs (s, .frame c f), x.connectionId = d → ∃ topic i, s.AcceptedSend c f topic ∧
      s.connections.subscription topic d = some i) ∧
    ∀ topic i, s.AcceptedSend c f topic → s.connections.subscription topic d = some i →
      ∃ messageId msg, msg.Has "MESSAGE" [("destination".toList, topic),
          ("subscription".toList, Decimal.valueOf i), ("message-id".toList, Decimal.valueOf messageId)]
          f.body ∧
        sentTo d (outputs (s, .frame c f)) = [⟨d, msg, s.connections.isRegistered d⟩] := by
  obtain ⟨heq, -⟩ | ⟨c', f', p, out, heq, hp, rfl, hpr, ho⟩ | ⟨c', heq, -⟩ := next_cases hs <;>
    cases heq
  have hout : outputs (s, .frame p.connectionId f) = out := congrArg Prod.snd hpr
  rw [hout]
  have hother := ho.sentTo_other hd
  refine ⟨ho.untouched hd, fun x hx hxd => ?_, fun topic i ha hi => ?_⟩
  · have hmem : x ∈ sentTo d out := List.mem_filter.mpr ⟨hx, decide_eq_true hxd⟩
    obtain ⟨topic, hsend, hto⟩ | ⟨-, hto⟩ := hother
    · rw [hto] at hmem
      obtain ⟨i, hi, -⟩ := List.mem_map.mp hmem
      exact ⟨topic, i, (acceptedSend_iff hp topic).mpr hsend, Option.mem_toList.mp hi⟩
    · rw [hto] at hmem
      cases hmem
  · have hsend := (acceptedSend_iff hp topic).mp ha
    obtain ⟨t, hsend', hto⟩ | ⟨hno, -⟩ := hother
    · obtain rfl := Option.some.inj (hsend'.destination.symm.trans hsend.destination)
      rw [hi] at hto
      exact ⟨_, _, messageFrame_has t i _ f.body, hto⟩
    · exact absurd hsend (hno topic)

/-- Two clients subscribe to a topic. -/
def bothSubscribed : List ServerEvent :=
  [.accept, .frame 1 (connectFrame "u" "p"), .frame 1 (subscribeFrame "t" "5"),
    .accept, .frame 2 (connectFrame "v" "p"), .frame 2 (subscribeFrame "t" "7")]

theorem sessions_apart_two : ∃ trace s s', runs.Run trace s ∧
    s.next (.frame 1 (.ofStrings "SEND" [("destination", "t")] "x")) = some s' ∧
    Untouched 2 s s' ∧ ∃ messageId msg, msg.Has "MESSAGE" [("destination".toList, "t".toList),
        ("subscription".toList, "7".toList), ("message-id".toList, Decimal.valueOf messageId)]
        "x".toList ∧
      sentTo 2 (outputs (s, .frame 1 (.ofStrings "SEND" [("destination", "t")] "x"))) =
        [⟨2, msg, true⟩] := by
  obtain ⟨trace, s, hr, hs⟩ := System.exists_run (M := runs) bothSubscribed
    (fun _ s => decide ((s.sessions.lookup 1).isSome = true ∧
      s.accepted 1 (.ofStrings "SEND" [("destination", "t")] "x") = true ∧
      s.connections.subscription "t".toList 2 = some 7 ∧ s.connections.isRegistered 2 = true))
    (by decide)
  simp only [decide_eq_true_eq] at hs
  obtain ⟨hsession, hacc, hsub, hreg⟩ := hs
  have hstep : s.next (.frame 1 (.ofStrings "SEND" [("destination", "t")] "x")) =
      some (s.process 1 (.ofStrings "SEND" [("destination", "t")] "x")).1 := if_pos hsession
  obtain ⟨hu, -, hone⟩ := sessions_apart hstep (d := 2) (by decide)
  obtain ⟨messageId, msg, hmsg, hto⟩ := hone "t".toList 7 ⟨hacc, rfl, rfl⟩ hsub
  rw [hreg] at hto
  exact ⟨trace, s, _, hr, hstep, hu, messageId, msg, hmsg, hto⟩

end Server

end Stomp
