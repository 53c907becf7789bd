import Stomp.Delivery
import Stomp.Subscriptions

/-!
# Ids and their numbers

The server reads the id of a subscription as a number, and writes the number into its messages. Two
ids are the same to it when they have the same number.
-/

namespace Stomp

open StompMessagingProtocolImpl

namespace Server

/-- A SUBSCRIBE of the connection that is not refused, with its id as it was written. -/
def Opens (c : ConnectionId) (topic id : Text) : Server × ServerEvent → Prop
  | (s, .frame d f) => d = c ∧ s.accepted d f = true ∧ f.command = "SUBSCRIBE".toList ∧
      f.getHeader "destination".toList = some topic ∧ f.getHeader "id".toList = some id
  | _ => False

instance (c : ConnectionId) (topic id : Text) : DecidablePred (Opens c topic id)
  | (s, .frame d f) => inferInstanceAs (Decidable (d = c ∧ s.accepted d f = true ∧
      f.command = "SUBSCRIBE".toList ∧ f.getHeader "destination".toList = some topic ∧
      f.getHeader "id".toList = some id))
  | (_, .accept) | (_, .disconnect _) => isFalse fun h => h

/-- The topic that the connection holds under an id. -/
def topicUnder (s : Server) (c : ConnectionId) (id : Text) : Option Text :=
  (s.sessions.lookup c).bind fun p => (Decimal.parseInt id).bind p.clientSubscriptions.lookup

/-- An UNSUBSCRIBE of the connection that is not refused. -/
def Closes (c : ConnectionId) (topic id : Text) : Server × ServerEvent → Prop
  | (s, .frame d f) => d = c ∧ s.accepted d f = true ∧ f.command = "UNSUBSCRIBE".toList ∧
      f.getHeader "id".toList = some id ∧ s.topicUnder c id = some topic
  | _ => False

/-- The connection stays, and the SUBSCRIBE or UNSUBSCRIBE that it may send has an id of another
number, for another topic. -/
structure Apart (c : ConnectionId) (topic id : Text) (e : Server × ServerEvent) : Prop where
  stays : ¬ leaves c e
  other : ∀ topic' id', Opens c topic' id' e ∨ Closes c topic' id' e →
    topic' ≠ topic ∧ Decimal.parseInt id' ≠ Decimal.parseInt id

/-- The subscription is in the table of its session and in that of its topic. -/
structure InTables (s : Server) (c : ConnectionId) (topic : Text) (i : Int) : Prop where
  own : (s.sessions.lookup c).bind (·.clientSubscriptions.lookup i) = some topic
  shared : s.connections.subscription topic c = some i

/-! ## What is accepted -/

section Accepted

variable {s : Server} {p : Session} {f : StompFrame} {topic id : Text}

theorem Opens.subscribes (h : Opens p.connectionId topic id (s, .frame p.connectionId f))
    (hp : s.sessions.lookup p.connectionId = some p) :
    ∃ i, Decimal.parseInt id = some i ∧ Subscribes p f topic i := by
  obtain ⟨-, hacc, hcommand, hdestination, hid⟩ := h
  obtain ⟨t, i, hs⟩ := ((accepted_iff hp).mp hacc).by_command.2.2.1 hcommand
  obtain rfl := Option.some.inj (hs.destination.symm.trans hdestination)
  have hparse := hs.id_eq
  rw [hid, Option.bind_some] at hparse
  exact ⟨i, hparse, hs⟩

theorem Subscribes.opens {i : Int} (h : Subscribes p f topic i)
    (hp : s.sessions.lookup p.connectionId = some p) :
    ∃ id, Decimal.parseInt id = some i ∧
      Opens p.connectionId topic id (s, .frame p.connectionId f) := by
  obtain ⟨id, hid, hparse⟩ := Option.bind_eq_some_iff.mp h.id_eq
  exact ⟨id, hparse, rfl, (accepted_iff hp).mpr (.subscribe h), h.command, h.destination, hid⟩

theorem Unsubscribes.closes {i : Int} (h : Unsubscribes p f topic i)
    (hp : s.sessions.lookup p.connectionId = some p) :
    ∃ id, Decimal.parseInt id = some i ∧
      Closes p.connectionId topic id (s, .frame p.connectionId f) := by
  obtain ⟨id, hid, hparse⟩ := Option.bind_eq_some_iff.mp h.id_eq
  refine ⟨id, hparse, rfl, (accepted_iff hp).mpr (.unsubscribe h), h.command, hid, ?_⟩
  rw [topicUnder, hp, Option.bind_some, hparse]
  exact h.held

end Accepted

/-! ## One step -/

theorem Opens.next {s s' : Server} {e : ServerEvent} {c : ConnectionId} {topic id : Text}
    (h : Opens c topic id (s, e)) (hs : s.next e = some s') :
    ∃ i, Decimal.parseInt id = some i ∧ s'.InTables c topic i := by
  obtain ⟨rfl, -⟩ | ⟨d, f, p, out, rfl, hp, rfl, -, ho⟩ | ⟨d, rfl, -⟩ := next_cases hs
  · cases h
  · obtain rfl : p.connectionId = c := h.1
    obtain ⟨i, hi, hsub⟩ := h.subscribes hp
    refine ⟨i, hi, ?_⟩
    cases ho with
    | refused reason hno => exact absurd (.subscribe hsub) hno
    | subscribe hsub' =>
      obtain ⟨rfl, rfl⟩ := hsub.unique hsub'
      refine ⟨?_, ?_⟩
      · rw [lookup_setSession, if_pos rfl, Option.bind_some]
        exact AList.lookup_insert _
      · rw [connections_setSession, connections_setConnections,
          ConnectionsImpl.subscription_addSubscription, if_pos ⟨rfl, rfl⟩]
    | connect hc => exact absurd (hsub.command.symm.trans hc.command) (by decide)
    | unsubscribe hu => exact absurd (hsub.command.symm.trans hu.command) (by decide)
    | send hsend => exact absurd (hsub.command.symm.trans hsend.command) (by decide)
    | disconnect hd => exact absurd (hsub.command.symm.trans hd.command) (by decide)
  · cases h

theorem subscription_next {s s' : Server} {e : ServerEvent} {c : ConnectionId} {topic : Text}
    (hs : s.next e = some s') (hno : ∀ id, ¬ Opens c topic id (s, e)) {i : Int}
    (hi : s'.connections.subscription topic c = some i) :
    s.connections.subscription topic c = some i := by
  -- Only a SUBSCRIBE of the connection to the topic writes its entry in the shared table.
  obtain ⟨rfl, rfl⟩ | ⟨d, f, p, out, rfl, hp, rfl, -, ho⟩ | ⟨d, rfl, rfl⟩ := next_cases hs
  · exact hi
  · by_cases hc : c = p.connectionId
    · subst hc
      cases ho with
      | refused reason _ => exact hi
      | @connect login passcode _ =>
        have htopics := (s.connections.authenticateUser_fields p.connectionId login passcode).2.1
        rw [ConnectionsImpl.subscription, connections_setSession, connections_setConnections,
          htopics] at hi
        exact hi
      | @subscribe topic' i' hsub =>
        obtain ⟨id, -, hopens⟩ := hsub.opens hp
        rw [connections_setSession, connections_setConnections,
          ConnectionsImpl.subscription_addSubscription, if_neg] at hi
        · exact hi
        · rintro ⟨rfl, -⟩
          exact hno id hopens
      | unsubscribe hu =>
        rw [connections_setSession, connections_setConnections,
          ConnectionsImpl.subscription_removeSubscription] at hi
        split at hi
        · cases hi
        · exact hi
      | send _ => exact hi
      | disconnect _ =>
        rw [connections_setSession, connections_setConnections, ConnectionsImpl.subscription_disconnect,
          if_pos rfl] at hi
        cases hi
    · exact ((ho.untouched hc).subscribed topic).symm.trans hi
  · rw [connections_setConnections, ConnectionsImpl.subscription_disconnect] at hi
    split at hi
    · cases hi
    · exact hi

theorem InTables.frame {s s' : Server} {p : Session} {f : StompFrame} {out : List Sent}
    {topic id : Text} {i : Int} (h : s.InTables p.connectionId topic i)
    (hi : Decimal.parseInt id = some i)
    (ha : Apart p.connectionId topic id (s, .frame p.connectionId f))
    (hp : s.sessions.lookup p.connectionId = some p) (ho : Outcome s p f (s', out)) :
    s'.InTables p.connectionId topic i := by
  have hown : p.clientSubscriptions.lookup i = some topic := by
    have hown := h.own
    rwa [hp, Option.bind_some] at hown
  -- the session is written in all cases but that of a SEND
  have hput : ∀ (t : Server) (q : Session), q.connectionId = p.connectionId →
      q.clientSubscriptions.lookup i = some topic →
      t.connections.subscription topic p.connectionId = some i →
      (t.setSession q).InTables p.connectionId topic i := by
    intro t q hq hheld hshared
    refine ⟨?_, hshared⟩
    rw [lookup_setSession, if_pos hq.symm, Option.bind_some]
    exact hheld
  cases ho with
  | refused reason _ => exact hput _ _ rfl hown h.shared
  | @connect login passcode _ =>
    have htopics := (s.connections.authenticateUser_fields p.connectionId login passcode).2.1
    refine hput _ _ rfl hown ?_
    rw [ConnectionsImpl.subscription, connections_setConnections, htopics]
    exact h.shared
  | @subscribe topic' i' hsub =>
    obtain ⟨id', hi', hopens⟩ := hsub.opens hp
    obtain ⟨htopic, hne⟩ := ha.other topic' id' (.inl hopens)
    have hnumber : i ≠ i' := fun heq => hne (by rw [hi', hi, heq])
    refine hput _ _ rfl ?_ ?_
    · exact (AList.lookup_insert_ne hnumber).trans hown
    · rw [connections_setConnections, ConnectionsImpl.subscription_addSubscription,
        if_neg fun heq => htopic heq.1.symm]
      exact h.shared
  | @unsubscribe topic' i' hunsub =>
    obtain ⟨id', hi', hcloses⟩ := hunsub.closes hp
    obtain ⟨htopic, hne⟩ := ha.other topic' id' (.inr hcloses)
    have hnumber : i ≠ i' := fun heq => hne (by rw [hi', hi, heq])
    refine hput _ _ rfl ?_ ?_
    · exact (AList.lookup_erase_ne hnumber).trans hown
    · rw [connections_setConnections, ConnectionsImpl.subscription_removeSubscription,
        if_neg fun heq => htopic heq.1.symm]
      exact h.shared
  | send _ => exact ⟨h.own, h.shared⟩
  | disconnect hd => exact absurd ⟨rfl, (accepted_iff hp).mpr (.disconnect hd), hd.command⟩ ha.stays

theorem InTables.next {s s' : Server} {e : ServerEvent} {c : ConnectionId} {topic id : Text} {i : Int}
    (hf : s.IdsFresh) (h : s.InTables c topic i) (hi : Decimal.parseInt id = some i)
    (ha : Apart c topic id (s, e)) (hs : s.next e = some s') : s'.InTables c topic i := by
  have hother : Untouched c s s' → s'.InTables c topic i := fun hu =>
    ⟨hu.session ▸ h.own, (hu.subscribed topic).trans h.shared⟩
  obtain ⟨rfl, rfl⟩ | ⟨d, f, p, out, rfl, hp, rfl, -, ho⟩ | ⟨d, rfl, rfl⟩ := next_cases hs
  · refine hother (s.untouched_accept ?_)
    rintro rfl
    have hown := h.own
    rw [(hf _ (Nat.lt_succ_self s.connectionCounter)).1] at hown
    cases hown
  · by_cases hc : c = p.connectionId
    · subst hc
      exact h.frame hi ha hp ho
    · exact hother (ho.untouched hc)
  · exact hother (s.untouched_disconnect fun hc => ha.stays hc.symm)

/-! ## Runs -/

/-- A message carries the number of its subscription, and no frame with the id of another number
ends or replaces the subscription. -/
theorem ids_name_numbers {trace : List (Server × ServerEvent)} {s : Server} (h : runs.Run trace s)
    {pre mid : List (Server × ServerEvent)} {e : Server × ServerEvent} {c : ConnectionId}
    {topic id : Text} (heq : trace = pre ++ e :: mid) (he : Opens c topic id e) :
    ∃ i, Decimal.parseInt id = some i ∧
      ((∀ e' ∈ mid, ∀ id', ¬ Opens c topic id' e') → ∀ ev s', s.next ev = some s' →
        ∀ m ∈ outputs (s, ev), m.connectionId = c → m.msg.command = "MESSAGE".toList →
          m.msg.getHeader "destination".toList = some topic →
            m.msg.getHeader "subscription".toList = some (Decimal.valueOf i) ∧
              (m.msg.getHeader "subscription".toList = some id ↔ Canonical id)) ∧
      ((∀ e' ∈ mid, Apart c topic id e') → s.InTables c topic i) := by
  obtain ⟨hpre, s₁, hs₁, -⟩ := h.split heq
  obtain ⟨i, hi, htables⟩ := he.next hs₁
  have hfirst : ∀ s', runs.step e.1 e.2 = some s' → s' = s₁ := fun s' hs' =>
    Option.some.inj (hs'.symm.trans hs₁)
  refine ⟨i, hi, fun hno ev s' hs m hm hc hcommand hdestination => ?_, fun hapart => ?_⟩
  · have hshared : ∀ j, s.connections.subscription topic c = some j → j = i := by
      refine h.after (fun s => ∀ j, s.connections.subscription topic c = some j → j = i) heq ?_ ?_
      · rintro s' hs' j hj
        rw [hfirst s' hs', htables.shared] at hj
        exact (Option.some.inj hj).symm
      · exact fun x hx s' ih hs' j hj => ih j (subscription_next hs' (hno x hx) hj)
    obtain ⟨topic', body, -, hout, -⟩ | ⟨-, hout, -⟩ := send_or_quiet hs
    · have hto : m ∈ sentTo c (outputs (s, ev)) := List.mem_filter.mpr ⟨hm, decide_eq_true hc⟩
      rw [hout, sentTo_messages] at hto
      obtain ⟨j, hj, rfl⟩ := List.mem_map.mp hto
      obtain rfl : topic' = topic := Option.some.inj hdestination
      obtain rfl := hshared j (Option.mem_toList.mp hj)
      refine ⟨rfl, ?_⟩
      rw [Canonical, hi]
      rfl
    · exact absurd hcommand (hout m hm)
  · have hfresh : s₁.IdsFresh := idsFresh_step (System.Run.inv IdsFresh idsFresh_initial
      (fun _ _ _ => idsFresh_step) hpre) hs₁
    refine (h.after (fun s => s.IdsFresh ∧ s.InTables c topic i) heq ?_ ?_).2
    · rintro s' hs'
      rw [hfirst s' hs']
      exact ⟨hfresh, htables⟩
    · exact fun x hx s' ih hs' => ⟨idsFresh_step ih.1 hs', ih.2.next ih.1 hi (hapart x hx) hs'⟩

/-- A client subscribes twice, with these ids. -/
def twoIds (id id' : String) : List ServerEvent :=
  [.accept, .frame 1 (connectFrame "u" "p"), .frame 1 (subscribeFrame "t" id),
    .frame 1 (subscribeFrame "v" id')]

def sendFrame (topic : String) : StompFrame := .ofStrings "SEND" [("destination", topic)] "x"

/-- The header of the messages that a SEND would make. -/
def subscriptionHeaders (s : Server) (topic : String) : List (Option Text) :=
  (s.process 1 (sendFrame topic)).2.map fun m => m.msg.getHeader "subscription".toList

/-- Both SUBSCRIBEs of such a run are accepted. -/
def bothOpen (id id' : String) : List (Server × ServerEvent) → Bool
  | [_, _, e, e'] => decide (Opens 1 "t".toList id.toList e ∧ Opens 1 "v".toList id'.toList e')
  | _ => false

theorem exists_twoIds (id id' : String) (p : Server → Bool)
    (h : (runs.exec (twoIds id id')).any (fun r => bothOpen id id' r.1 && p r.2) = true) :
    ∃ pre e e' s, runs.Run (pre ++ [e, e']) s ∧ Opens 1 "t".toList id.toList e ∧
      Opens 1 "v".toList id'.toList e' ∧ p s = true := by
  obtain ⟨trace, s, hr, hs⟩ := System.exists_run (M := runs) (twoIds id id')
    (fun trace s => bothOpen id id' trace && p s) h
  obtain ⟨hboth, hp⟩ := (Bool.and_eq_true _ _).mp hs
  unfold bothOpen at hboth
  split at hboth
  · next a b e e' =>
    obtain ⟨he, he'⟩ := of_decide_eq_true hboth
    exact ⟨[a, b], e, e', s, hr, he, he', hp⟩
  · cases hboth

theorem ids_name_numbers_plus : ∃ pre e e' s, runs.Run (pre ++ [e, e']) s ∧
    Opens 1 "t".toList "+5".toList e ∧ Opens 1 "v".toList "6".toList e' ∧
    s.InTables 1 "t".toList 5 := by
  obtain ⟨pre, e, e', s, hr, he, he', -⟩ := exists_twoIds "+5" "6" (fun _ => true) (by decide)
  obtain ⟨i, hi, -, htables⟩ := ids_name_numbers hr rfl he
  obtain rfl : i = 5 := Option.some.inj (hi.symm.trans (by decide))
  refine ⟨pre, e, e', s, hr, he, he', htables fun x hx => ?_⟩
  obtain rfl := List.mem_singleton.mp hx
  obtain ⟨s', ev⟩ := x
  cases ev with
  | frame d f =>
    obtain ⟨rfl, -, hcommand, hdestination, hid⟩ := he'
    refine ⟨fun hl => ?_, ?_⟩
    · exact absurd (hcommand.symm.trans hl.2.2) (by decide)
    · rintro topic' id' (⟨-, -, -, hdestination', hid'⟩ | ⟨-, -, hcommand', -⟩)
      · cases hdestination.symm.trans hdestination'
        cases hid.symm.trans hid'
        decide
      · exact absurd (hcommand.symm.trans hcommand') (by decide)
  | accept | disconnect _ => cases he'

/-- The messages to the id "07" carry "7", and a SUBSCRIBE to another topic with that id takes the
place of the subscription with the id "7". -/
theorem ids_confused : ∃ pre e e' s, runs.Run (pre ++ [e, e']) s ∧
    Opens 1 "t".toList "7".toList e ∧ Opens 1 "v".toList "07".toList e' ∧
    subscriptionHeaders s "v" = [some "7".toList] ∧ ¬ s.InTables 1 "t".toList 7 := by
  obtain ⟨pre, e, e', s, hr, he, he', hs⟩ := exists_twoIds "7" "07" (fun s =>
    decide (subscriptionHeaders s "v" = [some "7".toList] ∧
      (s.sessions.lookup 1).bind (·.clientSubscriptions.lookup 7) = some "v".toList)) (by decide)
  obtain ⟨hheaders, hown⟩ := of_decide_eq_true hs
  refine ⟨pre, e, e', s, hr, he, he', hheaders, fun htables => ?_⟩
  exact absurd (hown.symm.trans htables.own) (by decide)

end Server

end Stomp
