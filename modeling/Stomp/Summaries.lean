import Stomp.Agreement
import Stomp.ReceiptMap
import Stomp.Client.Layout

/-!
# A summary counts what was reported

An event goes from the client that reports it, through the server, to the summary of a client that
receives it.
-/

open Stomp.Split Stomp.Utf8 Stomp.Client

namespace Stomp

open StompMessageEncoderDecoder StompMessagingProtocolImpl

/-! ## Reports -/

namespace Client

/-- Text of one line, without a colon. -/
def Field (t : Bytes) : Prop := Valid t ∧ colon ∉ t ∧ nl ∉ t ∧ 0 ∉ t

/-- The texts of an event that a report can send. The date is an `int`. -/
structure Event.Clean (event : Event) : Prop where
  city : Field event.city
  name : Field event.name
  information : ∀ e ∈ event.general_information.entries, Field e.1 ∧ Field e.2
  description : Valid event.description ∧ 0 ∉ event.description
  date_time : Decimal.InRange event.date_time

/-- The texts are UTF-8, as an events file gives them. -/
structure Event.ValidTexts (event : Event) : Prop where
  city : Valid event.city
  name : Valid event.name
  information : ∀ e ∈ event.general_information.entries, Valid e.1 ∧ Valid e.2
  description : Valid event.description

theorem Event.Clean.validTexts {event : Event} (h : event.Clean) : event.ValidTexts where
  city := h.city.1
  name := h.name.1
  information e he := ⟨(h.information e he).1.1, (h.information e he).2.1⟩
  description := h.description.1

theorem valid_ascii (s : String) : Valid (ascii s) := ⟨s.toList, rfl⟩

theorem valid_unlines {lines : List Bytes} (h : ∀ line ∈ lines, Valid line) :
    Valid (unlines nl lines) :=
  Valid.flatMap fun line hline => (h line hline).append (valid_ascii "\n")

theorem valid_keyLine {key val : Bytes} (hk : Valid key) (hv : Valid val) : Valid (keyLine key val) := by
  have hcolon : ascii ":" = [colon] := rfl
  have hsplit : keyLine key val = key ++ ascii ":" ++ val := by simp [keyLine, hcolon]
  rw [hsplit]
  exact (hk.append (valid_ascii ":")).append hv

/-- The body of a report after the line of its user. -/
def reportRest (event : Event) : Bytes :=
  unlines nl ((headLines [] event).tail ++ event.general_information.entries.map infoLine ++
    [keyLine (ascii "description") []]) ++ (event.description ++ [nl])

theorem reportBody_user (username : Bytes) (event : Event) :
    reportBody username event = ascii "user" ++ colon :: (username ++ nl :: reportRest event) := by
  rw [reportBody_eq, reportRest]
  simp [headLines, unlines, keyLine]

theorem valid_reportRest {event : Event} (h : event.ValidTexts) : Valid (reportRest event) := by
  refine (valid_unlines fun line hline => ?_).append (h.description.append (valid_ascii "\n"))
  simp only [headLines, List.tail_cons, List.mem_append, List.mem_cons, List.not_mem_nil, or_false,
    List.mem_map] at hline
  rcases hline with ((rfl | rfl | rfl | rfl) | ⟨e, he, rfl⟩) | rfl
  · exact valid_keyLine (valid_ascii _) h.city
  · exact valid_keyLine (valid_ascii _) h.name
  · exact valid_keyLine (valid_ascii _) ⟨_, rfl⟩
  · exact valid_keyLine (valid_ascii _) (valid_ascii "")
  · obtain ⟨hk, hv⟩ := h.information e he
    exact valid_keyLine ((valid_ascii " ").append hk) hv
  · exact valid_keyLine (valid_ascii _) (valid_ascii "")

def Command.Clean : Command → Prop
  | .report _ events => ∀ event ∈ events, event.Clean
  | _ => True

end Client

def LinkEvent.Clean : LinkEvent → Prop
  | .login username _ => Field username
  | .command _ x => x.ChannelsOk ∧ x.Clean
  | _ => True

/-- An event that the user of a client reports. -/
structure Report where
  sender : ConnectionId
  username : Bytes
  channel_name : Bytes
  event : Event

namespace Report

def frame (r : Report) : Framing.ClientFrame := reportFrame r.username r.channel_name r.event

structure Clean (r : Report) : Prop where
  username : Field r.username
  channel_name : HeaderText r.channel_name
  event : r.event.Clean

theorem Clean.oneLine {r : Report} (h : r.Clean) : r.event.OneLine r.username where
  user := ⟨h.username.2.1, h.username.2.2.1⟩
  city := ⟨h.event.city.2.1, h.event.city.2.2.1⟩
  name := ⟨h.event.name.2.1, h.event.name.2.2.1⟩
  information e he := by
    obtain ⟨hk, hv⟩ := h.event.information e he
    exact ⟨⟨hk.2.1, hk.2.2.1⟩, hv.2.1, hv.2.2.1⟩
  date_time := h.event.date_time

theorem Clean.valid {r : Report} (h : r.Clean) : Valid (reportBody r.username r.event) := by
  rw [reportBody_user]
  exact valid_keyLine (valid_ascii "user") (h.username.1.append
    ((valid_ascii "\n").append (valid_reportRest h.event.validTexts)))

theorem Clean.noNul {r : Report} (h : r.Clean) : r.event.NoNul :=
  ⟨h.event.city.2.2.2, h.event.name.2.2.2, h.event.description.2, fun e he =>
    ⟨(h.event.information e he).1.2.2.2, (h.event.information e he).2.2.2.2⟩⟩

theorem Clean.reads {r : Report} (h : r.Clean) : ∃ f, outcome r.frame.text = .frame f ∧
    0 ∉ r.frame.text ∧ (∀ t, f.getHeader "destination".toList = some t → Utf8.encode t = r.channel_name) ∧
    Utf8.encode f.body = reportBody r.username r.event := by
  have hread : r.frame.Readable := by
    refine readable_headerMap ⟨⟨_, rfl⟩, by decide⟩ (List.nodup_singleton _) ?_
      (zero_not_mem_reportBody h.username.2.2.2 h.noNul)
    simp only [List.forall_mem_cons]
    exact ⟨⟨⟨⟨⟨_, rfl⟩, by decide⟩, by decide⟩, h.channel_name.2⟩, by simp⟩
  obtain ⟨f, hout, -, hheader, hbody⟩ := hread.outcome
  refine ⟨f, hout, hread.zero_not_mem, fun t ht => ?_, ?_⟩
  · have hlookup : r.frame.headers.lookup (Utf8.encode "destination".toList) = some r.channel_name :=
      (lookup_headerMap [(ascii "destination", r.channel_name)] (List.nodup_singleton _) _ _).mpr
        (List.mem_singleton_self _)
    rw [hheader, hlookup] at ht
    rw [← Option.some.inj ht, Framing.encode_decode h.channel_name.1]
  · rw [hbody]
    exact Framing.encode_decode h.valid

end Report

namespace Link

/-- The reports that a step makes. -/
def reports : Link × LinkEvent → List Report
  | (s, .command d (.report channel_name events)) =>
    (s.peers.lookup d).elim [] fun x =>
      if x.protocol.connected then events.map fun event => ⟨d, x.username, channel_name, event⟩ else []
  | _ => []

/-! ## The names of users -/

theorem PeerStep.username {c : ConnectionId} {s : Link} {e : LinkEvent} {x x' : Peer}
    (h : PeerStep c s e x x') : x'.username = x.username := by
  cases h <;> rfl

theorem username_run {trace : List (Link × LinkEvent)} {s : Link} {c : ConnectionId} {x : Peer}
    (h : runs.Run trace s) (hclean : ∀ e ∈ trace, e.2.Clean) (hx : s.peers.lookup c = some x) :
    Field x.username := by
  refine peer_run (P := fun trace x => (∀ e ∈ trace, e.2.Clean) → Field x.username) ?_ ?_ h hx hclean
  · intro trace s username password _ _ _ hclean
    exact hclean _ (List.mem_append_right _ (List.mem_singleton_self _))
  · intro trace s e x x' _ _ hs ih hclean
    rw [hs.username]
    exact ih fun e he => hclean e (List.mem_append_left _ he)

/-! ## Where a message comes from -/

theorem plain_of_ok {command : Command} (h : command.ChannelsOk) : command.ChannelsPlain := by
  cases command with
  | join channel => exact h.2
  | exit channel => exact h.2
  | report channel_name events => exact h.2
  | logout => trivial

theorem request_command {p : StompProtocol} {command : Command} {q : Request}
    (hq : command.request p = some q) : q.frame.command ≠ ascii "SEND" := by
  cases command with
  | join channel =>
    obtain ⟨-, hq⟩ := ite_eq_iff.mp hq |>.resolve_right nofun
    cases hq
    show ascii "SUBSCRIBE" ≠ _
    decide
  | exit channel =>
    obtain ⟨-, hq⟩ := ite_eq_iff.mp hq |>.resolve_right nofun
    cases hq
    show ascii "UNSUBSCRIBE" ≠ _
    decide
  | report channel_name events => cases hq
  | logout =>
    obtain ⟨-, hq⟩ := ite_eq_iff.mp hq |>.resolve_right nofun
    cases hq
    show ascii "DISCONNECT" ≠ _
    decide

theorem reported_of_sends {trace : List (Link × LinkEvent)} {s : Link} {c : ConnectionId} {x : Peer}
    {p : Session} {f : StompFrame} {topic : Text} (h : runs.Run trace s)
    (hclean : ∀ e ∈ trace, e.2.Clean) (hx : s.peers.lookup c = some x) (hf : x.completed = some f)
    (hs : Server.Sends p f topic) :
    ∃ r ∈ trace.flatMap reports, r.sender = c ∧ r.Clean ∧ outcome r.frame.text = .frame f := by
  -- A SEND that the server carries out is a report of its sender.
  obtain ⟨m, hm, piece, hpiece, hout⟩ := written_of_completed h hx hf
  obtain ⟨⟨t, ev⟩, hmem, hm⟩ := List.mem_flatMap.mp hm
  obtain ⟨pre, post, htrace⟩ := List.append_of_mem hmem
  have hpre := (h.split htrace).1
  have hcleanPre : ∀ e ∈ pre, e.2.Clean := fun e he =>
    hclean e (htrace ▸ List.mem_append_left _ he)
  have hok := hclean _ hmem
  cases ev with
  | login username password =>
    simp only [writes] at hm
    split at hm
    · rw [List.mem_singleton] at hm
      subst hm
      exact absurd (connectFrame_header hok.2.2.1 password.2 hpiece hout hs.destination) (by decide)
    · cases hm
  | command d command =>
    obtain ⟨hchannels, hevents⟩ := hok
    simp only [writes] at hm
    split at hm
    · next hd =>
      subst hd
      cases hy : t.peers.lookup c with
      | none => simp [hy] at hm
      | some y =>
        rw [hy, Option.elim_some] at hm
        have hrun := command.run_draws y.protocol y.username
        revert hrun hm
        generalize command.run y.protocol y.username = r
        intro hm hrun
        cases hrun with
        | request hq _ _ _ _ =>
          rw [List.mem_singleton] at hm
          subst hm
          obtain ⟨g, hg⟩ := request_readAs (plain_of_ok hchannels) hq
          rw [Framing.ClientFrame.wire_eq, pieces_cons _ _ _ hg.text, pieces_nil,
            List.mem_singleton] at hpiece
          subst hpiece
          cases hg.outcome_eq.symm.trans hout
          exact absurd (hg.command.trans (congrArg Utf8.encode hs.command)) (request_command hq)
        | unused _ _ _ _ => cases hm
        | @report channel_name events hcommand hconnected =>
          subst hcommand
          obtain ⟨event, hevent, rfl⟩ := List.mem_map.mp hm
          have hr : Report.Clean ⟨c, y.username, channel_name, event⟩ :=
            ⟨username_run hpre hcleanPre hy, hchannels, hevents event hevent⟩
          obtain ⟨g, hg, h0, -⟩ := hr.reads
          have hwire : (reportFrame y.username channel_name event).wire =
              (Report.frame ⟨c, y.username, channel_name, event⟩).text ++ [0] := rfl
          rw [hwire, pieces_cons _ _ _ h0, pieces_nil, List.mem_singleton] at hpiece
          subst hpiece
          refine ⟨_, List.mem_flatMap.mpr ⟨_, hmem, ?_⟩, rfl, hr, hout⟩
          simp only [reports, hy, Option.elim_some, hconnected, if_true]
          exact List.mem_map_of_mem hevent
        | nothing _ _ => cases hm
    · cases hm
  | deliver _ | receive _ | lose _ | disconnect _ => cases hm

/-! ## What a client receives -/

theorem Arrives.message_of {c : ConnectionId} {t : Link} {e : Handed} {p : Session}
    (h : Arrives c t e p) (he : e.msg.command = "MESSAGE".toList) : ∃ topic id messageId,
      e.msg = messageFrame topic id messageId e.cause.body ∧ Server.Sends p e.cause topic := by
  cases h with
  | error hmsg _ _ _ =>
    rw [hmsg] at he
    exact absurd (show "ERROR".toList = "MESSAGE".toList from he) (by decide)
  | connected _ hmsg _ _ _ =>
    rw [hmsg] at he
    exact absurd he (by decide)
  | receipt _ hmsg _ _ _ _ =>
    rw [hmsg] at he
    exact absurd (show "RECEIPT".toList = "MESSAGE".toList from he) (by decide)
  | message hmsg _ _ h => exact ⟨_, _, _, hmsg, h⟩

end Link

/-- The message that a client gets of a report. -/
structure Report.Carried (r : Report) (m : StompProtocol.Parsed) : Prop where
  destination : m.headers.lookup (ascii "destination") = some r.channel_name
  body : m.body = reportBody r.username r.event ++ [nl]

theorem Report.Clean.topic {r : Report} {f : StompFrame} {topic : Text} (h : r.Clean)
    (hout : outcome r.frame.text = .frame f) (ht : f.getHeader "destination".toList = some topic) :
    StompFrame.Line topic ∧ Utf8.encode topic = r.channel_name := by
  obtain ⟨g, hg, -, hdestination, -⟩ := h.reads
  cases hg.symm.trans hout
  have htopic := hdestination topic ht
  obtain ⟨-, hnl, h0⟩ := h.channel_name
  rw [← htopic, Framing.nl_mem_encode] at hnl
  rw [← htopic, Framing.zero_mem_encode] at h0
  exact ⟨⟨hnl, h0⟩, htopic⟩

theorem Report.Clean.carried {r : Report} {f : StompFrame} {topic : Text} (h : r.Clean)
    (hout : outcome r.frame.text = .frame f) (ht : f.getHeader "destination".toList = some topic)
    (hf : f.NoNul) (id messageId : Int) :
    ∃ m, messagesOf (messageFrame topic id messageId f.body) = [m] ∧ r.Carried m := by
  obtain ⟨g, hg, -, -, hbody⟩ := h.reads
  cases hg.symm.trans hout
  obtain ⟨hline, htopic⟩ := h.topic hout ht
  have hne : f.body ≠ [] := by
    intro hnil
    rw [hnil] at hbody
    exact List.append_ne_nil_of_right_ne_nil _ (by decide) hbody.symm
  obtain ⟨m, hm, -, hlookup, hm'⟩ := messagesOf_messageFrame_body id messageId hline hf.body hne
  exact ⟨m, hm, by rw [hlookup, htopic], by rw [hm', hbody]⟩

namespace Link

theorem sent_of_hands {trace : List (Link × LinkEvent)} {s : Link} {c : ConnectionId} {e : Handed}
    (h : runs.Run trace s) (hclean : ∀ e ∈ trace, e.2.Clean) (he : e ∈ handsOf "MESSAGE" c trace) :
    ∃ r ∈ trace.flatMap reports, r.Clean ∧ r.sender = e.sender ∧
      outcome r.frame.text = .frame e.cause ∧ ∃ topic id messageId,
        e.msg = messageFrame topic id messageId e.cause.body ∧
        e.cause.getHeader "destination".toList = some topic ∧ e.cause.NoNul := by
  -- A MESSAGE that the server hands out carries the body of a report.
  obtain ⟨hcommand, pre, t, post, y, p, rfl, hpre, hfor⟩ := mem_handsOf h he
  obtain ⟨topic, id, messageId, hmsg, hsends⟩ := hfor.arrives.message_of hcommand
  obtain ⟨r, hr, hsender, hrclean, hout⟩ := reported_of_sends hpre
    (fun e he => hclean e (List.mem_append_left _ he)) hfor.peer hfor.completed hsends
  refine ⟨r, ?_, hrclean, hsender, hout, topic, id, messageId, hmsg, hsends.destination, hfor.noNul⟩
  rw [List.flatMap_append]
  exact List.mem_append_left _ hr

theorem reported_of_hands {trace : List (Link × LinkEvent)} {s : Link} {c : ConnectionId} {e : Handed}
    (h : runs.Run trace s) (hclean : ∀ e ∈ trace, e.2.Clean) (he : e ∈ handsOf "MESSAGE" c trace) :
    ∃ r ∈ trace.flatMap reports, r.Clean ∧ r.sender = e.sender ∧
      outcome r.frame.text = .frame e.cause ∧ ∃ m, messagesOf e.msg = [m] ∧ r.Carried m := by
  obtain ⟨r, hr, hrclean, hsender, hout, topic, id, messageId, hmsg, ht, hnul⟩ :=
    sent_of_hands h hclean he
  refine ⟨r, hr, hrclean, hsender, hout, ?_⟩
  rw [hmsg]
  exact hrclean.carried hout ht hnul id messageId

/-- The messages that a client handled are of `received`, the others that the server handed to it
are of `later`. -/
structure Received (trace : List (Link × LinkEvent)) (c : ConnectionId)
    (received later : List Report) : Prop where
  reported : ∀ r ∈ received ++ later, r ∈ trace.flatMap reports
  clean : ∀ r ∈ received ++ later, r.Clean
  /-- The server handed out each message when it read the frame of the report. -/
  relayed : List.Forall₂ (fun r e => r.sender = e.sender ∧ outcome r.frame.text = .frame e.cause)
    (received ++ later) (handsOf "MESSAGE" c trace)
  handled : List.Forall₂ Report.Carried received (handlesOf "MESSAGE" c trace)

theorem received_run {trace : List (Link × LinkEvent)} {s : Link} {c : ConnectionId} {x : Peer}
    (h : runs.Run trace s) (hclean : ∀ e ∈ trace, e.2.Clean) (hx : s.peers.lookup c = some x) :
    ∃ received later, Received trace c received later := by
  have hall : ∀ e ∈ handsOf "MESSAGE" c trace, ∃ r, r ∈ trace.flatMap reports ∧ r.Clean ∧
      r.sender = e.sender ∧ outcome r.frame.text = .frame e.cause ∧
      ∃ m, messagesOf e.msg = [m] ∧ r.Carried m := fun e he => reported_of_hands h hclean he
  obtain ⟨rs, hrs⟩ := exists_forall₂ hall
  have hcarried := forall₂_flatMap_right hrs (S := Report.Carried) (f := fun e => messagesOf e.msg)
    fun r _ e _ hr => hr.2.2.2.2
  rw [messages_of h hx (by decide) (by decide)] at hcarried
  obtain ⟨received, later, rfl, hreceived, -⟩ := forall₂_append_right hcarried
  refine ⟨received, later, fun r hr => ?_, fun r hr => ?_, ?_, hreceived⟩
  · obtain ⟨e, -, hreported, -⟩ := forall₂_mem_left hrs hr
    exact hreported
  · obtain ⟨e, -, -, hclean, -⟩ := forall₂_mem_left hrs hr
    exact hclean
  · exact hrs.imp fun r e hr => ⟨hr.2.2.1, hr.2.2.2.1⟩

/-! ## What a client stores -/

/-- The event that a message adds to a channel. -/
def eventIn (channel : Bytes) (m : StompProtocol.Parsed) : Option Event :=
  if m.headers.lookup (ascii "destination") = some channel then Event.ofBody m.body else none

theorem handles_eventSummary {p p' : StompProtocol} {m : StompProtocol.Parsed}
    (h : StompProtocol.Handles p m p') (channel : Bytes) :
    (p'.eventSummary.lookup channel).getD [] = (p.eventSummary.lookup channel).getD [] ++
      ([m].filter fun m => m.command = ascii "MESSAGE").filterMap (eventIn channel) := by
  have hnone : ∀ command : String, m.command = ascii command → ascii command ≠ ascii "MESSAGE" →
      [m].filter (fun m => m.command = ascii "MESSAGE") = [] := by
    intro command hc hne
    rw [List.filter_cons_of_neg (by simpa [hc] using hne), List.filter_nil]
  cases h with
  | connected hc =>
    rw [hnone "CONNECTED" hc (by decide)]
    exact (List.append_nil _).symm
  | @message destination newEvent hc hd he =>
    rw [List.filter_cons_of_pos (by simp [hc]), List.filter_nil]
    show ((p.eventSummary.insert destination _).lookup channel).getD [] = _
    rw [Table.lookup_insert_if]
    by_cases hchannel : channel = destination
    · subst hchannel
      have hevent : eventIn channel m = some newEvent := by rw [eventIn, if_pos hd, he]
      rw [if_pos rfl, List.filterMap_cons_some hevent]
      rfl
    · have hevent : eventIn channel m = none := by
        rw [eventIn, if_neg]
        intro hd'
        exact hchannel (Option.some.inj (hd'.symm.trans hd))
      rw [if_neg hchannel, List.filterMap_cons_none hevent]
      exact (List.append_nil _).symm
  | error hc =>
    rw [hnone "ERROR" hc (by decide)]
    exact (List.append_nil _).symm
  | unknown hc _ =>
    rw [hnone "RECEIPT" hc (by decide)]
    exact (List.append_nil _).symm
  | @receipt id requestType hc _ _ =>
    rw [hnone "RECEIPT" hc (by decide)]
    dsimp only
    split <;> exact (List.append_nil _).symm
  | other hc =>
    rw [List.filter_cons_of_neg (by simpa using hc.2.1)]
    exact (List.append_nil _).symm

theorem eventSummary_run {trace : List (Link × LinkEvent)} {s : Link} {c : ConnectionId} {x : Peer}
    (h : runs.Run trace s) (hx : s.peers.lookup c = some x) (channel : Bytes) :
    (x.protocol.eventSummary.lookup channel).getD [] =
      (handlesOf "MESSAGE" c trace).filterMap (eventIn channel) := by
  have hquiet : ∀ (trace : List (Link × LinkEvent)) e, handles c e = none →
      handlesOf "MESSAGE" c (trace ++ [e]) = handlesOf "MESSAGE" c trace := by
    intro trace e he
    rw [handlesOf_snoc, he]
    exact List.append_nil _
  refine peer_run (P := fun trace x => (x.protocol.eventSummary.lookup channel).getD [] =
    (handlesOf "MESSAGE" c trace).filterMap (eventIn channel)) ?_ ?_ h hx
  · intro trace s username password _ _ habsent
    have hnil : handlesOf "MESSAGE" c trace = [] := by
      rw [handlesOf, habsent.handles, List.filter_nil]
    rw [hquiet _ _ rfl, hnil]
    rfl
  · intro trace s e x x' _ hx hs ih
    cases hs with
    | quiet _ _ _ _ hm =>
      rw [hquiet _ _ hm]
      exact ih
    | command command _ =>
      rw [hquiet _ _ rfl, ← ih]
      exact congrArg (fun t : Table Bytes (List Event) => (t.lookup channel).getD [])
        (command.run_eventSummary x.protocol x.username)
    | byte _ _ | frame _ _ | handed _ =>
      rw [hquiet _ _ rfl]
      exact ih
    | @receive _ message rest p hstop hm hp =>
      have hincoming : x.incoming = some (StompProtocol.parse message) := by
        rw [Peer.incoming, hstop, hm]
        rfl
      rw [handlesOf_snoc, handles_receive hx, hincoming, List.filterMap_append, ← ih]
      exact handles_eventSummary (StompProtocol.parseFrame_handles hp) channel

theorem eventIn_carried {r : Report} {m : StompProtocol.Parsed} (hclean : r.Clean) (h : r.Carried m)
    (channel : Bytes) : eventIn channel m =
      if r.channel_name = channel then some (r.event.readBack r.username [nl]) else none := by
  rw [eventIn, h.destination, h.body, ofBody_reportBody hclean.oneLine]
  simp only [Option.some.injEq]

theorem events_of_carried {rs : List Report} {ms : List StompProtocol.Parsed}
    (h : List.Forall₂ Report.Carried rs ms) (hclean : ∀ r ∈ rs, r.Clean) (channel : Bytes) :
    ms.filterMap (eventIn channel) = (rs.filter fun r => r.channel_name = channel).map
      fun r => r.event.readBack r.username [nl] := by
  induction h with
  | nil => rfl
  | @cons r m rs ms hm _ ih =>
    have hevent := eventIn_carried (hclean r List.mem_cons_self) hm channel
    have ih := ih fun r hr => hclean r (List.mem_cons_of_mem _ hr)
    by_cases hchannel : r.channel_name = channel
    · rw [if_pos hchannel] at hevent
      rw [List.filterMap_cons_some hevent, List.filter_cons_of_pos (by simpa using hchannel), ih,
        List.map_cons]
    · rw [if_neg hchannel] at hevent
      rw [List.filterMap_cons_none hevent, List.filter_cons_of_neg (by simpa using hchannel), ih]

/-! ## The file -/

/-- The reports of a user to a channel. -/
def reportsOf (channel user : Bytes) (rs : List Report) : List Report :=
  rs.filter fun r => r.channel_name = channel ∧ r.username = user

/-- The value of a key of the general information is `true`. -/
def Says (key : String) (r : Report) : Prop :=
  r.event.general_information.lookup (ascii key) = some (ascii "true")

instance (key : String) : DecidablePred (Says key) := fun _ => inferInstanceAs (Decidable (_ = _))

/-- What is left of a description in a block. -/
def cut (description : Bytes) : Bytes :=
  if 30 < description.length then description.take 27 ++ ascii "..." else description.take 27

def statsLines (channel : Bytes) (total active forces : Nat) : List Bytes :=
  [ascii "Channel " ++ channel, ascii "Stats:", ascii "Total: " ++ to_string total,
    ascii "active: " ++ to_string active, ascii "forces arrival at scene: " ++ to_string forces,
    [], [], ascii "Event Reports:", []]

/-- The file counts the reports, and lists them by their date and name. A description comes back
with two ends of line. -/
def Summarizes (epochToDate : Int → Bytes) (channel : Bytes) (rs : List Report) (file : Bytes) : Prop :=
  ∃ listed : List Report, listed.Perm rs ∧
    listed.Pairwise (fun r r' => r.event.date_time < r'.event.date_time ∨
      (r.event.date_time = r'.event.date_time ∧ r.event.name ≤ r'.event.name)) ∧
    file = unlines nl (statsLines channel rs.length (rs.countP (Says "active"))
        (rs.countP (Says "forces_arrival_at_scene")) ++
      (listed.mapIdx fun i r => [] :: blockLines (i + 1) r.event.city (epochToDate r.event.date_time)
        r.event.name (cut (r.event.description ++ [nl, nl]))).flatten)

theorem summaryHead_eq (channel : Bytes) (total active forces : Nat) :
    summaryHead channel total active forces = unlines nl (statsLines channel total active forces) := by
  have hnl : ascii "\n" = [nl] := rfl
  have hstats : ascii "Stats:\n" = ascii "Stats:" ++ [nl] := rfl
  have hblank : ascii "\n\n" = [nl, nl] := rfl
  have hreports : ascii "\nEvent Reports:\n\n" = nl :: ascii "Event Reports:" ++ [nl, nl] := rfl
  simp [summaryHead, statsLines, unlines, hnl, hstats, hblank, hreports]

theorem shortDescription_eq (description : Bytes) : shortDescription description = cut description := by
  unfold shortDescription cut
  split
  · rfl
  · exact List.append_nil _

theorem unlines_flatten (blocks : List (List Bytes)) :
    unlines nl blocks.flatten = (blocks.map (unlines nl)).flatten := by
  induction blocks with
  | nil => rfl
  | cons block blocks ih =>
    rw [List.flatten_cons, List.map_cons, List.flatten_cons, ← ih, unlines, List.flatMap_append]
    rfl

theorem reportEntries_eq (epochToDate : Int → Bytes) (listed : List Report) :
    (listed.mapIdx fun i r => reportEntry epochToDate (i + 1) r.event.city r.event.date_time
      r.event.name (r.event.description ++ [nl, nl])).flatten =
    unlines nl (listed.mapIdx fun i r => [] :: blockLines (i + 1) r.event.city
      (epochToDate r.event.date_time) r.event.name (cut (r.event.description ++ [nl, nl]))).flatten := by
  rw [unlines_flatten]
  congr 1
  rw [List.mapIdx_eq_iff]
  intro i
  simp only [List.getElem?_map, List.getElem?_mapIdx, Option.map_map, reportEntry_eq,
    shortDescription_eq]
  rfl

theorem isTrue_readBack {key : String} (hkey : ascii key ≠ ascii "escription") (username : Bytes)
    (event : Event) (xs : Bytes) : (event.readBack username xs).isTrue key = event.isTrue key := by
  rw [Event.isTrue, lookup_readBack, if_neg hkey, Event.isTrue]

theorem description_readBack (username : Bytes) (event : Event) :
    (event.readBack username [nl]).description = event.description ++ [nl, nl] := by
  rw [Event.readBack, unlines_getlines, List.append_assoc]
  rfl

/-- A summary counts the reports whose messages the client handled, and lists each of them once. -/
theorem summary_counts {trace : List (Link × LinkEvent)} {s : Link} {c : ConnectionId} {x : Peer}
    (h : runs.Run trace s) (hclean : ∀ e ∈ trace, e.2.Clean) (hx : s.peers.lookup c = some x)
    (hlength : (handlesOf "MESSAGE" c trace).length < 2 ^ 31) :
    ∃ received later, Received trace c received later ∧ ∀ std epochToDate channel user, ∃ file,
      x.protocol.summarizeEmergencyChannel std epochToDate true channel user = some file ∧
        Summarizes epochToDate channel (reportsOf channel user received) file := by
  obtain ⟨received, later, hreceived⟩ := received_run h hclean hx
  refine ⟨received, later, hreceived, fun std epochToDate channel user => ?_⟩
  have hevents := eventSummary_run h hx channel
  rw [events_of_carried hreceived.handled fun r hr =>
    hreceived.clean r (List.mem_append_left _ hr)] at hevents
  have hfiltered : ((x.protocol.eventSummary.lookup channel).getD []).filter
      (fun event => event.eventOwnerUser = user) =
      (reportsOf channel user received).map fun r => r.event.readBack r.username [nl] := by
    rw [hevents, List.filter_map, List.filter_filter, reportsOf]
    congr 1
    refine List.filter_congr fun r _ => ?_
    show (decide (r.username = user) && decide (r.channel_name = channel)) = _
    rw [Bool.decide_and, Bool.and_comm]
  have hshort : (reportsOf channel user received).length < 2 ^ 31 :=
    Nat.lt_of_le_of_lt (List.length_filter_le _ _) (hreceived.handled.length_eq ▸ hlength)
  obtain ⟨listed, hperm, hsorted, hfile⟩ :=
    summarizeEmergencyChannel_eq _ std epochToDate hfiltered hshort
  refine ⟨_, hfile, listed, hperm, hsorted.imp fun {r r'} hr => ?_, ?_⟩
  · exact (Event.not_before_iff (r.event.readBack r.username [nl])
      (r'.event.readBack r'.username [nl])).mp (by rw [hr]; rfl)
  · simp only [isTrue_readBack (show ascii "active" ≠ ascii "escription" by decide),
      isTrue_readBack (show ascii "forces_arrival_at_scene" ≠ ascii "escription" by decide),
      description_readBack, summaryHead_eq]
    rw [unlines, unlines, List.flatMap_append]
    exact congrArg (_ ++ ·) (reportEntries_eq epochToDate listed)

/-! ## A run -/

/-- A client reports to a channel that it joined, and receives the message. -/
def messageRun : List LinkEvent :=
  joinRun ++ List.replicate 41 (.deliver 1) ++ .command 1 (.report (ascii "t") [fireEvent]) ::
    List.replicate 136 (.deliver 1) ++ [.receive 1, .receive 1]

theorem field_ascii (s : String) (h : colon ∉ ascii s ∧ nl ∉ ascii s ∧ 0 ∉ ascii s) :
    Field (ascii s) := ⟨⟨_, rfl⟩, h⟩

theorem fireEvent_clean : fireEvent.Clean where
  city := field_ascii "Liberty City" (by decide)
  name := field_ascii "Fire" (by decide)
  information e he := by
    cases List.mem_singleton.mp he
    exact ⟨field_ascii "active" (by decide), field_ascii "true" (by decide)⟩
  description := ⟨⟨_, rfl⟩, by decide⟩
  date_time := by decide

theorem messageRun_clean {e : LinkEvent} (h : e ∈ messageRun) : e.Clean := by
  simp only [messageRun, joinRun, List.mem_append, List.mem_cons, List.mem_replicate,
    List.not_mem_nil, or_false] at h
  rcases h with ((((rfl | ⟨-, rfl⟩) | rfl | rfl) | ⟨-, rfl⟩) | rfl | ⟨-, rfl⟩) | rfl | rfl
  · exact field_ascii "u" (by decide)
  · trivial
  · trivial
  · exact ⟨headerText_t, trivial⟩
  · trivial
  · refine ⟨headerText_t, fun event hevent => ?_⟩
    cases List.mem_singleton.mp hevent
    exact fireEvent_clean
  · trivial
  · trivial
  · trivial

/-- The summary is of one event. -/
theorem summary_counts_message : ∃ trace s x received later, runs.Run trace s ∧
    s.peers.lookup 1 = some x ∧ Received trace 1 received later ∧ received.length = 1 ∧ ∃ file,
      x.protocol.summarizeEmergencyChannel .merge to_string true (ascii "t") (ascii "u") = some file ∧
        Summarizes to_string (ascii "t") (reportsOf (ascii "t") (ascii "u") received) file := by
  have hexec : (runs.exec messageRun).any (fun r =>
      decide ((handlesOf "MESSAGE" 1 r.1).length = 1) && (r.2.peers.lookup 1).isSome) = true := by
    decide +kernel
  obtain ⟨trace, s, hr, hl, hs⟩ := System.exists_run_labels messageRun (fun trace s =>
    decide ((handlesOf "MESSAGE" 1 trace).length = 1) && (s.peers.lookup 1).isSome) hexec
  simp only [Bool.and_eq_true, decide_eq_true_eq, Option.isSome_iff_exists] at hs
  obtain ⟨hone, x, hx⟩ := hs
  have hclean : ∀ e ∈ trace, e.2.Clean := fun e he =>
    messageRun_clean (hl ▸ List.mem_map_of_mem he)
  obtain ⟨received, later, hreceived, hsummary⟩ :=
    summary_counts hr hclean hx (by rw [hone]; decide)
  exact ⟨trace, s, x, received, later, hr, hx, hreceived,
    hreceived.handled.length_eq.trans hone, hsummary .merge to_string (ascii "t") (ascii "u")⟩

end Link

end Stomp
