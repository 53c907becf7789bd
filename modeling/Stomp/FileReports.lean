import Stomp.Client.EventsFile
import Stomp.Layouts

/-!
# The reports of a file

The client sends the events of a file, the server makes messages of each frame, and a client that
handles a message stores the event of an element of the file.
-/

open Stomp.Split Stomp.Utf8 Stomp.Client

namespace Stomp

open StompMessageEncoderDecoder StompMessagingProtocolImpl

variable {F : Type} {fl : Floats F}

theorem Client.Json.Describes.validTexts {j : Json F} {event : Event} (h : j.Describes fl event) :
    event.ValidTexts where
  city := h.city.imp fun _ => And.right
  name := h.name.imp fun _ => And.right
  information e he := by
    obtain ⟨key, v, hkey, hval, -⟩ := h.entry he
    exact ⟨⟨key, hkey⟩, ⟨_, hval⟩⟩
  description := h.description.imp fun _ => And.right

/-- The server reads the frame, and a client that handles a message of it stores the event of the
element. -/
def Reaches (fl : Floats F) (username : Bytes) (channel_name : Text) (j : Json F)
    (frame : Framing.ClientFrame) : Prop :=
  ∃ f e, outcome frame.text = .frame f ∧ f.command = "SEND".toList ∧
    f.getHeader "destination".toList = some channel_name ∧ j.Arrives fl username e ∧
    ∀ id messageId, ∃ m, messagesOf (messageFrame channel_name id messageId f.body) = [m] ∧
      m.command = ascii "MESSAGE" ∧ ∀ q : StompProtocol, q.handleMessage m.headers m.body = some { q with
        eventSummary := q.eventSummary.insert (encode channel_name)
          ((q.eventSummary.lookup (encode channel_name)).getD [] ++ [e]) }

theorem Client.Json.Describes.reaches {j : Json F} {event : Event} (h : j.Describes fl event)
    (hs : j.Sendable) {username : Bytes} (huser : nl ∉ username ∧ 0 ∉ username) {channel_name : Text}
    (hchannel : StompFrame.Line channel_name) :
    Reaches fl (encode (decode username)) channel_name j
      (reportFrame username (encode channel_name) event) := by
  have hbody := zero_not_mem_reportBody huser.2 (h.noNul hs)
  have hread : (reportFrame username (encode channel_name) event).Readable := by
    refine readable_headerMap ⟨⟨_, rfl⟩, by decide⟩ (List.nodup_singleton _) ?_ hbody
    simp only [List.forall_mem_cons]
    exact ⟨⟨⟨⟨⟨_, rfl⟩, by decide⟩, by decide⟩, Json.line_encode hchannel⟩, by simp⟩
  obtain ⟨f, hout, hcommand, hheader, hf⟩ := hread.outcome
  have hdestination : (reportFrame username (encode channel_name) event).headers.lookup
      (encode "destination".toList) = some (encode channel_name) :=
    (lookup_headerMap [(ascii "destination", encode channel_name)] (List.nodup_singleton _) _ _).mpr
      (List.mem_singleton_self _)
  have hline : nl ∉ encode (decode username) := by
    rw [Framing.nl_mem_encode]
    exact nl_not_mem_decode huser.1
  obtain ⟨e, he, harrives⟩ := h.arrives hs hline
  refine ⟨f, e, hout, (encode_injective hcommand).symm, ?_, harrives, fun id messageId => ?_⟩
  · rw [hheader, hdestination, Option.map_some, decode_encode]
  · have hnul : '\x00' ∉ f.body := hf ▸ zero_not_mem_decode hbody
    have hne : f.body ≠ [] := by
      rw [hf, Ne, decode_eq_nil_iff]
      exact fun hnil => absurd hnil (List.cons_ne_nil _ _)
    obtain ⟨m, hm, hmessage, hlookup, hm'⟩ := messagesOf_messageFrame_body id messageId hchannel hnul hne
    refine ⟨m, hm, hmessage, fun q => ?_⟩
    have hofBody : Event.ofBody m.body = some e := by
      rw [hm', hf, ← he]
      exact congrArg (fun bs => Event.ofBody (bs ++ [nl])) (Report.encode_decode_reportBody _ h.validTexts)
    rw [StompProtocol.handleMessage, hlookup]
    simp only [hofBody, Option.map_some]

/-- Each element of a file that can be sent is stored by the clients that get its message, in the
channel of the file. -/
theorem file_reaches (fl : Floats F) {p : StompProtocol} (hp : p.connected = true) {username : Bytes}
    (huser : nl ∉ username ∧ 0 ∉ username) {data : Json F} (hfile : data.IsEventsFile)
    (hchannel : ∀ s, data.Has "channel_name" (.string s) → StompFrame.Line s)
    (hs : ∀ j ∈ (data.member "events").elements, j.Sendable) :
    ∃ channel_name frames, data.Has "channel_name" (.string channel_name) ∧
      p.reportFile fl username data = some (p, frames) ∧
      List.Forall₂ (Reaches fl (encode (decode username)) channel_name)
        (data.member "events").elements frames := by
  obtain ⟨⟨channel_name, events⟩, h⟩ :=
    Option.isSome_iff_exists.mp ((parseEventsFile_isSome_iff fl data).mpr hfile)
  obtain ⟨hname, hevents⟩ := parseEventsFile_some h
  refine ⟨channel_name, events.map (reportFrame username (encode channel_name)), hname, ?_, ?_⟩
  · simp only [StompProtocol.reportFile, StompProtocol.report, hp, h, Option.map_some, Bool.not_true,
      Bool.false_eq_true, if_false]
  · rw [List.forall₂_map_right_iff]
    exact forall₂_imp_mem hevents fun j hj event _ hevent =>
      (readEvent_some hevent).reaches (hs j hj) huser (hchannel _ hname)

theorem items_thefts {j v date_time : Json (Fin 100)} {key : Text}
    (h : (j.member "general_information").item key = some v)
    (hj : j ∈ ((thefts date_time).member "events").elements) :
    (key = "active".toList ∧ v = .boolean true) ∨
      (key = "damage".toList ∧ v = .float 25) := by
  have hm := Json.mem_of_item h
  rw [List.mem_singleton.mp hj] at hm
  change (key, v) ∈ [("active".toList, Json.boolean true),
    ("damage".toList, Json.float 25)] at hm
  simpa only [List.mem_cons, Prod.mk.injEq, List.not_mem_nil, or_false] using hm

theorem thefts_sendable (date_time : Json (Fin 100)) :
    ∀ j ∈ ((thefts date_time).member "events").elements, j.Sendable := by
  intro j hj
  obtain rfl := List.mem_singleton.mp hj
  have hline : ∀ s : String, '\n' ∉ s.toList ∧ '\x00' ∉ s.toList → StompFrame.Line s.toList :=
    fun _ h => h
  refine ⟨?_, ?_, ?_, ?_, ?_⟩
  · rintro s ⟨entries, heq, hlookup⟩
    cases heq
    cases hlookup
    exact hline "Grand Theft Auto" (by decide)
  · rintro s ⟨entries, heq, hlookup⟩
    cases heq
    cases hlookup
    exact hline "Liberty City" (by decide)
  · rintro s ⟨entries, heq, hlookup⟩
    cases heq
    cases hlookup
    decide
  · intro key v hv
    rcases items_thefts hv hj with ⟨rfl, -⟩ | ⟨rfl, -⟩
    · exact ⟨by decide, hline "active" (by decide)⟩
    · exact ⟨by decide, hline "damage" (by decide)⟩
  · intro key s hv
    rcases items_thefts hv hj with ⟨-, hs⟩ | ⟨-, hs⟩ <;> cases hs

theorem file_reaches_thefts : ∃ channel_name frames,
    ({ StompProtocol.initial with connected := true } : StompProtocol).reportFile tenths (ascii "u")
      (thefts (.integer 1734961200)) = some ({ StompProtocol.initial with connected := true }, frames) ∧
    frames.length = 1 ∧ List.Forall₂ (Reaches tenths (encode (decode (ascii "u"))) channel_name)
      ((thefts (.integer 1734961200)).member "events").elements frames := by
  have hfile : (thefts (.integer 1734961200)).IsEventsFile :=
    (parseEventsFile_isSome_iff tenths _).mp (by decide)
  have hchannel : ∀ s, (thefts (.integer 1734961200)).Has "channel_name" (.string s) →
      StompFrame.Line s := by
    rintro s ⟨entries, heq, hlookup⟩
    cases heq
    cases hlookup
    exact show '\n' ∉ "police".toList ∧ '\x00' ∉ "police".toList by decide
  obtain ⟨channel_name, frames, -, hreport, hreaches⟩ := file_reaches tenths
    (p := { StompProtocol.initial with connected := true }) rfl
    (show nl ∉ ascii "u" ∧ 0 ∉ ascii "u" by decide) hfile hchannel (thefts_sendable _)
  exact ⟨channel_name, frames, hreport, hreaches.length_eq.symm, hreaches⟩

end Stomp
