import Stomp.Summaries
import Stomp.Client.Layout

/-!
# The blocks of a summary

A client lists the events of the messages that it received. Each was made of a report, which the
server relayed and the client read.
-/

open Stomp.Split Stomp.Utf8 Stomp.Client

namespace Stomp

open StompMessageEncoderDecoder StompMessagingProtocolImpl

namespace Report

/-- The message that a client reads of the frame that the server makes of the body of a report. -/
def Relayed (r : Report) (m : StompProtocol.Parsed) : Prop :=
  ∃ topic id messageId, StompFrame.Line topic ∧
    messagesOf (messageFrame topic id messageId (Utf8.decode (reportBody r.username r.event))) = [m]

/-- The user is any word. -/
structure SingleLine (r : Report) : Prop where
  breaks : r.event.NoBreaks r.username
  texts : r.event.ValidTexts
  noNul : 0 ∉ r.username ∧ r.event.NoNul

/-! ## The body of a message -/

theorem encode_decode_reportBody (username : Bytes) {event : Event} (h : event.ValidTexts) :
    Utf8.encode (Utf8.decode (reportBody username event)) =
      reportBody (Utf8.encode (Utf8.decode username)) event := by
  -- Only the name of the user can have changed on the way.
  rw [reportBody_user, reportBody_user, encode_decode_append_ascii _ _ (by decide),
    encode_decode_append_ascii _ _ (by decide), Framing.encode_decode (valid_reportRest h),
    Framing.encode_decode (valid_ascii "user")]

theorem SingleLine.body {r : Report} {m : StompProtocol.Parsed} (h : r.SingleLine) (hm : r.Relayed m) :
    m.body = reportBody (Utf8.encode (Utf8.decode r.username)) r.event ++ [nl] := by
  obtain ⟨topic, id, messageId, ht, hm⟩ := hm
  have h0 : '\x00' ∉ Utf8.decode (reportBody r.username r.event) := fun hzero =>
    zero_not_mem_reportBody h.noNul.1 h.noNul.2 (mem_decode_ascii '\x00' (by decide) _ hzero)
  have hne : Utf8.decode (reportBody r.username r.event) ≠ [] := by
    rw [Ne, decode_eq_nil_iff]
    exact fun hnil => absurd hnil (List.cons_ne_nil _ _)
  obtain ⟨m', hm', -, -, hbody⟩ := messagesOf_messageFrame_body id messageId ht h0 hne
  obtain rfl := List.singleton_inj.mp (hm.symm.trans hm')
  rw [hbody, encode_decode_reportBody _ h.texts]

theorem SingleLine.noBreaks {r : Report} (h : r.SingleLine) :
    r.event.NoBreaks (Utf8.encode (Utf8.decode r.username)) where
  user hm := h.breaks.user (mem_decode_ascii '\n' (by decide) _ ((Framing.nl_mem_encode _).mp hm))
  city := h.breaks.city
  name := h.breaks.name
  description := h.breaks.description

end Report

theorem Report.Clean.singleLine {r : Report} (h : r.Clean) (hd : nl ∉ r.event.description) :
    r.SingleLine where
  breaks := ⟨h.username.2.2.1, h.event.city.2.2.1, h.event.name.2.2.1, hd⟩
  texts := h.event.validTexts
  noNul := ⟨h.username.2.2.2, h.noNul⟩

namespace Link

/-- The block of an event in the file. -/
def block (localtime : Int → Tm) (i : Nat) (event : Event) : Bytes :=
  reportEntry (epochToDate localtime) (i + 1) event.city event.date_time event.name event.description

/-- The block has its five lines, with the reported description in the last one. -/
def BlockLaidOut (localtime : Int → Tm) (i : Nat) (reported event : Event) : Prop :=
  LaidOut (i + 1) event.city (epochToDate localtime event.date_time) event.name
    (shown reported.description) (block localtime i event)

/-- The event of a message that a report was relayed in. -/
def StoredOf (channel : Bytes) (ms : List StompProtocol.Parsed) (r : Report) (event : Event) : Prop :=
  ∃ m ∈ ms, r.Relayed m ∧ eventIn channel m = some event

theorem StoredOf.laidOut_iff {channel : Bytes} {ms : List StompProtocol.Parsed} {r : Report}
    {event : Event} (h : StoredOf channel ms r event) (hr : r.SingleLine) (localtime : Int → Tm)
    (i : Nat) : BlockLaidOut localtime i r.event event ↔ r.event.Fits := by
  obtain ⟨m, -, hm, hevent⟩ := h
  have hread : Event.ofBody m.body = some event := by
    rw [eventIn] at hevent
    split at hevent
    · exact hevent
    · cases hevent
  rw [hr.body hm] at hread
  exact laidOut_iff_fits hr.noBreaks hread (i + 1) localtime

section Run

variable {trace : List (Link × LinkEvent)} {s : Link} {c : ConnectionId} {x : Peer}

/-- In a clean run every stored event is that of a report. -/
theorem stored_of_clean (h : runs.Run trace s) (hclean : ∀ e ∈ trace, e.2.Clean)
    (hx : s.peers.lookup c = some x) {channel : Bytes} {event : Event}
    (hevent : event ∈ (x.protocol.eventSummary.lookup channel).getD []) :
    ∃ r ∈ trace.flatMap reports, r.Clean ∧ StoredOf channel (handlesOf "MESSAGE" c trace) r event := by
  rw [eventSummary_run h hx channel] at hevent
  obtain ⟨m, hm, hevent⟩ := List.mem_filterMap.mp hevent
  have hsent : m ∈ (handsOf "MESSAGE" c trace).flatMap fun e => messagesOf e.msg := by
    rw [messages_of h hx (by decide) (by decide)]
    exact List.mem_append_left _ hm
  obtain ⟨e, he, hme⟩ := List.mem_flatMap.mp hsent
  obtain ⟨r, hr, hrclean, -, hout, topic, id, messageId, hmsg, ht, hnul⟩ := sent_of_hands h hclean he
  obtain ⟨g, hg, -, -, hbody⟩ := hrclean.reads
  cases hg.symm.trans hout
  obtain ⟨m', hm', -⟩ := hrclean.carried hout ht hnul id messageId
  rw [hmsg, hm'] at hme
  obtain rfl := List.mem_singleton.mp hme
  refine ⟨r, hr, hrclean, m, hm, ⟨topic, id, messageId, (hrclean.topic hout ht).1, ?_⟩, hevent⟩
  rw [← hbody, decode_encode]
  exact hm'

/-- The file lists the events that the client stored for a channel and a user. -/
structure Lists (x : Peer) (std : EventSort) (localtime : Int → Tm) (channel user : Bytes)
    (listed : List Event) : Prop where
  perm : listed.Perm (((x.protocol.eventSummary.lookup channel).getD []).filter
    fun event => event.eventOwnerUser = user)
  file : ∃ active forces,
    x.protocol.summarizeEmergencyChannel std (epochToDate localtime) true channel user =
      some (summaryHead channel listed.length active forces ++
        (listed.mapIdx (block localtime)).flatten)

theorem exists_lists (x : Peer) (std : EventSort) (localtime : Int → Tm) (channel user : Bytes) :
    ∃ listed, Lists x std localtime channel user listed := by
  obtain ⟨listed, hperm, -, hfile⟩ := summarizeEmergencyChannel_lists id std (epochToDate localtime)
    (List.map_id (((x.protocol.eventSummary.lookup channel).getD []).filter
      fun event => event.eventOwnerUser = user)).symm
  exact ⟨listed, hperm, _, _, hperm.length_eq ▸ hfile⟩

/-- Each listed event was stored from a message. If the message is of a report of single lines, the
block is laid out exactly when the reported event fits. -/
theorem summary_layout (h : runs.Run trace s) (hx : s.peers.lookup c = some x) (std : EventSort)
    (localtime : Int → Tm) (channel user : Bytes) :
    ∃ listed, Lists x std localtime channel user listed ∧
      ∀ i event, listed[i]? = some event →
        (∃ m ∈ handlesOf "MESSAGE" c trace, eventIn channel m = some event) ∧
        ∀ r : Report, r.SingleLine → StoredOf channel (handlesOf "MESSAGE" c trace) r event →
          (BlockLaidOut localtime i r.event event ↔ r.event.Fits) := by
  obtain ⟨listed, hlists⟩ := exists_lists x std localtime channel user
  refine ⟨listed, hlists, fun i event hi => ⟨?_, fun r hr hstored => hstored.laidOut_iff hr localtime i⟩⟩
  have hstored := (List.mem_filter.mp (hlists.perm.mem_iff.mp (List.mem_of_getElem? hi))).1
  rw [eventSummary_run h hx channel] at hstored
  exact List.mem_filterMap.mp hstored

end Run

/-! ## A run -/

/-- The client of `messageRun` reports this event. Its own bytes are all delivered, and it receives
the RECEIPT and the message. -/
def deliveryRun (event : Event) (bytes : Nat) : List LinkEvent :=
  joinRun ++ List.replicate 41 (.deliver 1) ++ .command 1 (.report (ascii "t") [event]) ::
    List.replicate bytes (.deliver 1) ++ [.receive 1, .receive 1]

def fireWith (description : String) : Event := { fireEvent with description := ascii description }

/-- A message with its headers as a list, which can be compared. -/
def entriesOf (m : StompProtocol.Parsed) : Bytes × List ((_ : Bytes) × Bytes) × Bytes :=
  (m.command, m.headers.entries, m.body)

theorem entriesOf_injective : Function.Injective entriesOf := by
  intro m m' h
  simp only [entriesOf, Prod.mk.injEq] at h
  obtain ⟨hcommand, hheaders, hbody⟩ := h
  cases m
  cases m'
  rw [StompProtocol.Parsed.mk.injEq]
  exact ⟨hcommand, AList.ext hheaders, hbody⟩

/-- One relayed message was handled, and its event was stored for its user. -/
def storesReport (event : Event) (trace : List (Link × LinkEvent)) (s : Link) : Bool :=
  decide ((handlesOf "MESSAGE" 1 trace).length = 1) &&
  decide ((messagesOf (messageFrame "t".toList 0 1
    (Utf8.decode (reportBody (ascii "u") event)))).map entriesOf =
      (handlesOf "MESSAGE" 1 trace).map entriesOf) &&
  (s.peers.lookup 1).any fun x =>
    decide (((x.protocol.eventSummary.lookup (ascii "t")).getD []).map (·.eventOwnerUser) = [ascii "u"])

theorem exists_deliveryRun (event : Event) (bytes : Nat)
    (hexec : (runs.exec (deliveryRun event bytes)).any (fun r => storesReport event r.1 r.2) = true) :
    ∃ trace s x stored, runs.Run trace s ∧ trace.map (·.2) = deliveryRun event bytes ∧
      s.peers.lookup 1 = some x ∧
      (((x.protocol.eventSummary.lookup (ascii "t")).getD []).filter
        fun event => event.eventOwnerUser = ascii "u") = [stored] ∧
      StoredOf (ascii "t") (handlesOf "MESSAGE" 1 trace) ⟨1, ascii "u", ascii "t", event⟩ stored := by
  obtain ⟨trace, s, hr, hl, hs⟩ := System.exists_run_labels _ (storesReport event) hexec
  simp only [storesReport, Bool.and_eq_true, decide_eq_true_eq, Option.any_eq_true] at hs
  obtain ⟨⟨hone, hrelayed⟩, x, hx, howner⟩ := hs
  obtain ⟨m, hm⟩ := List.length_eq_one_iff.mp hone
  obtain ⟨stored, hstored, howner⟩ := List.map_eq_singleton_iff.mp howner
  have hevent := eventSummary_run hr hx (ascii "t")
  rw [hstored, hm] at hevent
  have hin : stored ∈ [m].filterMap (eventIn (ascii "t")) := hevent ▸ List.mem_singleton_self _
  obtain ⟨m', hm', hread⟩ := List.mem_filterMap.mp hin
  obtain rfl := List.mem_singleton.mp hm'
  have hrelayed := (List.map_injective_iff.mpr entriesOf_injective hrelayed).trans hm
  refine ⟨trace, s, x, stored, hr, hl, hx, ?_, m', ?_, ⟨_, 0, 1, line_t, hrelayed⟩, hread⟩
  · rw [hstored, List.filter_cons_of_pos (by simp [howner]), List.filter_nil]
  · rw [hm]
    exact List.mem_singleton_self m'

/-- A date of the zone that the program runs in. -/
def december : Int → Tm := fun _ => ⟨23, 11, 124, 15, 40⟩

theorem fireWith_singleLine {description : String} (hnl : nl ∉ ascii description)
    (h0 : 0 ∉ ascii description) :
    Report.SingleLine ⟨1, ascii "u", ascii "t", fireWith description⟩ := by
  refine Report.Clean.singleLine ⟨field_ascii "u" (by decide), headerText_t, ?_⟩ hnl
  exact ⟨fireEvent_clean.city, fireEvent_clean.name, fireEvent_clean.information, ⟨⟨_, rfl⟩, h0⟩,
    fireEvent_clean.date_time⟩

theorem fireWith_fits_iff (description : String) : (fireWith description).Fits ↔
    (ascii description).length = 27 ∨ 29 ≤ (ascii description).length := by
  refine fits_iff fun e he => ?_
  cases List.mem_singleton.mp he
  decide

/-- A description of 27 bytes. -/
theorem summary_layout_full : ∃ trace s x stored, runs.Run trace s ∧ s.peers.lookup 1 = some x ∧
    Lists x .merge december (ascii "t") (ascii "u") [stored] ∧
    BlockLaidOut december 0 (fireWith "Smoke over the old harbour.") stored := by
  obtain ⟨trace, s, x, stored, hr, -, hx, hone, hstored⟩ :=
    exists_deliveryRun (fireWith "Smoke over the old harbour.") 158 (by decide +kernel)
  obtain ⟨listed, hlists, hlayout⟩ := summary_layout hr hx .merge december (ascii "t") (ascii "u")
  obtain rfl : listed = [stored] := List.perm_singleton.mp (hone ▸ hlists.perm)
  refine ⟨trace, s, x, stored, hr, hx, hlists, ?_⟩
  refine ((hlayout 0 stored rfl).2 _ (fireWith_singleLine (by decide) (by decide)) hstored).mpr ?_
  exact (fireWith_fits_iff _).mpr (by decide)

/-- In some run the block of a report with this description is not laid out. -/
def Misplaced (description : String) : Prop :=
  ∃ trace s x stored, runs.Run trace s ∧ s.peers.lookup 1 = some x ∧
    Lists x .merge december (ascii "t") (ascii "u") [stored] ∧
    StoredOf (ascii "t") (handlesOf "MESSAGE" 1 trace)
      ⟨1, ascii "u", ascii "t", fireWith description⟩ stored ∧
    ¬ BlockLaidOut december 0 (fireWith description) stored

theorem misplaced_of_exec {description : String} (bytes : Nat)
    (hexec : (runs.exec (deliveryRun (fireWith description) bytes)).any
      (fun r => storesReport (fireWith description) r.1 r.2) = true)
    (hnl : nl ∉ ascii description) (h0 : 0 ∉ ascii description)
    (hlength : ¬ ((ascii description).length = 27 ∨ 29 ≤ (ascii description).length)) :
    Misplaced description := by
  obtain ⟨trace, s, x, stored, hr, -, hx, hone, hstored⟩ :=
    exists_deliveryRun (fireWith description) bytes hexec
  obtain ⟨listed, hlists⟩ := exists_lists x .merge december (ascii "t") (ascii "u")
  obtain rfl : listed = [stored] := List.perm_singleton.mp (hone ▸ hlists.perm)
  refine ⟨trace, s, x, stored, hr, hx, hlists, hstored, fun hlaid => hlength ?_⟩
  exact (fireWith_fits_iff _).mp
    ((hstored.laidOut_iff (fireWith_singleLine hnl h0) december 0).mp hlaid)

/-- A short description has line breaks after it, and one of 28 bytes is cut and has no dots. -/
theorem summary_not_laidOut : Misplaced "smoke" ∧ Misplaced "Smoke over the old harbours." := by
  have hshort : Misplaced "smoke" :=
    misplaced_of_exec 136 (by decide +kernel) (by decide) (by decide) (by decide)
  have hcut : Misplaced "Smoke over the old harbours." :=
    misplaced_of_exec 159 (by decide +kernel) (by decide) (by decide) (by decide)
  exact ⟨hshort, hcut⟩

end Link

end Stomp
