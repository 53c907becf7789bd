import Stomp.Replies

/-!
# What the client reads of the server's frames

A frame is handed out for one of four reasons. Only the ERROR has a second NUL, after which the
client reads a message with no command.
-/

open Stomp.Split Stomp.Client
open Stomp.Utf8 (Bytes encode_append decode_encode)

namespace Stomp

open StompMessagingProtocolImpl Replies

/-! ## The texts of errors -/

/-- An ERROR is for the frame `f`, and its text has no NUL. -/
def Told (f : StompFrame) : Call → Prop
  | .send _ msg => msg.command = "ERROR".toList →
    ∃ reason, '\x00' ∉ reason ∧ msg = errorFrame reason (f.getHeader receiptKey) f
  | _ => True

section Told

variable {p q : StompMessagingProtocolImpl} {f : StompFrame} {reason : Text}

theorem told_sendError (h : '\x00' ∉ reason) :
    (sendError p reason (f.getHeader receiptKey) f).Calls (Told f) :=
  ⟨fun _ => ⟨reason, h, rfl⟩, fun _ => ⟨trivial, fun _ => trivial⟩⟩

theorem told_sendReceipt (receiptId : Option Text) :
    (sendReceiptIfRequested q receiptId).Calls (Told f) := by
  cases receiptId with
  | none => trivial
  | some r => exact ⟨fun h => absurd h (by show "RECEIPT".toList ≠ _; decide), fun _ => trivial⟩

theorem told_removeSubscriptions (topics : List Text) :
    (removeSubscriptions q topics).Calls (Told f) := by
  induction topics with
  | nil => trivial
  | cons topic topics ih => exact ⟨trivial, fun _ => ih⟩

theorem told_sendMessages (topic body : Text) (messageId : Int)
    (entries : List ((_ : ConnectionId) × Int)) :
    (sendMessages topic messageId body entries).Calls (Told f) := by
  induction entries with
  | nil => trivial
  | cons e entries ih =>
    exact ⟨fun h => absurd h (by show "MESSAGE".toList ≠ _; decide), fun _ => ih⟩

theorem zero_not_mem_append {s t : Text} (hs : '\x00' ∉ s) (ht : '\x00' ∉ t) : '\x00' ∉ s ++ t := by
  simp [hs, ht]

theorem told_handleConnect (hf : f.NoNul) : (handleConnect p f).Calls (Told f) := by
  unfold handleConnect
  split
  · exact told_sendError (by decide)
  dsimp only
  split
  · next login passcode _ _ hlogin _ _ =>
    refine ⟨trivial, fun active => Prog.calls_ite (fun _ => told_sendError (by decide)) fun _ => ?_⟩
    refine ⟨trivial, fun authenticated => Prog.calls_ite (fun _ => told_sendError ?_) fun _ => ?_⟩
    · exact zero_not_mem_append (by decide) (hf.value _ _ hlogin)
    · exact ⟨trivial, fun _ => ⟨fun h => absurd h (by decide), fun _ => told_sendReceipt _⟩⟩
  · exact told_sendError (by decide)

theorem told_handleDisconnect : (handleDisconnect p f).Calls (Told f) := by
  unfold handleDisconnect
  split
  · exact told_sendError (by decide)
  rw [Prog.op_bind]
  refine ⟨trivial, fun _ => Prog.calls_bind (told_removeSubscriptions _) fun _ => ?_⟩
  rw [Prog.op_bind]
  exact ⟨trivial, fun _ => Prog.calls_bind (told_sendReceipt _) fun _ => ⟨trivial, fun _ => trivial⟩⟩

theorem told_handleSubscribe (hf : f.NoNul) : (handleSubscribe p f).Calls (Told f) := by
  unfold handleSubscribe
  split
  · exact told_sendError (by decide)
  split
  · next hid =>
    split
    · exact told_sendError (zero_not_mem_append (by decide) (hf.value _ _ hid))
    · exact ⟨trivial, fun _ => ⟨trivial, fun _ => told_sendReceipt _⟩⟩
  · exact told_sendError (by decide)

theorem told_handleUnsubscribe (hf : f.NoNul) : (handleUnsubscribe p f).Calls (Told f) := by
  unfold handleUnsubscribe
  split
  · exact told_sendError (by decide)
  split
  · exact told_sendError (by decide)
  next hid =>
  split
  · exact told_sendError (zero_not_mem_append (by decide) (hf.value _ _ hid))
  split
  · exact told_sendError (by decide)
  · exact ⟨trivial, fun _ => ⟨trivial, fun _ => told_sendReceipt _⟩⟩

theorem told_handleSend (hf : f.NoNul) : (handleSend p f).Calls (Told f) := by
  unfold handleSend
  split
  · exact told_sendError (by decide)
  split
  · exact told_sendError (by decide)
  next hdest =>
  split
  · exact told_sendError (zero_not_mem_append (zero_not_mem_append (by decide)
      (hf.value _ _ hdest)) (by decide))
  · exact ⟨trivial, fun _ => ⟨trivial, fun _ => told_sendMessages _ _ _ _⟩⟩

theorem told_process (hf : f.NoNul) : (p.process f).Calls (Told f) := by
  unfold StompMessagingProtocolImpl.process
  split
  · exact told_handleConnect hf
  split
  · exact told_handleSend hf
  split
  · exact told_handleSubscribe hf
  split
  · exact told_handleUnsubscribe hf
  split
  · exact told_handleDisconnect
  · exact told_sendError (zero_not_mem_append (by decide) hf.command)

end Told

/-! ## The reasons to hand out a frame -/

namespace Server

theorem run_calls {P : Call → Prop} {h : Handler} (hP : h.Calls P) (s : Server) (out : List Sent) :
    ∀ x ∈ (h.run answer (s, out)).2.2, x ∈ out ∨ P (.send x.connectionId x.msg) := by
  induction h generalizing s out with
  | ret a => exact fun x hx => .inl hx
  | call k next ih =>
    intro x hx
    rcases ih _ (hP.2 _) _ _ x hx with hx | hx
    · cases k with
      | send c msg =>
        rcases List.mem_append.mp hx with hx | hx
        · exact .inl hx
        · rw [List.mem_singleton.mp hx]
          exact .inr hP.1
      | _ => exact .inl hx
    · exact .inr hx

theorem exec_calls {P : Call → Prop} {h : Handler} (hP : h.Calls P) (s : Server) :
    ∀ x ∈ (s.exec h).2, P (.send x.connectionId x.msg) := by
  intro x hx
  rcases run_calls hP s [] x hx with hx | hx
  · cases hx
  · exact hx

/-- Every frame that processing hands out. -/
inductive Answers (s : Server) (p : Session) (f : StompFrame) : Sent → Prop
  | error {reason : Text} (h0 : '\x00' ∉ reason) :
    Answers s p f (s.sent p.connectionId (errorFrame reason (f.getHeader receiptKey) f))
  | connected {login passcode : Text} (h : Connects s.connections p f login passcode) :
    Answers s p f (s.sent p.connectionId connectedFrame)
  | receipt {r : Text} (hr : f.getHeader receiptKey = some r) (ha : Accepts s.connections p f) :
    Answers s p f (s.sent p.connectionId (receiptFrame r))
  | message {topic : Text} (h : Sends p f topic) (c : ConnectionId) (id messageId : Int) :
    Answers s p f (s.sent c (messageFrame topic id messageId f.body))

theorem receipts_answers {s : Server} {p : Session} {f : StompFrame}
    (ha : Accepts s.connections p f) : ∀ x ∈ s.receipts p.connectionId f, Answers s p f x := by
  intro x hx
  obtain ⟨r, hr, rfl⟩ := List.mem_map.mp hx
  exact .receipt (Option.mem_toList.mp hr) ha

theorem process_answers {s : Server} {c : ConnectionId} {p : Session} {f : StompFrame}
    (hp : s.sessions.lookup c = some p) (hf : f.NoNul) :
    ∀ x ∈ (s.process c f).2, Answers s p f x := by
  intro x hx
  rw [process_of_session f hp] at hx
  have htold := exec_calls (told_process (p := p) hf) s x hx
  have ho := process_outcome s p f
  generalize s.exec (p.process f) = r at ho hx
  cases ho with
  | refused reason hno =>
    obtain rfl := List.mem_singleton.mp hx
    obtain ⟨reason', h0, heq⟩ := htold rfl
    show Answers s p f ⟨p.connectionId, errorFrame reason (f.getHeader receiptKey) f, _⟩
    rw [show errorFrame reason (f.getHeader receiptKey) f = _ from heq]
    exact .error h0
  | connect h =>
    rcases List.mem_cons.mp hx with rfl | hx
    · exact .connected h
    · exact receipts_answers (.connect h) x hx
  | subscribe h => exact receipts_answers (.subscribe h) x hx
  | unsubscribe h => exact receipts_answers (.unsubscribe h) x hx
  | send h =>
    obtain ⟨e, -, rfl⟩ := List.mem_map.mp hx
    exact .message h _ _ _
  | disconnect h => exact receipts_answers (.disconnect h) x hx

theorem process_delivered (s : Server) (c : ConnectionId) (f : StompFrame) :
    ∀ x ∈ (s.process c f).2, x.delivered = s.connections.isRegistered x.connectionId := by
  intro x hx
  cases hp : s.sessions.lookup c with
  | none => simp [Server.process, hp] at hx
  | some p =>
    rw [process_of_session f hp] at hx
    have hreceipts : x ∈ s.receipts p.connectionId f →
        x.delivered = s.connections.isRegistered x.connectionId := by
      intro hx
      obtain ⟨r, -, rfl⟩ := List.mem_map.mp hx
      rfl
    have ho := process_outcome s p f
    generalize s.exec (p.process f) = r at ho hx
    cases ho with
    | refused reason hno =>
      obtain rfl := List.mem_singleton.mp hx
      rfl
    | connect h =>
      rcases List.mem_cons.mp hx with rfl | hx
      · rfl
      · exact hreceipts hx
    | subscribe h => exact hreceipts hx
    | unsubscribe h => exact hreceipts hx
    | send h =>
      obtain ⟨e, -, rfl⟩ := List.mem_map.mp hx
      rfl
    | disconnect h => exact hreceipts hx

end Server

/-! ## What the client reads -/

open StompMessageEncoderDecoder (encode)

/-- The messages that the client reads of a frame. -/
def messagesOf (g : StompFrame) : List StompProtocol.Parsed := (pieces 0 (encode g)).map StompProtocol.parse

theorem messagesOf_noNul {g : StompFrame} (h : g.NoNul) :
    messagesOf g = [StompProtocol.parse (frameBytes g)] := by
  rw [messagesOf, encode_eq, pieces_cons _ _ _ ((frameBytes_clean g).mpr h), pieces_nil]
  rfl

theorem parse_command {command rest : Bytes} (h : nl ∉ command) :
    (StompProtocol.parse (command ++ nl :: rest)).command = command := by
  simp only [StompProtocol.parse, getline_line nl command rest h, Option.getD_some]

theorem parse_frameBytes_command {g : StompFrame} (h : '\n' ∉ g.command) :
    (StompProtocol.parse (frameBytes g)).command = Utf8.encode g.command :=
  parse_command (by rwa [Framing.nl_mem_encode])

theorem messagesOf_wellFormed {g : StompFrame} (h : g.WellFormed) :
    ∃ m, messagesOf g = [m] ∧ m.command = Utf8.encode g.command ∧
      (∀ k v, m.headers.lookup k = some v ↔
        ∃ a b, k = Utf8.encode a ∧ v = Utf8.encode b ∧ g.getHeader a = some b) ∧
      m.body = Utf8.encode (Framing.bodyText g) := by
  have hclean : g.NoNul := ⟨h.command.2, fun k v hk => (h.key k v hk).1.2,
    fun k v hk => (h.value k v hk).2, h.body⟩
  obtain ⟨m, hm, hread⟩ := Framing.clientReads_spec g h
  rw [Framing.clientReads, encode_eq,
    getFrameAscii_frame [] _ [] ((frameBytes_clean g).mpr hclean)] at hm
  cases hm
  exact ⟨_, messagesOf_noNul hclean, hread⟩

theorem messagesOf_connectedFrame : ∃ m, messagesOf connectedFrame = [m] ∧
    m.command = ascii "CONNECTED" :=
  ⟨_, messagesOf_noNul noNul_connectedFrame, parse_frameBytes_command (by decide)⟩

theorem messagesOf_messageFrame {topic body : Text} (id messageId : Int) (ht : '\x00' ∉ topic)
    (hb : '\x00' ∉ body) :
    ∃ m, messagesOf (messageFrame topic id messageId body) = [m] ∧ m.command = ascii "MESSAGE" :=
  ⟨_, messagesOf_noNul (noNul_messageFrame id messageId ht hb),
    parse_frameBytes_command (by show '\n' ∉ "MESSAGE".toList; decide)⟩

theorem messagesOf_receiptFrame {r : Text} (h : '\x00' ∉ r) :
    ∃ m, messagesOf (receiptFrame r) = [m] ∧ m.command = ascii "RECEIPT" :=
  ⟨_, messagesOf_noNul (noNul_receiptFrame h),
    parse_frameBytes_command (by show '\n' ∉ "RECEIPT".toList; decide)⟩

theorem receiptFrame_wellFormed {r : Text} (h : StompFrame.Line r) : (receiptFrame r).WellFormed := by
  have hheader : ∀ k v, (receiptFrame r).headers.lookup k = some v →
      k = "receipt-id".toList ∧ v = r := by
    intro k v hkv
    cases List.mem_singleton.mp ((Table.mem_entries_iff _ _ _).mpr hkv)
    exact ⟨rfl, rfl⟩
  refine ⟨by show StompFrame.Line "RECEIPT".toList; unfold StompFrame.Line; decide,
    fun k v hkv => ?_, fun k v hkv => ?_, List.not_mem_nil⟩
  · rw [(hheader k v hkv).1]
    unfold StompFrame.Line
    decide
  · rw [(hheader k v hkv).2]
    exact h

theorem messagesOf_receiptFrame_id {r : Text} (h : StompFrame.Line r) :
    ∃ m, messagesOf (receiptFrame r) = [m] ∧ m.command = ascii "RECEIPT" ∧
      m.headers.lookup (ascii "receipt-id") = some (Utf8.encode r) := by
  obtain ⟨m, hm, hcommand, hheader, -⟩ := messagesOf_wellFormed (receiptFrame_wellFormed h)
  exact ⟨m, hm, hcommand, (hheader _ _).mpr ⟨"receipt-id".toList, r, rfl, rfl, rfl⟩⟩

theorem messageFrame_wellFormed {topic body : Text} (id messageId : Int) (ht : StompFrame.Line topic)
    (hb : '\x00' ∉ body) : (messageFrame topic id messageId body).WellFormed := by
  have hnumber : ∀ n : Int, StompFrame.Line (Decimal.valueOf n) := fun n =>
    ⟨fun h => by rcases Decimal.mem_valueOf n _ h with h | h <;> revert h <;> decide,
      zero_not_mem_valueOf n⟩
  have hheader : ∀ k v, (messageFrame topic id messageId body).headers.lookup k = some v →
      (k, v) ∈ [("destination".toList, topic), ("subscription".toList, Decimal.valueOf id),
        ("message-id".toList, Decimal.valueOf messageId)] :=
    fun k v => (Table.lookup_ofPairs _ (by
      show ["destination".toList, "subscription".toList, "message-id".toList].Nodup
      decide) k v).mp
  refine ⟨by show StompFrame.Line "MESSAGE".toList; unfold StompFrame.Line; decide,
    fun k v hkv => ?_, fun k v hkv => ?_, hb⟩
  · have hkv := hheader k v hkv
    simp only [List.mem_cons, Prod.mk.injEq, List.not_mem_nil, or_false] at hkv
    rcases hkv with ⟨rfl, -⟩ | ⟨rfl, -⟩ | ⟨rfl, -⟩ <;> (unfold StompFrame.Line; decide)
  · have hkv := hheader k v hkv
    simp only [List.mem_cons, Prod.mk.injEq, List.not_mem_nil, or_false] at hkv
    rcases hkv with ⟨-, rfl⟩ | ⟨-, rfl⟩ | ⟨-, rfl⟩
    · exact ht
    · exact hnumber _
    · exact hnumber _

theorem destination_messageFrame (topic body : Text) (id messageId : Int) :
    (messageFrame topic id messageId body).getHeader "destination".toList = some topic :=
  (Table.lookup_ofPairs _ (by
    show ["destination".toList, "subscription".toList, "message-id".toList].Nodup
    decide) _ _).mpr List.mem_cons_self

theorem messagesOf_messageFrame_body {topic body : Text} (id messageId : Int)
    (ht : StompFrame.Line topic) (hb : '\x00' ∉ body) (hne : body ≠ []) :
    ∃ m, messagesOf (messageFrame topic id messageId body) = [m] ∧ m.command = ascii "MESSAGE" ∧
      m.headers.lookup (ascii "destination") = some (Utf8.encode topic) ∧
      m.body = Utf8.encode body ++ [nl] := by
  -- The client finds the channel of a message in its header, and gets the body with one end of line
  -- more.
  obtain ⟨m, hm, hcommand, hheader, hbody⟩ :=
    messagesOf_wellFormed (messageFrame_wellFormed id messageId ht hb)
  refine ⟨m, hm, hcommand, (hheader _ _).mpr
    ⟨_, topic, rfl, rfl, destination_messageFrame topic body id messageId⟩, ?_⟩
  have hempty : ¬ (messageFrame topic id messageId body).body.isEmpty = true :=
    fun h => hne (List.isEmpty_iff.mp h)
  rw [hbody, Framing.bodyText, if_neg hempty, encode_append]
  rfl

/-! ## The two messages of an ERROR -/

theorem layout_append (command rest : Bytes) (headers : List ((_ : Bytes) × Bytes)) :
    HeaderLines.layout nl colon command headers rest =
      HeaderLines.layout nl colon command headers [] ++ rest := by
  simp [HeaderLines.layout]

theorem cleanHeaders_errorFrame {reason : Text} {receiptId : Option Text} (f : StompFrame)
    (h0 : '\x00' ∉ reason) (hr : ∀ r ∈ receiptId, '\x00' ∉ r) :
    StompFrame.CleanHeaders (errorFrame reason receiptId f).headers := by
  have hone : StompFrame.CleanHeaders (Table.ofPairs [("message".toList, ' ' :: reason)]) := by
    refine cleanHeaders_ofPairs _ fun e he => ?_
    rw [List.mem_singleton.mp he]
    have hkey : '\x00' ∉ "message".toList := by decide
    exact ⟨hkey, by simp [h0]⟩
  cases receiptId with
  | none => exact hone
  | some r => exact StompFrame.cleanHeaders_insert hone (by decide) (hr r rfl)

/-- What stands before and after the refused frame in the body of an ERROR. -/
def errorHead : Bytes := ascii "The message:\n" ++ ascii "-----\n"

def errorTail (reason : Text) : Bytes :=
  ascii "-----\n" ++ (ascii "Reason: " ++ (Utf8.encode reason ++ [nl]))

theorem messagesOf_errorFrame {reason : Text} {receiptId : Option Text} {f : StompFrame}
    (h0 : '\x00' ∉ reason) (hr : ∀ r ∈ receiptId, '\x00' ∉ r) (hf : f.NoNul) :
    ∃ m m', messagesOf (errorFrame reason receiptId f) = [m, m'] ∧ m.command = ascii "ERROR" ∧
      m'.command = [] := by
  -- The NUL of the refused frame ends the ERROR, and what follows it has no command.
  let g : StompFrame := { errorFrame reason receiptId f with body := [] }
  have hhead : 0 ∉ frameBytes g := (frameBytes_clean g).mpr ((StompFrame.noNul_iff g).mpr
    ⟨by show '\x00' ∉ "ERROR".toList; decide, cleanHeaders_errorFrame f h0 hr, List.not_mem_nil⟩)
  have hbody : Utf8.encode (Framing.bodyText (errorFrame reason receiptId f)) =
      errorHead ++ frameBytes f ++ 0 :: nl :: errorTail reason := by
    have hne : (errorBody reason f).isEmpty ≠ true := fun h =>
      List.ne_nil_of_mem (zero_mem_errorBody reason f) (List.isEmpty_iff.mp h)
    have hsame : Utf8.encode f.toString = frameBytes f ++ [0] := encode_eq f
    have hbody : (errorFrame reason receiptId f).body = errorBody reason f := rfl
    rw [Framing.bodyText, hbody, if_neg hne]
    unfold errorBody errorHead errorTail ascii
    simp only [encode_append, hsame, List.append_assoc]
    rfl
  have hwire : encode (errorFrame reason receiptId f) =
      (frameBytes g ++ (errorHead ++ frameBytes f)) ++ 0 :: ((nl :: errorTail reason) ++ [0]) := by
    rw [encode_eq, frameBytes, layout_append, hbody]
    simp [frameBytes, Framing.bodyText, g]
  have hfirst : 0 ∉ frameBytes g ++ (errorHead ++ frameBytes f) := by
    have hrefused := (frameBytes_clean f).mpr hf
    have hlead : 0 ∉ errorHead := by decide
    simp [hhead, hrefused, hlead]
  have hsecond : 0 ∉ nl :: errorTail reason := by
    have hlead : 0 ∉ ascii "-----\n" ∧ 0 ∉ ascii "Reason: " := by decide
    have hreason : 0 ∉ Utf8.encode reason := by rwa [Framing.zero_mem_encode]
    have hnl : 0 ≠ nl := by decide
    simp [errorTail, hlead, hreason, hnl]
  refine ⟨StompProtocol.parse (frameBytes g ++ (errorHead ++ frameBytes f)),
    StompProtocol.parse (nl :: errorTail reason), ?_, ?_, parse_command List.not_mem_nil⟩
  · rw [messagesOf, hwire, pieces_cons _ _ _ hfirst, pieces_cons _ _ _ hsecond, pieces_nil]
    rfl
  · rw [frameBytes, HeaderLines.layout, List.append_assoc, List.cons_append]
    exact parse_command (by show nl ∉ ascii "ERROR"; decide)

end Stomp
