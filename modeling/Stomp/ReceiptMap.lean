import Stomp.Client.Report
import Stomp.History
import Stomp.Base.Forall2

/-!
# The receipts of a client

A command stores the receipt that its frame asks for. The server answers some of these frames, in
their order, and the client finds each receipt where it stored it.
-/

open Stomp.Split Stomp.Utf8 Stomp.Client

namespace Stomp

open StompMessageEncoderDecoder StompMessagingProtocolImpl

namespace Client

open Framing

/-! ## Requests -/

/-- A receipt that a command stores, and the frame that asks for it. -/
structure Request where
  receiptId : Int
  requestType : Bytes
  frame : ClientFrame

namespace Command

def request (p : StompProtocol) : Command → Option Request
  | .join channel =>
    if p.connected = true ∧ p.hasSubscription channel = false then
      some ⟨p.receiptCounter, ascii "Joined channel " ++ channel,
        subscribeFrame channel p.idCounter p.receiptCounter⟩
    else none
  | .exit channel =>
    if p.connected = true ∧ p.getSubscriptionId channel ≠ -1 then
      some ⟨p.receiptCounter, ascii "Exited channel " ++ channel,
        unsubscribeFrame (p.getSubscriptionId channel) p.receiptCounter⟩
    else none
  | .report _ _ => none
  | .logout =>
    if p.connected = true then
      some ⟨p.receiptCounter, ascii "Logout", disconnectFrame p.receiptCounter⟩
    else none

/-- An exit draws a receipt id before it looks whether the channel is joined. -/
def drawsReceipt (p : StompProtocol) : Command → Bool
  | .join channel => p.connected && !p.hasSubscription channel
  | .exit _ => p.connected
  | .report _ _ => false
  | .logout => p.connected

/-- No NUL and no end of line in the names of channels. -/
def ChannelsPlain : Command → Prop
  | .join channel => nl ∉ channel ∧ 0 ∉ channel
  | .exit channel => nl ∉ channel ∧ 0 ∉ channel
  | .report channel_name _ => nl ∉ channel_name ∧ 0 ∉ channel_name
  | .logout => True

/-- What a command does with receipts. -/
inductive Draws (p : StompProtocol) (username : Bytes) (command : Command) :
    StompProtocol × List ClientFrame → Prop
  | request {p' : StompProtocol} {q : Request} (hq : command.request p = some q)
    (hdraws : command.drawsReceipt p = true) (hid : q.receiptId = p.receiptCounter)
    (hmap : p'.receiptMap = p.receiptMap.insert q.receiptId q.requestType)
    (hcounter : p'.receiptCounter = Decimal.wrap (p.receiptCounter + 1)) :
    Draws p username command (p', [q.frame])
  | unused {p' : StompProtocol} (hq : command.request p = none)
    (hdraws : command.drawsReceipt p = true) (hmap : p'.receiptMap = p.receiptMap)
    (hcounter : p'.receiptCounter = Decimal.wrap (p.receiptCounter + 1)) :
    Draws p username command (p', [])
  | report {channel_name : Bytes} {events : List Event} (hcommand : command = .report channel_name events)
    (hconnected : p.connected = true) :
    Draws p username command (p, events.map (reportFrame username channel_name))
  | nothing (hq : command.request p = none) (hdraws : command.drawsReceipt p = false) :
    Draws p username command (p, [])

theorem run_draws (p : StompProtocol) (username : Bytes) (command : Command) :
    Draws p username command (command.run p username) := by
  cases hp : p.connected with
  | false =>
    rw [run_disconnected hp]
    cases command <;> exact .nothing (by simp [request, hp]) (by simp [drawsReceipt, hp])
  | true =>
    cases command with
    | join channel =>
      cases hs : p.hasSubscription channel with
      | true =>
        simp only [run, StompProtocol.join, hp, hs]
        exact .nothing (by simp [request, hs]) (by simp [drawsReceipt, hs])
      | false =>
        have hq : (join channel).request p = some _ := if_pos ⟨hp, hs⟩
        have hdraws : (join channel).drawsReceipt p = true := by simp [drawsReceipt, hp, hs]
        simp only [run, StompProtocol.join, hp, hs]
        exact .request hq hdraws rfl rfl rfl
    | exit channel =>
      have hdraws : (exit channel).drawsReceipt p = true := hp
      by_cases hid : p.getSubscriptionId channel = -1
      · have hrun : p.exit channel = (p.getNextReceiptId.2, []) := by
          simp only [StompProtocol.exit, hp, StompProtocol.getNextReceiptId]
          exact if_pos hid
        rw [run, hrun]
        exact .unused (if_neg fun h => h.2 hid) hdraws rfl rfl
      · have hq : (exit channel).request p = some _ := if_pos ⟨hp, hid⟩
        have hrun : p.exit channel = ((p.getNextReceiptId.2.removeSubscription channel).storeReceipt
            p.receiptCounter (ascii "Exited channel " ++ channel),
              [unsubscribeFrame (p.getSubscriptionId channel) p.receiptCounter]) := by
          simp only [StompProtocol.exit, hp, StompProtocol.getNextReceiptId]
          exact if_neg hid
        rw [run, hrun]
        exact .request hq hdraws rfl rfl rfl
    | report channel_name events =>
      simp only [run, StompProtocol.report, hp]
      exact .report rfl hp
    | logout =>
      have hq : logout.request p = some _ := if_pos hp
      have hdraws : logout.drawsReceipt p = true := hp
      simp only [run, StompProtocol.logout, hp]
      exact .request hq hdraws rfl rfl rfl

theorem waits_iff (p : StompProtocol) (command : Command) :
    command.waits p = true ↔ ∃ q, command.request p = some q ∧ q.requestType = ascii "Logout" := by
  cases command with
  | join channel =>
    refine iff_of_false nofun ?_
    rintro ⟨q, hq, h⟩
    obtain ⟨-, hq⟩ := ite_eq_iff.mp hq |>.resolve_right nofun
    cases hq
    have hhead : (74 : UInt8) = 76 := Option.some.inj (congrArg List.head? h)
    exact absurd hhead (by decide)
  | exit channel =>
    refine iff_of_false nofun ?_
    rintro ⟨q, hq, h⟩
    obtain ⟨-, hq⟩ := ite_eq_iff.mp hq |>.resolve_right nofun
    cases hq
    have hhead : (69 : UInt8) = 76 := Option.some.inj (congrArg List.head? h)
    exact absurd hhead (by decide)
  | report channel_name events => exact iff_of_false nofun nofun
  | logout =>
    constructor
    · intro hp
      exact ⟨_, if_pos hp, rfl⟩
    · rintro ⟨q, hq, -⟩
      exact (ite_eq_iff.mp hq |>.resolve_right nofun).1

end Command

/-! ## What the server reads -/

theorem readable_headerMap {command body : Bytes} {l : List (Bytes × Bytes)} (hc : HeaderText command)
    (hkeys : (l.map (·.1)).Nodup)
    (hl : ∀ e ∈ l, (HeaderText e.1 ∧ colon ∉ e.1) ∧ nl ∉ e.2 ∧ 0 ∉ e.2) (hb : 0 ∉ body) :
    ClientFrame.Readable ⟨command, headerMap l, body⟩ where
  command := hc
  key _ _ h := key_headerMap hkeys (fun e he => (hl e he).1) h
  value k v h := (hl _ ((lookup_headerMap l hkeys k v).mp h)).2
  body := hb

/-- The frame that the server reads of a request. -/
structure Request.ReadAs (q : Request) (f : StompFrame) : Prop where
  text : 0 ∉ q.frame.text
  outcome_eq : outcome q.frame.text = .frame f
  command : q.frame.command = encode f.command
  receipt : f.getHeader receiptKey = some (Decimal.valueOf q.receiptId)
  logout : q.requestType = ascii "Logout" → f.command = "DISCONNECT".toList

theorem readAs_of_readable {q : Request} {command : String} {l : List (Bytes × Bytes)}
    (hframe : q.frame = ⟨ascii command, headerMap l, []⟩)
    (hread : ClientFrame.Readable ⟨ascii command, headerMap l, []⟩)
    (hkeys : (l.map (·.1)).Nodup) (hreceipt : (ascii "receipt", to_string q.receiptId) ∈ l)
    (hlogout : q.requestType = ascii "Logout" → command = "DISCONNECT") : ∃ f, q.ReadAs f := by
  obtain ⟨f, hout, hcommand, hheader, -⟩ := hread.outcome
  rw [← hframe] at hout
  refine ⟨f, hframe ▸ hread.zero_not_mem, hout, by rw [hframe]; exact hcommand, ?_, fun h => ?_⟩
  · have hlookup : (headerMap l).lookup (encode receiptKey) = some (to_string q.receiptId) :=
      (lookup_headerMap l hkeys _ _).mpr hreceipt
    rw [hheader, hlookup, Option.map_some, to_string, decode_encode]
  · have heq : command.toList = f.command := encode_injective hcommand
    rw [← heq, hlogout h]

theorem request_readAs {p : StompProtocol} {command : Command} {q : Request}
    (hc : command.ChannelsPlain) (hq : command.request p = some q) : ∃ f, q.ReadAs f := by
  have hkey : ∀ s : String, nl ∉ ascii s → 0 ∉ ascii s → colon ∉ ascii s →
      HeaderText (ascii s) ∧ colon ∉ ascii s := fun s h1 h2 h3 => ⟨⟨⟨_, rfl⟩, h1, h2⟩, h3⟩
  have hnumber : ∀ n, nl ∉ to_string n ∧ 0 ∉ to_string n := fun n => (headerText_to_string n).2
  have hlogout : q.requestType = ascii "Logout" → command.waits p = true :=
    fun h => (command.waits_iff p).mpr ⟨q, hq, h⟩
  cases command with
  | join channel =>
    simp only [Command.request] at hq
    split at hq
    · cases hq
      have hkeys : ([(ascii "destination", channel), (ascii "id", to_string p.idCounter),
          (ascii "receipt", to_string p.receiptCounter)].map (·.1)).Nodup := by
        show [ascii "destination", ascii "id", ascii "receipt"].Nodup
        decide
      refine readAs_of_readable rfl (readable_headerMap ⟨⟨_, rfl⟩, by decide⟩ hkeys ?_
        List.not_mem_nil) hkeys (by simp) fun h => absurd (hlogout h) Bool.false_ne_true
      simp only [List.forall_mem_cons]
      exact ⟨⟨hkey _ (by decide) (by decide) (by decide), hc⟩,
          ⟨hkey _ (by decide) (by decide) (by decide), hnumber _⟩,
          ⟨hkey _ (by decide) (by decide) (by decide), hnumber _⟩, by simp⟩
    · cases hq
  | exit channel =>
    simp only [Command.request] at hq
    split at hq
    · cases hq
      have hkeys : ([(ascii "id", to_string (p.getSubscriptionId channel)),
          (ascii "receipt", to_string p.receiptCounter)].map (·.1)).Nodup := by
        show [ascii "id", ascii "receipt"].Nodup
        decide
      refine readAs_of_readable rfl (readable_headerMap ⟨⟨_, rfl⟩, by decide⟩ hkeys ?_
        List.not_mem_nil) hkeys (by simp) fun h => absurd (hlogout h) Bool.false_ne_true
      simp only [List.forall_mem_cons]
      exact ⟨⟨hkey _ (by decide) (by decide) (by decide), hnumber _⟩,
          ⟨hkey _ (by decide) (by decide) (by decide), hnumber _⟩, by simp⟩
    · cases hq
  | report channel_name events => cases hq
  | logout =>
    simp only [Command.request] at hq
    split at hq
    · cases hq
      have hkeys : ([(ascii "receipt", to_string p.receiptCounter)].map (·.1)).Nodup :=
        List.nodup_singleton _
      refine readAs_of_readable rfl (readable_headerMap ⟨⟨_, rfl⟩, by decide⟩ hkeys ?_
        List.not_mem_nil) hkeys (by simp) fun _ => rfl
      simp only [List.forall_mem_cons]
      exact ⟨⟨hkey _ (by decide) (by decide) (by decide), hnumber _⟩, by simp⟩
    · cases hq

/-- The frame that a piece is, if it asks for a receipt. -/
def asksReceipt : Decoded → Option StompFrame
  | .frame f => if (f.getHeader receiptKey).isSome then some f else none
  | _ => none

/-- The frames with a receipt that the server reads of what a client wrote. -/
def asked (ms : List ClientFrame) : List StompFrame :=
  (ms.flatMap fun m => (pieces 0 m.wire).map outcome).filterMap asksReceipt

theorem asked_append (ms ms' : List ClientFrame) : asked (ms ++ ms') = asked ms ++ asked ms' := by
  simp [asked]

theorem asked_request {q : Request} {f : StompFrame} (h : q.ReadAs f) : asked [q.frame] = [f] := by
  rw [asked, List.flatMap_singleton, ClientFrame.wire_eq, pieces_cons _ _ _ h.text, pieces_nil,
    List.map_singleton, h.outcome_eq,
    List.filterMap_cons_some (b := f) (by simp [asksReceipt, h.receipt]), List.filterMap_nil]

theorem asked_report {username channel_name : Bytes} {events : List Event} (hu : 0 ∉ username)
    (hc : nl ∉ channel_name ∧ 0 ∉ channel_name) (he : ∀ event ∈ events, event.NoNul) :
    asked (events.map (reportFrame username channel_name)) = [] := by
  rw [asked, List.filterMap_eq_nil_iff]
  intro d hd
  obtain ⟨m, hm, hd⟩ := List.mem_flatMap.mp hd
  obtain ⟨event, hevent, rfl⟩ := List.mem_map.mp hm
  have hread : (reportFrame username channel_name event).Readable := by
    refine readable_headerMap ⟨⟨_, rfl⟩, by decide⟩ (List.nodup_singleton _) ?_
      (zero_not_mem_reportBody hu (he event hevent))
    simp only [List.forall_mem_cons]
    exact ⟨⟨⟨⟨⟨_, rfl⟩, by decide⟩, by decide⟩, hc⟩, by simp⟩
  obtain ⟨f, hout, -, hheader, -⟩ := hread.outcome
  have hnone : f.getHeader receiptKey = none := by
    rw [hheader]
    rfl
  rw [ClientFrame.wire_eq, pieces_cons _ _ _ hread.zero_not_mem, pieces_nil, List.map_singleton, hout,
    List.mem_singleton] at hd
  subst hd
  simp [asksReceipt, hnone]

theorem asked_connect {username password : Bytes} (hu : nl ∉ username) (hp : nl ∉ password) :
    asked [connectFrame username password] = [] := by
  rw [asked, List.flatMap_singleton, List.filterMap_eq_nil_iff]
  intro d hd
  obtain ⟨piece, hpiece, rfl⟩ := List.mem_map.mp hd
  cases hout : outcome piece with
  | frame f =>
    have hnone : f.getHeader receiptKey = none := by
      rw [Option.eq_none_iff_forall_ne_some]
      intro v hk
      exact absurd (connectFrame_header hu hp hpiece hout hk) (by decide)
    simp [asksReceipt, hnone]
  | null => rfl
  | exception => rfl

end Client

namespace Link

/-! ## The login -/

/-- Until it is connected a client wrote nothing but its CONNECT. -/
structure LoginFirst (trace : List (Link × LinkEvent)) (c : ConnectionId) (x : Peer) : Prop where
  username : nl ∉ x.username
  first : x.protocol.connected = false → ∃ password, nl ∉ password ∧
    trace.flatMap (writes c) = [connectFrame x.username password]
  clean : x.protocol.connected = true → 0 ∉ x.username

theorem LoginFirst.quiet {trace : List (Link × LinkEvent)} {c : ConnectionId} {x x' : Peer}
    {e : Link × LinkEvent} (h : LoginFirst trace c x) (hu : x'.username = x.username)
    (hc : x'.protocol.connected = x.protocol.connected) (hw : writes c e = []) :
    LoginFirst (trace ++ [e]) c x' := by
  have hwrites : (trace ++ [e]).flatMap (writes c) = trace.flatMap (writes c) := by simp [hw]
  refine ⟨hu ▸ h.username, fun hcon => ?_, fun hcon => ?_⟩
  · rw [hwrites, hu]
    exact h.first (hc ▸ hcon)
  · rw [hu]
    exact h.clean (hc ▸ hcon)

theorem zero_not_mem_of_connected {trace : List (Link × LinkEvent)} {s : Link} {c : ConnectionId}
    {x : Peer} {m : StompProtocol.Parsed} {username password : Bytes} (h : runs.Run trace s)
    (hx : s.peers.lookup c = some x) (hm : m ∈ x.inFlight) (hc : m.command = ascii "CONNECTED")
    (hu : nl ∉ username) (hp : nl ∉ password)
    (hw : trace.flatMap (writes c) = [connectFrame username password]) : 0 ∉ username := by
  -- The server answers a CONNECT with a CONNECTED only if there is no NUL in its login.
  obtain ⟨e, he, hme⟩ := mem_inFlight h hx hm
  obtain ⟨pre, t, post, y, p, rfl, hpre, hfor⟩ := mem_hands h he
  cases hfor.arrives with
  | @error m₁ m₂ _ _ _ hms hc₁ hc₂ =>
    rw [hms] at hme
    rcases List.mem_pair.mp hme with rfl | rfl
    · exact absurd (hc₁.symm.trans hc) (by decide)
    · exact absurd (hc₂.symm.trans hc) (by decide)
  | receipt _ _ hms hc₁ _ _ =>
    rw [hms, List.mem_singleton] at hme
    subst hme
    exact absurd (hc₁.symm.trans hc) (by decide)
  | message _ hms hc₁ _ =>
    rw [hms, List.mem_singleton] at hme
    subst hme
    exact absurd (hc₁.symm.trans hc) (by decide)
  | connected hsender _ _ _ hconnects =>
    subst hsender
    obtain ⟨m, hm, piece, hpiece, hout⟩ := written_of_completed hpre hfor.peer hfor.completed
    have hm : m ∈ (pre ++ (t, .deliver e.sender) :: post).flatMap (writes e.sender) := by
      rw [List.flatMap_append]
      exact List.mem_append_left _ hm
    rw [hw, List.mem_singleton] at hm
    subst hm
    intro h0
    rcases connectFrame_cut hu hp h0 hpiece hout with hnone | hnone
    · rw [hconnects.login_eq] at hnone
      cases hnone
    · rw [hconnects.passcode_eq] at hnone
      cases hnone

theorem LoginFirst.step {trace : List (Link × LinkEvent)} {s : Link} {c : ConnectionId}
    {e : LinkEvent} {x x' : Peer} (hr : runs.Run trace s) (hx : s.peers.lookup c = some x)
    (h : LoginFirst trace c x) (hs : PeerStep c s e x x') : LoginFirst (trace ++ [(s, e)]) c x' := by
  cases hs with
  | quiet _ hw _ _ _ => exact h.quiet rfl rfl hw
  | command command _ =>
    have hcon := Command.run_connected x.protocol x.username command
    cases hp : x.protocol.connected with
    | false =>
      refine h.quiet rfl hcon ?_
      rw [writes_command hx, Command.run_disconnected hp]
    | true =>
      exact ⟨h.username, fun hcon' => absurd (hcon'.symm.trans (hcon.trans hp)) Bool.false_ne_true,
        fun _ => h.clean hp⟩
  | byte _ _ => exact h.quiet rfl rfl rfl
  | frame _ _ => exact h.quiet rfl rfl rfl
  | handed _ => exact h.quiet rfl rfl rfl
  | @receive _ message rest p hstop hm hp =>
    cases StompProtocol.parseFrame_handles hp with
    | connected hc =>
      refine ⟨h.username, nofun, fun _ => ?_⟩
      cases hcon : x.protocol.connected with
      | true => exact h.clean hcon
      | false =>
        obtain ⟨password, hp, hw⟩ := h.first hcon
        have hincoming : x.incoming = some (StompProtocol.parse message) := by
          simp [Peer.incoming, hstop, hm]
        obtain ⟨-, ms, hms⟩ := incoming_eq hincoming
        exact zero_not_mem_of_connected hr hx (hms ▸ List.mem_cons_self) hc h.username hp hw
    | message _ _ _ => exact h.quiet rfl rfl rfl
    | error _ => exact h.quiet rfl rfl rfl
    | unknown _ _ => exact h.quiet rfl rfl rfl
    | receipt _ _ _ =>
      refine h.quiet rfl ?_ rfl
      dsimp only
      split <;> rfl
    | other _ => exact h.quiet rfl rfl rfl

theorem loginFirst_run {trace : List (Link × LinkEvent)} {s : Link} {c : ConnectionId} {x : Peer}
    (h : runs.Run trace s) (hx : s.peers.lookup c = some x) : LoginFirst trace c x := by
  refine peer_run (P := fun trace x => LoginFirst trace c x) ?_ ?_ h hx
  · intro trace s username password _ hc habsent
    have hwrites : writes c (s, .login username password) = [connectFrame username password] :=
      if_pos hc
    refine ⟨username.2, fun _ => ⟨password, password.2, ?_⟩, nofun⟩
    rw [List.flatMap_append, habsent.writes, List.flatMap_singleton, hwrites]
    rfl
  · exact fun trace s e x x' hr hx hs h => h.step hr hx hs

/-! ## What a client keeps of its receipts -/

/-- The receipts of a client: all are of different ids, and each is stored until its RECEIPT comes.
The client made the requests `qs`, wrote `ms` and handled `hs`, and took `n` ids. -/
structure Kept (n : Nat) (qs : List Request) (ms : List Framing.ClientFrame)
    (hs : List StompProtocol.Parsed) (x : Peer) : Prop where
  counter : x.protocol.receiptCounter = n
  bound : ∀ q ∈ qs, 0 ≤ q.receiptId ∧ q.receiptId < n
  distinct : (qs.map (·.receiptId)).Nodup
  stored : ∀ q ∈ qs, x.protocol.receiptMap.lookup q.receiptId = some q.requestType ∨
    ∃ m ∈ hs, m.command = ascii "RECEIPT" ∧ m.receiptId = some q.receiptId
  logout : (x.waits = false ∧ ∀ q ∈ qs, q.requestType ≠ ascii "Logout") ∨
    (x.waits = true ∧ ∃ ms' qs' q, ms = ms' ++ [q.frame] ∧ qs = qs' ++ [q] ∧
      ∀ q ∈ qs', q.requestType ≠ ascii "Logout")
  asked : List.Forall₂ Request.ReadAs qs (asked ms)

namespace Kept

variable {n : Nat} {qs : List Request} {ms : List Framing.ClientFrame} {hs : List StompProtocol.Parsed}
  {x x' : Peer} {q : Request}

theorem not_logout (h : Kept n qs ms hs x) (hwaits : x.waits = false) :
    ∀ q ∈ qs, q.requestType ≠ ascii "Logout" := by
  rcases h.logout with ⟨-, hopen⟩ | ⟨htrue, -⟩
  · exact hopen
  · exact absurd (hwaits.symm.trans htrue) Bool.false_ne_true

theorem quiet (h : Kept n qs ms hs x) (hwaits : x'.waits = x.waits)
    (hcounter : x'.protocol.receiptCounter = x.protocol.receiptCounter) (hs' : List StompProtocol.Parsed)
    (hmap : ∀ id, x'.protocol.receiptMap.lookup id = x.protocol.receiptMap.lookup id ∨
      ∃ m ∈ hs', m.command = ascii "RECEIPT" ∧ m.receiptId = some id) :
    Kept n qs ms (hs ++ hs') x' := by
  refine { h with counter := hcounter.trans h.counter, stored := fun q hq => ?_, logout := ?_ }
  · rcases h.stored q hq with hstored | ⟨m, hm, hreceipt⟩
    · rcases hmap q.receiptId with hsame | ⟨m, hm, hreceipt⟩
      · exact .inl (hsame.trans hstored)
      · exact .inr ⟨m, List.mem_append_right _ hm, hreceipt⟩
    · exact .inr ⟨m, List.mem_append_left _ hm, hreceipt⟩
  · rw [hwaits]
    exact h.logout

theorem tell {n' : Nat} {ms' : List Framing.ClientFrame} (h : Kept n qs ms hs x) (hn : n ≤ n')
    (hcounter : x'.protocol.receiptCounter = n')
    (hmap : x'.protocol.receiptMap = x.protocol.receiptMap) (hwaits : x.waits = false)
    (hwaits' : x'.waits = false) (hasked : Client.asked ms' = []) : Kept n' qs (ms ++ ms') hs x' where
  counter := hcounter
  bound q hq := by
    have := h.bound q hq
    omega
  distinct := h.distinct
  stored := hmap ▸ h.stored
  logout := .inl ⟨hwaits', h.not_logout hwaits⟩
  asked := by
    rw [asked_append, hasked, List.append_nil]
    exact h.asked

theorem request {f : StompFrame} (h : Kept n qs ms hs x) (hf : q.ReadAs f)
    (hid : q.receiptId = x.protocol.receiptCounter)
    (hcounter : x'.protocol.receiptCounter = (n + 1 : Nat))
    (hmap : x'.protocol.receiptMap = x.protocol.receiptMap.insert q.receiptId q.requestType)
    (hwaits : x.waits = false) (hwaits' : x'.waits = true ↔ q.requestType = ascii "Logout") :
    Kept (n + 1) (qs ++ [q]) (ms ++ [q.frame]) hs x' := by
  have hn : q.receiptId = n := hid.trans h.counter
  have hnew : ∀ q' ∈ qs, q'.receiptId ≠ q.receiptId := by
    intro q' hq'
    have := (h.bound q' hq').2
    omega
  constructor
  case counter => exact hcounter
  case bound =>
    intro q' hq'
    rcases List.mem_append.mp hq' with hq' | hq'
    · have := h.bound q' hq'
      omega
    · rw [List.mem_singleton.mp hq', hn]
      omega
  case distinct =>
    rw [List.map_append, List.nodup_append]
    refine ⟨h.distinct, List.nodup_singleton _, fun id hold id' hid' => ?_⟩
    obtain ⟨q', hq', rfl⟩ := List.mem_map.mp hold
    rw [List.map_singleton, List.mem_singleton] at hid'
    rw [hid']
    exact hnew q' hq'
  case stored =>
    intro q' hq'
    rw [hmap]
    rcases List.mem_append.mp hq' with hq' | hq'
    · rw [Table.lookup_insert_if, if_neg (hnew q' hq')]
      exact h.stored q' hq'
    · rw [List.mem_singleton.mp hq', Table.lookup_insert_if]
      exact .inl (if_pos rfl)
  case logout =>
    cases hx' : x'.waits with
    | true => exact .inr ⟨rfl, ms, qs, q, rfl, rfl, h.not_logout hwaits⟩
    | false =>
      refine .inl ⟨rfl, fun q' hq' => ?_⟩
      rcases List.mem_append.mp hq' with hq' | hq'
      · exact h.not_logout hwaits q' hq'
      · rw [List.mem_singleton.mp hq']
        intro hlogout
        exact absurd (hx'.symm.trans (hwaits'.mpr hlogout)) Bool.false_ne_true
  case asked =>
    rw [asked_append, asked_request hf]
    exact List.rel_append h.asked (.cons hf .nil)

theorem command {command : Command} (h : Kept n qs ms hs x) (hc : command.ChannelsPlain)
    (h0 : command.NoNul) (hwaits : x.waits = false)
    (hu : x.protocol.connected = true → 0 ∉ x.username)
    (hn : n + (command.drawsReceipt x.protocol).toNat < 2 ^ 31) :
    Kept (n + (command.drawsReceipt x.protocol).toNat) (qs ++ (command.request x.protocol).toList)
      (ms ++ (command.run x.protocol x.username).2) hs (x.command command) := by
  have hwaits_iff := command.waits_iff x.protocol
  have hnotWaits : command.request x.protocol = none → command.waits x.protocol = false := by
    intro hnone
    rw [← Bool.not_eq_true, hwaits_iff, hnone]
    rintro ⟨q, hq, -⟩
    cases hq
  have hsucc : n + 1 < 2 ^ 31 → Decimal.wrap (x.protocol.receiptCounter + 1) = (n + 1 : Nat) := by
    intro hlt
    rw [h.counter]
    exact Decimal.wrap_nat hlt
  have hrun := command.run_draws x.protocol x.username
  have hx' : (x.command command).protocol = (command.run x.protocol x.username).1 := rfl
  have hw' : (x.command command).waits = command.waits x.protocol := rfl
  revert hrun hx'
  generalize x.command command = x' at hw' ⊢
  generalize command.run x.protocol x.username = r
  intro hrun hx'
  cases hrun with
  | @request p' q hq hdraws hid hmap hcounter =>
    rw [hdraws] at hn ⊢
    rw [hq]
    obtain ⟨f, hf⟩ := request_readAs hc hq
    refine h.request hf hid (by rw [hx', hcounter, hsucc hn]) (by rw [hx', hmap]) hwaits ?_
    rw [hw', hwaits_iff, hq]
    simp
  | @unused p' hq hdraws hmap hcounter =>
    rw [hdraws] at hn ⊢
    rw [hq, Option.toList_none, List.append_nil]
    exact h.tell (Nat.le_succ n) (by rw [hx', hcounter, hsucc hn]; rfl) (by rw [hx', hmap]) hwaits
      (by rw [hw', hnotWaits hq]) rfl
  | @report channel_name events hcommand hconnected =>
    subst hcommand
    rw [show Command.request x.protocol (.report channel_name events) = none from rfl,
      Option.toList_none, List.append_nil]
    exact h.tell (Nat.le_add_right n _) (by rw [hx', h.counter]; rfl) (by rw [hx']) hwaits
      (by rw [hw', hnotWaits rfl]) (asked_report (hu hconnected) hc h0)
  | nothing hq hdraws =>
    rw [hdraws, hq, Option.toList_none, List.append_nil]
    exact h.tell (Nat.le_refl n) (by rw [hx', h.counter]; rfl) (by rw [hx']) hwaits
      (by rw [hw', hnotWaits hq]) rfl

end Kept

/-! ## The requests of a run -/

/-- The request that a step stores. -/
def requests (c : ConnectionId) : Link × LinkEvent → Option Request
  | (s, .command d command) =>
    if c = d then (s.peers.lookup d).bind fun x => command.request x.protocol else none
  | _ => none

/-- A step in which a client takes a receipt id. -/
def draws (c : ConnectionId) : Link × LinkEvent → Bool
  | (s, .command d command) =>
    d = c && (s.peers.lookup c).any fun x => command.drawsReceipt x.protocol
  | _ => false

/-- The user of a client names channels that a line can hold, and reports no NUL. -/
def Plain (c : ConnectionId) (trace : List (Link × LinkEvent)) : Prop :=
  ∀ e ∈ trace, ∀ command, e.2 = .command c command → command.ChannelsPlain ∧ command.NoNul

theorem requests_none {s : Link} {c : ConnectionId} {e : LinkEvent}
    (he : ∀ command, e ≠ .command c command) : requests c (s, e) = none ∧ draws c (s, e) = false := by
  cases e with
  | command d command =>
    have hd : d ≠ c := fun hd => he command (hd ▸ rfl)
    exact ⟨if_neg (Ne.symm hd), by simp [draws, hd]⟩
  | login _ _ | deliver _ | receive _ | lose _ | disconnect _ => exact ⟨rfl, rfl⟩

theorem requests_command {s : Link} {c : ConnectionId} {x : Peer} (hx : s.peers.lookup c = some x)
    (command : Command) : requests c (s, .command c command) = command.request x.protocol ∧
      draws c (s, .command c command) = command.drawsReceipt x.protocol := by
  simp [requests, draws, hx]

theorem counter_le_run {trace : List (Link × LinkEvent)} {s : Link} (h : runs.Run trace s) :
    ∀ e ∈ trace, e.1.server.connectionCounter ≤ s.server.connectionCounter := by
  induction h with
  | nil => exact nofun
  | @snoc trace s e s' hr hs ih =>
    intro e' he'
    rcases List.mem_append.mp he' with he' | he'
    · exact (ih e' he').trans (counter_le hs)
    · rw [List.mem_singleton.mp he']
      exact counter_le hs

theorem absent_requests {trace : List (Link × LinkEvent)} {s : Link} {c : ConnectionId}
    (h : runs.Run trace s) (hc : s.server.connectionCounter < c) :
    trace.filterMap (requests c) = [] ∧ trace.countP (draws c) = 0 := by
  have hpeer : ∀ e ∈ trace, e.1.peers.lookup c = none := by
    intro e he
    obtain ⟨pre, post, htrace⟩ := List.append_of_mem he
    exact (absent_run (h.split htrace).1 (Nat.lt_of_le_of_lt (counter_le_run h e he) hc)).peer
  constructor
  · refine List.filterMap_eq_nil_iff.mpr fun e he => ?_
    obtain ⟨t, e⟩ := e
    cases e with
    | command d command =>
      simp only [requests, ite_eq_right_iff]
      rintro rfl
      rw [hpeer _ he, Option.bind_none]
    | login _ _ | deliver _ | receive _ | lose _ | disconnect _ => rfl
  · refine List.countP_eq_zero.mpr fun e he => ?_
    obtain ⟨t, e⟩ := e
    cases e with
    | command d command => simp [draws, hpeer _ he]
    | login _ _ | deliver _ | receive _ | lose _ | disconnect _ => exact Bool.false_ne_true

/-- What a client keeps of the receipts of a run. -/
def Keeps (c : ConnectionId) (trace : List (Link × LinkEvent)) (x : Peer) : Prop :=
  Kept (trace.countP (draws c)) (trace.filterMap (requests c)) (trace.flatMap (writes c))
    (trace.filterMap (handles c)) x

theorem keeps_snoc (c : ConnectionId) (trace : List (Link × LinkEvent)) (e : Link × LinkEvent)
    (x : Peer) : Keeps c (trace ++ [e]) x ↔
      Kept (trace.countP (draws c) + (draws c e).toNat)
        (trace.filterMap (requests c) ++ (requests c e).toList)
        (trace.flatMap (writes c) ++ writes c e)
        (trace.filterMap (handles c) ++ (handles c e).toList) x := by
  have hdraws : (trace ++ [e]).countP (draws c) = trace.countP (draws c) + (draws c e).toNat := by
    rw [List.countP_append, List.countP_singleton]
    cases draws c e <;> rfl
  rw [Keeps, hdraws, filterMap_snoc, filterMap_snoc, List.flatMap_append, List.flatMap_singleton]

theorem Keeps.silent {trace : List (Link × LinkEvent)} {s : Link} {c : ConnectionId} {e : LinkEvent}
    {x x' : Peer} (h : Keeps c trace x) (he : ∀ command, e ≠ .command c command)
    (hw : writes c (s, e) = []) (hwaits : x'.waits = x.waits)
    (hcounter : x'.protocol.receiptCounter = x.protocol.receiptCounter)
    (hmap : ∀ id, x'.protocol.receiptMap.lookup id = x.protocol.receiptMap.lookup id ∨
      ∃ m ∈ (handles c (s, e)).toList, m.command = ascii "RECEIPT" ∧ m.receiptId = some id) :
    Keeps c (trace ++ [(s, e)]) x' := by
  obtain ⟨hq, hd⟩ := requests_none (s := s) he
  rw [keeps_snoc, hq, hd, hw, Option.toList_none, List.append_nil, List.append_nil]
  exact h.quiet hwaits hcounter _ hmap

theorem Keeps.step {trace : List (Link × LinkEvent)} {s : Link} {c : ConnectionId} {e : LinkEvent}
    {x x' : Peer} (h : Keeps c trace x) (hr : runs.Run trace s) (hx : s.peers.lookup c = some x)
    (hs : PeerStep c s e x x')
    (hplain : ∀ command, e = .command c command → command.ChannelsPlain ∧ command.NoNul)
    (hcount : (trace ++ [(s, e)]).countP (draws c) < 2 ^ 31) : Keeps c (trace ++ [(s, e)]) x' := by
  cases hs with
  | quiet he hw _ _ _ => exact h.silent he hw rfl rfl fun _ => .inl rfl
  | byte _ _ => exact h.silent deliver_ne rfl rfl rfl fun _ => .inl rfl
  | frame _ _ => exact h.silent deliver_ne rfl rfl rfl fun _ => .inl rfl
  | handed _ => exact h.silent deliver_ne rfl rfl rfl fun _ => .inl rfl
  | command command hwaits =>
    obtain ⟨hc, h0⟩ := hplain command rfl
    obtain ⟨hq, hd⟩ := requests_command hx command
    have hlt : trace.countP (draws c) + (command.drawsReceipt x.protocol).toNat < 2 ^ 31 := by
      rw [List.countP_append, List.countP_singleton, hd] at hcount
      cases hdraws : command.drawsReceipt x.protocol <;> simp_all
    rw [keeps_snoc, hq, hd, writes_command hx, show handles c (s, .command c command) = none from rfl,
      Option.toList_none, List.append_nil]
    exact Kept.command h hc h0 hwaits (loginFirst_run hr hx).clean hlt
  | @receive _ message rest p hstop hm hp =>
    have hhandles : handles c (s, .receive c) = some (StompProtocol.parse message) := by
      rw [handles_receive hx, Peer.incoming, hstop, hm]
      rfl
    cases StompProtocol.parseFrame_handles hp with
    | connected _ => exact h.silent receive_ne rfl rfl rfl fun _ => .inl rfl
    | message _ _ _ => exact h.silent receive_ne rfl rfl rfl fun _ => .inl rfl
    | error _ => exact h.silent receive_ne rfl rfl rfl fun _ => .inl rfl
    | unknown _ _ => exact h.silent receive_ne rfl rfl rfl fun _ => .inl rfl
    | other _ => exact h.silent receive_ne rfl rfl rfl fun _ => .inl rfl
    | @receipt id requestType hc hid ht =>
      refine h.silent receive_ne rfl rfl ?_ fun id' => ?_
      · dsimp only
        split <;> rfl
      · dsimp only
        rw [Table.lookup_erase_if]
        split
        · next heq =>
          rw [hhandles, heq]
          exact .inr ⟨_, List.mem_singleton_self _, hc, hid⟩
        · exact .inl rfl

theorem keeps_run {trace : List (Link × LinkEvent)} {s : Link} {c : ConnectionId} {x : Peer}
    (h : runs.Run trace s) (hplain : Plain c trace) (hcount : trace.countP (draws c) < 2 ^ 31)
    (hx : s.peers.lookup c = some x) : Keeps c trace x := by
  refine peer_run (P := fun trace x => Plain c trace → trace.countP (draws c) < 2 ^ 31 →
    Keeps c trace x) ?_ ?_ h hx hplain hcount
  · intro trace s username password hr hc habsent _ _
    have hlt : s.server.connectionCounter < c := hc ▸ Nat.lt_succ_self s.server.connectionCounter
    obtain ⟨hrequests, hdraws⟩ := absent_requests hr hlt
    have hwrites : writes c (s, .login username password) = [connectFrame username password] :=
      if_pos hc
    rw [keeps_snoc, habsent.writes, habsent.handles, hwrites, hrequests, hdraws]
    refine ⟨rfl, nofun, .nil, nofun, .inl ⟨rfl, nofun⟩, ?_⟩
    show List.Forall₂ Request.ReadAs [] (asked [connectFrame username password])
    rw [asked_connect username.2 password.2]
    exact .nil
  · intro trace s e x x' hr hx hs ih hplain hcount
    have hpre : trace.countP (draws c) < 2 ^ 31 :=
      Nat.lt_of_le_of_lt (by simp [List.countP_append]) hcount
    exact (ih (fun e he => hplain e (List.mem_append_left _ he)) hpre).step hr hx hs
      (hplain _ (List.mem_append_right _ (List.mem_singleton_self _))) hcount

end Link

end Stomp
