import Stomp.Threads

/-!
# Authentication

A password that is stored stays stored. A session is logged in only by a CONNECT whose login and
passcode are stored, and only such a session subscribes to a topic or sends messages.
-/

namespace Stomp

open StompMessagingProtocolImpl

/-- A CONNECT with all the headers that the server asks for. -/
structure StompFrame.Credentials (f : StompFrame) (login passcode : Text) : Prop where
  command : f.command = "CONNECT".toList
  version : ∃ v, f.getHeader "accept-version".toList = some v
  host : ∃ v, f.getHeader "host".toList = some v
  login_eq : f.getHeader "login".toList = some login
  passcode_eq : f.getHeader "passcode".toList = some passcode

namespace Threads

/-- `connected` of the protocol object of a connection. -/
def isConnected (t : Threads) (c : ConnectionId) : Bool :=
  (t.server.sessions.lookup c).any fun p : Session => p.connected

/-- The step sets `connected` of a connection. -/
def LogsIn (c : ConnectionId) (e : Threads × ThreadEvent) : Prop :=
  e.1.isConnected c = false ∧ (e.1.next e.2).any (fun t => t.isConnected c) = true

/-- The step is one of a CONNECT of the connection, and its login and passcode are stored after it. -/
def Authentic (c : ConnectionId) (e : Threads × ThreadEvent) : Prop :=
  ∃ task login passcode t', e.2 = .call c ∧ e.1.running c = some task ∧
    task.message.Credentials login passcode ∧ e.1.next e.2 = some t' ∧
    t'.server.connections.users.lookup login = some passcode

/-- The connection passed a CONNECT. -/
def Passed (c : ConnectionId) (trace : List (Threads × ThreadEvent)) : Prop :=
  ∃ e ∈ trace, LogsIn c e ∧ Authentic c e

/-! ## The calls of a session -/

/-- A call that leaves `connected` as it is, and that enters a topic or sends a MESSAGE only for a
session that is logged in. -/
def Within (c : ConnectionId) (connected : Bool) : Call → Prop
  | .put q => q.connectionId = c ∧ q.connected = connected
  | .addSubscription _ d _ => d = c ∧ connected = true
  | .send _ msg => msg.command = "MESSAGE".toList → connected = true
  | _ => True

theorem within_sendError (p : Session) (reason : Text) (receiptId : Option Text) (f : StompFrame) :
    (p.sendError reason receiptId f).Calls (Within p.connectionId p.connected) := by
  refine ⟨fun h => ?_, fun _ => ⟨⟨rfl, rfl⟩, fun _ => trivial⟩⟩
  exact absurd (show "ERROR".toList = "MESSAGE".toList from h) (by decide)

theorem within_sendReceipt (p : Session) (connected : Bool) (receiptId : Option Text) :
    (sendReceiptIfRequested p receiptId).Calls (Within p.connectionId connected) := by
  cases receiptId with
  | none => trivial
  | some r =>
    refine ⟨fun h => ?_, fun _ => trivial⟩
    exact absurd (show "RECEIPT".toList = "MESSAGE".toList from h) (by decide)

theorem within_permits {p : Session} (hp : p.connected = true) (f : StompFrame) :
    Permits (Within p.connectionId true) p f where
  put _ hid hcon := ⟨hid, hcon.trans hp⟩
  sendError _ _ _ := rfl
  sendReceipt _ _ := rfl
  sendMessage _ _ _ _ _ _ := rfl
  disconnect := trivial
  isUserActive _ := trivial
  getNextMessageId := trivial
  addSubscription _ _ := ⟨rfl, rfl⟩
  removeSubscription _ := trivial
  getSubscribers _ := trivial

theorem process_disconnected {p : Session} (hp : p.connected = false) (f : StompFrame) :
    (∃ reason, p.process f = p.sendError reason (f.getHeader receiptKey) f) ∨
    ∃ login passcode, f.Credentials login passcode ∧ p.process f = checkActive p f login passcode := by
  unfold StompMessagingProtocolImpl.process
  split
  · next hcommand =>
    unfold handleConnect
    rw [if_neg (by simp [hp])]
    dsimp only
    split
    · next v login passcode host hv hl hw hh =>
      exact .inr ⟨login, passcode, ⟨hcommand, ⟨v, hv⟩, ⟨host, hh⟩, hl, hw⟩, rfl⟩
    · exact .inl ⟨_, rfl⟩
  split
  · exact .inl ⟨_, by unfold handleSend; rw [if_pos (by simp [hp])]⟩
  split
  · exact .inl ⟨_, by unfold handleSubscribe; rw [if_pos (by simp [hp])]⟩
  split
  · exact .inl ⟨_, by unfold handleUnsubscribe; rw [if_pos (by simp [hp])]⟩
  split
  · exact .inl ⟨_, by unfold handleDisconnect; rw [if_pos (by simp [hp])]⟩
  · exact .inl ⟨_, rfl⟩

/-- What is left of a handler of the connection `c`, with the passwords that are stored. -/
inductive Progress (users : Table Text Text) (c : ConnectionId) (f : StompFrame) :
    Bool → Handler → Prop
  | within {connected : Bool} {rest : Handler} (h : rest.Calls (Within c connected)) :
    Progress users c f connected rest
  | checkActive {p : Session} {login passcode : Text} (hid : p.connectionId = c)
    (hp : p.connected = false) (hf : f.Credentials login passcode) :
    Progress users c f false (checkActive p f login passcode)
  | authenticate {p : Session} {login passcode : Text} (hid : p.connectionId = c)
    (hp : p.connected = false) (hf : f.Credentials login passcode) :
    Progress users c f false (authenticate p f login passcode)
  | connect {p : Session} {login passcode : Text} (hid : p.connectionId = c)
    (hf : f.Credentials login passcode) (hu : users.lookup login = some passcode) :
    Progress users c f false (connect p f)

theorem progress_process (users : Table Text Text) (p : Session) (f : StompFrame) :
    Progress users p.connectionId f p.connected (p.process f) := by
  cases hp : p.connected with
  | false =>
    obtain ⟨reason, heq⟩ | ⟨login, passcode, hf, heq⟩ := process_disconnected hp f
    · rw [heq]
      have := within_sendError p reason (f.getHeader receiptKey) f
      rw [hp] at this
      exact .within this
    · rw [heq]
      exact .checkActive rfl hp hf
  | true =>
    obtain hcalls | ⟨hfresh, -⟩ := (within_permits hp f).process_cases
    · exact .within hcalls
    · rw [hp] at hfresh
      cases hfresh

/-! ## What a call does -/

theorem users_answer {s : Server} {u w : Text} (k : Call)
    (h : s.connections.users.lookup u = some w) :
    (Server.answer k (s, [])).2.1.connections.users.lookup u = some w := by
  cases k with
  | authenticateUser c v x =>
    show (s.connections.authenticateUser c v x).2.users.lookup u = some w
    unfold ConnectionsImpl.authenticateUser
    split
    · exact h
    · next hnone =>
      have hne : u ≠ v := by
        rintro rfl
        rw [h] at hnone
        cases hnone
      exact (AList.lookup_insert_ne hne).trans h
  | removeSubscription topic c =>
    show (s.connections.removeSubscription topic c).users.lookup u = some w
    rw [(s.connections.removeSubscription_fields topic c).2.2.1]
    exact h
  | put | send | disconnect | isUserActive | getNextMessageId | addSubscription | getSubscribers =>
    exact h

theorem users_authenticated {x : ConnectionsImpl} {c : ConnectionId} {u w : Text}
    (h : (x.authenticateUser c u w).1 = true) :
    (x.authenticateUser c u w).2.users.lookup u = some w := by
  unfold ConnectionsImpl.authenticateUser at h ⊢
  split
  · next stored hu =>
    simp only [hu, decide_eq_true_eq] at h
    rw [hu, h]
  · exact AList.lookup_insert _

theorem sessions_answer (s : Server) (k : Call) (d : ConnectionId) :
    (Server.answer k (s, [])).2.1.sessions.lookup d =
      match k with
      | .put q => if d = q.connectionId then some q else s.sessions.lookup d
      | _ => s.sessions.lookup d := by
  cases k with
  | put q => exact s.lookup_setSession q d
  | send | disconnect | authenticateUser | isUserActive | getNextMessageId | addSubscription
  | removeSubscription | getSubscribers => rfl

theorem subscription_answer {s : Server} {k : Call} {topic : Text} {c : ConnectionId}
    (h : (Server.answer k (s, [])).2.1.connections.subscription topic c ≠ none) :
    s.connections.subscription topic c ≠ none ∨ ∃ i, k = .addSubscription topic c i := by
  cases k with
  | put | send | isUserActive | getNextMessageId | getSubscribers => exact .inl h
  | disconnect d =>
    refine .inl fun hnone => h ?_
    show (s.connections.disconnect d).subscription topic c = none
    rw [ConnectionsImpl.subscription_disconnect, hnone, ite_self]
  | authenticateUser d u w =>
    refine .inl fun hnone => h ?_
    show (s.connections.authenticateUser d u w).2.subscription topic c = none
    rw [ConnectionsImpl.subscription, (s.connections.authenticateUser_fields d u w).2.1]
    exact hnone
  | removeSubscription t d =>
    refine .inl fun hnone => h ?_
    show (s.connections.removeSubscription t d).subscription topic c = none
    rw [ConnectionsImpl.subscription_removeSubscription, hnone, ite_self]
  | addSubscription t d i =>
    by_cases hnew : topic = t ∧ c = d
    · exact .inr ⟨i, by rw [hnew.1, hnew.2]⟩
    · refine .inl fun hnone => h ?_
      show (s.connections.addSubscription t d i).subscription topic c = none
      rw [ConnectionsImpl.subscription_addSubscription, if_neg hnew, hnone]

/-! ## One step -/

theorem Progress.mono {users users' : Table Text Text} {c : ConnectionId} {f : StompFrame}
    {connected : Bool} {rest : Handler} (h : Progress users c f connected rest)
    (hu : ∀ u w, users.lookup u = some w → users'.lookup u = some w) :
    Progress users' c f connected rest := by
  cases h with
  | within h => exact .within h
  | checkActive hid hp hf => exact .checkActive hid hp hf
  | authenticate hid hp hf => exact .authenticate hid hp hf
  | connect hid hf hw => exact .connect hid hf (hu _ _ hw)

theorem Progress.call {s : Server} {c : ConnectionId} {f : StompFrame} {connected : Bool} {k : Call}
    {rest : Reply k → Handler} (h : Progress s.connections.users c f connected (.call k rest)) :
    let r := Server.answer k (s, [])
    (Within c connected k ∧ Progress r.2.1.connections.users c f connected (rest r.1)) ∨
    (connected = false ∧ ∃ p login passcode, k = .put p ∧ p.connectionId = c ∧ p.connected = true ∧
      f.Credentials login passcode ∧ s.connections.users.lookup login = some passcode ∧
      Progress r.2.1.connections.users c f true (rest r.1)) := by
  -- A handler makes a call of its session, or sets `connected` after its login was checked.
  have herror : ∀ users (p : Session) reason, p.connectionId = c → p.connected = false →
      Progress users c f false (p.sendError reason (f.getHeader receiptKey) f) := by
    rintro users p reason rfl hp
    have := within_sendError p reason (f.getHeader receiptKey) f
    rw [hp] at this
    exact .within this
  generalize hrest : Prog.call k rest = handler at h
  cases h with
  | within h =>
    subst hrest
    exact .inl ⟨h.1, .within (h.2 _)⟩
  | @checkActive p login passcode hid hp hf =>
    cases hrest
    refine .inl ⟨trivial, ?_⟩
    dsimp only
    split
    · exact herror _ p _ hid hp
    · exact .authenticate hid hp hf
  | @authenticate p login passcode hid hp hf =>
    cases hrest
    refine .inl ⟨trivial, ?_⟩
    dsimp only
    split
    · exact herror _ p _ hid hp
    · next hauth =>
      rw [Bool.not_eq_true', Bool.not_eq_false] at hauth
      exact .connect hid hf (users_authenticated hauth)
  | @connect p login passcode hid hf hu =>
    cases hrest
    subst hid
    exact .inr ⟨rfl, _, login, passcode, rfl, rfl, rfl, hf, hu, .within ⟨fun _ => rfl, fun _ =>
      within_sendReceipt { p with connected := true } true (f.getHeader receiptKey)⟩⟩

/-- Topics hold sessions that are logged in, and every handler is somewhere in `process`. -/
structure Guarded (t : Threads) : Prop where
  fresh : ∀ c, t.server.connectionCounter < c → t.server.sessions.lookup c = none
  subscribed : ∀ c topic, t.server.connections.subscription topic c ≠ none → t.isConnected c = true
  progress : ∀ c task, t.running c = some task → ∃ p : Session,
    t.server.sessions.lookup c = some p ∧
      Progress t.server.connections.users c task.message p.connected task.rest

theorem isConnected_of_session {t : Threads} {c : ConnectionId} {p : Session}
    (hp : t.server.sessions.lookup c = some p) : t.isConnected c = p.connected := by
  simp [isConnected, hp]

theorem running_update {running : ConnectionId → Option Task} {c d : ConnectionId} {new task : Task}
    (h : Function.update running c (some new) d = some task) :
    (d = c ∧ task = new) ∨ (d ≠ c ∧ running d = some task) := by
  by_cases hdc : d = c
  · subst hdc
    rw [Function.update_self] at h
    exact .inl ⟨rfl, (Option.some.inj h).symm⟩
  · rw [Function.update_of_ne hdc] at h
    exact .inr ⟨hdc, h⟩

theorem Guarded.lookup_accept {t : Threads} (h : t.Guarded) {c : ConnectionId} {p : Session}
    (hp : t.server.sessions.lookup c = some p) : t.server.accept.sessions.lookup c = some p := by
  refine (t.server.untouched_accept ?_).session.trans hp
  rintro rfl
  rw [h.fresh _ (Nat.lt_succ_self _)] at hp
  cases hp

theorem Guarded.isConnected_accept {t : Threads} (h : t.Guarded) (c : ConnectionId) :
    isConnected { t with server := t.server.accept } c = t.isConnected c := by
  by_cases hc : c = t.server.connectionCounter + 1
  · subst hc
    simp [isConnected, t.server.lookup_accept, h.fresh _ (Nat.lt_succ_self _), start]
  · simp [isConnected, (t.server.untouched_accept hc).session]

theorem Guarded.accept {t : Threads} (h : t.Guarded) :
    Guarded { t with server := t.server.accept } := by
  refine ⟨fun c hc => ?_, fun c topic hc => ?_, fun c task hc => ?_⟩
  · have hlt : t.server.connectionCounter + 1 < c := hc
    exact (t.server.untouched_accept (Nat.ne_of_gt hlt)).session.trans
      (h.fresh c (Nat.lt_of_succ_lt hlt))
  · exact (h.isConnected_accept c).trans (h.subscribed c topic hc)
  · obtain ⟨p, hp, hprogress⟩ := h.progress c task hc
    exact ⟨p, h.lookup_accept hp, hprogress⟩

theorem Guarded.process {t : Threads} (h : t.Guarded) {c : ConnectionId} {p : Session}
    (hp : t.server.sessions.lookup c = some p) (f : StompFrame) :
    Guarded { t with running := Function.update t.running c (some ⟨f, p.process f⟩) } := by
  refine ⟨h.fresh, h.subscribed, fun d task hd => ?_⟩
  obtain ⟨rfl, rfl⟩ | ⟨-, hd⟩ := running_update hd
  · obtain rfl := t.server.ids d p hp
    exact ⟨p, hp, progress_process _ p f⟩
  · exact h.progress d task hd

theorem Guarded.disconnect {t : Threads} (h : t.Guarded) (c : ConnectionId) :
    Guarded { t with server := t.server.setConnections (t.server.connections.disconnect c) } := by
  refine ⟨h.fresh, fun d topic hd => h.subscribed d topic fun hnone => hd ?_, h.progress⟩
  show (t.server.connections.disconnect c).subscription topic d = none
  rw [ConnectionsImpl.subscription_disconnect, hnone, ite_self]

theorem Progress.session {s : Server} {c : ConnectionId} {p : Session} {f : StompFrame} {k : Call}
    {rest : Reply k → Handler} (hp : s.sessions.lookup c = some p)
    (h : Progress s.connections.users c f p.connected (.call k rest)) :
    let r := Server.answer k (s, [])
    ∃ p' : Session, r.2.1.sessions.lookup c = some p' ∧
      (∀ d, d ≠ c → r.2.1.sessions.lookup d = s.sessions.lookup d) ∧
      Progress r.2.1.connections.users c f p'.connected (rest r.1) ∧
      (p.connected = true → p'.connected = true) ∧
      (p.connected = false → p'.connected = true → ∃ login passcode, f.Credentials login passcode ∧
        r.2.1.connections.users.lookup login = some passcode) ∧
      ∀ topic d i, k = .addSubscription topic d i → d = c ∧ p.connected = true := by
  have hsessions := sessions_answer s k
  obtain ⟨hwithin, hrest⟩ | ⟨-, q, login, passcode, rfl, hid, hq, hf, hu, hrest⟩ := h.call
  · have hadd : ∀ topic d i, k = .addSubscription topic d i → d = c ∧ p.connected = true := by
      rintro topic d i rfl
      exact hwithin
    have hstill : ∀ p' : Session, p'.connected = p.connected → p.connected = false →
        p'.connected = true → ∃ login passcode, f.Credentials login passcode ∧
          (Server.answer k (s, [])).2.1.connections.users.lookup login = some passcode := by
      intro p' hsame hno hcon
      rw [hsame, hno] at hcon
      cases hcon
    by_cases hput : ∃ q, k = .put q
    · obtain ⟨q, rfl⟩ := hput
      obtain ⟨hid, hq⟩ := hwithin
      simp only [hid] at hsessions
      exact ⟨q, by rw [hsessions, if_pos rfl], fun d hd => by rw [hsessions, if_neg hd], hq ▸ hrest,
        fun hcon => hq.trans hcon, hstill q hq, hadd⟩
    · have hsame : ∀ d, (Server.answer k (s, [])).2.1.sessions.lookup d = s.sessions.lookup d := by
        intro d
        rw [hsessions]
        cases k with
        | put q => exact absurd ⟨q, rfl⟩ hput
        | send | disconnect | authenticateUser | isUserActive | getNextMessageId
        | addSubscription | removeSubscription | getSubscribers => rfl
      exact ⟨p, (hsame c).trans hp, fun d _ => hsame d, hrest, id, hstill p rfl, hadd⟩
  · simp only [hid] at hsessions
    refine ⟨q, by rw [hsessions, if_pos rfl], fun d hd => by rw [hsessions, if_neg hd], ?_,
      fun _ => hq, fun _ _ => ⟨login, passcode, hf, hu⟩, fun _ _ _ heq => by cases heq⟩
    rw [hq]
    exact hrest

theorem Guarded.call {t : Threads} (h : t.Guarded) {c : ConnectionId} {f : StompFrame} {k : Call}
    {rest : Reply k → Handler} (hrun : t.running c = some ⟨f, .call k rest⟩) :
    Guarded ⟨(Server.answer k (t.server, [])).2.1,
      Function.update t.running c (some ⟨f, rest (Server.answer k (t.server, [])).1⟩)⟩ := by
  obtain ⟨p, hp, hprogress⟩ := h.progress c _ hrun
  obtain ⟨p', hp', hother, hrest, hstays, -, hadd⟩ := hprogress.session hp
  refine ⟨fun d hd => ?_, fun d topic hd => ?_, fun d task hd => ?_⟩
  · have hcounter : (Server.answer k (t.server, [])).2.1.connectionCounter =
        t.server.connectionCounter := by cases k <;> rfl
    have hnone := h.fresh d (hcounter ▸ hd)
    refine (hother d ?_).trans hnone
    rintro rfl
    rw [hp] at hnone
    cases hnone
  · have hold : t.isConnected d = true := by
      rcases subscription_answer hd with hd | ⟨i, rfl⟩
      · exact h.subscribed d topic hd
      · obtain ⟨rfl, hcon⟩ := hadd topic d i rfl
        exact (isConnected_of_session hp).trans hcon
    by_cases hdc : d = c
    · subst hdc
      exact (isConnected_of_session hp').trans
        (hstays ((isConnected_of_session hp).symm.trans hold))
    · simpa [isConnected, hother d hdc] using hold
  · obtain ⟨rfl, rfl⟩ | ⟨hdc, hd⟩ := running_update hd
    · exact ⟨p', hp', hrest⟩
    · obtain ⟨r, hr, hprog⟩ := h.progress d task hd
      exact ⟨r, (hother d hdc).trans hr, hprog.mono fun u w hu => users_answer k hu⟩

theorem Progress.iterate {users : Table Text Text} {c : ConnectionId} {f : StompFrame}
    {connected : Bool} {topic : Text} {rest : List ((_ : ConnectionId) × Int) → Handler}
    (h : Progress users c f connected (.call (.getSubscribers topic) rest))
    (entries : List ((_ : ConnectionId) × Int)) : Progress users c f connected (rest entries) := by
  generalize hrest : (Prog.call (Call.getSubscribers topic) rest : Handler) = handler at h
  cases h with
  | within h =>
    subst hrest
    exact .within (h.2 entries)
  | checkActive | authenticate | connect => cases hrest

theorem Guarded.iterate {t : Threads} (h : t.Guarded) {c : ConnectionId} {f : StompFrame}
    {topic : Text} {rest : List ((_ : ConnectionId) × Int) → Handler}
    (hrun : t.running c = some ⟨f, .call (.getSubscribers topic) rest⟩)
    (entries : List ((_ : ConnectionId) × Int)) :
    Guarded { t with running := Function.update t.running c (some ⟨f, rest entries⟩) } := by
  refine ⟨h.fresh, h.subscribed, fun d task hd => ?_⟩
  obtain ⟨rfl, rfl⟩ | ⟨-, hd⟩ := running_update hd
  · obtain ⟨p, hp, hprogress⟩ := h.progress d _ hrun
    exact ⟨p, hp, hprogress.iterate entries⟩
  · exact h.progress d task hd

theorem Guarded.step {t t' : Threads} {e : ThreadEvent} (h : t.Guarded) (hs : t.next e = some t') :
    t'.Guarded := by
  obtain ⟨rfl, rfl⟩ | ⟨c, f, p, rfl, -, hp, rfl⟩ | ⟨c, f, k, rest, rfl, hrun, rfl⟩ |
    ⟨c, f, topic, rest, entries, rfl, hrun, rfl⟩ | ⟨c, rfl, rfl⟩ := next_cases hs
  · exact h.accept
  · exact h.process hp f
  · exact h.call hrun
  · exact h.iterate hrun entries
  · exact h.disconnect c

theorem Guarded.authentic {t : Threads} {c : ConnectionId} {e : ThreadEvent} (h : t.Guarded)
    (hl : LogsIn c (t, e)) : Authentic c (t, e) := by
  -- Only a CONNECT with a stored login and passcode sets `connected`.
  obtain ⟨hno, hyes⟩ := hl
  dsimp only at hno hyes
  obtain ⟨t', hs, hcon⟩ := (Option.any_eq_true _ _).mp hyes
  obtain ⟨rfl, rfl⟩ | ⟨d, f, p, rfl, -, hp, rfl⟩ | ⟨d, f, k, rest, rfl, hrun, rfl⟩ |
    ⟨d, f, topic, rest, entries, rfl, -, rfl⟩ | ⟨d, rfl, rfl⟩ := next_cases hs
  · rw [h.isConnected_accept, hno] at hcon
    cases hcon
  · exact absurd (hno.symm.trans hcon) (by decide)
  · obtain ⟨p, hp, hprogress⟩ := h.progress d _ hrun
    obtain ⟨p', hp', hother, -, -, hlogin, -⟩ := hprogress.session hp
    by_cases hdc : c = d
    · subst hdc
      obtain ⟨login, passcode, hf, hu⟩ := hlogin ((isConnected_of_session hp).symm.trans hno)
        ((isConnected_of_session hp').symm.trans hcon)
      exact ⟨_, login, passcode, _, rfl, hrun, hf, hs, hu⟩
    · simp only [isConnected, hother c hdc] at hno hcon
      rw [hno] at hcon
      cases hcon
  · exact absurd (hno.symm.trans hcon) (by decide)
  · exact absurd (hno.symm.trans hcon) (by decide)

theorem users_next {t t' : Threads} {e : ThreadEvent} (hs : t.next e = some t') {u w : Text}
    (hu : t.server.connections.users.lookup u = some w) :
    t'.server.connections.users.lookup u = some w := by
  obtain ⟨rfl, rfl⟩ | ⟨c, f, p, rfl, -, hp, rfl⟩ | ⟨c, f, k, rest, rfl, hrun, rfl⟩ |
    ⟨c, f, topic, rest, entries, rfl, -, rfl⟩ | ⟨c, rfl, rfl⟩ := next_cases hs
  · exact hu
  · exact hu
  · exact users_answer k hu
  · exact hu
  · exact hu

theorem Guarded.sender {t : Threads} (h : t.Guarded) {e : ThreadEvent} {c d : ConnectionId}
    {f msg : StompFrame} (hcall : called (t, e) = some (c, f, .send d msg))
    (hm : msg.command = "MESSAGE".toList) : t.isConnected c = true := by
  unfold called at hcall
  split at hcall
  · next t c' heq =>
    cases heq
    split at hcall
    · next f' k rest hrun =>
      cases hcall
      obtain ⟨p, hp, hprogress⟩ := h.progress _ _ hrun
      refine (isConnected_of_session hp).trans ?_
      obtain ⟨hwithin, -⟩ | ⟨-, q, login, passcode, heq, -⟩ := hprogress.call
      · exact hwithin hm
      · cases heq
    · cases hcall
  · split at hcall <;> cases hcall
  · cases hcall

/-! ## Whole runs -/

theorem guarded_run {trace : List (Threads × ThreadEvent)} {t : Threads} (h : runs.Run trace t) :
    t.Guarded := by
  refine System.Run.inv Guarded ⟨fun _ _ => rfl, fun c topic hc => absurd rfl hc, ?_⟩
    (fun _ _ _ hg hs => hg.step hs) h
  intro c task hc
  cases hc

theorem passed_run {trace : List (Threads × ThreadEvent)} {t : Threads} (h : runs.Run trace t)
    {c : ConnectionId} (hc : t.isConnected c = true) : Passed c trace := by
  induction h with
  | nil => cases hc
  | @snoc trace t e t' hr hs ih =>
    cases hold : t.isConnected c with
    | true =>
      obtain ⟨x, hx, hpassed⟩ := ih hold
      exact ⟨x, List.mem_append_left _ hx, hpassed⟩
    | false =>
      have hnext : t.next e = some t' := hs
      have hl : LogsIn c (t, e) := ⟨hold, by dsimp only; rw [hnext]; exact hc⟩
      exact ⟨_, List.mem_append_right _ (List.mem_singleton_self _), hl, (guarded_run hr).authentic hl⟩

theorem users_run {trace pre post : List (Threads × ThreadEvent)} {e : Threads × ThreadEvent}
    {t : Threads} (h : runs.Run trace t) (heq : trace = pre ++ e :: post) {u w : Text}
    (hu : e.1.server.connections.users.lookup u = some w) :
    t.server.connections.users.lookup u = some w :=
  h.after (fun t => t.server.connections.users.lookup u = some w) heq
    (fun _ hs => users_next hs hu) fun _ _ _ hx hs => users_next hs hx

/-- Passwords stay, and whoever is logged in, subscribes or sends passed a CONNECT with a stored
login and passcode. -/
theorem authenticated {trace : List (Threads × ThreadEvent)} {t : Threads} (h : runs.Run trace t) :
    (∀ e ∈ trace, ∀ u w, e.1.server.connections.users.lookup u = some w →
      t.server.connections.users.lookup u = some w) ∧
    (∀ e ∈ trace, ∀ c, LogsIn c e → Authentic c e) ∧
    (∀ c topic, t.server.connections.subscription topic c ≠ none → Passed c trace) ∧
    ∀ pre e post, trace = pre ++ e :: post → ∀ c f d msg, called e = some (c, f, .send d msg) →
      msg.command = "MESSAGE".toList → Passed c pre := by
  refine ⟨fun e he u w hu => ?_, fun e he c hl => ?_, fun c topic hc => ?_, ?_⟩
  · obtain ⟨pre, post, rfl⟩ := List.append_of_mem he
    exact users_run h rfl hu
  · obtain ⟨pre, post, rfl⟩ := List.append_of_mem he
    exact (guarded_run (h.split rfl).1).authentic hl
  · exact passed_run h ((guarded_run h).subscribed c topic hc)
  · intro pre e post heq c f d msg hcall hm
    have hr := (h.split heq).1
    exact passed_run hr ((guarded_run hr).sender hcall hm)

theorem authenticated_subscriber : ∃ trace t, runs.Run trace t ∧
    t.server.connections.subscription "t".toList 1 = some 5 ∧ Passed 1 trace := by
  obtain ⟨trace, t, hr, ht⟩ := System.exists_run (M := runs)
    ([.accept, .process 1 (Server.connectFrame "u" "p")] ++ List.replicate 4 (.call 1) ++
      [.process 1 (Server.subscribeFrame "t" "5")] ++ List.replicate 2 (.call 1))
    (fun _ t => decide (t.server.connections.subscription "t".toList 1 = some 5)) (by decide)
  rw [decide_eq_true_eq] at ht
  refine ⟨trace, t, hr, ht, (authenticated hr).2.2.1 1 "t".toList ?_⟩
  rw [ht]
  simp

end Threads

end Stomp
