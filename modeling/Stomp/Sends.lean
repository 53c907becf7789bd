import Stomp.Authentication

/-!
# SENDs side by side

A SEND draws its message id and reads the subscribers in two calls, and then sends one MESSAGE
after the other. The calls of the other threads come in between, and the loop goes through the map
of the subscribers while they change it: it may be given other entries than the map had when it was
read, and a connection that leaves and comes back may be given twice.
-/

namespace Stomp

open StompMessagingProtocolImpl

namespace Threads

/-- The connection, the frame and the id of a step that draws a message id. -/
def draws (e : Threads × ThreadEvent) : Option (ConnectionId × StompFrame × Int) :=
  match called e with
  | some (c, f, .getNextMessageId) => some (c, f, e.1.server.connections.getNextMessageId.1)
  | _ => none

def drawCount (trace : List (Threads × ThreadEvent)) : Nat := trace.countP fun e => (draws e).isSome

/-- The sender, the receiver and the frame of a MESSAGE that a step passes to `Connections.send`. -/
def messageSent (e : Threads × ThreadEvent) : Option (ConnectionId × ConnectionId × StompFrame) :=
  match called e with
  | some (c, _, .send d msg) => if msg.command = "MESSAGE".toList then some (c, d, msg) else none
  | _ => none

def carries (i : Int) (msg : StompFrame) : Bool :=
  decide (msg.getHeader "message-id".toList = some (Decimal.valueOf i))

/-- The MESSAGEs with this id, with their receivers. -/
def sentWith (i : Int) (trace : List (Threads × ThreadEvent)) : List (ConnectionId × StompFrame) :=
  ((trace.filterMap messageSent).map (·.2)).filter fun m => carries i m.2

/-- The thread of the connection begins a frame. -/
def Begins (c : ConnectionId) (e : Threads × ThreadEvent) : Prop := ∃ f, e.2 = .process c f

/-- The thread of the connection makes a call. -/
def Moves (c : ConnectionId) (e : Threads × ThreadEvent) : Prop :=
  e.2 = .call c ∨ ∃ entries, e.2 = .iterate c entries

/-- The connection, the frame and the topic of a step that reads subscribers, and the entries that
its loop is given. -/
def given (e : Threads × ThreadEvent) :
    Option (ConnectionId × StompFrame × Text × List ((_ : ConnectionId) × Int)) :=
  match called e with
  | some (c, f, .getSubscribers topic) => some (c, f, topic,
    match e.2 with
    | .iterate _ entries => entries
    | _ => AList.entries (e.1.server.connections.getSubscribers topic))
  | _ => none

/-- What a SEND with this id passes to `send`, for these entries. -/
def messages (topic : Text) (i : Int) (body : Text) (entries : List ((_ : ConnectionId) × Int)) :
    List (ConnectionId × StompFrame) :=
  entries.map fun e => (e.1, messageFrame topic e.2 i body)

/-! ## The calls of a SEND -/

/-- No call of a SEND that is carried out: the thread answers its own connection at most. -/
def Silent (c : ConnectionId) : Call → Prop
  | .getNextMessageId => False
  | .getSubscribers _ => False
  | .send d msg => d = c ∧ msg.command ≠ "MESSAGE".toList
  | _ => True

/-- After the id was drawn. -/
def readSubscribers (topic : Text) (i : Int) (body : Text) : Handler :=
  .call (.getSubscribers topic) fun subscribers => sendMessages topic i body subscribers

def drawId (topic : Text) (body : Text) : Handler :=
  .call .getNextMessageId fun i => readSubscribers topic i body

section Silent

variable (p : Session) (f : StompFrame)

theorem silent_sendError (reason : Text) (receiptId : Option Text) :
    (p.sendError reason receiptId f).Calls (Silent p.connectionId) := by
  refine ⟨⟨rfl, ?_⟩, fun _ => ⟨trivial, fun _ => trivial⟩⟩
  show "ERROR".toList ≠ _
  decide

theorem silent_sendReceipt (receiptId : Option Text) :
    (sendReceiptIfRequested p receiptId).Calls (Silent p.connectionId) := by
  cases receiptId with
  | none => trivial
  | some r =>
    refine ⟨⟨rfl, ?_⟩, fun _ => trivial⟩
    show "RECEIPT".toList ≠ _
    decide

theorem silent_removeSubscriptions (topics : List Text) :
    (removeSubscriptions p topics).Calls (Silent p.connectionId) := by
  induction topics with
  | nil => trivial
  | cons topic topics ih => exact ⟨trivial, fun _ => ih⟩

theorem silent_handleConnect : (handleConnect p f).Calls (Silent p.connectionId) := by
  obtain ⟨reason, heq⟩ | ⟨-, login, passcode, -, heq⟩ := handleConnect_cases p f
  · rw [heq]
    apply silent_sendError
  rw [heq]
  refine ⟨trivial, fun active => Prog.calls_ite (fun _ => silent_sendError p f _ _) fun _ => ?_⟩
  refine ⟨trivial, fun right => Prog.calls_ite (fun _ => silent_sendError p f _ _) fun _ => ?_⟩
  refine ⟨trivial, fun _ => ⟨⟨rfl, ?_⟩, fun _ => silent_sendReceipt _ _⟩⟩
  show "CONNECTED".toList ≠ _
  decide

theorem silent_handleSubscribe : (handleSubscribe p f).Calls (Silent p.connectionId) := by
  unfold handleSubscribe
  split
  · apply silent_sendError
  split
  · split
    · apply silent_sendError
    · exact ⟨trivial, fun _ => ⟨trivial, fun _ => silent_sendReceipt _ _⟩⟩
  · apply silent_sendError

theorem silent_handleUnsubscribe : (handleUnsubscribe p f).Calls (Silent p.connectionId) := by
  unfold handleUnsubscribe
  split
  · apply silent_sendError
  split
  · apply silent_sendError
  split
  · apply silent_sendError
  split
  · apply silent_sendError
  · exact ⟨trivial, fun _ => ⟨trivial, fun _ => silent_sendReceipt _ _⟩⟩

theorem silent_handleDisconnect : (handleDisconnect p f).Calls (Silent p.connectionId) := by
  unfold handleDisconnect
  split
  · apply silent_sendError
  rw [Prog.op_bind]
  refine ⟨trivial, fun _ => Prog.calls_bind
    (silent_removeSubscriptions { p with shouldTerminate := true } _) fun _ => ?_⟩
  rw [Prog.op_bind]
  refine ⟨trivial, fun _ => Prog.calls_bind
    (silent_sendReceipt { p with shouldTerminate := true, clientSubscriptions := ∅ } _) fun _ => ?_⟩
  exact ⟨trivial, fun _ => trivial⟩

theorem handleSend_cases : (handleSend p f).Calls (Silent p.connectionId) ∨
    ∃ topic, f.getHeader "destination".toList = some topic ∧
      handleSend p f = drawId topic f.body := by
  unfold handleSend
  split
  · exact .inl (silent_sendError p f _ _)
  split
  · exact .inl (silent_sendError p f _ _)
  · next topic htopic =>
    split
    · exact .inl (silent_sendError p f _ _)
    · exact .inr ⟨topic, htopic, rfl⟩

theorem process_sends : (p.process f).Calls (Silent p.connectionId) ∨
    f.command = "SEND".toList ∧ ∃ topic, f.getHeader "destination".toList = some topic ∧
      p.process f = drawId topic f.body := by
  unfold StompMessagingProtocolImpl.process
  split
  · exact .inl (silent_handleConnect p f)
  split
  · next hsend => exact (handleSend_cases p f).imp id fun h => ⟨hsend, h⟩
  split
  · exact .inl (silent_handleSubscribe p f)
  split
  · exact .inl (silent_handleUnsubscribe p f)
  split
  · exact .inl (silent_handleDisconnect p f)
  · exact .inl (silent_sendError p f _ _)

end Silent

/-! ## One call -/

/-- What is left of a handler, with the id that it has drawn. -/
inductive Sending (f : StompFrame) : Option Int → Handler → Prop
  | silent {rest c} (h : rest.Calls (Silent c)) : Sending f none rest
  | draw {topic} (hd : f.getHeader "destination".toList = some topic) :
    Sending f none (drawId topic f.body)
  | read {topic i} (hd : f.getHeader "destination".toList = some topic) :
    Sending f (some i) (readSubscribers topic i f.body)
  | send {topic i entries} (hd : f.getHeader "destination".toList = some topic) :
    Sending f (some i) (sendMessages topic i f.body entries)

theorem sending_process (p : Session) (f : StompFrame) : Sending f none (p.process f) := by
  obtain h | ⟨-, topic, hd, heq⟩ := process_sends p f
  · exact .silent h
  · rw [heq]
    exact .draw hd

theorem Sending.call {f : StompFrame} {o : Option Int} {k : Call} {rest : Reply k → Handler}
    (h : Sending f o (.call k rest)) (s : Server) :
    (o = none ∧ ∃ c, Silent c k ∧ ∀ r, (rest r).Calls (Silent c)) ∨
    ∃ topic, f.getHeader "destination".toList = some topic ∧
      ((o = none ∧ k = .getNextMessageId ∧ rest (Server.answer k (s, [])).1 =
        readSubscribers topic s.connections.getNextMessageId.1 f.body) ∨
      (∃ i, o = some i ∧ k = .getSubscribers topic ∧ rest (Server.answer k (s, [])).1 =
        sendMessages topic i f.body (AList.entries (s.connections.getSubscribers topic))) ∨
      ∃ (i : Int) (e : (_ : ConnectionId) × Int) (entries : List ((_ : ConnectionId) × Int)),
        o = some i ∧ k = .send e.1 (messageFrame topic e.2 i f.body) ∧
        rest (Server.answer k (s, [])).1 = sendMessages topic i f.body entries) := by
  generalize hrest : Prog.call k rest = handler at h
  cases h with
  | silent h =>
    subst hrest
    exact .inl ⟨rfl, _, h.1, h.2⟩
  | draw hd =>
    cases hrest
    exact .inr ⟨_, hd, .inl ⟨rfl, rfl, rfl⟩⟩
  | read hd =>
    cases hrest
    exact .inr ⟨_, hd, .inr (.inl ⟨_, rfl, rfl, rfl⟩)⟩
  | @send topic i entries hd =>
    cases entries with
    | nil => cases hrest
    | cons e entries =>
      cases hrest
      exact .inr ⟨_, hd, .inr (.inr ⟨i, e, entries, rfl, rfl, rfl⟩)⟩

theorem Sending.iterate {f : StompFrame} {o : Option Int} {topic : Text}
    {rest : List ((_ : ConnectionId) × Int) → Handler}
    (h : Sending f o (.call (.getSubscribers topic) rest)) :
    f.getHeader "destination".toList = some topic ∧
      ∃ i, o = some i ∧ rest = sendMessages topic i f.body := by
  generalize hrest : (Prog.call (Call.getSubscribers topic) rest : Handler) = handler at h
  cases h with
  | silent h =>
    subst hrest
    exact h.1.elim
  | draw => cases hrest
  | read hd =>
    cases hrest
    exact ⟨hd, _, rfl, rfl⟩
  | @send topic i entries hd => cases entries <;> cases hrest

theorem messageCounter_answer (s : Server) (k : Call) :
    (Server.answer k (s, [])).2.1.connections.messageCounter =
      match k with
      | .getNextMessageId => Decimal.wrap (s.connections.messageCounter + 1)
      | _ => s.connections.messageCounter := by
  cases k with
  | authenticateUser c u w => exact (s.connections.authenticateUser_fields c u w).2.2
  | removeSubscription topic c => exact (s.connections.removeSubscription_fields topic c).2.2.2
  | put | send | disconnect | isUserActive | getNextMessageId | addSubscription | getSubscribers => rfl

theorem draws_call {t : Threads} {c : ConnectionId} {f : StompFrame} {k : Call}
    {rest : Reply k → Handler} (hrun : t.running c = some ⟨f, .call k rest⟩) :
    draws (t, .call c) = match k with
      | .getNextMessageId => some (c, f, t.server.connections.getNextMessageId.1)
      | _ => none := by
  unfold draws
  rw [called_call hrun]
  cases k <;> rfl

theorem messageSent_call {t : Threads} {c : ConnectionId} {f : StompFrame} {k : Call}
    {rest : Reply k → Handler} (hrun : t.running c = some ⟨f, .call k rest⟩) :
    messageSent (t, .call c) = match k with
      | .send d msg => if msg.command = "MESSAGE".toList then some (c, d, msg) else none
      | _ => none := by
  unfold messageSent
  rw [called_call hrun]
  cases k <;> rfl

theorem given_call {t : Threads} {c : ConnectionId} {f : StompFrame} {topic : Text}
    {rest : List ((_ : ConnectionId) × Int) → Handler}
    (hrun : t.running c = some ⟨f, .call (.getSubscribers topic) rest⟩) : given (t, .call c) =
      some (c, f, topic, AList.entries (t.server.connections.getSubscribers topic)) := by
  unfold given
  rw [called_call hrun]

theorem given_iterate {t : Threads} {c : ConnectionId} {f : StompFrame} {topic : Text}
    {rest : List ((_ : ConnectionId) × Int) → Handler}
    (hrun : t.running c = some ⟨f, .call (.getSubscribers topic) rest⟩)
    (entries : List ((_ : ConnectionId) × Int)) :
    given (t, .iterate c entries) = some (c, f, topic, entries) := by
  unfold given
  rw [called_iterate hrun]

theorem given_eq {x : Threads × ThreadEvent} {c : ConnectionId} {f : StompFrame} {topic : Text}
    {entries : List ((_ : ConnectionId) × Int)} (h : given x = some (c, f, topic, entries))
    (hx : x.2 = .call c) : entries = AList.entries (x.1.server.connections.getSubscribers topic) := by
  obtain ⟨t, e⟩ := x
  cases hx
  unfold given at h
  split at h
  · cases h
    rfl
  · cases h

/-! ## One step -/

/-- The counter counts the draws, and a SEND sends under the id that it drew. -/
structure Sends (trace : List (Threads × ThreadEvent)) (t : Threads) : Prop where
  counter : t.server.connections.messageCounter = Decimal.wrap (drawCount trace)
  stage : ∀ c task, t.running c = some task → ∃ o, Sending task.message o task.rest ∧
    ∀ i, o = some i → Since (fun e => draws e = some (c, task.message, i)) (Begins c) trace

theorem drawCount_snoc (trace : List (Threads × ThreadEvent)) (e : Threads × ThreadEvent) :
    drawCount (trace ++ [e]) = drawCount trace + if (draws e).isSome then 1 else 0 := by
  simp [drawCount, List.countP_append, List.countP_cons]

theorem Sends.keep {trace : List (Threads × ThreadEvent)} {t t' : Threads} {e : ThreadEvent}
    (h : Sends trace t) (hd : draws (t, e) = none)
    (hcounter : t'.server.connections.messageCounter = t.server.connections.messageCounter)
    (hstage : ∀ c task, t'.running c = some task →
      (t.running c = some task ∧ ¬ Begins c (t, e)) ∨ Sending task.message none task.rest) :
    Sends (trace ++ [(t, e)]) t' := by
  refine ⟨?_, fun c task hc => ?_⟩
  · rw [hcounter, drawCount_snoc, hd, h.counter]
    simp
  · rcases hstage c task hc with ⟨hc, hb⟩ | hnone
    · obtain ⟨o, ho, hsince⟩ := h.stage c task hc
      refine ⟨o, ho, fun i hi => ?_⟩
      rw [since_snoc]
      exact .inr ⟨hsince i hi, hb⟩
    · refine ⟨none, hnone, ?_⟩
      simp

theorem Sends.goOn {trace : List (Threads × ThreadEvent)} {t : Threads} {e : ThreadEvent}
    (h : Sends trace t) (hbegins : ∀ d, ¬ Begins d (t, e)) {c : ConnectionId} {f : StompFrame}
    {rest : Handler} {o : Option Int} (ho : Sending f o rest)
    (hsince : ∀ i, o = some i → Since (fun e => draws e = some (c, f, i)) (Begins c)
      (trace ++ [(t, e)])) (d : ConnectionId) (task : Task)
    (hd : Function.update t.running c (some ⟨f, rest⟩) d = some task) :
    ∃ o, Sending task.message o task.rest ∧ ∀ i, o = some i →
      Since (fun e => draws e = some (d, task.message, i)) (Begins d) (trace ++ [(t, e)]) := by
  obtain ⟨rfl, rfl⟩ | ⟨-, hd⟩ := running_update hd
  · exact ⟨o, ho, hsince⟩
  · obtain ⟨o, ho, hs⟩ := h.stage d task hd
    refine ⟨o, ho, fun i hi => ?_⟩
    rw [since_snoc]
    exact .inr ⟨hs i hi, hbegins d⟩

theorem Sends.call {trace : List (Threads × ThreadEvent)} {t : Threads} (h : Sends trace t)
    {c : ConnectionId} {f : StompFrame} {k : Call} {rest : Reply k → Handler}
    (hrun : t.running c = some ⟨f, .call k rest⟩) :
    Sends (trace ++ [(t, .call c)]) ⟨(Server.answer k (t.server, [])).2.1,
      Function.update t.running c (some ⟨f, rest (Server.answer k (t.server, [])).1⟩)⟩ := by
  obtain ⟨o, ho, hsince⟩ := h.stage c _ hrun
  dsimp only at ho hsince
  have hdraws := draws_call hrun
  have hcounter := messageCounter_answer t.server k
  have hbegins : ∀ d, ¬ Begins d (t, .call c) := by
    rintro d ⟨g, hg⟩
    cases hg
  have hstill : ∀ i, o = some i → Since (fun e => draws e = some (c, f, i)) (Begins c)
      (trace ++ [(t, .call c)]) := by
    intro i hi
    rw [since_snoc]
    exact .inr ⟨hsince i hi, hbegins c⟩
  obtain ⟨rfl, _, hsilent, hrest⟩ | ⟨topic, hd, ⟨rfl, rfl, hrest⟩ | ⟨i, rfl, rfl, hrest⟩ |
    ⟨i, e, entries, rfl, rfl, hrest⟩⟩ := ho.call t.server
  · refine ⟨?_, h.goOn hbegins (.silent (hrest _)) (by simp)⟩
    have hnone : draws (t, .call c) = none ∧ (Server.answer k (t.server, [])).2.1.connections.messageCounter
        = t.server.connections.messageCounter := by
      cases k with
      | getNextMessageId => exact hsilent.elim
      | put | send | disconnect | authenticateUser | isUserActive | addSubscription
      | removeSubscription | getSubscribers => exact ⟨hdraws, hcounter⟩
    dsimp only
    rw [hnone.2, drawCount_snoc, hnone.1, h.counter]
    simp
  · refine ⟨?_, h.goOn hbegins (o := some t.server.connections.getNextMessageId.1)
      (hrest ▸ .read hd) ?_⟩
    · dsimp only
      rw [hcounter, drawCount_snoc, hdraws, h.counter]
      exact Decimal.wrap_wrap_succ _
    · intro i hi
      cases hi
      rw [since_snoc]
      exact .inl hdraws
  · refine ⟨?_, h.goOn hbegins (o := some i) (hrest ▸ .send hd) hstill⟩
    dsimp only
    rw [hcounter, drawCount_snoc, hdraws, h.counter]
    simp
  · refine ⟨?_, h.goOn hbegins (o := some i) (hrest ▸ .send hd) hstill⟩
    dsimp only
    rw [hcounter, drawCount_snoc, hdraws, h.counter]
    simp

theorem draws_iterate (t : Threads) (c : ConnectionId) (entries : List ((_ : ConnectionId) × Int)) :
    draws (t, .iterate c entries) = none := by
  unfold draws
  obtain h | ⟨f, topic, h⟩ := called_iterate_cases t c entries <;> rw [h]

theorem messageSent_iterate (t : Threads) (c : ConnectionId)
    (entries : List ((_ : ConnectionId) × Int)) : messageSent (t, .iterate c entries) = none := by
  unfold messageSent
  obtain h | ⟨f, topic, h⟩ := called_iterate_cases t c entries <;> rw [h]

theorem Sends.iterate {trace : List (Threads × ThreadEvent)} {t : Threads} (h : Sends trace t)
    {c : ConnectionId} {f : StompFrame} {topic : Text}
    {rest : List ((_ : ConnectionId) × Int) → Handler}
    (hrun : t.running c = some ⟨f, .call (.getSubscribers topic) rest⟩)
    (entries : List ((_ : ConnectionId) × Int)) : Sends (trace ++ [(t, .iterate c entries)])
      { t with running := Function.update t.running c (some ⟨f, rest entries⟩) } := by
  have hbegins : ∀ d, ¬ Begins d (t, .iterate c entries) := by
    rintro d ⟨g, hg⟩
    cases hg
  obtain ⟨o, ho, hsince⟩ := h.stage c _ hrun
  dsimp only at ho hsince
  obtain ⟨hd, i, rfl, rfl⟩ := ho.iterate
  refine ⟨?_, h.goOn hbegins (o := some i) (.send hd) fun j hj => ?_⟩
  · rw [drawCount_snoc, draws_iterate]
    exact h.counter
  · rw [since_snoc]
    exact .inr ⟨hsince j hj, hbegins c⟩

theorem Sends.step {trace : List (Threads × ThreadEvent)} {t t' : Threads} {e : ThreadEvent}
    (h : Sends trace t) (hs : t.next e = some t') : Sends (trace ++ [(t, e)]) t' := by
  have hnot : ∀ {e : ThreadEvent} c, (∀ f, e ≠ .process c f) → ¬ Begins c (t, e) :=
    fun _ hne ⟨f, hf⟩ => hne f hf
  obtain ⟨rfl, rfl⟩ | ⟨d, f, p, rfl, -, -, rfl⟩ | ⟨d, f, k, rest, rfl, hrun, rfl⟩ |
    ⟨d, f, topic, rest, entries, rfl, hrun, rfl⟩ | ⟨d, rfl, rfl⟩ := next_cases hs
  · exact h.keep rfl rfl fun c task hc => .inl ⟨hc, hnot c (by simp)⟩
  · refine h.keep rfl rfl fun c task hc => ?_
    obtain ⟨rfl, rfl⟩ | ⟨hcd, hc⟩ := running_update hc
    · exact .inr (sending_process p f)
    · refine .inl ⟨hc, hnot c fun g hg => hcd ?_⟩
      cases hg
      rfl
  · exact h.call hrun
  · exact h.iterate hrun entries
  · exact h.keep rfl rfl fun c task hc => .inl ⟨hc, hnot c (by simp)⟩

/-! ## Whole runs -/

theorem sends_run {trace : List (Threads × ThreadEvent)} {t : Threads} (h : runs.Run trace t) :
    Sends trace t := by
  induction h with
  | nil => exact ⟨rfl, fun c task hc => by cases hc⟩
  | snoc _ hs ih => exact ih.step hs

theorem draw_number {trace pre post : List (Threads × ThreadEvent)} {e : Threads × ThreadEvent}
    {t : Threads} (h : runs.Run trace t) (heq : trace = pre ++ e :: post) {c : ConnectionId}
    {f : StompFrame} {i : Int} (hd : draws e = some (c, f, i)) :
    i = Decimal.wrap (drawCount pre + 1 : Nat) := by
  have hcounter := (sends_run (h.split heq).1).counter
  unfold draws at hd
  split at hd
  · cases hd
    rw [← Decimal.wrap_wrap_succ, ← hcounter]
    rfl
  · cases hd

theorem drawCount_lt (pre post : List (Threads × ThreadEvent)) {e : Threads × ThreadEvent}
    (hd : (draws e).isSome = true) : drawCount pre < drawCount (pre ++ e :: post) := by
  unfold drawCount
  rw [List.countP_append, List.countP_cons, if_pos hd]
  omega

theorem same_draw {trace pre pre' post post' : List (Threads × ThreadEvent)}
    {e e' : Threads × ThreadEvent} {t : Threads} (h : runs.Run trace t)
    (hfew : drawCount trace < 2 ^ 32) (heq : trace = pre ++ e :: post)
    (heq' : trace = pre' ++ e' :: post') {c c' : ConnectionId} {f f' : StompFrame} {i : Int}
    (hd : draws e = some (c, f, i)) (hd' : draws e' = some (c', f', i)) :
    pre = pre' ∧ e = e' ∧ post = post' := by
  -- No id is drawn twice before the counter comes round.
  have hnumber : drawCount pre = drawCount pre' := by
    have h1 := draw_number h heq hd
    rw [draw_number h heq' hd', Decimal.wrap_nat_inj] at h1
    have hlt := drawCount_lt pre post (by rw [hd]; rfl)
    have hlt' := drawCount_lt pre' post' (by rw [hd']; rfl)
    rw [← heq] at hlt
    rw [← heq'] at hlt'
    omega
  obtain hsame | ⟨mid, rfl, -⟩ | ⟨mid, rfl, -⟩ := System.append_cons_cases (heq.symm.trans heq')
  · exact hsame
  · have := drawCount_lt pre mid (by rw [hd]; rfl)
    omega
  · have := drawCount_lt pre' mid (by rw [hd']; rfl)
    omega

theorem Sends.message {trace : List (Threads × ThreadEvent)} {t : Threads} {e : ThreadEvent}
    (h : Sends trace t) {c d : ConnectionId} {msg : StompFrame}
    (hm : messageSent (t, e) = some (c, d, msg)) : ∃ f topic subscriptionId i,
      f.getHeader "destination".toList = some topic ∧
      msg = messageFrame topic subscriptionId i f.body ∧
      Since (fun e => draws e = some (c, f, i)) (Begins c) trace := by
  -- A MESSAGE is sent by the SEND that its thread is in, under the id that was drawn for it.
  have hcall : ∃ f, called (t, e) = some (c, f, .send d msg) ∧ msg.command = "MESSAGE".toList := by
    unfold messageSent at hm
    split at hm
    · next c' f d' msg' hcalled =>
      split at hm
      · next hcommand =>
        cases hm
        exact ⟨f, hcalled, hcommand⟩
      · cases hm
    · cases hm
  obtain ⟨f, hcalled, hcommand⟩ := hcall
  obtain ⟨rest, -, hrun⟩ := running_of_called hcalled (by simp)
  obtain ⟨o, ho, hsince⟩ := h.stage c _ hrun
  obtain ⟨-, _, hsilent, -⟩ | ⟨topic, hd, ⟨-, hk, -⟩ | ⟨i, -, hk, -⟩ |
    ⟨i, x, entries, hi, hk, -⟩⟩ := ho.call t.server
  · exact absurd hcommand hsilent.2
  · cases hk
  · cases hk
  · rw [Call.send.injEq] at hk
    exact ⟨f, topic, x.2, i, hd, hk.2, hsince i hi⟩

theorem message_drawn {trace : List (Threads × ThreadEvent)} {t : Threads} {x : ThreadEvent}
    (h : runs.Run trace t) {c d : ConnectionId} {msg : StompFrame} {i : Int}
    (hm : messageSent (t, x) = some (c, d, msg)) (hi : Decimal.InRange i)
    (hid : carries i msg = true) : ∃ pre e post f, trace = pre ++ e :: post ∧
      draws e = some (c, f, i) ∧ ∀ y ∈ post, ¬ Begins c y := by
  obtain ⟨f, topic, sid, j, -, rfl, hsince⟩ := (sends_run h).message hm
  obtain ⟨pre, e, post, heq, he, hnone⟩ := (since_iff _ _ _).mp hsince
  have hj : j = i := by
    refine Decimal.valueOf_injective ?_ hi (Option.some.inj (of_decide_eq_true hid))
    rw [draw_number h heq he]
    apply Decimal.inRange_wrap
  subst hj
  exact ⟨pre, e, post, f, heq, he, hnone⟩

theorem inRange_draw {trace pre post : List (Threads × ThreadEvent)} {e : Threads × ThreadEvent}
    {t : Threads} (h : runs.Run trace t) (heq : trace = pre ++ e :: post) {c : ConnectionId}
    {f : StompFrame} {i : Int} (hd : draws e = some (c, f, i)) : Decimal.InRange i := by
  rw [draw_number h heq hd]
  apply Decimal.inRange_wrap

theorem message_same_draw {trace pre mid : List (Threads × ThreadEvent)}
    {e : Threads × ThreadEvent} {t : Threads} {x : ThreadEvent} (h : runs.Run trace t)
    (hfew : drawCount trace < 2 ^ 32) (heq : trace = pre ++ e :: mid) {c c' d : ConnectionId}
    {f msg : StompFrame} {i : Int} (hd : draws e = some (c, f, i))
    (hm : messageSent (t, x) = some (c', d, msg)) (hid : carries i msg = true) :
    c' = c ∧ ∀ y ∈ mid, ¬ Begins c y := by
  obtain ⟨pre', e', post', g, heq', he', hnone⟩ := message_drawn h hm (inRange_draw h heq hd) hid
  obtain ⟨-, rfl, rfl⟩ := same_draw h hfew heq heq' hd he'
  rw [hd] at he'
  cases he'
  exact ⟨rfl, hnone⟩

theorem sentWith_snoc (i : Int) (trace : List (Threads × ThreadEvent)) (e : Threads × ThreadEvent) :
    sentWith i (trace ++ [e]) = sentWith i trace ++
      ((messageSent e).toList.map (·.2)).filter fun m => carries i m.2 := by
  unfold sentWith
  rw [List.filterMap_append, List.map_append, List.filter_append]
  cases h : messageSent e <;> simp [h]

theorem sentWith_quiet {i : Int} {trace : List (Threads × ThreadEvent)} {e : Threads × ThreadEvent}
    (h : ∀ c d msg, messageSent e = some (c, d, msg) → carries i msg = false) :
    sentWith i (trace ++ [e]) = sentWith i trace := by
  rw [sentWith_snoc]
  cases hm : messageSent e with
  | none => simp
  | some m =>
    obtain ⟨c, d, msg⟩ := m
    simp [h c d msg hm]

/-- Where the SEND of a draw stands, with the entries after the draw. -/
inductive Delivers (c : ConnectionId) (f : StompFrame) (topic : Text) (i : Int)
    (mid : List (Threads × ThreadEvent)) (t : Threads) : Prop
  | drawn (hquiet : ∀ y ∈ mid, ¬ Moves c y) (hsent : sentWith i mid = [])
    (hrun : t.running c = some ⟨f, readSubscribers topic i f.body⟩) : Delivers c f topic i mid t
  | read {before x after done left} (heq : mid = before ++ x :: after)
    (hquiet : ∀ y ∈ before, ¬ Moves c y) (hread : given x = some (c, f, topic, done ++ left))
    (hsent : sentWith i mid = done.map fun s => (s.1, messageFrame topic s.2 i f.body))
    (hrun : t.running c = some ⟨f, sendMessages topic i f.body left⟩ ∨
      left = [] ∧ ∃ y ∈ mid, Begins c y) : Delivers c f topic i mid t

theorem Delivers.ofGiven {c : ConnectionId} {f : StompFrame} {topic : Text} {i : Int}
    {before : List (Threads × ThreadEvent)} {x : Threads × ThreadEvent} {t : Threads}
    {entries : List ((_ : ConnectionId) × Int)} (hquiet : ∀ y ∈ before, ¬ Moves c y)
    (hread : given x = some (c, f, topic, entries)) (hsent : sentWith i (before ++ [x]) = [])
    (hrun : t.running c = some ⟨f, sendMessages topic i f.body entries⟩) :
    Delivers c f topic i (before ++ [x]) t := by
  have hall : given x = some (c, f, topic, [] ++ entries) := hread
  exact .read rfl hquiet hall hsent (.inl hrun)

theorem Delivers.quiet {c : ConnectionId} {f : StompFrame} {topic : Text} {i : Int}
    {mid : List (Threads × ThreadEvent)} {t t' : Threads} {e : Threads × ThreadEvent}
    (h : Delivers c f topic i mid t) (hc : ¬ Moves c e)
    (hm : ∀ d r msg, messageSent e = some (d, r, msg) → carries i msg = false)
    (hrun : t'.running c = t.running c ∨ t.idle c = true ∧ Begins c e) :
    Delivers c f topic i (mid ++ [e]) t' := by
  cases h with
  | drawn hquiet hsent hold =>
    refine .drawn ?_ ((sentWith_quiet hm).trans hsent) ?_
    · simpa [or_imp, forall_and, hc] using hquiet
    · rcases hrun with hrun | ⟨hidle, -⟩
      · exact hrun.trans hold
      · rw [idle, hold] at hidle
        cases hidle
  | @read before x after done left heq hquiet hread hsent hold =>
    have hmid : mid ++ [e] = before ++ x :: (after ++ [e]) := by simp [heq]
    refine .read hmid hquiet hread ((sentWith_quiet hm).trans hsent) ?_
    rcases hold with hold | ⟨rfl, y, hy, hb⟩
    · rcases hrun with hrun | ⟨hidle, hb⟩
      · exact .inl (hrun.trans hold)
      · cases left with
        | nil => exact .inr ⟨rfl, e, by simp, hb⟩
        | cons s left =>
          rw [idle, hold] at hidle
          cases hidle
    · exact .inr ⟨rfl, y, List.mem_append_left _ hy, hb⟩

theorem Delivers.own {c : ConnectionId} {f g : StompFrame} {topic : Text} {i : Int}
    {mid : List (Threads × ThreadEvent)} {t : Threads} {k : Call} {rest : Reply k → Handler}
    (h : Delivers c f topic i mid t) (hrun : t.running c = some ⟨g, .call k rest⟩)
    (hm : ∀ d r msg, messageSent (t, .call c) = some (d, r, msg) → carries i msg = true →
      ∀ y ∈ mid, ¬ Begins c y) :
    Delivers c f topic i (mid ++ [(t, .call c)]) ⟨(Server.answer k (t.server, [])).2.1,
      Function.update t.running c (some ⟨g, rest (Server.answer k (t.server, [])).1⟩)⟩ := by
  have hsent := messageSent_call hrun
  cases h with
  | drawn hquiet hnil hold =>
    cases hrun.symm.trans hold
    refine .ofGiven hquiet (given_call hrun) ?_ (Function.update_self _ _ _)
    exact (sentWith_quiet fun d r msg hsome => by rw [hsent] at hsome; cases hsome).trans hnil
  | @read before x after done left heq hquiet hread hdone hold =>
    have hmid : mid ++ [(t, .call c)] = before ++ x :: (after ++ [(t, .call c)]) := by simp [heq]
    rcases hold with hold | ⟨rfl, y, hy, hb⟩
    · cases left with
      | nil => cases hrun.symm.trans hold
      | cons s left =>
        cases hrun.symm.trans hold
        rw [List.append_cons] at hread
        refine .read hmid hquiet hread ?_ (.inl (Function.update_self _ _ _))
        have hcarries : carries i (messageFrame topic s.2 i f.body) = true := decide_eq_true rfl
        have hmessage : messageSent (t, .call c) = some (c, s.1, messageFrame topic s.2 i f.body) :=
          hsent.trans (if_pos rfl)
        rw [sentWith_snoc, hmessage, hdone, List.map_append]
        simp [hcarries]
    · refine .read hmid hquiet hread ((sentWith_quiet fun d r msg hsome => ?_).trans hdone)
        (.inr ⟨rfl, y, List.mem_append_left _ hy, hb⟩)
      by_contra hcarries
      rw [Bool.not_eq_false] at hcarries
      exact hm d r msg hsome hcarries y hy hb

theorem Delivers.iterate {c : ConnectionId} {f g : StompFrame} {topic topic' : Text} {i : Int}
    {mid : List (Threads × ThreadEvent)} {t : Threads}
    {rest : List ((_ : ConnectionId) × Int) → Handler} (h : Delivers c f topic i mid t)
    (hrun : t.running c = some ⟨g, .call (.getSubscribers topic') rest⟩)
    (entries : List ((_ : ConnectionId) × Int)) : Delivers c f topic i (mid ++ [(t, .iterate c entries)])
      { t with running := Function.update t.running c (some ⟨g, rest entries⟩) } := by
  have hnone : sentWith i (mid ++ [(t, .iterate c entries)]) = sentWith i mid :=
    sentWith_quiet fun d r msg hsome => by rw [messageSent_iterate] at hsome; cases hsome
  cases h with
  | drawn hquiet hnil hold =>
    cases hrun.symm.trans hold
    exact .ofGiven hquiet (given_iterate hrun entries) (hnone.trans hnil) (Function.update_self _ _ _)
  | @read before x after done left heq hquiet hread hdone hold =>
    have hmid : mid ++ [(t, .iterate c entries)] = before ++ x :: (after ++ [(t, .iterate c entries)]) := by
      simp [heq]
    refine .read hmid hquiet hread (hnone.trans hdone) ?_
    rcases hold with hold | ⟨rfl, y, hy, hb⟩
    · -- a loop that is under way reads nothing
      cases left <;> cases hrun.symm.trans hold
    · exact .inr ⟨rfl, y, List.mem_append_left _ hy, hb⟩

theorem Delivers.step {pre mid : List (Threads × ThreadEvent)} {e : Threads × ThreadEvent}
    {t t' : Threads} {l : ThreadEvent} {c : ConnectionId} {f : StompFrame} {topic : Text} {i : Int}
    (hr : runs.Run (pre ++ e :: mid) t) (hfew : drawCount (pre ++ e :: mid) < 2 ^ 32)
    (hd : draws e = some (c, f, i)) (h : Delivers c f topic i mid t) (hs : t.next l = some t') :
    Delivers c f topic i (mid ++ [(t, l)]) t' := by
  have hsame : ∀ d r msg, messageSent (t, l) = some (d, r, msg) → carries i msg = true →
      d = c ∧ ∀ y ∈ mid, ¬ Begins c y :=
    fun d r msg hm hid => message_same_draw hr hfew rfl hd hm hid
  obtain ⟨rfl, rfl⟩ | ⟨d, g, p, rfl, hidle, -, rfl⟩ | ⟨d, g, k, rest, rfl, hrun, rfl⟩ |
    ⟨d, g, topic', rest, entries, rfl, hrun, rfl⟩ | ⟨d, rfl, rfl⟩ := next_cases hs
  · exact h.quiet (by simp [Moves]) (fun _ _ _ hm => by cases hm) (.inl rfl)
  · refine h.quiet (by simp [Moves]) (fun _ _ _ hm => by cases hm) ?_
    by_cases hdc : c = d
    · subst hdc
      exact .inr ⟨hidle, g, rfl⟩
    · exact .inl (Function.update_of_ne hdc _ _)
  · by_cases hdc : c = d
    · subst hdc
      exact h.own hrun fun d r msg hm hid => (hsame d r msg hm hid).2
    · refine h.quiet (by simp [Moves, Ne.symm hdc]) (fun d' r msg hm => ?_)
        (.inl (Function.update_of_ne hdc _ _))
      by_contra hcarries
      rw [Bool.not_eq_false] at hcarries
      have hd' := (hsame d' r msg hm hcarries).1
      rw [messageSent_call hrun] at hm
      split at hm
      · split at hm
        · cases hm
          exact hdc hd'.symm
        · cases hm
      · cases hm
  · by_cases hdc : c = d
    · subst hdc
      exact h.iterate hrun entries
    · refine h.quiet (by simp [Moves, Ne.symm hdc]) (fun _ _ _ hm => ?_)
        (.inl (Function.update_of_ne hdc _ _))
      rw [messageSent_iterate] at hm
      cases hm
  · exact h.quiet (by simp [Moves]) (fun _ _ _ hm => by cases hm) (.inl rfl)

theorem drawCount_append (pre post : List (Threads × ThreadEvent)) :
    drawCount (pre ++ post) = drawCount pre + drawCount post := List.countP_append

theorem delivers_run {trace pre post : List (Threads × ThreadEvent)} {e : Threads × ThreadEvent}
    {t : Threads} (h : runs.Run trace t) (hfew : drawCount trace < 2 ^ 32)
    (heq : trace = pre ++ e :: post) {c : ConnectionId} {f : StompFrame} {i : Int}
    (hd : draws e = some (c, f, i)) : ∃ topic, f.getHeader "destination".toList = some topic ∧
      Delivers c f topic i post t := by
  -- the handler that draws an id is a SEND that is carried out
  have hfirst : ∃ topic, f.getHeader "destination".toList = some topic ∧ ∀ t', e.1.next e.2 = some t' →
      Delivers c f topic i [] t' := by
    have hsends := sends_run (h.split heq).1
    obtain ⟨t, l⟩ := e
    unfold draws at hd
    split at hd
    · next c' f' hcalled =>
      cases hd
      obtain ⟨rest, rfl, hrun⟩ := running_of_called hcalled (by simp)
      obtain ⟨o, ho, -⟩ := hsends.stage c _ hrun
      obtain ⟨-, _, hsilent, -⟩ | ⟨topic, hdest, ⟨-, -, hrest⟩ | ⟨j, -, hk, -⟩ |
        ⟨j, x, entries, -, hk, -⟩⟩ := ho.call t.server
      · exact hsilent.elim
      · refine ⟨topic, hdest, fun t' hs => .drawn (by simp) rfl ?_⟩
        simp only [next, hrun] at hs
        cases hs
        rw [← hrest]
        exact Function.update_self _ _ _
      · cases hk
      · cases hk
    · cases hd
  obtain ⟨topic, hdest, hfirst⟩ := hfirst
  refine ⟨topic, hdest, ?_⟩
  have hkeep := h.since (fun mid t => drawCount (pre ++ e :: mid) < 2 ^ 32 → Delivers c f topic i mid t)
    heq (fun t' hs _ => hfirst t' hs) fun mid s l s' hr hI hs hlt => ?_
  · exact hkeep (heq ▸ hfew)
  · rw [← List.cons_append, ← List.append_assoc, drawCount_append] at hlt
    have hmid : drawCount (pre ++ e :: mid) < 2 ^ 32 := by omega
    exact (hI hmid).step hr hmid hd hs

theorem sentWith_from {trace pre post : List (Threads × ThreadEvent)} {e : Threads × ThreadEvent}
    {t : Threads} (h : runs.Run trace t) (hfew : drawCount trace < 2 ^ 32)
    (heq : trace = pre ++ e :: post) {c : ConnectionId} {f : StompFrame} {i : Int}
    (hd : draws e = some (c, f, i)) : sentWith i trace = sentWith i post := by
  -- Before its draw no MESSAGE carries the id.
  have hnone : messageSent e = none := by
    unfold draws at hd
    split at hd
    · next hcalled => simp only [messageSent, hcalled]
    · cases hd
  have hpre : ∀ x ∈ pre, ∀ c' d msg, messageSent x = some (c', d, msg) → carries i msg = false := by
    intro x hx c' d msg hm
    by_contra hcarries
    rw [Bool.not_eq_false] at hcarries
    obtain ⟨p, q, hsplit⟩ := List.append_of_mem hx
    have htrace : trace = p ++ x :: (q ++ e :: post) := by simp [heq, hsplit]
    obtain ⟨pre', e', post', g, rfl, he', -⟩ :=
      message_drawn (h.split htrace).1 (x := x.2) hm (inRange_draw h heq hd) hcarries
    have hsame := (same_draw h hfew heq (by rw [htrace]; simp; rfl) hd he').1
    have := congrArg List.length (hsplit.symm.trans hsame)
    simp at this
  unfold sentWith
  rw [heq, List.filterMap_append, List.filterMap_cons, hnone, List.map_append, List.filter_append,
    List.filter_eq_nil_iff.mpr, List.nil_append]
  intro m hmem
  obtain ⟨⟨c', d, msg⟩, hfound, rfl⟩ := List.mem_map.mp hmem
  obtain ⟨x, hx, hm⟩ := List.mem_filterMap.mp hfound
  simp [hpre x hx c' d msg hm]

/-- However the threads take turns, the MESSAGEs of a whole run that carry the id of a SEND are one
for each entry that its loop was given, in their order. If the map stood still while the loop went
through it, these were the subscribers of the topic, each once. -/
theorem sent_once {trace pre post : List (Threads × ThreadEvent)} {e : Threads × ThreadEvent}
    {t : Threads} (h : runs.Run trace t) (hfew : drawCount trace < 2 ^ 32)
    (heq : trace = pre ++ e :: post) {c : ConnectionId} {f : StompFrame} {i : Int}
    (hd : draws e = some (c, f, i)) : ∃ topic, f.getHeader "destination".toList = some topic ∧
      ((t.idle c = false ∧ sentWith i trace = []) ∨
      ∃ before x after entries, post = before ++ x :: after ∧ (∀ y ∈ before, ¬ Moves c y) ∧
        given x = some (c, f, topic, entries) ∧
        sentWith i trace <+: messages topic i f.body entries ∧
        (t.idle c = true → sentWith i trace = messages topic i f.body entries) ∧
        (x.2 = .call c → (entries.map Sigma.fst).Nodup ∧ ∀ d s,
          ⟨d, s⟩ ∈ entries ↔ x.1.server.connections.subscription topic d = some s)) := by
  obtain ⟨topic, hdest, hdelivers⟩ := delivers_run h hfew heq hd
  refine ⟨topic, hdest, ?_⟩
  rw [sentWith_from h hfew heq hd]
  cases hdelivers with
  | drawn hquiet hsent hrun =>
    refine .inl ⟨?_, hsent⟩
    rw [idle, hrun]
    rfl
  | @read before x after done left hpost hquiet hread hsent hrun =>
    refine .inr ⟨before, x, after, done ++ left, hpost, hquiet, hread, ?_, fun hidle => ?_, fun hx => ?_⟩
    · rw [hsent, messages, List.map_append]
      apply List.prefix_append
    · have hleft : left = [] := by
        rcases hrun with hrun | ⟨hleft, -⟩
        · cases left with
          | nil => rfl
          | cons s left =>
            rw [idle, hrun] at hidle
            cases hidle
        · exact hleft
      rw [hsent, messages, hleft, List.append_nil]
    · rw [given_eq hread hx]
      refine ⟨(x.1.server.connections.getSubscribers topic).nodupKeys, fun d s => ?_⟩
      rw [← AList.mem_lookup_iff, ConnectionsImpl.lookup_getSubscribers]
      rfl

/-- Two clients subscribe to one topic, and their SENDs take turns. 1 and 17 share a bin of the map.
While 17 sends, 1 leaves and comes back under another id, behind 17, and the loop is given it twice. -/
def twoSends : List ThreadEvent :=
  List.replicate 17 .accept ++
    [.process 1 (Server.connectFrame "v" "q"), .process 17 (Server.connectFrame "u" "p")] ++
    List.replicate 4 (.call 1) ++ List.replicate 4 (.call 17) ++
    [.process 17 (Server.subscribeFrame "t" "5"), .process 1 (Server.subscribeFrame "t" "7"), .call 1,
      .call 17, .call 17, .call 1, .process 17 (.ofStrings "SEND" [("destination", "t")] "x"),
      .process 1 (.ofStrings "SEND" [("destination", "t")] "y"), .call 1, .call 17, .call 1, .call 1,
      .iterate 17 [⟨1, 7⟩, ⟨17, 5⟩, ⟨1, 9⟩], .call 1, .call 17,
      .process 1 (Server.unsubscribeFrame "7"), .call 1, .call 1,
      .process 1 (Server.subscribeFrame "t" "9"), .call 1, .call 1, .call 17, .call 17]

theorem sent_once_two : ∃ trace t, runs.Run trace t ∧ drawCount trace = 2 ∧
    t.server.connections.subscription "t".toList 1 = some 9 ∧
    sentWith 2 trace = messages "t".toList 2 "x".toList [⟨1, 7⟩, ⟨17, 5⟩, ⟨1, 9⟩] := by
  obtain ⟨trace, t, hr, ht⟩ := System.exists_run (M := runs) twoSends
    (fun trace t => decide (drawCount trace = 2 ∧ t.idle 17 = true ∧
      t.server.connections.subscription "t".toList 1 = some 9 ∧
      (∀ x ∈ trace, ∀ g ∈ given x, g.1 = 17 → g.2.2.2 = [⟨1, 7⟩, ⟨17, 5⟩, ⟨1, 9⟩]) ∧
      ∃ e ∈ trace, ∃ d ∈ draws e, d.1 = 17 ∧ d.2.2 = 2 ∧ d.2.1.body = "x".toList ∧
        d.2.1.getHeader "destination".toList = some "t".toList)) (by decide +kernel)
  rw [decide_eq_true_eq] at ht
  obtain ⟨hcount, hidle, hsubscribed, hgiven, e, he, ⟨c, f, i⟩, hd, rfl, rfl, hbody, hdest⟩ := ht
  obtain ⟨pre, post, heq⟩ := List.append_of_mem he
  obtain ⟨topic, htopic, ⟨hbusy, -⟩ | ⟨before, x, after, entries, hpost, -, hx, -, hall, -⟩⟩ :=
    sent_once hr (by omega) heq hd
  · rw [hidle] at hbusy
    cases hbusy
  · cases hdest.symm.trans htopic
    have hentries := hgiven x (by simp [heq, hpost]) _ hx rfl
    dsimp only at hentries hbody
    rw [hentries, hbody] at hall
    exact ⟨trace, t, hr, hcount, hsubscribed, hall hidle⟩

/-- The frame that the thread of the connection is in drew the n-th id of the run. -/
def Drew (c : ConnectionId) (n : Nat) (trace : List (Threads × ThreadEvent)) : Prop :=
  ∃ pre e post f i, trace = pre ++ e :: post ∧ draws e = some (c, f, i) ∧ n = drawCount pre + 1 ∧
    ∀ y ∈ post, ¬ Begins c y

/-- A MESSAGE carries the number of the draw that its thread made, and the numbers come round only
after 2^32 draws. -/
theorem message_id_iff {trace pre post : List (Threads × ThreadEvent)} {x : Threads × ThreadEvent}
    {t : Threads} (h : runs.Run trace t) (heq : trace = pre ++ x :: post) {c d : ConnectionId}
    {msg : StompFrame} (hm : messageSent x = some (c, d, msg)) : ∃ n, Drew c n pre ∧
      ∀ m : Nat, carries (Decimal.wrap m) msg = true ↔ m % 2 ^ 32 = n % 2 ^ 32 := by
  have hpre := (h.split heq).1
  obtain ⟨f, topic, sid, i, -, rfl, hsince⟩ := (sends_run hpre).message (e := x.2) hm
  obtain ⟨pre', e, post', heq', he, hnone⟩ := (since_iff _ _ _).mp hsince
  refine ⟨drawCount pre' + 1, ⟨pre', e, post', f, i, heq', he, rfl, hnone⟩, fun m => ?_⟩
  have hi := draw_number hpre heq' he
  have hcarries : carries (Decimal.wrap m) (messageFrame topic sid i f.body) = true ↔
      Decimal.valueOf i = Decimal.valueOf (Decimal.wrap m) := by
    unfold carries
    rw [decide_eq_true_eq]
    exact Option.some_inj
  rw [hcarries, eq_comm, ← Decimal.wrap_nat_inj, hi]
  refine ⟨fun hv => ?_, fun hw => by rw [hw]⟩
  apply Decimal.valueOf_injective _ _ hv <;> apply Decimal.inRange_wrap

theorem message_id_iff_second : ∃ trace pre x post t n, runs.Run trace t ∧ trace = pre ++ x :: post ∧
    (messageSent x).isSome ∧ ∀ m, m % 2 ^ 32 = n % 2 ^ 32 →
      (messageSent x).any (fun y => carries (Decimal.wrap (m : Nat)) y.2.2) = true := by
  obtain ⟨trace, t, hr, ht⟩ := System.exists_run (M := runs) twoSends
    (fun trace _ => decide (∃ e ∈ trace, (messageSent e).isSome)) (by decide +kernel)
  rw [decide_eq_true_eq] at ht
  obtain ⟨x, hx, hsome⟩ := ht
  obtain ⟨pre, post, heq⟩ := List.append_of_mem hx
  obtain ⟨⟨c, d, msg⟩, hm⟩ := Option.isSome_iff_exists.mp hsome
  obtain ⟨n, -, hid⟩ := message_id_iff hr heq hm
  refine ⟨trace, pre, x, post, t, n, hr, heq, hsome, fun m hmn => ?_⟩
  rw [hm]
  exact (hid m).mpr hmn

end Threads

end Stomp
