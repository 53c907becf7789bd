import Stomp.Receipts

/-!
# How a session ends

An ERROR goes to the sender only, and changes nothing but that its session is to terminate. A
session is to terminate after an ERROR or an accepted DISCONNECT, and stays so. An accepted
DISCONNECT takes the session out of every table.
-/

namespace Stomp

open StompMessagingProtocolImpl

namespace Server

/-- The frame is answered with an ERROR. -/
def Refuses (s : Server) (c : ConnectionId) (f : StompFrame) : Prop :=
  ∃ x ∈ outputs (s, .frame c f), x.msg.command = "ERROR".toList

/-- All that a refused frame does. -/
structure Refused (s : Server) (c : ConnectionId) (f : StompFrame) (s' : Server) : Prop where
  answered : ∃ msg, outputs (s, .frame c f) = [⟨c, msg, true⟩] ∧ msg.command = "ERROR".toList ∧
    msg.getHeader receiptIdKey = f.getHeader receiptKey
  connections : s'.connections = s.connections
  session : s'.sessions.lookup c =
    (s.sessions.lookup c).map fun p => { p with shouldTerminate := true }
  others : ∀ d, d ≠ c → s'.sessions.lookup d = s.sessions.lookup d

/-- The step is a refused frame of the connection, or a DISCONNECT that is carried out. -/
def Ends (c : ConnectionId) (e : Server × ServerEvent) : Prop :=
  ∃ f, e.2 = .frame c f ∧ (e.1.Refuses c f ∨ ∃ p, e.1.sessions.lookup c = some p ∧ Disconnects p f)

/-- The connection has a session, which is to terminate. -/
def Terminating (s : Server) (c : ConnectionId) : Prop :=
  ∃ p, s.sessions.lookup c = some p ∧ p.shouldTerminate = true

theorem refuses_iff {s : Server} {c : ConnectionId} {f : StompFrame} :
    s.Refuses c f ↔ s.accepted c f = false := by
  rw [Refuses, accepted, outputs]
  simp

theorem getHeader_errorFrame_receipt (reason : Text) (receiptId : Option Text) (f : StompFrame) :
    (errorFrame reason receiptId f).getHeader receiptIdKey = receiptId := by
  cases receiptId with
  | some r => exact getHeader_errorFrame reason r f
  | none =>
    show (Table.ofPairs [("message".toList, ' ' :: reason)]).lookup receiptIdKey = none
    rfl

/-! ## A refused frame -/

theorem Outcome.refused_iff {s : Server} {p : Session} {f : StompFrame} {r : Server × List Sent}
    (h : Outcome s p f r) (hr : (∃ x ∈ r.2, x.msg.command = "ERROR".toList)) :
    ∃ reason, r = (s.setSession { p with shouldTerminate := true },
      [s.sent p.connectionId (errorFrame reason (f.getHeader receiptKey) f)]) := by
  obtain ⟨x, hx, he⟩ := hr
  have hreceipts : x ∉ s.receipts p.connectionId f := by
    intro hx
    rw [receipts_command hx] at he
    revert he
    decide
  cases h with
  | refused reason _ => exact ⟨reason, rfl⟩
  | connect _ =>
    rcases List.mem_cons.mp hx with rfl | hx
    · exact absurd (show connectedFrame.command = "ERROR".toList from he) (by decide)
    · exact absurd hx hreceipts
  | subscribe _ => exact absurd hx hreceipts
  | unsubscribe _ => exact absurd hx hreceipts
  | disconnect _ => exact absurd hx hreceipts
  | send _ =>
    rw [messages_command hx] at he
    exact absurd he (by decide)

theorem Outcome.terminates {s : Server} {p : Session} {f : StompFrame} {r : Server × List Sent}
    (h : Outcome s p f r) (hp : s.sessions.lookup p.connectionId = some p) :
    ∃ q, r.1.sessions.lookup p.connectionId = some q ∧
      (p.shouldTerminate = true → q.shouldTerminate = true) ∧
      (q.shouldTerminate = true → p.shouldTerminate = true ∨
        (∃ x ∈ r.2, x.msg.command = "ERROR".toList) ∨ Disconnects p f) := by
  have hself : ∀ (x : ConnectionsImpl) (q : Session), q.connectionId = p.connectionId →
      ((s.setConnections x).setSession q).sessions.lookup p.connectionId = some q := by
    intro x q hq
    rw [lookup_setSession, if_pos hq.symm]
  cases h with
  | refused reason _ =>
    refine ⟨{ p with shouldTerminate := true }, ?_, fun _ => rfl, fun _ =>
      .inr (.inl ⟨_, List.mem_singleton_self _, rfl⟩)⟩
    rw [lookup_setSession, if_pos rfl]
  | connect _ => exact ⟨_, hself _ _ rfl, id, .inl⟩
  | subscribe _ => exact ⟨_, hself _ _ rfl, id, .inl⟩
  | unsubscribe _ => exact ⟨_, hself _ _ rfl, id, .inl⟩
  | send _ => exact ⟨p, hp, id, .inl⟩
  | disconnect hd => exact ⟨_, hself _ _ rfl, fun _ => rfl, fun _ => .inr (.inr hd)⟩

/-! ## A run -/

theorem terminating_step {s s' : Server} {e : ServerEvent} {c : ConnectionId} (hf : s.IdsFresh)
    (hs : s.next e = some s') : (s.Terminating c → s'.Terminating c) ∧
      (s'.Terminating c → s.Terminating c ∨ Ends c (s, e)) := by
  -- A step keeps `shouldTerminate`, or the connection is the sender of the frame that sets it.
  obtain ⟨rfl, rfl⟩ | ⟨d, f, p, out, rfl, hp, rfl, hpr, ho⟩ | ⟨d, rfl, rfl⟩ := next_cases hs
  · by_cases hc : c = s.connectionCounter + 1
    · subst hc
      constructor
      · rintro ⟨p, hp, -⟩
        rw [(hf _ (Nat.lt_succ_self _)).1] at hp
        cases hp
      · rintro ⟨p, hp, hterm⟩
        cases s.lookup_accept.symm.trans hp
        cases hterm
    · have hsame := (s.untouched_accept hc).session
      rw [Terminating, Terminating, hsame]
      exact ⟨id, .inl⟩
  · by_cases hc : c = p.connectionId
    · subst hc
      obtain ⟨q, hq, hmono, hset⟩ := ho.terminates hp
      constructor
      · rintro ⟨p', hp', hterm⟩
        cases hp.symm.trans hp'
        exact ⟨q, hq, hmono hterm⟩
      · rintro ⟨q', hq', hterm⟩
        cases hq.symm.trans hq'
        obtain hold | ⟨x, hx, he⟩ | hd := hset hterm
        · exact .inl ⟨p, hp, hold⟩
        · refine .inr ⟨f, rfl, .inl ⟨x, ?_, he⟩⟩
          rw [outputs, hpr]
          exact hx
        · exact .inr ⟨f, rfl, .inr ⟨p, hp, hd⟩⟩
    · have hsame := (ho.untouched hc).session
      rw [Terminating, Terminating, hsame]
      exact ⟨id, .inl⟩
  · exact ⟨id, .inl⟩

theorem terminating_forever {trace pre post : List (Server × ServerEvent)} {s : Server}
    {e : Server × ServerEvent} {c : ConnectionId} (h : runs.Run trace s)
    (he : trace = pre ++ e :: post) (hc : e.1.Terminating c) : s.Terminating c := by
  have hfresh : ∀ {trace : List (Server × ServerEvent)} {s : Server}, runs.Run trace s →
      s.IdsFresh := System.Run.inv IdsFresh idsFresh_initial fun _ _ _ hf hs => idsFresh_step hf hs
  have hend : s.IdsFresh ∧ s.Terminating c := by
    refine h.after (fun s : Server => s.IdsFresh ∧ s.Terminating c) he (fun s' hs => ?_)
      fun x _ s' hx hs => ?_
    · have hf := hfresh (h.split he).1
      exact ⟨idsFresh_step hf hs, (terminating_step hf hs).1 hc⟩
    · exact ⟨idsFresh_step hx.1 hs, (terminating_step hx.1 hs).1 hx.2⟩
  exact hend.2

/-- A refused frame changes nothing but `shouldTerminate` of its sender, which is set by nothing else
than an ERROR or an accepted DISCONNECT, and never unset. -/
theorem refused_changes_nothing {trace : List (Server × ServerEvent)} {s : Server}
    (h : runs.Run trace s) :
    (∀ c f s', c ∈ s.connections.activeConnections → s.next (.frame c f) = some s' →
      s.Refuses c f → s.Refused c f s') ∧
    (∀ c e s', s.next e = some s' → s'.Terminating c → s.Terminating c ∨ Ends c (s, e)) ∧
    ∀ c pre e post, trace = pre ++ e :: post → e.1.Terminating c → s.Terminating c := by
  have hfresh : s.IdsFresh :=
    System.Run.inv IdsFresh idsFresh_initial (fun _ _ _ hf hs => idsFresh_step hf hs) h
  refine ⟨fun c f s' hreg hs hr => ?_, fun c e s' hs => (terminating_step hfresh hs).2,
    fun c pre e post he hc => terminating_forever h he hc⟩
  obtain ⟨heq, -⟩ | ⟨c', f', p, out, heq, hp, rfl, hpr, ho⟩ | ⟨c', heq, -⟩ := next_cases hs <;>
    cases heq
  rw [Refuses, outputs, hpr] at hr
  obtain ⟨reason, hreason⟩ := ho.refused_iff hr
  cases hreason
  refine ⟨⟨errorFrame reason (f.getHeader receiptKey) f, ?_, rfl,
    getHeader_errorFrame_receipt _ _ _⟩, rfl, ?_, fun d hd => ?_⟩
  · rw [outputs, hpr]
    simp [sent, ConnectionsImpl.isRegistered, hreg]
  · rw [lookup_setSession, if_pos rfl, hp]
    rfl
  · rw [lookup_setSession, if_neg hd]

/-- A client sends to a topic that it is not subscribed to. -/
theorem refused_changes_nothing_send : ∃ trace s s', runs.Run trace s ∧
    s.next (.frame 1 (.ofStrings "SEND" [("destination", "t"), ("receipt", "7")] "x")) = some s' ∧
    s.Refused 1 (.ofStrings "SEND" [("destination", "t"), ("receipt", "7")] "x") s' := by
  obtain ⟨trace, s, hr, hs⟩ := System.exists_run (M := runs)
    [.accept, .frame 1 (connectFrame "u" "p")]
    (fun _ s => decide ((s.sessions.lookup 1).isSome = true ∧ s.connections.isRegistered 1 = true ∧
      s.accepted 1 (.ofStrings "SEND" [("destination", "t"), ("receipt", "7")] "x") = false))
    (by decide)
  simp only [decide_eq_true_eq] at hs
  obtain ⟨hsession, hreg, hacc⟩ := hs
  have hstep : s.next (.frame 1 (.ofStrings "SEND" [("destination", "t"), ("receipt", "7")] "x")) =
      some (s.process 1 (.ofStrings "SEND" [("destination", "t"), ("receipt", "7")] "x")).1 :=
    if_pos hsession
  exact ⟨trace, s, _, hr, hstep, (refused_changes_nothing hr).1 1 _ _ (of_decide_eq_true hreg) hstep
    (refuses_iff.mpr hacc)⟩

/-! ## A DISCONNECT -/

/-- Whatever the tables hold, a DISCONNECT of a logged in connection takes it out of them, after the
RECEIPT that it asks for was sent, and leaves the users and all other connections alone. -/
theorem disconnect_removes_session {s s' : Server} {c : ConnectionId} {f : StompFrame} {p : Session}
    (hreg : c ∈ s.connections.activeConnections) (hp : s.sessions.lookup c = some p)
    (hconnected : p.connected = true) (hf : f.command = "DISCONNECT".toList)
    (hs : s.next (.frame c f) = some s') :
    s'.connections.NoTrace c ∧
    s'.sessions.lookup c = some { p with shouldTerminate := true, clientSubscriptions := ∅ } ∧
    (f.getHeader receiptKey = none → outputs (s, .frame c f) = []) ∧
    (∀ r, f.getHeader receiptKey = some r → ∃ msg, msg.Has "RECEIPT" [("receipt-id".toList, r)] [] ∧
      outputs (s, .frame c f) = [⟨c, msg, true⟩]) ∧
    s'.connections.users = s.connections.users ∧
    s'.connections.messageCounter = s.connections.messageCounter ∧
    ∀ d, d ≠ c → Untouched d s s' := by
  obtain ⟨heq, -⟩ | ⟨c', f', p', out, heq, hp', rfl, hpr, ho⟩ | ⟨c', heq, -⟩ := next_cases hs <;>
    cases heq
  cases hp.symm.trans hp'
  have hd : Disconnects p f := ⟨hf, hconnected⟩
  have hu : ∀ d, d ≠ p.connectionId → Untouched d s s' := fun d hne => ho.untouched hne
  have hout : outputs (s, .frame p.connectionId f) = out := congrArg Prod.snd hpr
  have hcommand : ∀ {command : String}, f.command = command.toList →
      command.toList ≠ "DISCONNECT".toList → False := fun h hne => hne (h.symm.trans hf)
  rw [hout]
  cases ho with
  | refused reason hno => exact absurd (.disconnect hd) hno
  | connect h => exact (hcommand h.command (by decide)).elim
  | subscribe h => exact (hcommand h.command (by decide)).elim
  | unsubscribe h => exact (hcommand h.command (by decide)).elim
  | send h => exact (hcommand h.command (by decide)).elim
  | disconnect _ =>
    obtain ⟨-, -, husers, hcounter⟩ := s.connections.removeSubscriptions_fields p.connectionId
      p.clientSubscriptions.values
    refine ⟨ConnectionsImpl.noTrace_disconnect _ _, ?_, ?_, ?_, husers, hcounter, hu⟩
    · rw [lookup_setSession, if_pos rfl]
    · intro hnone
      rw [receipts, hnone]
      rfl
    · intro r hr
      refine ⟨_, receiptFrame_has r, ?_⟩
      simp [receipts, hr, sent, ConnectionsImpl.isRegistered, hreg]

/-- A client that is subscribed twice to a topic, under two ids, disconnects. -/
theorem disconnect_removes_session_twice : ∃ trace s s', runs.Run trace s ∧
    s.next (.frame 1 (.ofStrings "DISCONNECT" [("receipt", "7")] "")) = some s' ∧
    s'.connections.NoTrace 1 ∧
    ∃ msg, msg.Has "RECEIPT" [("receipt-id".toList, "7".toList)] [] ∧
      outputs (s, .frame 1 (.ofStrings "DISCONNECT" [("receipt", "7")] "")) = [⟨1, msg, true⟩] := by
  obtain ⟨trace, s, hr, hs⟩ := System.exists_run (M := runs)
    [.accept, .frame 1 (connectFrame "u" "p"), .frame 1 (subscribeFrame "t" "5"),
      .frame 1 (subscribeFrame "t" "6")]
    (fun _ s => decide (s.connections.isRegistered 1 = true ∧
      (s.sessions.lookup 1).any (fun p : Session => p.connected) = true)) (by decide)
  simp only [decide_eq_true_eq, Option.any_eq_true] at hs
  obtain ⟨hreg, p, hp, hconnected⟩ := hs
  have hstep : s.next (.frame 1 (.ofStrings "DISCONNECT" [("receipt", "7")] "")) =
      some (s.process 1 (.ofStrings "DISCONNECT" [("receipt", "7")] "")).1 :=
    if_pos (Option.isSome_iff_exists.mpr ⟨p, hp⟩)
  obtain ⟨hno, -, -, hreceipt, -⟩ :=
    disconnect_removes_session (of_decide_eq_true hreg) hp hconnected rfl hstep
  exact ⟨trace, s, _, hr, hstep, hno, hreceipt _ rfl⟩

end Server

end Stomp
