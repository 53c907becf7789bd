import Stomp.Threads
import Stomp.Codec

/-!
# One thread for one client

`run` reads byte by byte and processes each frame on its own thread. Nothing in it passes the
connection to `Connections.disconnect`: an accepted DISCONNECT does, and `close` after a failed
write.
-/

namespace Stomp

inductive BlockingPhase where
  /-- At the condition of the loop. -/
  | loop
  /-- In `in.read()`. -/
  | read
  /-- In `process`. -/
  | process
  | returned
  deriving DecidableEq

structure BlockingConnectionHandler where
  encdec : StompMessageEncoderDecoder
  connected : Bool
  phase : BlockingPhase

/-- What `in.read()` ends with. -/
inductive ReadResult where
  | byte (b : UInt8)
  | endOfStream
  | ioException

structure Blocking where
  threads : Threads
  handlers : ConnectionId → Option BlockingConnectionHandler

/-- `failed` says that the write of a `send` throws. -/
inductive BlockingEvent where
  | accept
  | loop (c : ConnectionId)
  | read (c : ConnectionId) (result : ReadResult)
  | call (c : ConnectionId) (failed : Bool)
  /-- A call of `getSubscribers` whose loop sees changes of the map. -/
  | iterate (c : ConnectionId) (entries : List ((_ : ConnectionId) × Int))
  | finish (c : ConnectionId)

namespace Blocking

def setHandler (b : Blocking) (c : ConnectionId) (h : BlockingConnectionHandler) : Blocking :=
  { b with handlers := Function.update b.handlers c (some h) }

def setThreads (b : Blocking) (t : Threads) : Blocking := { b with threads := t }

/-- `close` of a handler. -/
def close (b : Blocking) (c : ConnectionId) : Blocking where
  threads := { b.threads with
    server := b.threads.server.setConnections (b.threads.server.connections.disconnect c) }
  handlers := Function.update b.handlers c ((b.handlers c).map ({ · with connected := false }))

/-- The connection whose handler fails to write in a step of a thread. -/
def fails (b : Blocking) (c : ConnectionId) (failed : Bool) : Option ConnectionId :=
  match Threads.called (b.threads, .call c) with
  | some (_, _, .send d _) =>
    if failed && b.threads.server.connections.isRegistered d && (b.handlers d).any (·.connected) then
      some d
    else none
  | _ => none

def next (b : Blocking) : BlockingEvent → Option Blocking
  | .accept =>
    (b.threads.next .accept).map fun t =>
      (b.setThreads t).setHandler (b.threads.server.connectionCounter + 1) ⟨.initial, true, .loop⟩
  | .loop c =>
    match b.handlers c, b.threads.server.sessions.lookup c with
    | some ⟨encdec, connected, .loop⟩, some p =>
      some (b.setHandler c ⟨encdec, connected,
        if !p.shouldTerminate && connected then .read else .returned⟩)
    | _, _ => none
  | .read c result =>
    match b.handlers c with
    | some ⟨encdec, connected, .read⟩ =>
      match result with
      | .byte x =>
        match encdec.decodeNextByte x with
        | (.null, encdec) => some (b.setHandler c ⟨encdec, connected, .loop⟩)
        | (.frame f, encdec) =>
          (b.threads.next (.process c f)).map fun t =>
            (b.setThreads t).setHandler c ⟨encdec, connected, .process⟩
        -- the exception leaves `run`
        | (.exception, encdec) => some (b.setHandler c ⟨encdec, connected, .returned⟩)
      | _ => some (b.setHandler c ⟨encdec, connected, .returned⟩)
    | _ => none
  | .call c failed =>
    match b.handlers c with
    | some ⟨_, _, .process⟩ =>
      (b.threads.next (.call c)).map fun t =>
        match b.fails c failed with
        | some d => (b.setThreads t).close d
        | none => b.setThreads t
    | _ => none
  | .iterate c entries =>
    match b.handlers c with
    | some ⟨_, _, .process⟩ => (b.threads.next (.iterate c entries)).map b.setThreads
    | _ => none
  | .finish c =>
    match b.handlers c with
    | some ⟨encdec, connected, .process⟩ =>
      if b.threads.idle c then some (b.setHandler c ⟨encdec, connected, .loop⟩) else none
    | _ => none

def runs : System Blocking BlockingEvent := ⟨⟨Threads.runs.init, fun _ => none⟩, next⟩

/-! ## How a session ends -/

/-- `run` of the connection has returned. -/
def returned (b : Blocking) (c : ConnectionId) : Bool :=
  (b.handlers c).any fun h => h.phase = .returned

def Returns (c : ConnectionId) (e : Blocking × BlockingEvent) : Prop :=
  e.1.returned c = false ∧ (e.1.next e.2).any (fun b => b.returned c) = true

/-- The connection is passed to `Connections.disconnect`, by an accepted DISCONNECT or by `close`. -/
def Disconnects (c : ConnectionId) : Blocking × BlockingEvent → Prop
  | (b, .call d failed) =>
    Threads.disconnects (b.threads, .call d) = some c ∨ b.fails d failed = some c
  | _ => False

/-- The connection is entered in a table. -/
def Enters (c : ConnectionId) : Blocking × BlockingEvent → Prop
  | (b, .accept) => Threads.enters (b.threads, .accept) = some c
  | (b, .call d _) => Threads.enters (b.threads, .call d) = some c
  | _ => False

instance (c : ConnectionId) : DecidablePred (Returns c) := fun _ => inferInstanceAs (Decidable (_ ∧ _))

instance (c : ConnectionId) : DecidablePred (Disconnects c)
  | (_, .call _ _) => inferInstanceAs (Decidable (_ ∨ _))
  | (_, .accept) | (_, .loop _) | (_, .read _ _) | (_, .iterate _ _) | (_, .finish _) => isFalse id

instance (c : ConnectionId) : DecidablePred (Enters c)
  | (_, .accept) | (_, .call _ _) => inferInstanceAs (Decidable (_ = _))
  | (_, .loop _) | (_, .read _ _) | (_, .iterate _ _) | (_, .finish _) => isFalse id

/-! ## One step -/

@[simp] theorem returned_setThreads (b : Blocking) (t : Threads) (c : ConnectionId) :
    (b.setThreads t).returned c = b.returned c := rfl

theorem returned_setHandler (b : Blocking) (c d : ConnectionId) (h : BlockingConnectionHandler) :
    (b.setHandler c h).returned d = if d = c then decide (h.phase = .returned) else b.returned d := by
  unfold returned setHandler
  by_cases hdc : d = c
  · subst hdc
    simp
  · simp [hdc]

@[simp] theorem returned_close (b : Blocking) (c d : ConnectionId) :
    (b.close c).returned d = b.returned d := by
  unfold returned close
  by_cases hdc : d = c
  · subst hdc
    cases h : b.handlers d <;> simp
  · simp [hdc]

/-- The connection that an event is about. -/
def actor : BlockingEvent → Option ConnectionId
  | .accept => none
  | .loop c | .read c _ | .call c _ | .iterate c _ | .finish c => some c

theorem next_cases {b b' : Blocking} {e : BlockingEvent} (hs : b.next e = some b') :
    (∃ t, e = .accept ∧ b.threads.next .accept = some t ∧
      b' = (b.setThreads t).setHandler (b.threads.server.connectionCounter + 1)
        ⟨.initial, true, .loop⟩) ∨
    (∃ c h, actor e = some c ∧ b' = b.setHandler c h ∧
      (∀ d, ¬ Disconnects d (b, e)) ∧ ∀ d, ¬ Enters d (b, e)) ∨
    (∃ c f t h, actor e = some c ∧ b.threads.next (.process c f) = some t ∧
      b' = (b.setThreads t).setHandler c h ∧
      (∀ d, ¬ Disconnects d (b, e)) ∧ ∀ d, ¬ Enters d (b, e)) ∨
    (∃ c failed t, e = .call c failed ∧ b.returned c = false ∧ b.threads.next (.call c) = some t ∧
      b' = match b.fails c failed with
        | some d => (b.setThreads t).close d
        | none => b.setThreads t) ∨
    (∃ c entries t, e = .iterate c entries ∧ b.returned c = false ∧
      b.threads.next (.iterate c entries) = some t ∧ b' = b.setThreads t) := by
  cases e with
  | accept =>
    simp only [next] at hs
    obtain ⟨t, ht, rfl⟩ := Option.map_eq_some_iff.mp hs
    exact .inl ⟨t, rfl, ht, rfl⟩
  | loop c =>
    simp only [next] at hs
    split at hs
    · exact .inr (.inl ⟨c, _, rfl, (Option.some.inj hs).symm, fun _ => id, fun _ => id⟩)
    · cases hs
  | read c result =>
    simp only [next] at hs
    split at hs
    · split at hs
      · split at hs
        · exact .inr (.inl ⟨c, _, rfl, (Option.some.inj hs).symm, fun _ => id, fun _ => id⟩)
        · obtain ⟨t, ht, rfl⟩ := Option.map_eq_some_iff.mp hs
          exact .inr (.inr (.inl ⟨c, _, t, _, rfl, ht, rfl, fun _ => id, fun _ => id⟩))
        · exact .inr (.inl ⟨c, _, rfl, (Option.some.inj hs).symm, fun _ => id, fun _ => id⟩)
      · exact .inr (.inl ⟨c, _, rfl, (Option.some.inj hs).symm, fun _ => id, fun _ => id⟩)
    · cases hs
  | call c failed =>
    simp only [next] at hs
    split at hs
    · next hphase =>
      obtain ⟨t, ht, rfl⟩ := Option.map_eq_some_iff.mp hs
      exact .inr (.inr (.inr (.inl ⟨c, failed, t, rfl, by simp [returned, hphase], ht, rfl⟩)))
    · cases hs
  | iterate c entries =>
    simp only [next] at hs
    split at hs
    · next hphase =>
      obtain ⟨t, ht, rfl⟩ := Option.map_eq_some_iff.mp hs
      exact .inr (.inr (.inr (.inr ⟨c, entries, t, rfl, by simp [returned, hphase], ht, rfl⟩)))
    · cases hs
  | finish c =>
    simp only [next] at hs
    split at hs
    · split at hs
      · exact .inr (.inl ⟨c, _, rfl, (Option.some.inj hs).symm, fun _ => id, fun _ => id⟩)
      · cases hs
    · cases hs

theorem noTrace_next {b b' : Blocking} {e : BlockingEvent} {c : ConnectionId}
    (hs : b.next e = some b') (hn : b.threads.server.connections.NoTrace c)
    (he : ¬ Enters c (b, e)) : b'.threads.server.connections.NoTrace c := by
  obtain ⟨t, rfl, ht, rfl⟩ | ⟨d, h, -, rfl, -, -⟩ | ⟨d, f, t, h, -, ht, rfl, -, -⟩ |
    ⟨d, failed, t, rfl, -, ht, rfl⟩ | ⟨d, entries, t, rfl, -, ht, rfl⟩ := next_cases hs
  · exact Threads.noTrace_next ht hn he
  · exact hn
  · exact Threads.noTrace_next ht hn fun h => by cases h
  · have hcall := Threads.noTrace_next ht hn he
    split
    · exact hcall.disconnect _
    · exact hcall
  · obtain ⟨f, topic, rest, -, rfl⟩ := Threads.running_of_iterate ht
    exact hn

theorem noTrace_of_disconnects {b b' : Blocking} {e : BlockingEvent} {c : ConnectionId}
    (hs : b.next e = some b') (hd : Disconnects c (b, e)) :
    b'.threads.server.connections.NoTrace c := by
  obtain ⟨t, rfl, ht, rfl⟩ | ⟨d, h, -, rfl, hno, -⟩ | ⟨d, f, t, h, -, ht, rfl, hno, -⟩ |
    ⟨d, failed, t, rfl, -, ht, rfl⟩ | ⟨d, entries, t, rfl, -, ht, rfl⟩ := next_cases hs
  · exact hd.elim
  · exact absurd hd (hno c)
  · exact absurd hd (hno c)
  · rcases hd with hd | hd
    · have hcall := Threads.noTrace_of_disconnects ht hd
      split
      · exact hcall.disconnect _
      · exact hcall
    · rw [hd]
      exact ConnectionsImpl.noTrace_disconnect _ _
  · exact hd.elim

theorem not_enters_of_returned {b b' : Blocking} {e : BlockingEvent} {c : ConnectionId}
    (hown : b.threads.OwnCalls) (hs : b.next e = some b') (hr : b'.returned c = true) :
    ¬ Enters c (b, e) := by
  intro he
  obtain ⟨t, rfl, ht, rfl⟩ | ⟨d, h, -, rfl, -, hno⟩ | ⟨d, f, t, h, -, ht, rfl, -, hno⟩ |
    ⟨d, failed, t, rfl, hrun, ht, rfl⟩ | ⟨d, entries, t, rfl, hrun, ht, rfl⟩ := next_cases hs
  · have hc : b.threads.server.connectionCounter + 1 = c := Option.some.inj he
    rw [returned_setHandler, if_pos hc.symm] at hr
    cases hr
  · exact hno c he
  · exact hno c he
  · have hcd : c = d := hown.enters he
    subst hcd
    split at hr
    · rw [returned_close, returned_setThreads, hrun] at hr
      cases hr
    · rw [returned_setThreads, hrun] at hr
      cases hr
  · exact he

theorem ownCalls_next {b b' : Blocking} {e : BlockingEvent} (h : b.threads.OwnCalls)
    (hs : b.next e = some b') : b'.threads.OwnCalls := by
  obtain ⟨t, rfl, ht, rfl⟩ | ⟨d, h', -, rfl, -, -⟩ | ⟨d, f, t, h', -, ht, rfl, -, -⟩ |
    ⟨d, failed, t, rfl, -, ht, rfl⟩ | ⟨d, entries, t, rfl, -, ht, rfl⟩ := next_cases hs
  · exact Threads.ownCalls_next h ht
  · exact h
  · exact Threads.ownCalls_next h ht
  · have hcall := Threads.ownCalls_next h ht
    split <;> exact hcall
  · exact Threads.ownCalls_next h ht

/-! ## Whole runs -/

/-- What the tables hold of the connections that came to an end. -/
structure Cleaned (trace : List (Blocking × BlockingEvent)) (b : Blocking) : Prop where
  own : b.threads.OwnCalls
  disconnected : ∀ c, Since (Disconnects c) (Enters c) trace → b.threads.server.connections.NoTrace c
  returned : ∀ c, b.returned c = true → b.threads.server.connections.NoTrace c

theorem Cleaned.step {trace : List (Blocking × BlockingEvent)} {b b' : Blocking} {e : BlockingEvent}
    (h : Cleaned trace b) (hs : b.next e = some b')
    (hC : ∀ c, Returns c (b, e) → Since (Disconnects c) (Enters c) trace) :
    Cleaned (trace ++ [(b, e)]) b' := by
  refine ⟨ownCalls_next h.own hs, fun c hc => ?_, fun c hr => ?_⟩
  · rcases (since_snoc _ _ _ _).mp hc with hd | ⟨hc, he⟩
    · exact noTrace_of_disconnects hs hd
    · exact noTrace_next hs (h.disconnected c hc) he
  · refine noTrace_next hs ?_ (not_enters_of_returned h.own hs hr)
    by_cases hold : b.returned c = true
    · exact h.returned c hold
    · refine h.disconnected c (hC c ⟨Bool.eq_false_iff.mpr hold, ?_⟩)
      rw [hs]
      exact hr

/-- A session whose `run` returns only after a `disconnect` of it leaves nothing in the tables. -/
theorem leaves_no_trace {trace : List (Blocking × BlockingEvent)} {b : Blocking}
    (h : runs.Run trace b) (hC : ∀ pre e post c, trace = pre ++ e :: post → Returns c e →
      Since (Disconnects c) (Enters c) pre) :
    ∀ c, b.returned c = true → b.threads.server.connections.NoTrace c ∧
      ∀ login, b.threads.server.connections.isUserActive login = true →
        ∃ d, d ≠ c ∧ b.threads.server.connections.activeUsers.lookup d = some login := by
  have hcleaned : Cleaned trace b := by
    induction h with
    | nil => exact ⟨fun _ _ ht => (by cases ht), fun _ hc => hc.elim, fun _ hr => (by cases hr)⟩
    | @snoc trace b e b' _ hs ih =>
      refine (ih fun pre x post c heq => hC pre x (post ++ [(b, e)]) c ?_).step hs
        fun c hc => hC trace (b, e) [] c rfl hc
      rw [heq, List.append_assoc, List.cons_append]
  intro c hr
  have hn := hcleaned.returned c hr
  exact ⟨hn, fun login hl => hn.active_elsewhere hl⟩

theorem Returns.actor {c : ConnectionId} {b : Blocking} {e : BlockingEvent} (h : Returns c (b, e)) :
    actor e = some c := by
  obtain ⟨hopen, hr⟩ := h
  dsimp only at hopen hr
  obtain ⟨b', hs, hr⟩ := (Option.any_eq_true _ _).mp hr
  have hset : ∀ (x : Blocking) d h', x.returned c = false → (x.setHandler d h').returned c = true →
      c = d ∧ h'.phase = .returned := by
    intro x d h' hx hd
    rw [returned_setHandler] at hd
    split at hd
    · next heq => exact ⟨heq, of_decide_eq_true hd⟩
    · rw [hx] at hd
      cases hd
  obtain ⟨t, rfl, ht, rfl⟩ | ⟨d, h, hd, rfl, -, -⟩ | ⟨d, f, t, h, hd, ht, rfl, -, -⟩ |
    ⟨d, failed, t, rfl, hrun, ht, rfl⟩ | ⟨d, entries, t, rfl, hrun, ht, rfl⟩ := next_cases hs
  · exact absurd (hset _ _ _ hopen hr).2 (by decide)
  · rw [(hset _ _ _ hopen hr).1, hd]
  · rw [(hset _ _ _ hopen hr).1, hd]
  · split at hr
    · rw [returned_close, returned_setThreads, hopen] at hr
      cases hr
    · rw [returned_setThreads, hopen] at hr
      cases hr
  · rw [returned_setThreads, hopen] at hr
    cases hr

/-- The steps in which a thread reads a frame. -/
def reads (c : ConnectionId) (text : String) : List BlockingEvent :=
  (Utf8.encode text.toList ++ [0]).flatMap fun x => [.loop c, .read c (.byte x)]

/-- A client connects and logs in. -/
def login : List BlockingEvent :=
  [.accept] ++ reads 1 "CONNECT\naccept-version:1.2\nhost:h\nlogin:u\npasscode:p\n\n" ++
    List.replicate 4 (.call 1 false) ++ [.finish 1]

theorem leaves_no_trace_bye : ∃ trace b, runs.Run trace b ∧ b.returned 1 = true ∧
    b.threads.server.connections.NoTrace 1 := by
  obtain ⟨trace, b, hr, hb⟩ := System.exists_run (M := runs)
    (login ++ reads 1 "DISCONNECT\n\n" ++ List.replicate 3 (.call 1 false) ++ [.finish 1, .loop 1])
    (fun trace b => b.returned 1 && decide (∀ i (hi : i < trace.length),
      ∀ c ∈ actor (trace.get ⟨i, hi⟩).2, Returns c (trace.get ⟨i, hi⟩) →
        Since (Disconnects c) (Enters c) (trace.take i))) (by decide +kernel)
  rw [Bool.and_eq_true, decide_eq_true_eq] at hb
  refine ⟨trace, b, hr, hb.1, (leaves_no_trace hr (fun pre e post c heq hc => ?_) 1 hb.1).1⟩
  exact forall_split (P := fun pre e => ∀ c ∈ actor e.2, Returns c e →
    Since (Disconnects c) (Enters c) pre) hb.2 pre e post heq c hc.actor hc

/-- A client that logs in and closes its end leaves its user active. -/
theorem leaves_user_active : ∃ trace b, runs.Run trace b ∧ b.returned 1 = true ∧
    b.threads.server.connections.isUserActive "u".toList = true ∧
    ¬ b.threads.server.connections.NoTrace 1 := by
  obtain ⟨trace, b, hr, hb⟩ := System.exists_run (M := runs)
    (login ++ [.loop 1, .read 1 .endOfStream])
    (fun _ b => b.returned 1 && b.threads.server.connections.isUserActive "u".toList &&
      b.threads.server.connections.isRegistered 1) (by decide +kernel)
  simp only [Bool.and_eq_true] at hb
  exact ⟨trace, b, hr, hb.1.1, hb.1.2, fun hn => hn.unregistered (of_decide_eq_true hb.2)⟩

end Blocking

end Stomp
