import Stomp.ReactorSteps
import Stomp.Threads
import Stomp.Codec

/-!
# The server on the reactor

The selector thread reads and closes, a worker processes what was read. The pool runs the tasks of
one handler one by one, so that a connection has one worker at most, under its own id.
-/

namespace Stomp

open Utf8

/-- The decoder of a handler, with its tasks: those that wait, and the rest of the buffer of the
one that runs. -/
structure Actor where
  encdec : StompMessageEncoderDecoder
  pending : List Bytes
  task : Option Bytes

structure ReactorServer where
  reactor : Reactor
  threads : Threads
  actors : Table ConnectionId Actor

inductive ReactorServerEvent where
  | accept
  | select (ready : List Ready)
  | task
  | key (outcome : ReadOutcome)
  | write (outcome : WriteOutcome)
  | finish
  | toRead
  /-- A worker takes the next task of the handler. -/
  | start (c : ConnectionId)
  /-- It decodes the next byte of the buffer. -/
  | decode (c : ConnectionId)
  /-- It makes the next call of `process`. -/
  | call (c : ConnectionId)
  /-- It makes a call of `getSubscribers` whose loop sees changes of the map. -/
  | iterate (c : ConnectionId) (entries : List ((_ : ConnectionId) × Int))
  | add (c : ConnectionId)
  | keyFor (c : ConnectionId)
  | post (c : ConnectionId)
  /-- The task is at its end. -/
  | done (c : ConnectionId)

namespace Reactor

/-- The task that `continueRead` returns in a step. -/
def submitted (s : Reactor) : ReactorEvent → Option (ConnectionId × Bytes)
  | .key (.bytes bs) =>
    match s.selector with
    | .keys (r :: _) =>
      if r.ops.read && (s.handlers.lookup r.connectionId).any (·.key = .valid) then
        some (r.connectionId, bs)
      else none
    | _ => none
  | _ => none

end Reactor

namespace Threads

/-- `Connections.disconnect`, called by the transport. -/
def disconnect (t : Threads) (c : ConnectionId) : Threads :=
  { t with server := t.server.setConnections (t.server.connections.disconnect c) }

end Threads

namespace ReactorServer

def initial : ReactorServer := ⟨.initial, Threads.runs.init, ∅⟩

/-- A step of the selector thread, with what it does to the tables and the tasks. -/
def selectorStep (s : ReactorServer) (e : ReactorEvent) : Option ReactorServer :=
  (s.reactor.next e).map fun r =>
    { reactor := r
      threads := ((s.reactor.closeCalled e).map s.threads.disconnect).getD s.threads
      actors := ((s.reactor.submitted e).map fun x =>
        s.actors.modify x.1 fun a => { a with pending := a.pending ++ [x.2] }).getD s.actors }

/-- The worker of the connection is not in `send`. -/
def free (s : ReactorServer) (c : ConnectionId) : Bool := (s.reactor.workers.lookup c).isNone

def setActor (s : ReactorServer) (c : ConnectionId) (a : Actor) : ReactorServer :=
  { s with actors := s.actors.insert c a }

def start (s : ReactorServer) (c : ConnectionId) : Option ReactorServer :=
  match s.actors.lookup c with
  | some ⟨encdec, bs :: pending, none⟩ => some (s.setActor c ⟨encdec, pending, some bs⟩)
  | _ => none

/-- The next byte, when the frame before it was processed. -/
def decode (s : ReactorServer) (c : ConnectionId) : Option ReactorServer :=
  match s.actors.lookup c with
  | some ⟨encdec, pending, some (b :: bs)⟩ =>
    if s.free c && s.threads.idle c then
      match encdec.decodeNextByte b with
      | (.null, encdec) => some (s.setActor c ⟨encdec, pending, some bs⟩)
      | (.frame f, encdec) =>
        (s.threads.next (.process c f)).map fun t =>
          { s with threads := t }.setActor c ⟨encdec, pending, some bs⟩
      -- the exception ends the task
      | (.exception, encdec) => some (s.setActor c ⟨encdec, pending, none⟩)
    else none
  | _ => none

/-- What a call of `Connections.send` does to the channels, for a registered connection. -/
def sendTo (s : ReactorServer) (c : ConnectionId) : Reactor :=
  match Threads.called (s.threads, .call c) with
  | some (_, _, .send d msg) =>
    if s.threads.server.connections.isRegistered d then
      (s.reactor.send c d (StompMessageEncoderDecoder.encode msg)).getD s.reactor
    else s.reactor
  | _ => s.reactor

def call (s : ReactorServer) (c : ConnectionId) : Option ReactorServer :=
  if s.free c then
    (s.threads.next (.call c)).map fun t => { s with threads := t, reactor := s.sendTo c }
  else none

def iterate (s : ReactorServer) (c : ConnectionId) (entries : List ((_ : ConnectionId) × Int)) :
    Option ReactorServer :=
  if s.free c then (s.threads.next (.iterate c entries)).map fun t => { s with threads := t } else none

/-- A step of a worker in `send`. -/
def sendStep (s : ReactorServer) (e : ReactorEvent) : Option ReactorServer :=
  (s.reactor.next e).map fun r => { s with reactor := r }

def done (s : ReactorServer) (c : ConnectionId) : Option ReactorServer :=
  match s.actors.lookup c with
  | some ⟨encdec, pending, some []⟩ =>
    if s.free c && s.threads.idle c then some (s.setActor c ⟨encdec, pending, none⟩) else none
  | _ => none

/-- `shouldTerminate` of the connection that `continueWrite` is at. -/
def shouldTerminate (s : ReactorServer) : Bool :=
  match s.reactor.selector with
  | .finish c _ => (s.threads.server.sessions.lookup c).any fun p : Session => p.shouldTerminate
  | _ => false

def accept (s : ReactorServer) : Option ReactorServer :=
  let c := s.threads.server.connectionCounter + 1
  (s.reactor.handleAccept c).bind fun r =>
    (s.threads.next .accept).map fun t => ⟨r, t, s.actors.insert c ⟨.initial, [], none⟩⟩

def next (s : ReactorServer) : ReactorServerEvent → Option ReactorServer
  | .accept => s.accept
  | .select ready => s.selectorStep (.select ready)
  | .task => s.selectorStep .task
  | .key outcome => s.selectorStep (.key outcome)
  | .write outcome => s.selectorStep (.write outcome)
  | .finish => s.selectorStep (.finish s.shouldTerminate)
  | .toRead => s.selectorStep .toRead
  | .start c => s.start c
  | .decode c => s.decode c
  | .call c => s.call c
  | .iterate c entries => s.iterate c entries
  | .add c => s.sendStep (.add c)
  | .keyFor c => s.sendStep (.keyFor c)
  | .post c => s.sendStep (.post c)
  | .done c => s.done c

def runs : System ReactorServer ReactorServerEvent := ⟨.initial, next⟩

/-! ## What a step does -/

theorem sendTo_cases (s : ReactorServer) (c : ConnectionId) : s.sendTo c = s.reactor ∨
    ∃ d msg, s.reactor.next (.send c d msg) = some (s.sendTo c) ∧
      s.sendTo c = s.reactor.setWorker c (.add d msg) := by
  have hsend : ∀ d msg, (s.reactor.send c d msg).getD s.reactor = s.reactor ∨
      (s.reactor.next (.send c d msg) = some ((s.reactor.send c d msg).getD s.reactor) ∧
        (s.reactor.send c d msg).getD s.reactor = s.reactor.setWorker c (.add d msg)) := by
    intro d msg
    rw [Reactor.next, Reactor.send]
    split
    · split
      · exact .inr ⟨rfl, rfl⟩
      · exact .inl rfl
    · exact .inl rfl
  unfold sendTo
  split
  · split
    · next d msg _ _ =>
      exact (hsend d _).imp id fun h => ⟨d, _, h⟩
    · exact .inl rfl
  · exact .inl rfl

theorem start_cases {s s' : ReactorServer} {c : ConnectionId} (hs : s.start c = some s') :
    ∃ a, s' = s.setActor c a ∧ a.task ≠ none := by
  unfold start at hs
  split at hs
  · cases hs
    exact ⟨_, rfl, Option.some_ne_none _⟩
  · cases hs

theorem done_cases {s s' : ReactorServer} {c : ConnectionId} (hs : s.done c = some s') :
    s.free c = true ∧ s.threads.idle c = true ∧ ∃ a, s' = s.setActor c a := by
  unfold done at hs
  split at hs
  · split at hs
    · next hfree =>
      cases hs
      rw [Bool.and_eq_true] at hfree
      exact ⟨hfree.1, hfree.2, _, rfl⟩
    · cases hs
  · cases hs

theorem decode_cases {s s' : ReactorServer} {c : ConnectionId} (hs : s.decode c = some s') :
    s.free c = true ∧ s.threads.idle c = true ∧ ∃ a, (s' = s.setActor c a ∨
      ∃ b f t, s.actors.lookup c = some b ∧ b.task ≠ none ∧ a.task ≠ none ∧
        s.threads.next (.process c f) = some t ∧ s' = { s with threads := t }.setActor c a) := by
  -- A byte that ends a frame begins a handler, any other only changes the actor.
  unfold decode at hs
  split at hs
  · next hactor =>
    split at hs
    · next hfree =>
      rw [Bool.and_eq_true] at hfree
      refine ⟨hfree.1, hfree.2, ?_⟩
      split at hs
      · cases hs
        exact ⟨_, .inl rfl⟩
      · obtain ⟨t, ht, rfl⟩ := Option.map_eq_some_iff.mp hs
        exact ⟨_, .inr ⟨_, _, t, hactor, Option.some_ne_none _, Option.some_ne_none _, ht, rfl⟩⟩
      · cases hs
        exact ⟨_, .inl rfl⟩
    · cases hs
  · cases hs

theorem iterate_cases {s s' : ReactorServer} {c : ConnectionId}
    {entries : List ((_ : ConnectionId) × Int)} (hs : s.iterate c entries = some s') :
    s.free c = true ∧ ∃ f topic rest,
      s.threads.running c = some ⟨f, .call (.getSubscribers topic) rest⟩ ∧
      s' = { s with threads := { s.threads with
        running := Function.update s.threads.running c (some ⟨f, rest entries⟩) } } := by
  unfold iterate at hs
  split at hs
  · next hfree =>
    obtain ⟨t, ht, rfl⟩ := Option.map_eq_some_iff.mp hs
    obtain ⟨f, topic, rest, hrun, rfl⟩ := Threads.running_of_iterate ht
    exact ⟨hfree, f, topic, rest, hrun, rfl⟩
  · cases hs

/-! ## What is left of a closed connection -/

/-- A call enters its connection in a table only while the channel is open. -/
def EntersOpen : ReactorServer × ReactorServerEvent → Prop
  | (s, .call c) => ∀ d ∈ Threads.enters (s.threads, .call c), s.reactor.isClosed d = false
  | _ => True

instance : DecidablePred EntersOpen
  | (_, .call _) => inferInstanceAs (Decidable (∀ d ∈ _, _ = false))
  | (_, .accept) | (_, .select _) | (_, .task) | (_, .key _) | (_, .write _) | (_, .finish)
  | (_, .toRead) | (_, .start _) | (_, .decode _) | (_, .iterate _ _) | (_, .add _) | (_, .keyFor _) | (_, .post _)
  | (_, .done _) => isTrue trivial

def NoTrace (s : ReactorServer) (c : ConnectionId) : Prop := s.threads.server.connections.NoTrace c

/-- The tables hold nothing of a connection whose channel is closed. -/
def Swept (s : ReactorServer) : Prop := ∀ c, s.reactor.isClosed c = true → s.NoTrace c

theorem Swept.selectorStep {s s' : ReactorServer} {e : ReactorEvent} (h : Swept s)
    (hs : s.selectorStep e = some s') : Swept s' := by
  obtain ⟨r, hr, rfl⟩ := Option.map_eq_some_iff.mp hs
  intro c hc
  show ConnectionsImpl.NoTrace (((s.reactor.closeCalled e).map s.threads.disconnect).getD
    s.threads).server.connections c
  cases hcall : s.reactor.closeCalled e with
  | none =>
    have := (Reactor.isClosed_back hr hc).resolve_right (by simp [hcall])
    exact h c this
  | some d =>
    show (s.threads.server.connections.disconnect d).NoTrace c
    rcases Reactor.isClosed_back hr hc with hold | hnew
    · exact (h c hold).disconnect d
    · rw [hcall] at hnew
      cases hnew
      exact ConnectionsImpl.noTrace_disconnect _ _

theorem Swept.accept {s s' : ReactorServer} (h : Swept s) (hs : s.accept = some s') : Swept s' := by
  obtain ⟨r, hr, hs⟩ := Option.bind_eq_some_iff.mp hs
  obtain ⟨t, ht, rfl⟩ := Option.map_eq_some_iff.mp hs
  intro c hc
  have hnext : s.reactor.next (.accept (s.threads.server.connectionCounter + 1)) = some r := hr
  have hold : s.reactor.isClosed c = true :=
    (Reactor.isClosed_back hnext hc).resolve_right (by simp [Reactor.closeCalled])
  refine Threads.noTrace_next ht (h c hold) fun he => ?_
  have hid : s.threads.server.connectionCounter + 1 = c := Option.some.inj he
  unfold Reactor.handleAccept at hr
  split at hr
  · next hnone =>
    rw [Reactor.isClosed, ← hid, hnone] at hold
    cases hold
  · cases hr

theorem Swept.call {s s' : ReactorServer} {c : ConnectionId} (h : Swept s)
    (hC : EntersOpen (s, .call c)) (hs : s.call c = some s') : Swept s' := by
  unfold ReactorServer.call at hs
  split at hs
  · obtain ⟨t, ht, rfl⟩ := Option.map_eq_some_iff.mp hs
    intro d hd
    have hhandlers : (s.sendTo c).handlers = s.reactor.handlers := by
      obtain heq | ⟨_, _, -, heq⟩ := s.sendTo_cases c
      · rw [heq]
      · rw [heq]
        rfl
    have hold : s.reactor.isClosed d = true := by
      rw [← hd]
      show Option.any _ _ = Option.any _ ((s.sendTo c).handlers.lookup d)
      rw [hhandlers]
    refine Threads.noTrace_next ht (h d hold) fun he => ?_
    have := hC d he
    rw [hold] at this
    cases this
  · cases hs

theorem Swept.step {s s' : ReactorServer} {e : ReactorServerEvent} (h : Swept s)
    (hC : EntersOpen (s, e)) (hs : s.next e = some s') : Swept s' := by
  have hsend : ∀ e', s.sendStep e' = some s' → s.reactor.closeCalled e' = none → Swept s' := by
    intro e' hs' hnone c hc
    obtain ⟨r, hr, rfl⟩ := Option.map_eq_some_iff.mp hs'
    exact h c ((Reactor.isClosed_back hr hc).resolve_right (by simp [hnone]))
  cases e with
  | accept => exact h.accept hs
  | select | task | key | write | finish | toRead => exact h.selectorStep hs
  | call c => exact h.call hC hs
  | iterate c entries =>
    obtain ⟨-, f, topic, rest, -, rfl⟩ := iterate_cases hs
    exact h
  | add c | keyFor c | post c => exact hsend _ hs rfl
  | start c =>
    obtain ⟨a, rfl, -⟩ := start_cases hs
    exact h
  | done c =>
    obtain ⟨-, -, a, rfl⟩ := done_cases hs
    exact h
  | decode c =>
    obtain ⟨-, -, a, rfl | ⟨_, f, t, -, -, -, ht, rfl⟩⟩ := decode_cases hs
    · exact h
    · exact fun d hd => Threads.noTrace_next ht (h d hd) fun he => by cases he

/-- When no call enters a connection whose channel is closed, a closed connection has left no trace,
even while tasks of it wait. -/
theorem sweeps {trace : List (ReactorServer × ReactorServerEvent)} {s : ReactorServer}
    (h : runs.Run trace s) (hC : ∀ e ∈ trace, EntersOpen e) :
    ∀ c, s.reactor.isClosed c = true → s.threads.server.connections.NoTrace c :=
  System.Run.inv_of (fun s e => EntersOpen (s, e)) Swept (fun c hc => by cases hc)
    (fun _ _ _ hs hc hn => hs.step hc hn) h hC

/-- No worker task of the handler is pending or running. -/
def quiet (s : ReactorServer) (c : ConnectionId) : Bool :=
  (s.actors.lookup c).any fun a => a.pending.isEmpty && a.task.isNone

def connectBytes : Bytes :=
  Utf8.encode "CONNECT\naccept-version:1.2\nhost:h\nlogin:u\npasscode:p\n\n\x00".toList

/-- The selector thread accepts a connection, and hands a CONNECT of it to the pool. -/
def readConnect : List ReactorServerEvent :=
  [.select [], .task, .accept, .key .closed, .select [⟨1, ⟨true, false⟩⟩], .task,
    .key (.bytes connectBytes), .key .closed]

/-- The selector thread finds the end of the stream. -/
def readEnd : List ReactorServerEvent :=
  [.select [⟨1, ⟨true, false⟩⟩], .task, .key .closed, .key .closed]

/-- The worker decodes the CONNECT and makes its calls, up to CONNECTED. -/
def logIn : List ReactorServerEvent :=
  [.start 1] ++ List.replicate connectBytes.length (.decode 1) ++ List.replicate 4 (.call 1)

theorem sweeps_logged_in : ∃ trace s, runs.Run trace s ∧ s.reactor.isClosed 1 = true ∧
    s.threads.server.connections.users.lookup "u".toList = some "p".toList ∧
    s.threads.server.connections.NoTrace 1 := by
  obtain ⟨trace, s, hr, hs⟩ := System.exists_run (M := runs)
    (readConnect ++ logIn ++ [.add 1, .keyFor 1, .post 1, .done 1] ++
      [.select [⟨1, ⟨true, false⟩⟩], .task, .task, .key .closed, .key .closed])
    (fun trace s => decide (s.reactor.isClosed 1 = true ∧
      s.threads.server.connections.users.lookup "u".toList = some "p".toList ∧
      ∀ e ∈ trace, EntersOpen e)) (by decide +kernel)
  rw [decide_eq_true_eq] at hs
  exact ⟨trace, s, hr, hs.1, hs.2.1, sweeps hr hs.2.2 1 hs.1⟩

/-- The worker logs the user in after the selector thread closed the connection. -/
theorem enters_closed : ∃ trace s, runs.Run trace s ∧ s.reactor.isClosed 1 = true ∧
    s.quiet 1 = true ∧ s.threads.idle 1 = true ∧ s.threads.server.connections.isUserActive "u".toList = true ∧
    ¬ s.threads.server.connections.NoTrace 1 := by
  obtain ⟨trace, s, hr, hs⟩ := System.exists_run (M := runs) (readConnect ++ readEnd ++ logIn ++ [.done 1])
    (fun _ s => decide (s.reactor.isClosed 1 = true ∧ s.quiet 1 = true ∧ s.threads.idle 1 = true ∧
      s.threads.server.connections.activeUsers.lookup 1 = some "u".toList)) (by decide +kernel)
  rw [decide_eq_true_eq] at hs
  obtain ⟨hclosed, hquiet, hidle, hu⟩ := hs
  refine ⟨trace, s, hr, hclosed, hquiet, hidle, (Table.containsValue_iff _ _).mpr ⟨1, hu⟩, fun hn => ?_⟩
  have := hn.inactive
  rw [hu] at this
  cases this

end ReactorServer

end Stomp
