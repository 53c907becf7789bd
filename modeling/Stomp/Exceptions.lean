import Stomp.Modes

/-!
# Handlers that end by an exception

`addSubscription` and `removeSubscription` look the topic up several times. Where another thread drops
the topic in between, the call ends in a NullPointerException, with its entry taken out or not. The
exception leaves `process`. It ends `run` on a thread of its own, and on the reactor the task, with
what was left of its buffer.
-/

namespace Stomp

/-- A label of a system, or a call of the connection's thread that ends in an exception. `done` says
whether it did to the tables what it was to do. -/
inductive Faulty (L : Type) where
  | step (l : L)
  | throws (c : ConnectionId) (done : Bool)

namespace Faulty

variable {S L : Type}

/-- The steps of a trace that are no exceptions. -/
def steps (trace : List (S × Faulty L)) : List (S × L) :=
  trace.filterMap fun e =>
    match e.2 with
    | .step l => some (e.1, l)
    | .throws _ _ => none

/-- How often a call of the connection's thread threw. -/
def thrown (c : ConnectionId) (trace : List (S × Faulty L)) : Nat :=
  trace.countP fun e =>
    match e.2 with
    | .step _ => false
    | .throws d _ => decide (d = c)

theorem steps_step (trace : List (S × Faulty L)) (s : S) (l : L) :
    steps (trace ++ [(s, .step l)]) = steps trace ++ [(s, l)] := List.filterMap_append

theorem steps_throws (trace : List (S × Faulty L)) (s : S) (c : ConnectionId) (done : Bool) :
    steps (trace ++ [(s, .throws c done)]) = steps trace :=
  List.filterMap_append.trans (List.append_nil _)

theorem thrown_step (c : ConnectionId) (trace : List (S × Faulty L)) (s : S) (l : L) :
    thrown c (trace ++ [(s, .step l)]) = thrown c trace := List.countP_append

theorem thrown_throws (c d : ConnectionId) (trace : List (S × Faulty L)) (s : S) (done : Bool) :
    thrown c (trace ++ [(s, .throws d done)]) = thrown c trace + if d = c then 1 else 0 := by
  unfold thrown
  rw [List.countP_append, List.countP_singleton]
  simp

end Faulty

/-- The system, with calls that throw. -/
def System.faulty {S L : Type} (M : System S L) (throws : S → ConnectionId → Bool → Option S) :
    System S (Faulty L) where
  init := M.init
  step s
    | .step l => M.step s l
    | .throws c done => throws s c done

/-- The calls that may end in a NullPointerException. -/
def Call.throws : Call → Bool
  | .addSubscription _ _ _ | .removeSubscription _ _ => true
  | _ => false

namespace Threads

def throws (t : Threads) (c : ConnectionId) (done : Bool) : Option Threads :=
  match t.running c with
  | some ⟨f, .call k _⟩ =>
    if k.throws then
      some ⟨if done then (Server.answer k (t.server, [])).2.1 else t.server,
        Function.update t.running c (some ⟨f, .ret ()⟩)⟩
    else none
  | _ => none

theorem throws_cases {t t' : Threads} {c : ConnectionId} {done : Bool}
    (h : t.throws c done = some t') : ∃ f k rest, t.running c = some ⟨f, .call k rest⟩ ∧
      k.throws = true ∧ t'.running = Function.update t.running c (some ⟨f, .ret ()⟩) ∧
      t'.server.connectionCounter = t.server.connectionCounter := by
  unfold throws at h
  split at h
  · next f k rest hrun =>
    split at h
    · next hk =>
      cases h
      refine ⟨f, k, rest, hrun, hk, rfl, ?_⟩
      cases done
      · rfl
      · cases k <;> rfl
    · cases h
  · cases h

end Threads

namespace Blocking

def throws (b : Blocking) (c : ConnectionId) (done : Bool) : Option Blocking :=
  match b.handlers c with
  | some ⟨encdec, connected, .process⟩ =>
    (b.threads.throws c done).map fun t => (b.setThreads t).setHandler c ⟨encdec, connected, .returned⟩
  | _ => none

def faulty : System Blocking (Faulty BlockingEvent) := runs.faulty throws

theorem throws_cases {b b' : Blocking} {c : ConnectionId} {done : Bool}
    (h : b.throws c done = some b') : ∃ encdec connected t, b.handlers c = some ⟨encdec, connected, .process⟩ ∧
      b.threads.throws c done = some t ∧
      b' = (b.setThreads t).setHandler c ⟨encdec, connected, .returned⟩ := by
  unfold throws at h
  split at h
  · next encdec connected hphase =>
    obtain ⟨t, ht, rfl⟩ := Option.map_eq_some_iff.mp h
    exact ⟨encdec, connected, t, hphase, ht, rfl⟩
  · cases h

end Blocking

namespace ReactorServer

/-- The task ends, and the rest of its buffer is lost. -/
def throws (s : ReactorServer) (c : ConnectionId) (done : Bool) : Option ReactorServer :=
  match s.actors.lookup c with
  | some ⟨encdec, pending, some _⟩ =>
    if s.free c then
      (s.threads.throws c done).map fun t => { s with threads := t }.setActor c ⟨encdec, pending, none⟩
    else none
  | _ => none

def faulty : System ReactorServer (Faulty ReactorServerEvent) := runs.faulty throws

theorem throws_cases {s s' : ReactorServer} {c : ConnectionId} {done : Bool}
    (h : s.throws c done = some s') : ∃ encdec pending bs t,
      s.actors.lookup c = some ⟨encdec, pending, some bs⟩ ∧ s.threads.throws c done = some t ∧
      s' = { s with threads := t }.setActor c ⟨encdec, pending, none⟩ := by
  unfold throws at h
  split at h
  · next encdec pending bs hactor =>
    split at h
    · obtain ⟨t, ht, rfl⟩ := Option.map_eq_some_iff.mp h
      exact ⟨encdec, pending, bs, t, hactor, ht, rfl⟩
    · cases h
  · cases h

end ReactorServer

end Stomp
