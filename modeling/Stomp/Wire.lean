import Stomp.Modes

/-!
# The bytes that go out

What any worker sends goes through the queue of the channel. No order of the steps loses, doubles or
mixes any of it.
-/

namespace Stomp

open Utf8

namespace Reactor

/-- What the channel took, and what waits in its queue. -/
def stream (s : Reactor) (c : ConnectionId) : Bytes :=
  ((s.handlers.lookup c).map fun h => h.written ++ h.writeQueue.flatten).getD []

/-- The worker, the channel and the bytes of a step that adds to a queue. -/
def queued (s : Reactor) : ReactorEvent → Option (WorkerId × ConnectionId × Bytes)
  | .add w =>
    match s.workers.lookup w with
    | some (.add c encodedMsg) => some (w, c, encodedMsg)
    | _ => none
  | _ => none

/-- What a step adds to the queue of a channel. -/
def added (s : Reactor) (e : ReactorEvent) (c : ConnectionId) : Bytes :=
  match s.queued e with
  | some (_, d, encodedMsg) => if d = c then encodedMsg else []
  | none => []

section Stream

variable {s s' : Reactor} {c d : ConnectionId} {x y : NonBlockingConnectionHandler}

theorem stream_handler (hx : s.handlers.lookup c = some x) :
    s.stream c = x.written ++ x.writeQueue.flatten := by
  unfold stream
  rw [hx]
  rfl

theorem stream_setHandler : (s.setHandler c y).stream d =
    if d = c then y.written ++ y.writeQueue.flatten else s.stream d := by
  unfold stream
  rw [lookup_setHandler]
  split <;> rfl

theorem stream_same (hx : s.handlers.lookup c = some x)
    (h : y.written ++ y.writeQueue.flatten = x.written ++ x.writeQueue.flatten) :
    (s.setHandler c y).stream d = s.stream d := by
  rw [stream_setHandler]
  split
  · next hdc => rw [hdc, stream_handler hx, h]
  · rfl

@[simp]
theorem stream_setSelector (phase : SelectorPhase) : (s.setSelector phase).stream c = s.stream c := rfl

@[simp]
theorem stream_setWorker (w : WorkerId) (stage : SendStage) :
    (s.setWorker w stage).stream c = s.stream c := rfl

@[simp]
theorem stream_close : (s.close c).stream d = s.stream d := by
  unfold stream
  rw [lookup_close]
  split
  · next hdc =>
    rw [hdc]
    cases s.handlers.lookup c <;> rfl
  · rfl

theorem queued_add {w : WorkerId} {encodedMsg : Bytes}
    (hw : s.workers.lookup w = some (.add c encodedMsg)) :
    s.queued (.add w) = some (w, c, encodedMsg) := by
  simp only [queued, hw]

theorem added_of_sender {e : ReactorEvent} (he : sender e = none) : s.added e c = [] := by
  unfold added queued
  cases e with
  | add w => cases he
  | accept | send | keyFor | post | select | task | key | write | finish | toRead => rfl

theorem stream_continueWrite {outcome : WriteOutcome} (hs : s.continueWrite outcome = some s') :
    s'.stream d = s.stream d := by
  unfold continueWrite at hs
  split at hs
  · obtain ⟨x, hx, hs⟩ := Option.bind_eq_some_iff.mp hs
    cases hqueue : x.writeQueue with
    | nil =>
      simp only [hqueue] at hs
      cases hs
      rfl
    | cons top queue =>
      cases outcome with
      | accepted n =>
        simp only [hqueue] at hs
        split at hs
        · cases hs
        split at hs
        · cases hs
          refine stream_same hx ?_
          rw [hqueue, List.flatten_cons, List.flatten_cons, List.append_assoc,
            ← List.append_assoc (top.take n), List.take_append_drop]
        · cases hs
          exact stream_same hx (by simp [hqueue])
      | failed =>
        simp only [hqueue] at hs
        cases hs
        exact stream_close
  · cases hs

theorem stream_next {e : ReactorEvent} (hs : s.next e = some s') (d : ConnectionId) :
    s'.stream d = s.stream d ++ s.added e d := by
  -- Only an addition to its queue changes what a channel takes.
  have hsame : sender e = none → s'.stream d = s.stream d → s'.stream d = s.stream d ++ s.added e d := by
    intro he h
    rw [h, added_of_sender he, List.append_nil]
  by_cases hwrite : ∃ outcome, e = .write outcome
  · obtain ⟨outcome, rfl⟩ := hwrite
    exact hsame rfl (stream_continueWrite hs)
  cases next_step hs with
  | accept hsel hc =>
    refine hsame rfl ?_
    rw [stream_setHandler]
    split
    · next hdc =>
      rw [hdc, stream, hc]
      rfl
    · rfl
  | @add w c msg x hw hx =>
    rw [stream_setWorker, stream_setHandler, added, queued_add hw]
    by_cases hdc : d = c
    · subst hdc
      simp [stream_handler hx]
    · simp [hdc, Ne.symm hdc]
  | send | sendClosed | keyFor | post => exact (List.append_nil _).symm
  | select hnodup hready =>
    refine hsame rfl ?_
    unfold stream
    rw [Table.lookup_mapValues]
    cases s.handlers.lookup d <;> rfl
  | task hsel ht hc => exact hsame rfl (stream_same (s := { s with selectorTasks := _ }) hc rfl)
  | goOn he hphase => exact hsame he rfl
  | taskFails | keyWrite | finishOpen => exact hsame rfl rfl
  | keyClosed | finishClose => exact hsame rfl (by simp)
  | toRead hsel hc => exact hsame rfl (stream_same hc rfl)
  | writePart | writeAll | writeFails => exact absurd ⟨_, rfl⟩ hwrite

end Stream

/-! ### The worker in `send` -/

section Sender

variable {s s' : Reactor} {w : WorkerId} {e : ReactorEvent}

theorem queued_cases (he : sender e = some w) {x : WorkerId × ConnectionId × Bytes}
    (hq : s.queued e = some x) : w = x.1 ∧ s.workers.lookup w = some (.add x.2.1 x.2.2) := by
  unfold queued at hq
  split at hq
  · split at hq
    · next hadd =>
      cases he
      cases hq
      exact ⟨rfl, hadd⟩
    · cases hq
  · cases hq

theorem add_stage (he : e = .add w ∨ e = .keyFor w ∨ e = .post w) (hs : s.next e = some s')
    (c : ConnectionId) (encodedMsg : Bytes) : s'.workers.lookup w ≠ some (.add c encodedMsg) ∧
      (s.workers.lookup w = some (.add c encodedMsg) ↔ s.queued e = some (w, c, encodedMsg)) := by
  rcases he with rfl | rfl | rfl
  · simp only [next, Reactor.add] at hs
    split at hs
    · next d bs hadd =>
      obtain ⟨x, hx, rfl⟩ := Option.map_eq_some_iff.mp hs
      rw [lookup_setWorker, if_pos rfl, queued_add hadd, hadd]
      simp
    · cases hs
  · simp only [next, Reactor.keyFor] at hs
    split at hs
    · next d hkey =>
      cases hs
      rw [lookup_setWorker, if_pos rfl, hkey]
      simp [queued]
    · cases hs
  · simp only [next, Reactor.post] at hs
    split at hs
    · next d hasKey hpost =>
      cases hs
      dsimp only
      rw [AList.lookup_erase, hpost]
      simp [queued]
    · cases hs

end Sender

end Reactor

namespace ReactorServer

/-- The worker, the receiver and the frame of a `Connections.send` that finds the receiver registered
and its channel open. -/
def sends : ReactorServer × ReactorServerEvent → Option (ConnectionId × ConnectionId × StompFrame)
  | (s, .call c) =>
    match Threads.called (s.threads, .call c) with
    | some (_, _, .send d msg) =>
      if s.threads.server.connections.isRegistered d && s.reactor.isOpen d then some (c, d, msg)
      else none
    | _ => none
  | _ => none

def queued : ReactorServer × ReactorServerEvent → Option (WorkerId × ConnectionId × Bytes)
  | (s, .add c) => s.reactor.queued (.add c)
  | _ => none

/-- The frames that the worker of `c` sent to `d`. -/
def sentBy (c d : ConnectionId) (trace : List (ReactorServer × ReactorServerEvent)) :
    List StompFrame :=
  trace.filterMap fun e => (sends e).bind fun x => if x.1 = c ∧ x.2.1 = d then some x.2.2 else none

/-- What the worker of `c` added to the queue of `d`. -/
def addedBy (c d : ConnectionId) (trace : List (ReactorServer × ReactorServerEvent)) : List Bytes :=
  trace.filterMap fun e => (queued e).bind fun x => if x.1 = c ∧ x.2.1 = d then some x.2.2 else none

/-- What the worker of `c` is about to add to the queue of `d`. -/
def underWay (s : ReactorServer) (c d : ConnectionId) : List Bytes :=
  match s.reactor.workers.lookup c with
  | some (.add d' encodedMsg) => if d' = d then [encodedMsg] else []
  | _ => []

theorem underWay_congr {s s' : ReactorServer} {c : ConnectionId}
    (h : s'.reactor.workers.lookup c = s.reactor.workers.lookup c) (d : ConnectionId) :
    s'.underWay c d = s.underWay c d := by
  unfold underWay
  rw [h]

theorem underWay_free {s : ReactorServer} {c : ConnectionId} (h : s.free c = true)
    (d : ConnectionId) : s.underWay c d = [] := by
  unfold free at h
  unfold underWay
  rw [Option.isNone_iff_eq_none.mp h]

theorem sendTo_sends {s : ReactorServer} {c : ConnectionId} (hfree : s.free c = true) :
    (sends (s, .call c) = none ∧ s.sendTo c = s.reactor) ∨
    ∃ d msg, sends (s, .call c) = some (c, d, msg) ∧
      s.sendTo c = s.reactor.setWorker c (.add d (StompMessageEncoderDecoder.encode msg)) := by
  have hworker : s.reactor.workers.lookup c = none := Option.isNone_iff_eq_none.mp hfree
  unfold sends sendTo
  dsimp only
  generalize Threads.called (s.threads, .call c) = o
  rcases o with _ | ⟨c', f, k⟩
  · exact .inl ⟨rfl, rfl⟩
  cases k with
  | send d msg =>
    dsimp only
    cases hreg : s.threads.server.connections.isRegistered d with
    | false => exact .inl ⟨rfl, rfl⟩
    | true =>
      rw [Bool.true_and, if_pos rfl, Reactor.send, hworker]
      cases hopen : s.reactor.isOpen d with
      | true =>
        obtain ⟨x, hx, hxopen⟩ := Reactor.exists_handler hopen
        exact .inr ⟨d, msg, rfl, by simp [hx, hxopen]⟩
      | false =>
        refine .inl ⟨rfl, ?_⟩
        cases hx : s.reactor.handlers.lookup d with
        | none => rfl
        | some x =>
          have hclosed := (Reactor.isOpen_of_handler hx).symm.trans hopen
          simp [hclosed]
  | put | disconnect | authenticateUser | isUserActive | getNextMessageId | addSubscription
  | removeSubscription | getSubscribers => exact .inl ⟨rfl, rfl⟩

/-! ### One step -/

theorem reactor_next {s s' : ReactorServer} {e : ReactorServerEvent} (hs : s.next e = some s') :
    (queued (s, e) = none ∧ sends (s, e) = none ∧ ∃ e', Reactor.sender e' = none ∧
      s.reactor.next e' = some s'.reactor) ∨
    (queued (s, e) = none ∧ sends (s, e) = none ∧ s'.reactor = s.reactor) ∨
    (∃ c, s.free c = true ∧ queued (s, e) = none ∧ ∃ d msg, sends (s, e) = some (c, d, msg) ∧
      s'.reactor = s.reactor.setWorker c (.add d (StompMessageEncoderDecoder.encode msg))) ∨
    ∃ c e', (e' = .add c ∨ e' = .keyFor c ∨ e' = .post c) ∧ queued (s, e) = s.reactor.queued e' ∧
      sends (s, e) = none ∧ s.reactor.next e' = some s'.reactor := by
  have hselector : ∀ e', Reactor.sender e' = none → s.selectorStep e' = some s' →
      ∃ e', Reactor.sender e' = none ∧ s.reactor.next e' = some s'.reactor := by
    intro e' he hs'
    obtain ⟨r, hr, rfl⟩ := Option.map_eq_some_iff.mp hs'
    exact ⟨e', he, hr⟩
  have hsend : ∀ e', s.sendStep e' = some s' → s.reactor.next e' = some s'.reactor := by
    intro e' hs'
    obtain ⟨r, hr, rfl⟩ := Option.map_eq_some_iff.mp hs'
    exact hr
  cases e with
  | select | task | key | write | finish | toRead => exact .inl ⟨rfl, rfl, hselector _ rfl hs⟩
  | add c => exact .inr (.inr (.inr ⟨c, _, by simp, rfl, rfl, hsend _ hs⟩))
  | keyFor c | post c => exact .inr (.inr (.inr ⟨c, _, by simp, rfl, rfl, hsend _ hs⟩))
  | iterate c entries =>
    obtain ⟨-, f, topic, rest, -, rfl⟩ := iterate_cases hs
    exact .inr (.inl ⟨rfl, rfl, rfl⟩)
  | accept =>
    obtain ⟨r, hr, hs⟩ := Option.bind_eq_some_iff.mp hs
    obtain ⟨t, -, rfl⟩ := Option.map_eq_some_iff.mp hs
    exact .inl ⟨rfl, rfl, .accept (s.threads.server.connectionCounter + 1), rfl, hr⟩
  | start c =>
    obtain ⟨a, rfl, -⟩ := start_cases hs
    exact .inr (.inl ⟨rfl, rfl, rfl⟩)
  | done c =>
    obtain ⟨-, -, a, rfl⟩ := done_cases hs
    exact .inr (.inl ⟨rfl, rfl, rfl⟩)
  | decode c =>
    obtain ⟨-, -, a, rfl | ⟨_, f, t, -, -, -, -, rfl⟩⟩ := decode_cases hs
    · exact .inr (.inl ⟨rfl, rfl, rfl⟩)
    · exact .inr (.inl ⟨rfl, rfl, rfl⟩)
  | call c =>
    obtain ⟨hfree, f, k, rest, -, -, -, hreactor, -⟩ := call_cases hs
    obtain ⟨hnone, hsame⟩ | ⟨d, msg, hsome, hworker⟩ := sendTo_sends hfree
    · exact .inr (.inl ⟨rfl, hnone, hreactor.trans hsame⟩)
    · exact .inr (.inr (.inl ⟨c, hfree, rfl, d, msg, hsome, hreactor.trans hworker⟩))

theorem addedBy_one (c d : ConnectionId) {e : ReactorServer × ReactorServerEvent}
    {o : Option (WorkerId × ConnectionId × Bytes)} (hq : queued e = o) : addedBy c d [e] =
      (o.bind fun x => if x.1 = c ∧ x.2.1 = d then some x.2.2 else none).toList := by
  subst hq
  unfold addedBy
  cases h : (queued e).bind fun x => if x.1 = c ∧ x.2.1 = d then some x.2.2 else none <;> simp [h]

theorem sent_next {s s' : ReactorServer} {e : ReactorServerEvent} (hs : s.next e = some s')
    (c d : ConnectionId) :
    s.underWay c d ++ (sentBy c d [(s, e)]).map StompMessageEncoderDecoder.encode =
      addedBy c d [(s, e)] ++ s'.underWay c d := by
  obtain ⟨hq, hn, e', he', hr⟩ | ⟨hq, hn, hr⟩ | ⟨w, hfree, hq, d', msg, hn, hr⟩ |
    ⟨w, e', he', hq, hn, hr⟩ := reactor_next hs
  · have hsame := Reactor.workers_step (Reactor.next_step hr) (w := c) (by simp [he'])
    simp [sentBy, addedBy, hq, hn, underWay_congr hsame]
  · have hsame : s'.underWay c d = s.underWay c d := underWay_congr (by rw [hr]) d
    simp [sentBy, addedBy, hq, hn, hsame]
  · by_cases hwc : w = c
    · subst hwc
      have hnew : s'.underWay w d = if d' = d then [StompMessageEncoderDecoder.encode msg] else [] := by
        unfold underWay
        rw [hr, Reactor.lookup_setWorker, if_pos rfl]
      rw [underWay_free hfree, hnew]
      by_cases hd : d' = d <;> simp [sentBy, addedBy, hq, hn, hd]
    · have hsame : s'.reactor.workers.lookup c = s.reactor.workers.lookup c := by
        rw [hr, Reactor.lookup_setWorker, if_neg (Ne.symm hwc)]
      simp [sentBy, addedBy, hq, hn, hwc, underWay_congr hsame]
  · have hsender : Reactor.sender e' = some w := by rcases he' with rfl | rfl | rfl <;> rfl
    have hstage := Reactor.add_stage he' hr
    by_cases hwc : w = c
    · subst hwc
      have hafter : s'.underWay w d = [] := by
        unfold underWay
        split
        · next hadd => exact absurd hadd (hstage _ _).1
        · rfl
      have hbefore : s.underWay w d = addedBy w d [(s, e)] := by
        rw [addedBy_one w d hq]
        unfold underWay
        split
        · next d' bs hadd =>
          rw [(hstage d' bs).2.mp hadd]
          by_cases hd : d' = d <;> simp [hd]
        · next hadd =>
          cases hqueued : s.reactor.queued e' with
          | none => rfl
          | some x =>
            obtain ⟨rfl, -⟩ := Reactor.queued_cases hsender hqueued
            exact absurd ((hstage _ _).2.mpr hqueued) (hadd _ _)
      simp [sentBy, hn, hafter, hbefore]
    · have hsame := Reactor.workers_step (Reactor.next_step hr) (w := c) (by simp [hsender, hwc])
      have hother : addedBy c d [(s, e)] = [] := by
        rw [addedBy_one c d hq]
        cases hqueued : s.reactor.queued e' with
        | none => rfl
        | some x =>
          obtain ⟨rfl, -⟩ := Reactor.queued_cases hsender hqueued
          simp [hwc]
      simp [sentBy, hn, hother, underWay_congr hsame]

theorem stream_next {s s' : ReactorServer} {e : ReactorServerEvent} (hs : s.next e = some s')
    (d : ConnectionId) : s'.reactor.stream d = s.reactor.stream d ++
      match queued (s, e) with
      | some (_, d', encodedMsg) => if d' = d then encodedMsg else []
      | none => [] := by
  obtain ⟨hq, -, e', he', hr⟩ | ⟨hq, -, hr⟩ | ⟨w, -, hq, d', msg, -, hr⟩ | ⟨w, e', -, hq, -, hr⟩ :=
    reactor_next hs
  · rw [Reactor.stream_next hr, hq, Reactor.added_of_sender he']
  · rw [hr, hq, List.append_nil]
  · rw [hr, hq, List.append_nil]
    rfl
  · rw [Reactor.stream_next hr, hq]
    rfl

/-! ### Whole runs -/

theorem sent_step {trace : List (ReactorServer × ReactorServerEvent)} {s s' : ReactorServer}
    {e : ReactorServerEvent} {c d : ConnectionId}
    (h : (sentBy c d trace).map StompMessageEncoderDecoder.encode = addedBy c d trace ++ s.underWay c d)
    (hs : s.next e = some s') : (sentBy c d (trace ++ [(s, e)])).map StompMessageEncoderDecoder.encode =
      addedBy c d (trace ++ [(s, e)]) ++ s'.underWay c d := by
  have hstep := sent_next hs c d
  rw [sentBy, List.filterMap_append, List.map_append]
  rw [addedBy, List.filterMap_append, List.append_assoc]
  rw [← sentBy, ← sentBy, ← addedBy, ← addedBy, ← hstep, h, List.append_assoc]

theorem sent_run {trace : List (ReactorServer × ReactorServerEvent)} {s : ReactorServer}
    (h : runs.Run trace s) (c d : ConnectionId) :
    (sentBy c d trace).map StompMessageEncoderDecoder.encode =
      addedBy c d trace ++ s.underWay c d := by
  induction h with
  | nil => rfl
  | snoc _ hs ih => exact sent_step ih hs

/-- What a channel took and what waits in its queue is whole frames, one after the other, and of each
worker they are the frames that it sent to this channel, in their order, up to the one under way. -/
theorem wire_out {trace : List (ReactorServer × ReactorServerEvent)} {s : ReactorServer}
    (h : runs.Run trace s) (d : ConnectionId) :
    s.reactor.stream d = (trace.filterMap queued).flatMap
      (fun x => if x.2.1 = d then x.2.2 else []) ∧
    ∀ c, (sentBy c d trace).map StompMessageEncoderDecoder.encode =
      addedBy c d trace ++ s.underWay c d := by
  refine ⟨?_, fun c => sent_run h c d⟩
  induction h with
  | nil => rfl
  | @snoc trace s e s' _ hs ih =>
    rw [stream_next hs, ih, List.filterMap_append, List.flatMap_append]
    congr 1
    cases hq : queued (s, e) with
    | none => simp [hq]
    | some x => simp [hq]

/-- A worker answers a CONNECT. -/
theorem wire_out_connected : ∃ trace s, runs.Run trace s ∧ (sentBy 1 1 trace).length = 1 ∧
    (sentBy 1 1 trace).map StompMessageEncoderDecoder.encode = addedBy 1 1 trace := by
  obtain ⟨trace, s, hr, hs⟩ := System.exists_run (M := runs) (readConnect ++ logIn ++ [.add 1])
    (fun trace s => decide ((sentBy 1 1 trace).length = 1 ∧ s.underWay 1 1 = [])) (by decide +kernel)
  rw [decide_eq_true_eq] at hs
  refine ⟨trace, s, hr, hs.1, ?_⟩
  rw [(wire_out hr 1).2 1, hs.2, List.append_nil]

end ReactorServer

end Stomp
