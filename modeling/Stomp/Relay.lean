import Stomp.Sends
import Stomp.Inward
import Stomp.Wire
import Stomp.Base.Forall2

/-!
# From one client to the others

The MESSAGEs that a client gets of another one are those of SENDs of that one, with the body and the
destination of the SEND, in the order of the sender's bytes. There is one of them for each time that
the loop of the SEND was given this client.
-/

open scoped List

namespace Stomp

open StompMessagingProtocolImpl

def StompFrame.isMessage (f : StompFrame) : Bool := f.command = "MESSAGE".toList

/-- The MESSAGE is the one that a SEND makes for a subscription. -/
def Relays (x : StompFrame × Int) (msg : StompFrame) : Prop :=
  x.1.command = "SEND".toList ∧ ∃ topic messageId, x.1.getHeader "destination".toList = some topic ∧
    msg.Has "MESSAGE" [("destination".toList, topic), ("subscription".toList, Decimal.valueOf x.2),
      ("message-id".toList, Decimal.valueOf messageId)] x.1.body

namespace Threads

/-- The frames that the thread of `c` passed to `Connections.send` for `d`. -/
def sentTo (c d : ConnectionId) (trace : List (Threads × ThreadEvent)) : List StompFrame :=
  trace.filterMap fun e =>
    match called e with
    | some (c', _, .send d' msg) => if c' = c ∧ d' = d then some msg else none
    | _ => none

/-- The frames for which the thread of `c` read subscribers, with what their loops were given. -/
def sendsOf (c : ConnectionId) (trace : List (Threads × ThreadEvent)) :
    List (StompFrame × List ((_ : ConnectionId) × Int)) :=
  trace.filterMap fun e => (given e).bind fun g => if g.1 = c then some (g.2.1, g.2.2.2) else none

/-- The subscription ids that these entries have for the connection. -/
def idsOf (d : ConnectionId) (entries : List ((_ : ConnectionId) × Int)) : List Int :=
  (entries.filter fun e => e.1 = d).map (·.2)

/-- The MESSAGEs that `c` is to send to `d`, as SENDs of `c` with subscription ids. -/
def due (c d : ConnectionId) (trace : List (Threads × ThreadEvent)) : List (StompFrame × Int) :=
  (sendsOf c trace).flatMap fun x => (idsOf d x.2).map (x.1, ·)

/-! ## One handler -/

/-- What the thread of `c` is at, with the MESSAGEs to `d` that are still to come. `frames` were
processed, and `sends` are those that read subscribers. -/
inductive Working (c d : ConnectionId) (frames sends : List StompFrame) :
    List (StompFrame × Int) → Option Task → Prop
  | none : Working c d frames sends [] none
  | silent {f rest} (h : rest.Calls (Silent c)) : Working c d frames sends [] (some ⟨f, rest⟩)
  | draw {f topic before} (hf : f.command = "SEND".toList)
    (hd : f.getHeader "destination".toList = some topic) (hnew : frames = before ++ [f])
    (hsends : sends <+ before) : Working c d frames sends [] (some ⟨f, drawId topic f.body⟩)
  | read {f topic i before} (hf : f.command = "SEND".toList)
    (hd : f.getHeader "destination".toList = some topic) (hnew : frames = before ++ [f])
    (hsends : sends <+ before) : Working c d frames sends [] (some ⟨f, readSubscribers topic i f.body⟩)
  | send {f topic i entries} (hf : f.command = "SEND".toList)
    (hd : f.getHeader "destination".toList = some topic) :
    Working c d frames sends ((idsOf d entries).map (f, ·)) (some ⟨f, sendMessages topic i f.body entries⟩)

section Working

variable {c d : ConnectionId} {frames sends : List StompFrame} {left : List (StompFrame × Int)}

theorem working_process {p : Session} (hid : p.connectionId = c) (f : StompFrame)
    (hsends : sends <+ frames) :
    Working c d (frames ++ [f]) sends [] (some ⟨f, p.process f⟩) := by
  obtain h | ⟨hf, topic, hd, heq⟩ := process_sends p f
  · exact .silent (hid ▸ h)
  · rw [heq]
    exact .draw hf hd rfl hsends

theorem Working.nil_of_idle {t : Threads} (h : Working c d frames sends left (t.running c))
    (hidle : t.idle c = true) : left = [] := by
  -- A thread that makes no call has sent all.
  unfold idle at hidle
  generalize t.running c = o at h hidle
  cases h with
  | none | silent => rfl
  | draw | read => cases hidle
  | @send f topic i entries =>
    cases entries with
    | nil => rfl
    | cons e entries => cases hidle

end Working

/-! ## One step -/

theorem sentTo_call {t : Threads} {c : ConnectionId} {f : StompFrame} {k : Call}
    {rest : Reply k → Handler} (hrun : t.running c = some ⟨f, .call k rest⟩) (d : ConnectionId) :
    sentTo c d [(t, .call c)] = match k with
      | .send d' msg => if d' = d then [msg] else []
      | _ => [] := by
  unfold sentTo
  rw [List.filterMap_cons, called_call hrun]
  cases k with
  | send d' msg => by_cases hd : d' = d <;> simp [hd]
  | put | disconnect | authenticateUser | isUserActive | getNextMessageId | addSubscription
  | removeSubscription | getSubscribers => rfl

theorem sendsOf_call {t : Threads} {c : ConnectionId} {f : StompFrame} {k : Call}
    {rest : Reply k → Handler} (hrun : t.running c = some ⟨f, .call k rest⟩) :
    sendsOf c [(t, .call c)] = match k with
      | .getSubscribers topic => [(f, AList.entries (t.server.connections.getSubscribers topic))]
      | _ => [] := by
  unfold sendsOf given
  rw [List.filterMap_cons, called_call hrun]
  cases k with
  | getSubscribers topic => simp
  | put | send | disconnect | authenticateUser | isUserActive | getNextMessageId | addSubscription
  | removeSubscription => rfl

theorem not_moves {t : Threads} {c : ConnectionId} {e : ThreadEvent} (he : ¬ Moves c (t, e))
    (d : ConnectionId) : sentTo c d [(t, e)] = [] ∧ sendsOf c [(t, e)] = [] := by
  unfold sentTo sendsOf given
  cases hcalled : called (t, e) with
  | none => simp [hcalled]
  | some x =>
    obtain ⟨c', f, k⟩ := x
    have hc : c' ≠ c := by
      rintro rfl
      exact he (called_own hcalled)
    cases k <;> simp [hcalled, hc]

/-- The MESSAGEs of `c` for `d` are those that are due, in order, up to the ones to come. -/
structure Relayed (c d : ConnectionId) (trace : List (Threads × ThreadEvent)) (t : Threads) : Prop where
  frames : (sendsOf c trace).map (·.1) <+ framesOf c trace
  answers : c ≠ d → ∀ msg ∈ sentTo c d trace, msg.isMessage = true
  messages : ∃ done left, due c d trace = done ++ left ∧
    List.Forall₂ Relays done ((sentTo c d trace).filter StompFrame.isMessage) ∧
    Working c d (framesOf c trace) ((sendsOf c trace).map (·.1)) left (t.running c)

theorem sentTo_snoc (c d : ConnectionId) (trace : List (Threads × ThreadEvent))
    (e : Threads × ThreadEvent) : sentTo c d (trace ++ [e]) = sentTo c d trace ++ sentTo c d [e] :=
  List.filterMap_append

theorem sendsOf_snoc (c : ConnectionId) (trace : List (Threads × ThreadEvent))
    (e : Threads × ThreadEvent) : sendsOf c (trace ++ [e]) = sendsOf c trace ++ sendsOf c [e] :=
  List.filterMap_append

theorem due_snoc (c d : ConnectionId) (trace : List (Threads × ThreadEvent))
    (e : Threads × ThreadEvent) : due c d (trace ++ [e]) = due c d trace ++ due c d [e] := by
  unfold due
  rw [sendsOf_snoc, List.flatMap_append]

section Step

variable {c d : ConnectionId} {trace : List (Threads × ThreadEvent)} {t t' : Threads}
  {e : ThreadEvent} {f : StompFrame} {topic : Text}

theorem Relayed.quiet (h : Relayed c d trace t) (hg : sendsOf c [(t, e)] = [])
    (hs : (sentTo c d [(t, e)]).filter StompFrame.isMessage = [])
    (hanswers : c ≠ d → sentTo c d [(t, e)] = []) {done left : List (StompFrame × Int)}
    (hdue : due c d trace = done ++ left)
    (hdone : List.Forall₂ Relays done ((sentTo c d trace).filter StompFrame.isMessage))
    (hwork : Working c d (framesOf c (trace ++ [(t, e)])) ((sendsOf c trace).map (·.1)) left
      (t'.running c)) : Relayed c d (trace ++ [(t, e)]) t' := by
  have hnone : due c d [(t, e)] = [] := by rw [due, hg]; rfl
  refine ⟨?_, fun hne => ?_, done, left, ?_, ?_, ?_⟩
  · rw [sendsOf_snoc, hg, List.append_nil, framesOf_append]
    exact h.frames.trans (List.sublist_append_left _ _)
  · rw [sentTo_snoc, hanswers hne, List.append_nil]
    exact h.answers hne
  · rw [due_snoc, hnone, List.append_nil, hdue]
  · rw [sentTo_snoc, List.filter_append, hs, List.append_nil]
    exact hdone
  · rwa [sendsOf_snoc, hg, List.append_nil]

theorem Relayed.keep (h : Relayed c d trace t) (he : ¬ Moves c (t, e))
    (hf : framesOf c [(t, e)] = []) (hrun : t'.running c = t.running c) :
    Relayed c d (trace ++ [(t, e)]) t' := by
  obtain ⟨hs, hg⟩ := not_moves he d
  obtain ⟨done, left, hdue, hdone, hwork⟩ := h.messages
  refine h.quiet hg (by rw [hs]; rfl) (fun _ => hs) hdue hdone ?_
  rwa [framesOf_append, hf, List.append_nil, hrun]

theorem Relayed.begin (h : Relayed c d trace t) {p : Session} (hid : p.connectionId = c)
    (hidle : t.idle c = true) (f : StompFrame) : Relayed c d (trace ++ [(t, .process c f)])
      { t with running := Function.update t.running c (some ⟨f, p.process f⟩) } := by
  obtain ⟨hs, hg⟩ := not_moves (t := t) (e := .process c f) (c := c) (by simp [Moves]) d
  have hframes : framesOf c [(t, .process c f)] = [f] := by simp [framesOf]
  obtain ⟨done, left, hdue, hdone, hwork⟩ := h.messages
  obtain rfl := hwork.nil_of_idle hidle
  refine h.quiet hg (by rw [hs]; rfl) (fun _ => hs) hdue hdone ?_
  rw [framesOf_append, hframes]
  dsimp only
  rw [Function.update_self]
  exact working_process hid f h.frames

section Send

variable {i : Int} {done : List (StompFrame × Int)}
  (hdone : List.Forall₂ Relays done ((sentTo c d trace).filter StompFrame.isMessage))
  (hcommand : f.command = "SEND".toList) (hd : f.getHeader "destination".toList = some topic)
include hdone hcommand hd

theorem Relayed.read (h : Relayed c d trace t) (hf : framesOf c [(t, e)] = [])
    (hs : sentTo c d [(t, e)] = []) {before : List StompFrame}
    (hnew : framesOf c trace = before ++ [f]) (hsends : (sendsOf c trace).map (·.1) <+ before)
    (hdue : due c d trace = done) {entries : List ((_ : ConnectionId) × Int)}
    (hg : sendsOf c [(t, e)] = [(f, entries)])
    (hrun : t'.running c = some ⟨f, sendMessages topic i f.body entries⟩) :
    Relayed c d (trace ++ [(t, e)]) t' := by
  have hnext : due c d [(t, e)] = (idsOf d entries).map (f, ·) := by simp [due, hg]
  refine ⟨?_, fun hne => ?_, done, (idsOf d entries).map (f, ·), ?_, ?_, ?_⟩
  · rw [sendsOf_snoc, hg, List.map_append, framesOf_append, hf, List.append_nil, hnew]
    exact hsends.append (List.Sublist.refl _)
  · rw [sentTo_snoc, hs, List.append_nil]
    exact h.answers hne
  · rw [due_snoc, hnext, hdue]
  · rw [sentTo_snoc, hs, List.append_nil]
    exact hdone
  · rw [hrun]
    exact .send hcommand hd

theorem Relayed.send (h : Relayed c d trace t) {x : (_ : ConnectionId) × Int}
    {entries : List ((_ : ConnectionId) × Int)}
    (hdue : due c d trace = done ++ (idsOf d (x :: entries)).map (f, ·))
    (hold : t.running c = some ⟨f, sendMessages topic i f.body (x :: entries)⟩)
    (hrun : t'.running c = some ⟨f, sendMessages topic i f.body entries⟩) :
    Relayed c d (trace ++ [(t, .call c)]) t' := by
  -- The loop goes on with the next entry.
  have hs : sentTo c d [(t, .call c)] =
      if x.1 = d then [messageFrame topic x.2 i f.body] else [] := sentTo_call hold d
  have hg : sendsOf c [(t, .call c)] = [] := sendsOf_call hold
  have hf : framesOf c [(t, .call c)] = [] := rfl
  have hnext : due c d [(t, .call c)] = [] := by rw [due, hg]; rfl
  have hmessage : (messageFrame topic x.2 i f.body).isMessage = true := decide_eq_true rfl
  refine ⟨?_, fun hne msg hmsg => ?_, ?_⟩
  · rw [sendsOf_snoc, hg, List.append_nil, framesOf_append, hf, List.append_nil]
    exact h.frames
  · rw [sentTo_snoc, hs] at hmsg
    rcases List.mem_append.mp hmsg with hmsg | hmsg
    · exact h.answers hne msg hmsg
    · split at hmsg
      · rwa [List.mem_singleton.mp hmsg]
      · cases hmsg
  · rw [due_snoc, hnext, List.append_nil, hdue, sentTo_snoc, hs, sendsOf_snoc, hg, List.append_nil, hrun]
    by_cases hx : x.1 = d
    · refine ⟨done ++ [(f, x.2)], (idsOf d entries).map (f, ·), by simp [idsOf, hx], ?_,
        .send hcommand hd⟩
      rw [if_pos hx, List.filter_append, List.filter_cons_of_pos hmessage]
      exact List.rel_append hdone (.cons ⟨hcommand, topic, i, hd, messageFrame_has ..⟩ .nil)
    · refine ⟨done, (idsOf d entries).map (f, ·), by simp [idsOf, hx], ?_, .send hcommand hd⟩
      rw [if_neg hx, List.append_nil]
      exact hdone

end Send

theorem Relayed.call (h : Relayed c d trace t) {k : Call} {rest : Reply k → Handler}
    (hrun : t.running c = some ⟨f, .call k rest⟩) :
    Relayed c d (trace ++ [(t, .call c)]) ⟨(Server.answer k (t.server, [])).2.1,
      Function.update t.running c (some ⟨f, rest (Server.answer k (t.server, [])).1⟩)⟩ := by
  have hs := sentTo_call hrun d
  have hg := sendsOf_call hrun
  have hf : framesOf c (trace ++ [(t, .call c)]) = framesOf c trace :=
    (framesOf_append _ _ _).trans (List.append_nil _)
  obtain ⟨done, left, hdue, hdone, hstage⟩ := h.messages
  rw [hrun] at hstage
  generalize hrest : (Prog.call k rest : Handler) = handler at hstage
  cases hstage with
  | silent hsilent =>
    subst hrest
    have hnone : (sentTo c d [(t, .call c)]).filter StompFrame.isMessage = [] ∧
        (c ≠ d → sentTo c d [(t, .call c)] = []) ∧ sendsOf c [(t, .call c)] = [] := by
      rw [hs, hg]
      cases k with
      | send d' msg =>
        obtain ⟨rfl, hmsg⟩ := hsilent.1
        have hanswer : msg.isMessage = false := decide_eq_false hmsg
        by_cases hd : d' = d <;> simp [hd, hanswer]
      | getSubscribers => exact hsilent.1.elim
      | put | disconnect | authenticateUser | isUserActive | getNextMessageId | addSubscription
      | removeSubscription => exact ⟨rfl, fun _ => rfl, rfl⟩
    refine h.quiet hnone.2.2 hnone.1 hnone.2.1 hdue hdone ?_
    dsimp only
    rw [Function.update_self]
    exact .silent (hsilent.2 _)
  | draw hcommand hd hnew hsends =>
    cases hrest
    refine h.quiet hg (by rw [hs]; rfl) (fun _ => hs) hdue hdone ?_
    dsimp only
    rw [hf, Function.update_self]
    exact .read hcommand hd hnew hsends
  | read hcommand hd hnew hsends =>
    cases hrest
    exact Relayed.read hdone hcommand hd h rfl hs hnew hsends (hdue.trans (List.append_nil _)) hg
      (Function.update_self _ _ _)
  | @send _ topic i entries hcommand hd =>
    cases entries with
    | nil => cases hrest
    | cons x entries =>
      cases hrest
      exact Relayed.send hdone hcommand hd h hdue hrun (Function.update_self _ _ _)

theorem Relayed.iterate (h : Relayed c d trace t)
    {rest : List ((_ : ConnectionId) × Int) → Handler}
    (hrun : t.running c = some ⟨f, .call (.getSubscribers topic) rest⟩)
    (entries : List ((_ : ConnectionId) × Int)) : Relayed c d (trace ++ [(t, .iterate c entries)])
      { t with running := Function.update t.running c (some ⟨f, rest entries⟩) } := by
  have hs : sentTo c d [(t, .iterate c entries)] = [] := by
    unfold sentTo
    rw [List.filterMap_cons, called_iterate hrun]
    rfl
  have hg : sendsOf c [(t, .iterate c entries)] = [(f, entries)] := by
    unfold sendsOf
    rw [List.filterMap_cons, given_iterate hrun]
    simp
  obtain ⟨done, left, hdue, hdone, hstage⟩ := h.messages
  rw [hrun] at hstage
  generalize hrest : (Prog.call (Call.getSubscribers topic) rest : Handler) = handler at hstage
  cases hstage with
  | silent hsilent =>
    subst hrest
    exact hsilent.1.elim
  | draw => cases hrest
  | read hcommand hd hnew hsends =>
    cases hrest
    exact Relayed.read hdone hcommand hd h rfl hs hnew hsends (hdue.trans (List.append_nil _)) hg
      (Function.update_self _ _ _)
  | @send _ _ _ entries => cases entries <;> cases hrest

theorem Relayed.step (h : Relayed c d trace t) (hs : t.next e = some t') :
    Relayed c d (trace ++ [(t, e)]) t' := by
  obtain ⟨rfl, rfl⟩ | ⟨c', f, p, rfl, hidle, hp, rfl⟩ | ⟨c', f, k, rest, rfl, hrun, rfl⟩ |
    ⟨c', f, topic, rest, entries, rfl, hrun, rfl⟩ | ⟨c', rfl, rfl⟩ := next_cases hs
  · exact h.keep (by simp [Moves]) rfl rfl
  · by_cases hc : c' = c
    · subst hc
      exact h.begin (t.server.ids _ _ hp) hidle f
    · have hframes : framesOf c [(t, .process c' f)] = [] := by simp [framesOf, hc]
      exact h.keep (by simp [Moves]) hframes (Function.update_of_ne (Ne.symm hc) _ _)
  · by_cases hc : c' = c
    · subst hc
      exact h.call hrun
    · exact h.keep (by simp [Moves, hc]) rfl (Function.update_of_ne (Ne.symm hc) _ _)
  · by_cases hc : c' = c
    · subst hc
      exact h.iterate hrun entries
    · exact h.keep (by simp [Moves, hc]) rfl (Function.update_of_ne (Ne.symm hc) _ _)
  · exact h.keep (by simp [Moves]) rfl rfl

theorem Relayed.throws {c' : ConnectionId} {done : Bool} (h : Relayed c d trace t)
    (hs : t.throws c' done = some t') : Relayed c d trace t' := by
  obtain ⟨f, k, rest, hrun, hk, hrun', -⟩ := throws_cases hs
  refine ⟨h.frames, h.answers, ?_⟩
  obtain ⟨sent, left, hdue, hsent, hstage⟩ := h.messages
  refine ⟨sent, left, hdue, hsent, ?_⟩
  rw [hrun']
  by_cases hc : c = c'
  · subst hc
    rw [Function.update_self]
    rw [hrun] at hstage
    generalize hrest : (Prog.call k rest : Handler) = handler at hstage
    cases hstage with
    | silent => exact .silent trivial
    | draw | read =>
      cases hrest
      cases hk
    | @send _ _ _ entries =>
      cases entries with
      | nil => cases hrest
      | cons x entries =>
        cases hrest
        cases hk
  · rwa [Function.update_of_ne hc]

end Step

theorem relayed_initial (c d : ConnectionId) : Relayed c d [] runs.init :=
  ⟨List.nil_sublist _, nofun, [], [], rfl, .nil, .none⟩

end Threads

/-! ## Both modes -/

namespace Blocking

theorem relayed_run {trace : List (Blocking × Faulty BlockingEvent)} {b : Blocking}
    (h : faulty.Run trace b) (c d : ConnectionId) :
    Threads.Relayed c d (simulation.trace (Faulty.steps trace)) b.threads := by
  induction h with
  | nil => exact Threads.relayed_initial c d
  | @snoc trace b e b' _ hs ih =>
    cases e with
    | step e =>
      rw [Faulty.steps_step, Simulation.trace_snoc]
      exact Threads.runs.walk_keeps (fun _ _ _ _ h hs => h.step hs) ih (walk_labels hs)
    | throws c' done =>
      obtain ⟨encdec, connected, t, -, ht, rfl⟩ := throws_cases hs
      rw [Faulty.steps_throws]
      exact ih.throws ht

end Blocking

namespace ReactorServer

open NonBlockingConnectionHandler

theorem relayed_run {trace : List (ReactorServer × Faulty ReactorServerEvent)} {s : ReactorServer}
    (h : faulty.Run trace s) (c d : ConnectionId) :
    Threads.Relayed c d (simulation.trace (Faulty.steps trace)) s.threads := by
  induction h with
  | nil => exact Threads.relayed_initial c d
  | @snoc trace s e s' _ hs ih =>
    cases e with
    | step e =>
      rw [Faulty.steps_step, Simulation.trace_snoc]
      exact Threads.runs.walk_keeps (fun _ _ _ _ h hs => h.step hs) ih (walk_labels hs)
    | throws c' done =>
      obtain ⟨encdec, pending, bs, t, -, ht, rfl⟩ := throws_cases hs
      rw [Faulty.steps_throws]
      exact ih.throws ht

theorem sent_faulty {trace : List (ReactorServer × Faulty ReactorServerEvent)} {s : ReactorServer}
    (h : faulty.Run trace s) (c d : ConnectionId) :
    (sentBy c d (Faulty.steps trace)).map StompMessageEncoderDecoder.encode =
      addedBy c d (Faulty.steps trace) ++ s.underWay c d := by
  induction h with
  | nil => rfl
  | @snoc trace s e s' _ hs ih =>
    cases e with
    | step e =>
      rw [Faulty.steps_step]
      exact sent_step ih hs
    | throws c' done =>
      obtain ⟨encdec, pending, bs, t, -, -, rfl⟩ := throws_cases hs
      rw [Faulty.steps_throws]
      exact ih

theorem sentBy_sublist (c d : ConnectionId) (trace : List (ReactorServer × ReactorServerEvent)) :
    sentBy c d trace <+ Threads.sentTo c d (simulation.trace trace) := by
  induction trace with
  | nil => exact List.nil_sublist _
  | cons e trace ih =>
    have hone : sentBy c d [e] <+ Threads.sentTo c d (simulation.image e) := by
      obtain ⟨s, e⟩ := e
      cases e with
      | call c' =>
        rw [image_call]
        unfold sentBy sends Threads.sentTo
        rw [List.filterMap_cons, List.filterMap_cons]
        dsimp only
        cases ho : Threads.called (s.threads, .call c') with
        | none => exact List.nil_sublist _
        | some x =>
          obtain ⟨c'', f, k⟩ := x
          obtain rfl : c' = c'' := by simpa using Threads.called_own ho
          cases k with
          | send d' msg =>
            dsimp only
            cases s.threads.server.connections.isRegistered d' && s.reactor.isOpen d' with
            | false => exact List.nil_sublist _
            | true => exact List.Sublist.refl _
          | put | disconnect | authenticateUser | isUserActive | getNextMessageId | addSubscription
          | removeSubscription | getSubscribers => exact List.nil_sublist _
      | accept | select | task | key | write | finish | toRead | start | decode | iterate | add
      | keyFor | post | done => exact List.nil_sublist _
    have hsent : sentBy c d (e :: trace) = sentBy c d [e] ++ sentBy c d trace :=
      List.filterMap_append (l := [e])
    have hcons : Threads.sentTo c d (simulation.trace (e :: trace)) =
        Threads.sentTo c d (simulation.image e) ++ Threads.sentTo c d (simulation.trace trace) :=
      List.filterMap_append
    rw [hcons, hsent]
    exact hone.append ih

theorem framesOf_sublist {trace : List (ReactorServer × Faulty ReactorServerEvent)}
    {s : ReactorServer} (h : faulty.Run trace s) (c : ConnectionId) :
    ∃ bufs, Cut (Faulty.thrown c trace) bufs (readFrom c (Faulty.steps trace)) ∧
      Threads.framesOf c (simulation.trace (Faulty.steps trace)) <+ frames .initial bufs := by
  have hinward := inward_run h
  cases ha : s.actors.lookup c with
  | none =>
    obtain ⟨hframes, hread⟩ := hinward.fresh c ha
    rw [hframes, hread]
    exact ⟨[], .nil, List.nil_sublist _⟩
  | some a =>
    obtain ⟨bufs, hcut, hframes⟩ := (hinward.decodes c a ha).frames
    exact ⟨bufs, hcut, hframes ▸ List.sublist_append_left _ _⟩

end ReactorServer

/-- In both modes, however the threads take turns and whichever calls throw, the MESSAGEs that a
client causes for another one are those of SENDs in its bytes, in their order, one for each time that
the loop of the SEND was given the other, and nothing else gets there from it. On the reactor they are
what its worker adds to the other's channel, in this order. -/
theorem relays_in_order :
    (∀ trace b, Blocking.faulty.Run trace b → ∀ c d,
      let steps := Blocking.simulation.trace (Faulty.steps trace)
      (Threads.sendsOf c steps).map (·.1) <+ (StompMessageEncoderDecoder.initial.decodeAll
        (Blocking.readFrom c (Faulty.steps trace))).1.filterMap Decoded.toFrame ∧
      (∃ done left, Threads.due c d steps = done ++ left ∧
        List.Forall₂ Relays done ((Threads.sentTo c d steps).filter StompFrame.isMessage) ∧
        (b.threads.idle c = true → left = [])) ∧
      (c ≠ d → ∀ msg ∈ Threads.sentTo c d steps, msg.isMessage = true)) ∧
    ∀ trace s, ReactorServer.faulty.Run trace s → ∀ c d,
      let steps := ReactorServer.simulation.trace (Faulty.steps trace)
      (∃ bufs, NonBlockingConnectionHandler.Cut (Faulty.thrown c trace) bufs
          (ReactorServer.readFrom c (Faulty.steps trace)) ∧
        (Threads.sendsOf c steps).map (·.1) <+ NonBlockingConnectionHandler.frames .initial bufs) ∧
      ∃ fs, ∃ msgs : List StompFrame, fs <+ Threads.due c d steps ∧
        List.Forall₂ Relays fs (msgs.filter StompFrame.isMessage) ∧
        (c ≠ d → ∀ msg ∈ msgs, msg.isMessage = true) ∧
        msgs.map StompMessageEncoderDecoder.encode =
          ReactorServer.addedBy c d (Faulty.steps trace) ++ s.underWay c d := by
  constructor
  · intro trace b h c d
    have hrelayed := Blocking.relayed_run h c d
    obtain ⟨done, left, hdue, hdone, hwork⟩ := hrelayed.messages
    refine ⟨?_, ⟨done, left, hdue, hdone, hwork.nil_of_idle⟩, hrelayed.answers⟩
    rw [← (Blocking.inward_run h).frames]
    exact hrelayed.frames
  · intro trace s h c d
    have hrelayed := ReactorServer.relayed_run h c d
    have hsent := ReactorServer.sentBy_sublist c d (Faulty.steps trace)
    obtain ⟨done, left, hdue, hdone, -⟩ := hrelayed.messages
    obtain ⟨bufs, hcut, hframes⟩ := ReactorServer.framesOf_sublist h c
    obtain ⟨fs, hfs, hmessages⟩ := forall₂_sublist_right hdone (hsent.filter StompFrame.isMessage)
    refine ⟨⟨bufs, hcut, hrelayed.frames.trans hframes⟩, fs, ReactorServer.sentBy c d _, ?_,
      hmessages, fun hne msg hmsg => hrelayed.answers hne msg (hsent.subset hmsg),
      ReactorServer.sent_faulty h c d⟩
    rw [hdue]
    exact hfs.trans (List.sublist_append_left _ _)

/-- While 17 sends, 1 leaves and comes back behind it, and the loop is given 1 twice. -/
def Blocking.sentTwice : List (Faulty BlockingEvent) :=
  List.map .step (List.replicate 17 .accept ++
    reads 1 "CONNECT\naccept-version:1.2\nhost:h\nlogin:v\npasscode:q\n\n" ++
    List.replicate 4 (.call 1 false) ++ [.finish 1] ++
    reads 1 "SUBSCRIBE\ndestination:t\nid:7\n\n" ++ List.replicate 2 (.call 1 false) ++ [.finish 1] ++
    reads 17 "CONNECT\naccept-version:1.2\nhost:h\nlogin:u\npasscode:p\n\n" ++
    List.replicate 4 (.call 17 false) ++ [.finish 17] ++
    reads 17 "SUBSCRIBE\ndestination:t\nid:5\n\n" ++ List.replicate 2 (.call 17 false) ++ [.finish 17] ++
    reads 17 "SEND\ndestination:t\n\nx" ++
    [.call 17 false, .iterate 17 [⟨1, 7⟩, ⟨17, 5⟩, ⟨1, 9⟩], .call 17 false] ++
    reads 1 "UNSUBSCRIBE\nid:7\n\n" ++ List.replicate 2 (.call 1 false) ++ [.finish 1] ++
    reads 1 "SUBSCRIBE\ndestination:t\nid:9\n\n" ++ List.replicate 2 (.call 1 false) ++ [.finish 1] ++
    List.replicate 2 (.call 17 false))

def ReactorServer.returningBytes : Utf8.Bytes :=
  leavingBytes ++ StompMessageEncoderDecoder.encode (Server.subscribeFrame "t" "9")

def ReactorServer.senderBytes : Utf8.Bytes :=
  StompMessageEncoderDecoder.encode (Server.connectFrame "u" "p") ++
    StompMessageEncoderDecoder.encode (Server.subscribeFrame "t" "5") ++
    StompMessageEncoderDecoder.encode (.ofStrings "SEND" [("destination", "t")] "x")

def ReactorServer.sentTwice : List (Faulty ReactorServerEvent) :=
  List.map .step ((List.replicate 17 [.select [], .task, .accept, .key .closed]).flatten ++
      [.select [⟨1, ⟨true, false⟩⟩, ⟨17, ⟨true, false⟩⟩], .task, .key (.bytes returningBytes),
      .key (.bytes senderBytes), .key .closed] ++
    logsIn 1 (Server.connectFrame "v" "q") ++ decodes 1 (Server.subscribeFrame "t" "7") ++
    [.call 1, .call 1] ++ logsIn 17 (Server.connectFrame "u" "p") ++
    decodes 17 (Server.subscribeFrame "t" "5") ++ [.call 17, .call 17] ++
    decodes 17 (.ofStrings "SEND" [("destination", "t")] "x") ++
    [.call 17, .iterate 17 [⟨1, 7⟩, ⟨17, 5⟩, ⟨1, 9⟩], .call 17, .add 17, .keyFor 17, .post 17] ++
    decodes 1 (Server.unsubscribeFrame "7") ++ [.call 1, .call 1] ++
    decodes 1 (Server.subscribeFrame "t" "9") ++ [.call 1, .call 1] ++
    [.call 17, .add 17, .keyFor 17, .post 17, .call 17, .add 17])

theorem relays_in_order_twice :
    (∃ trace b, Blocking.faulty.Run trace b ∧
      let steps := Blocking.simulation.trace (Faulty.steps trace)
      (Threads.due 17 1 steps).map (·.2) = [7, 9] ∧
      List.Forall₂ Relays (Threads.due 17 1 steps)
        ((Threads.sentTo 17 1 steps).filter StompFrame.isMessage)) ∧
    ∃ trace s, ReactorServer.faulty.Run trace s ∧ ∃ fs, ∃ msgs : List StompFrame, msgs.length = 2 ∧
      (∀ msg ∈ msgs, msg.isMessage = true) ∧
      fs <+ Threads.due 17 1 (ReactorServer.simulation.trace (Faulty.steps trace)) ∧
      List.Forall₂ Relays fs (msgs.filter StompFrame.isMessage) := by
  constructor
  · obtain ⟨trace, b, hr, hb⟩ := System.exists_run (M := Blocking.faulty) Blocking.sentTwice
      (fun trace b => b.threads.idle 17 && decide ((Threads.due 17 1
        (Blocking.simulation.trace (Faulty.steps trace))).map (·.2) = [7, 9])) (by decide +kernel)
    rw [Bool.and_eq_true, decide_eq_true_eq] at hb
    obtain ⟨-, ⟨done, left, hdue, hdone, hleft⟩, -⟩ := relays_in_order.1 trace b hr 17 1
    rw [hleft hb.1, List.append_nil] at hdue
    exact ⟨trace, b, hr, hb.2, hdue ▸ hdone⟩
  · obtain ⟨trace, s, hr, hs⟩ := System.exists_run (M := ReactorServer.faulty) ReactorServer.sentTwice
      (fun trace s => decide ((ReactorServer.addedBy 17 1 (Faulty.steps trace) ++
        s.underWay 17 1).length = 2)) (by decide +kernel)
    rw [decide_eq_true_eq] at hs
    obtain ⟨-, fs, msgs, hfs, hmessages, hall, hadded⟩ := relays_in_order.2 trace s hr 17 1
    refine ⟨trace, s, hr, fs, msgs, ?_, hall (by decide), hfs, hmessages⟩
    rw [← hs, ← hadded, List.length_map]

end Stomp
