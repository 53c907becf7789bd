import Stomp.ReactorServer
import Stomp.Authentication

/-!
# How the reactor closes a terminated session

A channel is closed at the end of `continueWrite`, once the queue is empty. So a session ends only
if something is left to write, or to wake the selector thread up, when `shouldTerminate` is set.
-/

namespace Stomp

open Utf8

/-- What is left of a handler of the connection sends a frame to it, before anything else that
matters to the channel. -/
def Sends (c : ConnectionId) : Handler → Prop
  | .ret _ => False
  | .call (.send d _) _ => d = c
  | .call (.disconnect _) _ => False
  | .call _ next => ∀ r, Sends c (next r)

/-- The RECEIPT of an accepted DISCONNECT is such a frame. -/
theorem sends_handleDisconnect {p : Session} {f : StompFrame} (hp : p.connected = true)
    {receiptId : Text} (hf : f.getHeader StompMessagingProtocolImpl.receiptKey = some receiptId) :
    Sends p.connectionId (p.handleDisconnect f) := by
  have hremove : ∀ (q : Session) topics (rest : Unit → Handler), (∀ r, Sends p.connectionId (rest r)) →
      Sends p.connectionId (StompMessagingProtocolImpl.removeSubscriptions q topics >>= rest) := by
    intro q topics rest hrest
    induction topics with
    | nil => exact hrest ()
    | cons topic topics ih => exact fun _ => ih
  unfold StompMessagingProtocolImpl.handleDisconnect
  rw [if_neg (by simp [hp])]
  refine fun _ => hremove _ _ _ fun _ _ => ?_
  rw [hf]
  rfl

namespace ReactorServer

/-! ## The threads of the reactor -/

theorem threads_next {s s' : ReactorServer} {e : ReactorServerEvent} (hs : s.next e = some s') :
    s'.threads = s.threads ∨ ∃ e', s.threads.next e' = some s'.threads := by
  -- Every step is a step of the threads in `process`, or leaves them alone.
  have hselector : ∀ e', s.selectorStep e' = some s' →
      s'.threads = s.threads ∨ ∃ e'', s.threads.next e'' = some s'.threads := by
    intro e' hs'
    obtain ⟨r, -, rfl⟩ := Option.map_eq_some_iff.mp hs'
    cases hclose : s.reactor.closeCalled e' with
    | none => exact .inl rfl
    | some c => exact .inr ⟨.disconnect c, rfl⟩
  have hsend : ∀ e', s.sendStep e' = some s' → s'.threads = s.threads := by
    intro e' hs'
    obtain ⟨r, -, rfl⟩ := Option.map_eq_some_iff.mp hs'
    rfl
  cases e with
  | accept =>
    obtain ⟨r, -, hs⟩ := Option.bind_eq_some_iff.mp hs
    obtain ⟨t, ht, rfl⟩ := Option.map_eq_some_iff.mp hs
    exact .inr ⟨_, ht⟩
  | select | task | key | write | finish | toRead => exact hselector _ hs
  | add | keyFor | post => exact .inl (hsend _ hs)
  | start c =>
    obtain ⟨a, rfl, -⟩ := start_cases hs
    exact .inl rfl
  | done c =>
    obtain ⟨-, -, a, rfl⟩ := done_cases hs
    exact .inl rfl
  | call c =>
    simp only [next, ReactorServer.call] at hs
    split at hs
    · obtain ⟨t, ht, rfl⟩ := Option.map_eq_some_iff.mp hs
      exact .inr ⟨_, ht⟩
    · cases hs
  | iterate c entries =>
    simp only [next, ReactorServer.iterate] at hs
    split at hs
    · obtain ⟨t, ht, rfl⟩ := Option.map_eq_some_iff.mp hs
      exact .inr ⟨_, ht⟩
    · cases hs
  | decode c =>
    obtain ⟨-, -, a, rfl | ⟨_, f, t, -, -, -, ht, rfl⟩⟩ := decode_cases hs
    · exact .inl rfl
    · exact .inr ⟨_, ht⟩

/-! ## A session that is terminated -/

/-- `shouldTerminate` of the protocol object of a connection. -/
def terminated (s : ReactorServer) (c : ConnectionId) : Bool :=
  (s.threads.server.sessions.lookup c).any fun p : Session => p.shouldTerminate

/-- The session is terminated and nothing will close its channel. -/
structure LeftOpen (s : ReactorServer) (c : ConnectionId) : Prop where
  terminated : s.terminated c = true
  quiet : s.quiet c = true
  noTask : s.reactor.hasTask c = false
  noOutput : s.reactor.hasOutput c = false
  noWrite : s.reactor.wantsWrite c = false
  isOpen : s.reactor.isOpen c = true

/-- A frame to the connection is on its way to the queue: the worker is in `send`, or it will be. -/
def AnswerLeft (s : ReactorServer) (c : ConnectionId) : Prop :=
  (∃ msg, s.reactor.workers.lookup c = some (.add c msg)) ∨
    (s.threads.server.connections.isRegistered c = true ∧
      ∃ task, s.threads.running c = some task ∧ Sends c task.rest)

def WillClose (s : ReactorServer) (c : ConnectionId) : Prop :=
  s.reactor.WillWrite c ∨ s.AnswerLeft c

/-- The step sets `shouldTerminate` of a connection. -/
def Terminates (c : ConnectionId) (e : ReactorServer × ReactorServerEvent) : Prop :=
  e.1.terminated c = false ∧ (e.1.next e.2).any (fun s => s.terminated c) = true

/-- `shouldTerminate` of an open channel is set only while something will make the selector thread
look at it. -/
def TerminatesInTime (e : ReactorServer × ReactorServerEvent) : Prop :=
  ∀ c, Terminates c e → e.1.reactor.isOpen c = true → e.1.WillClose c

/-! ### What a call leaves alone -/

section Call

variable {s s' : ReactorServer} {c d : ConnectionId}

theorem isRegistered_answer {x : Server} {k : Call} (hk : k ≠ .disconnect c) :
    (Server.answer k (x, [])).2.1.connections.isRegistered c = x.connections.isRegistered c := by
  cases k with
  | disconnect e =>
    have hne : c ≠ e := by
      rintro rfl
      exact hk rfl
    show (x.connections.disconnect e).isRegistered c = x.connections.isRegistered c
    simp [ConnectionsImpl.isRegistered, ConnectionsImpl.disconnect, hne]
  | removeSubscription topic e =>
    show (x.connections.removeSubscription topic e).isRegistered c = x.connections.isRegistered c
    rw [ConnectionsImpl.isRegistered, (x.connections.removeSubscription_fields topic e).1]
    rfl
  | authenticateUser e u w =>
    show (x.connections.authenticateUser e u w).2.isRegistered c = x.connections.isRegistered c
    rw [ConnectionsImpl.isRegistered, (x.connections.authenticateUser_fields e u w).1]
    rfl
  | put | send | isUserActive | getNextMessageId | addSubscription | getSubscribers => rfl

theorem call_cases (hs : s.call c = some s') : s.free c = true ∧ ∃ f k rest,
    s.threads.running c = some ⟨f, .call k rest⟩ ∧
    s'.threads = ⟨(Server.answer k (s.threads.server, [])).2.1, Function.update s.threads.running c
      (some ⟨f, rest (Server.answer k (s.threads.server, [])).1⟩)⟩ ∧
    s'.actors = s.actors ∧ s'.reactor = s.sendTo c ∧
    ∀ msg, k = .send c msg → s.threads.server.connections.isRegistered c = true →
      s.reactor.isOpen c = true → ∃ bs, s'.reactor = s.reactor.setWorker c (.add c bs) := by
  unfold ReactorServer.call at hs
  split at hs
  · next hfree =>
    obtain ⟨t, ht, rfl⟩ := Option.map_eq_some_iff.mp hs
    obtain ⟨f, k, rest, hrun, rfl⟩ := Threads.running_of_call ht
    refine ⟨hfree, f, k, rest, hrun, rfl, rfl, rfl, ?_⟩
    rintro msg rfl hreg hopen
    obtain ⟨x, hx, hxopen⟩ := Reactor.exists_handler hopen
    have hworker : s.reactor.workers.lookup c = none := Option.isNone_iff_eq_none.mp hfree
    refine ⟨StompMessageEncoderDecoder.encode msg, ?_⟩
    show s.sendTo c = _
    unfold sendTo
    rw [Threads.called_call hrun]
    simp [hreg, Reactor.send, hworker, hx, hxopen]
  · cases hs

end Call

/-! ### One step -/

/-- The reactor and the threads as the end of a session needs them. -/
structure Closable (s : ReactorServer) : Prop where
  keyed : s.reactor.Keyed
  selected : s.reactor.SelectedAt s.reactor.selector
  busy : ∀ w stage, s.reactor.workers.lookup w = some stage → (s.threads.running w).isSome = true
  quiet : ∀ c a, s.actors.lookup c = some a → a.task = none →
    s.free c = true ∧ s.threads.idle c = true
  closing : ∀ c, s.terminated c = true → s.reactor.isOpen c = true → s.WillClose c

theorem Closable.reactor {s s' : ReactorServer} {e : ReactorEvent} (h : Closable s)
    (hs : s.reactor.next e = some s'.reactor) :
    s'.reactor.Keyed ∧ s'.reactor.SelectedAt s'.reactor.selector :=
  ⟨h.keyed.step (Reactor.next_step hs), Reactor.selectedAt_step h.keyed h.selected (Reactor.next_step hs)⟩

theorem Closable.willWrite {s : ReactorServer} {r : Reactor} {e : ReactorEvent} {c : ConnectionId}
    (h : Closable s) (hs : s.reactor.next e = some r) (hopen : r.isOpen c = true)
    (hfinish : e = .finish false → ∀ ready, s.reactor.selector ≠ .finish c ready)
    (hw : s.reactor.WillWrite c) : r.WillWrite c :=
  hw.step h.keyed h.selected (Reactor.next_step hs) hopen hfinish

theorem WillClose.same {s s' : ReactorServer} {c : ConnectionId} (h : s.WillClose c)
    (hw : s.reactor.WillWrite c → s'.reactor.WillWrite c)
    (hworker : s'.reactor.workers.lookup c = s.reactor.workers.lookup c)
    (hreg : s.threads.server.connections.isRegistered c = true →
      s'.threads.server.connections.isRegistered c = true)
    (hrun : s'.threads.running c = s.threads.running c) : s'.WillClose c := by
  refine h.imp hw fun hleft => hleft.imp (fun ⟨msg, hmsg⟩ => ⟨msg, hworker.trans hmsg⟩) ?_
  rintro ⟨hr, task, htask, hsends⟩
  exact ⟨hreg hr, task, hrun.trans htask, hsends⟩

theorem lookup_submitted {s : ReactorServer} {e : ReactorEvent} {c : ConnectionId} {a : Actor}
    (h : (((s.reactor.submitted e).map fun x =>
      s.actors.modify x.1 fun a => { a with pending := a.pending ++ [x.2] }).getD s.actors).lookup c =
        some a) : ∃ b, s.actors.lookup c = some b ∧ a.task = b.task := by
  cases hsub : s.reactor.submitted e with
  | none =>
    rw [hsub] at h
    exact ⟨a, h, rfl⟩
  | some x =>
    rw [hsub, Option.map_some, Option.getD_some, Table.lookup_modify] at h
    split at h
    · next hcx =>
      obtain ⟨b, hb, rfl⟩ := Option.map_eq_some_iff.mp h
      exact ⟨b, hcx ▸ hb, rfl⟩
    · exact ⟨a, h, rfl⟩

theorem Closable.selectorStep {s s' : ReactorServer} {e : ReactorEvent} (h : Closable s)
    (hs : s.selectorStep e = some s') (hsender : Reactor.sender e = none)
    (haccept : ∀ d, e ≠ .accept d) (hfinish : e = .finish false → s.shouldTerminate = false) :
    Closable s' := by
  obtain ⟨r, hr, rfl⟩ := Option.map_eq_some_iff.mp hs
  have hstep := Reactor.next_step hr
  have hworkers : ∀ w, r.workers.lookup w = s.reactor.workers.lookup w := fun w =>
    Reactor.workers_step hstep (hsender.trans_ne (Option.some_ne_none w).symm)
  have hrunning : (((s.reactor.closeCalled e).map s.threads.disconnect).getD s.threads).running =
      s.threads.running := by
    cases s.reactor.closeCalled e <;> rfl
  have hsessions : (((s.reactor.closeCalled e).map s.threads.disconnect).getD
      s.threads).server.sessions = s.threads.server.sessions := by
    cases s.reactor.closeCalled e <;> rfl
  refine ⟨h.keyed.step hstep, Reactor.selectedAt_step h.keyed h.selected hstep, fun w stage hw => ?_,
    fun c a ha htask => ?_, fun c hterm hopen => ?_⟩
  · rw [hrunning]
    exact h.busy w stage ((hworkers w).symm.trans hw)
  · obtain ⟨b, hb, heq⟩ := lookup_submitted ha
    obtain ⟨hfree, hidle⟩ := h.quiet c b hb (heq ▸ htask)
    refine ⟨?_, ?_⟩
    · rw [free, hworkers]
      exact hfree
    · rw [Threads.idle, hrunning]
      exact hidle
  · rw [terminated, hsessions] at hterm
    have hold : s.reactor.isOpen c = true :=
      (Reactor.isOpen_back hstep hopen).resolve_right fun hnew => haccept c hnew.1
    refine (h.closing c hterm hold).same (h.willWrite hr hopen fun he ready hsel => ?_) (hworkers c)
      (fun hreg => ?_) (congrFun hrunning c)
    · have hflag := hfinish he
      rw [ReactorServer.shouldTerminate, hsel] at hflag
      exact Bool.noConfusion (hflag.symm.trans hterm)
    · cases hclose : s.reactor.closeCalled e with
      | none => exact hreg
      | some d =>
        have hcd : c ≠ d := by
          rintro rfl
          rw [Reactor.isOpen_closeCalled hr hclose] at hopen
          cases hopen
        show (s.threads.server.connections.disconnect d).isRegistered c = true
        simpa [ConnectionsImpl.isRegistered, ConnectionsImpl.disconnect, hcd] using hreg

theorem Closable.sendStep {s s' : ReactorServer} {e : ReactorEvent} {w : WorkerId} (h : Closable s)
    (hs : s.sendStep e = some s') (he : e = .add w ∨ e = .keyFor w ∨ e = .post w) : Closable s' := by
  obtain ⟨r, hr, rfl⟩ := Option.map_eq_some_iff.mp hs
  have hstep := Reactor.next_step hr
  have hsender : Reactor.sender e = some w := by
    obtain rfl | rfl | rfl := he <;> rfl
  have hother : ∀ v, v ≠ w → r.workers.lookup v = s.reactor.workers.lookup v := fun v hv =>
    Reactor.workers_step hstep fun heq => hv (Option.some.inj (heq.symm.trans hsender))
  obtain ⟨stage, hstage, hadds⟩ := hstep.stage he
  have hbusy := h.busy w stage hstage
  refine ⟨h.keyed.step hstep, Reactor.selectedAt_step h.keyed h.selected hstep, fun v stage' hv => ?_,
    fun c a ha htask => ?_, fun c hterm hopen => ?_⟩
  · by_cases hvw : v = w
    · exact hvw ▸ hbusy
    · exact h.busy v stage' ((hother v hvw).symm.trans hv)
  · obtain ⟨hfree, hidle⟩ := h.quiet c a ha htask
    have hcw : c ≠ w := by
      rintro rfl
      rw [free, hstage] at hfree
      cases hfree
    refine ⟨?_, hidle⟩
    rw [free, hother c hcw]
    exact hfree
  · have hold : s.reactor.isOpen c = true :=
      (Reactor.isOpen_back hstep hopen).resolve_right fun hnew => by
        rw [hnew.1] at hsender
        cases hsender
    have hwrite : s.reactor.WillWrite c → r.WillWrite c := h.willWrite hr hopen fun hf => by
      rw [hf] at hsender
      cases hsender
    have hclose := h.closing c hterm hold
    by_cases hcw : c = w
    · obtain hwill | ⟨msg, hmsg⟩ | hleft := hclose
      · exact .inl (hwrite hwill)
      · -- the worker adds its buffer
        subst hcw
        exact .inl (.inl (hadds c msg (Option.some.inj (hstage.symm.trans hmsg))))
      · exact .inr (.inr hleft)
    · exact hclose.same hwrite (hother c hcw) id rfl

theorem Closable.setActor {s : ReactorServer} (h : Closable s) {c : ConnectionId} {a : Actor}
    (hquiet : a.task = none → s.free c = true ∧ s.threads.idle c = true) : Closable (s.setActor c a) := by
  refine ⟨h.keyed, h.selected, h.busy, fun d b hb htask => ?_, h.closing⟩
  have hlookup : (s.actors.insert c a).lookup d = some b := hb
  rw [Table.lookup_insert_if] at hlookup
  split at hlookup
  · next hdc =>
    cases hlookup
    exact hdc ▸ hquiet htask
  · exact h.quiet d b hlookup htask

theorem Closable.running {s : ReactorServer} (h : Closable s) {c : ConnectionId} {task : Task}
    (hbusy : ∀ a, s.actors.lookup c = some a → a.task ≠ none)
    (hclose : s.terminated c = true → s.reactor.isOpen c = true →
      WillClose { s with threads := { s.threads with
        running := Function.update s.threads.running c (some task) } } c) :
    Closable { s with threads := { s.threads with
      running := Function.update s.threads.running c (some task) } } := by
  refine ⟨h.keyed, h.selected, fun w stage hw => ?_, fun d b hb hnone => ?_, fun d hterm hopen => ?_⟩
  · show (Function.update s.threads.running c _ w).isSome = true
    by_cases hwc : w = c
    · rw [hwc, Function.update_self]
      rfl
    · rw [Function.update_of_ne hwc]
      exact h.busy w stage hw
  · have hdc : d ≠ c := by
      rintro rfl
      exact hbusy b hb hnone
    obtain ⟨hfree', hidle'⟩ := h.quiet d b hb hnone
    exact ⟨hfree', (Threads.idle_congr (Function.update_of_ne hdc _ _)).trans hidle'⟩
  · by_cases hdc : d = c
    · subst hdc
      exact hclose hterm hopen
    · exact (h.closing d hterm hopen).same id rfl id (Function.update_of_ne hdc _ _)

theorem Closable.process {s : ReactorServer} (h : Closable s) {c : ConnectionId} {f : StompFrame}
    {t : Threads} (hfree : s.free c = true) (ht : s.threads.next (.process c f) = some t) {a : Actor}
    (hlookup : s.actors.lookup c = some a) (htask : a.task ≠ none) :
    Closable { s with threads := t } := by
  obtain ⟨hidle, p, -, rfl⟩ := Threads.session_of_process ht
  refine h.running (fun b hb => ?_) fun hterm hopen => ?_
  · cases hlookup.symm.trans hb
    exact htask
  -- the handler before this one is at its end
  · obtain hwill | ⟨msg, hmsg⟩ | ⟨-, task, hrun, hsends⟩ := h.closing c hterm hopen
    · exact .inl hwill
    · rw [free, hmsg] at hfree
      cases hfree
    · obtain ⟨g, rest⟩ := task
      rw [Threads.idle, hrun] at hidle
      cases rest with
      | ret => exact hsends.elim
      | call => cases hidle

theorem Closable.iterate {s s' : ReactorServer} {c : ConnectionId}
    {entries : List ((_ : ConnectionId) × Int)} (h : Closable s) (hs : s.iterate c entries = some s') :
    Closable s' := by
  obtain ⟨hfree, f, topic, rest, hrun, rfl⟩ := iterate_cases hs
  refine h.running (fun b hb hnone => ?_) fun hterm hopen => ?_
  · have hidle := (h.quiet c b hb hnone).2
    rw [Threads.idle, hrun] at hidle
    cases hidle
  · obtain hwill | ⟨msg, hmsg⟩ | ⟨hreg, task, htask, hsends⟩ := h.closing c hterm hopen
    · exact .inl hwill
    · rw [free, hmsg] at hfree
      cases hfree
    · cases hrun.symm.trans htask
      exact .inr (.inr ⟨hreg, _, Function.update_self _ _ _, hsends entries⟩)

theorem Closable.accept {s s' : ReactorServer} (h : Closable s) (hg : s.threads.Guarded)
    (hs : s.accept = some s') : Closable s' := by
  obtain ⟨r, hr, hs⟩ := Option.bind_eq_some_iff.mp hs
  obtain ⟨t, ht, rfl⟩ := Option.map_eq_some_iff.mp hs
  cases ht
  have hnext : s.reactor.next (.accept (s.threads.server.connectionCounter + 1)) = some r := hr
  have hstep := Reactor.next_step hnext
  have hworkers : ∀ w, r.workers.lookup w = s.reactor.workers.lookup w := fun w =>
    Reactor.workers_step hstep (Option.some_ne_none w).symm
  have hnew : s.threads.running (s.threads.server.connectionCounter + 1) = none := by
    rw [Option.eq_none_iff_forall_ne_some]
    intro task htask
    obtain ⟨p, hp, -⟩ := hg.progress _ task htask
    rw [hg.fresh _ (Nat.lt_succ_self _)] at hp
    cases hp
  refine ⟨h.keyed.step hstep, Reactor.selectedAt_step h.keyed h.selected hstep,
    fun w stage hw => h.busy w stage ((hworkers w).symm.trans hw), fun c a ha htask => ?_,
    fun c hterm hopen => ?_⟩
  · have hlookup : (s.actors.insert _ ⟨.initial, [], none⟩).lookup c = some a := ha
    rw [Table.lookup_insert_if] at hlookup
    show (r.workers.lookup c).isNone = true ∧ s.threads.idle c = true
    rw [hworkers]
    split at hlookup
    · next hc =>
      subst hc
      refine ⟨?_, by rw [Threads.idle, hnew]⟩
      by_contra hbusy
      rw [Option.isNone_iff_eq_none] at hbusy
      obtain ⟨stage, hstage⟩ := Option.ne_none_iff_exists'.mp hbusy
      have := h.busy _ stage hstage
      rw [hnew] at this
      cases this
    · exact h.quiet c a hlookup htask
  · have hc : c ≠ s.threads.server.connectionCounter + 1 := by
      rintro rfl
      have hterm' : (s.threads.server.accept.sessions.lookup (s.threads.server.connectionCounter + 1)).any
          (fun p : Session => p.shouldTerminate) = true := hterm
      rw [s.threads.server.lookup_accept] at hterm'
      simp [StompMessagingProtocolImpl.start] at hterm'
    have hu := s.threads.server.untouched_accept hc
    have hterm' : s.terminated c = true := by
      rw [← hterm]
      show _ = (s.threads.server.accept.sessions.lookup c).any _
      rw [hu.session]
      rfl
    have hold : s.reactor.isOpen c = true :=
      (Reactor.isOpen_back hstep hopen).resolve_right fun hnew => hc (ReactorEvent.accept.inj hnew.1).symm
    refine (h.closing c hterm' hold).same (h.willWrite hnext hopen fun hf => by cases hf) (hworkers c)
      (fun hreg => ?_) rfl
    rw [ConnectionsImpl.isRegistered, decide_eq_true_eq] at hreg ⊢
    exact hu.registered.mpr hreg

theorem WillClose.call {s s' : ReactorServer} {c : ConnectionId} (h : s.WillClose c)
    (hopen : s.reactor.isOpen c = true) (hs : s.call c = some s')
    (hw : s.reactor.WillWrite c → s'.reactor.WillWrite c) : s'.WillClose c := by
  -- What is left of a handler that will send still will, or the frame is on its way.
  obtain ⟨hfree, f, k, rest, hrun, hthreads, -, -, hsent⟩ := call_cases hs
  obtain hwill | ⟨msg, hmsg⟩ | ⟨hreg, task, htask, hsends⟩ := h
  · exact .inl (hw hwill)
  · rw [free, hmsg] at hfree
    cases hfree
  · cases hrun.symm.trans htask
    have hgoOn : k ≠ .disconnect c → (∀ r, Sends c (rest r)) → s'.WillClose c := by
      intro hk hrest
      refine .inr (.inr ⟨?_, ⟨f, rest (Server.answer k (s.threads.server, [])).1⟩, ?_, hrest _⟩)
      · rw [hthreads]
        exact (isRegistered_answer hk).trans hreg
      · rw [hthreads]
        exact Function.update_self _ _ _
    cases k with
    | send d msg =>
      obtain rfl : d = c := hsends
      obtain ⟨bs, hbs⟩ := hsent msg rfl hreg hopen
      refine .inr (.inl ⟨bs, ?_⟩)
      rw [hbs, Reactor.lookup_setWorker, if_pos rfl]
    | disconnect d => exact hsends.elim
    | put | authenticateUser | isUserActive | getNextMessageId | addSubscription | removeSubscription
    | getSubscribers => exact hgoOn (fun hk => by cases hk) hsends

/-- What a call leaves as it was. -/
structure Called (c : ConnectionId) (s s' : ReactorServer) : Prop where
  handlers : s'.reactor.handlers = s.reactor.handlers
  selectorTasks : s'.reactor.selectorTasks = s.reactor.selectorTasks
  selector : s'.reactor.selector = s.reactor.selector
  workers : ∀ w, w ≠ c → s'.reactor.workers.lookup w = s.reactor.workers.lookup w
  running : ∀ d, d ≠ c → s'.threads.running d = s.threads.running d
  actors : s'.actors = s.actors

theorem called_of_call {s s' : ReactorServer} {c : ConnectionId} (hs : s.call c = some s') :
    Called c s s' := by
  obtain ⟨-, f, k, rest, -, hthreads, hactors, hreactor, -⟩ := call_cases hs
  have hrunning : ∀ d, d ≠ c → s'.threads.running d = s.threads.running d := by
    intro d hd
    rw [hthreads]
    exact Function.update_of_ne hd _ _
  have hsend := s.sendTo_cases c
  rw [← hreactor] at hsend
  obtain heq | ⟨d, msg, -, heq⟩ := hsend
  · exact ⟨by rw [heq], by rw [heq], by rw [heq], fun w _ => by rw [heq], hrunning, hactors⟩
  · refine ⟨by rw [heq]; rfl, by rw [heq]; rfl, by rw [heq]; rfl, fun w hw => ?_, hrunning, hactors⟩
    rw [heq]
    exact (Reactor.lookup_setWorker _ _ _ _).trans (if_neg hw)

theorem Closable.call_reactor {s s' : ReactorServer} {c : ConnectionId} (h : Closable s)
    (hs : s.call c = some s') :
    s'.reactor.Keyed ∧ s'.reactor.SelectedAt s'.reactor.selector := by
  obtain ⟨-, -, -, -, -, -, -, hreactor, -⟩ := call_cases hs
  have hsend := s.sendTo_cases c
  rw [← hreactor] at hsend
  obtain heq | ⟨d, msg, hnext, -⟩ := hsend
  · exact heq ▸ ⟨h.keyed, h.selected⟩
  · exact h.reactor hnext

theorem terminated_call {s s' : ReactorServer} {c d : ConnectionId} (hown : s.threads.OwnCalls)
    (hs : s.call c = some s') (hdc : d ≠ c) : s'.terminated d = s.terminated d := by
  obtain ⟨-, f, k, rest, hrun, hthreads, -, -, -⟩ := call_cases hs
  have hsession : (Server.answer k (s.threads.server, [])).2.1.sessions.lookup d =
      s.threads.server.sessions.lookup d := by
    rw [Threads.sessions_answer]
    cases k with
    | put q =>
      have hid : q.connectionId = c := (hown c _ hrun).1
      show (if d = q.connectionId then some q else s.threads.server.sessions.lookup d) = _
      exact if_neg fun hq => hdc (hq.trans hid)
    | send | disconnect | authenticateUser | isUserActive | getNextMessageId | addSubscription
    | removeSubscription | getSubscribers => rfl
  rw [terminated, terminated, hthreads, hsession]

theorem WillClose.call_other {s s' : ReactorServer} {c d : ConnectionId} (h : s.WillClose d)
    (hown : s.threads.OwnCalls) (hs : s.call c = some s') (hdc : d ≠ c) : s'.WillClose d := by
  have hcalled := called_of_call hs
  obtain ⟨-, f, k, rest, hrun, hthreads, -, -, -⟩ := call_cases hs
  refine h.same (fun hwill => hwill.congr hcalled.handlers hcalled.selectorTasks hcalled.selector)
    (hcalled.workers d hdc) (fun hreg => ?_) (hcalled.running d hdc)
  rw [hthreads]
  refine (isRegistered_answer ?_).trans hreg
  rintro rfl
  exact hdc (hown c _ hrun).1

theorem Closable.call {s s' : ReactorServer} {c : ConnectionId} (h : Closable s)
    (hown : s.threads.OwnCalls) (hC : TerminatesInTime (s, .call c)) (hs : s.call c = some s') :
    Closable s' := by
  have hcalled := called_of_call hs
  obtain ⟨hfree, f, k, rest, hrun, hthreads, -, -, -⟩ := call_cases hs
  obtain ⟨hkeyed, hselected⟩ := h.call_reactor hs
  refine ⟨hkeyed, hselected, fun w stage hw => ?_, fun d a ha htask => ?_, fun d hterm hopen => ?_⟩
  · by_cases hwc : w = c
    · rw [hwc, hthreads]
      show (Function.update s.threads.running c _ c).isSome = true
      rw [Function.update_self]
      rfl
    · rw [hcalled.running w hwc]
      exact h.busy w stage ((hcalled.workers w hwc).symm.trans hw)
  · rw [hcalled.actors] at ha
    obtain ⟨hfree', hidle⟩ := h.quiet d a ha htask
    have hdc : d ≠ c := by
      rintro rfl
      rw [Threads.idle, hrun] at hidle
      cases hidle
    exact ⟨(congrArg Option.isNone (hcalled.workers d hdc)).trans hfree',
      (Threads.idle_congr (hcalled.running d hdc)).trans hidle⟩
  · have hold : s.reactor.isOpen d = true := by
      rw [← hopen, Reactor.isOpen, Reactor.isOpen, hcalled.handlers]
    by_cases hdc : d = c
    · subst hdc
      have hclose : s.WillClose d := by
        cases hbefore : s.terminated d with
        | true => exact h.closing d hbefore hold
        | false =>
          have hnext : s.next (.call d) = some s' := hs
          exact hC d ⟨hbefore, by rw [hnext]; exact hterm⟩ hold
      exact hclose.call hold hs fun hwill =>
        hwill.congr hcalled.handlers hcalled.selectorTasks hcalled.selector
    · rw [terminated_call hown hs hdc] at hterm
      exact (h.closing d hterm hold).call_other hown hs hdc

theorem Closable.step {s s' : ReactorServer} {e : ReactorServerEvent} (h : Closable s)
    (hg : s.threads.Guarded) (hown : s.threads.OwnCalls) (hC : TerminatesInTime (s, e))
    (hs : s.next e = some s') : Closable s' := by
  have hselector : ∀ e', s.selectorStep e' = some s' → Reactor.sender e' = none →
      (∀ d, e' ≠ .accept d) → e' ≠ .finish false → Closable s' := fun e' hs' hsender haccept hf =>
    h.selectorStep hs' hsender haccept fun heq => absurd heq hf
  cases e with
  | accept => exact h.accept hg hs
  | select | task | key | write | toRead =>
    exact hselector _ hs rfl (fun _ he => by cases he) (fun he => by cases he)
  | finish =>
    exact h.selectorStep hs rfl (fun _ he => by cases he) fun he => ReactorEvent.finish.inj he
  | add c => exact h.sendStep hs (.inl rfl)
  | keyFor c => exact h.sendStep hs (.inr (.inl rfl))
  | post c => exact h.sendStep hs (.inr (.inr rfl))
  | call c => exact h.call hown hC hs
  | iterate c entries => exact h.iterate hs
  | start c =>
    obtain ⟨a, rfl, ha⟩ := start_cases hs
    exact h.setActor fun htask => absurd htask ha
  | done c =>
    obtain ⟨hfree, hidle, a, rfl⟩ := done_cases hs
    exact h.setActor fun _ => ⟨hfree, hidle⟩
  | decode c =>
    obtain ⟨hfree, hidle, a, rfl | ⟨b, f, t, hb, hbusy, ha, ht, rfl⟩⟩ := decode_cases hs
    · exact h.setActor fun _ => ⟨hfree, hidle⟩
    · exact (h.process hfree ht hb hbusy).setActor fun htask => absurd htask ha

theorem closable_initial : Closable ReactorServer.initial where
  keyed := ⟨fun c x hx => (by cases hx), fun t ht => (by cases ht), fun w stage hw => (by cases hw),
    fun w c k hw => (by cases hw)⟩
  selected := trivial
  busy w stage hw := by cases hw
  quiet c a ha := by cases ha
  closing c hterm := by cases hterm

theorem Closable.not_leftOpen {s : ReactorServer} (h : Closable s) (c : ConnectionId) :
    ¬ s.LeftOpen c := by
  intro hl
  obtain ⟨a, ha, hquiet⟩ := (Option.any_eq_true _ _).mp hl.quiet
  rw [Bool.and_eq_true, Option.isNone_iff_eq_none] at hquiet
  obtain ⟨hfree, hidle⟩ := h.quiet c a ha hquiet.2
  obtain (hout | htask | ⟨hwrite, -⟩) | ⟨msg, hmsg⟩ | ⟨-, ⟨f, rest⟩, hrun, hsends⟩ :=
    h.closing c hl.terminated hl.isOpen
  · rw [hl.noOutput] at hout
    cases hout
  · rw [hl.noTask] at htask
    cases htask
  · rw [hl.noWrite] at hwrite
    cases hwrite
  · rw [free, hmsg] at hfree
    cases hfree
  · rw [Threads.idle, hrun] at hidle
    cases rest with
    | ret => exact hsends
    | call => cases hidle

/-- When `shouldTerminate` is only set in time, no terminated session is left open. -/
theorem never_left_open {trace : List (ReactorServer × ReactorServerEvent)} {s : ReactorServer}
    (h : runs.Run trace s) (hC : ∀ e ∈ trace, TerminatesInTime e) (c : ConnectionId) :
    ¬ s.LeftOpen c := by
  have hclosable : Closable s ∧ s.threads.Guarded ∧ s.threads.OwnCalls := by
    refine System.Run.inv_of (fun s e => TerminatesInTime (s, e))
      (fun s : ReactorServer => Closable s ∧ s.threads.Guarded ∧ s.threads.OwnCalls) ?_ ?_ h hC
    · exact ⟨closable_initial, Threads.guarded_run .nil, fun c task hc => by cases hc⟩
    · rintro s e s' ⟨hs, hg, hown⟩ hCe hn
      refine ⟨hs.step hg hown hCe hn, ?_⟩
      obtain hsame | ⟨e', he'⟩ := threads_next hn
      · exact hsame ▸ ⟨hg, hown⟩
      · exact ⟨hg.step he', Threads.ownCalls_next hown he'⟩
  exact hclosable.1.not_leftOpen c

instance (phase : SelectorPhase) (c : ConnectionId) : Decidable (∀ ready, phase ≠ .toRead c ready) :=
  match phase with
  | .toRead d ready =>
    if h : d = c then isFalse fun hne => hne ready (h ▸ rfl)
    else isTrue fun _ heq => h (SelectorPhase.toRead.inj heq).1
  | .select | .tasks _ | .keys _ | .write _ _ | .finish _ _ | .ended => isTrue fun _ => SelectorPhase.noConfusion

instance (s : Reactor) (c : ConnectionId) : Decidable (s.WillWrite c) :=
  inferInstanceAs (Decidable (_ ∨ _ ∨ _ ∧ ∀ ready, s.selector ≠ .toRead c ready))

/-- A step that sets `shouldTerminate` while something waits to be written or to be looked at. -/
def inTime (e : ReactorServer × ReactorServerEvent) : Bool :=
  (e.1.next e.2).all fun s => decide (∀ c p, s.threads.server.sessions.lookup c = some p →
    e.1.reactor.WillWrite c ∨ e.1.terminated c = true ∨ p.shouldTerminate = false)

theorem terminatesInTime_of_inTime {e : ReactorServer × ReactorServerEvent} (h : inTime e = true) :
    TerminatesInTime e := by
  intro c ⟨hbefore, hafter⟩ _
  obtain ⟨s, hs, hterm⟩ := (Option.any_eq_true _ _).mp hafter
  obtain ⟨p, hp, hflag⟩ := (Option.any_eq_true _ _).mp hterm
  rw [inTime, hs, Option.all_some, decide_eq_true_eq] at h
  obtain hwill | hold | hnot := h c p hp
  · exact .inl hwill
  · rw [hbefore] at hold
    cases hold
  · rw [hflag] at hnot
    cases hnot

/-- The bytes of a SEND before CONNECT. -/
def sendBytes : Bytes := Utf8.encode "SEND\n\n\x00".toList

/-- The selector thread accepts a connection, and hands the SEND to the pool. The worker queues the
ERROR, up to the call that sets `shouldTerminate`. -/
def refuse : List ReactorServerEvent :=
  [.select [], .task, .accept, .key .closed, .select [⟨1, ⟨true, false⟩⟩], .task,
    .key (.bytes sendBytes), .key .closed, .start 1] ++
    List.replicate sendBytes.length (.decode 1) ++ [.call 1, .add 1, .keyFor 1, .post 1]

/-- The selector thread runs the task of the worker and writes a buffer of this length. -/
def drain (n : Nat) : List ReactorServerEvent :=
  [.select [], .task, .task, .key .closed, .select [⟨1, ⟨false, true⟩⟩], .task, .key (.bytes []),
    .write (.accepted n), .write (.accepted 0), .finish, .toRead, .key .closed]

theorem never_left_open_refused : ∃ trace s, runs.Run trace s ∧ s.terminated 1 = true ∧
    s.quiet 1 = true ∧ s.reactor.isOpen 1 = true ∧ ¬ s.LeftOpen 1 := by
  obtain ⟨trace, s, hr, hs⟩ := System.exists_run (M := runs) (refuse ++ [.call 1, .done 1])
    (fun trace s => decide ((s.terminated 1 = true ∧ s.quiet 1 = true ∧ s.reactor.isOpen 1 = true) ∧
      ∀ e ∈ trace, inTime e = true)) (by decide +kernel)
  rw [decide_eq_true_eq] at hs
  obtain ⟨⟨hterm, hquiet, hopen⟩, hC⟩ := hs
  exact ⟨trace, s, hr, hterm, hquiet, hopen,
    never_left_open hr (fun e he => terminatesInTime_of_inTime (hC e he)) 1⟩

def errorLength : Nat :=
  (StompMessageEncoderDecoder.encode (StompMessagingProtocolImpl.errorFrame
    "SEND received before CONNECT".toList none (.ofStrings "SEND" [] ""))).length

def connectedLength : Nat :=
  (StompMessageEncoderDecoder.encode StompMessagingProtocolImpl.connectedFrame).length

def disconnectBytes : Bytes := Utf8.encode "DISCONNECT\n\n\x00".toList

/-- The client logs in, and sends a DISCONNECT without a receipt once CONNECTED was written. -/
def logInAndOut : List ReactorServerEvent :=
  readConnect ++ logIn ++ [.add 1, .keyFor 1, .post 1, .done 1] ++ drain connectedLength ++
    [.select [⟨1, ⟨true, false⟩⟩], .task, .key (.bytes disconnectBytes), .key .closed, .start 1] ++
    List.replicate disconnectBytes.length (.decode 1) ++ [.call 1, .call 1, .call 1, .done 1]

def leftOpen (s : ReactorServer) (c : ConnectionId) : Bool :=
  s.terminated c && s.quiet c && !s.reactor.hasTask c && !s.reactor.hasOutput c &&
    !s.reactor.wantsWrite c && s.reactor.isOpen c

theorem leftOpen_iff (s : ReactorServer) (c : ConnectionId) : s.leftOpen c = true ↔ s.LeftOpen c := by
  simp only [leftOpen, Bool.and_eq_true, Bool.not_eq_true']
  exact ⟨fun ⟨⟨⟨⟨⟨h1, h2⟩, h3⟩, h4⟩, h5⟩, h6⟩ => ⟨h1, h2, h3, h4, h5, h6⟩,
    fun ⟨h1, h2, h3, h4, h5, h6⟩ => ⟨⟨⟨⟨⟨h1, h2⟩, h3⟩, h4⟩, h5⟩, h6⟩⟩

/-- Nothing is queued for an accepted DISCONNECT without a receipt, and the ERROR of a SEND is
written before `shouldTerminate` is set. -/
theorem left_open : (∃ trace s, runs.Run trace s ∧ trace.map (·.2) = logInAndOut ∧ s.LeftOpen 1) ∧
    ∃ trace s, runs.Run trace s ∧
      trace.map (·.2) = refuse ++ drain errorLength ++ [.call 1, .done 1] ∧ s.LeftOpen 1 := by
  constructor
  · obtain ⟨trace, s, hr, hl, hs⟩ := System.exists_run_labels (M := runs) logInAndOut
      (fun _ s => s.leftOpen 1) (by decide +kernel)
    exact ⟨trace, s, hr, hl, (leftOpen_iff s 1).mp hs⟩
  · obtain ⟨trace, s, hr, hl, hs⟩ := System.exists_run_labels (M := runs)
      (refuse ++ drain errorLength ++ [.call 1, .done 1]) (fun _ s => s.leftOpen 1) (by decide +kernel)
    exact ⟨trace, s, hr, hl, (leftOpen_iff s 1).mp hs⟩

end ReactorServer

end Stomp
