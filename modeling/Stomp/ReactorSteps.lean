import Stomp.Reactor

/-!
# What a step of the reactor does

One constructor for each branch of the steps, and what each of them keeps: the keys of open channels
and of their tasks, the write interest of the selected keys, and what waits to be written.
-/

namespace Stomp

open Utf8

namespace Reactor

/-! ## What a step does -/

/-- The worker that takes a step in `send`. -/
def sender : ReactorEvent → Option WorkerId
  | .send w _ _ | .add w | .keyFor w | .post w => some w
  | _ => none

/-- The handler whose `close` the selector thread calls in a step. -/
def closeCalled (s : Reactor) : ReactorEvent → Option ConnectionId
  | .key .closed =>
    match s.selector with
    | .keys (r :: _) =>
      if r.ops.read && (s.handlers.lookup r.connectionId).any (·.key = .valid) then
        some r.connectionId
      else none
    | _ => none
  | .write .failed =>
    match s.selector with
    | .write c _ => if (s.handlers.lookup c).any (!·.writeQueue.isEmpty) then some c else none
    | _ => none
  | .finish true =>
    match s.selector with
    | .finish c _ => if (s.handlers.lookup c).any (·.writeQueue.isEmpty) then some c else none
    | _ => none
  | _ => none

/-- The steps of the reactor, one constructor for each branch. -/
inductive Step (s : Reactor) : ReactorEvent → Reactor → Prop
  | accept {c ready} (hsel : s.selector = .keys ready) (hc : s.handlers.lookup c = none) :
    Step s (.accept c) (s.setHandler c .initial)
  | send {w c msg h} (hw : s.workers.lookup w = none) (hc : s.handlers.lookup c = some h)
    (ho : h.isOpen = true) : Step s (.send w c msg) (s.setWorker w (.add c msg))
  | sendClosed {w c msg} : Step s (.send w c msg) s
  | add {w c msg h} (hw : s.workers.lookup w = some (.add c msg))
    (hc : s.handlers.lookup c = some h) : Step s (.add w)
      ((s.setHandler c { h with writeQueue := h.writeQueue ++ [msg] }).setWorker w (.keyFor c))
  | keyFor {w c} (hw : s.workers.lookup w = some (.keyFor c)) :
    Step s (.keyFor w) (s.setWorker w (.post c (s.hasKey c)))
  | post {w c hasKey} (hw : s.workers.lookup w = some (.post c hasKey)) : Step s (.post w)
      { s with
        workers := s.workers.erase w
        selectorTasks := s.selectorTasks ++ [⟨c, hasKey, ⟨true, true⟩⟩] }
  | select {ready} (hnodup : (ready.map (·.connectionId)).Nodup)
    (hready : ∀ r ∈ ready, (s.handlers.lookup r.connectionId).any (·.mayBeReady r.ops) = true) :
    Step s (.select ready)
      { s with handlers := s.handlers.mapValues (·.deregister), selector := .tasks ready }
  | task {ready t tasks h} (hsel : s.selector = .tasks ready) (ht : s.selectorTasks = t :: tasks)
    (hc : s.handlers.lookup t.connectionId = some h) : Step s .task
      ({ s with selectorTasks := tasks }.setHandler t.connectionId { h with interestOps := t.ops })
  | taskFails {ready t tasks} (hsel : s.selector = .tasks ready) (ht : s.selectorTasks = t :: tasks)
    (hf : ∀ h, s.handlers.lookup t.connectionId = some h → t.hasKey = true → h.key ≠ .valid) :
    Step s .task ({ s with selectorTasks := tasks }.setSelector .ended)
  /-- The selector thread goes on to a phase in which it needs nothing new. -/
  | goOn {e phase} (he : sender e = none)
    (hphase : (∃ ready, s.selector = .tasks ready ∧ phase = .keys ready) ∨
      (s.selector = .keys [] ∧ phase = .select) ∨
      (∃ r ready, s.selector = .keys (r :: ready) ∧ phase = .keys ready) ∨
      (∃ c ready, s.selector = .write c ready ∧ phase = .finish c ready) ∨
      (∃ c ready, s.selector = .finish c ready ∧ phase = .keys ready) ∨
      phase = .ended)
    (hcall : s.closeCalled e = none) : Step s e (s.setSelector phase)
  | keyClosed {r ready outcome} (hsel : s.selector = .keys (r :: ready))
    (hcall : s.closeCalled (.key outcome) = some r.connectionId) :
    Step s (.key outcome) ((s.close r.connectionId).setSelector (.keys ready))
  | keyWrite {r ready outcome} (hsel : s.selector = .keys (r :: ready)) (hw : r.ops.write = true)
    (hcall : s.closeCalled (.key outcome) = none) :
    Step s (.key outcome) (s.setSelector (.write r.connectionId ready))
  | writePart {c ready n h} {top : Bytes} {queue} (hsel : s.selector = .write c ready)
    (hc : s.handlers.lookup c = some h) : Step s (.write (.accepted n))
      ((s.setHandler c ⟨h.isOpen, h.key, h.interestOps, top.drop n :: queue,
        h.written ++ top.take n⟩).setSelector (.keys ready))
  | writeAll {c ready n h} {top : Bytes} {queue} (hsel : s.selector = .write c ready)
    (hc : s.handlers.lookup c = some h) : Step s (.write (.accepted n))
      (s.setHandler c ⟨h.isOpen, h.key, h.interestOps, queue, h.written ++ top⟩)
  | writeFails {c ready} (hsel : s.selector = .write c ready)
    (hcall : s.closeCalled (.write .failed) = some c) : Step s (.write .failed) (s.close c)
  | finishClose {c ready} (hsel : s.selector = .finish c ready)
    (hcall : s.closeCalled (.finish true) = some c) :
    Step s (.finish true) ((s.close c).setSelector (.keys ready))
  | finishOpen {c ready} (hsel : s.selector = .finish c ready) :
    Step s (.finish false) (s.setSelector (.toRead c ready))
  | toRead {c ready h} (hsel : s.selector = .toRead c ready) (hc : s.handlers.lookup c = some h) :
    Step s .toRead ((s.setHandler c { h with interestOps := ⟨true, false⟩ }).setSelector (.keys ready))

section Branches

variable {s s' : Reactor} {c d : ConnectionId} {w : WorkerId} {ready : List Ready}
  {h : NonBlockingConnectionHandler}

theorem Step.of_handleAccept (hs : s.handleAccept c = some s') : Step s (.accept c) s' := by
  unfold Reactor.handleAccept at hs
  split at hs
  · next hsel hc =>
    cases hs
    exact .accept hsel hc
  · cases hs

theorem Step.of_send {encodedMsg : Bytes} (hs : s.send w c encodedMsg = some s') :
    Step s (.send w c encodedMsg) s' := by
  unfold Reactor.send at hs
  split at hs
  · next hw hc =>
    cases hs
    split
    · next ho => exact .send hw hc ho
    · exact .sendClosed
  · cases hs

theorem Step.of_add (hs : s.add w = some s') : Step s (.add w) s' := by
  unfold Reactor.add at hs
  split at hs
  · next hw =>
    obtain ⟨h, hc, rfl⟩ := Option.map_eq_some_iff.mp hs
    exact .add hw hc
  · cases hs

theorem Step.of_keyFor (hs : s.keyFor w = some s') : Step s (.keyFor w) s' := by
  unfold Reactor.keyFor at hs
  split at hs
  · next hw =>
    cases hs
    exact .keyFor hw
  · cases hs

theorem Step.of_post (hs : s.post w = some s') : Step s (.post w) s' := by
  unfold Reactor.post at hs
  split at hs
  · next hw =>
    cases hs
    exact .post hw
  · cases hs

theorem Step.of_select (hs : s.select ready = some s') : Step s (.select ready) s' := by
  unfold Reactor.select at hs
  split at hs
  · obtain ⟨hready, hs⟩ := Option.ite_none_right_eq_some.mp hs
    cases hs
    rw [Bool.and_eq_true, decide_eq_true_eq, List.all_eq_true] at hready
    exact .select hready.1 hready.2
  · cases hs

theorem Step.of_runTask (hs : s.runTask = some s') : Step s .task s' := by
  unfold Reactor.runTask at hs
  split at hs
  · next hsel _ =>
    cases hs
    exact .goOn rfl (.inl ⟨_, hsel, rfl⟩) rfl
  · next t tasks hsel ht =>
    cases hs
    unfold Reactor.interestOps
    split
    · next h hc =>
      split
      · exact .task hsel ht hc
      · next hkey =>
        refine .taskFails hsel ht fun h' hc' hkey' hvalid => hkey ?_
        cases hc.symm.trans hc'
        simp [hkey', hvalid]
    · next hnone =>
      refine .taskFails hsel ht fun h' hc' => ?_
      rw [show s.handlers.lookup t.connectionId = none from hnone] at hc'
      cases hc'
  · cases hs

theorem closeCalled_key {r : Ready} (hsel : s.selector = .keys (r :: ready))
    (hc : s.handlers.lookup r.connectionId = some h) (outcome : ReadOutcome) :
    s.closeCalled (.key outcome) =
      if h.key = .valid ∧ r.ops.read && outcome.isClosed then some r.connectionId else none := by
  cases outcome <;> simp [closeCalled, hsel, hc, ReadOutcome.isClosed, and_comm]

theorem Step.of_handleReadWrite {outcome : ReadOutcome} (hs : s.handleReadWrite outcome = some s') :
    Step s (.key outcome) s' := by
  unfold Reactor.handleReadWrite at hs
  split at hs
  · next hsel =>
    cases hs
    refine .goOn rfl (.inr (.inl ⟨hsel, rfl⟩)) ?_
    cases outcome <;> simp [closeCalled, hsel]
  · next r ready hsel =>
    obtain ⟨h, hc, rfl⟩ := Option.map_eq_some_iff.mp hs
    have hcall := closeCalled_key hsel hc outcome
    have hskip : s.closeCalled (.key outcome) = none →
        Step s (.key outcome) (s.setSelector (.keys ready)) :=
      .goOn rfl (.inr (.inr (.inl ⟨r, ready, hsel, rfl⟩)))
    split
    · next hkey => exact hskip (hcall.trans (if_neg fun hread => hkey hread.1))
    next hkey =>
    split
    · next hread => exact .keyClosed hsel (hcall.trans (if_pos ⟨not_not.mp hkey, hread⟩))
    next hread =>
    have hnone := hcall.trans (if_neg fun h => hread h.2)
    split
    · next hw => exact .keyWrite hsel hw hnone
    · exact hskip hnone
  · cases hs

theorem Step.of_continueWrite {outcome : WriteOutcome} (hs : s.continueWrite outcome = some s') :
    Step s (.write outcome) s' := by
  unfold Reactor.continueWrite at hs
  split at hs
  · next hsel =>
    obtain ⟨h, hc, hs⟩ := Option.bind_eq_some_iff.mp hs
    cases hqueue : h.writeQueue with
    | nil =>
      simp only [hqueue] at hs
      cases hs
      refine .goOn rfl (.inr (.inr (.inr (.inl ⟨_, _, hsel, rfl⟩)))) ?_
      cases outcome <;> simp [closeCalled, hsel, hc, hqueue]
    | cons top queue =>
      cases outcome with
      | accepted n =>
        simp only [hqueue] at hs
        obtain ⟨-, hs⟩ := Option.ite_none_left_eq_some.mp hs
        split at hs
        · cases hs
          exact .writePart hsel hc
        · cases hs
          exact .writeAll hsel hc
      | failed =>
        simp only [hqueue] at hs
        cases hs
        exact .writeFails hsel (by simp [closeCalled, hsel, hc, hqueue])
  · cases hs

theorem Step.of_finishWrite {shouldTerminate : Bool} (hs : s.finishWrite shouldTerminate = some s') :
    Step s (.finish shouldTerminate) s' := by
  unfold Reactor.finishWrite at hs
  split at hs
  · next hsel =>
    obtain ⟨h, hc, rfl⟩ := Option.map_eq_some_iff.mp hs
    split
    · next hqueue =>
      refine .goOn rfl (.inr (.inr (.inr (.inr (.inl ⟨_, _, hsel, rfl⟩))))) ?_
      cases shouldTerminate <;> simp_all [closeCalled]
    next hqueue =>
    cases shouldTerminate with
    | true => exact .finishClose hsel (by simp_all [closeCalled])
    | false => exact .finishOpen hsel
  · cases hs

theorem Step.of_toRead (hs : s.toRead = some s') : Step s .toRead s' := by
  unfold Reactor.toRead at hs
  split at hs
  · next hsel =>
    split at hs
    · next s' hops =>
      cases hs
      unfold Reactor.interestOps at hops
      split at hops
      · next h hc =>
        obtain ⟨-, hops⟩ := Option.ite_none_right_eq_some.mp hops
        cases hops
        exact .toRead hsel hc
      · cases hops
    · cases hs
      exact .goOn rfl (.inr (.inr (.inr (.inr (.inr rfl))))) rfl
  · cases hs

end Branches

theorem next_step {s s' : Reactor} {e : ReactorEvent} (hs : s.next e = some s') : Step s e s' := by
  cases e with
  | accept c => exact .of_handleAccept hs
  | send w c encodedMsg => exact .of_send hs
  | add w => exact .of_add hs
  | keyFor w => exact .of_keyFor hs
  | post w => exact .of_post hs
  | select ready => exact .of_select hs
  | task => exact .of_runTask hs
  | key outcome => exact .of_handleReadWrite hs
  | write outcome => exact .of_continueWrite hs
  | finish shouldTerminate => exact .of_finishWrite hs
  | toRead => exact .of_toRead hs

/-! ## Closed channels -/

def isClosed (s : Reactor) (c : ConnectionId) : Bool := (s.handlers.lookup c).any (!·.isOpen)

theorem isClosed_setHandler (s : Reactor) (c d : ConnectionId) (h : NonBlockingConnectionHandler) :
    (s.setHandler c h).isClosed d = if d = c then !h.isOpen else s.isClosed d := by
  unfold isClosed
  rw [lookup_setHandler]
  split <;> rfl

theorem isClosed_same {s : Reactor} {c : ConnectionId} {h : NonBlockingConnectionHandler}
    (hc : s.handlers.lookup c = some h) (key : KeyState) (ops : Ops) (queue : List Bytes)
    (written : Bytes) (d : ConnectionId) :
    (s.setHandler c ⟨h.isOpen, key, ops, queue, written⟩).isClosed d = s.isClosed d := by
  rw [isClosed_setHandler]
  split
  · next hdc =>
    rw [hdc, isClosed, hc]
    rfl
  · rfl

theorem isClosed_close {s : Reactor} {c d : ConnectionId} (h : (s.close c).isClosed d = true) :
    s.isClosed d = true ∨ d = c := by
  unfold isClosed at h ⊢
  rw [lookup_close] at h
  split at h
  · next hdc => exact .inr hdc
  · exact .inl h

theorem Step.close_cases {s s' : Reactor} {e : ReactorEvent} (hs : Step s e s') :
    (s.closeCalled e = none ∧ ∀ c, s'.isClosed c = true → s.isClosed c = true) ∨
      ∃ c phase, s.closeCalled e = some c ∧ s' = (s.close c).setSelector phase := by
  cases hs with
  | @accept c ready hsel hc =>
    refine .inl ⟨rfl, fun d hd => ?_⟩
    rw [isClosed_setHandler] at hd
    split at hd
    · cases hd
    · exact hd
  | send | sendClosed | keyFor | post | taskFails | finishOpen => exact .inl ⟨rfl, fun _ => id⟩
  | add hw hc | writePart hsel hc | writeAll hsel hc | toRead hsel hc =>
    exact .inl ⟨rfl, fun d => (isClosed_same hc _ _ _ _ d).symm.trans⟩
  | @task ready t tasks h hsel ht hc =>
    have hdrop : ({ s with selectorTasks := tasks } : Reactor).handlers.lookup t.connectionId = some h := hc
    exact .inl ⟨rfl, fun d => (isClosed_same hdrop _ _ _ _ d).symm.trans⟩
  | select hnodup hready =>
    refine .inl ⟨rfl, fun d hd => ?_⟩
    rwa [isClosed, Table.lookup_mapValues, Option.any_map] at hd
  | goOn he hphase hcall => exact .inl ⟨hcall, fun _ => id⟩
  | keyWrite hsel hw hcall => exact .inl ⟨hcall, fun _ => id⟩
  | keyClosed hsel hcall | finishClose hsel hcall => exact .inr ⟨_, _, hcall, rfl⟩
  | writeFails hsel hcall => exact .inr ⟨_, s.selector, hcall, rfl⟩

theorem isClosed_back {s s' : Reactor} {e : ReactorEvent} (hs : s.next e = some s')
    {c : ConnectionId} (h : s'.isClosed c = true) :
    s.isClosed c = true ∨ s.closeCalled e = some c := by
  rcases (next_step hs).close_cases with ⟨-, hold⟩ | ⟨d, phase, hcall, rfl⟩
  · exact .inl (hold c h)
  · rcases isClosed_close h with hold | rfl
    · exact .inl hold
    · exact .inr hcall

theorem isOpen_closeCalled {s s' : Reactor} {e : ReactorEvent} (hs : s.next e = some s')
    {c : ConnectionId} (h : s.closeCalled e = some c) : s'.isOpen c = false := by
  rcases (next_step hs).close_cases with ⟨hnone, -⟩ | ⟨d, phase, hcall, rfl⟩
  · cases hnone.symm.trans h
  · cases hcall.symm.trans h
    exact isOpen_closed s c phase

/-! ## The interest set -/

def wantsWrite (s : Reactor) (c : ConnectionId) : Bool :=
  (s.handlers.lookup c).any (·.interestOps.write)

def hasOutput (s : Reactor) (c : ConnectionId) : Bool :=
  (s.handlers.lookup c).any (!·.writeQueue.isEmpty)

def hasTask (s : Reactor) (c : ConnectionId) : Bool :=
  s.selectorTasks.any fun t => t.connectionId = c

/-- The connections of the selected keys that are left are different, and each that is ready to be
written wants it. -/
structure Selected (s : Reactor) (ready : List Ready) : Prop where
  nodup : (ready.map (·.connectionId)).Nodup
  wants : ∀ r ∈ ready, r.ops.write = true → s.wantsWrite r.connectionId = true

/-- The selected keys that are left, where the selector thread stands. -/
def SelectedAt (s : Reactor) : SelectorPhase → Prop
  | .tasks ready | .keys ready => s.Selected ready
  | .write c ready | .finish c ready =>
    s.wantsWrite c = true ∧ s.Selected ready ∧ c ∉ ready.map (·.connectionId)
  | .toRead c ready => s.Selected ready ∧ c ∉ ready.map (·.connectionId)
  | .select | .ended => True

/-- An open channel has its key, and so have the tasks for it. -/
structure Keyed (s : Reactor) : Prop where
  key : ∀ c h, s.handlers.lookup c = some h → h.isOpen = true → h.key = .valid
  task : ∀ t ∈ s.selectorTasks, (s.handlers.lookup t.connectionId).isSome = true ∧
    (s.isOpen t.connectionId = true → t.hasKey = true) ∧ t.ops.write = true
  worker : ∀ w stage, s.workers.lookup w = some stage →
    (s.handlers.lookup stage.connectionId).isSome = true
  posting : ∀ w c hasKey, s.workers.lookup w = some (.post c hasKey) → s.isOpen c = true →
    hasKey = true

/-! ### Changes of one handler -/

section Handler

variable {s : Reactor} {c : ConnectionId} {x y : NonBlockingConnectionHandler}

theorem close_eq (hx : s.handlers.lookup c = some x) : s.close c = s.setHandler c x.close := by
  rw [Reactor.close, Table.modify, hx]
  rfl

theorem close_none (hx : s.handlers.lookup c = none) : s.close c = s := by
  rw [Reactor.close, Table.modify, hx]

theorem any_setHandler (p : NonBlockingConnectionHandler → Bool) (d : ConnectionId) :
    ((s.setHandler c y).handlers.lookup d).any p =
      if d = c then p y else (s.handlers.lookup d).any p := by
  rw [lookup_setHandler]
  split <;> rfl

theorem any_setHandler_of {p : NonBlockingConnectionHandler → Bool}
    (hx : s.handlers.lookup c = some x) (hp : p x = true → p y = true) {d : ConnectionId}
    (h : (s.handlers.lookup d).any p = true) : ((s.setHandler c y).handlers.lookup d).any p = true := by
  rw [any_setHandler]
  split
  · next hdc =>
    rw [hdc, hx] at h
    exact hp h
  · exact h

theorem any_close {p : NonBlockingConnectionHandler → Bool} (hp : ∀ x, p x = true → p x.close = true)
    {d : ConnectionId} (h : (s.handlers.lookup d).any p = true) :
    ((s.close c).handlers.lookup d).any p = true := by
  cases hx : s.handlers.lookup c with
  | none => rwa [close_none hx]
  | some x =>
    rw [close_eq hx]
    exact any_setHandler_of hx (hp x) h

theorem Keyed.setHandler (h : Keyed s) (hx : s.handlers.lookup c = some x)
    (hy : y.isOpen = true → x.isOpen = true ∧ y.key = x.key) : Keyed (s.setHandler c y) := by
  have hopen : ∀ d, (s.setHandler c y).isOpen d = true → s.isOpen d = true := by
    intro d hd
    rw [isOpen_setHandler] at hd
    split at hd
    · next hdc =>
      rw [hdc, isOpen_of_handler hx]
      exact (hy hd).1
    · exact hd
  have hsome : ∀ d, (s.handlers.lookup d).isSome = true →
      ((s.setHandler c y).handlers.lookup d).isSome = true := by
    intro d hd
    rw [lookup_setHandler]
    split
    · rfl
    · exact hd
  refine ⟨fun d z hz hzopen => ?_, fun t ht => ?_, fun w stage hw => hsome _ (h.worker w stage hw),
    fun w d k hw hd => h.posting w d k hw (hopen d hd)⟩
  · rw [lookup_setHandler] at hz
    split at hz
    · cases hz
      rw [(hy hzopen).2]
      exact h.key c x hx (hy hzopen).1
    · exact h.key d z hz hzopen
  · obtain ⟨hs, hkey, hops⟩ := h.task t ht
    exact ⟨hsome _ hs, fun ho => hkey (hopen _ ho), hops⟩

theorem Keyed.close (h : Keyed s) (c : ConnectionId) : Keyed (s.close c) := by
  cases hx : s.handlers.lookup c with
  | none => rwa [close_none hx]
  | some x =>
    rw [close_eq hx]
    exact h.setHandler hx fun hf => by cases hf

theorem Keyed.setSelector (h : Keyed s) (phase : SelectorPhase) : Keyed (s.setSelector phase) :=
  ⟨h.key, h.task, h.worker, h.posting⟩

theorem Keyed.setWorker (h : Keyed s) {w : WorkerId} {stage : SendStage}
    (hsome : (s.handlers.lookup stage.connectionId).isSome = true)
    (hpost : ∀ c hasKey, stage = .post c hasKey → s.isOpen c = true → hasKey = true) :
    Keyed (s.setWorker w stage) := by
  refine ⟨h.key, h.task, fun w' stage' hw => ?_, fun w' c k hw ho => ?_⟩
  · rw [lookup_setWorker] at hw
    split at hw
    · cases hw
      exact hsome
    · exact h.worker w' stage' hw
  · rw [lookup_setWorker] at hw
    split at hw
    · exact hpost c k (Option.some.inj hw) ho
    · exact h.posting w' c k hw ho

theorem Keyed.dropTask (h : Keyed s) {t : SelectorTask} {tasks : List SelectorTask}
    (ht : s.selectorTasks = t :: tasks) : Keyed { s with selectorTasks := tasks } :=
  ⟨h.key, fun t' ht' => h.task t' (ht ▸ List.mem_cons_of_mem _ ht'), h.worker, h.posting⟩

end Handler

theorem Keyed.hasKey {s : Reactor} (h : Keyed s) {c : ConnectionId} (hc : s.isOpen c = true) :
    s.hasKey c = true := by
  obtain ⟨x, hx, hopen⟩ := exists_handler hc
  simp [Reactor.hasKey, hx, h.key c x hx hopen]

theorem Keyed.handleAccept {s : Reactor} {c : ConnectionId} (h : Keyed s)
    (hc : s.handlers.lookup c = none) : Keyed (s.setHandler c .initial) := by
  have hne : ∀ d, (s.handlers.lookup d).isSome = true → d ≠ c := by
    rintro d hd rfl
    rw [hc] at hd
    cases hd
  have hsame : ∀ d, d ≠ c → (s.setHandler c .initial).handlers.lookup d = s.handlers.lookup d :=
    fun d hd => (lookup_setHandler s c d _).trans (if_neg hd)
  refine ⟨fun d z hz hzopen => ?_, fun t ht => ?_, fun w stage hw => ?_, fun w d k hw ho => ?_⟩
  · rw [lookup_setHandler] at hz
    split at hz
    · cases hz
      rfl
    · exact h.key d z hz hzopen
  · obtain ⟨hsome, hkey, hops⟩ := h.task t ht
    have hlookup := hsame _ (hne _ hsome)
    refine ⟨hlookup ▸ hsome, fun ho => hkey ?_, hops⟩
    rwa [isOpen, hlookup] at ho
  · have hsome := h.worker w stage hw
    exact hsame _ (hne _ hsome) ▸ hsome
  · have hsome : (s.handlers.lookup d).isSome = true := h.worker w _ hw
    refine h.posting w d k hw ?_
    rwa [isOpen, hsame _ (hne _ hsome)] at ho

theorem Keyed.post {s : Reactor} {w : WorkerId} {c : ConnectionId} {hasKey : Bool} (h : Keyed s)
    (hw : s.workers.lookup w = some (.post c hasKey)) :
    Keyed { s with
      workers := s.workers.erase w
      selectorTasks := s.selectorTasks ++ [⟨c, hasKey, ⟨true, true⟩⟩] } := by
  have hrest : ∀ w' stage, (s.workers.erase w).lookup w' = some stage →
      s.workers.lookup w' = some stage := fun w' stage hw' => (Table.lookup_of_lookup_erase hw').2
  refine ⟨h.key, fun t ht => ?_, fun w' stage hw' => h.worker w' stage (hrest w' stage hw'),
    fun w' d k hw' => h.posting w' d k (hrest w' _ hw')⟩
  rcases List.mem_append.mp ht with ht | ht
  · exact h.task t ht
  · rw [List.mem_singleton.mp ht]
    exact ⟨h.worker w _ hw, h.posting w c hasKey hw, rfl⟩

theorem Keyed.deregister {s : Reactor} (h : Keyed s) (phase : SelectorPhase) :
    Keyed { s with handlers := s.handlers.mapValues (·.deregister), selector := phase } := by
  have hlookup : ∀ d, (s.handlers.mapValues (·.deregister)).lookup d =
      (s.handlers.lookup d).map (·.deregister) := Table.lookup_mapValues _ _
  have hopen : ∀ d, ((s.handlers.mapValues (·.deregister)).lookup d).any (·.isOpen) = s.isOpen d := by
    intro d
    rw [hlookup, isOpen, Option.any_map]
    rfl
  have hsome : ∀ d, ((s.handlers.mapValues (·.deregister)).lookup d).isSome =
      (s.handlers.lookup d).isSome := by
    intro d
    rw [hlookup, Option.isSome_map]
  refine ⟨fun d z hz hzopen => ?_, fun t ht => ?_,
    fun w stage hw => (hsome _).trans (h.worker w stage hw),
    fun w d k hw ho => h.posting w d k hw ((hopen d).symm.trans ho)⟩
  · obtain ⟨x, hx, rfl⟩ := Option.map_eq_some_iff.mp ((hlookup d).symm.trans hz)
    have hkey := h.key d x hx hzopen
    simp [NonBlockingConnectionHandler.deregister, hkey]
  · obtain ⟨hs, hkey, hops⟩ := h.task t ht
    exact ⟨(hsome _).trans hs, fun ho => hkey ((hopen _).symm.trans ho), hops⟩

theorem Keyed.step {s s' : Reactor} {e : ReactorEvent} (h : Keyed s) (hs : Step s e s') :
    Keyed s' := by
  cases hs with
  | accept hsel hc => exact h.handleAccept hc
  | send hw hc ho =>
    exact h.setWorker (by rw [SendStage.connectionId, hc]; rfl) fun d k heq => by cases heq
  | sendClosed => exact h
  | @add w c msg x hw hc =>
    have hset : Keyed (s.setHandler c { x with writeQueue := x.writeQueue ++ [msg] }) :=
      h.setHandler hc fun ho => ⟨ho, rfl⟩
    refine hset.setWorker ?_ ?_
    · rw [lookup_setHandler, SendStage.connectionId, if_pos rfl]
      rfl
    · intro d k heq
      cases heq
  | @keyFor w c hw =>
    have hsome : (s.handlers.lookup c).isSome = true := h.worker w _ hw
    refine h.setWorker hsome fun d k heq ho => ?_
    cases heq
    exact h.hasKey ho
  | post hw => exact h.post hw
  | select hnodup hready => exact h.deregister _
  | task hsel ht hc => exact (h.dropTask ht).setHandler hc fun ho => ⟨ho, rfl⟩
  | taskFails hsel ht hf => exact (h.dropTask ht).setSelector _
  | goOn he hphase => exact h.setSelector _
  | keyClosed hsel => exact (h.close _).setSelector _
  | keyWrite hsel hw => exact h.setSelector _
  | @writePart c ready n x top queue hsel hc =>
    have hset : Keyed (s.setHandler c ⟨x.isOpen, x.key, x.interestOps, top.drop n :: queue,
        x.written ++ top.take n⟩) := h.setHandler hc fun ho => ⟨ho, rfl⟩
    exact hset.setSelector _
  | writeAll hsel hc => exact h.setHandler hc fun ho => ⟨ho, rfl⟩
  | writeFails hsel => exact h.close _
  | finishClose hsel => exact (h.close _).setSelector _
  | finishOpen hsel => exact h.setSelector _
  | @toRead c ready x hsel hc =>
    have hset : Keyed (s.setHandler c { x with interestOps := ⟨true, false⟩ }) :=
      h.setHandler hc fun ho => ⟨ho, rfl⟩
    exact hset.setSelector _

/-! ### The keys that wait to be written -/

theorem wantsWrite_step {s s' : Reactor} {e : ReactorEvent} (h : Keyed s) (hs : Step s e s')
    {c : ConnectionId} (hc : s.wantsWrite c = true) :
    s'.wantsWrite c = true ∨ e = .toRead ∧ ∃ ready, s.selector = .toRead c ready := by
  -- `OP_WRITE` leaves the interest set at the switch to `OP_READ` only.
  have hclose : ∀ d, (s.close d).wantsWrite c = true := fun d =>
    any_close (p := fun x => x.interestOps.write) (fun x hx => hx) hc
  have hset : ∀ {d x y}, s.handlers.lookup d = some x →
      (x.interestOps.write = true → y.interestOps.write = true) →
      (s.setHandler d y).wantsWrite c = true := fun hd hy =>
    any_setHandler_of (p := fun x => x.interestOps.write) hd hy hc
  cases hs with
  | @accept d ready hsel hd =>
    refine .inl ?_
    rw [wantsWrite, any_setHandler]
    split
    · next hcd =>
      rw [wantsWrite, hcd, hd] at hc
      cases hc
    · exact hc
  | add hw hd | writePart hsel hd | writeAll hsel hd => exact .inl (hset hd fun hx => hx)
  | task hsel ht hd => exact .inl (hset hd fun _ => (h.task _ (ht ▸ List.mem_cons_self)).2.2)
  | select hnodup hready =>
    refine .inl ?_
    rw [wantsWrite, Table.lookup_mapValues, Option.any_map]
    exact hc
  | keyClosed hsel | writeFails hsel | finishClose hsel => exact .inl (hclose _)
  | @toRead d ready x hsel hd =>
    by_cases hcd : c = d
    · exact .inr ⟨rfl, ready, hcd ▸ hsel⟩
    · refine .inl ?_
      show ((s.setHandler d _).handlers.lookup c).any _ = true
      rw [any_setHandler, if_neg hcd]
      exact hc
  | send | sendClosed | keyFor | post | taskFails | goOn | keyWrite | finishOpen => exact .inl hc

theorem Selected.mono {s s' : Reactor} {ready : List Ready} (h : s.Selected ready)
    (hw : ∀ c ∈ ready.map (·.connectionId), s.wantsWrite c = true → s'.wantsWrite c = true) :
    s'.Selected ready :=
  ⟨h.nodup, fun r hr hops => hw _ (List.mem_map_of_mem hr) (h.wants r hr hops)⟩

theorem Selected.tail {s : Reactor} {r : Ready} {ready : List Ready} (h : s.Selected (r :: ready)) :
    s.Selected ready ∧ r.connectionId ∉ ready.map (·.connectionId) := by
  have hnodup := List.nodup_cons.mp h.nodup
  exact ⟨⟨hnodup.2, fun r' hr => h.wants r' (List.mem_cons_of_mem _ hr)⟩, hnodup.1⟩

theorem SelectedAt.mono {s s' : Reactor} {phase : SelectorPhase} (h : s.SelectedAt phase)
    (hw : ∀ c, s.wantsWrite c = true → s'.wantsWrite c = true) : s'.SelectedAt phase := by
  cases phase with
  | tasks ready | keys ready => exact Selected.mono h fun c _ => hw c
  | write c ready | finish c ready => exact ⟨hw c h.1, h.2.1.mono fun d _ => hw d, h.2.2⟩
  | toRead c ready => exact ⟨h.1.mono fun d _ => hw d, h.2⟩
  | select | ended => trivial

theorem selectedAt_step {s s' : Reactor} {e : ReactorEvent} (hk : Keyed s)
    (h : s.SelectedAt s.selector) (hs : Step s e s') : s'.SelectedAt s'.selector := by
  have hphase : ∀ phase, s.SelectedAt phase → (s.setSelector phase).SelectedAt phase :=
    fun phase hp => hp.mono fun c hc => hc
  have hmono : e ≠ .toRead → ∀ phase, s.SelectedAt phase → s'.SelectedAt phase :=
    fun hne phase hp => hp.mono fun c hc =>
      (wantsWrite_step hk hs hc).resolve_right fun hread => hne hread.1
  cases hs with
  | accept | send | add | keyFor | post | task | writeAll | writeFails =>
    exact hmono (fun heq => by cases heq) s.selector h
  | sendClosed => exact h
  | @select ready hnodup hready =>
    refine ⟨hnodup, fun r hr hops => ?_⟩
    show ((s.handlers.mapValues (·.deregister)).lookup r.connectionId).any _ = true
    obtain ⟨x, hx, hmay⟩ := (Option.any_eq_true _ _).mp (hready r hr)
    rw [Table.lookup_mapValues, hx]
    simp only [NonBlockingConnectionHandler.mayBeReady, hops, Bool.and_eq_true] at hmay
    simpa [NonBlockingConnectionHandler.deregister] using hmay.2
  | taskFails => trivial
  | goOn he hgo =>
    obtain ⟨ready, hsel, rfl⟩ | ⟨hsel, rfl⟩ | ⟨r, ready, hsel, rfl⟩ | ⟨c, ready, hsel, rfl⟩ |
      ⟨c, ready, hsel, rfl⟩ | rfl := hgo
    · rw [hsel] at h
      exact hphase (.keys ready) h
    · trivial
    · rw [hsel] at h
      exact hphase (.keys ready) (Selected.tail h).1
    · rw [hsel] at h
      exact hphase (.finish c ready) h
    · rw [hsel] at h
      exact hphase (.keys ready) h.2.1
    · trivial
  | @keyClosed r ready outcome hsel =>
    rw [hsel] at h
    exact hmono (fun heq => by cases heq) (.keys ready) (Selected.tail h).1
  | @keyWrite r ready outcome hsel hw =>
    rw [hsel] at h
    exact hphase (.write r.connectionId ready)
      ⟨Selected.wants h r List.mem_cons_self hw, Selected.tail h⟩
  | @writePart c ready n x top queue hsel hc =>
    rw [hsel] at h
    exact hmono (fun heq => by cases heq) (.keys ready) h.2.1
  | @finishClose c ready hsel =>
    rw [hsel] at h
    exact hmono (fun heq => by cases heq) (.keys ready) h.2.1
  | @finishOpen c ready hsel =>
    rw [hsel] at h
    exact hphase (.toRead c ready) h.2
  | @toRead c ready x hsel hc =>
    rw [hsel] at h
    refine h.1.mono fun d hd hwants => ?_
    have hdc : d ≠ c := by
      rintro rfl
      exact h.2 hd
    show ((s.setHandler c _).handlers.lookup d).any _ = true
    rw [any_setHandler, if_neg hdc]
    exact hwants

/-! ### What makes the selector thread go on -/

/-- Something is left to be written, or the selector thread will look at the queue. -/
def WillWrite (s : Reactor) (c : ConnectionId) : Prop :=
  s.hasOutput c = true ∨ s.hasTask c = true ∨
    (s.wantsWrite c = true ∧ ∀ ready, s.selector ≠ .toRead c ready)

theorem WillWrite.congr {s s' : Reactor} {c : ConnectionId} (h : s.WillWrite c)
    (hhandlers : s'.handlers = s.handlers) (htasks : s'.selectorTasks = s.selectorTasks)
    (hselector : s'.selector = s.selector) : s'.WillWrite c := by
  rwa [WillWrite, hasOutput, hasTask, wantsWrite, hhandlers, htasks, hselector]

theorem isOpen_back {s s' : Reactor} {e : ReactorEvent} (hs : Step s e s') {c : ConnectionId}
    (ho : s'.isOpen c = true) :
    s.isOpen c = true ∨ (e = .accept c ∧ s.handlers.lookup c = none) := by
  have hset : ∀ {d x y}, s.handlers.lookup d = some x → (s.setHandler d y).isOpen c = true →
      y.isOpen = x.isOpen → s.isOpen c = true := by
    intro d x y hd h hy
    rw [isOpen_setHandler] at h
    split at h
    · next hcd => rw [hcd, isOpen_of_handler hd, ← hy, h]
    · exact h
  have hclose : ∀ d, (s.close d).isOpen c = true → s.isOpen c = true := by
    intro d h
    rw [isOpen_close] at h
    split at h
    · cases h
    · exact h
  cases hs with
  | @accept d ready hsel hd =>
    by_cases hcd : c = d
    · subst hcd
      exact .inr ⟨rfl, hd⟩
    · rw [isOpen_setHandler, if_neg hcd] at ho
      exact .inl ho
  | add hw hd | task hsel ht hd | writePart hsel hd | writeAll hsel hd | toRead hsel hd =>
    exact .inl (hset hd ho rfl)
  | select hnodup hready =>
    rw [isOpen, Table.lookup_mapValues, Option.any_map] at ho
    exact .inl ho
  | keyClosed hsel | writeFails hsel | finishClose hsel => exact .inl (hclose _ ho)
  | send | sendClosed | keyFor | post | taskFails | goOn | keyWrite | finishOpen => exact .inl ho

theorem hasOutput_step {s s' : Reactor} {e : ReactorEvent} (hs : Step s e s') {c : ConnectionId}
    (hc : s.hasOutput c = true) : s'.hasOutput c = true ∨ ∃ ready, s.selector = .write c ready ∧
      s'.selector = s.selector := by
  have hclose : ∀ d, (s.close d).hasOutput c = true := fun d =>
    any_close (p := fun x => !x.writeQueue.isEmpty) (fun x hx => hx) hc
  have hset : ∀ {d x y}, s.handlers.lookup d = some x →
      (x.writeQueue ≠ [] → y.writeQueue ≠ []) → (s.setHandler d y).hasOutput c = true := by
    intro d x y hd hy
    refine any_setHandler_of (p := fun x => !x.writeQueue.isEmpty) hd ?_ hc
    simpa using hy
  cases hs with
  | @accept d ready hsel hd =>
    refine .inl ?_
    rw [hasOutput, any_setHandler]
    split
    · next hcd =>
      rw [hasOutput, hcd, hd] at hc
      cases hc
    · exact hc
  | add hw hd => exact .inl (hset hd fun _ => by simp)
  | task hsel ht hd => exact .inl (hset hd fun hx => hx)
  | toRead hsel hd => exact .inl (hset hd fun hx => hx)
  | writePart hsel hd => exact .inl (hset hd fun _ => List.cons_ne_nil _ _)
  | @writeAll d ready n x top queue hsel hd =>
    by_cases hcd : c = d
    · exact .inr ⟨ready, hcd ▸ hsel, rfl⟩
    · refine .inl ?_
      rw [hasOutput, any_setHandler, if_neg hcd]
      exact hc
  | select hnodup hready =>
    refine .inl ?_
    rw [hasOutput, Table.lookup_mapValues, Option.any_map]
    exact hc
  | keyClosed hsel | writeFails hsel | finishClose hsel => exact .inl (hclose _)
  | send | sendClosed | keyFor | post | taskFails | goOn | keyWrite | finishOpen => exact .inl hc

theorem hasTask_step {s s' : Reactor} {e : ReactorEvent} (h : Keyed s) (hs : Step s e s')
    {c : ConnectionId} (ho : s.isOpen c = true) (hc : s.hasTask c = true) :
    s'.hasTask c = true ∨ (s'.wantsWrite c = true ∧ ∃ ready, s'.selector = .tasks ready) := by
  have hpop : ∀ {t tasks}, s.selectorTasks = t :: tasks → t.connectionId = c ∨
      (tasks.any fun t => decide (t.connectionId = c)) = true := by
    intro t tasks ht
    simpa [hasTask, ht] using hc
  cases hs with
  | @post w d hasKey hw =>
    refine .inl ?_
    rw [hasTask, List.any_append, Bool.or_eq_true]
    exact .inl hc
  | @task ready t tasks x hsel ht hd =>
    obtain rfl | hrest := hpop ht
    · refine .inr ⟨?_, ready, hsel⟩
      rw [wantsWrite, any_setHandler, if_pos rfl]
      exact (h.task t (ht ▸ List.mem_cons_self)).2.2
    · exact .inl hrest
  | @taskFails ready t tasks hsel ht hf =>
    obtain rfl | hrest := hpop ht
    · -- the key of an open channel is valid
      obtain ⟨x, hx, hxopen⟩ := exists_handler ho
      have hkey := (h.task t (ht ▸ List.mem_cons_self)).2.1 ho
      exact absurd (h.key _ x hx hxopen) (hf x hx hkey)
    · exact .inl hrest
  | accept | send | sendClosed | add | keyFor | select | goOn | keyClosed | keyWrite | writePart
  | writeAll | writeFails | finishClose | finishOpen | toRead => exact .inl hc

theorem Step.stage {s s' : Reactor} {e : ReactorEvent} {w : WorkerId} (hs : Step s e s')
    (he : e = .add w ∨ e = .keyFor w ∨ e = .post w) : ∃ stage, s.workers.lookup w = some stage ∧
      ∀ c msg, stage = .add c msg → s'.hasOutput c = true := by
  obtain rfl | rfl | rfl := he
  · cases hs with
    | @add _ d msg x hw hd =>
      refine ⟨_, hw, fun c msg' hstage => ?_⟩
      cases hstage
      show ((s.setHandler d _).handlers.lookup d).any _ = true
      rw [any_setHandler, if_pos rfl]
      simp
    | goOn he => cases he
  · cases hs with
    | keyFor hw => exact ⟨_, hw, fun _ _ hstage => by cases hstage⟩
    | goOn he => cases he
  · cases hs with
    | post hw => exact ⟨_, hw, fun _ _ hstage => by cases hstage⟩
    | goOn he => cases he

theorem toRead_step {s s' : Reactor} {e : ReactorEvent} (hs : Step s e s') {c : ConnectionId}
    {ready : List Ready} (h : s'.selector = .toRead c ready) :
    s.selector = .toRead c ready ∨ (e = .finish false ∧ s.selector = .finish c ready) := by
  cases hs with
  | goOn he hgo =>
    obtain ⟨_, -, rfl⟩ | ⟨-, rfl⟩ | ⟨_, _, -, rfl⟩ | ⟨_, _, -, rfl⟩ | ⟨_, _, -, rfl⟩ | rfl := hgo <;>
      cases h
  | finishOpen hsel =>
    cases h
    exact .inr ⟨rfl, hsel⟩
  | select | taskFails | keyClosed | keyWrite | writePart | finishClose | toRead => cases h
  | accept | send | sendClosed | add | keyFor | post | task | writeAll | writeFails => exact .inl h

theorem workers_step {s s' : Reactor} {e : ReactorEvent} (hs : Step s e s') {w : WorkerId}
    (hw : sender e ≠ some w) : s'.workers.lookup w = s.workers.lookup w := by
  have hset : ∀ {v stage}, some v ≠ some w → (s.setWorker v stage).workers.lookup w =
      s.workers.lookup w := fun hne =>
    (lookup_setWorker _ _ _ _).trans (if_neg fun heq => hne (congrArg some heq.symm))
  cases hs with
  | send _ _ _ => exact hset hw
  | keyFor _ => exact hset hw
  | add _ _ => exact (lookup_setWorker _ _ _ _).trans (if_neg fun heq => hw (congrArg some heq.symm))
  | post _ => exact AList.lookup_erase_ne fun heq => hw (congrArg some heq.symm)
  | accept | sendClosed | select | task | taskFails | goOn | keyClosed | keyWrite | writePart
  | writeAll | writeFails | finishClose | finishOpen | toRead => rfl

theorem WillWrite.step {s s' : Reactor} {e : ReactorEvent} {c : ConnectionId} (h : s.WillWrite c)
    (hk : Keyed s) (hsel : s.SelectedAt s.selector) (hs : Step s e s') (hopen : s'.isOpen c = true)
    (hfinish : e = .finish false → ∀ ready, s.selector ≠ .finish c ready) : s'.WillWrite c := by
  -- While the channel is open, what makes the selector thread go on stays, unless it finds
  -- `shouldTerminate` false at the end of the queue.
  obtain hout | htask | ⟨hwants, hread⟩ := h
  · obtain hout' | ⟨ready, hwrite, hsame⟩ := hasOutput_step hs hout
    · exact .inl hout'
    · rw [hwrite] at hsel hsame
      refine .inr (.inr ⟨?_, fun ready' h' => ?_⟩)
      · refine (wantsWrite_step hk hs hsel.1).resolve_right ?_
        rintro ⟨-, ready', h'⟩
        rw [hwrite] at h'
        cases h'
      · rw [hsame] at h'
        cases h'
  · obtain ⟨t, ht, htc⟩ := List.any_eq_true.mp htask
    have hsome := (hk.task t ht).1
    rw [decide_eq_true_eq] at htc
    have ho : s.isOpen c = true := (isOpen_back hs hopen).resolve_right fun hnew => by
      rw [htc, hnew.2] at hsome
      cases hsome
    obtain htask' | ⟨hwants, ready, htasks⟩ := hasTask_step hk hs ho htask
    · exact .inr (.inl htask')
    · refine .inr (.inr ⟨hwants, fun ready' h' => ?_⟩)
      rw [htasks] at h'
      cases h'
  · refine .inr (.inr ⟨?_, fun ready h' => ?_⟩)
    · refine (wantsWrite_step hk hs hwants).resolve_right ?_
      rintro ⟨-, ready, h'⟩
      exact hread ready h'
    · obtain h' | ⟨he, h'⟩ := toRead_step hs h'
      · exact hread ready h'
      · exact hfinish he ready h'

end Reactor

end Stomp
