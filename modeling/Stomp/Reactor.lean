import Stomp.Base.Run
import Stomp.Base.Utf8
import Stomp.Connections

/-!
# The selector thread and its tasks

Workers call `send` on any connection at any time. A worker may not touch a key: it posts a task
with the key, and the selector thread runs it later. Only the selector thread closes channels.
-/

namespace Stomp

open Utf8

/-- `OP_READ` and `OP_WRITE`. -/
structure Ops where
  read : Bool
  write : Bool
  deriving DecidableEq

inductive KeyState where
  | valid
  /-- The channel was closed. -/
  | cancelled
  /-- `keyFor` gives null: a `select` followed. -/
  | deregistered
  deriving DecidableEq

/-- The channel of a handler, its key, and what waits to be written. -/
structure NonBlockingConnectionHandler where
  isOpen : Bool
  key : KeyState
  interestOps : Ops
  writeQueue : List Bytes
  written : Bytes

/-- A runnable of `updateInterestedOps`. A key of null was captured when `hasKey` is false. -/
structure SelectorTask where
  connectionId : ConnectionId
  hasKey : Bool
  ops : Ops

abbrev WorkerId := Nat

/-- Where a worker stands in `send`, once it found the channel open. -/
inductive SendStage where
  | add (c : ConnectionId) (encodedMsg : Bytes)
  | keyFor (c : ConnectionId)
  | post (c : ConnectionId) (hasKey : Bool)

def SendStage.connectionId : SendStage → ConnectionId
  | .add c _ | .keyFor c | .post c _ => c

/-- A selected key, with the operations that are ready. -/
structure Ready where
  connectionId : ConnectionId
  ops : Ops

/-- Where the selector thread stands in `serve`. -/
inductive SelectorPhase where
  | select
  /-- In `runSelectionThreadTasks`. -/
  | tasks (ready : List Ready)
  /-- In the loop over the selected keys. -/
  | keys (ready : List Ready)
  /-- In the loop of `continueWrite`. -/
  | write (c : ConnectionId) (ready : List Ready)
  /-- After the loop, where the queue is tested once more. -/
  | finish (c : ConnectionId) (ready : List Ready)
  /-- At the switch to `OP_READ`. -/
  | toRead (c : ConnectionId) (ready : List Ready)
  /-- An exception left `serve`. -/
  | ended

structure Reactor where
  handlers : Table ConnectionId NonBlockingConnectionHandler
  workers : Table WorkerId SendStage
  selectorTasks : List SelectorTask
  selector : SelectorPhase

/-- What `chan.read` ends with: bytes, or the end of the stream or an exception. -/
inductive ReadOutcome where
  | bytes (bs : Bytes)
  | closed

def ReadOutcome.isClosed : ReadOutcome → Bool
  | .bytes _ => false
  | .closed => true

/-- What `chan.write` ends with. -/
inductive WriteOutcome where
  | accepted (n : Nat)
  | failed

inductive ReactorEvent where
  | accept (c : ConnectionId)
  | send (w : WorkerId) (c : ConnectionId) (encodedMsg : Bytes)
  | add (w : WorkerId)
  | keyFor (w : WorkerId)
  | post (w : WorkerId)
  | select (ready : List Ready)
  | task
  | key (outcome : ReadOutcome)
  | write (outcome : WriteOutcome)
  | finish (shouldTerminate : Bool)
  | toRead

namespace NonBlockingConnectionHandler

/-- A channel that was just accepted and registered for reading. -/
def initial : NonBlockingConnectionHandler := ⟨true, .valid, ⟨true, false⟩, [], []⟩

/-- `chan.close()`, which cancels the key. -/
def close (h : NonBlockingConnectionHandler) : NonBlockingConnectionHandler :=
  { h with isOpen := false, key := if h.key = .valid then .cancelled else h.key }

/-- What a `select` does to a cancelled key. -/
def deregister (h : NonBlockingConnectionHandler) : NonBlockingConnectionHandler :=
  { h with key := if h.key = .cancelled then .deregistered else h.key }

def mayBeReady (h : NonBlockingConnectionHandler) (ops : Ops) : Bool :=
  decide (h.key = .valid) && (!ops.read || h.interestOps.read) && (!ops.write || h.interestOps.write)

end NonBlockingConnectionHandler

namespace Reactor

def initial : Reactor := ⟨∅, ∅, [], .select⟩

def setHandler (s : Reactor) (c : ConnectionId) (h : NonBlockingConnectionHandler) : Reactor :=
  { s with handlers := s.handlers.insert c h }

def setWorker (s : Reactor) (w : WorkerId) (stage : SendStage) : Reactor :=
  { s with workers := s.workers.insert w stage }

def setSelector (s : Reactor) (phase : SelectorPhase) : Reactor := { s with selector := phase }

/-- The channel part of `close`. -/
def close (s : Reactor) (c : ConnectionId) : Reactor :=
  { s with handlers := s.handlers.modify c (·.close) }

def isOpen (s : Reactor) (c : ConnectionId) : Bool := (s.handlers.lookup c).any (·.isOpen)

/-- `key.interestOps(ops)` on the selector thread: `none` is an exception. -/
def interestOps (s : Reactor) (c : ConnectionId) (hasKey : Bool) (ops : Ops) : Option Reactor :=
  match s.handlers.lookup c with
  | some h => if hasKey && decide (h.key = .valid) then some (s.setHandler c { h with interestOps := ops })
    else none
  | none => none

/-- `keyFor` gives a key. -/
def hasKey (s : Reactor) (c : ConnectionId) : Bool := (s.handlers.lookup c).any fun h => h.key ≠ .deregistered

/-! ## The worker in `send` -/

def send (s : Reactor) (w : WorkerId) (c : ConnectionId) (encodedMsg : Bytes) : Option Reactor :=
  match s.workers.lookup w, s.handlers.lookup c with
  | none, some h => some (if h.isOpen then s.setWorker w (.add c encodedMsg) else s)
  | _, _ => none

def add (s : Reactor) (w : WorkerId) : Option Reactor :=
  match s.workers.lookup w with
  | some (.add c encodedMsg) =>
    (s.handlers.lookup c).map fun h =>
      (s.setHandler c { h with writeQueue := h.writeQueue ++ [encodedMsg] }).setWorker w (.keyFor c)
  | _ => none

def keyFor (s : Reactor) (w : WorkerId) : Option Reactor :=
  match s.workers.lookup w with
  | some (.keyFor c) => some (s.setWorker w (.post c (s.hasKey c)))
  | _ => none

def post (s : Reactor) (w : WorkerId) : Option Reactor :=
  match s.workers.lookup w with
  | some (.post c hasKey) =>
    some { s with
      workers := s.workers.erase w
      selectorTasks := s.selectorTasks ++ [⟨c, hasKey, ⟨true, true⟩⟩] }
  | _ => none

/-! ## The selector thread -/

def handleAccept (s : Reactor) (c : ConnectionId) : Option Reactor :=
  match s.selector, s.handlers.lookup c with
  | .keys _, none => some (s.setHandler c .initial)
  | _, _ => none

/-- The selected keys are a set. -/
def select (s : Reactor) (ready : List Ready) : Option Reactor :=
  match s.selector with
  | .select =>
    if decide (ready.map (·.connectionId)).Nodup &&
        ready.all fun r => (s.handlers.lookup r.connectionId).any (·.mayBeReady r.ops) then
      some { s with handlers := s.handlers.mapValues (·.deregister), selector := .tasks ready }
    else none
  | _ => none

/-- One turn of the loop in `runSelectionThreadTasks`. -/
def runTask (s : Reactor) : Option Reactor :=
  match s.selector, s.selectorTasks with
  | .tasks ready, [] => some (s.setSelector (.keys ready))
  | .tasks _, t :: tasks =>
    some (({ s with selectorTasks := tasks }.interestOps t.connectionId t.hasKey t.ops).getD
      ({ s with selectorTasks := tasks }.setSelector .ended))
  | _, _ => none

/-- One turn of the loop over the selected keys, up to `continueWrite`. -/
def handleReadWrite (s : Reactor) (outcome : ReadOutcome) : Option Reactor :=
  match s.selector with
  | .keys [] => some (s.setSelector .select)
  | .keys (r :: ready) =>
    (s.handlers.lookup r.connectionId).map fun h =>
      if h.key ≠ .valid then s.setSelector (.keys ready)
      else if r.ops.read && outcome.isClosed then (s.close r.connectionId).setSelector (.keys ready)
      else s.setSelector (if r.ops.write then .write r.connectionId ready else .keys ready)
  | _ => none

/-- One turn of the loop in `continueWrite`. Every write on a closed channel throws. -/
def continueWrite (s : Reactor) (outcome : WriteOutcome) : Option Reactor :=
  match s.selector with
  | .write c ready =>
    (s.handlers.lookup c).bind fun h =>
      match h.writeQueue, outcome with
      | [], _ => some (s.setSelector (.finish c ready))
      | top :: queue, .accepted n =>
        if !h.isOpen || decide (top.length < n) then none
        else if n < top.length then
          some ((s.setHandler c ⟨h.isOpen, h.key, h.interestOps, top.drop n :: queue,
            h.written ++ top.take n⟩).setSelector (.keys ready))
        else some (s.setHandler c ⟨h.isOpen, h.key, h.interestOps, queue, h.written ++ top⟩)
      | _ :: _, .failed => some (s.close c)
  | _ => none

/-- The end of `continueWrite`, up to the switch to `OP_READ`. -/
def finishWrite (s : Reactor) (shouldTerminate : Bool) : Option Reactor :=
  match s.selector with
  | .finish c ready =>
    (s.handlers.lookup c).map fun h =>
      if !h.writeQueue.isEmpty then s.setSelector (.keys ready)
      else if shouldTerminate then (s.close c).setSelector (.keys ready)
      else s.setSelector (.toRead c ready)
  | _ => none

def toRead (s : Reactor) : Option Reactor :=
  match s.selector with
  | .toRead c ready =>
    match s.interestOps c (s.hasKey c) ⟨true, false⟩ with
    | some s' => some (s'.setSelector (.keys ready))
    | none => some (s.setSelector .ended)
  | _ => none

def next (s : Reactor) : ReactorEvent → Option Reactor
  | .accept c => s.handleAccept c
  | .send w c encodedMsg => s.send w c encodedMsg
  | .add w => s.add w
  | .keyFor w => s.keyFor w
  | .post w => s.post w
  | .select ready => s.select ready
  | .task => s.runTask
  | .key outcome => s.handleReadWrite outcome
  | .write outcome => s.continueWrite outcome
  | .finish shouldTerminate => s.finishWrite shouldTerminate
  | .toRead => s.toRead

def runs : System Reactor ReactorEvent := ⟨.initial, next⟩

/-! ## Open channels -/

theorem lookup_setHandler (s : Reactor) (c d : ConnectionId) (h : NonBlockingConnectionHandler) :
    (s.setHandler c h).handlers.lookup d = if d = c then some h else s.handlers.lookup d :=
  Table.lookup_insert_if _ _ _ _

theorem lookup_close (s : Reactor) (c d : ConnectionId) :
    (s.close c).handlers.lookup d =
      if d = c then (s.handlers.lookup c).map (·.close) else s.handlers.lookup d :=
  Table.lookup_modify _ _ _ _

theorem lookup_setWorker (s : Reactor) (w w' : WorkerId) (stage : SendStage) :
    (s.setWorker w stage).workers.lookup w' = if w' = w then some stage else s.workers.lookup w' :=
  Table.lookup_insert_if _ _ _ _

theorem isOpen_setHandler (s : Reactor) (c d : ConnectionId) (h : NonBlockingConnectionHandler) :
    (s.setHandler c h).isOpen d = if d = c then h.isOpen else s.isOpen d := by
  unfold isOpen
  rw [lookup_setHandler]
  split <;> rfl

theorem isOpen_close (s : Reactor) (c d : ConnectionId) :
    (s.close c).isOpen d = if d = c then false else s.isOpen d := by
  unfold isOpen
  rw [lookup_close]
  split
  · cases s.handlers.lookup c <;> rfl
  · rfl

theorem isOpen_of_handler {s : Reactor} {c : ConnectionId} {h : NonBlockingConnectionHandler}
    (hc : s.handlers.lookup c = some h) : s.isOpen c = h.isOpen := by
  simp [isOpen, hc]

theorem exists_handler {s : Reactor} {c : ConnectionId} (h : s.isOpen c = true) :
    ∃ x, s.handlers.lookup c = some x ∧ x.isOpen = true := (Option.any_eq_true _ _).mp h

/-- The step closes the channel. -/
def Closes (c : ConnectionId) (e : Reactor × ReactorEvent) : Prop :=
  e.1.isOpen c = true ∧ (e.1.next e.2).any (fun s => !s.isOpen c) = true

/-- No task for the connection is queued, and no worker is on the way to post one. -/
def NothingPosted (s : Reactor) (c : ConnectionId) : Prop :=
  (∀ t ∈ s.selectorTasks, t.connectionId ≠ c) ∧
    ∀ w stage, s.workers.lookup w = some stage → stage.connectionId ≠ c

/-! ## Tasks that find their key -/

/-- What the selector thread relies on where it stands. -/
def PhaseOk (s : Reactor) : SelectorPhase → Prop
  | .write c _ => s.isOpen c = true ∨ ∃ h, s.handlers.lookup c = some h ∧ h.writeQueue ≠ []
  | .finish c _ | .toRead c _ => s.isOpen c = true
  | .ended => False
  | _ => True

theorem PhaseOk.congr {s s' : Reactor} (hs : s'.handlers = s.handlers) {phase : SelectorPhase}
    (h : PhaseOk s phase) : PhaseOk s' phase := by
  revert h
  cases phase <;> simp only [PhaseOk, isOpen, hs, imp_self]

/-- Every task that is posted or will be has a valid key. -/
structure KeysHeld (s : Reactor) : Prop where
  key : ∀ c h, s.handlers.lookup c = some h → (h.isOpen = true ↔ h.key = .valid)
  task : ∀ t ∈ s.selectorTasks, t.hasKey = true ∧ s.isOpen t.connectionId = true
  worker : ∀ w stage, s.workers.lookup w = some stage → s.isOpen stage.connectionId = true
  posting : ∀ w c hasKey, s.workers.lookup w = some (.post c hasKey) → hasKey = true
  phase : PhaseOk s s.selector

theorem KeysHeld.hasKey {s : Reactor} (h : KeysHeld s) {c : ConnectionId} (hc : s.isOpen c = true) :
    s.hasKey c = true := by
  obtain ⟨x, hx, hopen⟩ := exists_handler hc
  simp [Reactor.hasKey, hx, (h.key c x hx).mp hopen]

theorem KeysHeld.interestOps {s : Reactor} (h : KeysHeld s) {c : ConnectionId} (hc : s.isOpen c = true)
    (ops : Ops) : ∃ x, s.handlers.lookup c = some x ∧ x.isOpen = true ∧
      s.interestOps c true ops = some (s.setHandler c { x with interestOps := ops }) := by
  obtain ⟨x, hx, hopen⟩ := exists_handler hc
  exact ⟨x, hx, hopen, by simp [Reactor.interestOps, hx, (h.key c x hx).mp hopen]⟩

theorem KeysHeld.setHandler {s : Reactor} (h : KeysHeld s) {c : ConnectionId}
    {x y : NonBlockingConnectionHandler} (hx : s.handlers.lookup c = some x) (hopen : y.isOpen = x.isOpen)
    (hkey : y.key = x.key) (hqueue : ∀ ready, s.selector = .write c ready → x.isOpen = false →
      y.writeQueue ≠ []) : KeysHeld (s.setHandler c y) := by
  have hsame : ∀ d, (s.setHandler c y).isOpen d = s.isOpen d := by
    intro d
    rw [isOpen_setHandler]
    split
    · next hdc => rw [hdc, isOpen_of_handler hx, hopen]
    · rfl
  refine ⟨fun d z hz => ?_, fun t ht => ?_, fun w stage hw => ?_, h.posting, ?_⟩
  · rw [lookup_setHandler] at hz
    split at hz
    · next hdc =>
      cases hz
      rw [hkey, hopen]
      exact h.key c x hx
    · exact h.key d z hz
  · rw [hsame]
    exact h.task t ht
  · rw [hsame]
    exact h.worker w stage hw
  · have hphase := h.phase
    show PhaseOk _ s.selector
    cases hs : s.selector with
    | select | tasks | keys => trivial
    | ended =>
      rw [hs] at hphase
      exact hphase
    | finish d ready | toRead d ready =>
      rw [hs] at hphase
      exact (hsame d).trans hphase
    | write d ready =>
      rw [hs] at hphase
      by_cases hdc : d = c
      · subst hdc
        cases ho : x.isOpen with
        | true => exact .inl (by rw [hsame, isOpen_of_handler hx, ho])
        | false =>
          exact .inr ⟨y, by rw [lookup_setHandler, if_pos rfl], hqueue ready hs ho⟩
      · refine hphase.imp (fun hd => (hsame d).trans hd) fun ⟨z, hz, hne⟩ => ⟨z, ?_, hne⟩
        rw [lookup_setHandler, if_neg hdc, hz]

theorem KeysHeld.setSelector {s : Reactor} (h : KeysHeld s) {phase : SelectorPhase}
    (hp : PhaseOk s phase) : KeysHeld (s.setSelector phase) := by
  refine ⟨h.key, h.task, h.worker, h.posting, ?_⟩
  exact hp.congr rfl

theorem KeysHeld.setWorker {s : Reactor} (h : KeysHeld s) (w : WorkerId) {stage : SendStage}
    (ho : s.isOpen stage.connectionId = true)
    (hpost : ∀ c hasKey, stage = .post c hasKey → hasKey = true) : KeysHeld (s.setWorker w stage) := by
  refine ⟨h.key, h.task, fun w' stage' hw => ?_, fun w' c k hw => ?_, h.phase.congr rfl⟩
  · rw [lookup_setWorker] at hw
    split at hw
    · cases hw
      exact ho
    · exact h.worker w' stage' hw
  · rw [lookup_setWorker] at hw
    split at hw
    · exact hpost c k (Option.some.inj hw)
    · exact h.posting w' c k hw

theorem KeysHeld.close {s : Reactor} (h : KeysHeld s) {c : ConnectionId} {phase : SelectorPhase}
    (hn : s.isOpen c = true → NothingPosted s c) (hp : PhaseOk (s.close c) phase) :
    KeysHeld ((s.close c).setSelector phase) := by
  have hopen : ∀ d, (s.close c).isOpen d = true ↔ s.isOpen d = true ∧ d ≠ c := by
    intro d
    rw [isOpen_close]
    by_cases hdc : d = c <;> simp [hdc]
  have hclosed : ∀ d, s.isOpen d = true → (s.isOpen c = true → d ≠ c) → d ≠ c := by
    rintro d hd hne rfl
    exact hne hd rfl
  refine ⟨fun d z hz => ?_, fun t ht => ⟨(h.task t ht).1, ?_⟩, fun w stage hw => ?_, h.posting, ?_⟩
  · have hz' := (lookup_close s c d).symm.trans hz
    split at hz'
    · obtain ⟨x, -, rfl⟩ := Option.map_eq_some_iff.mp hz'
      refine iff_of_false (by simp [NonBlockingConnectionHandler.close]) fun hkey => ?_
      simp only [NonBlockingConnectionHandler.close] at hkey
      split at hkey
      · cases hkey
      · next hne => exact hne hkey
    · exact h.key d z hz'
  · have ht' := (h.task t ht).2
    exact (hopen _).mpr ⟨ht', hclosed _ ht' fun hc => (hn hc).1 t ht⟩
  · have hw' := h.worker w stage hw
    exact (hopen _).mpr ⟨hw', hclosed _ hw' fun hc => (hn hc).2 w stage hw⟩
  · exact hp.congr rfl

/-! ## One step -/

theorem KeysHeld.handleAccept {s s' : Reactor} (h : KeysHeld s) {c : ConnectionId}
    (hs : s.handleAccept c = some s') : KeysHeld s' := by
  unfold Reactor.handleAccept at hs
  split at hs
  · next ready hsel hnone =>
    cases hs
    have hsame : ∀ d, s.isOpen d = true → (s.setHandler c .initial).isOpen d = true := by
      intro d hd
      rw [isOpen_setHandler]
      split
      · rfl
      · exact hd
    refine ⟨fun d z hz => ?_, fun t ht => ⟨(h.task t ht).1, hsame _ (h.task t ht).2⟩,
      fun w stage hw => hsame _ (h.worker w stage hw), h.posting, ?_⟩
    · rw [lookup_setHandler] at hz
      split at hz
      · cases hz
        exact iff_of_true rfl rfl
      · exact h.key d z hz
    · show PhaseOk _ s.selector
      rw [hsel]
      trivial
  · cases hs

theorem KeysHeld.send {s s' : Reactor} (h : KeysHeld s) {w : WorkerId} {c : ConnectionId}
    {encodedMsg : Bytes} (hs : s.send w c encodedMsg = some s') : KeysHeld s' := by
  unfold Reactor.send at hs
  split at hs
  · next x _ hx =>
    cases hs
    split
    · next hopen =>
      exact h.setWorker w ((isOpen_of_handler hx).trans hopen) fun d k heq => by cases heq
    · exact h
  · cases hs

theorem KeysHeld.add {s s' : Reactor} (h : KeysHeld s) {w : WorkerId} (hs : s.add w = some s') :
    KeysHeld s' := by
  unfold Reactor.add at hs
  split at hs
  · next c encodedMsg hw =>
    obtain ⟨x, hx, rfl⟩ := Option.map_eq_some_iff.mp hs
    have hopen : s.isOpen c = true := h.worker w _ hw
    have hadd := h.setHandler hx (y := { x with writeQueue := x.writeQueue ++ [encodedMsg] }) rfl rfl
      fun ready _ _ => by simp
    refine hadd.setWorker w ?_ fun d k heq => by cases heq
    show (s.setHandler c _).isOpen c = true
    rw [isOpen_setHandler, if_pos rfl]
    exact (isOpen_of_handler hx).symm.trans hopen
  · cases hs

theorem KeysHeld.keyFor {s s' : Reactor} (h : KeysHeld s) {w : WorkerId} (hs : s.keyFor w = some s') :
    KeysHeld s' := by
  unfold Reactor.keyFor at hs
  split at hs
  · next c hw =>
    cases hs
    have hopen : s.isOpen c = true := h.worker w _ hw
    refine h.setWorker w hopen fun d k heq => ?_
    cases heq
    exact h.hasKey hopen
  · cases hs

theorem KeysHeld.post {s s' : Reactor} (h : KeysHeld s) {w : WorkerId} (hs : s.post w = some s') :
    KeysHeld s' := by
  unfold Reactor.post at hs
  split at hs
  · next c k hw =>
    cases hs
    have hrest : ∀ w' stage, (s.workers.erase w).lookup w' = some stage →
        s.workers.lookup w' = some stage := fun w' stage hw' => (Table.lookup_of_lookup_erase hw').2
    refine ⟨h.key, fun t ht => ?_, fun w' stage hw' => h.worker w' stage (hrest w' stage hw'),
      fun w' d k' hw' => h.posting w' d k' (hrest w' _ hw'), h.phase.congr rfl⟩
    rcases List.mem_append.mp ht with ht | ht
    · exact h.task t ht
    · rw [List.mem_singleton.mp ht]
      exact ⟨h.posting w c k hw, h.worker w _ hw⟩
  · cases hs

theorem KeysHeld.select {s s' : Reactor} (h : KeysHeld s) {ready : List Ready}
    (hs : s.select ready = some s') : KeysHeld s' := by
  unfold Reactor.select at hs
  split at hs
  · split at hs
    · cases hs
      have hsame : ∀ d, ((s.handlers.mapValues (·.deregister)).lookup d).any (·.isOpen) = s.isOpen d := by
        intro d
        rw [Table.lookup_mapValues]
        cases hd : s.handlers.lookup d <;> simp [isOpen, hd, NonBlockingConnectionHandler.deregister]
      refine ⟨fun d z hz => ?_, fun t ht => ⟨(h.task t ht).1, (hsame _).trans (h.task t ht).2⟩,
        fun w stage hw => (hsame _).trans (h.worker w stage hw), h.posting, trivial⟩
      obtain ⟨x, hx, rfl⟩ := Option.map_eq_some_iff.mp ((Table.lookup_mapValues _ _ _).symm.trans hz)
      refine (h.key d x hx).trans ?_
      cases hkey : x.key <;> simp [NonBlockingConnectionHandler.deregister, hkey]
    · cases hs
  · cases hs

theorem KeysHeld.runTask {s s' : Reactor} (h : KeysHeld s) (hs : s.runTask = some s') :
    KeysHeld s' := by
  unfold Reactor.runTask at hs
  split at hs
  · cases hs
    exact h.setSelector trivial
  · next ready t tasks hsel htasks =>
    cases hs
    have hrest : KeysHeld { s with selectorTasks := tasks } := by
      refine ⟨h.key, fun t' ht => h.task t' ?_, h.worker, h.posting, ?_⟩
      · rw [htasks]
        exact List.mem_cons_of_mem _ ht
      · show PhaseOk _ s.selector
        rw [hsel]
        trivial
    have hhead := h.task t (htasks ▸ List.mem_cons_self)
    obtain ⟨x, hx, -, hrun⟩ := hrest.interestOps (c := t.connectionId) hhead.2 t.ops
    rw [hhead.1, hrun, Option.getD_some]
    refine hrest.setHandler hx rfl rfl fun ready' hsel' => ?_
    have hsel'' : s.selector = .write t.connectionId ready' := hsel'
    rw [hsel] at hsel''
    cases hsel''
  · cases hs

theorem isOpen_closed (s : Reactor) (c : ConnectionId) (phase : SelectorPhase) :
    ((s.close c).setSelector phase).isOpen c = false := (isOpen_close s c c).trans (if_pos rfl)

theorem KeysHeld.handleReadWrite {s s' : Reactor} (h : KeysHeld s) {outcome : ReadOutcome}
    (hs : s.handleReadWrite outcome = some s')
    (hC : ∀ c, s.isOpen c = true → s'.isOpen c = false → NothingPosted s c) : KeysHeld s' := by
  unfold Reactor.handleReadWrite at hs
  split at hs
  · cases hs
    exact h.setSelector trivial
  · next r ready hsel =>
    obtain ⟨x, hx, rfl⟩ := Option.map_eq_some_iff.mp hs
    split
    · exact h.setSelector trivial
    · next hvalid =>
      split
      · next hclosed =>
        refine h.close (fun hopen => hC _ hopen ?_) trivial
        rw [if_neg hvalid, if_pos hclosed]
        exact isOpen_closed s _ _
      · refine h.setSelector ?_
        split
        · have hkey : x.key = .valid := by simpa using hvalid
          exact .inl ((isOpen_of_handler hx).trans ((h.key _ x hx).mpr hkey))
        · trivial
  · cases hs

theorem KeysHeld.continueWrite {s s' : Reactor} (h : KeysHeld s) {outcome : WriteOutcome}
    (hs : s.continueWrite outcome = some s')
    (hC : ∀ c, s.isOpen c = true → s'.isOpen c = false → NothingPosted s c) : KeysHeld s' := by
  unfold Reactor.continueWrite at hs
  split at hs
  · next c ready hsel =>
    have hphase := h.phase
    rw [hsel] at hphase
    obtain ⟨x, hx, hs⟩ := Option.bind_eq_some_iff.mp hs
    cases hqueue : x.writeQueue with
    | nil =>
      simp only [hqueue] at hs
      cases hs
      refine h.setSelector (hphase.resolve_right ?_)
      rintro ⟨y, hy, hne⟩
      cases hx.symm.trans hy
      exact hne hqueue
    | cons top queue =>
      cases outcome with
      | accepted n =>
        simp only [hqueue] at hs
        split at hs
        · cases hs
        next hopen =>
        have hxopen : x.isOpen = true := by
          simp only [Bool.or_eq_true, Bool.not_eq_true', not_or, Bool.not_eq_false] at hopen
          exact hopen.1
        split at hs
        · cases hs
          exact (h.setHandler (y := ⟨x.isOpen, x.key, x.interestOps, top.drop n :: queue,
            x.written ++ top.take n⟩) hx rfl rfl fun _ _ _ => List.cons_ne_nil _ _).setSelector trivial
        · cases hs
          refine h.setHandler (y := ⟨x.isOpen, x.key, x.interestOps, queue, x.written ++ top⟩) hx rfl rfl
            fun _ _ hf => ?_
          rw [hxopen] at hf
          cases hf
      | failed =>
        simp only [hqueue] at hs
        cases hs
        -- the loop goes on with the buffer that could not be written
        have hstay : (s.close c).selector = .write c ready := hsel
        have hphase : PhaseOk (s.close c) (.write c ready) :=
          .inr ⟨x.close, by rw [lookup_close, if_pos rfl, hx]; rfl, by
            simp [NonBlockingConnectionHandler.close, hqueue]⟩
        have hclose := h.close (fun hopen => hC c hopen ((isOpen_close s c c).trans (if_pos rfl))) hphase
        rwa [Reactor.setSelector, ← hstay] at hclose
  · cases hs

theorem KeysHeld.finishWrite {s s' : Reactor} (h : KeysHeld s) {shouldTerminate : Bool}
    (hs : s.finishWrite shouldTerminate = some s')
    (hC : ∀ c, s.isOpen c = true → s'.isOpen c = false → NothingPosted s c) : KeysHeld s' := by
  unfold Reactor.finishWrite at hs
  split at hs
  · next c ready hsel =>
    have hphase := h.phase
    rw [hsel] at hphase
    obtain ⟨x, hx, rfl⟩ := Option.map_eq_some_iff.mp hs
    split
    · exact h.setSelector trivial
    · next hempty =>
      split
      · next hterm =>
        refine h.close (fun hopen => hC _ hopen ?_) trivial
        rw [if_neg hempty, if_pos hterm]
        exact isOpen_closed s _ _
      · exact h.setSelector hphase
  · cases hs

theorem KeysHeld.toRead {s s' : Reactor} (h : KeysHeld s) (hs : s.toRead = some s') : KeysHeld s' := by
  unfold Reactor.toRead at hs
  split at hs
  · next c ready hsel =>
    have hopen : s.isOpen c = true := by
      have hphase := h.phase
      rw [hsel] at hphase
      exact hphase
    obtain ⟨x, hx, -, hrun⟩ := h.interestOps hopen ⟨true, false⟩
    rw [h.hasKey hopen, hrun] at hs
    cases hs
    have hset := h.setHandler hx (y := { x with interestOps := ⟨true, false⟩ }) rfl rfl
      fun ready' hsel' => by rw [hsel] at hsel'; cases hsel'
    exact hset.setSelector trivial
  · cases hs

theorem KeysHeld.step {s s' : Reactor} {e : ReactorEvent} (h : KeysHeld s)
    (hC : ∀ c, Closes c (s, e) → NothingPosted s c) (hs : s.next e = some s') : KeysHeld s' := by
  have hclose : ∀ c, s.isOpen c = true → s'.isOpen c = false → NothingPosted s c := by
    intro c hopen hclosed
    refine hC c ⟨hopen, ?_⟩
    rw [hs]
    simp [hclosed]
  cases e with
  | accept c => exact h.handleAccept hs
  | send w c encodedMsg => exact h.send hs
  | add w => exact h.add hs
  | keyFor w => exact h.keyFor hs
  | post w => exact h.post hs
  | select ready => exact h.select hs
  | task => exact h.runTask hs
  | key outcome => exact h.handleReadWrite hs hclose
  | write outcome => exact h.continueWrite hs hclose
  | finish shouldTerminate => exact h.finishWrite hs hclose
  | toRead => exact h.toRead hs

/-- When channels are closed only while nothing is posted for them, no task throws and the selector
loop goes on. -/
theorem never_ends {trace : List (Reactor × ReactorEvent)} {s : Reactor} (h : runs.Run trace s)
    (hC : ∀ e ∈ trace, ∀ c, Closes c e → NothingPosted e.1 c) : s.selector ≠ .ended := by
  have hkeys : KeysHeld s := by
    refine System.Run.inv_of (fun s e => ∀ c, Closes c (s, e) → NothingPosted s c) KeysHeld ?_
      (fun s e s' hs hc hn => hs.step hc hn) h hC
    exact ⟨fun c x hx => (by cases hx), fun t ht => (by cases ht), fun w stage hw => (by cases hw),
      fun w c k hw => (by cases hw), trivial⟩
  intro hended
  have hphase := hkeys.phase
  rw [hended] at hphase
  exact hphase

instance (s : Reactor) (c : ConnectionId) : Decidable (NothingPosted s c) :=
  inferInstanceAs (Decidable (_ ∧ _))

instance (c : ConnectionId) (e : Reactor × ReactorEvent) : Decidable (Closes c e) :=
  inferInstanceAs (Decidable (_ ∧ _))

/-- What the selector thread can see as a computation. -/
def hasEnded (s : Reactor) : Bool :=
  match s.selector with
  | .ended => true
  | _ => false

/-- The selector thread accepts a connection and finds it readable. -/
def acceptAndSelect : List ReactorEvent :=
  [.select [], .task, .accept 1, .key .closed, .select [⟨1, ⟨true, false⟩⟩]]

/-- A worker sends to the connection. -/
def workerSends : List ReactorEvent := [.send 7 1 [0], .add 7, .keyFor 7, .post 7]

/-- The task of a worker runs and the answer is written before the client closes its end. -/
def answeredRun : List ReactorEvent :=
  acceptAndSelect ++ workerSends ++ [.task, .task, .key (.bytes []), .key .closed,
    .select [⟨1, ⟨true, true⟩⟩], .task, .key (.bytes []), .write (.accepted 1), .write .failed,
    .finish false, .toRead, .key .closed, .select [⟨1, ⟨true, false⟩⟩], .task, .key .closed]

theorem never_ends_answered : ∃ trace s, runs.Run trace s ∧ s.isOpen 1 = false ∧ s.selector ≠ .ended := by
  obtain ⟨trace, s, hr, hs⟩ := System.exists_run (M := runs) answeredRun
    (fun trace s => !s.isOpen 1 && decide (∀ e ∈ trace, ∀ c x, e.1.handlers.lookup c = some x →
      Closes c e → NothingPosted e.1 c)) (by decide)
  rw [Bool.and_eq_true, decide_eq_true_eq, Bool.not_eq_true'] at hs
  refine ⟨trace, s, hr, hs.1, never_ends hr fun e he c hc => ?_⟩
  obtain ⟨x, hx, -⟩ := exists_handler hc.1
  exact hs.2 e he c x hx hc

/-- The client closes its end while the task of a worker is queued. -/
theorem late_task : ∃ trace s, runs.Run trace s ∧ s.selector = .ended := by
  obtain ⟨trace, s, hr, hs⟩ := System.exists_run (M := runs)
    (acceptAndSelect ++ [.task] ++ workerSends ++ [.key .closed, .key .closed, .select [], .task])
    (fun _ s => s.hasEnded) (by decide)
  refine ⟨trace, s, hr, ?_⟩
  unfold hasEnded at hs
  split at hs
  · assumption
  · cases hs

end Reactor

end Stomp
