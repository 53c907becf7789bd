import Stomp.Codec
import Stomp.Reactor

/-!
# The bytes of the write queue

The selector thread looks at the head of the queue, writes what the channel takes, and removes the
head in a step of its own. Workers add buffers at the end between any two of these steps.
-/

namespace Stomp

open Utf8

/-- A buffer that wraps an array. Its limit is the end of the array. -/
structure ByteBuffer where
  array : Bytes
  position : Nat
  position_le : position ≤ array.length

namespace ByteBuffer

def wrap (array : Bytes) : ByteBuffer := ⟨array, 0, Nat.zero_le _⟩

/-- The bytes between the position and the limit. -/
def remaining (b : ByteBuffer) : Bytes := b.array.drop b.position

def hasRemaining (b : ByteBuffer) : Bool := b.position < b.array.length

/-- The channel took `n` of the bytes that remained. -/
def advance (b : ByteBuffer) (n : Nat) (h : n ≤ b.remaining.length) : ByteBuffer :=
  ⟨b.array, b.position + n, by
    have hle := b.position_le
    rw [remaining, List.length_drop] at h
    omega⟩

theorem remaining_wrap (array : Bytes) : (wrap array).remaining = array := List.drop_zero

theorem remaining_advance (b : ByteBuffer) {n : Nat} (h : n ≤ b.remaining.length) :
    (b.advance n h).remaining = b.remaining.drop n := List.drop_drop.symm

theorem hasRemaining_advance (b : ByteBuffer) {n : Nat} (h : n ≤ b.remaining.length) :
    (b.advance n h).hasRemaining = decide (n < b.remaining.length) := by
  show decide (b.position + n < b.array.length) = decide (n < b.remaining.length)
  rw [remaining, List.length_drop] at h ⊢
  exact decide_eq_decide.mpr (by omega)

theorem hasRemaining_eq_false {b : ByteBuffer} (h : b.hasRemaining = false) : b.remaining = [] := by
  rw [hasRemaining, decide_eq_false_iff_not, Nat.not_lt] at h
  exact List.drop_eq_nil_of_le h

end ByteBuffer

abbrev BufferId := Nat

/-- Where the selector thread stands in `continueWrite`. -/
inductive WritePhase where
  | outside
  /-- At the test of the loop. -/
  | test
  | peek
  | write (top : BufferId)
  /-- At `top.hasRemaining()`. -/
  | check (top : BufferId)
  | remove
  /-- At the test after the loop. -/
  | last
  /-- An exception of `peek` or `remove`, which the loop does not catch. -/
  | threw
  deriving DecidableEq

/-- The part of a handler that `send` and `continueWrite` work on. A buffer is known by its place
in the heap, so that the queue and the loop share it. -/
structure Output (T : Type) where
  isOpen : Bool
  buffers : List ByteBuffer
  writeQueue : List BufferId
  /-- What the channel accepted. -/
  written : Bytes
  /-- The workers that found the channel open. -/
  sending : Table WorkerId T
  phase : WritePhase

inductive OutputEvent (T : Type) where
  | send (w : WorkerId) (msg : T)
  | add (w : WorkerId)
  | close
  | continueWrite
  | test
  | peek
  | write (n : Nat)
  | check
  | remove
  | last (shouldTerminate : Bool)

namespace Output

variable {T : Type}

def initial : Output T := ⟨true, [], [], [], ∅, .outside⟩

/-- The bytes of a buffer that remain. -/
def remaining (s : Output T) (b : BufferId) : Bytes := (s.buffers[b]?).elim [] (·.remaining)

/-- The bytes of the queue that remain. -/
def pending (s : Output T) : Bytes := s.writeQueue.flatMap s.remaining

def setPhase (s : Output T) (phase : WritePhase) : Output T := { s with phase := phase }

@[simp]
theorem phase_setPhase (s : Output T) (phase : WritePhase) : (s.setPhase phase).phase = phase := rfl

/-! ## The steps -/

def send (s : Output T) (w : WorkerId) (msg : T) : Option (Output T) :=
  match s.sending.lookup w with
  | some _ => none
  | none => some (if s.isOpen then { s with sending := s.sending.insert w msg } else s)

/-- `writeQueue.add(ByteBuffer.wrap(encdec.encode(msg)))`. -/
def add (encode : T → Bytes) (s : Output T) (w : WorkerId) : Option (Output T) :=
  (s.sending.lookup w).map fun msg =>
    { s with
      sending := s.sending.erase w
      buffers := s.buffers ++ [.wrap (encode msg)]
      writeQueue := s.writeQueue ++ [s.buffers.length] }

def continueWrite (s : Output T) : Option (Output T) :=
  if s.phase = .outside then some (s.setPhase .test) else none

def test (s : Output T) : Option (Output T) :=
  if s.phase = .test then some (s.setPhase (if s.writeQueue.isEmpty then .last else .peek)) else none

/-- `chan.write` throws on the null that an empty queue gives. -/
def peek (s : Output T) : Option (Output T) :=
  if s.phase = .peek then
    some (s.setPhase (match s.writeQueue with | [] => .threw | top :: _ => .write top))
  else none

/-- The channel accepts `n` of the bytes that remain. -/
def write (s : Output T) (n : Nat) : Option (Output T) :=
  match s.phase with
  | .write top =>
    (s.buffers[top]?).bind fun b =>
      if h : n ≤ b.remaining.length then
        if s.isOpen then
          some { s with
            buffers := s.buffers.set top (b.advance n h)
            written := s.written ++ b.remaining.take n
            phase := .check top }
        else none
      else none
  | _ => none

def check (s : Output T) : Option (Output T) :=
  match s.phase with
  | .check top =>
    (s.buffers[top]?).map fun b => s.setPhase (if b.hasRemaining then .outside else .remove)
  | _ => none

def remove (s : Output T) : Option (Output T) :=
  if s.phase = .remove then
    some (match s.writeQueue with
      | [] => s.setPhase .threw
      | _ :: queue => { s with writeQueue := queue, phase := .test })
  else none

def last (s : Output T) (shouldTerminate : Bool) : Option (Output T) :=
  if s.phase = .last then
    some { s with
      isOpen := s.isOpen && !(s.writeQueue.isEmpty && shouldTerminate)
      phase := .outside }
  else none

def next (encode : T → Bytes) (s : Output T) : OutputEvent T → Option (Output T)
  | .send w msg => s.send w msg
  | .add w => s.add encode w
  | .close => some { s with isOpen := false }
  | .continueWrite => s.continueWrite
  | .test => s.test
  | .peek => s.peek
  | .write n => s.write n
  | .check => s.check
  | .remove => s.remove
  | .last shouldTerminate => s.last shouldTerminate

def runs (encode : T → Bytes) : System (Output T) (OutputEvent T) := ⟨initial, next encode⟩

/-- The messages in the order of their additions to the queue. -/
def queued (trace : List (Output T × OutputEvent T)) : List T :=
  trace.filterMap fun e => match e.2 with
    | .add w => e.1.sending.lookup w
    | _ => none

theorem queued_add {s : Output T} {w : WorkerId} {msg : T} (h : s.sending.lookup w = some msg) :
    queued [(s, .add w)] = [msg] := by simp [queued, h]

/-! ## What is left of the queue -/

theorem remaining_of_get {s : Output T} {id : BufferId} {b : ByteBuffer} (h : s.buffers[id]? = some b) :
    s.remaining id = b.remaining := by rw [remaining, h, Option.elim_some]

theorem pending_cons {s : Output T} {top : BufferId} {queue : List BufferId}
    (h : s.writeQueue = top :: queue) : s.pending = s.remaining top ++ queue.flatMap s.remaining := by
  rw [pending, h, List.flatMap_cons]

theorem flatMap_remaining_congr {s s' : Output T} {queue : List BufferId}
    (h : ∀ id ∈ queue, s'.buffers[id]? = s.buffers[id]?) :
    queue.flatMap s'.remaining = queue.flatMap s.remaining :=
  List.flatMap_congr fun id hid => by rw [remaining, remaining, h id hid]

/-- What the selector thread knows of the head of the queue, where it stands. -/
def PhaseOk (s : Output T) : WritePhase → Prop
  | .outside | .test | .last => True
  | .peek => s.writeQueue ≠ []
  | .write top | .check top => ∃ queue, s.writeQueue = top :: queue
  | .remove => ∃ top queue, s.writeQueue = top :: queue ∧ s.remaining top = []
  | .threw => False

/-- The buffers of the queue are different ones of the heap, and only workers change the queue
elsewhere than at its head. -/
structure Sound (s : Output T) : Prop where
  allocated : ∀ id ∈ s.writeQueue, id < s.buffers.length
  nodup : s.writeQueue.Nodup
  phase : s.PhaseOk s.phase

/-- The stream that the channel got and will get. -/
def stream (s : Output T) : Bytes := s.written ++ s.pending

theorem PhaseOk.grow {s s' : Output T} {phase : WritePhase} (h : s.PhaseOk phase)
    (hq : ∃ new, s'.writeQueue = s.writeQueue ++ new)
    (hb : ∀ id ∈ s.writeQueue, s'.buffers[id]? = s.buffers[id]?) : s'.PhaseOk phase := by
  -- What it knows stays when buffers are only added, and only at the end of the queue.
  obtain ⟨new, hq⟩ := hq
  cases phase with
  | outside | test | last => trivial
  | peek =>
    intro hnil
    rw [hq, List.append_eq_nil_iff] at hnil
    exact h hnil.1
  | write top | check top =>
    obtain ⟨queue, hqueue⟩ := h
    exact ⟨queue ++ new, by rw [hq, hqueue, List.cons_append]⟩
  | remove =>
    obtain ⟨top, queue, hqueue, hrem⟩ := h
    refine ⟨top, queue ++ new, by rw [hq, hqueue, List.cons_append], ?_⟩
    rw [remaining, hb top (hqueue ▸ List.mem_cons_self)]
    exact hrem
  | threw => exact h

theorem Sound.setPhase {s : Output T} (h : s.Sound) {phase : WritePhase} (hp : s.PhaseOk phase) :
    (s.setPhase phase).Sound :=
  ⟨h.allocated, h.nodup, hp.grow ⟨[], (List.append_nil _).symm⟩ fun _ _ => rfl⟩

/-! ## The steps keep the stream -/

theorem Sound.send {s s' : Output T} (h : s.Sound) {w : WorkerId} {msg : T}
    (hs : s.send w msg = some s') : s'.Sound ∧ s'.stream = s.stream := by
  unfold Output.send at hs
  split at hs
  · cases hs
  · cases hs
    split
    · exact ⟨⟨h.allocated, h.nodup, h.phase.grow ⟨[], (List.append_nil _).symm⟩ fun _ _ => rfl⟩, rfl⟩
    · exact ⟨h, rfl⟩

theorem Sound.add {encode : T → Bytes} {s s' : Output T} (h : s.Sound) {w : WorkerId}
    (hs : s.add encode w = some s') :
    s'.Sound ∧ ∃ msg, s.sending.lookup w = some msg ∧ s'.stream = s.stream ++ encode msg := by
  obtain ⟨msg, hmsg, rfl⟩ := Option.map_eq_some_iff.mp hs
  have hold : ∀ id ∈ s.writeQueue, (s.buffers ++ [.wrap (encode msg)])[id]? = s.buffers[id]? :=
    fun id hid => List.getElem?_append_left (h.allocated id hid)
  refine ⟨⟨fun id hid => ?_, ?_, h.phase.grow ⟨_, rfl⟩ hold⟩, msg, hmsg, ?_⟩
  · rw [List.length_append, List.length_singleton]
    obtain hid | hid := List.mem_append.mp hid
    · exact Nat.lt_succ_of_lt (h.allocated id hid)
    · rw [List.mem_singleton.mp hid]
      exact Nat.lt_succ_self _
  · refine List.nodup_append.mpr ⟨h.nodup, List.nodup_singleton _, fun id hid new hnew => ?_⟩
    rw [List.mem_singleton.mp hnew]
    exact Nat.ne_of_lt (h.allocated id hid)
  · have hnew : (s.buffers ++ [.wrap (encode msg)])[s.buffers.length]? = some (.wrap (encode msg)) :=
      List.getElem?_concat_length
    rw [stream, stream, pending, pending, List.flatMap_append, flatMap_remaining_congr hold,
      List.flatMap_singleton, remaining_of_get hnew, ByteBuffer.remaining_wrap, List.append_assoc]

theorem write_cases {s s' : Output T} {n : Nat} (hs : s.write n = some s') :
    ∃ top b, ∃ hn : n ≤ b.remaining.length, s.phase = .write top ∧ s.buffers[top]? = some b ∧
      s'.buffers = s.buffers.set top (b.advance n hn) ∧ s'.writeQueue = s.writeQueue ∧
      s'.written = s.written ++ b.remaining.take n ∧ s'.phase = .check top := by
  unfold Output.write at hs
  split at hs
  · next top hphase =>
    obtain ⟨b, hb, hs⟩ := Option.bind_eq_some_iff.mp hs
    split at hs
    · next hn =>
      split at hs
      · cases hs
        exact ⟨top, b, hn, hphase, hb, rfl, rfl, rfl, rfl⟩
      · cases hs
    · cases hs
  · cases hs

theorem Sound.write {s s' : Output T} (h : s.Sound) {n : Nat} (hs : s.write n = some s') :
    s'.Sound ∧ s'.stream = s.stream := by
  -- The bytes go over from the head of the queue to the channel.
  obtain ⟨top, b, hn, hphase, hb, hbuffers, hsame, hwritten, hphase'⟩ := write_cases hs
  have hp := h.phase
  rw [hphase] at hp
  obtain ⟨queue, hqueue⟩ := hp
  have hnodup := List.nodup_cons.mp (hqueue ▸ h.nodup)
  have hlt : top < s.buffers.length := h.allocated top (hqueue ▸ List.mem_cons_self)
  have htop : s'.buffers[top]? = some (b.advance n hn) := by
    rw [hbuffers, List.getElem?_set_self hlt]
  have hrest : ∀ id ∈ queue, s'.buffers[id]? = s.buffers[id]? := by
    intro id hid
    rw [hbuffers]
    refine List.getElem?_set_ne ?_
    rintro rfl
    exact hnodup.1 hid
  refine ⟨⟨fun id hid => ?_, hsame ▸ h.nodup, ?_⟩, ?_⟩
  · rw [hbuffers, List.length_set]
    exact h.allocated id (hsame ▸ hid)
  · rw [hphase']
    exact ⟨queue, hsame.trans hqueue⟩
  · rw [stream, stream, pending_cons (hsame.trans hqueue), pending_cons hqueue,
      flatMap_remaining_congr hrest, remaining_of_get htop, remaining_of_get hb,
      ByteBuffer.remaining_advance, hwritten, List.append_assoc, ← List.append_assoc (List.take n _),
      List.take_append_drop]

theorem Sound.check {s s' : Output T} (h : s.Sound) (hs : s.check = some s') :
    s'.Sound ∧ s'.stream = s.stream := by
  unfold Output.check at hs
  split at hs
  · next top hphase =>
    obtain ⟨b, hb, rfl⟩ := Option.map_eq_some_iff.mp hs
    have hp := h.phase
    rw [hphase] at hp
    obtain ⟨queue, hqueue⟩ := hp
    refine ⟨h.setPhase ?_, rfl⟩
    split
    · trivial
    · next hrem =>
      refine ⟨top, queue, hqueue, ?_⟩
      rw [remaining_of_get hb, ByteBuffer.hasRemaining_eq_false (Bool.not_eq_true _ ▸ hrem)]
  · cases hs

theorem Sound.remove {s s' : Output T} (h : s.Sound) (hs : s.remove = some s') :
    s'.Sound ∧ s'.stream = s.stream := by
  -- What is removed is the buffer that was peeked at, and nothing of it is left.
  unfold Output.remove at hs
  split at hs
  · next hphase =>
    have hp := h.phase
    rw [hphase] at hp
    obtain ⟨top, queue, hqueue, hrem⟩ := hp
    simp only [hqueue] at hs
    cases hs
    refine ⟨⟨fun id hid => h.allocated id ?_, ?_, trivial⟩, ?_⟩
    · rw [hqueue]
      exact List.mem_cons_of_mem _ hid
    · exact (List.nodup_cons.mp (hqueue ▸ h.nodup)).2
    · rw [stream, stream, pending_cons hqueue, hrem, List.nil_append]
      rfl
  · cases hs

theorem Sound.next {encode : T → Bytes} {s s' : Output T} {e : OutputEvent T} (h : s.Sound)
    (hs : s.next encode e = some s') :
    s'.Sound ∧ s'.stream = s.stream ++ (queued [(s, e)]).flatMap encode := by
  have hkeep : s'.Sound ∧ s'.stream = s.stream → queued [(s, e)] = [] →
      s'.Sound ∧ s'.stream = s.stream ++ (queued [(s, e)]).flatMap encode := by
    rintro ⟨hsound, hstream⟩ hnone
    rw [hnone, List.flatMap_nil, List.append_nil]
    exact ⟨hsound, hstream⟩
  cases e with
  | send w msg => exact hkeep (h.send hs) rfl
  | add w =>
    obtain ⟨hsound, msg, hmsg, hstream⟩ := h.add hs
    refine ⟨hsound, ?_⟩
    rw [hstream, queued_add hmsg, List.flatMap_singleton]
  | close =>
    cases hs
    exact hkeep ⟨⟨h.allocated, h.nodup, h.phase.grow ⟨[], (List.append_nil _).symm⟩ fun _ _ => rfl⟩,
      rfl⟩ rfl
  | continueWrite =>
    simp only [Output.next, Output.continueWrite] at hs
    split at hs
    · cases hs
      exact hkeep ⟨h.setPhase trivial, rfl⟩ rfl
    · cases hs
  | test =>
    simp only [Output.next, Output.test] at hs
    split at hs
    · cases hs
      refine hkeep ⟨h.setPhase ?_, rfl⟩ rfl
      split
      · trivial
      · next hne => simpa [PhaseOk] using hne
    · cases hs
  | peek =>
    simp only [Output.next, Output.peek] at hs
    split at hs
    · next hphase =>
      cases hs
      have hp := h.phase
      rw [hphase] at hp
      refine hkeep ⟨h.setPhase ?_, rfl⟩ rfl
      split
      · next hnil => exact absurd hnil hp
      · next top queue hqueue => exact ⟨queue, hqueue⟩
    · cases hs
  | write n => exact hkeep (h.write hs) rfl
  | check => exact hkeep (h.check hs) rfl
  | remove => exact hkeep (h.remove hs) rfl
  | last shouldTerminate =>
    simp only [Output.next, Output.last] at hs
    split at hs
    · cases hs
      exact hkeep ⟨⟨h.allocated, h.nodup, trivial⟩, rfl⟩ rfl
    · cases hs

theorem sound_initial : Sound (initial : Output T) where
  allocated id hid := by cases hid
  nodup := List.nodup_nil
  phase := trivial

theorem stream_run {encode : T → Bytes} {trace : List (Output T × OutputEvent T)} {s : Output T}
    (h : (runs encode).Run trace s) : s.Sound ∧ s.stream = (queued trace).flatMap encode := by
  induction h with
  | nil => exact ⟨sound_initial, rfl⟩
  | @snoc trace s e s' hr hs ih =>
    obtain ⟨hsound, hstream⟩ := ih.1.next hs
    refine ⟨hsound, ?_⟩
    rw [hstream, ih.2, ← List.flatMap_append, queued, queued, queued, List.filterMap_append]

/-- In every run, the accepted bytes and what remains of the queue are the messages in the order of
their additions. -/
theorem stream_intact {encode : T → Bytes} {trace : List (Output T × OutputEvent T)} {s : Output T}
    (h : (runs encode).Run trace s) : s.written ++ s.pending = (queued trace).flatMap encode :=
  (stream_run h).2

/-! ## The turns of the reactor -/

/-- Several steps of the selector thread. -/
def steps (encode : T → Bytes) (s : Output T) (es : List (OutputEvent T)) : Option (Output T) :=
  es.foldlM (next encode) s

/-- The handler as the reactor has it: a queue of what is left of each buffer. -/
structure Shows (s : Output T) (h : NonBlockingConnectionHandler) : Prop where
  isOpen : h.isOpen = s.isOpen
  writeQueue : h.writeQueue = s.writeQueue.map s.remaining
  written : h.written = s.written

/-- Where the selector thread stands, here and in the reactor. -/
inductive SamePlace (c : ConnectionId) (ready : List Ready) : WritePhase → SelectorPhase → Prop
  | loop : SamePlace c ready .test (.write c ready)
  | left : SamePlace c ready .last (.finish c ready)
  | returned : SamePlace c ready .outside (.keys ready)

theorem map_remaining_congr {s s' : Output T} {queue : List BufferId}
    (h : ∀ id ∈ queue, s'.buffers[id]? = s.buffers[id]?) :
    queue.map s'.remaining = queue.map s.remaining :=
  List.map_congr_left fun id hid => by rw [remaining, remaining, h id hid]

theorem Shows.add {encode : T → Bytes} {s s' : Output T} {x : NonBlockingConnectionHandler}
    (hx : s.Shows x) (h : s.Sound) {w : WorkerId} (hs : s.add encode w = some s') :
    ∃ msg, s.sending.lookup w = some msg ∧
      s'.Shows { x with writeQueue := x.writeQueue ++ [encode msg] } := by
  obtain ⟨msg, hmsg, rfl⟩ := Option.map_eq_some_iff.mp hs
  refine ⟨msg, hmsg, hx.isOpen, ?_, hx.written⟩
  have hnew : (s.buffers ++ [.wrap (encode msg)])[s.buffers.length]? = some (.wrap (encode msg)) :=
    List.getElem?_concat_length
  rw [List.map_append, List.map_singleton, remaining_of_get hnew, ByteBuffer.remaining_wrap,
    map_remaining_congr (s := s) fun id hid => List.getElem?_append_left (h.allocated id hid)]
  exact congrArg (· ++ _) hx.writeQueue

/-- After a write of the head of the queue. -/
def wrote (s : Output T) (top : BufferId) (b : ByteBuffer) {n : Nat} (hn : n ≤ b.remaining.length) :
    Output T :=
  { s with
    buffers := s.buffers.set top (b.advance n hn)
    written := s.written ++ b.remaining.take n
    phase := .check top }

section Turn

variable {s : Output T} {top : BufferId} {queue : List BufferId} {b : ByteBuffer} {n : Nat}

theorem steps_write (encode : T → Bytes) (hphase : s.phase = .test) (hqueue : s.writeQueue = top :: queue)
    (hb : s.buffers[top]? = some b) (hopen : s.isOpen = true) (hn : n ≤ b.remaining.length) :
    s.steps encode [.test, .peek, .write n, .check] =
      some ((s.wrote top b hn).setPhase (if n < b.remaining.length then .outside else .remove)) := by
  have htop : (s.wrote top b hn).buffers[top]? = some (b.advance n hn) :=
    List.getElem?_set_self (List.getElem?_eq_some_iff.mp hb).1
  have hcheck : (s.wrote top b hn).check =
      some ((s.wrote top b hn).setPhase (if n < b.remaining.length then .outside else .remove)) := by
    show ((s.wrote top b hn).buffers[top]?).map _ = _
    rw [htop, Option.map_some, ByteBuffer.hasRemaining_advance]
    simp only [decide_eq_true_eq]
  have htest : s.test = some (s.setPhase .peek) := by
    rw [Output.test, if_pos hphase, hqueue]
    rfl
  have hpeek : (s.setPhase .peek).peek = some (s.setPhase (.write top)) := by
    rw [Output.peek, if_pos (phase_setPhase s _), show (s.setPhase .peek).writeQueue = top :: queue from hqueue]
    rfl
  have hwrite : (s.setPhase (.write top)).write n = some (s.wrote top b hn) := by
    show ((s.buffers[top]?).bind _) = _
    rw [hb, Option.bind_some, dif_pos hn, if_pos (show (s.setPhase (.write top)).isOpen = true from hopen)]
    rfl
  simp only [steps, List.foldlM_cons, List.foldlM_nil, next, htest, hpeek, hwrite, hcheck,
    Option.bind_eq_bind, Option.bind_some, Option.pure_def]

theorem remaining_wrote (h : s.Sound) (hqueue : s.writeQueue = top :: queue)
    (hb : s.buffers[top]? = some b) (hn : n ≤ b.remaining.length) :
    (s.wrote top b hn).remaining top = b.remaining.drop n ∧
      queue.map (s.wrote top b hn).remaining = queue.map s.remaining := by
  have hlt := (List.getElem?_eq_some_iff.mp hb).1
  constructor
  · rw [remaining_of_get (List.getElem?_set_self hlt), ByteBuffer.remaining_advance]
  · refine map_remaining_congr fun id hid => List.getElem?_set_ne ?_
    rintro rfl
    exact (List.nodup_cons.mp (hqueue ▸ h.nodup)).1 hid

end Turn

theorem Shows.turn (encode : T → Bytes) {s : Output T} {x : NonBlockingConnectionHandler}
    (hx : s.Shows x) (h : s.Sound) (hphase : s.phase = .test) {r r' : Reactor} {c : ConnectionId}
    {ready : List Ready} (hsel : r.selector = .write c ready) (hc : r.handlers.lookup c = some x)
    {n : Nat} (hr : r.continueWrite (.accepted n) = some r') :
    ∃ es s' x', s.steps encode es = some s' ∧ r'.handlers.lookup c = some x' ∧ s'.Shows x' ∧
      SamePlace c ready s'.phase r'.selector := by
  simp only [Reactor.continueWrite, hsel, hc, Option.bind_some, hx.writeQueue] at hr
  cases hqueue : s.writeQueue with
  | nil =>
    rw [hqueue] at hr
    cases hr
    refine ⟨[.test], s.setPhase .last, x, ?_, hc, ⟨hx.isOpen, hx.writeQueue, hx.written⟩, .left⟩
    simp [steps, next, Output.test, hphase, hqueue]
  | cons top queue =>
    have hlt : top < s.buffers.length := h.allocated top (hqueue ▸ List.mem_cons_self)
    obtain ⟨b, hb⟩ : ∃ b, s.buffers[top]? = some b := ⟨_, List.getElem?_eq_getElem hlt⟩
    rw [hqueue, List.map_cons, remaining_of_get hb] at hr
    dsimp only at hr
    split at hr
    · cases hr
    next hpossible =>
    simp only [hx.isOpen, Bool.or_eq_true, not_or, Bool.not_eq_true', Bool.not_eq_false,
      decide_eq_true_eq, Nat.not_lt] at hpossible
    obtain ⟨hopen, hn⟩ := hpossible
    have hsteps := steps_write encode hphase hqueue hb hopen hn
    obtain ⟨htop, hrest⟩ := remaining_wrote h hqueue hb hn
    have hlookup : ∀ y : NonBlockingConnectionHandler, (r.setHandler c y).handlers.lookup c = some y :=
      fun y => by rw [Reactor.lookup_setHandler, if_pos rfl]
    split at hr
    · next hpart =>
      cases hr
      rw [if_pos hpart] at hsteps
      refine ⟨_, _, _, hsteps, hlookup _, ⟨hx.isOpen, ?_, ?_⟩, .returned⟩
      · show _ = s.writeQueue.map (s.wrote top b hn).remaining
        rw [hqueue, List.map_cons, htop, hrest]
      · exact congrArg (· ++ b.remaining.take n) hx.written
    · next hfull =>
      cases hr
      rw [if_neg hfull] at hsteps
      have hremove : ((s.wrote top b hn).setPhase .remove).remove =
          some { s.wrote top b hn with writeQueue := queue, phase := .test } := by
        rw [Output.remove, if_pos (phase_setPhase _ _),
          show ((s.wrote top b hn).setPhase .remove).writeQueue = top :: queue from hqueue]
        rfl
      refine ⟨[.test, .peek, .write n, .check] ++ [.remove],
        { s.wrote top b hn with writeQueue := queue, phase := .test }, _, ?_, hlookup _,
        ⟨hx.isOpen, hrest.symm, ?_⟩, hsel ▸ .loop⟩
      · rw [steps, List.foldlM_append, show List.foldlM _ s _ = _ from hsteps]
        exact hremove
      · have hall : b.remaining.take n = b.remaining := List.take_of_length_le (Nat.not_lt.mp hfull)
        show x.written ++ b.remaining = s.written ++ b.remaining.take n
        rw [hall, hx.written]

/-- The first message is written in two rounds. The second is queued before the first is removed. -/
def twoRounds : List (OutputEvent StompFrame) :=
  [.send 7 (.ofStrings "HELLO" [] ""), .add 7, .continueWrite, .test, .peek, .write 3, .check,
    .continueWrite, .test, .peek, .write 5, .check, .send 8 (.ofStrings "BYE" [] ""), .add 8]

theorem stream_intact_twoRounds : ∃ trace s, (runs StompMessageEncoderDecoder.encode).Run trace s ∧
    s.phase = .remove ∧ s.writeQueue = [0, 1] ∧
    (queued trace).map (·.command) = ["HELLO".toList, "BYE".toList] ∧
    s.written ++ s.pending = (queued trace).flatMap StompMessageEncoderDecoder.encode := by
  obtain ⟨trace, s, hr, hs⟩ := System.exists_run (M := runs StompMessageEncoderDecoder.encode) twoRounds
    (fun trace s => decide ((s.phase = .remove ∧ s.writeQueue = [0, 1]) ∧
      (queued trace).map (·.command) = ["HELLO".toList, "BYE".toList])) (by decide +kernel)
  obtain ⟨⟨hphase, hqueue⟩, hqueued⟩ := of_decide_eq_true hs
  exact ⟨trace, s, hr, hphase, hqueue, hqueued, stream_intact hr⟩

/-- `peek` and `remove` find the queue non-empty. -/
theorem never_throws {encode : T → Bytes} {trace : List (Output T × OutputEvent T)} {s : Output T}
    (h : (runs encode).Run trace s) : s.phase ≠ .threw := by
  have hp := (stream_run h).1.phase
  intro hphase
  rw [hphase] at hp
  exact hp

end Output

end Stomp
