import Mathlib.Data.Finset.Erase
import Mathlib.Data.Finset.Insert
import Stomp.Base.Run
import Stomp.Base.Table

/-!
# The pool of the reactor

`playingNow` holds the actors that have a task in the executor. The other tasks of such an actor
wait in its queue. The methods that are synchronized on the actor are one step each.
-/

namespace Stomp

/-- The pool, and the tasks that it gave to its executor: each runs its runnable and calls
`complete` after it. -/
structure ActorThreadPool (A R : Type) where
  acts : Table A (List R)
  playingNow : Finset A
  /-- Given to the executor, with no thread yet. -/
  scheduled : List (A × R)
  running : List (A × R)
  /-- The runnable has ended, `complete` comes next. -/
  completing : List (A × R)

inductive ActorThreadPoolEvent (A R : Type) where
  | submit (act : A) (r : R)
  /-- A thread of the executor takes one of its tasks. -/
  | start (i : Nat)
  /-- A runnable returns, or it throws. -/
  | finish (i : Nat) (threw : Bool)
  | complete (i : Nat)
  /-- An actor that nothing refers to leaves the weak map. -/
  | collect (act : A)

namespace ActorThreadPool

variable {A R : Type} [DecidableEq A]

def initial : ActorThreadPool A R := ⟨∅, ∅, [], [], []⟩

def pendingRunnablesOf (s : ActorThreadPool A R) (act : A) : List R × ActorThreadPool A R :=
  match s.acts.lookup act with
  | some pendingRunnables => (pendingRunnables, s)
  | none => ([], { s with acts := s.acts.insert act [] })

def execute (s : ActorThreadPool A R) (r : R) (act : A) : ActorThreadPool A R :=
  { s with scheduled := s.scheduled ++ [(act, r)] }

def submit (s : ActorThreadPool A R) (act : A) (r : R) : ActorThreadPool A R :=
  if act ∉ s.playingNow then
    execute { s with playingNow := insert act s.playingNow } r act
  else
    let (pending, s) := s.pendingRunnablesOf act
    { s with acts := s.acts.insert act (pending ++ [r]) }

def complete (s : ActorThreadPool A R) (act : A) : ActorThreadPool A R :=
  let (pending, s) := s.pendingRunnablesOf act
  match pending with
  | [] => { s with playingNow := s.playingNow.erase act }
  | r :: pending => execute { s with acts := s.acts.insert act pending } r act

/-- The tasks in the executor, up to the end of their `complete`. -/
def tasks (s : ActorThreadPool A R) : List (A × R) := s.scheduled ++ s.running ++ s.completing

/-- A step of a pool with this number of threads. -/
def step (threads : Nat) (s : ActorThreadPool A R) :
    ActorThreadPoolEvent A R → Option (ActorThreadPool A R)
  | .submit act r => some (s.submit act r)
  | .start i =>
    if s.running.length + s.completing.length < threads then
      (s.scheduled[i]?).map fun t =>
        { s with scheduled := s.scheduled.eraseIdx i, running := s.running ++ [t] }
    else none
  -- `complete` is in the `finally` block
  | .finish i _ => (s.running[i]?).map fun t =>
      { s with running := s.running.eraseIdx i, completing := s.completing ++ [t] }
  | .complete i => (s.completing[i]?).map fun t =>
      complete { s with completing := s.completing.eraseIdx i } t.1
  | .collect act =>
    if act ∈ s.playingNow ∨ ∃ t ∈ s.tasks, t.1 = act then none
    else some { s with acts := s.acts.erase act }

def runs (A R : Type) [DecidableEq A] (threads : Nat) :
    System (ActorThreadPool A R) (ActorThreadPoolEvent A R) := ⟨initial, step threads⟩

/-! ## What one actor sees -/

/-- The runnables of one actor, in order. -/
def of (act : A) (l : List (A × R)) : List R := (l.filter fun t => t.1 = act).map (·.2)

/-- The queue of an actor. -/
def pending (s : ActorThreadPool A R) (act : A) : List R := (s.acts.lookup act).getD []

section Of

variable {act : A} {l : List (A × R)}

@[simp]
theorem of_nil : of act ([] : List (A × R)) = [] := rfl

@[simp]
theorem of_append (l' : List (A × R)) : of act (l ++ l') = of act l ++ of act l' := by simp [of]

@[simp]
theorem of_cons_self (r : R) : of act ((act, r) :: l) = r :: of act l := by simp [of]

theorem of_single (r : R) : of act [(act, r)] = [r] := of_cons_self r

theorem of_cons_ne {a : A} (r : R) (h : a ≠ act) : of act ((a, r) :: l) = of act l := by
  simp [of, h]

theorem of_single_ne {a : A} (r : R) (h : a ≠ act) : of act [(a, r)] = [] := of_cons_ne r h

omit [DecidableEq A] in
theorem split_at {i : Nat} {t : A × R} (h : l[i]? = some t) :
    ∃ pre post, l = pre ++ t :: post ∧ l.eraseIdx i = pre ++ post := by
  obtain ⟨hi, rfl⟩ := List.getElem?_eq_some_iff.mp h
  refine ⟨l.take i, l.drop (i + 1), ?_, List.eraseIdx_eq_take_drop_succ l i⟩
  rw [List.getElem_cons_drop, List.take_append_drop]

theorem of_eraseIdx_ne {i : Nat} {a : A} {r : R} (h : l[i]? = some (a, r)) (ha : a ≠ act) :
    of act (l.eraseIdx i) = of act l := by
  obtain ⟨pre, post, hl, he⟩ := split_at h
  rw [he, hl, of_append, of_append, of_cons_ne r ha]

theorem of_eraseIdx_self {i : Nat} {r : R} (h : l[i]? = some (act, r)) (hone : (of act l).length ≤ 1) :
    of act l = [r] ∧ of act (l.eraseIdx i) = [] := by
  obtain ⟨pre, post, hl, he⟩ := split_at h
  rw [hl, of_append, of_cons_self, List.length_append, List.length_cons] at hone
  have hpre : of act pre = [] := List.length_eq_zero_iff.mp (by omega)
  have hpost : of act post = [] := List.length_eq_zero_iff.mp (by omega)
  constructor
  · rw [hl, of_append, of_cons_self, hpre, hpost, List.nil_append]
  · rw [he, of_append, hpre, hpost, List.nil_append]

theorem length_move {l' : List (A × R)} {i : Nat} {t : A × R} (h : l[i]? = some t) :
    (of act (l.eraseIdx i)).length + (of act (l' ++ [t])).length =
      (of act l).length + (of act l').length := by
  obtain ⟨pre, post, hl, he⟩ := split_at h
  have hcons : of act (t :: post) = of act [t] ++ of act post := of_append (l := [t]) post
  rw [he, hl, of_append, of_append, of_append, hcons]
  simp only [List.length_append]
  omega

end Of

/-! ## The calls -/

theorem pendingRunnablesOf_fst (s : ActorThreadPool A R) (act : A) :
    (s.pendingRunnablesOf act).1 = s.pending act := by
  unfold pendingRunnablesOf pending
  cases s.acts.lookup act <;> rfl

theorem pendingRunnablesOf_snd (s : ActorThreadPool A R) (act : A) :
    ∃ acts, (s.pendingRunnablesOf act).2 = { s with acts := acts } ∧
      ∀ a, (acts.lookup a).getD [] = s.pending a := by
  unfold pendingRunnablesOf pending
  cases h : s.acts.lookup act with
  | some queue => exact ⟨s.acts, rfl, fun a => rfl⟩
  | none =>
    refine ⟨s.acts.insert act [], rfl, fun a => ?_⟩
    rw [Table.lookup_insert_if]
    split_ifs with ha
    · rw [ha, h]; rfl
    · rfl

theorem pending_insert (acts : Table A (List R)) (act a : A) (queue : List R) :
    ((acts.insert act queue).lookup a).getD [] =
      if a = act then queue else (acts.lookup a).getD [] := by
  rw [Table.lookup_insert_if]
  split_ifs <;> rfl

theorem submit_free {s : ActorThreadPool A R} {act : A} (r : R) (h : act ∉ s.playingNow) :
    s.submit act r =
      { s with playingNow := insert act s.playingNow, scheduled := s.scheduled ++ [(act, r)] } := by
  unfold submit
  rw [if_pos h]
  rfl

theorem submit_playing {s : ActorThreadPool A R} {act : A} (r : R) (h : act ∈ s.playingNow) :
    ∃ acts, s.submit act r = { s with acts := acts } ∧
      ∀ a, (acts.lookup a).getD [] = if a = act then s.pending act ++ [r] else s.pending a := by
  obtain ⟨acts, hsnd, hacts⟩ := s.pendingRunnablesOf_snd act
  unfold submit
  rw [if_neg (not_not.mpr h)]
  refine ⟨acts.insert act (s.pending act ++ [r]), ?_, fun a => ?_⟩
  · simp only [hsnd, pendingRunnablesOf_fst]
  · rw [pending_insert, hacts]

theorem complete_nil {s : ActorThreadPool A R} {act : A} (h : s.pending act = []) :
    ∃ acts, s.complete act = { s with acts := acts, playingNow := s.playingNow.erase act } ∧
      ∀ a, (acts.lookup a).getD [] = s.pending a := by
  obtain ⟨acts, hsnd, hacts⟩ := s.pendingRunnablesOf_snd act
  refine ⟨acts, ?_, hacts⟩
  unfold complete
  simp only [hsnd, pendingRunnablesOf_fst, h]

theorem complete_cons {s : ActorThreadPool A R} {act : A} {r : R} {queue : List R}
    (h : s.pending act = r :: queue) :
    ∃ acts, s.complete act = { s with acts := acts, scheduled := s.scheduled ++ [(act, r)] } ∧
      ∀ a, (acts.lookup a).getD [] = if a = act then queue else s.pending a := by
  obtain ⟨acts, hsnd, hacts⟩ := s.pendingRunnablesOf_snd act
  refine ⟨acts.insert act queue, ?_, fun a => ?_⟩
  · unfold complete
    simp only [hsnd, pendingRunnablesOf_fst, h]
    rfl
  · rw [pending_insert, hacts]

/-! ## What a run did -/

abbrev PoolStep (A R : Type) := ActorThreadPool A R × ActorThreadPoolEvent A R

def submittedBy : PoolStep A R → Option (A × R)
  | (_, .submit act r) => some (act, r)
  | _ => none

/-- The task whose runnable a step starts. -/
def startedBy : PoolStep A R → Option (A × R)
  | (s, .start i) => s.scheduled[i]?
  | _ => none

/-- The task whose runnable ends in a step. -/
def finishedBy : PoolStep A R → Option (A × R)
  | (s, .finish i _) => s.running[i]?
  | _ => none

def submitted (act : A) (trace : List (PoolStep A R)) : List R := of act (trace.filterMap submittedBy)

def started (act : A) (trace : List (PoolStep A R)) : List R := of act (trace.filterMap startedBy)

def finished (act : A) (trace : List (PoolStep A R)) : List R := of act (trace.filterMap finishedBy)

/-! ## The invariant -/

/-- Where the tasks of an actor are, after it had these submitted, started and finished. -/
structure Placed (act : A) (submitted started finished : List R) (s : ActorThreadPool A R) :
    Prop where
  order : submitted = started ++ of act s.scheduled ++ s.pending act
  begun : started = finished ++ of act s.running
  one : (of act s.tasks).length = if act ∈ s.playingNow then 1 else 0
  waits : s.pending act ≠ [] → act ∈ s.playingNow

namespace Placed

variable {act : A} {before begun ended : List R} {s s' : ActorThreadPool A R}

theorem length_tasks (s : ActorThreadPool A R) (act : A) : (of act s.tasks).length =
    (of act s.scheduled).length + (of act s.running).length + (of act s.completing).length := by
  simp [tasks, Nat.add_assoc]

theorem length_le (h : Placed act before begun ended s) : (of act s.tasks).length ≤ 1 := by
  rw [h.one]
  split_ifs <;> omega

theorem submit (h : Placed act before begun ended s) (a : A) (r : R) :
    Placed act (before ++ of act [(a, r)]) begun ended (s.submit a r) := by
  by_cases hp : a ∈ s.playingNow
  · obtain ⟨acts, hs, hacts⟩ := submit_playing r hp
    rw [hs]
    have hpend : pending { s with acts } act = s.pending act ++ of act [(a, r)] := by
      rw [pending, hacts]
      split_ifs with ha
      · rw [ha, of_single]
      · rw [of_single_ne r (Ne.symm ha), List.append_nil]
    refine ⟨?_, h.begun, h.one, fun hne => ?_⟩
    · rw [hpend, h.order, List.append_assoc]
    · by_cases ha : a = act
      · exact ha ▸ hp
      · refine h.waits ?_
        rwa [hpend, of_single_ne r ha, List.append_nil] at hne
  · rw [submit_free r hp]
    by_cases ha : a = act
    · subst ha
      -- nothing of the actor is in the pool
      have hpend : s.pending a = [] := by
        by_contra hne
        exact hp (h.waits hne)
      have hone := h.one
      rw [if_neg hp, length_tasks] at hone
      have hsched : of a s.scheduled = [] := List.length_eq_zero_iff.mp (by omega)
      refine ⟨?_, h.begun, ?_, fun _ => Finset.mem_insert_self a _⟩
      · show before ++ of a [(a, r)] = begun ++ of a (s.scheduled ++ [(a, r)]) ++ s.pending a
        rw [h.order, hpend, of_append, hsched]
        simp
      · rw [length_tasks, if_pos (Finset.mem_insert_self a _), of_append, of_single, hsched]
        simp only [List.length_append, List.length_nil, List.length_singleton]
        omega
    · have hnil := of_single_ne r ha
      have hmem : act ∈ insert a s.playingNow ↔ act ∈ s.playingNow := by
        rw [Finset.mem_insert, or_iff_right (Ne.symm ha)]
      refine ⟨?_, h.begun, ?_, fun hne => hmem.mpr (h.waits hne)⟩
      · rw [of_append, hnil, List.append_nil, List.append_nil]
        exact h.order
      · rw [length_tasks, of_append, hnil, List.append_nil, ← length_tasks, h.one]
        simp only [hmem]

theorem start (h : Placed act before begun ended s) {i : Nat} {t : A × R}
    (ht : s.scheduled[i]? = some t) :
    Placed act before (begun ++ of act [t]) ended
      { s with scheduled := s.scheduled.eraseIdx i, running := s.running ++ [t] } := by
  have hmoved : (of act (tasks
      { s with scheduled := s.scheduled.eraseIdx i, running := s.running ++ [t] })).length =
        if act ∈ s.playingNow then 1 else 0 := by
    rw [← h.one, length_tasks, length_tasks, length_move ht]
  obtain ⟨a, r⟩ := t
  have hone := h.length_le
  rw [length_tasks] at hone
  by_cases ha : a = act
  · subst ha
    obtain ⟨hself, herase⟩ := of_eraseIdx_self ht (by omega)
    refine ⟨?_, ?_, hmoved, h.waits⟩
    · show before = begun ++ of a [(a, r)] ++ of a (s.scheduled.eraseIdx i) ++ s.pending a
      rw [herase, of_single, h.order, hself, List.append_nil]
    · rw [of_append, h.begun, List.append_assoc]
  · have hnil := of_single_ne r ha
    refine ⟨?_, ?_, hmoved, h.waits⟩
    · rw [of_eraseIdx_ne ht ha, hnil, List.append_nil]
      exact h.order
    · rw [of_append, hnil, List.append_nil, List.append_nil]
      exact h.begun

theorem finish (h : Placed act before begun ended s) {i : Nat} {t : A × R}
    (ht : s.running[i]? = some t) :
    Placed act before begun (ended ++ of act [t])
      { s with running := s.running.eraseIdx i, completing := s.completing ++ [t] } := by
  have hmoved : (of act (tasks
      { s with running := s.running.eraseIdx i, completing := s.completing ++ [t] })).length =
        if act ∈ s.playingNow then 1 else 0 := by
    rw [← h.one, length_tasks, length_tasks, Nat.add_assoc, length_move ht, Nat.add_assoc]
  obtain ⟨a, r⟩ := t
  have hone := h.length_le
  rw [length_tasks] at hone
  by_cases ha : a = act
  · subst ha
    obtain ⟨hself, herase⟩ := of_eraseIdx_self ht (by omega)
    refine ⟨h.order, ?_, hmoved, h.waits⟩
    rw [herase, of_single, h.begun, hself, List.append_nil]
  · have hnil := of_single_ne r ha
    refine ⟨h.order, ?_, hmoved, h.waits⟩
    rw [of_eraseIdx_ne ht ha, hnil, List.append_nil]
    exact h.begun

theorem complete (h : Placed act before begun ended s) {i : Nat} {t : A × R}
    (ht : s.completing[i]? = some t) : Placed act before begun ended
      (complete { s with completing := s.completing.eraseIdx i } t.1) := by
  obtain ⟨a, r⟩ := t
  have hone := h.length_le
  rw [length_tasks] at hone
  show Placed act before begun ended
    (ActorThreadPool.complete { s with completing := s.completing.eraseIdx i } a)
  cases hq : s.pending a with
  | nil =>
    have hempty : pending { s with completing := s.completing.eraseIdx i } a = [] := hq
    obtain ⟨acts, hs, hacts⟩ := complete_nil hempty
    rw [hs]
    have hpend : (acts.lookup act).getD [] = s.pending act := hacts act
    by_cases ha : a = act
    · subst ha
      obtain ⟨hself, herase⟩ := of_eraseIdx_self ht (by omega)
      rw [hself] at hone
      simp only [List.length_singleton] at hone
      refine ⟨?_, h.begun, ?_, fun hne => absurd (hpend.trans hq) hne⟩
      · rw [pending, hpend]
        exact h.order
      · rw [length_tasks, herase, if_neg (Finset.notMem_erase a _)]
        simp only [List.length_nil]
        omega
    · have hmem : act ∈ s.playingNow.erase a ↔ act ∈ s.playingNow := by
        rw [Finset.mem_erase, and_iff_right (Ne.symm ha)]
      refine ⟨?_, h.begun, ?_, fun hne => hmem.mpr (h.waits fun hnil => hne (hpend.trans hnil))⟩
      · rw [pending, hpend]
        exact h.order
      · have hother := h.one
        rw [length_tasks] at hother
        rw [length_tasks, of_eraseIdx_ne ht ha]
        simp only [hmem]
        exact hother
  | cons r' queue =>
    have hnext : pending { s with completing := s.completing.eraseIdx i } a = r' :: queue := hq
    obtain ⟨acts, hs, hacts⟩ := complete_cons hnext
    rw [hs]
    have hpend : (acts.lookup act).getD [] = if act = a then queue else s.pending act := hacts act
    by_cases ha : a = act
    · subst ha
      rw [if_pos rfl] at hpend
      obtain ⟨hself, herase⟩ := of_eraseIdx_self ht (by omega)
      have hplays : a ∈ s.playingNow := h.waits (by rw [hq]; exact List.cons_ne_nil _ _)
      rw [hself] at hone
      simp only [List.length_singleton] at hone
      have hsched : of a s.scheduled = [] := List.length_eq_zero_iff.mp (by omega)
      refine ⟨?_, h.begun, ?_, fun _ => hplays⟩
      · show before = begun ++ of a (s.scheduled ++ [(a, r')]) ++ (acts.lookup a).getD []
        rw [hpend, h.order, hq, of_append, of_single, hsched]
        simp
      · rw [← h.one, length_tasks, length_tasks, herase, hself, of_append, of_single]
        simp only [List.length_append, List.length_nil, List.length_singleton]
        omega
    · rw [if_neg (Ne.symm ha)] at hpend
      have hnil := of_single_ne r' ha
      refine ⟨?_, h.begun, ?_, fun hne => h.waits fun hnil => hne (hpend.trans hnil)⟩
      · rw [pending, hpend, of_append, hnil, List.append_nil]
        exact h.order
      · rw [← h.one, length_tasks, length_tasks, of_eraseIdx_ne ht ha, of_append, hnil, List.append_nil]

theorem collect (h : Placed act before begun ended s) {a : A} (ha : a ∉ s.playingNow) :
    Placed act before begun ended { s with acts := s.acts.erase a } := by
  have hpend : ((s.acts.erase a).lookup act).getD [] = s.pending act := by
    rw [Table.lookup_erase_if]
    split_ifs with hact
    · -- the queue that goes is empty
      by_contra hne
      exact ha (hact ▸ h.waits (Ne.symm hne))
    · rfl
  refine ⟨?_, h.begun, h.one, fun hne => h.waits fun hnil => hne (hpend.trans hnil)⟩
  rw [pending, hpend]
  exact h.order

theorem step {threads : Nat} {e : ActorThreadPoolEvent A R} (h : Placed act before begun ended s)
    (hs : s.step threads e = some s') :
    Placed act (before ++ of act (submittedBy (s, e)).toList)
      (begun ++ of act (startedBy (s, e)).toList) (ended ++ of act (finishedBy (s, e)).toList) s' := by
  cases e with
  | submit a r =>
    cases hs
    simpa [submittedBy, startedBy, finishedBy] using h.submit a r
  | start i =>
    simp only [ActorThreadPool.step] at hs
    split at hs
    · obtain ⟨t, ht, rfl⟩ := Option.map_eq_some_iff.mp hs
      simpa [submittedBy, startedBy, finishedBy, ht] using h.start ht
    · cases hs
  | finish i threw =>
    obtain ⟨t, ht, rfl⟩ := Option.map_eq_some_iff.mp hs
    simpa [submittedBy, startedBy, finishedBy, ht] using h.finish ht
  | complete i =>
    obtain ⟨t, ht, rfl⟩ := Option.map_eq_some_iff.mp hs
    simpa [submittedBy, startedBy, finishedBy] using h.complete ht
  | collect a =>
    simp only [ActorThreadPool.step] at hs
    split at hs
    · cases hs
    · next hfree =>
      cases hs
      simpa [submittedBy, startedBy, finishedBy] using h.collect fun hp => hfree (.inl hp)

end Placed

theorem of_filterMap_snoc (act : A) (f : PoolStep A R → Option (A × R)) (trace : List (PoolStep A R))
    (e : PoolStep A R) : of act ((trace ++ [e]).filterMap f) =
      of act (trace.filterMap f) ++ of act (f e).toList := by
  rw [List.filterMap_append, of_append]
  cases h : f e <;> simp [h]

theorem placed {threads : Nat} {trace : List (PoolStep A R)} {s : ActorThreadPool A R}
    (h : (runs A R threads).Run trace s) (act : A) :
    Placed act (submitted act trace) (started act trace) (finished act trace) s := by
  induction h with
  | nil => exact ⟨rfl, rfl, rfl, fun hne => absurd rfl hne⟩
  | snoc _ hs ih =>
    rw [submitted, started, finished, of_filterMap_snoc, of_filterMap_snoc, of_filterMap_snoc]
    exact ih.step hs

/-! ## Nothing is lost -/

/-- The executor has no task that it can start or end. -/
def Idle (threads : Nat) (s : ActorThreadPool A R) : Prop :=
  ∀ i, s.step threads (.start i) = none ∧ (∀ threw, s.step threads (.finish i threw) = none) ∧
    s.step threads (.complete i) = none

theorem Idle.tasks_nil {threads : Nat} {s : ActorThreadPool A R} (h : s.Idle threads)
    (hthreads : 0 < threads) : s.scheduled = [] ∧ s.running = [] ∧ s.completing = [] := by
  obtain ⟨hstart, hfinish, hcomplete⟩ := h 0
  have hcompleting : s.completing = [] := by
    simpa [ActorThreadPool.step] using hcomplete
  have hrunning : s.running = [] := by
    simpa [ActorThreadPool.step] using hfinish false
  have hscheduled : s.scheduled = [] := by
    simpa [ActorThreadPool.step, hcompleting, hrunning, hthreads] using hstart
  exact ⟨hscheduled, hrunning, hcompleting⟩

theorem Placed.idle {threads : Nat} {act : A} {before begun ended : List R}
    {s : ActorThreadPool A R} (h : Placed act before begun ended s) (hidle : s.Idle threads)
    (hthreads : 0 < threads) : ended = before := by
  obtain ⟨hscheduled, hrunning, hcompleting⟩ := hidle.tasks_nil hthreads
  have hfree : act ∉ s.playingNow := by
    intro hplays
    have hone := h.one
    rw [if_pos hplays, Placed.length_tasks, hscheduled, hrunning, hcompleting] at hone
    simp at hone
  have hpend : s.pending act = [] := by
    by_contra hne
    exact hfree (h.waits hne)
  rw [h.order, hpend, h.begun, hscheduled, hrunning]
  simp

/-- The tasks of an actor start in the order in which they were submitted, each once and one at a
time, and none is left behind. -/
theorem tasks_one_by_one {threads : Nat} {trace : List (PoolStep A R)} {s : ActorThreadPool A R}
    (h : (runs A R threads).Run trace s) (act : A) :
    submitted act trace = started act trace ++ of act s.scheduled ++ s.pending act ∧
      started act trace = finished act trace ++ of act s.running ∧
      (of act s.tasks).length ≤ 1 ∧
      (s.pending act ≠ [] → act ∈ s.playingNow) ∧
      (act ∈ s.playingNow ↔ (of act s.tasks).length = 1) ∧
      (0 < threads → s.Idle threads → finished act trace = submitted act trace) := by
  have hp := placed h act
  refine ⟨hp.order, hp.begun, hp.length_le, hp.waits, ?_, fun hthreads hidle => hp.idle hidle hthreads⟩
  rw [hp.one]
  split_ifs with hplays
  · exact iff_of_true hplays rfl
  · exact iff_of_false hplays (by decide)

theorem tasks_one_by_one_throw : ∃ trace s, (runs Nat Char 2).Run trace s ∧
    started 0 trace = ['a', 'b'] ∧ 0 ∈ s.playingNow ∧
    submitted 0 trace = started 0 trace ++ of 0 s.scheduled ++ s.pending 0 ∧
    (of 0 s.tasks).length ≤ 1 := by
  -- the first task throws, a task of another actor runs beside it
  obtain ⟨trace, s, hr, hp⟩ := System.exists_run (M := runs Nat Char 2)
    [.submit 0 'a', .submit 0 'b', .submit 1 'c', .submit 0 'd', .start 1, .start 0, .finish 1 true,
      .complete 0, .start 0]
    (fun trace s => started 0 trace = ['a', 'b'] ∧ 0 ∈ s.playingNow) (by decide)
  obtain ⟨hstarted, hplays⟩ := of_decide_eq_true hp
  obtain ⟨horder, -, hone, -⟩ := tasks_one_by_one hr 0
  exact ⟨trace, s, hr, hstarted, hplays, horder, hone⟩

end ActorThreadPool

end Stomp
