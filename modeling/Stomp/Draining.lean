import Stomp.Base.Rest
import Stomp.ActorThreadPool

/-!
# The pool works off its tasks

What is left for the threads of the executor is a number. Each of their steps takes one off it, and
at zero every task that was submitted has run.
-/

namespace Stomp

variable {A R : Type}

/-- The steps of the threads. -/
def ActorThreadPoolEvent.works : ActorThreadPoolEvent A R → Bool
  | .start _ | .finish _ _ | .complete _ => true
  | .submit _ _ | .collect _ => false

def ActorThreadPoolEvent.submits : ActorThreadPoolEvent A R → Bool
  | .submit _ _ => true
  | _ => false

namespace ActorThreadPool

variable [DecidableEq A] {threads : Nat} {s s' : ActorThreadPool A R}

/-- A task in a queue or with no thread yet has three steps before it, and a running one two. -/
def left (s : ActorThreadPool A R) : Nat :=
  3 * (s.acts.total List.length + s.scheduled.length) + 2 * s.running.length + s.completing.length

theorem left_complete (s : ActorThreadPool A R) (act : A) : (s.complete act).left = s.left := by
  unfold complete pendingRunnablesOf
  cases h : s.acts.lookup act with
  | none =>
    have htotal := Table.total_insert List.length s.acts act []
    rw [h] at htotal
    simp only [left]
    simp at htotal
    omega
  | some queue =>
    cases queue with
    | nil => rfl
    | cons r queue =>
      have htotal := Table.total_insert List.length s.acts act queue
      rw [h] at htotal
      simp only [left, execute]
      simp at htotal ⊢
      omega

theorem left_step {e : ActorThreadPoolEvent A R} (hwaits : ∀ act, s.pending act ≠ [] → act ∈ s.playingNow)
    (hsubmits : e.submits = false) (h : s.step threads e = some s') :
    e.works.toNat + s'.left = s.left := by
  cases e with
  | submit act r => cases hsubmits
  | start i =>
    obtain ⟨-, h⟩ := Option.ite_none_right_eq_some.mp h
    obtain ⟨t, ht, rfl⟩ := Option.map_eq_some_iff.mp h
    have hi := (List.getElem?_eq_some_iff.mp ht).1
    have hlength := List.length_eraseIdx_of_lt hi
    simp [left, ActorThreadPoolEvent.works]
    omega
  | finish i threw =>
    obtain ⟨t, ht, rfl⟩ := Option.map_eq_some_iff.mp h
    have hi := (List.getElem?_eq_some_iff.mp ht).1
    have hlength := List.length_eraseIdx_of_lt hi
    simp [left, ActorThreadPoolEvent.works]
    omega
  | complete i =>
    obtain ⟨t, ht, rfl⟩ := Option.map_eq_some_iff.mp h
    have hi := (List.getElem?_eq_some_iff.mp ht).1
    have hlength := List.length_eraseIdx_of_lt hi
    rw [left_complete]
    simp [left, ActorThreadPoolEvent.works]
    omega
  | collect act =>
    obtain ⟨hfree, h⟩ := Option.ite_none_left_eq_some.mp h
    cases h
    -- an actor with a queue has a task in the executor
    have hempty : s.pending act = [] := by
      by_contra hne
      exact hfree (.inl (hwaits act hne))
    have htotal := Table.total_erase List.length s.acts act
    unfold pending at hempty
    cases hq : s.acts.lookup act with
    | none => simp_all [left, ActorThreadPoolEvent.works]
    | some queue => simp_all [left, ActorThreadPoolEvent.works]

theorem exists_work (hwaits : ∀ act, s.pending act ≠ [] → act ∈ s.playingNow)
    (hplays : ∀ act, act ∈ s.playingNow → (of act s.tasks).length = 1) (hthreads : 0 < threads)
    (hleft : s.left ≠ 0) : ∃ e : ActorThreadPoolEvent A R, e.works = true ∧ s.step threads e ≠ none := by
  by_contra hno
  push Not at hno
  have hidle : s.Idle threads :=
    fun i => ⟨hno (.start i) rfl, fun threw => hno (.finish i threw) rfl, hno (.complete i) rfl⟩
  obtain ⟨hscheduled, hrunning, hcompleting⟩ := hidle.tasks_nil hthreads
  have hqueues : s.acts.total List.length = 0 := by
    refine Table.total_eq_zero fun act queue hq => ?_
    by_contra hne
    have hone := hplays act (hwaits act (by simpa [pending, hq] using hne))
    simp [tasks, hscheduled, hrunning, hcompleting] at hone
  apply hleft
  simp [left, hscheduled, hrunning, hcompleting, hqueues]

theorem submitted_append {post : List (PoolStep A R)} (h : ∀ e ∈ post, e.2.submits = false) (act : A)
    (trace : List (PoolStep A R)) : submitted act (trace ++ post) = submitted act trace := by
  have hnone : post.filterMap submittedBy = [] := by
    rw [List.filterMap_eq_nil_iff]
    rintro ⟨s, e⟩ he
    cases e with
    | submit act r => exact absurd (h _ he) (by simp [ActorThreadPoolEvent.submits])
    | start _ | finish _ _ | complete _ | collect _ => rfl
  unfold submitted
  rw [List.filterMap_append, hnone, List.append_nil]

theorem idle_of_left (h : s.left = 0) : s.Idle threads := by
  unfold left at h
  have hscheduled : s.scheduled = [] := List.length_eq_zero_iff.mp (by omega)
  have hrunning : s.running = [] := List.length_eq_zero_iff.mp (by omega)
  have hcompleting : s.completing = [] := List.length_eq_zero_iff.mp (by omega)
  intro i
  simp [step, hscheduled, hrunning, hcompleting]

/-- Without new tasks the threads of the pool take as many steps as are left, in every order, and can
go on until then. After them every task that was submitted has run. -/
theorem drains {trace : List (PoolStep A R)} (hthreads : 0 < threads)
    (h : (runs A R threads).Run trace s) :
    (s.left ≠ 0 → ∃ e : ActorThreadPoolEvent A R, e.works = true ∧ s.step threads e ≠ none) ∧
    ∀ post s', ((runs A R threads).startIn s).Run post s' → (∀ e ∈ post, e.2.submits = false) →
      post.countP (fun e => e.2.works) + s'.left = s.left ∧
      (s'.left = 0 → ∀ act, finished act (trace ++ post) = submitted act trace) := by
  have hwaits : ∀ {trace s}, (runs A R threads).Run trace s →
      ∀ act, s.pending act ≠ [] → act ∈ s.playingNow := fun h act => (placed h act).waits
  constructor
  · intro hleft
    refine exists_work (hwaits h) (fun act hplays => ?_) hthreads hleft
    rw [(placed h act).one, if_pos hplays]
  · intro post s' hp hsubmits
    constructor
    · induction hp with
      | nil =>
        rw [List.countP_nil, Nat.zero_add]
        rfl
      | @snoc post t e s' hp hs ih =>
        have ih := ih fun e he => hsubmits e (List.mem_append_left _ he)
        have hstep := left_step (hwaits (h.append hp))
          (hsubmits (t, e) (List.mem_append_right _ (List.mem_singleton_self _))) hs
        rw [List.countP_append, List.countP_singleton]
        cases hworks : e.works <;> simp [hworks] at hstep ⊢ <;> omega
    · intro hleft act
      rw [← submitted_append hsubmits act trace]
      exact (placed (h.append hp) act).idle (idle_of_left hleft) hthreads

/-- Three tasks of two actors are submitted to two threads. -/
def busyPool : ActorThreadPool Nat Char := ((initial.submit 0 'a').submit 0 'b').submit 1 'c'

theorem drains_busyPool : ∃ trace post s', (runs Nat Char 2).Run trace busyPool ∧
    ((runs Nat Char 2).startIn busyPool).Run post s' ∧ busyPool.left = 9 ∧ s'.left = 0 ∧
    post.countP (fun e => e.2.works) = 9 ∧ finished 0 (trace ++ post) = submitted 0 trace := by
  have ha : (runs Nat Char 2).Run [(initial, .submit 0 'a')] (initial.submit 0 'a') :=
    System.Run.nil.snoc rfl
  have hb := ha.snoc (l := .submit 0 'b') rfl
  have hr : (runs Nat Char 2).Run _ busyPool := hb.snoc (l := .submit 1 'c') rfl
  obtain ⟨post, s', hp, hs⟩ := System.exists_run (M := (runs Nat Char 2).startIn busyPool)
    [.start 1, .start 0, .finish 1 true, .complete 0, .start 0, .finish 0 false, .finish 0 false,
      .complete 1, .complete 0]
    (fun post s' => (∀ e ∈ post, e.2.submits = false) ∧ s'.left = 0) (by decide)
  obtain ⟨hsubmits, hleft⟩ := of_decide_eq_true hs
  obtain ⟨hcount, hfinished⟩ := (drains (by decide) hr).2 post s' hp hsubmits
  exact ⟨_, post, s', hr, hp, rfl, hleft, by rw [hleft] at hcount; exact hcount, hfinished hleft 0⟩

end ActorThreadPool

end Stomp
