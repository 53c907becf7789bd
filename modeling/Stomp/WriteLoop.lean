import Stomp.Reactor

/-!
# When the loop of `continueWrite` ends

A write that fails closes the channel and falls back into the loop, where the buffer still waits.
Every later write fails as well.
-/

namespace Stomp

open Utf8

namespace Reactor

/-- The selector thread is in the loop of `continueWrite`. -/
def inLoop (s : Reactor) : Bool :=
  match s.selector with
  | .write _ _ => true
  | _ => false

/-- The buffers that the loop is at. -/
def writing (s : Reactor) : Option (List Bytes) :=
  match s.selector with
  | .write c _ => (s.handlers.lookup c).map (·.writeQueue)
  | _ => none

/-- The loop after at most `k` turns, when nothing is added. A turn's write ends with its outcome. -/
def turns (s : Reactor) (outcomes : Nat → WriteOutcome) : Nat → Option Reactor
  | 0 => some s
  | k + 1 => (s.turns outcomes k).bind fun s' =>
    if s'.inLoop then s'.continueWrite (outcomes k) else some s'

/-- The channel can give these outcomes: it takes no more than there is, and nothing once closed. -/
def Possible (s : Reactor) (outcomes : Nat → WriteOutcome) : Prop :=
  ∀ k, (s.turns outcomes k).isSome = true

/-- The loop is left after finitely many turns. -/
def Ends (s : Reactor) (outcomes : Nat → WriteOutcome) : Prop :=
  ∃ k s', s.turns outcomes k = some s' ∧ s'.inLoop = false

/-- No write fails before one that leaves something of its buffer. -/
def NoFailure (queue : List Bytes) (outcomes : Nat → WriteOutcome) : Prop :=
  ∀ i < queue.length, outcomes i = .failed →
    ∃ j < i, ∃ n, outcomes j = .accepted n ∧ n < (queue.getD j []).length

/-- The outcomes that are left after the first turn. -/
def later (outcomes : Nat → WriteOutcome) (k : Nat) : WriteOutcome := outcomes (k + 1)

section Turns

variable {s s' : Reactor} {c : ConnectionId} {ready : List Ready} {h : NonBlockingConnectionHandler}
  {outcomes : Nat → WriteOutcome}

theorem inLoop_of_write (hsel : s.selector = .write c ready) : s.inLoop = true := by
  rw [inLoop, hsel]

theorem writing_eq_some {queue : List Bytes} (hw : s.writing = some queue) :
    ∃ c ready h, s.selector = .write c ready ∧ s.handlers.lookup c = some h ∧
      h.writeQueue = queue := by
  unfold writing at hw
  split at hw
  · next c ready hsel =>
    obtain ⟨h, hc, hqueue⟩ := Option.map_eq_some_iff.mp hw
    exact ⟨c, ready, h, hsel, hc, hqueue⟩
  · cases hw

/-! ## Turn after turn -/

theorem turns_succ (hin : s.inLoop = true) (hs : s.continueWrite (outcomes 0) = some s') (k : Nat) :
    s.turns outcomes (k + 1) = s'.turns (later outcomes) k := by
  induction k with
  | zero =>
    rw [turns, turns, turns, Option.bind_some, if_pos hin, hs]
  | succ k ih =>
    rw [turns, ih, turns]
    rfl

theorem possible_later (hin : s.inLoop = true) (hs : s.continueWrite (outcomes 0) = some s')
    (hp : s.Possible outcomes) : s'.Possible (later outcomes) := by
  intro k
  rw [← turns_succ hin hs]
  exact hp (k + 1)

theorem possible_of_later (hin : s.inLoop = true) (hs : s.continueWrite (outcomes 0) = some s')
    (hp : s'.Possible (later outcomes)) : s.Possible outcomes := by
  intro k
  cases k with
  | zero => rfl
  | succ k =>
    rw [turns_succ hin hs]
    exact hp k

theorem ends_later (hin : s.inLoop = true) (hs : s.continueWrite (outcomes 0) = some s') :
    s.Ends outcomes ↔ s'.Ends (later outcomes) := by
  constructor
  · rintro ⟨k, r, hr, hout⟩
    cases k with
    | zero =>
      cases hr
      rw [hin] at hout
      cases hout
    | succ k => exact ⟨k, r, turns_succ hin hs k ▸ hr, hout⟩
  · rintro ⟨k, r, hr, hout⟩
    exact ⟨k + 1, r, (turns_succ hin hs k).trans hr, hout⟩

theorem ends_of_left (hout : s.inLoop = false) : s.Ends outcomes := ⟨0, s, rfl, hout⟩

theorem possible_of_left (hout : s.inLoop = false) : s.Possible outcomes := by
  have hstays : ∀ k, s.turns outcomes k = some s := by
    intro k
    induction k with
    | zero => rfl
    | succ k ih =>
      rw [turns, ih, Option.bind_some, if_neg (by simp [hout])]
  intro k
  rw [hstays k]
  rfl

theorem exists_turn (hin : s.inLoop = true) (hp : s.Possible outcomes) :
    ∃ s', s.continueWrite (outcomes 0) = some s' := by
  have h1 := hp 1
  rw [turns, turns, Option.bind_some, if_pos hin] at h1
  exact Option.isSome_iff_exists.mp h1

/-! ## A closed channel -/

theorem closed_turns (hsel : s.selector = .write c ready) (hc : s.handlers.lookup c = some h)
    (hclosed : h.isOpen = false) (hqueue : h.writeQueue ≠ []) {k : Nat}
    (hs : s.turns outcomes k = some s') : s'.inLoop = true := by
  -- On a closed channel every write fails, and nothing leaves the queue.
  have hkeep : ∀ k r, s.turns outcomes k = some r → r.selector = .write c ready ∧
      ∃ x, r.handlers.lookup c = some x ∧ x.isOpen = false ∧ x.writeQueue ≠ [] := by
    intro k
    induction k with
    | zero =>
      intro r hr
      cases hr
      exact ⟨hsel, h, hc, hclosed, hqueue⟩
    | succ k ih =>
      intro r hr
      obtain ⟨q, hq, hr⟩ := Option.bind_eq_some_iff.mp hr
      obtain ⟨hqsel, x, hx, hxclosed, hxqueue⟩ := ih q hq
      rw [if_pos (inLoop_of_write hqsel)] at hr
      obtain ⟨top, queue, htop⟩ := List.exists_cons_of_ne_nil hxqueue
      simp only [continueWrite, hqsel, hx, htop, hxclosed, Option.bind_some] at hr
      cases ho : outcomes k with
      | accepted n =>
        simp only [ho] at hr
        cases hr
      | failed =>
        simp only [ho] at hr
        cases hr
        refine ⟨hqsel, x.close, ?_, rfl, hxqueue⟩
        rw [lookup_close, if_pos rfl, hx]
        rfl
  exact inLoop_of_write (hkeep k s' hs).1

theorem not_ends_of_closed (hsel : s.selector = .write c ready) (hc : s.handlers.lookup c = some h)
    (hclosed : h.isOpen = false) (hqueue : h.writeQueue ≠ []) : ¬ s.Ends outcomes := by
  rintro ⟨k, r, hr, hout⟩
  rw [closed_turns hsel hc hclosed hqueue hr] at hout
  cases hout

/-! ## The first turn decides -/

theorem noFailure_cons (top : Bytes) (queue : List Bytes) :
    NoFailure (top :: queue) outcomes ↔ ∃ n, outcomes 0 = .accepted n ∧
      (n < top.length ∨ NoFailure queue (later outcomes)) := by
  constructor
  · intro hno
    cases h0 : outcomes 0 with
    | failed =>
      obtain ⟨j, hj, -⟩ := hno 0 (Nat.succ_pos _) h0
      exact absurd hj (Nat.not_lt_zero j)
    | accepted n =>
      refine ⟨n, rfl, ?_⟩
      by_cases hn : n < top.length
      · exact .inl hn
      refine .inr fun i hi hf => ?_
      obtain ⟨j, hj, m, hm, hlt⟩ := hno (i + 1) (Nat.succ_lt_succ hi) hf
      cases j with
      | zero =>
        rw [h0] at hm
        cases hm
        exact absurd hlt hn
      | succ j => exact ⟨j, Nat.lt_of_succ_lt_succ hj, m, hm, hlt⟩
  · rintro ⟨n, h0, hrest⟩ i hi hf
    cases i with
    | zero =>
      rw [h0] at hf
      cases hf
    | succ i =>
      obtain hn | hno := hrest
      · exact ⟨0, Nat.succ_pos i, n, h0, hn⟩
      · obtain ⟨j, hj, m, hm, hlt⟩ := hno i (Nat.lt_of_succ_lt_succ hi) hf
        exact ⟨j + 1, Nat.succ_lt_succ hj, m, hm, hlt⟩

theorem not_ends_of_failed (hsel : s.selector = .write c ready) (hc : s.handlers.lookup c = some h)
    (hqueue : h.writeQueue ≠ []) (h0 : outcomes 0 = .failed) : ¬ s.Ends outcomes := by
  have hturn : s.continueWrite (outcomes 0) = some (s.close c) := by
    obtain ⟨top, queue, htop⟩ := List.exists_cons_of_ne_nil hqueue
    simp only [continueWrite, hsel, hc, htop, h0, Option.bind_some]
  rw [ends_later (inLoop_of_write hsel) hturn]
  refine not_ends_of_closed (h := h.close) hsel ?_ rfl hqueue
  rw [lookup_close, if_pos rfl, hc]
  rfl

theorem possible_failed (hsel : s.selector = .write c ready) (hc : s.handlers.lookup c = some h) :
    s.Possible fun _ => .failed := by
  have hkeep : ∀ k, ∃ r, s.turns (fun _ => .failed) k = some r ∧
      (r.inLoop = true → ∃ x, r.selector = .write c ready ∧ r.handlers.lookup c = some x) := by
    intro k
    induction k with
    | zero => exact ⟨s, rfl, fun _ => ⟨h, hsel, hc⟩⟩
    | succ k ih =>
      obtain ⟨r, hr, hin⟩ := ih
      rw [turns, hr, Option.bind_some]
      split
      · next hloop =>
        obtain ⟨x, hrsel, hx⟩ := hin hloop
        cases hqueue : x.writeQueue with
        | nil =>
          refine ⟨r.setSelector (.finish c ready), ?_, fun hf => by cases hf⟩
          simp only [continueWrite, hrsel, hx, hqueue, Option.bind_some]
        | cons top queue =>
          refine ⟨r.close c, ?_, fun _ => ⟨x.close, hrsel, ?_⟩⟩
          · simp only [continueWrite, hrsel, hx, hqueue, Option.bind_some]
          · rw [lookup_close, if_pos rfl, hx]
            rfl
      · next hout => exact ⟨r, rfl, fun hf => absurd hf hout⟩
  intro k
  obtain ⟨r, hr, -⟩ := hkeep k
  rw [hr]
  rfl

/-- The loop of `continueWrite` ends exactly when no write fails before it is left. -/
theorem continueWrite_ends_iff {queue : List Bytes} (hw : s.writing = some queue)
    (hp : s.Possible outcomes) : s.Ends outcomes ↔ NoFailure queue outcomes := by
  induction queue generalizing s outcomes with
  | nil =>
    obtain ⟨c, ready, h, hsel, hc, hqueue⟩ := writing_eq_some hw
    have hturn : s.continueWrite (outcomes 0) = some (s.setSelector (.finish c ready)) := by
      simp only [continueWrite, hsel, hc, hqueue, Option.bind_some]
    refine iff_of_true ?_ fun i hi => absurd hi (Nat.not_lt_zero i)
    exact (ends_later (inLoop_of_write hsel) hturn).mpr (ends_of_left rfl)
  | cons top queue ih =>
    obtain ⟨c, ready, h, hsel, hc, hqueue⟩ := writing_eq_some hw
    have hin := inLoop_of_write hsel
    obtain ⟨s1, hturn⟩ := exists_turn hin hp
    have hp1 := possible_later hin hturn hp
    rw [noFailure_cons]
    cases h0 : outcomes 0 with
    | failed =>
      apply iff_of_false (not_ends_of_failed hsel hc (hqueue ▸ List.cons_ne_nil _ _) h0)
      rintro ⟨n, hn, -⟩
      cases hn
    | accepted n =>
      rw [ends_later hin hturn]
      simp only [continueWrite, hsel, hc, hqueue, h0, Option.bind_some] at hturn
      split at hturn
      · cases hturn
      split at hturn
      · next hlt =>
        cases hturn
        exact iff_of_true (ends_of_left rfl) ⟨n, rfl, .inl hlt⟩
      · next hall =>
        have hw1 : s1.writing = some queue := by
          cases hturn
          show (match s.selector with | .write d _ => _ | _ => _) = _
          simp only [hsel, lookup_setHandler, if_pos, Option.map_some]
        rw [ih hw1 hp1]
        constructor
        · exact fun hno => ⟨n, rfl, .inr hno⟩
        · rintro ⟨m, hm, hlt | hno⟩
          · cases hm
            exact absurd hlt hall
          · exact hno

end Turns

/-- The selector thread is about to write the buffers of two workers. -/
def readyToWrite : List ReactorEvent :=
  acceptAndSelect ++ workerSends ++ [.send 8 1 [1, 2], .add 8, .keyFor 8, .post 8] ++
    [.task, .task, .task, .key (.bytes []), .key .closed, .select [⟨1, ⟨false, true⟩⟩], .task,
      .key (.bytes [])]

/-- The channel takes the first buffer and a part of the second, and fails ever after. -/
def takesPart : Nat → WriteOutcome
  | 0 | 1 => .accepted 1
  | _ + 2 => .failed

theorem continueWrite_ends_takesPart : ∃ trace s, runs.Run trace s ∧
    s.writing = some [[0], [1, 2]] ∧ s.Ends takesPart := by
  obtain ⟨trace, s, hr, hs⟩ := System.exists_run (M := runs) readyToWrite
    (fun _ s => decide (s.writing = some [[0], [1, 2]]) &&
      (s.continueWrite (.accepted 1)).any fun r : Reactor => r.inLoop &&
        (r.continueWrite (.accepted 1)).any fun q : Reactor => !q.inLoop)
    (by decide)
  simp only [Bool.and_eq_true, decide_eq_true_eq, Option.any_eq_true, Bool.not_eq_true'] at hs
  obtain ⟨hw, r, hturn, hin, q, hturn', hout⟩ := hs
  obtain ⟨c, ready, h, hsel, -, -⟩ := writing_eq_some hw
  have hp : s.Possible takesPart := possible_of_later (inLoop_of_write hsel) hturn
    (possible_of_later hin hturn' (possible_of_left hout))
  refine ⟨trace, s, hr, hw, (continueWrite_ends_iff hw hp).mpr fun i hi hf => ?_⟩
  -- of the two buffers neither write fails
  match i, hi with
  | 0, _ | 1, _ => cases hf

/-- The peer is gone when the buffer is written. -/
theorem continueWrite_never_ends : ∃ trace s, runs.Run trace s ∧ s.writing = some [[0], [1, 2]] ∧
    s.Possible (fun _ => .failed) ∧ ¬ s.Ends fun _ => .failed := by
  obtain ⟨trace, s, hr, hs⟩ := System.exists_run (M := runs) readyToWrite
    (fun _ s => decide (s.writing = some [[0], [1, 2]])) (by decide)
  have hw := of_decide_eq_true hs
  obtain ⟨c, ready, h, hsel, hc, hqueue⟩ := writing_eq_some hw
  refine ⟨trace, s, hr, hw, possible_failed hsel hc, not_ends_of_failed hsel hc ?_ rfl⟩
  rw [hqueue]
  exact List.cons_ne_nil _ _

end Reactor

end Stomp
