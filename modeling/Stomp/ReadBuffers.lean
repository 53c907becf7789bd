import Stomp.ActorThreadPool
import Stomp.WriteQueue
import Stomp.Base.Ownership
import Stomp.Base.Simulation

/-!
# The buffers of the reads

The selector thread reads into a buffer of a pool that all connections share. The task that goes
through the buffer gives it back at its end, on a thread of the executor. Every task sees the bytes of
its own read all the same, as if each read had a buffer for itself.
-/

open scoped List

namespace Stomp

open Utf8

/-! ## Buffers for one read each -/

/-- The queues of the actors, each with the bytes that its tasks have still to go through. -/
abbrev Mail (A : Type) := A → List Bytes

inductive MailEvent (A : Type) where
  | arrive (act : A) (bs : Bytes)
  /-- The task takes its next byte. -/
  | take (act : A) (b : UInt8)
  /-- The task ends. It leaves bytes only if it throws. -/
  | leave (act : A) (threw : Bool)

namespace Mail

variable {A : Type} [DecidableEq A]

def next (m : Mail A) : MailEvent A → Option (Mail A)
  | .arrive act bs => some (Function.update m act (m act ++ [bs]))
  | .take act b =>
    match m act with
    | (b' :: bs) :: bufs => if b = b' then some (Function.update m act (bs :: bufs)) else none
    | _ => none
  | .leave act threw =>
    match m act with
    | bs :: bufs => if threw || bs.isEmpty then some (Function.update m act bufs) else none
    | [] => none

def runs (A : Type) [DecidableEq A] : System (Mail A) (MailEvent A) := ⟨fun _ => [], next⟩

/-- The reads of an actor. -/
def arrived (act : A) (trace : List (Mail A × MailEvent A)) : List Bytes :=
  trace.filterMap fun e =>
    match e.2 with
    | .arrive a bs => if a = act then some bs else none
    | _ => none

/-- The bytes that the tasks of an actor took. -/
def taken (act : A) (trace : List (Mail A × MailEvent A)) : Bytes :=
  trace.filterMap fun e =>
    match e.2 with
    | .take a b => if a = act then some b else none
    | _ => none

theorem taken_flatten {trace : List (Mail A × MailEvent A)} {m : Mail A} (h : (runs A).Run trace m)
    (act : A) (hthrew : ∀ e ∈ trace, e.2 ≠ .leave act true) :
    taken act trace ++ (m act).flatten = (arrived act trace).flatten := by
  induction h with
  | nil => rfl
  | @snoc trace m e m' _ hs ih =>
    have ih := ih fun e he => hthrew e (List.mem_append_left _ he)
    have hlast := hthrew (m, e) (List.mem_append_right _ List.mem_cons_self)
    unfold taken arrived at ih ⊢
    rw [List.filterMap_append, List.filterMap_append, List.flatten_append, ← ih, List.append_assoc,
      List.append_assoc]
    congr 1
    cases e with
    | arrive a bs =>
      cases hs
      by_cases ha : a = act
      · subst ha
        simp
      · simp [ha, Function.update_of_ne (Ne.symm ha)]
    | take a b =>
      simp only [runs, next] at hs
      split at hs
      · next b' bs bufs hm =>
        split at hs
        · next hb =>
          cases hs
          by_cases ha : a = act
          · subst ha
            simp [hm, hb]
          · simp [ha, Function.update_of_ne (Ne.symm ha)]
        · cases hs
      · cases hs
    | leave a threw =>
      simp only [runs, next] at hs
      split at hs
      · next bs bufs hm =>
        split at hs
        · next hleft =>
          cases hs
          by_cases ha : a = act
          · subst ha
            obtain rfl : threw = false := by
              cases threw with
              | false => rfl
              | true => exact absurd rfl hlast
            rw [Bool.false_or, List.isEmpty_iff] at hleft
            simp [hm, hleft]
          · simp [Function.update_of_ne (Ne.symm ha)]
        · cases hs
      · cases hs

end Mail

/-! ## One buffer -/

def bufferAllocationSize : Nat := 2 ^ 13

/-- A buffer of `continueRead`. -/
structure ReadBuffer where
  array : Nat → UInt8
  position : Nat
  limit : Nat

namespace ReadBuffer

def allocate : ReadBuffer := ⟨fun _ => 0, 0, bufferAllocationSize⟩

def clear (b : ReadBuffer) : ReadBuffer := { b with position := 0, limit := bufferAllocationSize }

/-- The channel puts these bytes in. -/
def put (b : ReadBuffer) (bs : Bytes) : ReadBuffer :=
  { b with
    array := fun i =>
      if b.position ≤ i then (bs[i - b.position]?).getD (b.array i) else b.array i
    position := b.position + bs.length }

def flip (b : ReadBuffer) : ReadBuffer := { b with position := 0, limit := b.position }

def hasRemaining (b : ReadBuffer) : Bool := b.position < b.limit

/-- The bytes between the position and the limit. -/
def remaining (b : ReadBuffer) : Bytes := (List.range' b.position (b.limit - b.position)).map b.array

/-- `get` takes the byte at the position. -/
def advance (b : ReadBuffer) : ReadBuffer := { b with position := b.position + 1 }

theorem remaining_read (b : ReadBuffer) (bs : Bytes) (hb : b.position = 0) :
    (b.put bs).flip.remaining = bs := by
  apply List.ext_getElem
  · simp [remaining, flip, put, hb]
  · intro i h1 h2
    simp [remaining, flip, put, hb, h2]

theorem remaining_get {b : ReadBuffer} (h : b.hasRemaining = true) :
    b.remaining = b.array b.position :: b.advance.remaining := by
  unfold hasRemaining at h
  rw [decide_eq_true_eq] at h
  unfold remaining advance
  obtain ⟨n, hn⟩ := Nat.exists_eq_add_of_lt h
  have hleft : b.limit - b.position = n + 1 := by omega
  have hleft' : b.limit - (b.position + 1) = n := by omega
  dsimp only
  rw [hleft, hleft', List.range'_succ, List.map_cons]

theorem remaining_end {b : ReadBuffer} (h : b.hasRemaining = false) : b.remaining = [] := by
  unfold hasRemaining at h
  rw [decide_eq_false_iff_not] at h
  unfold remaining
  rw [Nat.sub_eq_zero_of_le (by omega)]
  rfl

end ReadBuffer

/-! ## The shared buffers -/

structure ReadBuffers where
  /-- The runnable of a task goes through its buffer. -/
  pool : ActorThreadPool ConnectionId BufferId
  /-- All buffers that were allocated. -/
  buffers : List ReadBuffer
  bufferPool : List BufferId
  /-- The selector thread is in `continueRead` of a handler. -/
  leased : Option (ConnectionId × BufferId)

inductive ReadBuffersEvent where
  | continueRead (c : ConnectionId)
  | read (bs : Bytes)
  /-- The read fails, or the stream is at its end. -/
  | fail
  | start (i : Nat)
  /-- The i-th runnable in work takes a byte. -/
  | get (i : Nat)
  /-- It goes on to its `finally`, with all bytes taken or for an exception. -/
  | finish (i : Nat) (threw : Bool)
  | complete (i : Nat)
  | collect (c : ConnectionId)

namespace ReadBuffers

def initial : ReadBuffers := ⟨.initial, [], [], none⟩

def leaseBuffer (s : ReadBuffers) : BufferId × ReadBuffers :=
  match s.bufferPool with
  | [] => (s.buffers.length, { s with buffers := s.buffers ++ [.allocate] })
  | buff :: bufferPool =>
    (buff, { s with buffers := s.buffers.modify buff .clear, bufferPool := bufferPool })

def releaseBuffer (s : ReadBuffers) (buff : BufferId) : ReadBuffers :=
  { s with bufferPool := s.bufferPool ++ [buff] }

def next (threads : Nat) (s : ReadBuffers) : ReadBuffersEvent → Option ReadBuffers
  | .continueRead c =>
    if s.leased = none then
      let (buf, s) := s.leaseBuffer
      some { s with leased := some (c, buf) }
    else none
  | .read bs =>
    s.leased.bind fun (c, buf) =>
      if (s.buffers[buf]?).any fun b => bs.length ≤ b.limit - b.position then
        some { s with
          buffers := s.buffers.modify buf fun b => (b.put bs).flip
          leased := none
          pool := s.pool.submit c buf }
      else none
  | .fail => s.leased.map fun (_, buf) => releaseBuffer { s with leased := none } buf
  | .get i =>
    (s.pool.running[i]?).bind fun (_, buf) =>
      if (s.buffers[buf]?).any (·.hasRemaining) then
        some { s with buffers := s.buffers.modify buf .advance }
      else none
  | .finish i threw =>
    (s.pool.running[i]?).bind fun (_, buf) =>
      if threw || (s.buffers[buf]?).any (!·.hasRemaining) then
        (s.pool.step threads (.finish i threw)).map fun pool =>
          releaseBuffer { s with pool := pool } buf
      else none
  | .start i => (s.pool.step threads (.start i)).map fun pool => { s with pool := pool }
  | .complete i => (s.pool.step threads (.complete i)).map fun pool => { s with pool := pool }
  | .collect c => (s.pool.step threads (.collect c)).map fun pool => { s with pool := pool }

def runs (threads : Nat) : System ReadBuffers ReadBuffersEvent := ⟨initial, next threads⟩

/-! ## Who holds a buffer -/

end ReadBuffers

namespace ActorThreadPool

variable {A R : Type} [DecidableEq A]

/-- The tasks of an actor that have not ended, in their order. -/
def unfinished (s : ActorThreadPool A R) (act : A) : List R :=
  of act s.running ++ of act s.scheduled ++ s.pending act

theorem Placed.unfinished {act : A} {before begun ended : List R} {s : ActorThreadPool A R}
    (h : Placed act before begun ended s) : before = ended ++ s.unfinished act := by
  rw [h.order, h.begun, ActorThreadPool.unfinished]
  simp only [List.append_assoc]

theorem unfinished_step {threads : Nat} {s s' : ActorThreadPool A R} {e : ActorThreadPoolEvent A R}
    {act : A} {before begun ended : List R} (h : Placed act before begun ended s)
    (hs : s.step threads e = some s') : of act (finishedBy (s, e)).toList ++ s'.unfinished act =
      s.unfinished act ++ of act (submittedBy (s, e)).toList := by
  have hstep := (h.step hs).unfinished
  rw [h.unfinished, List.append_assoc, List.append_assoc] at hstep
  exact (List.append_cancel_left hstep).symm

theorem unfinished_running {s : ActorThreadPool A R} {act : A} {before begun ended : List R}
    (h : Placed act before begun ended s) {i : Nat} {r : R} (hr : s.running[i]? = some (act, r)) :
    ∃ rest, s.unfinished act = r :: rest := by
  -- The task that runs is the first one of its actor.
  have hone := h.length_le
  rw [Placed.length_tasks] at hone
  obtain ⟨hself, -⟩ := of_eraseIdx_self hr (by omega)
  exact ⟨_, by rw [unfinished, hself, List.append_assoc, List.singleton_append]⟩

end ActorThreadPool

namespace ReadBuffers

open ActorThreadPool

inductive Place where
  | bufferPool
  | selector
  | tasks (c : ConnectionId)

def held (s : ReadBuffers) : Place → List BufferId
  | .bufferPool => s.bufferPool
  | .selector => s.leased.toList.map (·.2)
  | .tasks c => s.pool.unfinished c

def remaining (s : ReadBuffers) (buf : BufferId) : Bytes := (s.buffers[buf]?).elim [] (·.remaining)

/-- What the tasks of each connection have still to go through. -/
def mail (s : ReadBuffers) : Mail ConnectionId := fun c => (s.pool.unfinished c).map s.remaining

def labels (s : ReadBuffers) : ReadBuffersEvent → List (MailEvent ConnectionId)
  | .read bs => s.leased.toList.map fun x => .arrive x.1 bs
  | .get i => ((s.pool.running[i]?).bind fun x =>
      (s.buffers[x.2]?).map fun b => .take x.1 (b.array b.position)).toList
  | .finish i threw => (s.pool.running[i]?).toList.map fun x => .leave x.1 threw
  | _ => []

structure Sound (s : ReadBuffers) : Prop where
  owned : Owned s.held (· < s.buffers.length)
  placed : ∀ c, ∃ before begun ended, Placed c before begun ended s.pool
  cleared : ∀ c buf, s.leased = some (c, buf) → ∃ b, s.buffers[buf]? = some b ∧ b.position = 0

theorem sound_initial : initial.Sound where
  owned := by
    refine ⟨fun p => ?_, fun {p q b} hb => ?_, fun b => ?_⟩
    · cases p <;> exact List.nodup_nil
    · cases p <;> cases hb
    · refine iff_of_false (Nat.not_lt_zero b) ?_
      rintro ⟨p, hb⟩
      cases p <;> cases hb
  placed _ := ⟨[], [], [], rfl, rfl, rfl, fun hne => absurd rfl hne⟩
  cleared := nofun

section Step

variable {s s' : ReadBuffers} {threads : Nat}

theorem Sound.exists_buffer (h : s.Sound) {p : Place} {buf : BufferId} (hbuf : buf ∈ s.held p) :
    ∃ b, s.buffers[buf]? = some b :=
  ⟨_, List.getElem?_eq_getElem ((h.owned.known_iff buf).mpr ⟨p, hbuf⟩)⟩

theorem mail_congr (hpool : ∀ c, s'.pool.unfinished c = s.pool.unfinished c)
    (hsame : ∀ c, ∀ buf ∈ s.pool.unfinished c, s'.buffers[buf]? = s.buffers[buf]?) :
    s'.mail = s.mail := by
  funext c
  unfold mail
  rw [hpool]
  refine List.map_congr_left fun buf hbuf => ?_
  rw [remaining, remaining, hsame c buf hbuf]

theorem Sound.poolStep (h : s.Sound) {e : ActorThreadPoolEvent ConnectionId BufferId}
    {pool : ActorThreadPool ConnectionId BufferId} (hs : s.pool.step threads e = some pool)
    (hsub : submittedBy (s.pool, e) = none) (hfin : finishedBy (s.pool, e) = none) :
    Sound { s with pool := pool } ∧ mail { s with pool := pool } = s.mail := by
  have hsame : ∀ c, pool.unfinished c = s.pool.unfinished c := by
    intro c
    obtain ⟨before, begun, ended, hp⟩ := h.placed c
    have hstep := unfinished_step hp hs
    simpa [hsub, hfin] using hstep
  refine ⟨⟨h.owned.same fun p => ?_, fun c => ?_, h.cleared⟩, mail_congr hsame fun _ _ _ => rfl⟩
  · cases p with
    | bufferPool | selector => rfl
    | tasks c => exact hsame c
  · obtain ⟨before, begun, ended, hp⟩ := h.placed c
    exact ⟨_, _, _, hp.step hs⟩

theorem Sound.lease (h : s.Sound) (hfree : s.leased = none) (c : ConnectionId) :
    Sound { s.leaseBuffer.2 with leased := some (c, s.leaseBuffer.1) } ∧
      mail { s.leaseBuffer.2 with leased := some (c, s.leaseBuffer.1) } = s.mail := by
  unfold leaseBuffer
  cases hpool : s.bufferPool with
  | nil =>
    dsimp only
    refine ⟨⟨?_, h.placed, ?_⟩, mail_congr (fun _ => rfl) fun c buf hbuf => ?_⟩
    · refine h.owned.make (b := s.buffers.length) (q := .selector) (lt_irrefl _) ?_ ?_ fun x => ?_
      · simp [held, hfree]
      · intro r hr
        cases r with
        | selector => exact absurd rfl hr
        | bufferPool => exact hpool.symm ▸ rfl
        | tasks c => rfl
      · rw [List.length_append, List.length_singleton]
        exact Nat.lt_succ_iff_lt_or_eq
    · rintro c' buf ⟨⟩
      exact ⟨.allocate, by simp, rfl⟩
    · have hlt := (h.owned.known_iff buf).mpr ⟨.tasks c, hbuf⟩
      exact List.getElem?_append_left hlt
  | cons buff bufferPool =>
    have hmem : buff ∈ s.held .bufferPool := by simp [held, hpool]
    dsimp only
    refine ⟨⟨?_, h.placed, ?_⟩, mail_congr (fun _ => rfl) fun c buf hbuf => ?_⟩
    · rw [List.length_modify]
      refine h.owned.move (p := .bufferPool) (q := .selector) (b := buff) ?_ ?_ nofun ?_
      · simp [held, hpool]
      · simp [held, hfree]
      · intro r hp hq
        cases r with
        | bufferPool => exact absurd rfl hp
        | selector => exact absurd rfl hq
        | tasks c => rfl
    · rintro c' buf ⟨⟩
      obtain ⟨b, hb⟩ := h.exists_buffer hmem
      exact ⟨b.clear, by simp [hb], rfl⟩
    · have hne : buff ≠ buf := by
        rintro rfl
        cases h.owned.one hmem (q := .tasks c) hbuf
      simp [hne]

theorem Sound.read (h : s.Sound) {c : ConnectionId} {buf : BufferId} (hl : s.leased = some (c, buf))
    (bs : Bytes) :
    Sound { s with
      buffers := s.buffers.modify buf fun b => (b.put bs).flip
      leased := none
      pool := s.pool.submit c buf } ∧
    mail { s with
      buffers := s.buffers.modify buf fun b => (b.put bs).flip
      leased := none
      pool := s.pool.submit c buf } = Function.update s.mail c (s.mail c ++ [bs]) := by
  -- What the selector thread read is a task of the connection, the last one.
  have hmem : buf ∈ s.held .selector := by simp [held, hl]
  have hsubmit : s.pool.step 0 (.submit c buf) = some (s.pool.submit c buf) := rfl
  have hunfinished : ∀ d, (s.pool.submit c buf).unfinished d =
      s.pool.unfinished d ++ of d [(c, buf)] := by
    intro d
    obtain ⟨before, begun, ended, hp⟩ := h.placed d
    exact unfinished_step hp hsubmit
  have hother : ∀ d ≠ c, (s.pool.submit c buf).unfinished d = s.pool.unfinished d := by
    intro d hd
    rw [hunfinished, of_single_ne _ (Ne.symm hd), List.append_nil]
  obtain ⟨b, hb, hzero⟩ := h.cleared c buf hl
  refine ⟨⟨?_, fun d => ?_, nofun⟩, ?_⟩
  · rw [List.length_modify]
    refine h.owned.move (p := .selector) (q := .tasks c) (b := buf) ?_ ?_ nofun ?_
    · simp [held, hl]
    · show (s.pool.submit c buf).unfinished c ~ buf :: s.pool.unfinished c
      rw [hunfinished, of_single]
      exact List.perm_append_singleton _ _
    · intro r hp hq
      cases r with
      | selector => exact absurd rfl hp
      | bufferPool => rfl
      | tasks d => exact hother d fun hd => hq (by rw [hd])
  · obtain ⟨before, begun, ended, hp⟩ := h.placed d
    exact ⟨_, _, _, hp.step hsubmit⟩
  · have hkept : ∀ d, ∀ x ∈ s.pool.unfinished d, remaining { s with
        buffers := s.buffers.modify buf fun b => (b.put bs).flip
        leased := none
        pool := s.pool.submit c buf } x = s.remaining x := by
      intro d x hx
      have hne : buf ≠ x := by
        rintro rfl
        cases h.owned.one hmem (q := .tasks d) hx
      simp [remaining, hne]
    funext d
    unfold mail
    by_cases hd : d = c
    · subst hd
      have hread : remaining { s with
          buffers := s.buffers.modify buf fun b => (b.put bs).flip
          leased := none
          pool := s.pool.submit d buf } buf = bs := by
        simp [remaining, hb, ReadBuffer.remaining_read b bs hzero]
      rw [Function.update_self, hunfinished, of_single, List.map_append, List.map_singleton, hread,
        List.map_congr_left (hkept d)]
    · rw [Function.update_of_ne hd, hother d hd, List.map_congr_left (hkept d)]

theorem Sound.fail (h : s.Sound) {c : ConnectionId} {buf : BufferId} (hl : s.leased = some (c, buf)) :
    Sound (releaseBuffer { s with leased := none } buf) ∧
      mail (releaseBuffer { s with leased := none } buf) = s.mail := by
  refine ⟨⟨?_, h.placed, nofun⟩, rfl⟩
  refine h.owned.move (p := .selector) (q := .bufferPool) (b := buf) ?_ ?_ nofun ?_
  · simp [held, hl, releaseBuffer]
  · exact List.perm_append_singleton _ _
  · intro r hp hq
    cases r with
    | selector => exact absurd rfl hp
    | bufferPool => exact absurd rfl hq
    | tasks d => rfl

theorem Sound.get (h : s.Sound) {i : Nat} {c : ConnectionId} {buf : BufferId} {b : ReadBuffer}
    (hr : s.pool.running[i]? = some (c, buf)) (hb : s.buffers[buf]? = some b)
    (hleft : b.hasRemaining = true) :
    Sound { s with buffers := s.buffers.modify buf .advance } ∧
      Mail.next s.mail (.take c (b.array b.position)) =
        some (mail { s with buffers := s.buffers.modify buf .advance }) := by
  obtain ⟨before, begun, ended, hp⟩ := h.placed c
  obtain ⟨rest, hrest⟩ := unfinished_running hp hr
  have hmem : buf ∈ s.held (.tasks c) := by simp [held, hrest]
  refine ⟨⟨?_, h.placed, fun c' buf' hl => ?_⟩, ?_⟩
  · rw [List.length_modify]
    exact h.owned.same fun p => by cases p <;> rfl
  · have hl : s.leased = some (c', buf') := hl
    obtain ⟨b', hb', hzero⟩ := h.cleared c' buf' hl
    have hne : buf ≠ buf' := by
      rintro rfl
      cases h.owned.one hmem (q := .selector) (by simp [held, hl])
    exact ⟨b', by simp [hne, hb'], hzero⟩
  · have hkept : ∀ x ≠ buf, remaining { s with buffers := s.buffers.modify buf .advance } x =
        s.remaining x := by
      intro x hx
      simp [remaining, Ne.symm hx]
    have hfirst : s.remaining buf = b.array b.position ::
        remaining { s with buffers := s.buffers.modify buf .advance } buf := by
      simp [remaining, hb, ReadBuffer.remaining_get hleft]
    have hnodup : buf ∉ rest := by
      have hnodup := h.owned.nodup (.tasks c)
      rw [held, hrest] at hnodup
      exact (List.nodup_cons.mp hnodup).1
    have hmail : s.mail c = (b.array b.position ::
        remaining { s with buffers := s.buffers.modify buf .advance } buf) :: rest.map s.remaining := by
      rw [mail, hrest, List.map_cons, hfirst]
    simp only [Mail.next, hmail, if_true, Option.some.injEq]
    funext d
    by_cases hd : d = c
    · subst hd
      rw [Function.update_self, mail, hrest, List.map_cons]
      congr 1
      refine List.map_congr_left fun x hx => (hkept x ?_).symm
      rintro rfl
      exact hnodup hx
    · rw [Function.update_of_ne hd]
      refine List.map_congr_left fun x hx => (hkept x ?_).symm
      rintro rfl
      cases h.owned.one hmem (q := .tasks d) hx
      exact hd rfl

theorem Sound.finish (h : s.Sound) {i : Nat} {c : ConnectionId} {buf : BufferId} {threw : Bool}
    {pool : ActorThreadPool ConnectionId BufferId} (hr : s.pool.running[i]? = some (c, buf))
    (hleft : threw = true ∨ s.remaining buf = [])
    (hs : s.pool.step threads (.finish i threw) = some pool) :
    Sound (releaseBuffer { s with pool := pool } buf) ∧
      Mail.next s.mail (.leave c threw) = some (mail (releaseBuffer { s with pool := pool } buf)) := by
  have hunfinished : ∀ d, of d [(c, buf)] ++ pool.unfinished d = s.pool.unfinished d := by
    intro d
    obtain ⟨before, begun, ended, hp⟩ := h.placed d
    have hstep := unfinished_step hp hs
    simpa [finishedBy, submittedBy, hr] using hstep
  have hself : s.pool.unfinished c = buf :: pool.unfinished c := by
    rw [← hunfinished, of_single, List.singleton_append]
  have hother : ∀ d ≠ c, pool.unfinished d = s.pool.unfinished d := by
    intro d hd
    rw [← hunfinished d, of_single_ne _ (Ne.symm hd), List.nil_append]
  refine ⟨⟨?_, fun d => ?_, h.cleared⟩, ?_⟩
  · refine h.owned.move (p := .tasks c) (q := .bufferPool) (b := buf) ?_ ?_ (fun hp => by cases hp) ?_
    · exact hself ▸ List.Perm.refl _
    · exact List.perm_append_singleton _ _
    · intro r hp hq
      cases r with
      | bufferPool => exact absurd rfl hq
      | selector => rfl
      | tasks d => exact hother d fun hd => hp (by rw [hd])
  · obtain ⟨before, begun, ended, hp⟩ := h.placed d
    exact ⟨_, _, _, hp.step hs⟩
  · have hmail : s.mail c = s.remaining buf :: (pool.unfinished c).map s.remaining := by
      rw [mail, hself, List.map_cons]
    have hgoes : (threw || (s.remaining buf).isEmpty) = true := by
      simpa using hleft
    simp only [Mail.next, hmail, hgoes, if_true, Option.some.injEq]
    funext d
    by_cases hd : d = c
    · subst hd
      rw [Function.update_self]
      rfl
    · rw [Function.update_of_ne hd, mail, ← hother d hd]
      rfl

theorem Sound.next_read {bs : Bytes} (h : s.Sound) (hs : s.next threads (.read bs) = some s') :
    s'.Sound ∧ (Mail.runs ConnectionId).walk (s.labels (.read bs)) s.mail = some s'.mail := by
  obtain ⟨⟨c, buf⟩, hl, hs⟩ := Option.bind_eq_some_iff.mp hs
  dsimp only at hs
  split at hs
  · cases hs
    obtain ⟨hsound, hmail⟩ := h.read hl bs
    refine ⟨hsound, ?_⟩
    rw [labels, hl, hmail]
    exact System.walk_one _ _ _
  · cases hs

theorem Sound.next_get {i : Nat} (h : s.Sound) (hs : s.next threads (.get i) = some s') :
    s'.Sound ∧ (Mail.runs ConnectionId).walk (s.labels (.get i)) s.mail = some s'.mail := by
  obtain ⟨⟨c, buf⟩, hr, hs⟩ := Option.bind_eq_some_iff.mp hs
  dsimp only at hs
  split at hs
  · next hleft =>
    cases hs
    obtain ⟨b, hb, hleft⟩ := (Option.any_eq_true _ _).mp hleft
    obtain ⟨hsound, hmail⟩ := h.get hr hb hleft
    refine ⟨hsound, ?_⟩
    rw [labels, hr, Option.bind_some, hb, Option.map_some, Option.toList_some, System.walk_one]
    exact hmail
  · cases hs

theorem Sound.next_finish {i : Nat} {threw : Bool} (h : s.Sound)
    (hs : s.next threads (.finish i threw) = some s') :
    s'.Sound ∧ (Mail.runs ConnectionId).walk (s.labels (.finish i threw)) s.mail = some s'.mail := by
  obtain ⟨⟨c, buf⟩, hr, hs⟩ := Option.bind_eq_some_iff.mp hs
  dsimp only at hs
  split at hs
  · next hends =>
    obtain ⟨pool, hstep, rfl⟩ := Option.map_eq_some_iff.mp hs
    have hleft : threw = true ∨ s.remaining buf = [] := by
      rw [Bool.or_eq_true, Option.any_eq_true] at hends
      refine hends.imp id ?_
      rintro ⟨b, hb, hempty⟩
      rw [remaining, hb]
      exact ReadBuffer.remaining_end (by simpa using hempty)
    obtain ⟨hsound, hmail⟩ := h.finish hr hleft hstep
    refine ⟨hsound, ?_⟩
    rw [labels, hr, Option.toList_some, List.map_singleton, System.walk_one]
    exact hmail
  · cases hs

theorem Sound.next {e : ReadBuffersEvent} (h : s.Sound) (hs : s.next threads e = some s') :
    s'.Sound ∧ (Mail.runs ConnectionId).walk (s.labels e) s.mail = some s'.mail := by
  have hpool : ∀ e' : ActorThreadPoolEvent ConnectionId BufferId, submittedBy (s.pool, e') = none →
      finishedBy (s.pool, e') = none →
      (s.pool.step threads e').map (fun pool => { s with pool := pool }) = some s' →
      s'.Sound ∧ some s.mail = some s'.mail := by
    intro e' hsub hfin hs'
    obtain ⟨pool, hstep, rfl⟩ := Option.map_eq_some_iff.mp hs'
    obtain ⟨hsound, hmail⟩ := h.poolStep hstep hsub hfin
    exact ⟨hsound, congrArg some hmail.symm⟩
  cases e with
  | continueRead c =>
    simp only [ReadBuffers.next] at hs
    split at hs
    · next hfree =>
      cases hs
      obtain ⟨hsound, hmail⟩ := h.lease hfree c
      exact ⟨hsound, congrArg some hmail.symm⟩
    · cases hs
  | read bs => exact h.next_read hs
  | fail =>
    obtain ⟨⟨c, buf⟩, hl, rfl⟩ := Option.map_eq_some_iff.mp hs
    obtain ⟨hsound, hmail⟩ := h.fail hl
    exact ⟨hsound, congrArg some hmail.symm⟩
  | get i => exact h.next_get hs
  | finish i threw => exact h.next_finish hs
  | start i => exact hpool (.start i) rfl rfl hs
  | complete i => exact hpool (.complete i) rfl rfl hs
  | collect c => exact hpool (.collect c) rfl rfl hs

end Step

/-! ## Every run -/

theorem sound_run {threads : Nat} {trace : List (ReadBuffers × ReadBuffersEvent)} {s : ReadBuffers}
    (h : (runs threads).Run trace s) : s.Sound :=
  h.inv Sound sound_initial fun _ _ _ hsound hs => (hsound.next hs).1

def simulation (threads : Nat) : Simulation (runs threads) (Mail.runs ConnectionId) where
  abs := mail
  labels := labels
  init := rfl
  step hr hs := ((sound_run hr).next hs).2

/-- Every buffer is in one place, and the tasks see what they would see if each had its own. While no
task of a connection throws, its tasks take the bytes of its reads, in order. -/
theorem buffers_owned {threads : Nat} {trace : List (ReadBuffers × ReadBuffersEvent)}
    {s : ReadBuffers} (h : (runs threads).Run trace s) :
    Owned s.held (· < s.buffers.length) ∧
      (Mail.runs ConnectionId).Run ((simulation threads).trace trace) s.mail ∧
      ∀ c, (∀ e ∈ (simulation threads).trace trace, e.2 ≠ .leave c true) →
        Mail.taken c ((simulation threads).trace trace) ++ (s.mail c).flatten =
          (Mail.arrived c ((simulation threads).trace trace)).flatten := by
  have hr := (simulation threads).run h
  exact ⟨(sound_run h).owned, hr, fun c hc => Mail.taken_flatten hr c hc⟩

/-- A read of one connection, and then one of another into the same buffer. -/
theorem buffers_owned_reused : ∃ trace s, (runs 2).Run trace s ∧ s.buffers.length = 1 ∧
    Owned s.held (· < s.buffers.length) ∧ Mail.taken 1 ((simulation 2).trace trace) = [7, 8] ∧
      s.mail 2 = [[9]] := by
  obtain ⟨trace, s, hr, hs⟩ := System.exists_run (M := runs 2)
    [.continueRead 1, .read [7, 8], .start 0, .get 0, .get 0, .finish 0 false, .complete 0,
      .continueRead 2, .read [9]]
    (fun trace s => decide (s.buffers.length = 1 ∧ Mail.taken 1 ((simulation 2).trace trace) = [7, 8] ∧
      s.mail 2 = [[9]])) (by decide +kernel)
  obtain ⟨hlength, htaken, hmail⟩ := of_decide_eq_true hs
  exact ⟨trace, s, hr, hlength, (buffers_owned hr).1, htaken, hmail⟩

end ReadBuffers

end Stomp
