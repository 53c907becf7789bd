import Stomp.ReactorSteps

/-!
# No forgotten write

A frame can be queued after the last look at the queue and before the switch to `OP_READ`. The
worker that queued it posts its task after that, so the write interest comes back.
-/

namespace Stomp

/-- A worker at this stage has queued a frame for the connection, and has not posted its task. -/
def SendStage.Queued (c : ConnectionId) : SendStage → Prop
  | .add _ _ => False
  | .keyFor d | .post d _ => d = c

namespace Reactor

/-- Some worker stands between its addition to the queue and its posting. -/
def Posting (s : Reactor) (c : ConnectionId) : Prop :=
  ∃ w stage, s.workers.lookup w = some stage ∧ stage.Queued c

/-- `OP_WRITE` is in the interest set, and the selector thread is not about to clear it. -/
def Interested (s : Reactor) (c : ConnectionId) : Prop :=
  s.wantsWrite c = true ∧ ∀ ready, s.selector ≠ .toRead c ready

/-- A task that sets `READ|WRITE` for the key is queued. -/
def WriteTask (s : Reactor) (c : ConnectionId) : Prop :=
  ∃ t ∈ s.selectorTasks, t.connectionId = c ∧ t.hasKey = true ∧ t.ops = ⟨true, true⟩

/-- The selector thread will look at the queue again. -/
def Remembered (s : Reactor) (c : ConnectionId) : Prop :=
  s.Interested c ∨ s.WriteTask c ∨ s.Posting c

/-! ## The queue -/

section Output

variable {s s' : Reactor} {c : ConnectionId}

theorem hasOutput_setHandler {d : ConnectionId} {x y : NonBlockingConnectionHandler}
    (hd : s.handlers.lookup d = some x) (hy : y.writeQueue ≠ [] → x.writeQueue ≠ [])
    (h : (s.setHandler d y).hasOutput c = true) : s.hasOutput c = true := by
  rw [hasOutput, any_setHandler] at h
  split at h
  · next hcd =>
    rw [hasOutput, hcd, hd]
    simpa using hy (by simpa using h)
  · exact h

theorem hasOutput_close {d : ConnectionId} (h : (s.close d).hasOutput c = true) :
    s.hasOutput c = true := by
  cases hd : s.handlers.lookup d with
  | none => rwa [close_none hd] at h
  | some x =>
    rw [close_eq hd] at h
    exact hasOutput_setHandler (y := x.close) hd (fun hy => hy) h

theorem hasOutput_continueWrite {outcome : WriteOutcome} (hs : s.continueWrite outcome = some s')
    (h : s'.hasOutput c = true) : s.hasOutput c = true := by
  unfold continueWrite at hs
  split at hs
  · next d ready hsel =>
    obtain ⟨x, hd, hs⟩ := Option.bind_eq_some_iff.mp hs
    cases hqueue : x.writeQueue with
    | nil =>
      simp only [hqueue] at hs
      cases hs
      exact h
    | cons top queue =>
      have hne : x.writeQueue ≠ [] := hqueue ▸ List.cons_ne_nil _ _
      cases outcome with
      | accepted n =>
        simp only [hqueue] at hs
        split at hs
        · cases hs
        split at hs <;> cases hs <;> exact hasOutput_setHandler hd (fun _ => hne) h
      | failed =>
        simp only [hqueue] at hs
        cases hs
        exact hasOutput_close h
  · cases hs

theorem hasOutput_back {e : ReactorEvent} (hs : s.next e = some s') (h : s'.hasOutput c = true) :
    s.hasOutput c = true ∨ s'.Posting c := by
  -- Only an addition makes an empty queue non-empty, and its worker still has to post.
  have hstep := next_step hs
  cases hstep with
  | @accept d ready hsel hd =>
    rw [hasOutput, any_setHandler] at h
    split at h
    · cases h
    · exact .inl h
  | @add w d msg x hw hd =>
    by_cases hcd : c = d
    · refine .inr ⟨w, .keyFor d, ?_, hcd.symm⟩
      rw [lookup_setWorker, if_pos rfl]
    · refine .inl ?_
      have hsame : (s.setHandler d { x with writeQueue := x.writeQueue ++ [msg] }).hasOutput c =
          s.hasOutput c := by
        rw [hasOutput, any_setHandler, if_neg hcd]
        rfl
      exact hsame.symm.trans h
  | @task ready t tasks x hsel ht hd =>
    exact .inl (hasOutput_setHandler (y := { x with interestOps := t.ops }) hd (fun hy => hy) h)
  | @toRead d ready x hsel hd =>
    exact .inl (hasOutput_setHandler (y := { x with interestOps := ⟨true, false⟩ }) hd (fun hy => hy) h)
  | select hnodup hready =>
    rw [hasOutput, Table.lookup_mapValues, Option.any_map] at h
    exact .inl h
  | keyClosed hsel => exact .inl (hasOutput_close h)
  | finishClose hsel => exact .inl (hasOutput_close h)
  | writePart hsel hd => exact .inl (hasOutput_continueWrite hs h)
  | writeAll hsel hd => exact .inl (hasOutput_continueWrite hs h)
  | writeFails hsel => exact .inl (hasOutput_continueWrite hs h)
  | send | sendClosed | keyFor | post | taskFails | goOn | keyWrite | finishOpen => exact .inl h

theorem noOutput_of_toRead {ready : List Ready} (hs : s.next (.finish false) = some s')
    (hsel : s.selector = .finish c ready) (hread : s'.selector = .toRead c ready) :
    s.hasOutput c = false := by
  -- The selector thread goes to the switch only if it finds the queue empty once more.
  simp only [next, finishWrite, hsel] at hs
  obtain ⟨x, hx, rfl⟩ := Option.map_eq_some_iff.mp hs
  rw [hasOutput, hx, Option.any_some]
  cases hempty : x.writeQueue.isEmpty with
  | true => rfl
  | false =>
    simp only [hempty] at hread
    cases hread

end Output

/-! ## The tasks -/

/-- The tasks of the queue set `READ|WRITE`. -/
def WriteTasks (s : Reactor) : Prop := ∀ t ∈ s.selectorTasks, t.ops = ⟨true, true⟩

theorem WriteTasks.step {s s' : Reactor} {e : ReactorEvent} (h : s.WriteTasks) (hs : Step s e s') :
    s'.WriteTasks := by
  cases hs with
  | post hw =>
    intro t ht
    obtain ht | ht := List.mem_append.mp ht
    · exact h t ht
    · rw [List.mem_singleton.mp ht]
  | task hsel hts hc => exact fun t ht => h t (hts ▸ List.mem_cons_of_mem _ ht)
  | taskFails hsel hts hf => exact fun t ht => h t (hts ▸ List.mem_cons_of_mem _ ht)
  | accept | send | sendClosed | add | keyFor | select | goOn | keyClosed | keyWrite | writePart
  | writeAll | writeFails | finishClose | finishOpen | toRead => exact h

theorem writeTask_of_hasTask {s : Reactor} (hk : Keyed s) (ht : s.WriteTasks) {c : ConnectionId}
    (ho : s.isOpen c = true) (h : s.hasTask c = true) : s.WriteTask c := by
  obtain ⟨t, hmem, hc⟩ := List.any_eq_true.mp h
  rw [decide_eq_true_eq] at hc
  exact ⟨t, hmem, hc, (hk.task t hmem).2.1 (hc ▸ ho), ht t hmem⟩

theorem WriteTask.hasTask {s : Reactor} {c : ConnectionId} (h : s.WriteTask c) :
    s.hasTask c = true := by
  obtain ⟨t, hmem, hc, -⟩ := h
  exact List.any_eq_true.mpr ⟨t, hmem, decide_eq_true hc⟩

/-! ## One step -/

theorem Interested.next {s s' : Reactor} {e : ReactorEvent} {c : ConnectionId} (h : s.Interested c)
    (hk : Keyed s) (hout : s.hasOutput c = true) (hs : s.next e = some s') : s'.Interested c := by
  obtain ⟨hwants, hread⟩ := h
  have hstep := next_step hs
  refine ⟨(wantsWrite_step hk hstep hwants).resolve_right ?_, fun ready hsel => ?_⟩
  · rintro ⟨-, ready, hsel⟩
    exact hread ready hsel
  · obtain hsel' | ⟨rfl, hsel'⟩ := toRead_step hstep hsel
    · exact hread ready hsel'
    · rw [noOutput_of_toRead hs hsel' hsel] at hout
      cases hout

theorem Posting.next {s s' : Reactor} {e : ReactorEvent} {c : ConnectionId} (h : s.Posting c)
    (hs : s.next e = some s') : s'.hasTask c = true ∨ s'.Posting c := by
  obtain ⟨w, stage, hw, hq⟩ := h
  have hstep := next_step hs
  by_cases hsender : sender e = some w
  · cases hstep with
    | @send v d msg x hv hd ho =>
      cases hsender
      rw [hw] at hv
      cases hv
    | sendClosed => exact .inr ⟨w, stage, hw, hq⟩
    | @add v d msg x hv hd =>
      cases hsender
      cases hw.symm.trans hv
      exact hq.elim
    | @keyFor v d hv =>
      cases hsender
      cases hw.symm.trans hv
      refine .inr ⟨w, .post d (s.hasKey d), ?_, hq⟩
      rw [lookup_setWorker, if_pos rfl]
    | @post v d hasKey hv =>
      cases hsender
      cases hw.symm.trans hv
      refine .inl (List.any_eq_true.mpr ⟨_, List.mem_append_right _ (List.mem_singleton_self _), ?_⟩)
      exact decide_eq_true hq
    | goOn he =>
      rw [he] at hsender
      cases hsender
    | accept | select | task | taskFails | keyClosed | keyWrite | writePart | writeAll | writeFails
    | finishClose | finishOpen | toRead => cases hsender
  · exact .inr ⟨w, stage, (workers_step hstep hsender).trans hw, hq⟩

/-- Keys and tasks are in order, and every open channel with something to write is remembered. -/
structure Awake (s : Reactor) : Prop where
  keyed : Keyed s
  tasks : s.WriteTasks
  remembered : ∀ c, s.isOpen c = true → s.hasOutput c = true → s.Remembered c

theorem Awake.next {s s' : Reactor} {e : ReactorEvent} (h : s.Awake) (hs : s.next e = some s') :
    s'.Awake := by
  have hstep := next_step hs
  have hk := h.keyed.step hstep
  have ht := h.tasks.step hstep
  refine ⟨hk, ht, fun c ho hout => ?_⟩
  have htask : s'.hasTask c = true → s'.Remembered c :=
    fun hc => .inr (.inl (writeTask_of_hasTask hk ht ho hc))
  obtain hout | hpost := hasOutput_back hs hout
  · have hopen : s.isOpen c = true := by
      apply (isOpen_back hstep ho).resolve_right
      rintro ⟨-, hnone⟩
      rw [hasOutput, hnone] at hout
      cases hout
    obtain hint | hwt | hpost := h.remembered c hopen hout
    · exact .inl (hint.next h.keyed hout hs)
    · obtain hc | ⟨hwants, ready, hsel⟩ := hasTask_step h.keyed hstep hopen hwt.hasTask
      · exact htask hc
      · refine .inl ⟨hwants, fun ready' hread => ?_⟩
        rw [hsel] at hread
        cases hread
    · obtain hc | hpost := hpost.next hs
      · exact htask hc
      · exact .inr (.inr hpost)
  · exact .inr (.inr hpost)

theorem awake_initial : Awake initial where
  keyed := ⟨fun c x hx => (by cases hx), fun t ht => (by cases ht), fun w stage hw => (by cases hw),
    fun w c k hw => (by cases hw)⟩
  tasks t ht := by cases ht
  remembered c ho := by cases ho

/-- In every run, what waits to be written on an open channel is not forgotten. -/
theorem no_forgotten_write {trace : List (Reactor × ReactorEvent)} {s : Reactor}
    (h : runs.Run trace s) {c : ConnectionId} (ho : s.isOpen c = true)
    (hout : s.hasOutput c = true) : s.Remembered c :=
  (System.Run.inv Awake awake_initial (fun _ _ _ hs hn => hs.next hn) h).remembered c ho hout

/-- A second worker queues its frame after the last look at the queue. The switch to `OP_READ`
follows, and its task is posted after that. -/
def lateAddition : List ReactorEvent :=
  acceptAndSelect ++ workerSends ++ [.task, .task, .key (.bytes []), .key .closed,
    .select [⟨1, ⟨false, true⟩⟩], .task, .key (.bytes []), .write (.accepted 1), .write .failed,
    .finish false, .send 8 1 [0], .add 8, .toRead, .keyFor 8, .post 8]

theorem no_forgotten_write_late : ∃ trace s, runs.Run trace s ∧ s.wantsWrite 1 = false ∧
    s.Remembered 1 := by
  obtain ⟨trace, s, hr, hs⟩ := System.exists_run (M := runs) lateAddition
    (fun _ s => s.isOpen 1 && s.hasOutput 1 && !s.wantsWrite 1) (by decide)
  rw [Bool.and_eq_true, Bool.and_eq_true, Bool.not_eq_true'] at hs
  exact ⟨trace, s, hr, hs.2, no_forgotten_write hr hs.1.1 hs.1.2⟩

end Reactor

end Stomp
