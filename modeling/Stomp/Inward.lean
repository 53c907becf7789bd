import Stomp.Exceptions
import Stomp.ReadLoops

/-!
# The bytes that come in

What is read is cut into frames by the thread of the connection, or by its worker. No order of the
steps loses, doubles or mixes any of it. On the reactor an exception in a handler costs the
connection the rest of a buffer, and the others nothing.
-/

namespace Stomp

open Utf8

namespace NonBlockingConnectionHandler

/-- The decoder after these tasks. -/
def decoderAfter (encdec : StompMessageEncoderDecoder) : List Bytes → StompMessageEncoderDecoder
  | [] => encdec
  | buf :: bufs => decoderAfter (taskFrames encdec buf).2 bufs

theorem frames_append (encdec : StompMessageEncoderDecoder) (bufs bufs' : List Bytes) :
    frames encdec (bufs ++ bufs') = frames encdec bufs ++ frames (decoderAfter encdec bufs) bufs' := by
  induction bufs generalizing encdec with
  | nil => rfl
  | cons buf bufs ih => rw [List.cons_append, frames, frames, ih, List.append_assoc, decoderAfter]

theorem frames_snoc (encdec : StompMessageEncoderDecoder) (bufs : List Bytes) (buf : Bytes) :
    frames encdec (bufs ++ [buf]) =
      frames encdec bufs ++ (taskFrames (decoderAfter encdec bufs) buf).1 := by
  rw [frames_append, frames, frames, List.append_nil]

theorem decoderAfter_snoc (encdec : StompMessageEncoderDecoder) (bufs : List Bytes) (buf : Bytes) :
    decoderAfter encdec (bufs ++ [buf]) = (taskFrames (decoderAfter encdec bufs) buf).2 := by
  induction bufs generalizing encdec with
  | nil => rfl
  | cons b bufs ih => exact ih _

/-- These are the buffers that were read, so many of them cut short at most. -/
inductive Cut : Nat → List Bytes → List Bytes → Prop
  | nil {n} : Cut n [] []
  | whole {n buf bufs reads} (h : Cut n bufs reads) : Cut n (buf :: bufs) (buf :: reads)
  | short {n buf read bufs reads} (hbuf : buf <+: read) (h : Cut n bufs reads) :
    Cut (n + 1) (buf :: bufs) (read :: reads)

theorem Cut.succ {n : Nat} {bufs reads : List Bytes} (h : Cut n bufs reads) :
    Cut (n + 1) bufs reads := by
  induction h with
  | nil => exact .nil
  | whole _ ih => exact .whole ih
  | short hbuf _ ih => exact .short hbuf ih

theorem Cut.snoc {n : Nat} {bufs reads : List Bytes} (h : Cut n bufs reads) (buf : Bytes) :
    Cut n (bufs ++ [buf]) (reads ++ [buf]) := by
  induction h with
  | nil => exact .whole .nil
  | whole _ ih => exact .whole ih
  | short hbuf _ ih => exact .short hbuf ih

theorem Cut.shorten {n : Nat} {pre post reads : List Bytes} {x rest : Bytes}
    (h : Cut n (pre ++ (x ++ rest) :: post) reads) : Cut (n + 1) (pre ++ x :: post) reads := by
  -- One more buffer is cut short.
  induction pre generalizing n reads with
  | nil =>
    cases h with
    | whole h => exact .short (List.prefix_append _ _) h
    | short hbuf h => exact .short ((List.prefix_append _ _).trans hbuf) h.succ
  | cons buf pre ih =>
    cases h with
    | whole h => exact .whole (ih h)
    | short hbuf h => exact .short hbuf (ih h)

end NonBlockingConnectionHandler

/-- The frames that a trace gives to `process` of a connection. -/
def Threads.framesOf (c : ConnectionId) (trace : List (Threads × ThreadEvent)) : List StompFrame :=
  trace.filterMap fun e =>
    match e.2 with
    | .process d f => if d = c then some f else none
    | _ => none

theorem Threads.framesOf_append (c : ConnectionId) (trace trace' : List (Threads × ThreadEvent)) :
    framesOf c (trace ++ trace') = framesOf c trace ++ framesOf c trace' := List.filterMap_append

theorem Threads.framesOf_nil {c : ConnectionId} {trace : List (Threads × ThreadEvent)}
    (h : ∀ e ∈ trace, ∀ d f, e.2 ≠ .process d f) : framesOf c trace = [] := by
  unfold framesOf
  rw [List.filterMap_eq_nil_iff]
  intro e he
  split
  · next d f hprocess => exact absurd hprocess (h e he d f)
  · rfl

/-- The buffer that is in work, and those that wait. -/
def Actor.buffers (a : Actor) : List Bytes := a.task.toList ++ a.pending

namespace Reactor

theorem present_next {s s' : Reactor} {e : ReactorEvent} (hs : s.next e = some s')
    (he : ∀ d, e ≠ .accept d) (c : ConnectionId) :
    (s'.handlers.lookup c).isSome = (s.handlers.lookup c).isSome := by
  -- Channels are never forgotten, and come with an accept only.
  have hset : ∀ {r : Reactor} {d x y}, r.handlers.lookup d = some x →
      ((r.setHandler d y).handlers.lookup c).isSome = (r.handlers.lookup c).isSome := by
    intro r d x y hx
    rw [lookup_setHandler]
    split
    · next hcd => rw [hcd, hx]; rfl
    · rfl
  have hclose : ∀ d, ((s.close d).handlers.lookup c).isSome = (s.handlers.lookup c).isSome := by
    intro d
    rw [lookup_close]
    split
    · next hcd => rw [hcd, Option.isSome_map]
    · rfl
  cases next_step hs with
  | accept => exact absurd rfl (he _)
  | add hw hx => exact hset hx
  | select =>
    dsimp only
    rw [Table.lookup_mapValues, Option.isSome_map]
  | task hsel ht hx => exact hset (r := { s with selectorTasks := _ }) hx
  | keyClosed | writeFails | finishClose => exact hclose _
  | writePart hsel hx => exact hset hx
  | writeAll hsel hx => exact hset hx
  | toRead hsel hx => exact hset hx
  | send | sendClosed | keyFor | post | taskFails | goOn | keyWrite | finishOpen => rfl

theorem submitted_present {s : Reactor} {e : ReactorEvent} {c : ConnectionId} {bs : Bytes}
    (h : s.submitted e = some (c, bs)) : (s.handlers.lookup c).isSome = true := by
  unfold submitted at h
  split at h
  · split at h
    · split at h
      · next hread =>
        cases h
        rw [Bool.and_eq_true] at hread
        obtain ⟨x, hx, -⟩ := (Option.any_eq_true _ _).mp hread.2
        rw [hx]
        rfl
      · cases h
    · cases h
  · cases h

end Reactor

/-! ## The reactor -/

namespace ReactorServer

open NonBlockingConnectionHandler

/-- The channel and the bytes of a step in which the selector thread reads. -/
def reads (e : ReactorServer × ReactorServerEvent) : Option (ConnectionId × Bytes) :=
  (e.1.selectorEvent e.2).bind e.1.reactor.submitted

/-- What the selector thread read from a channel, read by read. -/
def readFrom (c : ConnectionId) (trace : List (ReactorServer × ReactorServerEvent)) : List Bytes :=
  trace.filterMap fun e => (reads e).bind fun x => if x.1 = c then some x.2 else none

theorem readFrom_one (c : ConnectionId) {e : ReactorServer × ReactorServerEvent}
    {o : Option (ConnectionId × Bytes)} (h : reads e = o) :
    readFrom c [e] = (o.bind fun x => if x.1 = c then some x.2 else none).toList := by
  subst h
  unfold readFrom
  cases h : (reads e).bind fun x => if x.1 = c then some x.2 else none <;> simp [h]

theorem readFrom_snoc (c : ConnectionId) (trace : List (ReactorServer × ReactorServerEvent))
    (e : ReactorServer × ReactorServerEvent) :
    readFrom c (trace ++ [e]) = readFrom c trace ++ readFrom c [e] := List.filterMap_append

theorem framesOf_image {s : ReactorServer} {e : ReactorServerEvent} (he : ∀ c, e ≠ .decode c)
    (c : ConnectionId) : Threads.framesOf c (simulation.image (s, e)) = [] := by
  apply Threads.framesOf_nil
  intro x hx d f hprocess
  have hlabel : ThreadEvent.process d f ∈ s.labels e := hprocess ▸ Threads.runs.mem_entries hx
  cases e with
  | decode c => exact absurd rfl (he c)
  | accept | call | iterate => simp [labels] at hlabel
  | select | task | key | write | finish | toRead | start | add | keyFor | post | done =>
    simp [labels] at hlabel

/-! ### One worker -/

/-- The frames that a worker processed are those of the buffers that it went through. While a task is
in work, that is so for whatever part of the rest of its buffer it still gets to. -/
inductive Decodes (fs : List StompFrame) (reads : List Bytes) (n : Nat) : Actor → Prop
  | rests {encdec pending bufs} (hcut : Cut n (bufs ++ pending) reads)
    (hframes : fs = frames .initial bufs) (hdecoder : encdec = decoderAfter .initial bufs) :
    Decodes fs reads n ⟨encdec, pending, none⟩
  | works {encdec pending bs bufs x} (hcut : Cut n (bufs ++ (x ++ bs) :: pending) reads)
    (hframes : ∀ rest, rest <+: bs →
      fs ++ (taskFrames encdec rest).1 = frames .initial (bufs ++ [x ++ rest]))
    (hdecoder : ∀ rest, rest <+: bs →
      (taskFrames encdec rest).2 = decoderAfter .initial (bufs ++ [x ++ rest])) :
    Decodes fs reads n ⟨encdec, pending, some bs⟩

section Worker

variable {fs : List StompFrame} {reads : List Bytes} {n : Nat} {encdec : StompMessageEncoderDecoder}
  {pending : List Bytes}

theorem Decodes.read {a : Actor} (h : Decodes fs reads n a) (bs : Bytes) :
    Decodes fs (reads ++ [bs]) n { a with pending := a.pending ++ [bs] } := by
  cases h with
  | rests hcut hframes hdecoder =>
    refine .rests ?_ hframes hdecoder
    rw [← List.append_assoc]
    exact hcut.snoc bs
  | works hcut hframes hdecoder =>
    refine .works ?_ hframes hdecoder
    rw [← List.cons_append, ← List.append_assoc]
    exact hcut.snoc bs

theorem Decodes.start {bs : Bytes} (h : Decodes fs reads n ⟨encdec, bs :: pending, none⟩) :
    Decodes fs reads n ⟨encdec, pending, some bs⟩ := by
  cases h with
  | @rests _ _ bufs hcut hframes hdecoder =>
    refine .works (x := []) hcut (fun rest _ => ?_) fun rest _ => ?_
    · rw [List.nil_append, frames_snoc, ← hframes, ← hdecoder]
    · rw [List.nil_append, decoderAfter_snoc, ← hdecoder]

theorem Decodes.done (h : Decodes fs reads n ⟨encdec, pending, some []⟩) :
    Decodes fs reads n ⟨encdec, pending, none⟩ := by
  cases h with
  | @works _ _ _ bufs x hcut hframes hdecoder =>
    rw [List.append_cons] at hcut
    exact .rests hcut ((List.append_nil fs).symm.trans (hframes [] List.nil_prefix))
      (hdecoder [] List.nil_prefix)

theorem Decodes.byte {encdec' : StompMessageEncoderDecoder} {b : UInt8} {bs : Bytes}
    (h : Decodes fs reads n ⟨encdec, pending, some (b :: bs)⟩) (new : List StompFrame)
    (hnew : ∀ rest, taskFrames encdec (b :: rest) =
      (new ++ (taskFrames encdec' rest).1, (taskFrames encdec' rest).2)) :
    Decodes (fs ++ new) reads n ⟨encdec', pending, some bs⟩ := by
  cases h with
  | @works _ _ _ bufs x hcut hframes hdecoder =>
    have hx : ∀ rest, x ++ b :: rest = (x ++ [b]) ++ rest := fun rest => List.append_cons x b rest
    rw [hx] at hcut
    refine .works hcut (fun rest hrest => ?_) fun rest hrest => ?_
    · have hold := hframes (b :: rest) (List.cons_prefix_cons.mpr ⟨rfl, hrest⟩)
      rwa [hnew, hx, ← List.append_assoc] at hold
    · have hold := hdecoder (b :: rest) (List.cons_prefix_cons.mpr ⟨rfl, hrest⟩)
      rwa [hnew, hx] at hold

theorem Decodes.exception {encdec' : StompMessageEncoderDecoder} {b : UInt8} {bs : Bytes}
    (h : Decodes fs reads n ⟨encdec, pending, some (b :: bs)⟩)
    (hthrow : encdec.decodeNextByte b = (.exception, encdec')) :
    Decodes fs reads n ⟨encdec', pending, none⟩ := by
  have htask : taskFrames encdec (b :: bs) = ([], encdec') := by rw [taskFrames, hthrow]
  cases h with
  | @works _ _ _ bufs x hcut hframes hdecoder =>
    rw [List.append_cons] at hcut
    have hfs := hframes _ (List.prefix_refl _)
    have henc := hdecoder _ (List.prefix_refl _)
    rw [htask] at hfs henc
    exact .rests hcut ((List.append_nil fs).symm.trans hfs) henc

theorem Decodes.throws {bs : Bytes} (h : Decodes fs reads n ⟨encdec, pending, some bs⟩) :
    Decodes fs reads (n + 1) ⟨encdec, pending, none⟩ := by
  -- The handler throws, and the rest of the buffer is lost.
  cases h with
  | @works _ _ _ bufs x hcut hframes hdecoder =>
    have hfs := hframes [] List.nil_prefix
    have henc := hdecoder [] List.nil_prefix
    rw [List.append_nil] at hfs henc
    have hshort := hcut.shorten
    rw [List.append_cons] at hshort
    exact .rests hshort ((List.append_nil fs).symm.trans hfs) henc

theorem Decodes.frames {a : Actor} (h : Decodes fs reads n a) : ∃ bufs, Cut n bufs reads ∧
    fs ++ frames a.encdec a.buffers = frames .initial bufs := by
  cases h with
  | rests hcut hframes hdecoder =>
    refine ⟨_, hcut, ?_⟩
    rw [frames_append, hframes, hdecoder]
    rfl
  | @works encdec pending bs bufs x hcut hframes hdecoder =>
    refine ⟨_, hcut, ?_⟩
    rw [List.append_cons, frames_append, ← hframes bs (List.prefix_refl _),
      ← hdecoder bs (List.prefix_refl _), List.append_assoc]
    rfl

end Worker

/-! ### All of them -/

/-- What was processed and read of each connection, and how often a handler of it threw. -/
structure Inward (fs : ConnectionId → List StompFrame) (reads : ConnectionId → List Bytes)
    (n : ConnectionId → Nat) (s : ReactorServer) : Prop where
  present : ∀ c, (s.actors.lookup c).isSome = (s.reactor.handlers.lookup c).isSome
  decodes : ∀ c a, s.actors.lookup c = some a → Decodes (fs c) (reads c) (n c) a
  fresh : ∀ c, s.actors.lookup c = none → fs c = [] ∧ reads c = []

section Inward

variable {fs fs' : ConnectionId → List StompFrame} {reads reads' : ConnectionId → List Bytes}
  {n n' : ConnectionId → Nat} {s s' : ReactorServer} {e : ReactorServerEvent} {c : ConnectionId}

theorem Inward.keep (h : Inward fs reads n s) (hactors : s'.actors = s.actors)
    (hpresent : ∀ c, (s'.reactor.handlers.lookup c).isSome = (s.reactor.handlers.lookup c).isSome) :
    Inward fs reads n s' := by
  refine ⟨fun c => ?_, fun c a ha => ?_, fun c hc => ?_⟩
  · rw [hactors, hpresent, h.present]
  · exact h.decodes c a (hactors ▸ ha)
  · exact h.fresh c (hactors ▸ hc)

theorem Inward.setActor {a a' : Actor} (h : Inward fs reads n s) (ha : s.actors.lookup c = some a)
    (hactors : s'.actors = s.actors.insert c a') (hreactor : s'.reactor = s.reactor)
    (hsame : ∀ d, d ≠ c → fs' d = fs d ∧ reads' d = reads d ∧ n' d = n d)
    (hdecodes : Decodes (fs' c) (reads' c) (n' c) a') : Inward fs' reads' n' s' := by
  have hlookup : ∀ d, s'.actors.lookup d = if d = c then some a' else s.actors.lookup d := by
    intro d
    rw [hactors, Table.lookup_insert_if]
  refine ⟨fun d => ?_, fun d b hb => ?_, fun d hd => ?_⟩
  · rw [hlookup, hreactor, ← h.present]
    split
    · next hdc => rw [hdc, ha]; rfl
    · rfl
  · rw [hlookup] at hb
    by_cases hdc : d = c
    · subst hdc
      rw [if_pos rfl] at hb
      cases hb
      exact hdecodes
    · rw [if_neg hdc] at hb
      obtain ⟨h1, h2, h3⟩ := hsame d hdc
      rw [h1, h2, h3]
      exact h.decodes d b hb
  · rw [hlookup] at hd
    by_cases hdc : d = c
    · rw [if_pos hdc] at hd
      cases hd
    · rw [if_neg hdc] at hd
      obtain ⟨h1, h2, -⟩ := hsame d hdc
      rw [h1, h2]
      exact h.fresh d hd

theorem Inward.selectorStep {e' : ReactorEvent} (h : Inward fs reads n s)
    (hne : ∀ d, e' ≠ .accept d) (hs : s.selectorStep e' = some s') :
    Inward fs (fun c => reads c ++ ((s.reactor.submitted e').bind fun x =>
      if x.1 = c then some x.2 else none).toList) n s' := by
  obtain ⟨r, hr, rfl⟩ := Option.map_eq_some_iff.mp hs
  have hpresent := Reactor.present_next hr hne
  cases hsub : s.reactor.submitted e' with
  | none =>
    have hreads : (fun c => reads c ++ (none.bind fun x : ConnectionId × Bytes =>
        if x.1 = c then some x.2 else none).toList) = reads := by simp
    rw [hreads]
    exact h.keep rfl hpresent
  | some x =>
    obtain ⟨d, bs⟩ := x
    have hd : (s.actors.lookup d).isSome = true :=
      (h.present d).trans (Reactor.submitted_present hsub)
    have hlookup : ∀ c, (s.actors.modify d fun a => { a with pending := a.pending ++ [bs] }).lookup c =
        if c = d then (s.actors.lookup d).map fun a => { a with pending := a.pending ++ [bs] }
        else s.actors.lookup c := fun c => Table.lookup_modify _ _ _ _
    refine ⟨fun c => ?_, fun c a ha => ?_, fun c hc => ?_⟩ <;>
      simp only [Option.map_some, Option.getD_some, hlookup] at *
    · rw [hpresent, ← h.present]
      split
      · next hcd => rw [hcd, Option.isSome_map]
      · rfl
    · by_cases hcd : c = d
      · subst hcd
        rw [if_pos rfl] at ha
        obtain ⟨b, hb, rfl⟩ := Option.map_eq_some_iff.mp ha
        simpa using (h.decodes c b hb).read bs
      · rw [if_neg hcd] at ha
        simpa [Ne.symm hcd] using h.decodes c a ha
    · by_cases hcd : c = d
      · rw [if_pos hcd, Option.map_eq_none_iff] at hc
        rw [hc] at hd
        cases hd
      · rw [if_neg hcd] at hc
        simpa [Ne.symm hcd] using h.fresh c hc

theorem Inward.accept (h : Inward fs reads n s) (hs : s.accept = some s') : Inward fs reads n s' := by
  obtain ⟨r, hr, hs⟩ := Option.bind_eq_some_iff.mp hs
  obtain ⟨t, -, rfl⟩ := Option.map_eq_some_iff.mp hs
  generalize s.threads.server.connectionCounter + 1 = c at hr ⊢
  have hlookup : ∀ d, (s.actors.insert c ⟨.initial, [], none⟩).lookup d =
      if d = c then some ⟨.initial, [], none⟩ else s.actors.lookup d :=
    fun d => Table.lookup_insert_if _ _ _ _
  unfold Reactor.handleAccept at hr
  split at hr
  · next hsel hnone =>
    cases hr
    have hold : s.actors.lookup c = none := by
      rw [← Option.isNone_iff_eq_none, ← Option.not_isSome, h.present, hnone]
      rfl
    refine ⟨fun d => ?_, fun d a ha => ?_, fun d hd => ?_⟩
    · rw [hlookup, Reactor.lookup_setHandler]
      split
      · rfl
      · exact h.present d
    · rw [hlookup] at ha
      by_cases hdc : d = c
      · subst hdc
        rw [if_pos rfl] at ha
        cases ha
        obtain ⟨h1, h2⟩ := h.fresh d hold
        rw [h1, h2]
        have hcut : Cut (n d) ([] ++ []) [] := .nil
        exact .rests hcut rfl rfl
      · rw [if_neg hdc] at ha
        exact h.decodes d a ha
    · rw [hlookup] at hd
      by_cases hdc : d = c
      · rw [if_pos hdc] at hd
        cases hd
      · rw [if_neg hdc] at hd
        exact h.fresh d hd
  · cases hr

theorem framesOf_decode (s : ReactorServer) (c d : ConnectionId) :
    Threads.framesOf d (simulation.image (s, .decode c)) =
      if c = d then (s.frameDecoded c).toList else [] := by
  rw [image_decode]
  cases s.frameDecoded c with
  | none => simp [Threads.framesOf]
  | some f => by_cases hcd : c = d <;> simp [Threads.framesOf, hcd]

theorem Inward.decode (h : Inward fs reads n s) (hs : s.decode c = some s') :
    Inward (fun d => fs d ++ if c = d then (s.frameDecoded c).toList else []) reads n s' := by
  have hothers : ∀ d, d ≠ c → (fs d ++ if c = d then (s.frameDecoded c).toList else []) = fs d ∧
      reads d = reads d ∧ n d = n d := by
    intro d hdc
    rw [if_neg (Ne.symm hdc), List.append_nil]
    exact ⟨rfl, rfl, rfl⟩
  unfold ReactorServer.decode at hs
  split at hs
  · next encdec pending b bs hactor =>
    have hd := h.decodes c _ hactor
    have hdecoded := frameDecoded_task hactor
    split at hs
    · split at hs
      · next encdec' hnull =>
        cases hs
        refine h.setActor hactor rfl rfl hothers ?_
        rw [if_pos rfl, hdecoded, hnull]
        exact hd.byte [] fun rest => by rw [taskFrames, hnull]; rfl
      · next f encdec' hframe =>
        obtain ⟨t, -, rfl⟩ := Option.map_eq_some_iff.mp hs
        refine h.setActor hactor rfl rfl hothers ?_
        rw [if_pos rfl, hdecoded, hframe]
        exact hd.byte [f] fun rest => by rw [taskFrames, hframe]; rfl
      · next encdec' hexception =>
        cases hs
        refine h.setActor hactor rfl rfl hothers ?_
        rw [if_pos rfl, hdecoded, hexception]
        exact (List.append_nil (fs c)).symm ▸ hd.exception hexception
    · cases hs
  · cases hs

theorem Inward.sendStep {e' : ReactorEvent} (h : Inward fs reads n s) (hne : ∀ d, e' ≠ .accept d)
    (hs : s.sendStep e' = some s') : Inward fs reads n s' := by
  obtain ⟨r, hr, rfl⟩ := Option.map_eq_some_iff.mp hs
  exact h.keep rfl (Reactor.present_next hr hne)

theorem Inward.call (h : Inward fs reads n s) (hs : s.call c = some s') : Inward fs reads n s' := by
  obtain ⟨-, f, k, rest, -, -, hactors, hreactor, -⟩ := call_cases hs
  refine h.keep hactors fun d => ?_
  rw [hreactor]
  obtain hsame | ⟨_, _, -, hworker⟩ := sendTo_cases s c
  · rw [hsame]
  · rw [hworker]
    rfl

theorem Inward.start (h : Inward fs reads n s) (hs : s.start c = some s') : Inward fs reads n s' := by
  unfold ReactorServer.start at hs
  split at hs
  · next encdec bs pending hactor =>
    cases hs
    exact h.setActor hactor rfl rfl (fun _ _ => ⟨rfl, rfl, rfl⟩) (h.decodes c _ hactor).start
  · cases hs

theorem Inward.done (h : Inward fs reads n s) (hs : s.done c = some s') : Inward fs reads n s' := by
  unfold ReactorServer.done at hs
  split at hs
  · next encdec pending hactor =>
    split at hs
    · cases hs
      exact h.setActor hactor rfl rfl (fun _ _ => ⟨rfl, rfl, rfl⟩) (h.decodes c _ hactor).done
    · cases hs
  · cases hs

theorem Inward.step (h : Inward fs reads n s) (hs : s.next e = some s') :
    Inward (fun c => fs c ++ Threads.framesOf c (simulation.image (s, e)))
      (fun c => reads c ++ readFrom c [(s, e)]) n s' := by
  have hframes : (∀ c, e ≠ .decode c) →
      (fun c => fs c ++ Threads.framesOf c (simulation.image (s, e))) = fs := by
    intro he
    funext c
    rw [framesOf_image he, List.append_nil]
  have hreads : s.selectorEvent e = none → (fun c => reads c ++ readFrom c [(s, e)]) = reads := by
    intro he
    funext c
    rw [readFrom_one c (o := none) (by simp [ReactorServer.reads, he])]
    exact List.append_nil _
  have hselector : ∀ e', s.selectorEvent e = some e' → (∀ d, e' ≠ .accept d) →
      (∀ c, e ≠ .decode c) → s.selectorStep e' = some s' →
      Inward (fun c => fs c ++ Threads.framesOf c (simulation.image (s, e)))
        (fun c => reads c ++ readFrom c [(s, e)]) n s' := by
    intro e' he hne hdecode hs'
    rw [hframes hdecode]
    simp only [readFrom_one _ (show ReactorServer.reads (s, e) = s.reactor.submitted e' by
      simp [ReactorServer.reads, he])]
    exact h.selectorStep hne hs'
  have hquiet : (∀ c, e ≠ .decode c) → s.selectorEvent e = none → Inward fs reads n s' →
      Inward (fun c => fs c ++ Threads.framesOf c (simulation.image (s, e)))
        (fun c => reads c ++ readFrom c [(s, e)]) n s' := by
    intro hdecode he hkept
    rw [hframes hdecode, hreads he]
    exact hkept
  cases e with
  | select | task | key | write | finish | toRead => exact hselector _ rfl (by simp) (by simp) hs
  | decode c =>
    rw [hreads rfl]
    simp only [framesOf_decode]
    exact h.decode hs
  | accept => exact hquiet (by simp) rfl (h.accept hs)
  | add | keyFor | post => exact hquiet (by simp) rfl (h.sendStep (by simp) hs)
  | call c => exact hquiet (by simp) rfl (h.call hs)
  | iterate c entries =>
    obtain ⟨-, f, topic, rest, -, rfl⟩ := iterate_cases hs
    exact hquiet (by simp) rfl (h.keep rfl fun _ => rfl)
  | start c => exact hquiet (by simp) rfl (h.start hs)
  | done c => exact hquiet (by simp) rfl (h.done hs)

theorem Inward.throws {done : Bool} (h : Inward fs reads n s) (hs : s.throws c done = some s') :
    Inward fs reads (fun d => n d + if c = d then 1 else 0) s' := by
  obtain ⟨encdec, pending, bs, t, hactor, -, rfl⟩ := throws_cases hs
  refine h.setActor hactor rfl rfl (fun d hdc => ⟨rfl, rfl, ?_⟩) ?_
  · rw [if_neg (Ne.symm hdc), Nat.add_zero]
  · rw [if_pos rfl]
    exact (h.decodes c _ hactor).throws

end Inward

theorem inward_run {trace : List (ReactorServer × Faulty ReactorServerEvent)} {s : ReactorServer}
    (h : faulty.Run trace s) :
    Inward (fun c => Threads.framesOf c (simulation.trace (Faulty.steps trace)))
      (fun c => readFrom c (Faulty.steps trace)) (fun c => Faulty.thrown c trace) s := by
  induction h with
  | nil => exact ⟨fun c => rfl, fun c a ha => (by cases ha), fun c _ => ⟨rfl, rfl⟩⟩
  | @snoc trace s e s' _ hs ih =>
    cases e with
    | step e =>
      simp only [Faulty.steps_step, Faulty.thrown_step, simulation.trace_snoc, Threads.framesOf_append,
        readFrom_snoc]
      exact ih.step hs
    | throws c done =>
      simp only [Faulty.steps_throws, Faulty.thrown_throws]
      exact ih.throws hs

end ReactorServer

/-! ## One thread for one client -/

namespace StompMessageEncoderDecoder

theorem decodeAll_snoc (d : StompMessageEncoderDecoder) (bs : Bytes) (b : UInt8) :
    (d.decodeAll (bs ++ [b])).1.filterMap Decoded.toFrame = (d.decodeAll bs).1.filterMap Decoded.toFrame ++
        ((d.decodeAll bs).2.decodeNextByte b).1.toFrame.toList ∧
      (d.decodeAll (bs ++ [b])).2 = ((d.decodeAll bs).2.decodeNextByte b).2 := by
  induction bs generalizing d with
  | nil =>
    refine ⟨?_, rfl⟩
    simp only [List.nil_append, decodeAll]
    cases h : (d.decodeNextByte b).1 <;> simp [Decoded.toFrame]
  | cons x bs ih =>
    obtain ⟨h1, h2⟩ := ih (d.decodeNextByte x).2
    refine ⟨?_, h2⟩
    simp only [List.cons_append, decodeAll]
    split
    · exact h1
    · rw [List.filterMap_cons, List.filterMap_cons, h1]
      cases (d.decodeNextByte x).1.toFrame <;> rfl

end StompMessageEncoderDecoder

namespace Blocking

/-- The bytes that the thread of a connection read. -/
def readFrom (c : ConnectionId) (trace : List (Blocking × BlockingEvent)) : Bytes :=
  trace.filterMap fun e =>
    match e.2 with
    | .read d (.byte x) => if d = c then some x else none
    | _ => none

theorem readFrom_snoc (c : ConnectionId) (trace : List (Blocking × BlockingEvent))
    (e : Blocking × BlockingEvent) : readFrom c (trace ++ [e]) = readFrom c trace ++ readFrom c [e] :=
  List.filterMap_append

theorem image_byte (b : Blocking) (c : ConnectionId) (x : UInt8) :
    simulation.image (b, .read c (.byte x)) =
      (b.frameRead c x).toList.map fun f => (b.threads, .process c f) := by
  show Threads.runs.entries ((b.frameRead c x).toList.map (.process c)) b.threads = _
  cases b.frameRead c x with
  | none => rfl
  | some f => exact Threads.runs.entries_one _ _

theorem framesOf_byte (b : Blocking) (c d : ConnectionId) (x : UInt8) :
    Threads.framesOf d (simulation.image (b, .read c (.byte x))) =
      if c = d then (b.frameRead c x).toList else [] := by
  rw [image_byte]
  cases b.frameRead c x with
  | none => simp [Threads.framesOf]
  | some f => by_cases hcd : c = d <;> simp [Threads.framesOf, hcd]

theorem quiet_event {b : Blocking} {e : BlockingEvent} (he : ∀ c x, e ≠ .read c (.byte x))
    (c : ConnectionId) : readFrom c [(b, e)] = [] ∧
      Threads.framesOf c (simulation.image (b, e)) = [] := by
  constructor
  · unfold readFrom
    rw [List.filterMap_eq_nil_iff]
    intro x hx
    cases List.mem_singleton.mp hx
    split
    · next d y hread => exact absurd hread (he d y)
    · rfl
  · apply Threads.framesOf_nil
    intro x hx d f hprocess
    have hlabel : ThreadEvent.process d f ∈ b.labels e := hprocess ▸ Threads.runs.mem_entries hx
    cases e with
    | read c result =>
      cases result with
      | byte y => exact he c y rfl
      | endOfStream | ioException => simp [labels] at hlabel
    | accept | loop | call | iterate | finish => simp [labels] at hlabel

theorem counter_next {t t' : Threads} {e : ThreadEvent} (hs : t.next e = some t') :
    t.server.connectionCounter ≤ t'.server.connectionCounter ∧
      (e ≠ .accept → t'.server.connectionCounter = t.server.connectionCounter) := by
  obtain ⟨rfl, rfl⟩ | ⟨d, f, p, rfl, -, -, rfl⟩ | ⟨d, f, k, rest, rfl, -, rfl⟩ |
    ⟨d, f, topic, rest, entries, rfl, -, rfl⟩ | ⟨d, rfl, rfl⟩ := Threads.next_cases hs
  · exact ⟨Nat.le_succ _, fun h => absurd rfl h⟩
  · exact ⟨Nat.le_refl _, fun _ => rfl⟩
  · have hcounter : (Server.answer k (t.server, [])).2.1.connectionCounter =
        t.server.connectionCounter := by cases k <;> rfl
    exact ⟨Nat.le_of_eq hcounter.symm, fun _ => hcounter⟩
  · exact ⟨Nat.le_refl _, fun _ => rfl⟩
  · exact ⟨Nat.le_refl _, fun _ => rfl⟩

/-- What was processed of each connection are the frames of the bytes that were read. -/
structure Inward (fs : ConnectionId → List StompFrame) (bytes : ConnectionId → Bytes)
    (b : Blocking) : Prop where
  bounded : ∀ c, b.threads.server.connectionCounter < c → b.handlers c = none
  fresh : ∀ c, b.handlers c = none → bytes c = []
  decoder : ∀ c h, b.handlers c = some h →
    (StompMessageEncoderDecoder.initial.decodeAll (bytes c)).2 = h.encdec
  frames : ∀ c, fs c =
    (StompMessageEncoderDecoder.initial.decodeAll (bytes c)).1.filterMap Decoded.toFrame

section Inward

variable {fs : ConnectionId → List StompFrame} {bytes : ConnectionId → Bytes} {b b' : Blocking}
  {e : BlockingEvent} {c : ConnectionId}

theorem Inward.keep (h : Inward fs bytes b)
    (hcounter : b'.threads.server.connectionCounter = b.threads.server.connectionCounter)
    (hsame : ∀ c, (b'.handlers c).map (·.encdec) = (b.handlers c).map (·.encdec)) :
    Inward fs bytes b' := by
  have hnone : ∀ c, b'.handlers c = none ↔ b.handlers c = none := by
    intro c
    rw [← Option.map_eq_none_iff (f := (·.encdec)), hsame, Option.map_eq_none_iff]
  refine ⟨fun c hc => ?_, fun c hc => h.fresh c ((hnone c).mp hc), fun c x hx => ?_, h.frames⟩
  · rw [hcounter] at hc
    exact (hnone c).mpr (h.bounded c hc)
  · have hencdec := hsame c
    rw [hx, Option.map_some] at hencdec
    obtain ⟨y, hy, hxy⟩ := Option.map_eq_some_iff.mp hencdec.symm
    rw [h.decoder c y hy, hxy]

theorem Inward.accept (h : Inward fs bytes b) (hs : b.next .accept = some b') :
    Inward fs bytes b' := by
  simp only [next] at hs
  obtain ⟨t, ht, rfl⟩ := Option.map_eq_some_iff.mp hs
  have hfresh := h.bounded (b.threads.server.connectionCounter + 1) (Nat.lt_succ_self _)
  have hcounter : t.server.connectionCounter = b.threads.server.connectionCounter + 1 := by
    cases ht
    rfl
  refine ⟨fun c hc => ?_, fun c hc => ?_, fun c x hx => ?_, h.frames⟩
  · have hlt : b.threads.server.connectionCounter + 1 < c := hcounter ▸ hc
    exact (Function.update_of_ne (Nat.ne_of_gt hlt) _ _).trans (h.bounded c (Nat.lt_of_succ_lt hlt))
  · by_cases hnew : c = b.threads.server.connectionCounter + 1
    · exact h.fresh c (hnew ▸ hfresh)
    · exact h.fresh c ((Function.update_of_ne hnew _ _).symm.trans hc)
  · by_cases hnew : c = b.threads.server.connectionCounter + 1
    · subst hnew
      rw [h.fresh _ hfresh]
      cases (Function.update_self _ _ _).symm.trans hx
      rfl
    · exact h.decoder c x ((Function.update_of_ne hnew _ _).symm.trans hx)

theorem byte_cases {x : UInt8} (hs : b.next (.read c (.byte x)) = some b') :
    ∃ encdec connected phase, b.handlers c = some ⟨encdec, connected, .read⟩ ∧
      b'.threads.server.connectionCounter = b.threads.server.connectionCounter ∧
      b'.handlers = Function.update b.handlers c
        (some ⟨(encdec.decodeNextByte x).2, connected, phase⟩) := by
  simp only [next] at hs
  split at hs
  · next encdec connected hphase =>
    refine ⟨encdec, connected, ?_⟩
    split at hs
    · next encdec' hdecode =>
      cases hs
      exact ⟨.loop, hphase, rfl, by rw [hdecode]; rfl⟩
    · next f encdec' hdecode =>
      obtain ⟨t, ht, rfl⟩ := Option.map_eq_some_iff.mp hs
      exact ⟨.process, hphase, (counter_next ht).2 (by simp), by rw [hdecode]; rfl⟩
    · next encdec' hdecode =>
      cases hs
      exact ⟨.returned, hphase, rfl, by rw [hdecode]; rfl⟩
  · cases hs

theorem Inward.byte {x : UInt8} (h : Inward fs bytes b) (hs : b.next (.read c (.byte x)) = some b') :
    Inward (fun d => fs d ++ if c = d then (b.frameRead c x).toList else [])
      (fun d => bytes d ++ if c = d then [x] else []) b' := by
  obtain ⟨encdec, connected, phase, hphase, hcounter, hhandlers⟩ := byte_cases hs
  have hdecoder := h.decoder c _ hphase
  obtain ⟨hframes, hlast⟩ := StompMessageEncoderDecoder.decodeAll_snoc .initial (bytes c) x
  refine ⟨fun d hd => ?_, fun d hd => ?_, fun d y hy => ?_, fun d => ?_⟩
  · rw [hcounter] at hd
    have hnone := h.bounded d hd
    have hdc : d ≠ c := by
      rintro rfl
      rw [hphase] at hnone
      cases hnone
    rw [hhandlers, Function.update_of_ne hdc]
    exact hnone
  · rw [hhandlers] at hd
    by_cases hdc : d = c
    · rw [hdc, Function.update_self] at hd
      cases hd
    · rw [Function.update_of_ne hdc] at hd
      rw [if_neg (Ne.symm hdc), List.append_nil]
      exact h.fresh d hd
  · rw [hhandlers] at hy
    by_cases hdc : d = c
    · subst hdc
      rw [Function.update_self] at hy
      cases hy
      rw [if_pos rfl, hlast, hdecoder]
    · rw [Function.update_of_ne hdc] at hy
      rw [if_neg (Ne.symm hdc), List.append_nil]
      exact h.decoder d y hy
  · by_cases hdc : c = d
    · subst hdc
      rw [if_pos rfl, if_pos rfl, hframes, hdecoder, frameRead_phase x hphase, h.frames]
    · rw [if_neg hdc, if_neg hdc, List.append_nil, List.append_nil, h.frames]

theorem encdec_setHandler {x y : BlockingConnectionHandler} (hx : b.handlers c = some x)
    (hxy : y.encdec = x.encdec) (d : ConnectionId) :
    ((b.setHandler c y).handlers d).map (·.encdec) = (b.handlers d).map (·.encdec) := by
  show (Function.update b.handlers c (some y) d).map _ = _
  by_cases hdc : d = c
  · subst hdc
    rw [Function.update_self, hx, Option.map_some, Option.map_some, hxy]
  · rw [Function.update_of_ne hdc]

theorem Inward.quiet (h : Inward fs bytes b) (hbyte : ∀ c x, e ≠ .read c (.byte x))
    (hs : b.next e = some b') : Inward fs bytes b' := by
  cases e with
  | accept => exact h.accept hs
  | loop c =>
    simp only [next] at hs
    split at hs
    · next hphase _ =>
      cases hs
      exact h.keep rfl (encdec_setHandler hphase rfl)
    · cases hs
  | finish c =>
    simp only [next] at hs
    split at hs
    · next hphase =>
      split at hs
      · cases hs
        exact h.keep rfl (encdec_setHandler hphase rfl)
      · cases hs
    · cases hs
  | iterate c entries =>
    simp only [next] at hs
    split at hs
    · obtain ⟨t, ht, rfl⟩ := Option.map_eq_some_iff.mp hs
      exact h.keep ((counter_next ht).2 (by simp)) fun _ => rfl
    · cases hs
  | call c failed =>
    simp only [next] at hs
    split at hs
    · obtain ⟨t, ht, rfl⟩ := Option.map_eq_some_iff.mp hs
      have hcounter := (counter_next ht).2 (by simp)
      split
      · refine h.keep hcounter fun d => ?_
        unfold close
        dsimp only
        rw [Function.update_apply]
        split
        · next d' _ hdd =>
          rw [hdd, Option.map_map]
          rfl
        · rfl
      · exact h.keep hcounter fun _ => rfl
    · cases hs
  | read c result =>
    cases result with
    | byte x => exact absurd rfl (hbyte c x)
    | endOfStream | ioException =>
      simp only [next] at hs
      split at hs
      · next hphase =>
        cases hs
        exact h.keep rfl (encdec_setHandler hphase rfl)
      · cases hs

theorem Inward.step (h : Inward fs bytes b) (hs : b.next e = some b') :
    Inward (fun c => fs c ++ Threads.framesOf c (simulation.image (b, e)))
      (fun c => bytes c ++ readFrom c [(b, e)]) b' := by
  by_cases hbyte : ∃ c x, e = .read c (.byte x)
  · obtain ⟨c, x, rfl⟩ := hbyte
    have hread : ∀ d, readFrom d [(b, .read c (.byte x))] = if c = d then [x] else [] := by
      intro d
      by_cases hcd : c = d <;> simp [readFrom, hcd]
    simp only [framesOf_byte, hread]
    exact h.byte hs
  have hne : ∀ c x, e ≠ .read c (.byte x) := fun c x he => hbyte ⟨c, x, he⟩
  have hfs : (fun c => fs c ++ Threads.framesOf c (simulation.image (b, e))) = fs := by
    funext c
    rw [(quiet_event hne c).2, List.append_nil]
  have hbytes : (fun c => bytes c ++ readFrom c [(b, e)]) = bytes := by
    funext c
    rw [(quiet_event hne c).1, List.append_nil]
  rw [hfs, hbytes]
  exact h.quiet hne hs

theorem Inward.throws {done : Bool} (h : Inward fs bytes b) (hs : b.throws c done = some b') :
    Inward fs bytes b' := by
  obtain ⟨encdec, connected, t, hphase, ht, rfl⟩ := throws_cases hs
  obtain ⟨-, -, -, -, -, -, hcounter⟩ := Threads.throws_cases ht
  refine h.keep hcounter fun d => ?_
  show (Function.update b.handlers c (some _) d).map _ = _
  by_cases hdc : d = c
  · subst hdc
    rw [Function.update_self, hphase]
    rfl
  · rw [Function.update_of_ne hdc]

end Inward

theorem inward_run {trace : List (Blocking × Faulty BlockingEvent)} {b : Blocking}
    (h : faulty.Run trace b) :
    Inward (fun c => Threads.framesOf c (simulation.trace (Faulty.steps trace)))
      (fun c => readFrom c (Faulty.steps trace)) b := by
  induction h with
  | nil => exact ⟨fun _ _ => rfl, fun _ _ => rfl, fun c x hx => (by cases hx), fun _ => rfl⟩
  | @snoc trace b e b' _ hs ih =>
    cases e with
    | step e =>
      simp only [Faulty.steps_step, simulation.trace_snoc, Threads.framesOf_append, readFrom_snoc]
      exact ih.step hs
    | throws c done =>
      simp only [Faulty.steps_throws]
      exact ih.throws hs

end Blocking

/-- In both modes, whatever the other connections do and whichever calls throw, the frames given to
`process` of a connection are those of its bytes, each once and in order. On the reactor the buffers
that were not gone through yet will give what is missing, and each exception in a handler of the
connection cuts one of its buffers short. -/
theorem wire_in :
    (∀ trace b, Blocking.faulty.Run trace b → ∀ c,
      Threads.framesOf c (Blocking.simulation.trace (Faulty.steps trace)) =
        (StompMessageEncoderDecoder.initial.decodeAll
          (Blocking.readFrom c (Faulty.steps trace))).1.filterMap Decoded.toFrame) ∧
    ∀ trace s, ReactorServer.faulty.Run trace s → ∀ c a, s.actors.lookup c = some a → ∃ bufs,
      NonBlockingConnectionHandler.Cut (Faulty.thrown c trace) bufs
        (ReactorServer.readFrom c (Faulty.steps trace)) ∧
      Threads.framesOf c (ReactorServer.simulation.trace (Faulty.steps trace)) ++
          NonBlockingConnectionHandler.frames a.encdec a.buffers =
        NonBlockingConnectionHandler.frames .initial bufs :=
  ⟨fun _ _ h => (Blocking.inward_run h).frames,
    fun _ _ h c a ha => ((ReactorServer.inward_run h).decodes c a ha).frames⟩

namespace ReactorServer

def joiningBytes : Bytes :=
  StompMessageEncoderDecoder.encode (Server.connectFrame "u" "p") ++
    StompMessageEncoderDecoder.encode (Server.subscribeFrame "t" "5") ++
    StompMessageEncoderDecoder.encode (Server.subscribeFrame "u" "6")

def leavingBytes : Bytes :=
  StompMessageEncoderDecoder.encode (Server.connectFrame "v" "q") ++
    StompMessageEncoderDecoder.encode (Server.subscribeFrame "t" "7") ++
    StompMessageEncoderDecoder.encode (Server.unsubscribeFrame "7")

def decodes (c : ConnectionId) (f : StompFrame) : List ReactorServerEvent :=
  List.replicate (StompMessageEncoderDecoder.encode f).length (.decode c)

/-- The worker starts, decodes a CONNECT, makes its calls and adds the answer. -/
def logsIn (c : ConnectionId) (f : StompFrame) : List ReactorServerEvent :=
  [.start c] ++ decodes c f ++ List.replicate 4 (.call c) ++ [.add c, .keyFor c, .post c]

/-- The last subscriber leaves the topic during the call for the first SUBSCRIBE, which throws, and
the second SUBSCRIBE is lost. -/
def lostFrame : List (Faulty ReactorServerEvent) :=
  List.map Faulty.step ((List.replicate 2 [.select [], .task, .accept, .key .closed]).flatten ++
    [.select [⟨1, ⟨true, false⟩⟩, ⟨2, ⟨true, false⟩⟩], .task, .key (.bytes joiningBytes),
      .key (.bytes leavingBytes), .key .closed] ++
    logsIn 2 (Server.connectFrame "v" "q") ++ decodes 2 (Server.subscribeFrame "t" "7") ++
    [.call 2, .call 2] ++ logsIn 1 (Server.connectFrame "u" "p") ++
    decodes 1 (Server.subscribeFrame "t" "5") ++ [.call 1] ++
    decodes 2 (Server.unsubscribeFrame "7") ++ [.call 2, .call 2]) ++ [.throws 1 false]

end ReactorServer

theorem wire_in_thrown :
    (∃ trace b, Blocking.faulty.Run trace b ∧
      (Threads.framesOf 1 (Blocking.simulation.trace (Faulty.steps trace))).length = 1 ∧
      ((StompMessageEncoderDecoder.initial.decodeAll
        (Blocking.readFrom 1 (Faulty.steps trace))).1.filterMap Decoded.toFrame).length = 1) ∧
    ∃ trace s bufs, ReactorServer.faulty.Run trace s ∧ NonBlockingConnectionHandler.Cut 1 bufs
        [ReactorServer.joiningBytes] ∧
      (NonBlockingConnectionHandler.frames .initial bufs).map (·.command) =
        ["CONNECT".toList, "SUBSCRIBE".toList] := by
  constructor
  · obtain ⟨trace, b, hr, hb⟩ := System.exists_run (M := Blocking.faulty) (Blocking.login.map .step)
      (fun trace _ => decide ((Threads.framesOf 1
        (Blocking.simulation.trace (Faulty.steps trace))).length = 1)) (by decide +kernel)
    rw [decide_eq_true_eq] at hb
    exact ⟨trace, b, hr, hb, (wire_in.1 trace b hr 1) ▸ hb⟩
  · obtain ⟨trace, s, hr, hs⟩ := System.exists_run (M := ReactorServer.faulty) ReactorServer.lostFrame
      (fun trace s => (s.actors.lookup 1).any (·.buffers.isEmpty) &&
        (decide (Faulty.thrown 1 trace = 1) &&
        (decide (ReactorServer.readFrom 1 (Faulty.steps trace) = [ReactorServer.joiningBytes]) &&
        decide ((Threads.framesOf 1 (ReactorServer.simulation.trace (Faulty.steps trace))).map
          (·.command) = ["CONNECT".toList, "SUBSCRIBE".toList])))) (by decide +kernel)
    simp only [Bool.and_eq_true, decide_eq_true_eq] at hs
    obtain ⟨hactor, hthrown, hread, hcommands⟩ := hs
    obtain ⟨a, ha, hbuffers⟩ := (Option.any_eq_true _ _).mp hactor
    obtain ⟨bufs, hcut, hframes⟩ := wire_in.2 trace s hr 1 a ha
    rw [hthrown, hread] at hcut
    rw [List.isEmpty_iff.mp hbuffers, NonBlockingConnectionHandler.frames, List.append_nil] at hframes
    exact ⟨trace, s, bufs, hr, hcut, hframes ▸ hcommands⟩

end Stomp
