import Stomp.ActiveUsers
import Stomp.Blocking
import Stomp.Closing
import Stomp.Base.Simulation

/-!
# The two modes

Whatever bytes come in, the server with one thread for each client and the server on the reactor do
to the tables what threads in `process` do, and what holds of all runs of those holds of both.
-/

namespace Stomp

open Threads Utf8

namespace Threads

theorem active_simulated {S L : Type} {M : System S L} (σ : Simulation M runs)
    {stores : S × L → Option (ConnectionId × Text × Text)} {drops : ConnectionId → S × L → Prop}
    (hstores : ∀ {s l s'}, M.step s l = some s' → ∀ c u,
      Since (fun x => ∃ w, registers x = some (c, u, w)) (fun x => disconnects x = some c)
        (σ.image (s, l)) ↔ ∃ w, stores (s, l) = some (c, u, w))
    (hdrops : ∀ {s l s'}, M.step s l = some s' → ∀ c,
      (∃ x ∈ σ.image (s, l), disconnects x = some c) ↔ drops c (s, l))
    {trace : List (S × L)} {s : S} (h : M.Run trace s) (u : Text) :
    (σ.abs s).server.connections.isUserActive u = true ↔ ∃ pre e post c w, trace = pre ++ e :: post ∧
      stores e = some (c, u, w) ∧ ∀ x ∈ post, ¬ drops c x := by
  have hpossible : ∀ e ∈ trace, ∃ s', M.step e.1 e.2 = some s' := by
    intro e he
    obtain ⟨pre, post, heq⟩ := List.append_of_mem he
    obtain ⟨-, s', hs, -⟩ := h.split heq
    exact ⟨s', hs⟩
  have hactive : (σ.abs s).server.connections.isUserActive u = true ↔
      ∃ c, Holding c u (σ.trace trace) := by
    rw [ConnectionsImpl.isUserActive, Table.containsValue_iff]
    simp only [(entries_run (σ.run h)).active]
  rw [hactive]
  simp only [Holding, Simulation.trace, since_flatMap, since_iff _ _ trace]
  constructor
  · rintro ⟨c, pre, e, post, rfl, he, hnone⟩
    obtain ⟨s₁, hs₁⟩ := hpossible e (by simp)
    obtain ⟨w, hw⟩ := (hstores hs₁ c u).mp he
    refine ⟨pre, e, post, c, w, rfl, hw, fun x hx hd => hnone x hx ?_⟩
    obtain ⟨s₂, hs₂⟩ := hpossible x (by simp [hx])
    exact (hdrops hs₂ c).mpr hd
  · rintro ⟨pre, e, post, c, w, rfl, hw, hnone⟩
    obtain ⟨s₁, hs₁⟩ := hpossible e (by simp)
    refine ⟨c, pre, e, post, rfl, (hstores hs₁ c u).mpr ⟨w, hw⟩, fun x hx hd => hnone x hx ?_⟩
    obtain ⟨s₂, hs₂⟩ := hpossible x (by simp [hx])
    exact (hdrops hs₂ c).mp hd

end Threads

def Decoded.toFrame : Decoded → Option StompFrame
  | .frame f => some f
  | _ => none

/-! ## One thread for one client -/

namespace Blocking

/-- The frame that a byte ends. -/
def frameRead (b : Blocking) (c : ConnectionId) (x : UInt8) : Option StompFrame :=
  match b.handlers c with
  | some ⟨encdec, _, .read⟩ => (encdec.decodeNextByte x).1.toFrame
  | _ => none

theorem frameRead_phase {b : Blocking} {c : ConnectionId} {encdec : StompMessageEncoderDecoder}
    {connected : Bool} (x : UInt8) (h : b.handlers c = some ⟨encdec, connected, .read⟩) :
    b.frameRead c x = (encdec.decodeNextByte x).1.toFrame := by
  simp only [frameRead, h]

/-- What a step is for the threads in `process`. -/
def labels (b : Blocking) : BlockingEvent → List ThreadEvent
  | .accept => [.accept]
  | .read c (.byte x) => (b.frameRead c x).toList.map (.process c)
  | .call c failed => .call c :: (b.fails c failed).toList.map .disconnect
  | .iterate c entries => [.iterate c entries]
  | .loop _ | .read _ .endOfStream | .read _ .ioException | .finish _ => []

theorem walk_read {b b' : Blocking} {c : ConnectionId} {result : ReadResult}
    (hs : b.next (.read c result) = some b') :
    Threads.runs.walk (b.labels (.read c result)) b.threads = some b'.threads := by
  simp only [next] at hs
  split at hs
  · next encdec connected hphase =>
    cases result with
    | byte x =>
      simp only at hs
      have hread := frameRead_phase x hphase
      split at hs
      · next encdec' hdecode =>
        cases hs
        rw [labels, hread, hdecode]
        rfl
      · next f encdec' hdecode =>
        obtain ⟨t, ht, rfl⟩ := Option.map_eq_some_iff.mp hs
        rw [labels, hread, hdecode]
        exact (Threads.runs.walk_one _ _).trans ht
      · next encdec' hdecode =>
        cases hs
        rw [labels, hread, hdecode]
        rfl
    | endOfStream =>
      cases hs
      rfl
    | ioException =>
      cases hs
      rfl
  · cases hs

theorem walk_labels {b b' : Blocking} {e : BlockingEvent} (hs : b.next e = some b') :
    Threads.runs.walk (b.labels e) b.threads = some b'.threads := by
  cases e with
  | accept =>
    simp only [next] at hs
    obtain ⟨t, ht, rfl⟩ := Option.map_eq_some_iff.mp hs
    exact (Threads.runs.walk_one _ _).trans ht
  | loop c =>
    simp only [next] at hs
    split at hs
    · cases hs
      rfl
    · cases hs
  | read c result => exact walk_read hs
  | call c failed =>
    simp only [next] at hs
    split at hs
    · obtain ⟨t, ht, rfl⟩ := Option.map_eq_some_iff.mp hs
      rw [labels]
      cases b.fails c failed with
      | none => exact (Threads.runs.walk_one _ _).trans ht
      | some d =>
        show Threads.runs.walk [.call c, .disconnect d] b.threads = _
        rw [Threads.runs.walk_two]
        exact Option.bind_eq_some_iff.mpr ⟨t, ht, rfl⟩
    · cases hs
  | iterate c entries =>
    simp only [next] at hs
    split at hs
    · obtain ⟨t, ht, rfl⟩ := Option.map_eq_some_iff.mp hs
      exact (Threads.runs.walk_one _ _).trans ht
    · cases hs
  | finish c =>
    simp only [next] at hs
    split at hs
    · split at hs
      · cases hs
        rfl
      · cases hs
    · cases hs

def simulation : Simulation runs Threads.runs where
  abs := threads
  labels := labels
  init := rfl
  step _ := walk_labels

/-- The connection, the user and the password of a step that stores a user. -/
def registers : Blocking × BlockingEvent → Option (ConnectionId × Text × Text)
  | (b, .call c _) => Threads.registers (b.threads, .call c)
  | _ => none

theorem image_call {b b' : Blocking} {c : ConnectionId} {failed : Bool}
    (hs : b.next (.call c failed) = some b') : ∃ t, simulation.image (b, .call c failed) =
      (b.threads, .call c) :: (b.fails c failed).toList.map fun d => (t, .disconnect d) := by
  simp only [next] at hs
  split at hs
  · obtain ⟨t, ht, -⟩ := Option.map_eq_some_iff.mp hs
    refine ⟨t, ?_⟩
    show Threads.runs.entries (.call c :: (b.fails c failed).toList.map .disconnect) b.threads = _
    cases b.fails c failed with
    | none => exact Threads.runs.entries_one _ _
    | some d => exact Threads.runs.entries_two _ ht
  · cases hs

theorem registers_of_fails {b : Blocking} {c d : ConnectionId} {failed : Bool}
    (h : b.fails c failed = some d) : Threads.registers (b.threads, .call c) = none := by
  unfold fails at h
  unfold Threads.registers
  split at h
  · next hcalled => rw [hcalled]
  · cases h

theorem image_quiet {b : Blocking} {e : BlockingEvent} (he : ∀ c failed, e ≠ .call c failed) :
    ∀ x ∈ simulation.image (b, e), Threads.registers x = none ∧ Threads.disconnects x = none := by
  intro x hx
  cases e with
  | call c failed => exact absurd rfl (he c failed)
  | accept =>
    cases List.mem_singleton.mp hx
    exact ⟨rfl, rfl⟩
  | iterate c entries =>
    simp only [Simulation.image, simulation, labels, System.entries_one] at hx
    cases List.mem_singleton.mp hx
    exact ⟨Threads.registers_iterate _ _ _, Threads.disconnects_iterate _ _ _⟩
  | loop | finish => cases hx
  | read c result =>
    cases result with
    | endOfStream | ioException => cases hx
    | byte y =>
      simp only [Simulation.image, simulation, labels] at hx
      cases hread : b.frameRead c y with
      | none =>
        rw [hread] at hx
        cases hx
      | some f =>
        rw [hread, Option.toList_some, List.map_singleton, System.entries_one] at hx
        cases List.mem_singleton.mp hx
        exact ⟨rfl, rfl⟩

theorem registers_image {b b' : Blocking} {e : BlockingEvent} (hs : b.next e = some b')
    (c : ConnectionId) (u : Text) :
    Since (fun x => ∃ w, Threads.registers x = some (c, u, w)) (fun x => Threads.disconnects x = some c)
      (simulation.image (b, e)) ↔ ∃ w, registers (b, e) = some (c, u, w) := by
  by_cases he : ∃ d failed, e = .call d failed
  · obtain ⟨d, failed, rfl⟩ := he
    obtain ⟨t, himage⟩ := image_call hs
    rw [himage]
    cases hfails : b.fails d failed with
    | none => simp [Since, registers]
    | some d' =>
      have hno := registers_of_fails hfails
      have hno' : Threads.registers (t, .disconnect d') = none := rfl
      simp [Since, registers, hno, hno']
  · simp only [not_exists] at he
    have hquiet := image_quiet (b := b) he
    have hnone : registers (b, e) = none := by
      cases e with
      | call c failed => exact absurd rfl (he c failed)
      | accept | loop | read | iterate | finish => rfl
    rw [hnone, since_iff]
    constructor
    · rintro ⟨pre, x, post, heq, ⟨w, hw⟩, -⟩
      rw [(hquiet x (by simp [heq])).1] at hw
      cases hw
    · rintro ⟨w, hw⟩
      cases hw

theorem disconnects_image {b b' : Blocking} {e : BlockingEvent} (hs : b.next e = some b')
    (c : ConnectionId) :
    (∃ x ∈ simulation.image (b, e), Threads.disconnects x = some c) ↔ Disconnects c (b, e) := by
  by_cases he : ∃ d failed, e = .call d failed
  · obtain ⟨d, failed, rfl⟩ := he
    obtain ⟨t, himage⟩ := image_call hs
    rw [himage]
    cases hfails : b.fails d failed with
    | none => simp [Disconnects, hfails]
    | some d' =>
      have hclose : Threads.disconnects (t, .disconnect d') = some d' := rfl
      simp [Disconnects, hfails, hclose]
  · simp only [not_exists] at he
    have hquiet := image_quiet (b := b) he
    constructor
    · rintro ⟨x, hx, hd⟩
      rw [(hquiet x hx).2] at hd
      cases hd
    · intro hd
      cases e with
      | call c failed => exact absurd rfl (he c failed)
      | accept | loop | read | iterate | finish => exact hd.elim

end Blocking

/-! ## The reactor -/

namespace ReactorServer

/-- The step of the selector thread that an event is. -/
def selectorEvent (s : ReactorServer) : ReactorServerEvent → Option ReactorEvent
  | .select ready => some (.select ready)
  | .task => some .task
  | .key outcome => some (.key outcome)
  | .write outcome => some (.write outcome)
  | .finish => some (.finish s.shouldTerminate)
  | .toRead => some .toRead
  | _ => none

/-- The frame that the next byte of the buffer ends. -/
def frameDecoded (s : ReactorServer) (c : ConnectionId) : Option StompFrame :=
  match s.actors.lookup c with
  | some ⟨encdec, _, some (b :: _)⟩ => (encdec.decodeNextByte b).1.toFrame
  | _ => none

theorem frameDecoded_task {s : ReactorServer} {c : ConnectionId} {encdec : StompMessageEncoderDecoder}
    {pending : List Bytes} {b : UInt8} {bs : Bytes}
    (h : s.actors.lookup c = some ⟨encdec, pending, some (b :: bs)⟩) :
    s.frameDecoded c = (encdec.decodeNextByte b).1.toFrame := by
  simp only [frameDecoded, h]

/-- What a step is for the threads in `process`. -/
def labels (s : ReactorServer) (e : ReactorServerEvent) : List ThreadEvent :=
  match e with
  | .accept => [.accept]
  | .decode c => (s.frameDecoded c).toList.map (.process c)
  | .call c => [.call c]
  | .iterate c entries => [.iterate c entries]
  | _ => ((s.selectorEvent e).bind s.reactor.closeCalled).toList.map .disconnect

theorem walk_decode {s s' : ReactorServer} {c : ConnectionId} (hs : s.decode c = some s') :
    Threads.runs.walk (s.labels (.decode c)) s.threads = some s'.threads := by
  unfold ReactorServer.decode at hs
  split at hs
  · next encdec pending b bs hactor =>
    have hdecoded := frameDecoded_task hactor
    split at hs
    · split at hs
      · next encdec' hdecode =>
        cases hs
        rw [labels, hdecoded, hdecode]
        rfl
      · next f encdec' hdecode =>
        obtain ⟨t, ht, rfl⟩ := Option.map_eq_some_iff.mp hs
        rw [labels, hdecoded, hdecode]
        exact (Threads.runs.walk_one _ _).trans ht
      · next encdec' hdecode =>
        cases hs
        rw [labels, hdecoded, hdecode]
        rfl
    · cases hs
  · cases hs

theorem walk_labels {s s' : ReactorServer} {e : ReactorServerEvent} (hs : s.next e = some s') :
    Threads.runs.walk (s.labels e) s.threads = some s'.threads := by
  have hselector : ∀ e', s.selectorStep e' = some s' → Threads.runs.walk
      ((s.reactor.closeCalled e').toList.map .disconnect) s.threads = some s'.threads := by
    intro e' hs'
    obtain ⟨r, -, rfl⟩ := Option.map_eq_some_iff.mp hs'
    cases s.reactor.closeCalled e' with
    | none => rfl
    | some c => exact Threads.runs.walk_one _ _
  cases e with
  | select | task | key | write | finish | toRead => exact hselector _ hs
  | accept =>
    obtain ⟨r, -, hs⟩ := Option.bind_eq_some_iff.mp hs
    obtain ⟨t, ht, rfl⟩ := Option.map_eq_some_iff.mp hs
    exact (Threads.runs.walk_one _ _).trans ht
  | add | keyFor | post =>
    obtain ⟨r, -, rfl⟩ := Option.map_eq_some_iff.mp hs
    rfl
  | start c =>
    obtain ⟨a, rfl, -⟩ := start_cases hs
    rfl
  | done c =>
    obtain ⟨-, -, a, rfl⟩ := done_cases hs
    rfl
  | call c =>
    simp only [next, ReactorServer.call] at hs
    split at hs
    · obtain ⟨t, ht, rfl⟩ := Option.map_eq_some_iff.mp hs
      exact (Threads.runs.walk_one _ _).trans ht
    · cases hs
  | iterate c entries =>
    simp only [next, ReactorServer.iterate] at hs
    split at hs
    · obtain ⟨t, ht, rfl⟩ := Option.map_eq_some_iff.mp hs
      exact (Threads.runs.walk_one _ _).trans ht
    · cases hs
  | decode c => exact walk_decode hs

def simulation : Simulation runs Threads.runs where
  abs := threads
  labels := labels
  init := rfl
  step _ := walk_labels

/-- The connection, the user and the password of a step that stores a user. -/
def registers : ReactorServer × ReactorServerEvent → Option (ConnectionId × Text × Text)
  | (s, .call c) => Threads.registers (s.threads, .call c)
  | _ => none

/-- The connection is passed to `Connections.disconnect`, by an accepted DISCONNECT or by a `close`
of the selector thread. -/
def Disconnects (c : ConnectionId) : ReactorServer × ReactorServerEvent → Prop
  | (s, .call d) => Threads.disconnects (s.threads, .call d) = some c
  | (s, e) => (s.selectorEvent e).bind s.reactor.closeCalled = some c

theorem image_call (s : ReactorServer) (c : ConnectionId) :
    simulation.image (s, .call c) = [(s.threads, .call c)] := Threads.runs.entries_one _ _

theorem image_decode (s : ReactorServer) (c : ConnectionId) :
    simulation.image (s, .decode c) =
      (s.frameDecoded c).toList.map fun f => (s.threads, .process c f) := by
  show Threads.runs.entries ((s.frameDecoded c).toList.map (.process c)) s.threads = _
  cases s.frameDecoded c with
  | none => rfl
  | some f => exact Threads.runs.entries_one _ _

theorem image_other {s : ReactorServer} {e : ReactorServerEvent} (he : ∀ c, e ≠ .call c) :
    (∀ x ∈ simulation.image (s, e), Threads.registers x = none) ∧
      ∀ c, (∃ x ∈ simulation.image (s, e), Threads.disconnects x = some c) ↔ Disconnects c (s, e) := by
  have hselector : ∀ e', s.selectorEvent e = some e' →
      s.labels e = (s.reactor.closeCalled e').toList.map .disconnect →
      (∀ x ∈ simulation.image (s, e), Threads.registers x = none) ∧
        ∀ c, (∃ x ∈ simulation.image (s, e), Threads.disconnects x = some c) ↔
          s.reactor.closeCalled e' = some c := by
    intro e' _ hlabels
    show (∀ x ∈ Threads.runs.entries (s.labels e) s.threads, _) ∧
      ∀ c, (∃ x ∈ Threads.runs.entries (s.labels e) s.threads, _) ↔ _
    rw [hlabels]
    cases s.reactor.closeCalled e' with
    | none => simp
    | some d =>
      have hno : Threads.registers (s.threads, .disconnect d) = none := rfl
      have hclose : Threads.disconnects (s.threads, .disconnect d) = some d := rfl
      simp [hno, hclose]
  have hnothing : s.labels e = [] → s.selectorEvent e = none →
      (∀ x ∈ simulation.image (s, e), Threads.registers x = none) ∧
        ∀ c, (∃ x ∈ simulation.image (s, e), Threads.disconnects x = some c) ↔ False := by
    intro hlabels _
    show (∀ x ∈ Threads.runs.entries (s.labels e) s.threads, _) ∧
      ∀ c, (∃ x ∈ Threads.runs.entries (s.labels e) s.threads, _) ↔ _
    rw [hlabels]
    simp
  cases e with
  | call c => exact absurd rfl (he c)
  | select | task | key | write | finish | toRead => exact hselector _ rfl rfl
  | start | done | add | keyFor | post =>
    refine (hnothing rfl rfl).imp id fun h c => ?_
    simp [h, Disconnects, selectorEvent]
  | accept =>
    have hno : Threads.registers (s.threads, .accept) = none := rfl
    have hopen : Threads.disconnects (s.threads, .accept) = none := rfl
    have himage : simulation.image (s, .accept) = [(s.threads, .accept)] :=
      Threads.runs.entries_one _ _
    rw [himage]
    simp [hno, hopen, Disconnects, selectorEvent]
  | decode c =>
    have hno : ∀ f, Threads.registers (s.threads, .process c f) = none := fun _ => rfl
    have hbegin : ∀ f, Threads.disconnects (s.threads, .process c f) = none := fun _ => rfl
    rw [image_decode]
    simp [hno, hbegin, Disconnects, selectorEvent]
  | iterate c entries =>
    have hno := Threads.registers_iterate s.threads c entries
    have hkept := Threads.disconnects_iterate s.threads c entries
    have himage : simulation.image (s, .iterate c entries) = [(s.threads, .iterate c entries)] :=
      Threads.runs.entries_one _ _
    rw [himage]
    simp [hno, hkept, Disconnects, selectorEvent]

theorem registers_image (s : ReactorServer) (e : ReactorServerEvent) (c : ConnectionId) (u : Text) :
    Since (fun x => ∃ w, Threads.registers x = some (c, u, w)) (fun x => Threads.disconnects x = some c)
      (simulation.image (s, e)) ↔ ∃ w, registers (s, e) = some (c, u, w) := by
  by_cases he : ∃ d, e = .call d
  · obtain ⟨d, rfl⟩ := he
    rw [image_call]
    simp [Since, registers]
  · simp only [not_exists] at he
    have hnone : registers (s, e) = none := by
      cases e with
      | call c => exact absurd rfl (he c)
      | accept | select | task | key | write | finish | toRead | start | decode | iterate | add
      | keyFor | post | done => rfl
    rw [hnone, since_iff]
    constructor
    · rintro ⟨pre, x, post, heq, ⟨w, hw⟩, -⟩
      have hmem : x ∈ simulation.image (s, e) := by simp [heq]
      rw [(image_other he).1 x hmem] at hw
      cases hw
    · rintro ⟨w, hw⟩
      cases hw

theorem disconnects_image (s : ReactorServer) (e : ReactorServerEvent) (c : ConnectionId) :
    (∃ x ∈ simulation.image (s, e), Threads.disconnects x = some c) ↔ Disconnects c (s, e) := by
  by_cases he : ∃ d, e = .call d
  · obtain ⟨d, rfl⟩ := he
    rw [image_call]
    simp [Disconnects]
  · simp only [not_exists] at he
    exact (image_other he).2 c

end ReactorServer

/-! ## Both modes -/

/-- In both modes, whatever bytes come in and however they are cut, a topic holds only connections
whose CONNECT was checked, and a user is active exactly while the connection that stored the user has
neither ended an accepted DISCONNECT nor been closed by its transport. -/
theorem modes_refine :
    (∀ trace b, Blocking.runs.Run trace b →
      Threads.runs.Run (Blocking.simulation.trace trace) b.threads ∧
      (∀ c topic, b.threads.server.connections.subscription topic c ≠ none →
        Passed c (Blocking.simulation.trace trace)) ∧
      ∀ u, b.threads.server.connections.isUserActive u = true ↔ ∃ pre e post c w,
        trace = pre ++ e :: post ∧ Blocking.registers e = some (c, u, w) ∧
          ∀ x ∈ post, ¬ Blocking.Disconnects c x) ∧
    ∀ trace s, ReactorServer.runs.Run trace s →
      Threads.runs.Run (ReactorServer.simulation.trace trace) s.threads ∧
      (∀ c topic, s.threads.server.connections.subscription topic c ≠ none →
        Passed c (ReactorServer.simulation.trace trace)) ∧
      ∀ u, s.threads.server.connections.isUserActive u = true ↔ ∃ pre e post c w,
        trace = pre ++ e :: post ∧ ReactorServer.registers e = some (c, u, w) ∧
          ∀ x ∈ post, ¬ ReactorServer.Disconnects c x := by
  constructor
  · intro trace b h
    have hr := Blocking.simulation.run h
    refine ⟨hr, fun c topic hc => passed_run hr ((guarded_run hr).subscribed c topic hc), ?_⟩
    exact active_simulated Blocking.simulation Blocking.registers_image Blocking.disconnects_image h
  · intro trace s h
    have hr := ReactorServer.simulation.run h
    refine ⟨hr, fun c topic hc => passed_run hr ((guarded_run hr).subscribed c topic hc), ?_⟩
    exact active_simulated ReactorServer.simulation (fun _ => ReactorServer.registers_image _ _)
      (fun _ => ReactorServer.disconnects_image _ _) h

/-- In one mode a client that logged in subscribed, in the other it is active. -/
theorem modes_refine_login :
    (∃ trace b, Blocking.runs.Run trace b ∧ Passed 1 (Blocking.simulation.trace trace)) ∧
    ∃ trace s, ReactorServer.runs.Run trace s ∧ ∃ pre e post c w, trace = pre ++ e :: post ∧
      ReactorServer.registers e = some (c, "u".toList, w) ∧
      ∀ x ∈ post, ¬ ReactorServer.Disconnects c x := by
  constructor
  · obtain ⟨trace, b, hr, hb⟩ := System.exists_run (M := Blocking.runs)
      (Blocking.login ++ Blocking.reads 1 "SUBSCRIBE\ndestination:t\nid:5\n\n" ++
        List.replicate 2 (.call 1 false))
      (fun _ b => (b.threads.server.connections.subscription "t".toList 1).isSome) (by decide +kernel)
    exact ⟨trace, b, hr, (modes_refine.1 trace b hr).2.1 1 _ (Option.isSome_iff_ne_none.mp hb)⟩
  · obtain ⟨trace, s, hr, hs⟩ := System.exists_run (M := ReactorServer.runs)
      (ReactorServer.readConnect ++ ReactorServer.logIn)
      (fun _ s => s.threads.server.connections.isUserActive "u".toList) (by decide +kernel)
    exact ⟨trace, s, hr, ((modes_refine.2 trace s hr).2.2 _).mp hs⟩

end Stomp
