import Stomp.Refinement

/-!
# Any bytes on any connection

The bytes of the connections come in any order, and a frame is processed before the next byte is
read. An exception leaves the state as it found it, and the connection may go on.
-/

open Stomp.Split Stomp.Utf8

namespace Stomp.Checked

open Throws

structure Server where
  protocols : Table ConnectionId StompMessagingProtocolImpl
  encdecs : Table ConnectionId StompMessageEncoderDecoder
  connections : ConnectionsImpl
  connectionCounter : Nat
  streams : Table ConnectionId Bytes

inductive Event where
  | accept
  /-- The thread of a handler begins. -/
  | run (c : ConnectionId)
  | byte (c : ConnectionId) (b : UInt8)
  | disconnect (c : ConnectionId)
  deriving DecidableEq

namespace Server

def initial : Server := ⟨∅, ∅, .initial, 0, ∅⟩

def accept (s : Server) : Server :=
  let connectionId := s.connectionCounter + 1
  { s with
    protocols := s.protocols.insert connectionId (.start connectionId)
    encdecs := s.encdecs.insert connectionId .initial
    connections := s.connections.register connectionId
    connectionCounter := connectionId }

/-- `decodeNextByte` and, when it gives a frame, `process`. -/
def byte (s : Server) (c : ConnectionId) (b : UInt8) : Option Server :=
  match s.encdecs.lookup c, s.protocols.lookup c, s.streams.lookup c with
  | some d, some p, some _ =>
    let r := (StompMessageEncoderDecoder.decodeNextByte b).result d
    let s' := { s with encdecs := s.encdecs.insert c r.2 }
    match r.1 with
    | .ok (some f) =>
      let after := ((StompMessagingProtocolImpl.process f).result ⟨p, s.connections, s.streams⟩).2
      some { s' with
        protocols := s.protocols.insert c after.this
        connections := after.connections
        streams := after.streams }
    | _ => some s'
  | _, _, _ => none

def next (s : Server) : Event → Option Server
  | .accept => some s.accept
  | .run c =>
    if (s.encdecs.lookup c).isSome && (s.streams.lookup c).isNone then
      some { s with streams := s.streams.insert c [] }
    else none
  | .byte c b => s.byte c b
  | .disconnect c => some { s with connections := s.connections.disconnect c }

def runs : System Server Event := ⟨initial, next⟩

/-- The calls that a byte brings about end normally. -/
def endsNormally (s : Server) (c : ConnectionId) (b : UInt8) : Bool :=
  match s.encdecs.lookup c, s.protocols.lookup c with
  | some d, some p =>
    match ((StompMessageEncoderDecoder.decodeNextByte b).result d).1 with
    | .ok none => true
    | .ok (some f) => ((StompMessagingProtocolImpl.process f).result ⟨p, s.connections, s.streams⟩).1.isOk
    | .error _ => false
  | _, _ => true

/-! ## The bytes of a connection -/

def received (c : ConnectionId) (trace : List (Server × Event)) : Bytes :=
  trace.filterMap fun e =>
    match e.2 with
    | .byte d b => if d = c then some b else none
    | _ => none

/-- The bytes since the last NUL. -/
def unended (c : ConnectionId) (trace : List (Server × Event)) : Bytes :=
  unfinished 0 (received c trace)

/-- No connection sends so many bytes without a NUL. -/
def Short (trace : List (Server × Event)) : Prop :=
  ∀ c pre, pre <+: trace → (unended c pre).length < 2 ^ 30

/-- All calls of a step end normally. -/
def EndsNormally : Server × Event → Prop
  | (s, .byte c b) => s.endsNormally c b = true
  | _ => True

/-- A NUL comes when there is one end of line before it, and nothing else since the last NUL. -/
def LoneNewline (pre : List (Server × Event)) : Server × Event → Prop
  | (_, .byte c b) => b = 0 ∧ unended c pre = [10]
  | _ => False

theorem unended_byte (trace : List (Server × Event)) (s : Server) (c d : ConnectionId) (b : UInt8) :
    unended d (trace ++ [(s, .byte c b)]) =
      if c = d then (if b = 0 then [] else unended d trace ++ [b]) else unended d trace := by
  unfold unended received
  rw [List.filterMap_append]
  split
  · next hcd =>
    rw [← unfinished_snoc]
    simp [hcd]
  · next hcd => simp [hcd]

theorem unended_other (trace : List (Server × Event)) (s : Server) {e : Event}
    (he : ∀ c b, e ≠ .byte c b) (d : ConnectionId) : unended d (trace ++ [(s, e)]) = unended d trace := by
  unfold unended received
  rw [List.filterMap_append]
  cases e with
  | byte c b => exact absurd rfl (he c b)
  | accept | run _ | disconnect _ => simp

theorem zero_not_mem_unended (c : ConnectionId) (trace : List (Server × Event)) :
    0 ∉ unended c trace := not_mem_unfinished 0 _

theorem short_of_length {trace : List (Server × Event)} (h : trace.length < 2 ^ 30) : Short trace := by
  intro c pre hpre
  refine Nat.lt_of_le_of_lt ?_ (Nat.lt_of_le_of_lt hpre.length_le h)
  exact (length_unfinished_le 0 _).trans (List.length_filterMap_le _ _)

/-! ## What a run keeps -/

/-- The server has no null in it, and its decoders hold what the bytes made of them. -/
structure Represents (trace : List (Server × Event)) (a : Stomp.Server) (s : Server) : Prop where
  protocol : ∀ c, s.protocols.lookup c = (a.sessions.lookup c).map (·.checked)
  connections : s.connections = a.connections
  counter : s.connectionCounter = a.connectionCounter
  encdec : ∀ c d, s.encdecs.lookup c = some d →
    ∃ d' : Stomp.StompMessageEncoderDecoder, d = d'.checked ∧ d'.pending = unended c trace
  fresh : ∀ c, s.connectionCounter < c → s.encdecs.lookup c = none ∧ unended c trace = []
  /-- A connection that is subscribed has its thread. -/
  subscribed : ∀ t c, a.connections.subscription t c ≠ none → (s.streams.lookup c).isSome = true

theorem represents_initial : Represents [] .initial initial where
  protocol _ := rfl
  connections := rfl
  counter := rfl
  encdec c d hd := by cases hd
  fresh _ _ := ⟨rfl, rfl⟩
  subscribed t c hne := absurd rfl hne

section Step

variable {trace : List (Server × Event)} {a : Stomp.Server} {s : Server}

theorem Represents.quiet (h : Represents trace a s) {e : Event} (he : ∀ c b, e ≠ .byte c b) :
    Represents (trace ++ [(s, e)]) a s where
  protocol := h.protocol
  connections := h.connections
  counter := h.counter
  encdec c d hd := by
    rw [unended_other _ _ he]
    exact h.encdec c d hd
  fresh c hc := by
    rw [unended_other _ _ he]
    exact h.fresh c hc
  subscribed := h.subscribed

theorem Represents.accept (h : Represents trace a s) : Represents trace a.accept s.accept where
  protocol c := by
    rw [Server.accept, Table.lookup_insert_if, h.protocol, h.counter]
    have ha : a.accept.sessions.lookup c = _ :=
      Stomp.Server.lookup_setSession _ (.start (a.connectionCounter + 1)) c
    rw [ha, apply_ite (Option.map _)]
    rfl
  connections := by
    show s.connections.register _ = a.connections.register _
    rw [h.connections, h.counter]
  counter := congrArg (· + 1) h.counter
  encdec c d hd := by
    rw [Server.accept, Table.lookup_insert_if] at hd
    split at hd
    · next hc =>
      have hlt : s.connectionCounter < c := hc ▸ Nat.lt_succ_self _
      cases hd
      exact ⟨.initial, rfl, (h.fresh c hlt).2.symm⟩
    · exact h.encdec c d hd
  fresh c hc := by
    have hlt : s.connectionCounter + 1 < c := hc
    rw [Server.accept, Table.lookup_insert_if, if_neg (by omega)]
    exact h.fresh c (by omega)
  subscribed t c hne := h.subscribed t c hne

theorem Represents.run (h : Represents trace a s) (c : ConnectionId) :
    Represents trace a { s with streams := s.streams.insert c [] } where
  protocol := h.protocol
  connections := h.connections
  counter := h.counter
  encdec := h.encdec
  fresh := h.fresh
  subscribed t d hne := by
    dsimp only
    rw [Table.lookup_insert_if]
    split
    · rfl
    · exact h.subscribed t d hne

theorem Represents.disconnect (h : Represents trace a s) (c : ConnectionId) :
    Represents trace (a.setConnections (a.connections.disconnect c))
      { s with connections := s.connections.disconnect c } where
  protocol := h.protocol
  connections := congrArg (·.disconnect c) h.connections
  counter := h.counter
  encdec := h.encdec
  fresh := h.fresh
  subscribed t d hne := by
    rw [Stomp.Server.connections_setConnections, ConnectionsImpl.subscription_disconnect] at hne
    split at hne
    · exact absurd rfl hne
    · exact h.subscribed t d hne

theorem Represents.process_ends (h : Represents trace a s) {c : ConnectionId}
    {p : StompMessagingProtocolImpl} (hp : s.protocols.lookup c = some p)
    (hown : (s.streams.lookup c).isSome = true) (f : Stomp.StompFrame) :
    ∃ p' q : Session, a.sessions.lookup c = some p' ∧
      (a.process c f).1.sessions.lookup c = some q ∧
      Ends (StompMessagingProtocolImpl.process f.checked) ⟨p, s.connections, s.streams⟩ ()
        ⟨q.checked, (a.process c f).1.connections, (a.process c f).2.foldl written s.streams⟩ := by
  rw [h.protocol] at hp
  obtain ⟨p', hp', rfl⟩ := Option.map_eq_some_iff.mp hp
  have hid := a.ids c p' hp'
  subst hid
  obtain ⟨q, -, hends, hq⟩ := process_refines s.streams p' f a [] hown hp' h.subscribed
  have hrun : a.process p'.connectionId f = ((p'.process f).run Stomp.Server.answer (a, [])).2 :=
    Stomp.Server.process_of_session f hp'
  rw [hrun, h.connections]
  exact ⟨p', q, hp', hq, hends⟩

theorem Represents.bytes (h : Represents trace a s) {c : ConnectionId} {b : UInt8}
    {d : StompMessageEncoderDecoder} (hd : s.encdecs.lookup c = some d)
    (d' : Stomp.StompMessageEncoderDecoder)
    (hpending : d'.pending = unended c (trace ++ [(s, .byte c b)])) :
    Represents (trace ++ [(s, .byte c b)]) a { s with encdecs := s.encdecs.insert c d'.checked } where
  protocol := h.protocol
  connections := h.connections
  counter := h.counter
  encdec e x hx := by
    rw [Table.lookup_insert_if] at hx
    split at hx
    · next he =>
      cases hx
      exact ⟨d', rfl, he ▸ hpending⟩
    · next he =>
      rw [unended_byte, if_neg (Ne.symm he)]
      exact h.encdec e x hx
  fresh e he := by
    have hne : e ≠ c := by
      rintro rfl
      rw [(h.fresh e he).1] at hd
      cases hd
    rw [unended_byte, if_neg (Ne.symm hne), Table.lookup_insert_if, if_neg hne]
    exact h.fresh e he
  subscribed := h.subscribed

theorem Represents.processed (h : Represents trace a s) {c : ConnectionId}
    (hown : (s.streams.lookup c).isSome = true) {p q : Session} {f : Stomp.StompFrame}
    (hp : a.sessions.lookup c = some p) (hq : (a.process c f).1.sessions.lookup c = some q) :
    Represents trace (a.process c f).1 { s with
      protocols := s.protocols.insert c q.checked
      connections := (a.process c f).1.connections
      streams := (a.process c f).2.foldl written s.streams } := by
  obtain rfl := a.ids c p hp
  have ho := Stomp.Server.process_outcome a p f
  rw [← Stomp.Server.process_of_session f hp] at ho
  refine ⟨fun d => ?_, rfl, h.counter.trans ho.counter.symm, h.encdec, h.fresh, fun t d hne => ?_⟩
  · rw [Table.lookup_insert_if]
    split
    · next hd => rw [hd, hq, Option.map_some]
    · next hd => rw [(ho.untouched hd).session, h.protocol]
  · rw [isSome_written]
    by_cases hd : d = p.connectionId
    · rw [hd]
      exact hown
    · rw [(ho.untouched hd).subscribed] at hne
      exact h.subscribed t d hne

theorem Represents.decoder (h : Represents trace a s) {c : ConnectionId}
    (hshort : (unended c trace).length < 2 ^ 30) {d : StompMessageEncoderDecoder}
    (hd : s.encdecs.lookup c = some d) :
    ∃ d' : Stomp.StompMessageEncoderDecoder, d = d'.checked ∧ d'.pending = unended c trace ∧
      d'.len < 2 ^ 30 ∧ 0 ∉ d'.pending := by
  obtain ⟨d', rfl, hpending⟩ := h.encdec c d hd
  have hlen : d'.len < 2 ^ 30 := by
    rw [← StompMessageEncoderDecoder.length_pending, hpending]
    exact hshort
  exact ⟨d', rfl, hpending, hlen, hpending ▸ zero_not_mem_unended c trace⟩

theorem Represents.byte (h : Represents trace a s) {c : ConnectionId} {b : UInt8}
    (hshort : (unended c trace).length < 2 ^ 30) {s' : Server} (hs : s.byte c b = some s') :
    ∃ a', Represents (trace ++ [(s, .byte c b)]) a' s' ∧ (a' = a ∨ ∃ e, a.next e = some a') := by
  unfold Server.byte at hs
  split at hs
  on_goal 2 => cases hs
  next d p bs hd hp hbs =>
  have hown : (s.streams.lookup c).isSome = true := by rw [hbs]; rfl
  obtain ⟨d, rfl, hpending, hlen, h0⟩ := h.decoder hshort hd
  obtain ⟨hb, hafter, hends⟩ | ⟨hb, hafter, -, hends⟩ | ⟨hb, hafter, -, f, hends⟩ :=
    d.decodeNextByte_cases b hlen h0
  · rw [show (StompMessageEncoderDecoder.decodeNextByte b).result d.checked = _ from hends] at hs
    cases hs
    refine ⟨a, h.bytes hd _ ?_, .inl rfl⟩
    rw [hafter, unended_byte, if_pos rfl, if_neg hb, hpending]
  · rw [hends] at hs
    cases hs
    refine ⟨a, h.bytes hd _ ?_, .inl rfl⟩
    rw [hafter, unended_byte, if_pos rfl, if_pos hb]
  · rw [show (StompMessageEncoderDecoder.decodeNextByte b).result d.checked = _ from hends] at hs
    have hbytes := h.bytes (b := b) hd (d.decodeNextByte b).2
      (by rw [hafter, unended_byte, if_pos rfl, if_pos hb])
    obtain ⟨p', q, hp', hq, hprocess⟩ := h.process_ends hp hown f
    dsimp only at hs
    rw [show (StompMessagingProtocolImpl.process f.checked).result _ = _ from hprocess] at hs
    cases hs
    refine ⟨(a.process c f).1, ?_, .inr ⟨.frame c f, by simp [Stomp.Server.next, hp']⟩⟩
    exact hbytes.processed hown hp' hq

theorem Represents.step (h : Represents trace a s) (hshort : ∀ c, (unended c trace).length < 2 ^ 30)
    {e : Event} {s' : Server} (hs : s.next e = some s') :
    ∃ a', Represents (trace ++ [(s, e)]) a' s' ∧ (a' = a ∨ ∃ e, a.next e = some a') := by
  cases e with
  | accept =>
    cases hs
    exact ⟨a.accept, (h.quiet (by simp)).accept, .inr ⟨.accept, rfl⟩⟩
  | run c =>
    simp only [next] at hs
    split at hs
    · cases hs
      exact ⟨a, (h.quiet (by simp)).run c, .inl rfl⟩
    · cases hs
  | byte c b => exact h.byte (hshort c) hs
  | disconnect c =>
    cases hs
    exact ⟨_, (h.quiet (by simp)).disconnect c, .inr ⟨.disconnect c, rfl⟩⟩

theorem Represents.endsNormally_iff (h : Represents trace a s) {c : ConnectionId} (b : UInt8)
    (hshort : (unended c trace).length < 2 ^ 30) (hown : (s.streams.lookup c).isSome = true)
    {d : StompMessageEncoderDecoder} (hd : s.encdecs.lookup c = some d)
    {p : StompMessagingProtocolImpl} (hp : s.protocols.lookup c = some p) :
    s.endsNormally c b = true ↔ ¬ (b = 0 ∧ unended c trace = [10]) := by
  obtain ⟨d, rfl, hpending, hlen, h0⟩ := h.decoder hshort hd
  simp only [endsNormally, hd, hp]
  obtain ⟨hb, -, hends⟩ | ⟨hb, -, hlone, hends⟩ | ⟨hb, -, hlone, f, hends⟩ :=
    d.decodeNextByte_cases b hlen h0
  · rw [show (StompMessageEncoderDecoder.decodeNextByte b).result d.checked = _ from hends]
    exact iff_of_true rfl fun hnot => hb hnot.1
  · rw [hends]
    exact iff_of_false Bool.false_ne_true fun hnot => hnot ⟨hb, hpending ▸ hlone⟩
  · rw [show (StompMessageEncoderDecoder.decodeNextByte b).result d.checked = _ from hends]
    obtain ⟨-, q, -, -, hprocess⟩ := h.process_ends hp hown f
    dsimp only
    rw [show (StompMessagingProtocolImpl.process f.checked).result _ = _ from hprocess]
    exact iff_of_true rfl fun hnot => hlone (hpending.trans hnot.2)

end Step

/-! ## All runs -/

theorem represents_run {trace : List (Server × Event)} {s : Server} (h : runs.Run trace s)
    (hshort : Short trace) :
    ∃ steps a, Stomp.Server.runs.Run steps a ∧ Represents trace a s := by
  induction h with
  | nil => exact ⟨[], .initial, .nil, represents_initial⟩
  | @snoc trace s e s' _ hs ih =>
    have hpre : trace <+: trace ++ [(s, e)] := List.prefix_append _ _
    obtain ⟨steps, a, hr, ha⟩ := ih fun c pre hp => hshort c pre (hp.trans hpre)
    obtain ⟨a', ha', rfl | ⟨e', he'⟩⟩ := ha.step (fun c => hshort c trace hpre) hs
    · exact ⟨steps, a', hr, ha'⟩
    · exact ⟨_, a', hr.snoc he', ha'⟩

/-- In every run, all calls that a byte brings about end normally, but for the NUL after one end of
line. -/
theorem survives_iff {trace : List (Server × Event)} {s : Server} (h : runs.Run trace s)
    (hshort : Short trace) (pre post : List (Server × Event)) (e : Server × Event)
    (he : trace = pre ++ e :: post) : EndsNormally e ↔ ¬ LoneNewline pre e := by
  obtain ⟨hrun, s', hs, -⟩ := h.split he
  obtain ⟨s, e⟩ := e
  have hpre : pre <+: trace := he ▸ List.prefix_append _ _
  obtain ⟨-, a, -, ha⟩ := represents_run hrun fun c p hp => hshort c p (hp.trans hpre)
  cases e with
  | byte c b =>
    have hs : s.byte c b = some s' := hs
    unfold Server.byte at hs
    split at hs
    · next d p bs hd hp hbs => exact ha.endsNormally_iff b (hshort c pre hpre) (by rw [hbs]; rfl) hd hp
    · cases hs
  | accept | run _ | disconnect _ => exact iff_of_true trivial id

instance : DecidablePred EndsNormally
  | (s, .byte c b) => inferInstanceAs (Decidable (s.endsNormally c b = true))
  | (_, .accept) | (_, .run _) | (_, .disconnect _) => isTrue trivial

/-- The bytes of a CONNECT on a new connection. -/
def connectEvents : List Event :=
  [.accept, .run 1] ++
    (Utf8.encode "CONNECT\naccept-version:1.2\nhost:h\nlogin:u\npasscode:p\n\n\x00".toList).map (.byte 1)

theorem survives_connect : ∃ pre e s, runs.Run (pre ++ [e]) s ∧ e.2 = .byte 1 0 ∧ EndsNormally e ∧
    (EndsNormally e ↔ ¬ LoneNewline pre e) := by
  obtain ⟨trace, s, hr, hlabels, hends⟩ := System.exists_run_labels (M := runs) connectEvents
    (fun trace _ => decide (∀ e ∈ trace, EndsNormally e)) (by decide +kernel)
  rcases List.eq_nil_or_concat trace with rfl | ⟨pre, e, rfl⟩
  · cases hlabels
  rw [List.concat_eq_append] at hr hlabels hends
  have hlength : (pre ++ [e]).length = connectEvents.length := by
    rw [← hlabels, List.length_map]
  have hlast : e.2 = .byte 1 0 := by
    have h := congrArg List.getLast? hlabels
    rw [List.map_append, List.map_singleton, List.getLast?_concat] at h
    exact Option.some.inj h
  refine ⟨pre, e, s, hr, hlast, of_decide_eq_true hends e (by simp), ?_⟩
  exact survives_iff hr (short_of_length (by rw [hlength]; decide)) pre [] e rfl

/-- One end of line and a NUL. -/
def newlineEvents : List Event := [.accept, .run 1, .byte 1 10, .byte 1 0]

theorem newline_throws : ∃ trace s, runs.Run trace s ∧ trace.map (·.2) = newlineEvents ∧ Short trace ∧
    ¬ ∀ e ∈ trace, EndsNormally e := by
  obtain ⟨trace, s, hr, hlabels, hthrows⟩ := System.exists_run_labels (M := runs) newlineEvents
    (fun trace _ => decide (¬ ∀ e ∈ trace, EndsNormally e)) (by decide +kernel)
  have hlength : trace.length = newlineEvents.length := by rw [← hlabels, List.length_map]
  exact ⟨trace, s, hr, hlabels, short_of_length (by rw [hlength]; decide), of_decide_eq_true hthrows⟩

end Server

end Stomp.Checked
