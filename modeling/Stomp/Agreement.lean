import Stomp.Link

/-!
# Client and server agree on subscriptions

A client changes its map before the server hears of it. Its frames on their way lead from the
tables of the server to that map.
-/

open Stomp.Split Stomp.Utf8 Stomp.Client

namespace Stomp

open StompMessageEncoderDecoder StompMessagingProtocolImpl

/-! ## Agreement -/

/-- The frames that the server has still to read from a client. -/
def Peer.undelivered (x : Peer) : List StompFrame :=
  (pieces 0 (x.encdec.pending ++ x.toServer)).filterMap fun piece =>
    match outcome piece with
    | .frame f => some f
    | _ => none

def changesTables (f : StompFrame) : Bool :=
  f.command = "SUBSCRIBE".toList || f.command = "UNSUBSCRIBE".toList

namespace Link

/-- The server after the SUBSCRIBE and UNSUBSCRIBE frames that are on their way to it. -/
def applied (s : Link) (c : ConnectionId) (x : Peer) : Server :=
  (x.undelivered.filter changesTables).foldl (fun t f => (t.process c f).1) s.server

/-- The map of the client and the two tables of the server say the same. -/
def Agree (s : Link) (c : ConnectionId) (x : Peer) : Prop :=
  ∃ p, (s.applied c x).sessions.lookup c = some p ∧
    (∀ channel id, x.protocol.subscriptionIds.lookup channel = some id ↔
      ∃ t, channel = Utf8.encode t ∧ p.clientSubscriptions.lookup id = some t) ∧
    ∀ t id, p.clientSubscriptions.lookup id = some t ↔
      (s.applied c x).connections.subscription t c = some id

end Link

/-- The frame that a join or an exit sends. -/
inductive JoinOrExit : Framing.ClientFrame → Prop
  | join {channel : Bytes} {id : Int} (r : Int) (hc : HeaderText channel) (hi : Decimal.InRange id) :
    JoinOrExit (subscribeFrame channel id r)
  | exit {id : Int} (r : Int) (hi : Decimal.InRange id) : JoinOrExit (unsubscribeFrame id r)

/-! ## The two stages of a session -/

/-- Nothing but the CONNECT is on its way. -/
structure Connecting (s : Server) (c : ConnectionId) (x : Peer) : Prop where
  session : s.sessions.lookup c = some (start c)
  registered : c ∈ s.connections.activeConnections
  unsubscribed : ∀ t, s.connections.subscription t c = none
  protocol : x.protocol = .initial
  quiet : x.toClient = []
  pending : 0 ∉ x.encdec.pending
  stream : ∃ password, nl ∉ x.username ∧ nl ∉ password ∧
    x.encdec.pending ++ x.toServer = (connectFrame x.username password).wire

/-- The server has its tables, `xs` is on its way in the pieces `ps`, and the client has `goal`.
`n` joins are the most that the client can have made. -/
structure LoggedIn (n : Nat) (s : Server) (c : ConnectionId) (x : Peer) (p : Session)
    (own : Int → Option Text) (topics goal : Text → Option Int) (ps : List Bytes)
    (xs : List (Paired.Change Int Text)) : Prop where
  live : s.Live c p
  holds : s.Holds c p own topics
  inverse : Paired.Inverse own topics
  pending : 0 ∉ x.encdec.pending
  stream : x.encdec.pending ++ x.toServer = ps.flatMap (· ++ [0])
  carries : List.Forall₂ Carries ps xs
  flight : Paired.Flight topics xs goal
  ids : ∀ channel id, x.protocol.subscriptionIds.lookup channel = some id ↔
    ∃ t, channel = Utf8.encode t ∧ goal t = some id
  counter : ∃ k : Nat, x.protocol.idCounter = k ∧ k ≤ n ∧ ∀ t id, goal t = some id → 0 ≤ id ∧ id < k
  username : 0 ∉ x.username

inductive Stage (n : Nat) (s : Server) (c : ConnectionId) (x : Peer) : Prop
  | connecting (h : Connecting s c x)
  | loggedIn {p : Session} {own : Int → Option Text} {topics goal : Text → Option Int}
    {ps : List Bytes} {xs : List (Paired.Change Int Text)} (h : LoggedIn n s c x p own topics goal ps xs)

section Stages

variable {n m : Nat} {s s' : Server} {c : ConnectionId} {x x' : Peer} {p : Session}
  {own : Int → Option Text} {topics goal : Text → Option Int} {ps : List Bytes}
  {xs : List (Paired.Change Int Text)} {b : UInt8} {rest : Bytes} {f : StompFrame}

theorem Stage.mono (h : Stage n s c x) (hn : n ≤ m) : Stage m s c x := by
  cases h with
  | connecting h => exact .connecting h
  | loggedIn h =>
    obtain ⟨k, hk, hkn, hids⟩ := h.counter
    exact .loggedIn { h with counter := ⟨k, hk, hkn.trans hn, hids⟩ }

/-! ## Steps of others -/

theorem Stage.other {bs : Bytes} (h : Stage n s c x) (hu : Server.Untouched c s s')
    (hbs : (∀ t, s.connections.subscription t c = none) → bs = []) :
    Stage n s' c { x with toClient := x.toClient ++ bs } := by
  cases h with
  | connecting h =>
    exact .connecting
      { h with
        session := hu.session.trans h.session
        registered := hu.registered.mpr h.registered
        unsubscribed := fun t => (hu.subscribed t).trans (h.unsubscribed t)
        quiet := by simp [h.quiet, hbs h.unsubscribed] }
  | loggedIn h =>
    exact .loggedIn
      { h with
        live := (hu.live_iff _).mpr h.live
        holds := { h.holds with
          session := hu.session.trans h.holds.session
          topics_eq := hu.topicsOf.trans h.holds.topics_eq } }

theorem Stage.untouched (h : Stage n s c x) (hu : Server.Untouched c s s') : Stage n s' c x := by
  have hsame : Stage n s' c { x with toClient := x.toClient ++ [] } := h.other hu fun _ => rfl
  rwa [List.append_nil] at hsame

/-! ## The server reads -/

theorem Stage.byte (h : Stage n s c x) (hb : x.toServer = b :: rest)
    (hr : (x.encdec.decodeNextByte b).1 = .null) :
    Stage n s c { x with toServer := rest, encdec := (x.encdec.decodeNextByte b).2 } := by
  obtain ⟨hne, hpending⟩ := decodeNextByte_null hr
  have hstream : (x.encdec.decodeNextByte b).2.pending ++ rest = x.encdec.pending ++ x.toServer := by
    rw [hpending, hb]
    simp
  have hopen : 0 ∉ x.encdec.pending → 0 ∉ (x.encdec.decodeNextByte b).2.pending := by
    intro h0
    rw [hpending]
    simp [h0, Ne.symm hne]
  cases h with
  | connecting h =>
    obtain ⟨password, hu, hp, hwire⟩ := h.stream
    exact .connecting
      { h with
        pending := hopen h.pending
        stream := ⟨password, hu, hp, hstream.trans hwire⟩ }
  | loggedIn h =>
    exact .loggedIn { h with pending := hopen h.pending, stream := hstream.trans h.stream }

theorem flight_keep (topics : Text → Option Int) {js : List Bytes} (h : ∀ j ∈ js, Carries j .keep) :
    List.Forall₂ Carries js (js.map fun _ => .keep) ∧
      Paired.Flight topics (js.map fun _ => .keep) topics := by
  induction js with
  | nil => exact ⟨.nil, .nil _⟩
  | cons j js ih =>
    rw [List.forall_mem_cons] at h
    obtain ⟨hall, hflight⟩ := ih h.2
    exact ⟨.cons h.1 hall, .cons trivial hflight⟩

theorem Connecting.frame (n : Nat) (bs : Bytes) (h : Connecting s c x) (hb : x.toServer = b :: rest)
    (hr : (x.encdec.decodeNextByte b).1 = .frame f) (hacc : s.accepted c f = true) :
    Stage n (s.process c f).1 c
      { x with toServer := rest, encdec := (x.encdec.decodeNextByte b).2, toClient := bs } := by
  obtain ⟨rfl, hout, hpending⟩ := decodeNextByte_frame hr
  obtain ⟨password, hu, hp, hwire⟩ := h.stream
  rw [hb] at hwire
  have haccepts := (Server.accepted_iff h.session).mp hacc
  have ho := Server.process_outcome s (start c) f
  rw [← Server.process_of_session f h.session] at ho
  generalize s.process c f = r at ho ⊢
  cases ho with
  | refused reason hno => exact absurd haccepts hno
  | subscribe h' => exact absurd h'.connected (by simp [start])
  | unsubscribe h' => exact absurd h'.connected (by simp [start])
  | send h' => exact absurd h'.connected (by simp [start])
  | disconnect h' => exact absurd h'.connected (by simp [start])
  | @connect login passcode h' =>
    obtain ⟨hlogin, js, hjs, hall⟩ := connectFrame_piece hu hp hwire.symm h.pending hout
      (by rw [h'.passcode_eq]; simp)
    obtain ⟨hcarries, hflight⟩ := flight_keep (fun _ => none) hall
    obtain ⟨hreg, htopics, -⟩ := s.connections.authenticateUser_fields c login passcode
    have hsession : ((s.setConnections (s.connections.authenticateUser c login passcode).2).setSession
        { start c with connected := true }).sessions.lookup c =
          some { start c with connected := true } := by
      rw [Server.lookup_setSession]
      exact if_pos rfl
    have hl : LoggedIn n
        ((s.setConnections (s.connections.authenticateUser c login passcode).2).setSession
          { start c with connected := true }) c
        { x with toServer := rest, encdec := (x.encdec.decodeNextByte 0).2, toClient := bs }
        { start c with connected := true } (fun _ => none) (fun _ => none) (fun _ => none) js
        (js.map fun _ => .keep) :=
      { live := ⟨hsession, hreg ▸ h.registered, rfl⟩
        holds := ⟨hsession, rfl, rfl, funext fun t => by
          rw [← h.unsubscribed t]
          simp [Server.topicsOf, ConnectionsImpl.subscription, htopics]⟩
        inverse := Paired.inverse_empty
        pending := by simp [hpending]
        stream := by simp [hpending, hjs]
        carries := hcarries
        flight := hflight
        ids := by simp [h.protocol, StompProtocol.initial]
        counter := ⟨0, by simp [h.protocol, StompProtocol.initial], Nat.zero_le _, by simp⟩
        username := hlogin }
    exact .loggedIn hl

theorem LoggedIn.head (h : LoggedIn n s c x p own topics goal ps xs) (hb : x.toServer = 0 :: rest)
    (hout : outcome x.encdec.pending = .frame f) :
    ∃ y ys qs, rest = qs.flatMap (· ++ [0]) ∧ List.Forall₂ Carries qs ys ∧ Asks f y ∧ y.Fits topics ∧
      Paired.Flight (y.apply topics) ys goal := by
  -- A frame that arrives asks for the first of the changes on their way.
  obtain ⟨-, -, -, h0, hstream, hcarries, hflight, -, -, -⟩ := h
  rw [hb] at hstream
  cases hcarries with
  | nil => simp at hstream
  | @cons q y qs ys hq hcarries =>
    rw [List.flatMap_cons, List.append_assoc, List.singleton_append] at hstream
    obtain ⟨rfl, rfl⟩ := append_cons_inj h0 hq.1 hstream
    obtain ⟨-, f', hout', hask⟩ := hq
    cases hout'.symm.trans hout
    cases hflight with
    | cons hfits hflight => exact ⟨y, ys, qs, rfl, hcarries, hask, hfits, hflight⟩

theorem LoggedIn.frame (bs : Bytes) (h : LoggedIn n s c x p own topics goal ps xs)
    (hb : x.toServer = b :: rest) (hr : (x.encdec.decodeNextByte b).1 = .frame f)
    (hacc : s.accepted c f = true) (hd : f.command ≠ "DISCONNECT".toList) :
    Stage n (s.process c f).1 c
      { x with toServer := rest, encdec := (x.encdec.decodeNextByte b).2, toClient := bs } := by
  obtain ⟨rfl, hout, hpending⟩ := decodeNextByte_frame hr
  obtain ⟨y, ys, qs, rfl, hcarries, hask, hfits, hflight⟩ := h.head hb hout
  obtain ⟨p', hholds, hlive⟩ := h.holds.process h.inverse hfits hask hd
  exact .loggedIn
    { live := hlive hacc h.live
      holds := hholds
      inverse := h.inverse.apply hfits
      pending := by simp [hpending]
      stream := by simp [hpending]
      carries := hcarries
      flight := hflight
      ids := h.ids
      counter := h.counter
      username := h.username }

/-! ## The client sends -/

theorem LoggedIn.send {goal' : Text → Option Int} {qs : List Bytes}
    {ys : List (Paired.Change Int Text)} (h : LoggedIn n s c x p own topics goal ps xs)
    (husername : x'.username = x.username) (hencdec : x'.encdec = x.encdec)
    (hs : x'.toServer = x.toServer ++ qs.flatMap (· ++ [0])) (hc : List.Forall₂ Carries qs ys)
    (hf : Paired.Flight goal ys goal')
    (hids : ∀ channel id, x'.protocol.subscriptionIds.lookup channel = some id ↔
      ∃ t, channel = Utf8.encode t ∧ goal' t = some id)
    (hcounter : ∃ k : Nat, x'.protocol.idCounter = k ∧ k ≤ m ∧
      ∀ t id, goal' t = some id → 0 ≤ id ∧ id < k) :
    LoggedIn m s c x' p own topics goal' (ps ++ qs) (xs ++ ys) where
  live := h.live
  holds := h.holds
  inverse := h.inverse
  pending := hencdec ▸ h.pending
  stream := by rw [hencdec, hs, ← List.append_assoc, h.stream, List.flatMap_append]
  carries := List.rel_append h.carries hc
  flight := h.flight.append hf
  ids := hids
  counter := hcounter
  username := husername ▸ h.username

theorem wire_texts (ms : List Framing.ClientFrame) :
    ms.flatMap Framing.ClientFrame.wire = (ms.map Framing.ClientFrame.text).flatMap (· ++ [0]) := by
  rw [List.flatMap_map]
  rfl

theorem ids_update {ids ids' : Table Bytes Int} {goal : Text → Option Int} {t : Text} {v : Option Int}
    (h : ∀ channel id, ids.lookup channel = some id ↔ ∃ t', channel = Utf8.encode t' ∧ goal t' = some id)
    (hids : ∀ channel, ids'.lookup channel =
      if channel = Utf8.encode t then v else ids.lookup channel) (channel : Bytes) (id : Int) :
    ids'.lookup channel = some id ↔
      ∃ t', channel = Utf8.encode t' ∧ Function.update goal t v t' = some id := by
  -- A change of one channel in the table of the client is a change of one topic in its goal.
  rw [hids]
  by_cases hch : channel = Utf8.encode t
  · subst hch
    rw [if_pos rfl]
    constructor
    · exact fun hid => ⟨t, rfl, by rwa [Function.update_self]⟩
    · rintro ⟨t', ht', hid⟩
      obtain rfl := encode_injective ht'
      rwa [Function.update_self] at hid
  · rw [if_neg hch, h]
    refine exists_congr fun t' => and_congr_right ?_
    rintro rfl
    have hne : t' ≠ t := by
      rintro rfl
      exact hch rfl
    rw [Function.update_of_ne hne]

theorem LoggedIn.join {channel : Bytes} {r : Int} (h : LoggedIn n s c x p own topics goal ps xs)
    (hc : HeaderText channel) (hn : n + 1 ≤ m)
    (hm : m < 2 ^ 31) (hnew : x.protocol.subscriptionIds.lookup channel = none)
    (husername : x'.username = x.username) (hencdec : x'.encdec = x.encdec)
    (hs : x'.toServer = x.toServer ++ (subscribeFrame channel x.protocol.idCounter r).wire)
    (hids : x'.protocol.subscriptionIds =
      x.protocol.subscriptionIds.insert channel x.protocol.idCounter)
    (hcounter : x'.protocol.idCounter = Decimal.wrap (x.protocol.idCounter + 1)) :
    Stage m s c x' := by
  obtain ⟨⟨t, rfl⟩, hline⟩ := hc
  obtain ⟨k, hk, hkn, hbound⟩ := h.counter
  rw [hk] at hs hids hcounter
  have hfree : goal t = none := by
    rw [Option.eq_none_iff_forall_ne_some]
    intro id hid
    have := (h.ids (Utf8.encode t) id).mpr ⟨t, rfl, hid⟩
    rw [hnew] at this
    cases this
  have hfits : Paired.Change.Fits goal (.put (k : Int) t) := by
    refine ⟨hfree, fun t' ht' => ?_⟩
    have := (hbound t' k ht').2
    omega
  have hcarries : List.Forall₂ Carries [(subscribeFrame (Utf8.encode t) k r).text] [.put (k : Int) t] :=
    .cons (subscribeFrame_carries r ⟨⟨t, rfl⟩, hline⟩ ⟨by omega, by omega⟩) .nil
  refine .loggedIn (h.send husername hencdec (by simpa [Framing.ClientFrame.wire_eq] using hs) hcarries
    (.cons hfits (.nil _)) ?_ ?_)
  · refine ids_update h.ids fun channel => ?_
    rw [hids, Table.lookup_insert_if]
  · refine ⟨k + 1, ?_, by omega, fun t' id hid => ?_⟩
    · rw [hcounter, Decimal.wrap_of_inRange ⟨by omega, by omega⟩]
      simp
    · by_cases hne : t' = t
      · subst hne
        simp only [Paired.Change.apply, Function.update_self, Option.some.injEq] at hid
        omega
      · simp only [Paired.Change.apply, Function.update_of_ne hne] at hid
        have := hbound t' id hid
        omega

theorem LoggedIn.exit {channel : Bytes} {id r : Int} (h : LoggedIn n s c x p own topics goal ps xs)
    (hc : HeaderText channel) (hn : n ≤ m)
    (hm : m < 2 ^ 31) (hold : x.protocol.subscriptionIds.lookup channel = some id)
    (husername : x'.username = x.username) (hencdec : x'.encdec = x.encdec)
    (hs : x'.toServer = x.toServer ++ (unsubscribeFrame id r).wire)
    (hids : x'.protocol.subscriptionIds = x.protocol.subscriptionIds.erase channel)
    (hcounter : x'.protocol.idCounter = x.protocol.idCounter) : Stage m s c x' := by
  -- An exit drops a pair that both sides have, or that the server will have by then.
  obtain ⟨⟨t, rfl⟩, -⟩ := hc
  obtain ⟨k, hk, hkn, hbound⟩ := h.counter
  have hfits : goal t = some id := by
    obtain ⟨t', ht', hid⟩ := (h.ids _ _).mp hold
    rwa [encode_injective ht']
  have hrange := hbound t id hfits
  have hcarries : List.Forall₂ Carries [(unsubscribeFrame id r).text] [.drop id t] :=
    .cons (unsubscribeFrame_carries r ⟨by omega, by omega⟩) .nil
  refine .loggedIn (h.send husername hencdec (by simpa [Framing.ClientFrame.wire_eq] using hs) hcarries
    (.cons hfits (.nil _)) ?_ ?_)
  · refine ids_update h.ids fun channel => ?_
    rw [hids, Table.lookup_erase_if]
  · refine ⟨k, hcounter.trans hk, hkn.trans hn, fun t' id' hid => hbound t' id' ?_⟩
    by_cases hne : t' = t
    · subst hne
      simp [Paired.Change.apply] at hid
    · simpa [Paired.Change.apply, hne] using hid

theorem LoggedIn.tell {qs : List Bytes} (h : LoggedIn n s c x p own topics goal ps xs) (hn : n ≤ m)
    (husername : x'.username = x.username) (hencdec : x'.encdec = x.encdec)
    (hs : x'.toServer = x.toServer ++ qs.flatMap (· ++ [0])) (hq : ∀ q ∈ qs, Carries q .keep)
    (hids : x'.protocol.subscriptionIds = x.protocol.subscriptionIds)
    (hcounter : x'.protocol.idCounter = x.protocol.idCounter) : Stage m s c x' := by
  obtain ⟨hcarries, hflight⟩ := flight_keep goal hq
  obtain ⟨k, hk, hkn, hbound⟩ := h.counter
  refine .loggedIn (h.send husername hencdec hs hcarries hflight ?_ ⟨k, ?_, hkn.trans hn, hbound⟩)
  · rw [hids]
    exact h.ids
  · rw [hcounter, hk]

theorem Stage.command {command : Command} (h : Stage n s c x) (hc : command.ChannelsOk)
    (h0 : command.NoNul) (hn : n + (command.takesId x.protocol).toNat ≤ m) (hm : m < 2 ^ 31) :
    Stage m s c (x.command command) := by
  cases h with
  | connecting h =>
    have hrun := Command.run_disconnected (p := x.protocol) (by rw [h.protocol]; rfl) x.username command
    obtain ⟨password, hu, hp, hwire⟩ := h.stream
    exact .connecting
      { h with
        protocol := (congrArg Prod.fst hrun).trans h.protocol
        stream := ⟨password, hu, hp, by simpa [Peer.command, hrun] using hwire⟩ }
  | loggedIn h =>
    have he := Command.run_effect x.protocol x.username command
    have hle : n ≤ m := by omega
    unfold Peer.command
    generalize command.run x.protocol x.username = r at he ⊢
    cases he with
    | join r htakes hnew hids hcounter _ =>
      rw [htakes] at hn
      exact h.join (r := r) hc hn hm hnew rfl rfl (by simp) hids hcounter
    | exit id r hold hids hcounter _ =>
      exact h.exit (r := r) hc hle hm hold rfl rfl (by simp) hids hcounter
    | @report channel_name events _ =>
      refine h.tell hle rfl rfl (congrArg _ (wire_texts _)) ?_ rfl rfl
      simp only [List.map_map, List.mem_map]
      rintro _ ⟨event, hevent, rfl⟩
      exact reportFrame_carries h.username hc.2.2 (h0 event hevent)
    | logout r hids hcounter _ =>
      refine h.tell hle rfl rfl (congrArg _ (wire_texts _)) ?_ hids hcounter
      rw [List.map_singleton, List.forall_mem_singleton]
      exact disconnectFrame_carries r
    | nothing hids hcounter _ =>
      have hnone : ∀ q ∈ ([] : List Bytes), Carries q .keep := by simp
      exact h.tell hle rfl rfl rfl hnone hids hcounter

/-! ## The client reads -/

theorem Stage.receive {message rest : Bytes} {p : StompProtocol} (h : Stage n s c x)
    (hm : getFrameAscii [] 0 x.toClient = some (message, rest))
    (hp : x.protocol.parseFrame message = some p) :
    Stage n s c { x with protocol := p, toClient := rest } := by
  cases h with
  | connecting h =>
    rw [h.quiet] at hm
    cases hm
  | loggedIn h =>
    obtain ⟨hids, hcounter⟩ := Command.parseFrame_keeps hp
    obtain ⟨k, hk, hkn, hbound⟩ := h.counter
    exact .loggedIn
      { h with
        ids := by
          simp only [hids]
          exact h.ids
        counter := ⟨k, hcounter.trans hk, hkn, hbound⟩ }

end Stages

/-! ## One step and whole runs -/

theorem stage_login {s : Server} (hf : s.IdsFresh) (n : Nat) (username password : Word) :
    Stage n s.accept (s.connectionCounter + 1) (.login username password) :=
  .connecting
    { session := s.lookup_accept
      registered := by simp [Server.accept, ConnectionsImpl.register]
      unsubscribed := (hf _ (Nat.lt_succ_self _)).2.unsubscribed
      protocol := rfl
      quiet := rfl
      pending := List.not_mem_nil
      stream := ⟨password, username.2, password.2, rfl⟩ }

theorem stage_insert {n : Nat} {s : Link} {c d : ConnectionId} {y : Peer}
    (h : ∀ x, s.peers.lookup c = some x → Stage n s.server c x) (hy : c = d → Stage n s.server c y) :
    ∀ x, (s.peers.insert d y).lookup c = some x → Stage n s.server c x := by
  intro x hx
  rw [Table.lookup_insert_if] at hx
  split at hx
  · next heq =>
    cases hx
    exact hy heq
  · exact h x hx

theorem stage_frame {n : Nat} {s : Link} {c d : ConnectionId} {y : Peer} {b : UInt8} {rest : Bytes}
    {f : StompFrame} (h : ∀ x, s.peers.lookup c = some x → Stage n s.server c x)
    (hd : Link.disturbs c (s, .deliver d) = false) (hy : s.peers.lookup d = some y)
    (hb : y.toServer = b :: rest) (hr : (y.encdec.decodeNextByte b).1 = .frame f) :
    ∀ x, ((s.server.process d f).2.foldl Link.handOver (s.peers.insert d
        { y with toServer := rest, encdec := (y.encdec.decodeNextByte b).2 })).lookup c = some x →
      Stage n (s.server.process d f).1 c x := by
  intro x hx
  obtain ⟨bs, hlookup, hnil⟩ := Link.lookup_handOver (s.server.process d f).2
    (s.peers.insert d { y with toServer := rest, encdec := (y.encdec.decodeNextByte b).2 }) c
  rw [hlookup, Table.lookup_insert_if] at hx
  split at hx
  · next heq =>
    subst heq
    cases hx
    have hcompleted : y.completed = some f := Peer.completed_some hb hr
    simp only [Link.disturbs, decide_true, hy, Option.bind_some, hcompleted, Option.any_some,
      Bool.true_and, Bool.or_eq_false_iff, Bool.not_eq_false', decide_eq_false_iff_not] at hd
    cases h y hy with
    | connecting h => exact h.frame n _ hb hr hd.1
    | loggedIn h => exact h.frame _ hb hr hd.1 hd.2
  · next hne =>
    obtain ⟨z, hz, rfl⟩ := Option.map_eq_some_iff.mp hx
    obtain ⟨hu, hsent⟩ := Link.process_other s.server f hne
    refine (h z hz).other hu fun hfree => hnil fun m' hm' hto => ?_
    obtain ⟨t, ht⟩ := hsent m' hm' hto
    exact ht (hfree t)

theorem stage_step {n m : Nat} {s s' : Link} {e : LinkEvent} {c : ConnectionId}
    (hf : s.server.IdsFresh) (h : ∀ x, s.peers.lookup c = some x → Stage n s.server c x)
    (hd : Link.disturbs c (s, e) = false)
    (hc : ∀ command, e = .command c command → command.ChannelsOk ∧ command.NoNul)
    (hn : n + (Link.joins c (s, e)).toNat ≤ m) (hm : m < 2 ^ 31) (hs : Link.Step s e s') :
    ∀ x, s'.peers.lookup c = some x → Stage m s'.server c x := by
  have hle : n ≤ m := by omega
  have hkeep : ∀ x, s.peers.lookup c = some x → Stage m s.server c x := fun x hx => (h x hx).mono hle
  cases hs with
  | login username password =>
    intro x hx
    rw [Table.lookup_insert_if] at hx
    split at hx
    · next heq =>
      cases hx
      subst heq
      exact stage_login hf m username password
    · next hne => exact (hkeep x hx).untouched (s.server.untouched_accept hne)
  | @command d y command hy =>
    refine stage_insert hkeep fun heq => ?_
    subst heq
    have hjoins : Link.joins c (s, .command c command) = command.takesId y.protocol := by
      simp [Link.joins, hy]
    rw [hjoins] at hn
    exact (h y hy).command (hc command rfl).1 (hc command rfl).2 hn hm
  | @byte d y b rest hy hb hr =>
    refine stage_insert hkeep fun heq => ?_
    subst heq
    exact (hkeep y hy).byte hb hr
  | frame hy hb hr => exact stage_frame hkeep hd hy hb hr
  | @receive d y message rest p hy hmessage hp =>
    refine stage_insert hkeep fun heq => ?_
    subst heq
    exact (hkeep y hy).receive hmessage hp
  | lost e d =>
    intro x hx
    exact hkeep x (Table.lookup_of_lookup_erase hx).2
  | disconnect d =>
    intro x hx
    have hne : c ≠ d := by
      rintro rfl
      simp [Link.disturbs] at hd
    exact (hkeep x hx).untouched (s.server.untouched_disconnect hne)

theorem stage_run {trace : List (Link × LinkEvent)} {s : Link} {c : ConnectionId}
    (h : Link.runs.Run trace s) (hd : ∀ e ∈ trace, Link.disturbs c e = false)
    (hc : ∀ e ∈ trace, ∀ command, e.2 = .command c command → command.ChannelsOk ∧ command.NoNul)
    (hjoins : trace.countP (Link.joins c) < 2 ^ 31) :
    s.server.IdsFresh ∧
      ∀ x, s.peers.lookup c = some x → Stage (trace.countP (Link.joins c)) s.server c x := by
  induction h with
  | nil => exact ⟨Server.idsFresh_initial, fun x hx => by cases hx⟩
  | @snoc trace s e s' hr hs ih =>
    have hstep := Link.next_step hs
    have hcount : trace.countP (Link.joins c) + (Link.joins c (s, e)).toNat =
        (trace ++ [(s, e)]).countP (Link.joins c) := by
      rw [List.countP_append, List.countP_singleton]
      cases Link.joins c (s, e) <;> rfl
    obtain ⟨hf, hstage⟩ := ih (fun e he => hd e (List.mem_append_left _ he))
      (fun e he => hc e (List.mem_append_left _ he)) (by omega)
    have hlast : (s, e) ∈ trace ++ [(s, e)] := List.mem_append_right _ (List.mem_singleton_self _)
    refine ⟨?_, stage_step hf hstage (hd _ hlast) (hc _ hlast) hcount.le hjoins hstep⟩
    rcases hstep.server with hserver | ⟨e', he'⟩
    · exact hserver ▸ hf
    · exact Server.idsFresh_step hf he'

/-! ## What the tables will be -/

theorem undelivered_asks {x : Peer} {ps : List Bytes} {xs : List (Paired.Change Int Text)}
    (hs : x.encdec.pending ++ x.toServer = ps.flatMap (· ++ [0])) (h : List.Forall₂ Carries ps xs) :
    List.Forall₂ Asks x.undelivered xs := by
  have hpieces : pieces 0 (ps.flatMap (· ++ [0])) = ps := by
    clear hs
    induction h with
    | nil => rfl
    | cons hq _ ih =>
      rw [List.flatMap_cons, List.append_assoc, List.singleton_append, pieces_cons 0 _ _ hq.1, ih]
  rw [Peer.undelivered, hs, hpieces]
  clear hs hpieces
  induction h with
  | nil => exact .nil
  | cons hq _ ih =>
    obtain ⟨-, f, hout, hask⟩ := hq
    rw [List.filterMap_cons_some (b := f) (by rw [hout])]
    exact .cons hask ih

theorem applied_holds {s : Server} {c : ConnectionId} {p : Session} {own : Int → Option Text}
    {topics goal : Text → Option Int} {fs : List StompFrame} {xs : List (Paired.Change Int Text)}
    (h : s.Holds c p own topics) (hinv : Paired.Inverse own topics)
    (hflight : Paired.Flight topics xs goal) (hfs : List.Forall₂ Asks fs xs) :
    ∃ p' own', ((fs.filter changesTables).foldl (fun t f => (t.process c f).1) s).Holds c p' own' goal ∧
      Paired.Inverse own' goal := by
  induction hflight generalizing s p own fs with
  | nil t =>
    cases hfs
    exact ⟨p, own, h, hinv⟩
  | @cons t goal y ys hfits hflight ih =>
    cases hfs with
    | @cons f _ fs _ hf hfs =>
      by_cases hcommand : changesTables f = true
      · have hd : f.command ≠ "DISCONNECT".toList := by
          intro hd
          simp [changesTables, hd] at hcommand
        obtain ⟨p', hholds, -⟩ := h.process hinv hfits hf hd
        rw [List.filter_cons_of_pos hcommand, List.foldl_cons]
        exact ih hholds (hinv.apply hfits) hfs
      · have hkeep : y = .keep := by
          cases hf with
          | put command _ _ => simp [changesTables, command] at hcommand
          | drop command _ => simp [changesTables, command] at hcommand
          | keep _ => rfl
        subst hkeep
        rw [List.filter_cons_of_neg hcommand]
        exact ih h hinv hfs

theorem LoggedIn.agree {n : Nat} {s : Link} {c : ConnectionId} {x : Peer} {p : Session}
    {own : Int → Option Text} {topics goal : Text → Option Int} {ps : List Bytes}
    {xs : List (Paired.Change Int Text)} (h : LoggedIn n s.server c x p own topics goal ps xs) :
    s.Agree c x := by
  obtain ⟨q, own', hq, hinv⟩ := applied_holds h.holds h.inverse h.flight
    (undelivered_asks h.stream h.carries)
  have hown : ∀ id t, q.clientSubscriptions.lookup id = some t ↔ goal t = some id := by
    intro id t
    rw [← hinv id t, ← hq.own_eq]
    rfl
  refine ⟨q, hq.session, fun channel id => ?_, fun t id => ?_⟩
  · simp only [h.ids, hown]
  · rw [hown, ← hq.topics_eq]
    rfl

theorem JoinOrExit.carries {m : Framing.ClientFrame} (h : JoinOrExit m) :
    ∃ y, y ≠ .keep ∧ Carries m.text y := by
  cases h with
  | @join channel id r hc hi =>
    obtain ⟨⟨t, rfl⟩, hline⟩ := hc
    exact ⟨.put id t, by simp, subscribeFrame_carries r ⟨⟨t, rfl⟩, hline⟩ hi⟩
  | @exit id r hi => exact ⟨.drop id [], by simp, unsubscribeFrame_carries r hi⟩

theorem Asks.ne_keep {f : StompFrame} {y z : Paired.Change Int Text} (hy : Asks f y) (hne : y ≠ .keep)
    (hz : Asks f z) : z ≠ .keep := by
  rintro rfl
  cases hz with
  | keep hk =>
    cases hy with
    | put command _ id_eq =>
      rw [hk (.inl command)] at id_eq
      cases id_eq
    | drop command id_eq =>
      rw [hk (.inr command)] at id_eq
      cases id_eq
    | keep _ => exact hne rfl

/-- What the server will have is what a logged-in client has, and no join or exit of it is
answered with an ERROR. -/
theorem subscriptions_agree {trace : List (Link × LinkEvent)} {s : Link} {c : ConnectionId} {x : Peer}
    (h : Link.runs.Run trace s) (hd : ∀ e ∈ trace, Link.disturbs c e = false)
    (hc : ∀ e ∈ trace, ∀ command, e.2 = .command c command → command.ChannelsOk)
    (h0 : ∀ e ∈ trace, ∀ command, e.2 = .command c command → command.NoNul)
    (hjoins : trace.countP (Link.joins c) < 2 ^ 31) (hx : s.peers.lookup c = some x)
    (hlogin : x.protocol.connected = true) :
    s.Agree c x ∧ ∀ m f, JoinOrExit m → x.encdec.pending = m.text → x.completed = some f →
      s.server.accepted c f = true := by
  obtain ⟨-, hstage⟩ := stage_run h hd
    (fun e he command heq => ⟨hc e he command heq, h0 e he command heq⟩) hjoins
  cases hstage x hx with
  | connecting h =>
    rw [h.protocol] at hlogin
    cases hlogin
  | loggedIn h =>
    refine ⟨h.agree, fun m f hm hpending hf => ?_⟩
    obtain ⟨rest, hb, hout⟩ := Peer.completed_eq hf
    obtain ⟨y, ys, qs, -, -, hask, hfits, -⟩ := h.head hb hout
    obtain ⟨z, hne, -, g, hg, hz⟩ := hm.carries
    rw [hpending] at hout
    cases hg.symm.trans hout
    have hy := hz.ne_keep hne hask
    exact (Server.accepted_iff h.holds.session).mpr (h.holds.accepts h.inverse hfits hask hy)

/-! ## Two runs -/

/-- A word of ASCII. -/
def word (s : String) (h : nl ∉ ascii s) : Word := ⟨ascii s, h⟩

/-- A client logs in and joins a channel. -/
def joinRun : List LinkEvent :=
  .login (word "u" (by decide)) (word "p" (by decide)) :: List.replicate 72 (.deliver 1) ++
    [.receive 1, .command 1 (.join (ascii "t"))]

/-- An event whose description holds a NUL, and after it an UNSUBSCRIBE frame. -/
def cutEvent : Event := ⟨[], [], [], 0, ascii "\x00UNSUBSCRIBE\nid:0\n\n", ∅, []⟩

/-- The client reports the event, and the server reads everything. -/
def reportRun : List LinkEvent :=
  joinRun ++ .command 1 (.report (ascii "t") [cutEvent]) :: List.replicate 153 (.deliver 1)

theorem exists_calm_run (ls : List LinkEvent) (q : Link → Peer → Bool)
    (h : (Link.runs.exec ls).any (fun r => r.1.all (fun e => !Link.disturbs 1 e) &&
      decide (r.1.countP (Link.joins 1) < 2 ^ 31) &&
      (r.2.peers.lookup 1).any fun x : Peer => x.protocol.connected && q r.2 x) = true) :
    ∃ trace s x, Link.runs.Run trace s ∧ trace.map (·.2) = ls ∧
      (∀ e ∈ trace, Link.disturbs 1 e = false) ∧ trace.countP (Link.joins 1) < 2 ^ 31 ∧
      s.peers.lookup 1 = some x ∧ x.protocol.connected = true ∧ q s x = true := by
  obtain ⟨trace, s, hr, hl, hs⟩ := System.exists_run_labels ls (fun trace s =>
    trace.all (fun e => !Link.disturbs 1 e) && decide (trace.countP (Link.joins 1) < 2 ^ 31) &&
      (s.peers.lookup 1).any fun x : Peer => x.protocol.connected && q s x) h
  simp only [Bool.and_eq_true, List.all_eq_true, Bool.not_eq_true', decide_eq_true_eq,
    Option.any_eq_true] at hs
  obtain ⟨⟨hd, hj⟩, x, hx, hcon, hq⟩ := hs
  exact ⟨trace, s, x, hr, hl, hd, hj, hx, hcon, hq⟩

theorem mem_joinRun {command : Command} (h : .command 1 command ∈ joinRun) :
    command = .join (ascii "t") := by
  simp only [joinRun, List.mem_append, List.mem_cons, List.mem_replicate] at h
  rcases h with (h | ⟨-, h⟩) | h | h | h <;> cases h
  rfl

theorem mem_reportRun {command : Command} (h : .command 1 command ∈ reportRun) :
    command = .join (ascii "t") ∨ command = .report (ascii "t") [cutEvent] := by
  simp only [reportRun, List.mem_append, List.mem_cons, List.mem_replicate] at h
  rcases h with h | h | ⟨-, h⟩
  · exact .inl (mem_joinRun h)
  · cases h
    exact .inr rfl
  · cases h

theorem headerText_t : HeaderText (ascii "t") := ⟨⟨_, rfl⟩, by decide⟩

/-- The SUBSCRIBE is still on its way. -/
theorem subscriptions_agree_joined : ∃ trace s x, Link.runs.Run trace s ∧
    s.peers.lookup 1 = some x ∧ x.protocol.subscriptionIds.lookup (ascii "t") = some 0 ∧
    s.server.connections.subscription "t".toList 1 = none ∧
    s.Agree 1 x ∧ ∀ m f, JoinOrExit m → x.encdec.pending = m.text → x.completed = some f →
      s.server.accepted 1 f = true := by
  obtain ⟨trace, s, x, hr, hl, hd, hj, hx, hcon, hq⟩ := exists_calm_run joinRun (fun s x =>
    decide (x.protocol.subscriptionIds.lookup (ascii "t") = some 0) &&
      decide (s.server.connections.subscription "t".toList 1 = none)) (by decide +kernel)
  simp only [Bool.and_eq_true, decide_eq_true_eq] at hq
  have hcommand : ∀ e ∈ trace, ∀ command, e.2 = .command 1 command → command = .join (ascii "t") := by
    intro e he command heq
    exact mem_joinRun (hl ▸ heq ▸ List.mem_map_of_mem he)
  refine ⟨trace, s, x, hr, hx, hq.1, hq.2, subscriptions_agree hr hd ?_ ?_ hj hx hcon⟩
  · intro e he command heq
    rw [hcommand e he command heq]
    exact headerText_t
  · intro e he command heq
    rw [hcommand e he command heq]
    trivial

/-- The server takes what follows the NUL for an UNSUBSCRIBE, and the client does not know. -/
theorem report_unsubscribes : ∃ trace s x, Link.runs.Run trace s ∧
    (∀ e ∈ trace, Link.disturbs 1 e = false) ∧
    (∀ e ∈ trace, ∀ command, e.2 = .command 1 command → command.ChannelsOk) ∧
    trace.countP (Link.joins 1) < 2 ^ 31 ∧ s.peers.lookup 1 = some x ∧
    x.protocol.connected = true ∧ ¬ s.Agree 1 x := by
  obtain ⟨trace, s, x, hr, hl, hd, hj, hx, hcon, hq⟩ := exists_calm_run reportRun (fun s x =>
    decide (x.protocol.subscriptionIds.lookup (ascii "t") = some 0) &&
      ((s.applied 1 x).sessions.lookup 1).all fun p : Session =>
        decide (p.clientSubscriptions.lookup 0 = none)) (by decide +kernel)
  simp only [Bool.and_eq_true, decide_eq_true_eq, Option.all_eq_true] at hq
  refine ⟨trace, s, x, hr, hd, fun e he command heq => ?_, hj, hx, hcon, ?_⟩
  · have hmem : .command 1 command ∈ reportRun := hl ▸ heq ▸ List.mem_map_of_mem he
    rcases mem_reportRun hmem with rfl | rfl <;> exact headerText_t
  · rintro ⟨p, hp, hids, -⟩
    obtain ⟨t, -, ht⟩ := (hids _ _).mp hq.1
    rw [hq.2 p hp] at ht
    cases ht

end Stomp
