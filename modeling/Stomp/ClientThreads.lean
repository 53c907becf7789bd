import Stomp.Base.Simulation
import Stomp.Matching
import Stomp.PeerCalls

/-!
# The two threads of a client

Any number of clients, each with its `main` between two calls of a branch. A run of them is a run in
which every command happens at once. It lasts as long as the two threads of a client do not come to
`receiptMap` together, which no lock guards.
-/

open Stomp.Split Stomp.Utf8 Stomp.Client

namespace Stomp

open StompMessageEncoderDecoder

/-- `main` in a branch: the command, and what is left of it. -/
structure Doing where
  command : Command
  rest : Branch

structure ClientThreads where
  link : Link
  doing : ConnectionId → Option Doing

inductive ClientThreadsEvent where
  /-- A step that is not one of `main` at its prompt. -/
  | link (e : LinkEvent)
  /-- `main` takes a command from its user. -/
  | start (c : ConnectionId) (command : Command)
  | call (c : ConnectionId)

namespace ClientThreads

/-- `main` is not in the middle of a command. -/
def idle (s : ClientThreads) (c : ConnectionId) : Bool :=
  match s.doing c with
  | some ⟨_, .call _ _⟩ => false
  | _ => true

/-- `main` is about to store a receipt while its communication thread has one to look up. -/
def races (s : ClientThreads) (c : ConnectionId) : Bool :=
  match s.doing c with
  | some ⟨_, .call (.storeReceipt _ _) _⟩ =>
    ((s.link.peers.lookup c).bind Peer.incoming).any fun m : StompProtocol.Parsed =>
      decide (m.command = ascii "RECEIPT") && (m.headers.lookup (ascii "receipt-id")).isSome
  | _ => false

/-- In a data race anything may happen, and neither thread of the client takes a step. -/
def next (s : ClientThreads) : ClientThreadsEvent → Option ClientThreads
  | .link (.command _ _) => none
  | .link (.receive c) =>
    if s.races c then none else (s.link.next (.receive c)).map fun link => { s with link := link }
  | .link e => (s.link.next e).map fun link => { s with link := link }
  | .start c command =>
    (s.link.peers.lookup c).bind fun x =>
      if x.waits || !s.idle c then none
      else some { s with
        doing := Function.update s.doing c (some ⟨command, command.branch x.username⟩) }
  | .call c =>
    if s.races c then none
    else (s.link.peers.lookup c).bind fun x =>
      match s.doing c with
      | some ⟨command, .call k rest⟩ =>
        let r := Peer.answer k x
        some ⟨{ s.link with peers := s.link.peers.insert c r.2 },
          Function.update s.doing c (some ⟨command, rest r.1⟩)⟩
      | _ => none

def runs : System ClientThreads ClientThreadsEvent := ⟨⟨Link.runs.init, fun _ => none⟩, next⟩

/-- A client joins `c` and then `d`, and the RECEIPT of the first comes when `main` is about to store
the receipt of the second. -/
def raceRun : List ClientThreadsEvent :=
  .link (.login (word "u" Link.nl_not_mem_u) (word "p" Link.nl_not_mem_p)) ::
    List.replicate 72 (.link (.deliver 1)) ++ [.link (.receive 1), .start 1 (.join (ascii "c"))] ++
      List.replicate 48 (.call 1) ++ List.replicate 41 (.link (.deliver 1)) ++
        .start 1 (.join (ascii "d")) :: List.replicate 4 (.call 1)

theorem races_reached : ∃ trace s, runs.Run trace s ∧ s.races 1 = true :=
  System.exists_run (M := runs) raceRun (fun _ s => s.races 1) (by decide +kernel)

theorem next_link {s s' : ClientThreads} {e : LinkEvent} (h : s.next (.link e) = some s') :
    (∀ c command, e ≠ .command c command) ∧ ∃ l, s.link.next e = some l ∧ s' = { s with link := l } := by
  have hlink : (∀ c command, e ≠ .command c command) ∧
      (s.link.next e).map (fun link => { s with link := link }) = some s' := by
    cases e with
    | command c command => cases h
    | receive c => exact ⟨nofun, (Option.ite_none_left_eq_some.mp h).2⟩
    | login _ _ | deliver _ | lose _ | disconnect _ => exact ⟨nofun, h⟩
  obtain ⟨l, hl, rfl⟩ := Option.map_eq_some_iff.mp hlink.2
  exact ⟨hlink.1, l, hl, rfl⟩

theorem next_start {s s' : ClientThreads} {c : ConnectionId} {command : Command}
    (h : s.next (.start c command) = some s') : ∃ x, s.link.peers.lookup c = some x ∧
      x.waits = false ∧ s.idle c = true ∧ s' = { s with
        doing := Function.update s.doing c (some ⟨command, command.branch x.username⟩) } := by
  obtain ⟨x, hx, h⟩ := Option.bind_eq_some_iff.mp h
  simp only [Option.ite_none_left_eq_some, Bool.or_eq_true, Bool.not_eq_true', not_or,
    Bool.not_eq_true, Bool.not_eq_false, Option.some.injEq] at h
  exact ⟨x, hx, h.1.1, h.1.2, h.2.symm⟩

theorem next_call {s s' : ClientThreads} {c : ConnectionId} (h : s.next (.call c) = some s') :
    ∃ x command k rest, s.link.peers.lookup c = some x ∧
      s.doing c = some ⟨command, .call k rest⟩ ∧
      s' = ⟨{ s.link with peers := s.link.peers.insert c (Peer.answer k x).2 },
        Function.update s.doing c (some ⟨command, rest (Peer.answer k x).1⟩)⟩ := by
  obtain ⟨x, hx, h⟩ := Option.bind_eq_some_iff.mp (Option.ite_none_left_eq_some.mp h).2
  split at h
  · next command k rest hdoing => exact ⟨x, command, k, rest, hx, hdoing, (Option.some.inj h).symm⟩
  · cases h

/-! ## The history of a run -/

/-- The steps that `main` does not make. -/
def others : ClientThreads × ClientThreadsEvent → Option LinkEvent
  | (_, .link e) => some e
  | _ => none

def started (c : ConnectionId) : ClientThreads × ClientThreadsEvent → Option Command
  | (_, .start d command) => if c = d then some command else none
  | _ => none

def reads (c : ConnectionId) : ClientThreads × ClientThreadsEvent → Option StompFrame
  | (s, .link e) => Link.reads c (s.link, e)
  | _ => none

def hands (c : ConnectionId) : ClientThreads × ClientThreadsEvent → List Handed
  | (s, .link e) => Link.hands c (s.link, e)
  | _ => []

def handles (c : ConnectionId) : ClientThreads × ClientThreadsEvent → Option StompProtocol.Parsed
  | (s, .link e) => Link.handles c (s.link, e)
  | _ => none

end ClientThreads

namespace Link

/-- The steps that are not commands. -/
def others : Link × LinkEvent → Option LinkEvent
  | (_, .command _ _) => none
  | (_, e) => some e

def commands (c : ConnectionId) : Link × LinkEvent → Option Command
  | (_, .command d command) => if c = d then some command else none
  | _ => none

end Link

/-! ## One client next to another -/

/-- A client in the middle of a command, next to it before or after the command, with the commands
that have still to happen. -/
inductive Matches : Option Doing → List Command → Peer → Peer → Prop
  | none (x : Peer) : Matches none [] x x
  | before {command : Command} {rest : Branch} {x y : Peer} (hw : y.waits = false)
    (h : Prog.Before Peer.answer Peer.Others Peer.Connected (command.branch y.username) rest x y) :
    Matches (some ⟨command, rest⟩) [command] x y
  | after {command : Command} {rest : Branch} {x y : Peer} (hw : y.waits = true → command = .logout)
    (h : Prog.After Peer.answer Peer.Others Peer.Connected rest x y) :
    Matches (some ⟨command, rest⟩) [] x y

theorem Matches.others {d : Option Doing} {owed : List Command} {x y x' : Peer} {e : PeerEvent}
    (h : Matches d owed x y) (he : Peer.Others e x x') :
    ∃ y', Peer.Others e y y' ∧ Matches d owed x' y' := by
  have hstable := fun x e y hx he => Peer.Others.connected (e := e) (x := x) (y := y) he hx
  cases h with
  | none => exact ⟨x', he, .none x'⟩
  | before hw h =>
    obtain ⟨y', hy', hbefore⟩ := h.others hstable he
    obtain ⟨husername, hwaits⟩ := hy'.fixed
    exact ⟨y', hy', .before (hwaits.trans hw) (husername ▸ hbefore)⟩
  | after hw h =>
    obtain ⟨y', hy', hafter⟩ := h.others hstable he
    obtain ⟨-, hwaits⟩ := hy'.fixed
    exact ⟨y', hy', .after (hwaits ▸ hw) hafter⟩

theorem Matches.idle {d : Option Doing} {q : List Command} {x y : Peer} (h : Matches d q x y)
    (hidle : ∀ d', d = some d' → ∃ u, d'.rest = .ret u) : y = x ∧ q = [] := by
  cases h with
  | none => exact ⟨rfl, rfl⟩
  | before _ h =>
    obtain ⟨u, hu⟩ := hidle _ rfl
    dsimp only at hu
    subst hu
    exact absurd h Prog.not_before_ret
  | after _ h =>
    obtain ⟨u, hu⟩ := hidle _ rfl
    dsimp only at hu
    subst hu
    exact ⟨h.of_ret, rfl⟩

theorem Matches.length {d : Option Doing} {q : List Command} {x y : Peer} (h : Matches d q x y) :
    q.length ≤ 1 := by
  cases h with
  | none | after _ _ => exact Nat.zero_le 1
  | before _ _ => exact Nat.le_refl 1

namespace Peer

theorem take_cases {x y : Peer} {b : UInt8} {r : Decoded} (h : Others (.take b r) x y) :
    ∃ rest, x.toServer = b :: rest ∧ (x.encdec.decodeNextByte b).1 = r ∧
      y = { x with toServer := rest, encdec := (x.encdec.decodeNextByte b).2 } := by
  cases h with
  | take hb => exact ⟨_, hb, rfl, rfl⟩

theorem completed_take {x : Peer} {b : UInt8} {rest : Bytes} (hb : x.toServer = b :: rest) :
    x.completed = match (x.encdec.decodeNextByte b).1 with
      | .frame f => some f
      | _ => none := by
  cases hr : (x.encdec.decodeNextByte b).1 <;> simp [completed, hb, hr]

theorem receive_cases {x y : Peer} {message : Bytes} (h : Others (.receive message) x y) :
    ∃ rest p, x.protocol.stopCommunication = false ∧
      getFrameAscii [] 0 x.toClient = some (message, rest) ∧ x.protocol.parseFrame message = some p ∧
      y = { x with protocol := p, toClient := rest } := by
  cases h with
  | receive hstop hm hp => exact ⟨_, _, hstop, hm, hp, rfl⟩

theorem throw_cases {x y : Peer} {message : Bytes} (h : Others (.throw message) x y) :
    ∃ rest, x.protocol.stopCommunication = false ∧
      getFrameAscii [] 0 x.toClient = some (message, rest) ∧ x.protocol.parseFrame message = none := by
  cases h with
  | throw hstop hm hp => exact ⟨_, hstop, hm, hp⟩

theorem stop_cases {x y : Peer} (h : Others .stop x y) : x.protocol.stopCommunication = true := by
  cases h with
  | stop hstop => exact hstop

end Peer

namespace ClientThreads

/-! ## The clients next to those with commands at once -/

/-- In `t` every command happens at once. -/
structure Beside (s : ClientThreads) (owed : ConnectionId → List Command) (t : Link) : Prop where
  server : t.server = s.link.server
  peers : ∀ c, Option.Rel (Matches (s.doing c) (owed c)) (s.link.peers.lookup c) (t.peers.lookup c)
  fresh : ∀ c, s.link.server.connectionCounter < c → s.doing c = none ∧ owed c = []
  length : ∀ c, (owed c).length ≤ 1
  idle : ∀ c, s.idle c = true → owed c = []

variable {s : ClientThreads} {t : Link} {c : ConnectionId} {x y : Peer}
  {owed : ConnectionId → List Command}

theorem Beside.peer (h : Beside s owed t) (hx : s.link.peers.lookup c = some x) :
    ∃ y, t.peers.lookup c = some y ∧ Matches (s.doing c) (owed c) x y := by
  have hpeer := h.peers c
  rw [hx] at hpeer
  generalize t.peers.lookup c = o at hpeer ⊢
  cases hpeer with
  | some hm => exact ⟨_, rfl, hm⟩

theorem rel_insert {doing : ConnectionId → Option Doing} {ps qs : Table ConnectionId Peer}
    (h : ∀ c, Option.Rel (Matches (doing c) (owed c)) (ps.lookup c) (qs.lookup c))
    (hm : Matches (doing c) (owed c) x y) (d : ConnectionId) :
    Option.Rel (Matches (doing d) (owed d)) ((ps.insert c x).lookup d) ((qs.insert c y).lookup d) := by
  rw [Table.lookup_insert_if, Table.lookup_insert_if]
  split
  · next hd => exact hd ▸ .some hm
  · exact h d

theorem rel_erase {doing : ConnectionId → Option Doing} {ps qs : Table ConnectionId Peer}
    (h : ∀ c, Option.Rel (Matches (doing c) (owed c)) (ps.lookup c) (qs.lookup c)) (c d : ConnectionId) :
    Option.Rel (Matches (doing d) (owed d)) ((ps.erase c).lookup d) ((qs.erase c).lookup d) := by
  rw [Table.lookup_erase_if, Table.lookup_erase_if]
  split
  · exact .none
  · exact h d

theorem rel_handOver {doing : ConnectionId → Option Doing} {ps qs : Table ConnectionId Peer}
    (h : ∀ c, Option.Rel (Matches (doing c) (owed c)) (ps.lookup c) (qs.lookup c)) (out : List Sent)
    (d : ConnectionId) : Option.Rel (Matches (doing d) (owed d)) ((out.foldl Link.handOver ps).lookup d)
      ((out.foldl Link.handOver qs).lookup d) := by
  rw [Link.lookup_foldl_handOver, Link.lookup_foldl_handOver]
  have hd := h d
  generalize ps.lookup d = a at hd ⊢
  generalize qs.lookup d = b at hd ⊢
  cases hd with
  | none => exact .none
  | @some x y hm =>
    obtain ⟨y', hy', hm'⟩ := hm.others (.hand x _)
    cases hy'
    exact .some hm'

theorem Beside.of_link (h : Beside s owed t) {l t' : Link} (hserver : t'.server = l.server)
    (hcounter : s.link.server.connectionCounter ≤ l.server.connectionCounter)
    (hpeers : ∀ c, Option.Rel (Matches (s.doing c) (owed c)) (l.peers.lookup c)
      (t'.peers.lookup c)) : Beside { s with link := l } owed t' :=
  ⟨hserver, hpeers, fun c hc => h.fresh c (Nat.lt_of_le_of_lt hcounter hc), h.length, h.idle⟩

/-- Both make the step, and the same is read, handed out and handled. -/
structure Same (t : Link) (l : Link) (e : LinkEvent) : Prop where
  reads : ∀ c, Link.reads c (t, e) = Link.reads c (l, e)
  hands : ∀ c, Link.hands c (t, e) = Link.hands c (l, e)
  handles : ∀ c, Link.handles c (t, e) = Link.handles c (l, e)

theorem same_deliver {l : Link} (hserver : t.server = l.server)
    (h : (t.peers.lookup c).bind Peer.completed = (l.peers.lookup c).bind Peer.completed) :
    Same t l (.deliver c) where
  reads d := by
    unfold Link.reads
    dsimp only
    rw [h]
  hands d := by
    unfold Link.hands
    dsimp only
    rw [h, hserver]
  handles d := rfl

theorem same_receive {l : Link}
    (h : (t.peers.lookup c).bind Peer.incoming = (l.peers.lookup c).bind Peer.incoming) :
    Same t l (.receive c) where
  reads d := rfl
  hands d := rfl
  handles d := by
    unfold Link.handles
    dsimp only
    rw [h]

theorem Beside.deliver (h : Beside s owed t) {l : Link} (hs : s.link.next (.deliver c) = some l) :
    Same t s.link (.deliver c) ∧ ∃ t', t.next (.deliver c) = some t' ∧
      Beside { s with link := l } owed t' := by
  have hcounter := Link.counter_le hs
  obtain ⟨x, hx, hdeliver⟩ := Option.bind_eq_some_iff.mp hs
  obtain ⟨y, hy, hm⟩ := h.peer hx
  unfold Link.deliver at hdeliver
  split at hdeliver
  · cases hdeliver
  next b rest hb =>
  obtain ⟨y', hy', hm'⟩ := hm.others (.take hb)
  obtain ⟨rest', hb', hr, rfl⟩ := Peer.take_cases hy'
  have hsame : Same t s.link (.deliver c) := by
    refine same_deliver h.server ?_
    rw [hx, hy, Option.bind_some, Option.bind_some, Peer.completed_take hb, Peer.completed_take hb', hr]
  have hnext : t.next (.deliver c) = t.deliver c y := by
    show (t.peers.lookup c).bind (t.deliver c) = _
    rw [hy, Option.bind_some]
  refine ⟨hsame, ?_⟩
  rw [hnext]
  unfold Link.deliver
  rw [hb']
  dsimp only at hdeliver ⊢
  rw [hr]
  have hinsert := rel_insert h.peers hm'
  split at hdeliver
  · cases hdeliver
    exact ⟨_, rfl, h.of_link h.server hcounter hinsert⟩
  · next f _ =>
    cases hdeliver
    rw [h.server]
    exact ⟨_, rfl, h.of_link rfl hcounter fun d => rel_handOver hinsert _ d⟩
  · cases hdeliver
    exact ⟨_, rfl, h.of_link h.server hcounter fun d => rel_erase h.peers c d⟩

theorem Beside.receive (h : Beside s owed t) {l : Link} (hs : s.link.next (.receive c) = some l) :
    Same t s.link (.receive c) ∧ ∃ t', t.next (.receive c) = some t' ∧
      Beside { s with link := l } owed t' := by
  have hcounter := Link.counter_le hs
  obtain ⟨x, hx, hreceive⟩ := Option.bind_eq_some_iff.mp hs
  obtain ⟨y, hy, hm⟩ := h.peer hx
  have hnext : t.next (.receive c) = t.receive c y := by
    show (t.peers.lookup c).bind (t.receive c) = _
    rw [hy, Option.bind_some]
  have hsame : y.incoming = x.incoming → Same t s.link (.receive c) := by
    intro hincoming
    refine same_receive ?_
    rw [hx, hy, Option.bind_some, Option.bind_some, hincoming]
  rw [hnext]
  unfold Link.receive at hreceive ⊢
  unfold Peer.incoming at hsame
  split at hreceive
  · next hstop =>
    cases hreceive
    obtain ⟨y', hy', -⟩ := hm.others (.stop hstop)
    have hstop' := Peer.stop_cases hy'
    rw [if_pos hstop']
    exact ⟨hsame (by rw [if_pos hstop, if_pos hstop']), _, rfl,
      h.of_link h.server hcounter fun d => rel_erase h.peers c d⟩
  next hstop =>
  split at hreceive
  · cases hreceive
  next message rest hmessage =>
  have hgoes : x.protocol.stopCommunication = false := Bool.not_eq_true _ ▸ hstop
  split at hreceive
  · next hp =>
    cases hreceive
    obtain ⟨y', hy', -⟩ := hm.others (.throw hgoes hmessage hp)
    obtain ⟨rest', hgoes', hmessage', hp'⟩ := Peer.throw_cases hy'
    rw [if_neg (by simp [hgoes']), hmessage']
    dsimp only
    rw [hp']
    refine ⟨hsame ?_, _, rfl, h.of_link h.server hcounter fun d => rel_erase h.peers c d⟩
    rw [if_neg hstop, if_neg (by simp [hgoes']), hmessage, hmessage']
    rfl
  · next p hp =>
    cases hreceive
    obtain ⟨y', hy', hm'⟩ := hm.others (.receive hgoes hmessage hp)
    obtain ⟨rest', p', hgoes', hmessage', hp', rfl⟩ := Peer.receive_cases hy'
    rw [if_neg (by simp [hgoes']), hmessage']
    dsimp only
    rw [hp']
    refine ⟨hsame ?_, _, rfl, h.of_link h.server hcounter (rel_insert h.peers hm')⟩
    rw [if_neg hstop, if_neg (by simp [hgoes']), hmessage, hmessage']
    rfl

theorem Beside.link (h : Beside s owed t) {e : LinkEvent} {l : Link}
    (he : ∀ c command, e ≠ .command c command) (hs : s.link.next e = some l) :
    Same t s.link e ∧ ∃ t', t.next e = some t' ∧ Beside { s with link := l } owed t' := by
  -- A step that `main` does not make.
  have hcounter := Link.counter_le hs
  cases e with
  | command c command => exact absurd rfl (he c command)
  | deliver c => exact h.deliver hs
  | receive c => exact h.receive hs
  | login username password =>
    cases hs
    obtain ⟨hdoing, howed⟩ := h.fresh _ (Nat.lt_succ_self _)
    have hm : Matches (s.doing (s.link.server.connectionCounter + 1))
        (owed (s.link.server.connectionCounter + 1)) (.login username password)
          (.login username password) := by
      rw [hdoing, howed]
      exact .none _
    refine ⟨⟨fun _ => rfl, fun _ => rfl, fun _ => rfl⟩, ⟨t.server.accept, t.peers.insert
      (t.server.connectionCounter + 1) (.login username password)⟩, rfl, ?_⟩
    rw [h.server]
    exact h.of_link rfl hcounter (rel_insert h.peers hm)
  | lose c =>
    cases hs
    exact ⟨⟨fun _ => rfl, fun _ => rfl, fun _ => rfl⟩, _, rfl,
      h.of_link h.server hcounter fun d => rel_erase h.peers c d⟩
  | disconnect c =>
    cases hs
    refine ⟨⟨fun _ => rfl, fun _ => rfl, fun _ => rfl⟩, _, rfl, h.of_link ?_ hcounter h.peers⟩
    rw [h.server]

theorem idle_iff {s : ClientThreads} {c : ConnectionId} :
    s.idle c = true ↔ ∀ d, s.doing c = some d → ∃ u, d.rest = .ret u := by
  unfold idle
  split
  · next heq =>
    rw [heq]
    refine iff_of_false Bool.false_ne_true fun h => ?_
    obtain ⟨u, hu⟩ := h _ rfl
    cases hu
  · next hne =>
    refine iff_of_true rfl fun d hd => ?_
    obtain ⟨command, rest⟩ := d
    cases rest with
    | ret u => exact ⟨u, rfl⟩
    | call k rest => exact absurd hd (hne _ _ _)

theorem Beside.update (h : Beside s owed t) {l t' : Link} {d : Doing} {q : List Command}
    (hl : l.server = s.link.server) (ht : t'.server = t.server)
    (hother : ∀ c', c' ≠ c → l.peers.lookup c' = s.link.peers.lookup c' ∧
      t'.peers.lookup c' = t.peers.lookup c')
    (hx : l.peers.lookup c = some x) (hy : t'.peers.lookup c = some y)
    (hc : c ≤ s.link.server.connectionCounter) (hm : Matches (some d) q x y) :
    Beside ⟨l, Function.update s.doing c (some d)⟩ (Function.update owed c q) t' := by
  have hdoing : ∀ c', c' ≠ c → Function.update s.doing c (some d) c' = s.doing c' ∧
      Function.update owed c q c' = owed c' :=
    fun c' hne => ⟨Function.update_of_ne hne _ _, Function.update_of_ne hne _ _⟩
  constructor
  case server => rw [ht, h.server, hl]
  case peers =>
    intro c'
    by_cases hne : c' = c
    · subst hne
      rw [hx, hy]
      dsimp only
      rw [Function.update_self, Function.update_self]
      exact .some hm
    · rw [(hother c' hne).1, (hother c' hne).2]
      dsimp only
      rw [(hdoing c' hne).1, (hdoing c' hne).2]
      exact h.peers c'
  case fresh =>
    intro c' hc'
    dsimp only at hc' ⊢
    rw [hl] at hc'
    have hne : c' ≠ c := Nat.ne_of_gt (Nat.lt_of_le_of_lt hc hc')
    rw [(hdoing c' hne).1, (hdoing c' hne).2]
    exact h.fresh c' hc'
  case length =>
    intro c'
    by_cases hne : c' = c
    · subst hne
      rw [Function.update_self]
      exact hm.length
    · rw [(hdoing c' hne).2]
      exact h.length c'
  case idle =>
    intro c' hidle
    rw [idle_iff] at hidle
    dsimp only at hidle
    by_cases hne : c' = c
    · subst hne
      rw [Function.update_self] at hidle ⊢
      exact (hm.idle hidle).2
    · rw [(hdoing c' hne).1] at hidle
      rw [(hdoing c' hne).2]
      exact h.idle c' (idle_iff.mpr hidle)

theorem known_of_lookup {trace : List (Link × LinkEvent)} (h : Beside s owed t)
    (hr : Link.runs.Run trace t) (hy : t.peers.lookup c = some y) :
    c ≤ s.link.server.connectionCounter := by
  by_contra hlt
  rw [Nat.not_le, ← h.server] at hlt
  rw [(Link.absent_run hr hlt).peer] at hy
  cases hy

theorem Beside.start {trace : List (Link × LinkEvent)} {command : Command} {s' : ClientThreads}
    (h : Beside s owed t) (hr : Link.runs.Run trace t) (hs : s.next (.start c command) = some s') :
    owed c = [] ∧ Beside s' (Function.update owed c [command]) t := by
  obtain ⟨x, hx, hwaits, hidle, rfl⟩ := next_start hs
  obtain ⟨y, hy, hm⟩ := h.peer hx
  obtain ⟨rfl, -⟩ := hm.idle (idle_iff.mp hidle)
  refine ⟨h.idle c hidle, h.update rfl rfl (fun _ _ => ⟨rfl, rfl⟩) hx hy (known_of_lookup h hr hy) ?_⟩
  exact .before hwaits (Prog.before_start (Peer.opens_branch _ command y))

theorem Beside.call {trace : List (Link × LinkEvent)} {s' : ClientThreads} (h : Beside s owed t)
    (hr : Link.runs.Run trace t) (hs : s.next (.call c) = some s') :
    Beside s' owed t ∨ ∃ command t', t.next (.command c command) = some t' ∧ owed c = [command] ∧
      Beside s' (Function.update owed c []) t' := by
  -- A call is nothing yet, or the whole command, or nothing any more.
  obtain ⟨x, command, k, rest, hx, hdoing, rfl⟩ := next_call hs
  obtain ⟨y, hy, hm⟩ := h.peer hx
  have hc := known_of_lookup h hr hy
  have hown : ∀ c', c' ≠ c → (s.link.peers.insert c (Peer.answer k x).2).lookup c' =
      s.link.peers.lookup c' := fun c' hne => AList.lookup_insert_ne hne
  have hlookup : (s.link.peers.insert c (Peer.answer k x).2).lookup c = some (Peer.answer k x).2 :=
    AList.lookup_insert _
  have hkeep : Function.update owed c (owed c) = owed := Function.update_eq_self c owed
  rw [hdoing] at hm
  generalize howed : owed c = q at hm hkeep
  cases hm with
  | after hlogout hafter =>
    rw [← hkeep]
    exact .inl (h.update rfl rfl (fun c' hne => ⟨hown c' hne, rfl⟩) hlookup hy hc
      (.after hlogout hafter.call))
  | before hwaits hbefore =>
    rcases hbefore.call with hbefore | hafter
    · rw [← hkeep]
      exact .inl (h.update rfl rfl (fun c' hne => ⟨hown c' hne, rfl⟩) hlookup hy hc
        (.before hwaits hbefore))
    · rw [Peer.run_branch hwaits] at hafter
      have hlogout : (y.command command).waits = true → command = .logout := by
        cases command with
        | logout => exact fun _ => rfl
        | join _ | exit _ | report _ _ => exact nofun
      refine .inr ⟨command, { t with peers := t.peers.insert c (y.command command) }, ?_, rfl, ?_⟩
      · show (t.peers.lookup c).bind _ = _
        rw [hy, Option.bind_some, if_neg (by simp [hwaits])]
      · exact h.update rfl rfl (fun c' hne => ⟨hown c' hne, AList.lookup_insert_ne hne⟩) hlookup
          (AList.lookup_insert _) hc (.after hlogout hafter)

/-! ## Runs -/

/-- A run with every command at once: what is not a command is as in the run, and the commands of a
client come as they were started. -/
structure Follows (trace : List (ClientThreads × ClientThreadsEvent)) (owed : ConnectionId → List Command)
    (trace' : List (Link × LinkEvent)) : Prop where
  others : trace'.filterMap Link.others = trace.filterMap others
  reads : ∀ c, trace'.filterMap (Link.reads c) = trace.filterMap (reads c)
  hands : ∀ c, trace'.flatMap (Link.hands c) = trace.flatMap (hands c)
  handles : ∀ c, trace'.filterMap (Link.handles c) = trace.filterMap (handles c)
  commands : ∀ c, trace.filterMap (started c) = trace'.filterMap (Link.commands c) ++ owed c

variable {trace : List (ClientThreads × ClientThreadsEvent)} {trace' : List (Link × LinkEvent)}

theorem Follows.link (h : Follows trace owed trace') {e : LinkEvent}
    (he : ∀ c command, e ≠ .command c command) (hsame : Same t s.link e) :
    Follows (trace ++ [(s, .link e)]) owed (trace' ++ [(t, e)]) where
  others := by
    have hother : Link.others (t, e) = some e := by
      cases e with
      | command c command => exact absurd rfl (he c command)
      | login _ _ | deliver _ | receive _ | lose _ | disconnect _ => rfl
    rw [filterMap_snoc, filterMap_snoc, h.others, hother]
    rfl
  reads c := by
    rw [filterMap_snoc, filterMap_snoc, h.reads, hsame.reads]
    rfl
  hands c := by
    rw [List.flatMap_append, List.flatMap_append, h.hands, List.flatMap_singleton,
      List.flatMap_singleton, hsame.hands]
    rfl
  handles c := by
    rw [filterMap_snoc, filterMap_snoc, h.handles, hsame.handles]
    rfl
  commands c := by
    have hcommand : Link.commands c (t, e) = none := by
      cases e with
      | command d command => exact absurd rfl (he d command)
      | login _ _ | deliver _ | receive _ | lose _ | disconnect _ => rfl
    rw [filterMap_snoc, filterMap_snoc, hcommand, Option.toList_none, List.append_nil, ← h.commands]
    exact List.append_nil _

theorem Follows.start (h : Follows trace owed trace') (command : Command) (howed : owed c = []) :
    Follows (trace ++ [(s, .start c command)]) (Function.update owed c [command]) trace' where
  others := by
    rw [filterMap_snoc, h.others]
    exact (List.append_nil _).symm
  reads d := by
    rw [filterMap_snoc, h.reads]
    exact (List.append_nil _).symm
  hands d := by
    rw [List.flatMap_append, h.hands]
    exact (List.append_nil _).symm
  handles d := by
    rw [filterMap_snoc, h.handles]
    exact (List.append_nil _).symm
  commands d := by
    rw [filterMap_snoc, h.commands]
    by_cases hd : d = c
    · subst hd
      simp [started, howed]
    · simp [started, hd]

theorem Follows.call (h : Follows trace owed trace') :
    Follows (trace ++ [(s, .call c)]) owed trace' where
  others := by
    rw [filterMap_snoc, h.others]
    exact (List.append_nil _).symm
  reads d := by
    rw [filterMap_snoc, h.reads]
    exact (List.append_nil _).symm
  hands d := by
    rw [List.flatMap_append, h.hands]
    exact (List.append_nil _).symm
  handles d := by
    rw [filterMap_snoc, h.handles]
    exact (List.append_nil _).symm
  commands d := by
    rw [filterMap_snoc, ← h.commands]
    exact List.append_nil _

theorem Follows.command (h : Follows trace owed trace') {command : Command} (howed : owed c = [command]) :
    Follows trace (Function.update owed c []) (trace' ++ [(t, .command c command)]) where
  others := by
    rw [filterMap_snoc, h.others]
    exact List.append_nil _
  reads d := by
    rw [filterMap_snoc, h.reads]
    exact List.append_nil _
  hands d := by
    rw [List.flatMap_append, h.hands]
    exact List.append_nil _
  handles d := by
    rw [filterMap_snoc, h.handles]
    exact List.append_nil _
  commands d := by
    rw [filterMap_snoc, h.commands]
    by_cases hd : d = c
    · subst hd
      simp [Link.commands, howed]
    · simp [Link.commands, hd]

/-- The run with commands at once that goes next to a run. -/
def Next (trace : List (ClientThreads × ClientThreadsEvent)) (s : ClientThreads)
    (trace' : List (Link × LinkEvent)) (t : Link) : Prop :=
  ∃ owed, Link.runs.Run trace' t ∧ Beside s owed t ∧ Follows trace owed trace'

theorem next_initial : Next [] runs.init [] Link.runs.init := by
  refine ⟨fun _ => [], .nil, ⟨rfl, fun c => ?_, fun _ _ => ⟨rfl, rfl⟩, fun _ => Nat.zero_le 1,
    fun _ _ => rfl⟩, ⟨rfl, fun _ => rfl, fun _ => rfl, fun _ => rfl, fun _ => rfl⟩⟩
  exact .none

theorem Next.step {s' : ClientThreads} {e : ClientThreadsEvent} (h : Next trace s trace' t)
    (hs : s.next e = some s') : ∃ new t', Next (trace ++ [(s, e)]) s' (trace' ++ new) t' := by
  obtain ⟨owed, hr, hbeside, hfollows⟩ := h
  cases e with
  | start c command =>
    obtain ⟨howed, hbeside'⟩ := hbeside.start hr hs
    refine ⟨[], t, ?_⟩
    rw [List.append_nil]
    exact ⟨_, hr, hbeside', hfollows.start command howed⟩
  | call c =>
    rcases hbeside.call hr hs with hbeside' | ⟨command, t', ht', howed, hbeside'⟩
    · refine ⟨[], t, ?_⟩
      rw [List.append_nil]
      exact ⟨owed, hr, hbeside', hfollows.call⟩
    · have hstep : Link.runs.step t (.command c command) = some t' := ht'
      exact ⟨[_], t', _, hr.snoc hstep, hbeside', hfollows.call.command howed⟩
  | link e =>
    obtain ⟨he, l, hl, rfl⟩ := next_link hs
    obtain ⟨hsame, t', ht', hbeside'⟩ := hbeside.link he hl
    exact ⟨[_], t', owed, hr.snoc ht', hbeside', hfollows.link he hsame⟩

theorem next_run (h : runs.Run trace s) : ∃ trace' t, Next trace s trace' t := by
  obtain ⟨trace', t, -, -, -, hnext, -⟩ :=
    h.alongside next_initial fun _ _ _ _ _ _ hnext hs => hnext.step hs
  exact ⟨trace', t, hnext⟩

/-- In the run `trace'` to `t` every command happens at once. In it the same is done, read, handed out
and handled as in the run `trace` to `s`, a client whose `main` is at its prompt is the same, and the
commands that were started have happened, but for the one that a `main` is in. -/
structure AtOnce (trace : List (ClientThreads × ClientThreadsEvent)) (s : ClientThreads)
    (trace' : List (Link × LinkEvent)) (t : Link) : Prop where
  run : Link.runs.Run trace' t
  server : t.server = s.link.server
  others : trace'.filterMap Link.others = trace.filterMap others
  reads : ∀ c, trace'.filterMap (Link.reads c) = trace.filterMap (reads c)
  hands : ∀ c, trace'.flatMap (Link.hands c) = trace.flatMap (hands c)
  handles : ∀ c, trace'.filterMap (Link.handles c) = trace.filterMap (handles c)
  prompt : ∀ c, s.idle c = true → t.peers.lookup c = s.link.peers.lookup c
  commands : ∀ c, ∃ owed, trace.filterMap (started c) = trace'.filterMap (Link.commands c) ++ owed ∧
    owed.length ≤ 1 ∧ (s.idle c = true → owed = [])

theorem Next.atOnce (h : Next trace s trace' t) : AtOnce trace s trace' t := by
  obtain ⟨owed, hr, hbeside, hfollows⟩ := h
  refine ⟨hr, hbeside.server, hfollows.others, hfollows.reads, hfollows.hands, hfollows.handles,
    fun c hidle => ?_, fun c => ⟨owed c, hfollows.commands c, hbeside.length c, hbeside.idle c⟩⟩
  have hpeer := hbeside.peers c
  generalize s.link.peers.lookup c = a at hpeer ⊢
  generalize t.peers.lookup c = b at hpeer ⊢
  cases hpeer with
  | none => rfl
  | some hm => rw [(hm.idle (idle_iff.mp hidle)).1]

/-- However the calls of `main` are mixed with what the communication threads, the server and the
channels do, as long as there is no data race, there is one run in which every command happens at
once: for every part of the run, `cut` gives the part of that one that goes with it. So a command
happens after its start and before its end. -/
theorem commands_atomic (h : runs.Run trace s) : ∃ trace' t, ∃ cut : Nat → Nat, Monotone cut ∧
    AtOnce trace s trace' t ∧ ∀ pre e post, trace = pre ++ e :: post →
      ∃ t₁, AtOnce pre e.1 (trace'.take (cut pre.length)) t₁ := by
  obtain ⟨trace', t, cut, hmono, -, hnext, hparts⟩ :=
    h.alongside next_initial fun _ _ _ _ _ _ hnext hs => hnext.step hs
  refine ⟨trace', t, cut, hmono, hnext.atOnce, fun pre e post heq => ?_⟩
  obtain ⟨t₁, ht₁⟩ := hparts pre e post heq
  exact ⟨t₁, ht₁.atOnce⟩

/-- A client logs out, and the server reads a byte of the frame before the rest is written. -/
def logoutRun : List ClientThreadsEvent :=
  .link (.login (word "u" Link.nl_not_mem_u) (word "p" Link.nl_not_mem_p)) ::
    List.replicate 72 (.link (.deliver 1)) ++ [.link (.receive 1), .start 1 .logout] ++
      List.replicate 7 (.call 1) ++ [.link (.deliver 1)] ++ List.replicate 21 (.call 1)

theorem commands_atomic_logout : ∃ trace s trace' t, ∃ cut : Nat → Nat, runs.Run trace s ∧
    s.idle 1 = true ∧ AtOnce trace s trace' t ∧ (trace'.filterMap (Link.commands 1)).length = 1 ∧
    (trace'.take (cut 74)).filterMap (Link.commands 1) = [] := by
  obtain ⟨trace, s, hr, -, hs⟩ := System.exists_run_labels (M := runs) logoutRun (fun trace s =>
    decide ((trace.filterMap (started 1)).length = 1) && s.idle 1 && decide (74 < trace.length) &&
      ((trace.take 74).filterMap (started 1)).isEmpty) (by decide +kernel)
  simp only [Bool.and_eq_true, decide_eq_true_eq, List.isEmpty_iff] at hs
  obtain ⟨⟨⟨hone, hidle⟩, hlength⟩, hnone⟩ := hs
  obtain ⟨trace', t, cut, -, hnow, hparts⟩ := commands_atomic hr
  obtain ⟨owed, hcommands, -, howed⟩ := hnow.commands 1
  rw [howed hidle, List.append_nil] at hcommands
  have hsplit : trace = trace.take 74 ++ trace.get ⟨74, hlength⟩ :: trace.drop 75 := by
    rw [List.get_eq_getElem, ← List.drop_eq_getElem_cons hlength, List.take_append_drop]
  obtain ⟨t₁, hbefore⟩ := hparts _ _ _ hsplit
  obtain ⟨owed', hcommands', -⟩ := hbefore.commands 1
  rw [hnone, List.length_take_of_le hlength.le] at hcommands'
  exact ⟨trace, s, trace', t, cut, hr, hidle, hnow, hcommands ▸ hone,
    (List.append_eq_nil_iff.mp hcommands'.symm).1⟩

end ClientThreads

end Stomp
