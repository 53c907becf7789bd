import Stomp.Base.Atomic
import Stomp.Client.Calls
import Stomp.History

/-!
# Commands, call by call

`main` makes one call on the protocol object at a time, or writes one byte. In between the
communication thread handles frames, and the server reads. The calls before a receipt is stored could
be made later just as well, and those after it sooner.

Nothing guards `receiptMap`, which both threads use. Here a call is over before the other thread takes a
step. What the client does when both come to the map at once is not described (`ClientThreads.races`).
-/

open Stomp.Split Stomp.Utf8 Stomp.Client

namespace Stomp

open StompMessageEncoderDecoder

/-! ## Calls -/

namespace Peer

def withProtocol (x : Peer) (p : StompProtocol) : Peer := { x with protocol := p }

def answer : Prog.Answer Client.Call Client.Reply Peer
  | .isConnected, x => (x.protocol.connected, x)
  | .hasSubscription channel, x => (x.protocol.hasSubscription channel, x)
  | .getNextId, x =>
    let r := x.protocol.getNextId
    (r.1, x.withProtocol r.2)
  | .getNextReceiptId, x =>
    let r := x.protocol.getNextReceiptId
    (r.1, x.withProtocol r.2)
  | .getSubscriptionId channel, x => (x.protocol.getSubscriptionId channel, x)
  | .removeSubscription channel, x => ((), x.withProtocol (x.protocol.removeSubscription channel))
  | .storeReceipt receiptId requestType, x =>
    ((), x.withProtocol (x.protocol.storeReceipt receiptId requestType))
  | .storeSubscriptionId channel subscriptionId, x =>
    ((), x.withProtocol (x.protocol.storeSubscriptionId channel subscriptionId))
  | .write b, x => ((), { x with toServer := x.toServer ++ [b] })
  | .join, x => ((), { x with waits := true })

theorem run_sendBytes (bytes : Bytes) (x : Peer) :
    (Branch.sendBytes bytes).run answer x = ((), { x with toServer := x.toServer ++ bytes }) := by
  induction bytes generalizing x with
  | nil => simp [Branch.sendBytes]
  | cons b bytes ih =>
    unfold Branch.sendBytes
    rw [Prog.op_bind, Prog.run_call, ih]
    simp [answer]

theorem run_sendFrame {x : Peer} (h : x.protocol.connected = true) (m : Framing.ClientFrame) :
    (Branch.sendFrame m).run answer x = ((), { x with toServer := x.toServer ++ m.wire }) := by
  unfold Branch.sendFrame Branch.send
  rw [Prog.op_bind, Prog.run_call]
  simp [answer, h, Branch.sendFrameAscii, run_sendBytes, Framing.ClientFrame.wire]

theorem run_sendEvents {x : Peer} (h : x.protocol.connected = true) (username channel_name : Bytes)
    (events : List Event) : (Branch.sendEvents username channel_name events).run answer x =
      ((), { x with toServer := x.toServer ++
        (events.map (reportFrame username channel_name)).flatMap Framing.ClientFrame.wire }) := by
  induction events generalizing x with
  | nil => simp [Branch.sendEvents]
  | cons event events ih =>
    unfold Branch.sendEvents
    rw [Prog.run_bind, run_sendFrame h]
    refine (ih ?_).trans ?_
    · exact h
    · simp

theorem run_branch {x : Peer} (hw : x.waits = false) (command : Command) :
    ((command.branch x.username).run answer x).2 = x.command command := by
  obtain ⟨p, username, waits, toServer, encdec, toClient⟩ := x
  obtain rfl : waits = false := hw
  have hsend := fun p' h m => run_sendFrame (x := ⟨p', username, false, toServer, encdec, toClient⟩) h m
  unfold Peer.command Command.run Command.waits Command.branch
  cases command with
  | join channel =>
    unfold Branch.join StompProtocol.join
    cases hcon : p.connected with
    | false => simp [answer, hcon]
    | true =>
      cases hs : p.hasSubscription channel with
      | true => simp [answer, hcon, hs]
      | false =>
        simp [answer, hcon, hs, withProtocol, hsend, StompProtocol.getNextId,
          StompProtocol.getNextReceiptId, StompProtocol.storeReceipt, StompProtocol.storeSubscriptionId]
  | exit channel =>
    unfold Branch.exit StompProtocol.exit
    cases hcon : p.connected with
    | false => simp [answer, hcon]
    | true =>
      by_cases hid : (p.subscriptionIds.lookup channel).getD (-1) = -1
      · simp [answer, hcon, withProtocol, StompProtocol.getNextReceiptId,
          StompProtocol.getSubscriptionId, hid]
      · simp [answer, hcon, withProtocol, hsend, StompProtocol.getNextReceiptId,
          StompProtocol.getSubscriptionId, hid, StompProtocol.removeSubscription,
          StompProtocol.storeReceipt]
  | report channel_name events =>
    unfold Branch.report StompProtocol.report
    cases hcon : p.connected with
    | false => simp [answer, hcon]
    | true =>
      have hevents := run_sendEvents (x := ⟨p, username, false, toServer, encdec, toClient⟩) hcon
      simp [answer, hcon, hevents]
  | logout =>
    unfold Branch.logout StompProtocol.logout
    cases hcon : p.connected with
    | false => simp [answer, hcon]
    | true =>
      simp [answer, hcon, withProtocol, hsend, StompProtocol.getNextReceiptId, StompProtocol.storeReceipt]
      rfl

end Peer

/-! ## What happens in between -/

/-- What the communication thread, the server and the others do to a client. -/
inductive PeerEvent where
  | take (b : UInt8) (result : Decoded)
  | hand (bytes : Bytes)
  | receive (message : Bytes)
  /-- The thread finds that it should stop. -/
  | stop
  /-- An exception leaves `parseFrame`. -/
  | throw (message : Bytes)

namespace Peer

inductive Others : PeerEvent → Peer → Peer → Prop
  | take {x : Peer} {b : UInt8} {rest : Bytes} (hb : x.toServer = b :: rest) :
    Others (.take b (x.encdec.decodeNextByte b).1) x
      { x with toServer := rest, encdec := (x.encdec.decodeNextByte b).2 }
  | hand (x : Peer) (bytes : Bytes) :
    Others (.hand bytes) x { x with toClient := x.toClient ++ bytes }
  | receive {x : Peer} {message rest : Bytes} {p : StompProtocol}
    (hstop : x.protocol.stopCommunication = false)
    (hm : getFrameAscii [] 0 x.toClient = some (message, rest))
    (hp : x.protocol.parseFrame message = some p) :
    Others (.receive message) x { x with protocol := p, toClient := rest }
  | stop {x : Peer} (hstop : x.protocol.stopCommunication = true) : Others .stop x x
  | throw {x : Peer} {message rest : Bytes} (hstop : x.protocol.stopCommunication = false)
    (hm : getFrameAscii [] 0 x.toClient = some (message, rest))
    (hp : x.protocol.parseFrame message = none) : Others (.throw message) x x

/-- No frame logs the client out of `connected`. -/
def Connected (x : Peer) : Prop := x.protocol.connected = true

variable {e : PeerEvent} {x y : Peer}

theorem Others.connected (h : Others e x y) (hx : x.Connected) : y.Connected := by
  cases h with
  | take _ | hand _ | stop _ | throw _ _ _ => exact hx
  | receive _ _ hp =>
    cases StompProtocol.parseFrame_handles hp with
    | connected _ => rfl
    | message _ _ _ | error _ | unknown _ _ | other _ => exact hx
    | receipt _ _ _ =>
      unfold Connected
      dsimp only
      split <;> exact hx

theorem Others.fixed (h : Others e x y) : y.username = x.username ∧ y.waits = x.waits := by
  cases h <;> exact ⟨rfl, rfl⟩

/-! ## Calls on what only `main` uses -/

def withOwn (x : Peer) (o : Own) : Peer := x.withProtocol (x.protocol.withOwn o)

theorem Others.own (h : Others e x y) : y.protocol.own = x.protocol.own := by
  cases h with
  | take _ | hand _ | stop _ | throw _ _ _ => rfl
  | receive _ _ hp => exact StompProtocol.parseFrame_own hp

theorem Others.withOwn (h : Others e x y) (o : Own) : Others e (x.withOwn o) (y.withOwn o) := by
  cases h with
  | take hb => exact .take (x := x.withOwn o) hb
  | hand _ bytes => exact .hand _ bytes
  | stop hstop => exact .stop hstop
  | @receive _ message rest p hstop hm hp =>
    have hp' : (x.protocol.withOwn o).parseFrame message = some (p.withOwn o) := by
      rw [StompProtocol.parseFrame_withOwn, hp]
      rfl
    exact .receive hstop hm hp'
  | @throw _ message rest hstop hm hp =>
    have hp' : (x.protocol.withOwn o).parseFrame message = none := by
      rw [StompProtocol.parseFrame_withOwn, hp]
      rfl
    exact .throw hstop hm hp'

/-- The call reads and writes only what the communication thread does not touch. -/
def Private (k : Client.Call) : Prop :=
  ∃ (reply : Own → Client.Reply k) (upd : Own → Own),
    ∀ x, answer k x = (reply x.protocol.own, x.withOwn (upd x.protocol.own))

theorem Private.later {k : Client.Call} (h : Private k) (r : Client.Reply k) :
    Prog.Later answer Others k r := by
  obtain ⟨reply, upd, h⟩ := h
  intro x e y hr he
  rw [h] at hr he
  refine ⟨y.withOwn x.protocol.own, he.withOwn x.protocol.own, ?_⟩
  have hown : y.protocol.own = upd x.protocol.own := he.own
  rw [h]
  show (reply x.protocol.own, y.withOwn (upd x.protocol.own)) = _
  rw [← hr, ← hown]
  rfl

theorem Private.sooner {k : Client.Call} (h : Private k) : Prog.Sooner answer Others Connected k := by
  obtain ⟨reply, upd, h⟩ := h
  constructor
  · intro x hx
    rw [h]
    exact hx
  · intro x e y _ he
    rw [h, h, he.own]
    exact ⟨rfl, he.withOwn _⟩

theorem private_hasSubscription (channel : Bytes) : Private (.hasSubscription channel) :=
  ⟨fun o => (o.subscriptionIds.lookup channel).isSome, id, fun _ => rfl⟩

theorem private_getNextId : Private .getNextId :=
  ⟨fun o => o.idCounter, fun o => { o with idCounter := Decimal.wrap (o.idCounter + 1) }, fun _ => rfl⟩

theorem private_getNextReceiptId : Private .getNextReceiptId :=
  ⟨fun o => o.receiptCounter,
    fun o => { o with receiptCounter := Decimal.wrap (o.receiptCounter + 1) }, fun _ => rfl⟩

theorem private_getSubscriptionId (channel : Bytes) : Private (.getSubscriptionId channel) :=
  ⟨fun o => (o.subscriptionIds.lookup channel).getD (-1), id, fun _ => rfl⟩

theorem private_removeSubscription (channel : Bytes) : Private (.removeSubscription channel) :=
  ⟨fun _ => (), fun o => { o with subscriptionIds := o.subscriptionIds.erase channel }, fun _ => rfl⟩

theorem private_storeSubscriptionId (channel : Bytes) (subscriptionId : Int) :
    Private (.storeSubscriptionId channel subscriptionId) :=
  ⟨fun _ => (), fun o =>
    { o with subscriptionIds := o.subscriptionIds.insert channel subscriptionId }, fun _ => rfl⟩

/-! ## The other calls -/

theorem later_isConnected : Prog.Later answer Others .isConnected true := by
  intro x e y hr he
  exact ⟨y, he, Prod.ext (he.connected hr) rfl⟩

theorem sooner_isConnected : Prog.Sooner answer Others Connected .isConnected where
  keeps _ hx := hx
  moves _ _ _ hx he := ⟨(he.connected hx).trans hx.symm, he⟩

theorem sooner_write (b : UInt8) : Prog.Sooner answer Others Connected (.write b) where
  keeps _ hx := hx
  moves x e y _ he := by
  -- The server does not see how many bytes follow.
    refine ⟨rfl, ?_⟩
    cases he with
    | @take _ b' rest hb =>
      have hb' : x.toServer ++ [b] = b' :: (rest ++ [b]) := by rw [hb, List.cons_append]
      exact .take (x := (answer (.write b) x).2) hb'
    | hand _ bytes => exact .hand _ bytes
    | receive hstop hm hp => exact .receive (x := (answer (.write b) x).2) hstop hm hp
    | stop hstop => exact .stop hstop
    | throw hstop hm hp => exact .throw (x := (answer (.write b) x).2) hstop hm hp

theorem sooner_join : Prog.Sooner answer Others Connected .join where
  keeps _ hx := hx
  moves x e y _ he := by
    refine ⟨rfl, ?_⟩
    cases he with
    | take hb => exact .take (x := (answer .join x).2) hb
    | hand _ bytes => exact .hand _ bytes
    | receive hstop hm hp => exact .receive (x := (answer .join x).2) hstop hm hp
    | stop hstop => exact .stop hstop
    | throw hstop hm hp => exact .throw (x := (answer .join x).2) hstop hm hp

/-! ## The branches -/

theorem calls_sendBytes (bytes : Bytes) :
    (Branch.sendBytes bytes).Calls (Prog.Sooner answer Others Connected) := by
  induction bytes with
  | nil => trivial
  | cons b bytes ih => exact ⟨sooner_write b, fun _ => ih⟩

theorem calls_sendFrame (m : Framing.ClientFrame) :
    (Branch.sendFrame m).Calls (Prog.Sooner answer Others Connected) := by
  refine ⟨sooner_isConnected, fun connected => ?_⟩
  refine Prog.calls_ite (fun _ => trivial) fun _ => ?_
  exact Prog.calls_bind (calls_sendBytes _) fun _ => calls_sendBytes _

theorem calls_sendEvents (username channel_name : Bytes) (events : List Event) :
    (Branch.sendEvents username channel_name events).Calls (Prog.Sooner answer Others Connected) := by
  induction events with
  | nil => trivial
  | cons event events ih => exact Prog.calls_bind (calls_sendFrame _) fun _ => ih

theorem opens_isConnected {next : Bool → Branch} {x : Peer} (hfalse : next false = pure ())
    (htrue : ∀ y, y.Connected → Prog.Opens answer Others Connected (next true) y ∨
      Prog.Closes answer Others Connected (next true) y) :
    Prog.Opens answer Others Connected (.call .isConnected next) x := by
  -- A branch that finds the client logged out ends.
  intro y _
  show Prog.Later answer Others .isConnected y.protocol.connected ∧
    Prog.Opens answer Others Connected (next y.protocol.connected) y ∨
      Prog.Closes answer Others Connected (next y.protocol.connected) y
  cases hcon : y.protocol.connected with
  | false =>
    rw [hfalse]
    exact .inr (Prog.closes_ret _ _)
  | true => exact (htrue y hcon).imp (fun h => ⟨later_isConnected, h⟩) id

theorem opens_private {k : Client.Call} {next : Client.Reply k → Branch} {x : Peer} (hk : Private k)
    (hx : x.Connected) (h : ∀ r y, y.Connected → Prog.Opens answer Others Connected (next r) y ∨
      Prog.Closes answer Others Connected (next r) y) :
    Prog.Opens answer Others Connected (.call k next) x := by
  intro y hy
  exact (h _ _ (hk.sooner.keeps y (hy hx))).imp (fun h => ⟨hk.later _, h⟩) id

theorem opens_storeReceipt {receiptId : Int} {requestType : Bytes} {next : Unit → Branch} {x : Peer}
    (hx : x.Connected) (h : (next ()).Calls (Prog.Sooner answer Others Connected)) :
    Prog.Opens answer Others Connected (.call (.storeReceipt receiptId requestType) next) x := by
  intro y hy
  have hy' : (answer (.storeReceipt receiptId requestType) y).2.Connected := hy hx
  exact .inr (.inr ⟨hy', h⟩)

theorem opens_branch (username : Bytes) (command : Command) (x : Peer) :
    Prog.Opens answer Others Connected (command.branch username) x := by
  cases command with
  | join channel =>
    refine opens_isConnected rfl fun y hy => .inl ?_
    refine opens_private (private_hasSubscription channel) hy fun subscribed y hy => ?_
    cases subscribed with
    | true => exact .inr (Prog.closes_ret _ _)
    | false =>
      refine .inl (opens_private private_getNextId hy fun subscriptionId y hy => .inl ?_)
      refine opens_private private_getNextReceiptId hy fun receiptId y hy => .inl ?_
      refine opens_storeReceipt hy ⟨(private_storeSubscriptionId _ _).sooner, fun _ => ?_⟩
      exact calls_sendFrame _
  | exit channel =>
    refine opens_isConnected rfl fun y hy => .inl ?_
    refine opens_private private_getNextReceiptId hy fun receiptId y hy => .inl ?_
    refine opens_private (private_getSubscriptionId channel) hy fun subscriptionId y hy => ?_
    dsimp only [Prog.bind]
    split
    · exact .inr (Prog.closes_ret _ _)
    · refine .inl (opens_private (private_removeSubscription channel) hy fun _ y hy => .inl ?_)
      exact opens_storeReceipt hy (calls_sendFrame _)
  | report channel_name events =>
    refine opens_isConnected rfl fun y hy => .inr (.inr ⟨hy, ?_⟩)
    exact calls_sendEvents _ _ _
  | logout =>
    refine opens_isConnected rfl fun y hy => .inl ?_
    refine opens_private private_getNextReceiptId hy fun receiptId y hy => .inl ?_
    have hrest : (Branch.sendFrame (disconnectFrame receiptId) >>= fun _ => Call.joins).Calls
        (Prog.Sooner answer Others Connected) :=
      Prog.calls_bind (calls_sendFrame _) fun _ => ⟨sooner_join, fun _ => trivial⟩
    exact opens_storeReceipt hy hrest

end Peer

end Stomp
