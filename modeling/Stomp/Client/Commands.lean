import Stomp.Framing

/-!
# The commands of the client

The branches of `main` that change the protocol object or send frames. Each gives the protocol
object and the frames that it passes to `send`, which is the last thing that it does.
-/

open Stomp.Split Stomp.Utf8

namespace Stomp.Client

open Stomp.Framing

/-- A map from an initializer list. Its entries stand in the order of the list, which is that of
the keys. -/
def headerMap (l : List (Bytes × Bytes)) : Headers := Table.ofPairs l.reverse

/-- Text that a header can hold. -/
def HeaderText (t : Bytes) : Prop := Valid t ∧ nl ∉ t ∧ 0 ∉ t

/-- No NUL in the texts that a report of the event sends. -/
def Event.NoNul (event : Event) : Prop :=
  0 ∉ event.city ∧ 0 ∉ event.name ∧ 0 ∉ event.description ∧
    ∀ e ∈ event.general_information.entries, 0 ∉ e.1 ∧ 0 ∉ e.2

/-- A word of a line of input. -/
abbrev Word := {w : Bytes // nl ∉ w}

/-! ## Frames -/

def connectFrame (username password : Bytes) : ClientFrame :=
  ⟨ascii "CONNECT", headerMap [(ascii "accept-version", ascii "1.2"),
    (ascii "host", ascii "stomp.cs.bgu.ac.il"), (ascii "login", username),
    (ascii "passcode", password)], []⟩

def subscribeFrame (channel : Bytes) (subscriptionId receiptId : Int) : ClientFrame :=
  ⟨ascii "SUBSCRIBE", headerMap [(ascii "destination", channel),
    (ascii "id", to_string subscriptionId), (ascii "receipt", to_string receiptId)], []⟩

def unsubscribeFrame (subscriptionId receiptId : Int) : ClientFrame :=
  ⟨ascii "UNSUBSCRIBE", headerMap [(ascii "id", to_string subscriptionId),
    (ascii "receipt", to_string receiptId)], []⟩

def reportFrame (username channel_name : Bytes) (event : Event) : ClientFrame :=
  ⟨ascii "SEND", headerMap [(ascii "destination", channel_name)], reportBody username event⟩

def disconnectFrame (receiptId : Int) : ClientFrame :=
  ⟨ascii "DISCONNECT", headerMap [(ascii "receipt", to_string receiptId)], []⟩

/-! ## Commands -/

namespace StompProtocol

variable (p : StompProtocol)

def join (channel : Bytes) : StompProtocol × List ClientFrame :=
  if !p.connected then (p, [])
  else if p.hasSubscription channel then (p, [])
  else
    let (subscriptionId, p) := p.getNextId
    let (receiptId, p) := p.getNextReceiptId
    let p := p.storeReceipt receiptId (ascii "Joined channel " ++ channel)
    let p := p.storeSubscriptionId channel subscriptionId
    (p, [subscribeFrame channel subscriptionId receiptId])

def exit (channel : Bytes) : StompProtocol × List ClientFrame :=
  if !p.connected then (p, [])
  else
    let (receiptId, p) := p.getNextReceiptId
    let subscriptionId := p.getSubscriptionId channel
    if subscriptionId = -1 then (p, [])
    else
      let p := p.removeSubscription channel
      let p := p.storeReceipt receiptId (ascii "Exited channel " ++ channel)
      (p, [unsubscribeFrame subscriptionId receiptId])

/-- `events` and `channel_name` are what `parseEventsFile` reads. -/
def report (username channel_name : Bytes) (events : List Event) : StompProtocol × List ClientFrame :=
  if !p.connected then (p, [])
  else (p, events.map (reportFrame username channel_name))

def logout : StompProtocol × List ClientFrame :=
  if !p.connected then (p, [])
  else
    let (receiptId, p) := p.getNextReceiptId
    let p := p.storeReceipt receiptId (ascii "Logout")
    (p, [disconnectFrame receiptId])

end StompProtocol

inductive Command where
  | join (channel : Bytes)
  | exit (channel : Bytes)
  | report (channel_name : Bytes) (events : List Event)
  | logout

namespace Command

def run (p : StompProtocol) (username : Bytes) : Command → StompProtocol × List ClientFrame
  | .join channel => p.join channel
  | .exit channel => p.exit channel
  | .report channel_name events => p.report username channel_name events
  | .logout => p.logout

/-- `logout` waits for the communication thread. -/
def waits (p : StompProtocol) : Command → Bool
  | .logout => p.connected
  | _ => false

/-- A join that sends a SUBSCRIBE takes a subscription id. -/
def takesId (p : StompProtocol) : Command → Bool
  | .join channel => p.connected && !p.hasSubscription channel
  | _ => false

/-- The channels of a command have names that a header can hold. -/
def ChannelsOk : Command → Prop
  | .join channel => HeaderText channel
  | .exit channel => HeaderText channel
  | .report channel_name _ => HeaderText channel_name
  | .logout => True

/-- No NUL in the texts of reported events. -/
def NoNul : Command → Prop
  | .report _ events => ∀ event ∈ events, event.NoNul
  | _ => True

/-! ## What a command does -/

/-- A command changes the subscriptions only as it tells the server in its one frame. -/
inductive Effect (p : StompProtocol) (username : Bytes) :
    Command → StompProtocol × List ClientFrame → Prop
  | join {channel : Bytes} {p' : StompProtocol} (r : Int)
    (htakes : takesId p (.join channel) = true) (hnew : p.subscriptionIds.lookup channel = none)
    (hids : p'.subscriptionIds = p.subscriptionIds.insert channel p.idCounter)
    (hcounter : p'.idCounter = Decimal.wrap (p.idCounter + 1)) (hconnected : p'.connected = p.connected) :
    Effect p username (.join channel) (p', [subscribeFrame channel p.idCounter r])
  | exit {channel : Bytes} {p' : StompProtocol} (id r : Int)
    (hold : p.subscriptionIds.lookup channel = some id)
    (hids : p'.subscriptionIds = p.subscriptionIds.erase channel)
    (hcounter : p'.idCounter = p.idCounter) (hconnected : p'.connected = p.connected) :
    Effect p username (.exit channel) (p', [unsubscribeFrame id r])
  | report {channel_name : Bytes} {events : List Event} (hconnected : p.connected = true) :
    Effect p username (.report channel_name events)
      (p, events.map (reportFrame username channel_name))
  | logout {p' : StompProtocol} (r : Int) (hids : p'.subscriptionIds = p.subscriptionIds)
    (hcounter : p'.idCounter = p.idCounter) (hconnected : p'.connected = p.connected) :
    Effect p username .logout (p', [disconnectFrame r])
  | nothing {command : Command} {p' : StompProtocol} (hids : p'.subscriptionIds = p.subscriptionIds)
    (hcounter : p'.idCounter = p.idCounter) (hconnected : p'.connected = p.connected) :
    Effect p username command (p', [])

theorem run_effect (p : StompProtocol) (username : Bytes) (command : Command) :
    Effect p username command (command.run p username) := by
  cases command with
  | join channel =>
    simp only [run, StompProtocol.join]
    split
    · exact .nothing rfl rfl rfl
    next hcon =>
    split
    · exact .nothing rfl rfl rfl
    · next hfree =>
      have htakes : takesId p (.join channel) = true := by simpa [takesId, hfree] using hcon
      rw [StompProtocol.hasSubscription, Bool.not_eq_true, Option.isSome_eq_false_iff,
        Option.isNone_iff_eq_none] at hfree
      exact .join _ htakes hfree rfl rfl rfl
  | exit channel =>
    simp only [run, StompProtocol.exit]
    split
    · exact .nothing rfl rfl rfl
    split
    · exact .nothing rfl rfl rfl
    · next hid =>
      simp only [StompProtocol.getNextReceiptId, StompProtocol.getSubscriptionId] at hid ⊢
      cases hlookup : p.subscriptionIds.lookup channel with
      | none => simp [hlookup] at hid
      | some id => exact .exit id _ hlookup rfl rfl rfl
  | report channel_name events =>
    simp only [run, StompProtocol.report]
    split
    · exact .nothing rfl rfl rfl
    · next hcon => exact .report (by simpa using hcon)
  | logout =>
    simp only [run, StompProtocol.logout]
    split
    · exact .nothing rfl rfl rfl
    · exact .logout _ rfl rfl rfl

theorem run_disconnected {p : StompProtocol} (hp : p.connected = false) (username : Bytes)
    (command : Command) : command.run p username = (p, []) := by
  cases command <;>
    simp [run, StompProtocol.join, StompProtocol.exit, StompProtocol.report, StompProtocol.logout, hp]

theorem run_connected (p : StompProtocol) (username : Bytes) (command : Command) :
    (command.run p username).1.connected = p.connected := by
  have h := run_effect p username command
  revert h
  generalize command.run p username = r
  intro h
  cases h <;> first | rfl | assumption

theorem run_eventSummary (p : StompProtocol) (username : Bytes) (command : Command) :
    (command.run p username).1.eventSummary = p.eventSummary := by
  cases command with
  | join channel =>
    simp only [run, StompProtocol.join]
    split
    · rfl
    · split <;> rfl
  | exit channel =>
    simp only [run, StompProtocol.exit]
    split
    · rfl
    · split <;> rfl
  | report channel_name events =>
    simp only [run, StompProtocol.report]
    split <;> rfl
  | logout =>
    simp only [run, StompProtocol.logout]
    split <;> rfl

theorem parseFrame_keeps {p p' : StompProtocol} {message : Bytes}
    (h : p.parseFrame message = some p') :
    p'.subscriptionIds = p.subscriptionIds ∧ p'.idCounter = p.idCounter := by
  cases StompProtocol.parseFrame_handles h with
  | connected _ => exact ⟨rfl, rfl⟩
  | message _ _ _ => exact ⟨rfl, rfl⟩
  | error _ => exact ⟨rfl, rfl⟩
  | unknown _ _ => exact ⟨rfl, rfl⟩
  | receipt _ _ _ =>
    dsimp only
    split <;> exact ⟨rfl, rfl⟩
  | other _ => exact ⟨rfl, rfl⟩

end Command

/-! ## What the server reads of a frame -/

theorem lookup_headerMap (l : List (Bytes × Bytes)) (h : (l.map (·.1)).Nodup) (k v : Bytes) :
    (headerMap l).lookup k = some v ↔ (k, v) ∈ l := by
  have hrev : (l.reverse.map (·.1)).Nodup := by rwa [List.map_reverse, List.nodup_reverse]
  rw [headerMap, Table.lookup_ofPairs l.reverse hrev, List.mem_reverse]

theorem key_headerMap {l : List (Bytes × Bytes)} (hkeys : (l.map (·.1)).Nodup)
    (hl : ∀ e ∈ l, HeaderText e.1 ∧ colon ∉ e.1) {k v : Bytes}
    (h : (headerMap l).lookup k = some v) : Valid k ∧ colon ∉ k ∧ nl ∉ k ∧ 0 ∉ k := by
  obtain ⟨hk, hcolon⟩ := hl _ ((lookup_headerMap l hkeys k v).mp h)
  exact ⟨hk.1, hcolon, hk.2.1, hk.2.2⟩

theorem headerText_to_string (n : Int) : HeaderText (to_string n) := by
  refine ⟨⟨_, rfl⟩, ?_, ?_⟩
  · rw [to_string, nl_mem_encode]
    intro h
    rcases Decimal.mem_valueOf n _ h with h | h <;> revert h <;> decide
  · rw [to_string, zero_mem_encode]
    intro h
    rcases Decimal.mem_valueOf n _ h with h | h <;> revert h <;> decide

end Stomp.Client
