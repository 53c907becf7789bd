import Stomp.Frame
import Stomp.Base.Decimal
import Mathlib.Data.Finset.Basic

/-!
# The shared tables

Every method here is one step on the tables. A connection id stands for its handler: the
server counts the ids up and never gives one twice.
-/

namespace Stomp

abbrev ConnectionId := Nat

structure ConnectionsImpl where
  activeConnections : Finset ConnectionId
  topicSubscriptions : Table Text (Table ConnectionId Int)
  users : Table Text Text
  activeUsers : Table ConnectionId Text
  messageCounter : Int

namespace ConnectionsImpl

def initial : ConnectionsImpl := ⟨∅, ∅, ∅, ∅, 0⟩

/-! ## The methods -/

def isRegistered (x : ConnectionsImpl) (connectionId : ConnectionId) : Bool :=
  decide (connectionId ∈ x.activeConnections)

def disconnect (x : ConnectionsImpl) (connectionId : ConnectionId) : ConnectionsImpl :=
  { x with
    activeConnections := x.activeConnections.erase connectionId
    topicSubscriptions := x.topicSubscriptions.mapValues (·.erase connectionId)
    activeUsers := x.activeUsers.erase connectionId }

def register (x : ConnectionsImpl) (connectionId : ConnectionId) : ConnectionsImpl :=
  { x with activeConnections := insert connectionId x.activeConnections }

def authenticateUser (x : ConnectionsImpl) (connectionId : ConnectionId) (username password : Text) :
    Bool × ConnectionsImpl :=
  match x.users.lookup username with
  | some stored => (decide (stored = password), x)
  | none =>
    (true, { x with
      users := x.users.insert username password
      activeUsers := x.activeUsers.insert connectionId username })

def isUserActive (x : ConnectionsImpl) (username : Text) : Bool :=
  x.activeUsers.containsValue username

def getNextMessageId (x : ConnectionsImpl) : Int × ConnectionsImpl :=
  let next := Decimal.wrap (x.messageCounter + 1)
  (next, { x with messageCounter := next })

def addSubscription (x : ConnectionsImpl) (topic : Text) (connectionId : ConnectionId)
    (subscriptionId : Int) : ConnectionsImpl :=
  { x with
    topicSubscriptions :=
      (x.topicSubscriptions.putIfAbsent topic ∅).modify topic (·.insert connectionId subscriptionId) }

def removeSubscription (x : ConnectionsImpl) (topic : Text) (connectionId : ConnectionId) :
    ConnectionsImpl :=
  match x.topicSubscriptions.lookup topic with
  | none => x
  | some subscribers =>
    let subscribers := subscribers.erase connectionId
    { x with
      topicSubscriptions :=
        if Table.isEmpty subscribers then x.topicSubscriptions.erase topic
        else x.topicSubscriptions.insert topic subscribers }

def getSubscribers (x : ConnectionsImpl) (topic : Text) : Table ConnectionId Int :=
  (x.topicSubscriptions.lookup topic).getD ∅

/-! ## The topic table -/

/-- The id under which a connection is subscribed to a topic. -/
def subscription (x : ConnectionsImpl) (topic : Text) (c : ConnectionId) : Option Int :=
  (x.topicSubscriptions.lookup topic).bind (·.lookup c)

theorem lookup_getSubscribers (x : ConnectionsImpl) (topic : Text) (c : ConnectionId) :
    (x.getSubscribers topic).lookup c = x.subscription topic c := by
  unfold getSubscribers subscription
  cases x.topicSubscriptions.lookup topic <;> simp

theorem subscription_addSubscription (x : ConnectionsImpl) (topic t : Text) (c d : ConnectionId)
    (i : Int) :
    (x.addSubscription topic c i).subscription t d =
      if t = topic ∧ d = c then some i else x.subscription t d := by
  simp only [subscription, addSubscription, Table.lookup_modify, Table.lookup_putIfAbsent]
  by_cases ht : t = topic
  · subst ht
    cases x.topicSubscriptions.lookup t <;>
      simp [Table.lookup_insert_if, -AList.insert_empty]
  · simp [ht]

theorem subscription_removeSubscription (x : ConnectionsImpl) (topic t : Text) (c d : ConnectionId) :
    (x.removeSubscription topic c).subscription t d =
      if t = topic ∧ d = c then none else x.subscription t d := by
  unfold removeSubscription
  cases h : x.topicSubscriptions.lookup topic with
  | none =>
    by_cases ht : t = topic
    · subst ht
      simp [subscription, h]
    · simp [ht]
  | some subscribers =>
    by_cases ht : t = topic
    · subst ht
      have hd : (subscribers.erase c).lookup d = if d = c then none else subscribers.lookup d :=
        Table.lookup_erase_if _ _ _
      by_cases he : Table.isEmpty (subscribers.erase c) = true
      · have hn := (Table.isEmpty_iff _).mp he d
        rw [hd] at hn
        simp only [subscription, he, if_true, AList.lookup_erase, h, Option.bind_some, true_and]
        split at hn <;> simp_all
      · simp [subscription, he, h, hd]
    · simp only [subscription, ht, false_and, if_false]
      split
      · rw [AList.lookup_erase_ne ht]
      · rw [AList.lookup_insert_ne ht]

theorem subscription_disconnect (x : ConnectionsImpl) (t : Text) (c d : ConnectionId) :
    (x.disconnect c).subscription t d = if d = c then none else x.subscription t d := by
  simp only [subscription, disconnect, Table.lookup_mapValues]
  cases x.topicSubscriptions.lookup t <;> simp [Table.lookup_erase_if]

theorem subscription_removeSubscriptions (topics : List Text) (x : ConnectionsImpl) (t : Text)
    (c d : ConnectionId) :
    (topics.foldl (fun x topic => x.removeSubscription topic c) x).subscription t d =
      if t ∈ topics ∧ d = c then none else x.subscription t d := by
  induction topics generalizing x with
  | nil => simp
  | cons topic topics ih =>
    rw [List.foldl_cons, ih, subscription_removeSubscription]
    by_cases hd : d = c <;> by_cases ht : t = topic <;> simp [hd, ht]

/-! ## The fields a method leaves alone -/

section Frame

variable (x : ConnectionsImpl) (topic : Text) (c : ConnectionId) (i : Int)

theorem removeSubscription_fields :
    (x.removeSubscription topic c).activeConnections = x.activeConnections ∧
      (x.removeSubscription topic c).activeUsers = x.activeUsers ∧
      (x.removeSubscription topic c).users = x.users ∧
      (x.removeSubscription topic c).messageCounter = x.messageCounter := by
  unfold removeSubscription
  split <;> exact ⟨rfl, rfl, rfl, rfl⟩

theorem authenticateUser_fields (u w : Text) :
    (x.authenticateUser c u w).2.activeConnections = x.activeConnections ∧
      (x.authenticateUser c u w).2.topicSubscriptions = x.topicSubscriptions ∧
      (x.authenticateUser c u w).2.messageCounter = x.messageCounter := by
  unfold authenticateUser
  split <;> exact ⟨rfl, rfl, rfl⟩

theorem authenticateUser_refused {u w : Text} (h : ¬ (x.authenticateUser c u w).1 = true) :
    (x.authenticateUser c u w).2 = x := by
  unfold authenticateUser at h ⊢
  split
  · rfl
  · next hn => simp [hn] at h

theorem removeSubscriptions_fields (topics : List Text) :
    let y := topics.foldl (fun x topic => x.removeSubscription topic c) x
    y.activeConnections = x.activeConnections ∧ y.activeUsers = x.activeUsers ∧ y.users = x.users ∧
      y.messageCounter = x.messageCounter := by
  induction topics generalizing x with
  | nil => exact ⟨rfl, rfl, rfl, rfl⟩
  | cons t topics ih =>
    obtain ⟨h1, h2, h3, h4⟩ := x.removeSubscription_fields t c
    obtain ⟨i1, i2, i3, i4⟩ := ih (x.removeSubscription t c)
    exact ⟨i1.trans h1, i2.trans h2, i3.trans h3, i4.trans h4⟩

end Frame

/-! ## A connection that left no trace -/

structure NoTrace (x : ConnectionsImpl) (c : ConnectionId) : Prop where
  unregistered : c ∉ x.activeConnections
  inactive : x.activeUsers.lookup c = none
  unsubscribed : ∀ t, x.subscription t c = none

theorem noTrace_disconnect (x : ConnectionsImpl) (c : ConnectionId) : (x.disconnect c).NoTrace c where
  unregistered := by simp [disconnect]
  inactive := AList.lookup_erase _ _
  unsubscribed t := by simp [subscription_disconnect]

theorem NoTrace.disconnect {x : ConnectionsImpl} {c : ConnectionId} (h : x.NoTrace c)
    (d : ConnectionId) : (x.disconnect d).NoTrace c where
  unregistered hm := h.unregistered (Finset.mem_of_mem_erase hm)
  inactive := by
    simp only [ConnectionsImpl.disconnect, Table.lookup_erase_if, h.inactive, ite_self]
  unsubscribed t := by rw [subscription_disconnect, h.unsubscribed t, ite_self]

theorem NoTrace.active_elsewhere {x : ConnectionsImpl} {c : ConnectionId} (h : x.NoTrace c)
    {username : Text} (hu : x.isUserActive username = true) :
    ∃ d, d ≠ c ∧ x.activeUsers.lookup d = some username := by
  obtain ⟨d, hd⟩ := (Table.containsValue_iff _ _).mp hu
  refine ⟨d, ?_, hd⟩
  rintro rfl
  rw [h.inactive] at hd
  cases hd

end ConnectionsImpl

end Stomp
