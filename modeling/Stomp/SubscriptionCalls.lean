import Stomp.Connections
import Stomp.Base.Run

/-!
# Subscriptions that change side by side

`addSubscription` and `removeSubscription` as the calls on the concurrent maps that they make, each
one a step. The connections that make such a call on one topic are all different.
-/

namespace Stomp

inductive SubscriptionCall where
  | add (subscriptionId : Int)
  | remove
  deriving DecidableEq

/-- A reference to an inner map. -/
inductive InnerMap where
  /-- The one that a topic has at the start. -/
  | given (topic : Text)
  /-- The one that `addSubscription` of a connection makes. -/
  | made (connectionId : ConnectionId)
  deriving DecidableEq

/-- The call on a map that comes next, with what the calls before it returned. -/
inductive CallPoint where
  -- addSubscription
  | putIfAbsent (subscriptionId : Int)
  | getToPut (subscriptionId : Int)
  | put (subscribers : InnerMap) (subscriptionId : Int)
  -- removeSubscription
  | containsKey
  | getToRemove
  | remove (subscribers : InnerMap)
  | getToCheck
  | isEmpty (subscribers : InnerMap)
  | removeTopic
  -- the ends of both
  | returned
  | nullPointer
  deriving DecidableEq

structure TopicMaps where
  topicSubscriptions : Table Text InnerMap
  maps : InnerMap → Table ConnectionId Int
  calls : Table ConnectionId CallPoint

def SubscriptionCall.start : SubscriptionCall → CallPoint
  | .add subscriptionId => .putIfAbsent subscriptionId
  | .remove => .containsKey

/-- The same call in one go. -/
def SubscriptionCall.apply (topic : Text) (c : ConnectionId) (x : ConnectionsImpl) :
    SubscriptionCall → ConnectionsImpl
  | .add subscriptionId => x.addSubscription topic c subscriptionId
  | .remove => x.removeSubscription topic c

/-- The call counts on the inner map that it found, or that it made sure of. -/
def CallPoint.Counts : CallPoint → Prop
  | .getToPut _ | .put _ _ | .getToRemove | .remove _ | .getToCheck => True
  | _ => False

instance : DecidablePred CallPoint.Counts
  | .getToPut _ | .put _ _ | .getToRemove | .remove _ | .getToCheck => isTrue trivial
  | .putIfAbsent _ | .containsKey | .isEmpty _ | .removeTopic | .returned | .nullPointer => isFalse id

/-- The points of a call. -/
def SubscriptionCall.Reaches : SubscriptionCall → CallPoint → Prop
  | .add i, .putIfAbsent j | .add i, .getToPut j | .add i, .put _ j => j = i
  | .add _, .returned => True
  | .remove, .containsKey | .remove, .getToRemove | .remove, .remove _ | .remove, .getToCheck
  | .remove, .isEmpty _ | .remove, .removeTopic | .remove, .returned => True
  | _, _ => False

/-- The subscription that a connection has while its call is at a point. -/
def SubscriptionCall.due (before : Option Int) : SubscriptionCall → CallPoint → Option Int
  | .add i, .returned => some i
  | .remove, .getToCheck | .remove, .isEmpty _ | .remove, .removeTopic | .remove, .returned => none
  | _, _ => before

/-- The call will put into the inner map of the topic, or drop it when it is empty. -/
def CallPoint.Mends : CallPoint → Prop
  | .getToPut _ | .put _ _ | .getToCheck | .isEmpty _ | .removeTopic => True
  | _ => False

/-- The call has not changed an inner map. -/
def CallPoint.Early : CallPoint → Prop
  | .putIfAbsent _ | .containsKey | .getToRemove | .remove _ => True
  | _ => False

theorem CallPoint.not_mends_of_early {p : CallPoint} (h : p.Early) : ¬ p.Mends := by
  cases p <;> simp_all [CallPoint.Early, CallPoint.Mends]

/-! ## The calls one after the other -/

namespace ConnectionsImpl

/-- The calls in this order, each in one go. -/
def applyCalls (topic : Text) (order : List ((_ : ConnectionId) × SubscriptionCall))
    (x : ConnectionsImpl) : ConnectionsImpl :=
  order.foldl (fun x e => e.2.apply topic e.1 x) x

theorem lookup_apply_ne (x : ConnectionsImpl) {topic t : Text} (ht : t ≠ topic) (c : ConnectionId)
    (k : SubscriptionCall) :
    (k.apply topic c x).topicSubscriptions.lookup t = x.topicSubscriptions.lookup t := by
  cases k with
  | add i =>
    simp only [SubscriptionCall.apply, addSubscription, Table.lookup_modify,
      Table.lookup_putIfAbsent, if_neg ht]
  | remove =>
    simp only [SubscriptionCall.apply, removeSubscription]
    split
    · rfl
    · dsimp only
      split
      · exact AList.lookup_erase_ne ht
      · exact AList.lookup_insert_ne ht

theorem subscription_apply (x : ConnectionsImpl) (topic : Text) (c d : ConnectionId)
    (k : SubscriptionCall) : (k.apply topic c x).subscription topic d =
      if d = c then k.due (x.subscription topic c) .returned else x.subscription topic d := by
  cases k with
  | add i => simp [SubscriptionCall.apply, subscription_addSubscription, SubscriptionCall.due]
  | remove => simp [SubscriptionCall.apply, subscription_removeSubscription, SubscriptionCall.due]

theorem not_isEmpty_apply (x : ConnectionsImpl) (topic : Text) (c : ConnectionId)
    (k : SubscriptionCall) {m : Table ConnectionId Int}
    (hm : (k.apply topic c x).topicSubscriptions.lookup topic = some m) :
    ¬ Table.isEmpty m = true := by
  intro he
  cases k with
  | add i =>
    have hsub : (x.addSubscription topic c i).subscription topic c = some i := by
      rw [subscription_addSubscription, if_pos ⟨rfl, rfl⟩]
    have hlookup : (x.addSubscription topic c i).topicSubscriptions.lookup topic = some m := hm
    rw [subscription, hlookup, Option.bind_some, (Table.isEmpty_iff _).mp he c] at hsub
    cases hsub
  | remove =>
    simp only [SubscriptionCall.apply, removeSubscription] at hm
    split at hm
    · next hnone =>
      rw [hnone] at hm
      cases hm
    · dsimp only at hm
      split at hm
      · rw [AList.lookup_erase] at hm
        cases hm
      · next hne =>
        rw [AList.lookup_insert] at hm
        cases hm
        exact hne he

theorem lookup_applyCalls_ne {topic t : Text} (ht : t ≠ topic)
    (order : List ((_ : ConnectionId) × SubscriptionCall)) (x : ConnectionsImpl) :
    (x.applyCalls topic order).topicSubscriptions.lookup t = x.topicSubscriptions.lookup t := by
  induction order generalizing x with
  | nil => rfl
  | cons e order ih => exact (ih (e.2.apply topic e.1 x)).trans (lookup_apply_ne x ht e.1 e.2)

theorem subscription_applyCalls (topic : Text) (order : List ((_ : ConnectionId) × SubscriptionCall))
    (hnodup : order.NodupKeys) (x : ConnectionsImpl) (c : ConnectionId) :
    (x.applyCalls topic order).subscription topic c =
      match order.dlookup c with
      | some k => k.due (x.subscription topic c) .returned
      | none => x.subscription topic c := by
  induction order generalizing x with
  | nil => rfl
  | cons e order ih =>
    obtain ⟨d, k⟩ := e
    rw [List.nodupKeys_cons] at hnodup
    show ((k.apply topic d x).applyCalls topic order).subscription topic c = _
    rw [ih hnodup.2, subscription_apply]
    by_cases hc : c = d
    · subst hc
      have hnone : order.dlookup c = none := List.dlookup_eq_none.mpr hnodup.1
      rw [hnone, List.dlookup_cons_eq, if_pos rfl]
    · rw [List.dlookup_cons_ne order ⟨d, k⟩ hc, if_neg hc]

theorem not_isEmpty_applyCalls (topic : Text)
    {order : List ((_ : ConnectionId) × SubscriptionCall)} (hne : order ≠ []) (x : ConnectionsImpl)
    {m : Table ConnectionId Int}
    (hm : (x.applyCalls topic order).topicSubscriptions.lookup topic = some m) :
    ¬ Table.isEmpty m = true := by
  obtain ⟨order, e, rfl⟩ := (List.eq_nil_or_concat order).resolve_left hne
  rw [applyCalls, List.concat_eq_append, List.foldl_append] at hm
  exact not_isEmpty_apply _ _ _ _ hm

end ConnectionsImpl

namespace TopicMaps

/-- The tables of `x`, and these calls at their beginning. -/
def initial (x : ConnectionsImpl) (calls : Table ConnectionId SubscriptionCall) : TopicMaps where
  topicSubscriptions := x.topicSubscriptions.mapWithKey fun topic _ => .given topic
  maps
    | .given topic => x.getSubscribers topic
    | .made _ => ∅
  calls := calls.mapValues (·.start)

/-- The table with its inner maps. -/
def table (s : TopicMaps) : Table Text (Table ConnectionId Int) :=
  s.topicSubscriptions.mapValues s.maps

def subscription (s : TopicMaps) (topic : Text) (c : ConnectionId) : Option Int :=
  (s.topicSubscriptions.lookup topic).bind fun m => (s.maps m).lookup c

def goOn (s : TopicMaps) (c : ConnectionId) (p : CallPoint) : TopicMaps :=
  { s with calls := s.calls.insert c p }

/-- Goes on with the inner map of the topic, if it has one. -/
def goOnWith (s : TopicMaps) (topic : Text) (c : ConnectionId) (p : InnerMap → CallPoint) :
    TopicMaps :=
  match s.topicSubscriptions.lookup topic with
  | some subscribers => s.goOn c (p subscribers)
  | none => s.goOn c .nullPointer

/-- The next call on a map that connection `c` makes. -/
def step (topic : Text) (s : TopicMaps) (c : ConnectionId) : Option TopicMaps :=
  (s.calls.lookup c).bind fun
    | .putIfAbsent i =>
      some ({ s with topicSubscriptions := s.topicSubscriptions.putIfAbsent topic (.made c) }.goOn c
        (.getToPut i))
    | .getToPut i => some (s.goOnWith topic c (.put · i))
    | .put m i =>
      some ({ s with maps := Function.update s.maps m ((s.maps m).insert c i) }.goOn c .returned)
    | .containsKey =>
      some (s.goOn c
        (if (s.topicSubscriptions.lookup topic).isSome then .getToRemove else .returned))
    | .getToRemove => some (s.goOnWith topic c .remove)
    | .remove m =>
      some ({ s with maps := Function.update s.maps m ((s.maps m).erase c) }.goOn c .getToCheck)
    | .getToCheck => some (s.goOnWith topic c .isEmpty)
    | .isEmpty m => some (s.goOn c (if (s.maps m).isEmpty then .removeTopic else .returned))
    | .removeTopic =>
      some ({ s with topicSubscriptions := s.topicSubscriptions.erase topic }.goOn c .returned)
    | .returned => none
    | .nullPointer => none

def runs (x : ConnectionsImpl) (topic : Text) (calls : Table ConnectionId SubscriptionCall) :
    System TopicMaps ConnectionId := ⟨initial x calls, step topic⟩

/-! ## The bad step -/

/-- A step that drops a topic drops an empty inner map that no call counts on. -/
def DropsUnused (topic : Text) (s : TopicMaps) (c : ConnectionId) : Prop :=
  s.calls.lookup c = some .removeTopic → ∀ m, s.topicSubscriptions.lookup topic = some m →
    Table.isEmpty (s.maps m) = true ∧
      ∀ d p, s.calls.lookup d = some p → ¬ p.Counts

instance (topic : Text) (s : TopicMaps) (c : ConnectionId) : Decidable (DropsUnused topic s c) :=
  inferInstanceAs (Decidable (_ → ∀ m ∈ s.topicSubscriptions.lookup topic, _ ∧
    ∀ d p, s.calls.lookup d = some p → ¬ p.Counts))

/-! ## The invariant -/

/-- What a call relies on at a point. -/
def Relies (s : TopicMaps) (topic : Text) (c : ConnectionId) : CallPoint → Prop
  | .putIfAbsent _ => Table.isEmpty (s.maps (.made c)) = true ∧
      s.topicSubscriptions.lookup topic ≠ some (.made c)
  | .getToPut _ | .getToRemove | .getToCheck => (s.topicSubscriptions.lookup topic).isSome = true
  | .put m _ | .remove m => s.topicSubscriptions.lookup topic = some m
  | .isEmpty m => s.topicSubscriptions.lookup topic = some m ∨ Table.isEmpty (s.maps m) = true
  | .containsKey | .removeTopic | .returned => True
  | .nullPointer => False

variable {x : ConnectionsImpl} {topic : Text} {calls : Table ConnectionId SubscriptionCall}

structure Consistent (x : ConnectionsImpl) (topic : Text)
    (calls : Table ConnectionId SubscriptionCall) (s : TopicMaps) : Prop where
  /-- The other topics keep their inner maps, and these are not changed. -/
  others : ∀ t, t ≠ topic →
    s.topicSubscriptions.lookup t = (x.topicSubscriptions.lookup t).map fun _ => .given t
  given : ∀ t, t ≠ topic → s.maps (.given t) = x.getSubscribers t
  own : ∀ m, s.topicSubscriptions.lookup topic = some m → ∀ t, t ≠ topic → m ≠ .given t
  call : ∀ c k, calls.lookup c = some k → ∃ p, s.calls.lookup c = some p ∧ k.Reaches p ∧
    s.Relies topic c p ∧ s.subscription topic c = k.due (x.subscription topic c) p
  uncalled : ∀ c, calls.lookup c = none →
    s.calls.lookup c = none ∧ s.subscription topic c = x.subscription topic c
  /-- An empty inner map was there at the start, or it does not stay. -/
  empty : ∀ m, s.topicSubscriptions.lookup topic = some m → Table.isEmpty (s.maps m) = true →
    (∃ d p, s.calls.lookup d = some p ∧ p.Mends) ∨ ∀ d p, s.calls.lookup d = some p → p.Early

theorem subscription_initial (x : ConnectionsImpl) (calls : Table ConnectionId SubscriptionCall)
    (topic : Text) (c : ConnectionId) :
    (initial x calls).subscription topic c = x.subscription topic c := by
  rw [subscription, initial, Table.lookup_mapWithKey, ConnectionsImpl.subscription]
  cases h : x.topicSubscriptions.lookup topic with
  | none => rfl
  | some subscribers =>
    show (x.getSubscribers topic).lookup c = subscribers.lookup c
    rw [ConnectionsImpl.getSubscribers, h]
    rfl

theorem consistent_initial : Consistent x topic calls (initial x calls) where
  others t _ := Table.lookup_mapWithKey _ _ _
  given t _ := rfl
  own m hm t ht := by
    rw [initial, Table.lookup_mapWithKey] at hm
    obtain ⟨_, -, rfl⟩ := Option.map_eq_some_iff.mp hm
    simpa using Ne.symm ht
  call c k hk := by
    refine ⟨k.start, ?_, ?_, ?_, ?_⟩
    · rw [initial, Table.lookup_mapValues, hk]
      rfl
    · cases k <;> simp [SubscriptionCall.start, SubscriptionCall.Reaches]
    · cases k with
      | add i =>
        refine ⟨rfl, ?_⟩
        rw [initial, Table.lookup_mapWithKey]
        simp
      | remove => trivial
    · rw [subscription_initial]
      cases k <;> rfl
  uncalled c hc := by
    refine ⟨?_, subscription_initial x calls topic c⟩
    rw [initial, Table.lookup_mapValues, hc]
    rfl
  empty m _ _ := by
    refine .inr fun d p hp => ?_
    rw [initial, Table.lookup_mapValues] at hp
    obtain ⟨k, -, rfl⟩ := Option.map_eq_some_iff.mp hp
    cases k <;> trivial

theorem Consistent.goOn {s : TopicMaps} (h : Consistent x topic calls s) {c : ConnectionId}
    {k : SubscriptionCall} (hk : calls.lookup c = some k) {p' : CallPoint}
    {topicSubscriptions : Table Text InnerMap} {maps : InnerMap → Table ConnectionId Int}
    (hothers : ∀ t, t ≠ topic → topicSubscriptions.lookup t = s.topicSubscriptions.lookup t)
    (hgiven : ∀ t, t ≠ topic → maps (.given t) = s.maps (.given t))
    (hown : ∀ m, topicSubscriptions.lookup topic = some m → ∀ t, t ≠ topic → m ≠ .given t)
    (hreaches : k.Reaches p')
    (hrelies : Relies ⟨topicSubscriptions, maps, s.calls⟩ topic c p')
    (hdue : subscription ⟨topicSubscriptions, maps, s.calls⟩ topic c =
      k.due (x.subscription topic c) p')
    (hrely : ∀ d q, d ≠ c → s.calls.lookup d = some q → s.Relies topic d q →
      Relies ⟨topicSubscriptions, maps, s.calls⟩ topic d q)
    (hsub : ∀ d, d ≠ c →
      subscription ⟨topicSubscriptions, maps, s.calls⟩ topic d = s.subscription topic d)
    (hempty : ¬ p'.Mends → ∀ m, topicSubscriptions.lookup topic = some m →
      Table.isEmpty (maps m) = true →
      p'.Early ∧ ((∃ d q, d ≠ c ∧ s.calls.lookup d = some q ∧ q.Mends) ∨
        ∀ d q, s.calls.lookup d = some q → q.Early)) :
    Consistent x topic calls (TopicMaps.goOn ⟨topicSubscriptions, maps, s.calls⟩ c p') where
  others t ht := (hothers t ht).trans (h.others t ht)
  given t ht := (hgiven t ht).trans (h.given t ht)
  own := hown
  call d k' hk' := by
    by_cases hd : d = c
    · subst hd
      cases hk.symm.trans hk'
      exact ⟨p', AList.lookup_insert _, hreaches, hrelies, hdue⟩
    · obtain ⟨q, hq, hr, hrel, hs⟩ := h.call d k' hk'
      exact ⟨q, (AList.lookup_insert_ne hd).trans hq, hr, hrely d q hd hq hrel, (hsub d hd).trans hs⟩
  uncalled d hd := by
    have hne : d ≠ c := by
      rintro rfl
      rw [hk] at hd
      cases hd
    obtain ⟨hq, hs⟩ := h.uncalled d hd
    exact ⟨(AList.lookup_insert_ne hne).trans hq, (hsub d hne).trans hs⟩
  empty m hm he := by
    by_cases hmends : p'.Mends
    · exact .inl ⟨c, p', AList.lookup_insert _, hmends⟩
    obtain ⟨hearly, ⟨d, q, hd, hq, hq'⟩ | hall⟩ := hempty hmends m hm he
    · exact .inl ⟨d, q, (AList.lookup_insert_ne hd).trans hq, hq'⟩
    · refine .inr fun d q hq => ?_
      by_cases hd : d = c
      · subst hd
        cases (AList.lookup_insert _).symm.trans hq
        exact hearly
      · exact hall d q ((AList.lookup_insert_ne hd).symm.trans hq)

theorem Consistent.goOn_same {s : TopicMaps} (h : Consistent x topic calls s) {c : ConnectionId}
    {k : SubscriptionCall} (hk : calls.lookup c = some k) {p' : CallPoint} (hreaches : k.Reaches p')
    (hrelies : s.Relies topic c p')
    (hdue : s.subscription topic c = k.due (x.subscription topic c) p')
    (hempty : ¬ p'.Mends → ∀ m, s.topicSubscriptions.lookup topic = some m →
      Table.isEmpty (s.maps m) = true →
      p'.Early ∧ ((∃ d q, d ≠ c ∧ s.calls.lookup d = some q ∧ q.Mends) ∨
        ∀ d q, s.calls.lookup d = some q → q.Early)) : Consistent x topic calls (s.goOn c p') :=
  h.goOn hk (fun _ _ => rfl) (fun _ _ => rfl) h.own hreaches hrelies hdue (fun _ _ _ _ hq => hq)
    (fun _ _ => rfl) hempty

/-! ## One lemma per call on a map -/

section Step

variable {s : TopicMaps} {c : ConnectionId}

theorem goOnWith_some {m : InnerMap} (hm : s.topicSubscriptions.lookup topic = some m)
    (p : InnerMap → CallPoint) : s.goOnWith topic c p = s.goOn c (p m) := by
  rw [goOnWith, hm]

theorem Consistent.still_mended (h : Consistent x topic calls s) {p : CallPoint}
    (hp : s.calls.lookup c = some p) (hearly : p.Early) {m : InnerMap}
    (hm : s.topicSubscriptions.lookup topic = some m) (he : Table.isEmpty (s.maps m) = true) :
    (∃ d q, d ≠ c ∧ s.calls.lookup d = some q ∧ q.Mends) ∨
      ∀ d q, s.calls.lookup d = some q → q.Early := by
  -- Another call that could mend an empty inner map still can.
  obtain ⟨d, q, hq, hmends⟩ | hall := h.empty m hm he
  · refine .inl ⟨d, q, ?_, hq, hmends⟩
    rintro rfl
    cases hp.symm.trans hq
    exact p.not_mends_of_early hearly hmends
  · exact .inr hall

theorem subscription_some {ts : Table Text InnerMap} {maps : InnerMap → Table ConnectionId Int}
    {calls : Table ConnectionId CallPoint} {m : InnerMap} (hm : ts.lookup topic = some m)
    (d : ConnectionId) : subscription ⟨ts, maps, calls⟩ topic d = (maps m).lookup d := by
  rw [subscription, hm]
  rfl

theorem subscription_update {m : InnerMap} {subscribers : Table ConnectionId Int}
    (hm : s.topicSubscriptions.lookup topic = some m) {d : ConnectionId}
    (hd : subscribers.lookup d = (s.maps m).lookup d) :
    subscription ⟨s.topicSubscriptions, Function.update s.maps m subscribers, s.calls⟩ topic d =
      s.subscription topic d := by
  rw [subscription_some hm, Function.update_self, hd]
  exact (subscription_some hm d).symm

theorem relies_update {m : InnerMap} {subscribers : Table ConnectionId Int}
    (hm : s.topicSubscriptions.lookup topic = some m) {d : ConnectionId} {q : CallPoint}
    (hq : s.Relies topic d q) :
    Relies ⟨s.topicSubscriptions, Function.update s.maps m subscribers, s.calls⟩ topic d q := by
  cases q with
  | putIfAbsent i =>
    obtain ⟨he, hne⟩ := hq
    have hmade : InnerMap.made d ≠ m := by
      rintro rfl
      exact hne hm
    refine ⟨?_, hne⟩
    show Table.isEmpty (Function.update s.maps m subscribers (.made d)) = true
    rw [Function.update_of_ne hmade]
    exact he
  | isEmpty m' =>
    by_cases hmm : m' = m
    · exact .inl (hmm ▸ hm)
    · refine hq.imp id fun he => ?_
      show Table.isEmpty (Function.update s.maps m subscribers m') = true
      rw [Function.update_of_ne hmm]
      exact he
  | getToPut | put | containsKey | getToRemove | remove | getToCheck | removeTopic | returned
  | nullPointer => exact hq

theorem Consistent.putIfAbsent (h : Consistent x topic calls s) {i : Int}
    (hk : calls.lookup c = some (.add i)) (hrel : s.Relies topic c (.putIfAbsent i))
    (hdue : s.subscription topic c = x.subscription topic c) :
    Consistent x topic calls
      (TopicMaps.goOn ⟨s.topicSubscriptions.putIfAbsent topic (.made c), s.maps, s.calls⟩ c
        (.getToPut i)) := by
  obtain ⟨hmade, hne⟩ := hrel
  have hlookup : ∀ t, (s.topicSubscriptions.putIfAbsent topic (.made c)).lookup t =
      if t = topic then some ((s.topicSubscriptions.lookup topic).getD (.made c))
      else s.topicSubscriptions.lookup t := fun t => Table.lookup_putIfAbsent _ _ _ _
  have htopic := hlookup topic
  rw [if_pos rfl] at htopic
  have hsub : ∀ d, subscription ⟨s.topicSubscriptions.putIfAbsent topic (.made c), s.maps, s.calls⟩
      topic d = s.subscription topic d := by
    intro d
    rw [subscription_some htopic, subscription]
    cases hm : s.topicSubscriptions.lookup topic with
    | some m => rfl
    | none => exact (Table.isEmpty_iff _).mp hmade d
  refine h.goOn hk ?_ (fun _ _ => rfl) ?_ rfl ?_ ((hsub c).trans hdue) ?_ (fun d _ => hsub d)
    (fun hmends => absurd trivial hmends)
  · intro t ht
    rw [hlookup, if_neg ht]
  · intro m hm t ht
    rw [htopic] at hm
    cases hold : s.topicSubscriptions.lookup topic with
    | some m' =>
      rw [hold] at hm
      exact Option.some.inj hm ▸ h.own m' hold t ht
    | none =>
      rw [hold] at hm
      cases hm
      exact InnerMap.noConfusion
  · show ((s.topicSubscriptions.putIfAbsent topic (.made c)).lookup topic).isSome = true
    rw [htopic]
    rfl
  · intro d q hd _ hq
    have hsome : ∀ m, s.topicSubscriptions.lookup topic = some m →
        (s.topicSubscriptions.putIfAbsent topic (.made c)).lookup topic = some m := by
      intro m hm
      rw [htopic, hm]
      rfl
    have hisSome : ((s.topicSubscriptions.putIfAbsent topic (.made c)).lookup topic).isSome = true := by
      rw [htopic]
      rfl
    cases q with
    | putIfAbsent j =>
      refine ⟨hq.1, fun hm => ?_⟩
      rw [htopic] at hm
      cases hold : s.topicSubscriptions.lookup topic with
      | some m' =>
        rw [hold] at hm
        exact hq.2 (hold.trans hm)
      | none =>
        rw [hold] at hm
        cases hm
        exact hd rfl
    | put m | remove m => exact hsome _ hq
    | isEmpty m => exact hq.imp (hsome m) id
    | getToPut | getToRemove | getToCheck => exact hisSome
    | containsKey | removeTopic | returned => trivial
    | nullPointer => exact hq

theorem Consistent.put (h : Consistent x topic calls s) {i : Int} {m : InnerMap}
    (hk : calls.lookup c = some (.add i)) (hm : s.topicSubscriptions.lookup topic = some m) :
    Consistent x topic calls
      (TopicMaps.goOn ⟨s.topicSubscriptions, Function.update s.maps m ((s.maps m).insert c i), s.calls⟩ c
        .returned) := by
  refine h.goOn hk (fun _ _ => rfl) ?_ h.own trivial trivial ?_
    (fun d q _ _ hq => relies_update hm hq)
    (fun d hd => subscription_update hm (AList.lookup_insert_ne hd)) ?_
  · exact fun t ht => Function.update_of_ne (h.own m hm t ht).symm _ _
  · rw [subscription_some hm, Function.update_self, AList.lookup_insert]
    rfl
  · intro _ m' hm' he
    cases hm.symm.trans hm'
    rw [Function.update_self] at he
    have hnone := (Table.isEmpty_iff _).mp he c
    rw [AList.lookup_insert] at hnone
    cases hnone

theorem Consistent.remove (h : Consistent x topic calls s) {m : InnerMap}
    (hk : calls.lookup c = some .remove) (hm : s.topicSubscriptions.lookup topic = some m) :
    Consistent x topic calls
      (TopicMaps.goOn ⟨s.topicSubscriptions, Function.update s.maps m ((s.maps m).erase c), s.calls⟩ c
        .getToCheck) := by
  refine h.goOn hk (fun _ _ => rfl) ?_ h.own trivial ?_ ?_
    (fun d q _ _ hq => relies_update hm hq)
    (fun d hd => subscription_update hm (AList.lookup_erase_ne hd))
    (fun hmends => absurd trivial hmends)
  · exact fun t ht => Function.update_of_ne (h.own m hm t ht).symm _ _
  · show (s.topicSubscriptions.lookup topic).isSome = true
    rw [hm]
    rfl
  · rw [subscription_some hm, Function.update_self, AList.lookup_erase]
    rfl

theorem Consistent.containsKey (h : Consistent x topic calls s)
    (hk : calls.lookup c = some .remove) (hp : s.calls.lookup c = some .containsKey)
    (hdue : s.subscription topic c = x.subscription topic c) :
    Consistent x topic calls (s.goOn c
      (if (s.topicSubscriptions.lookup topic).isSome then .getToRemove else .returned)) := by
  cases hm : s.topicSubscriptions.lookup topic with
  | some m =>
    refine h.goOn_same hk trivial ?_ hdue fun _ m' hm' he =>
      ⟨trivial, h.still_mended hp trivial hm' he⟩
    show (s.topicSubscriptions.lookup topic).isSome = true
    rw [hm]
    rfl
  | none =>
    refine h.goOn_same hk trivial trivial ?_ fun _ m' hm' => ?_
    · rw [subscription, hm]
      rfl
    · rw [hm] at hm'
      cases hm'

theorem Consistent.isEmpty (h : Consistent x topic calls s) {m : InnerMap}
    (hk : calls.lookup c = some .remove) (hrel : s.Relies topic c (.isEmpty m))
    (hdue : s.subscription topic c = none) :
    Consistent x topic calls
      (s.goOn c (if (s.maps m).isEmpty then .removeTopic else .returned)) := by
  split
  · exact h.goOn_same hk trivial trivial hdue fun hmends => absurd trivial hmends
  · next hne =>
    refine h.goOn_same hk trivial trivial hdue fun _ m' hm' he => ?_
    -- the map that was not empty is the one of the topic
    have hm := hrel.resolve_right hne
    cases hm.symm.trans hm'
    exact absurd he hne

theorem Consistent.removeTopic (h : Consistent x topic calls s)
    (hk : calls.lookup c = some .remove) (hp : s.calls.lookup c = some .removeTopic)
    (hdue : s.subscription topic c = none) (hC : DropsUnused topic s c) :
    Consistent x topic calls
      (TopicMaps.goOn ⟨s.topicSubscriptions.erase topic, s.maps, s.calls⟩ c .returned) := by
  have hnone : (s.topicSubscriptions.erase topic).lookup topic = none := AList.lookup_erase _ _
  have hsub : ∀ d, subscription ⟨s.topicSubscriptions.erase topic, s.maps, s.calls⟩ topic d =
      s.subscription topic d := by
    intro d
    rw [subscription, hnone, subscription]
    cases hm : s.topicSubscriptions.lookup topic with
    | some m => exact ((Table.isEmpty_iff _).mp (hC hp m hm).1 d).symm
    | none => rfl
  refine h.goOn hk (fun t ht => AList.lookup_erase_ne ht) (fun _ _ => rfl) ?_ trivial trivial
    ((hsub c).trans hdue) ?_ (fun d _ => hsub d) ?_
  · intro m hm
    rw [hnone] at hm
    cases hm
  · intro d q hd hq hrel
    cases hm : s.topicSubscriptions.lookup topic with
    | none =>
      -- nothing is dropped
      have hsame : s.topicSubscriptions.erase topic = s.topicSubscriptions :=
        AList.ext (List.kerase_of_notMem_keys (AList.lookup_eq_none.mp hm))
      rw [hsame]
      exact hrel
    | some m =>
      obtain ⟨he, hcounts⟩ := hC hp m hm
      have hfree := hcounts d q hq
      cases q with
      | putIfAbsent j => exact ⟨hrel.1, hnone.trans_ne (Option.some_ne_none _).symm⟩
      | isEmpty m' =>
        refine .inr (hrel.elim (fun hm' => ?_) id)
        cases hm.symm.trans hm'
        exact he
      | getToPut | put | getToRemove | remove | getToCheck => exact absurd trivial hfree
      | containsKey | removeTopic | returned => trivial
      | nullPointer => exact hrel
  · intro _ m hm
    rw [hnone] at hm
    cases hm

end Step

theorem Consistent.step {s s' : TopicMaps} {c : ConnectionId} (h : Consistent x topic calls s)
    (hC : DropsUnused topic s c) (hs : s.step topic c = some s') : Consistent x topic calls s' := by
  -- A step keeps the invariant, unless it drops an inner map that is in use.
  obtain ⟨p, hp, hs⟩ := Option.bind_eq_some_iff.mp hs
  cases hk : calls.lookup c with
  | none =>
    rw [(h.uncalled c hk).1] at hp
    cases hp
  | some k =>
    obtain ⟨q, hq, hreaches, hrel, hdue⟩ := h.call c k hk
    cases hp.symm.trans hq
    cases k with
    | add i =>
      cases p with
      | putIfAbsent j =>
        cases hreaches
        cases hs
        exact h.putIfAbsent hk hrel hdue
      | getToPut j =>
        cases hreaches
        cases hs
        obtain ⟨m, hm⟩ := Option.isSome_iff_exists.mp hrel
        rw [goOnWith_some hm]
        exact h.goOn_same hk rfl hm hdue fun hmends => absurd trivial hmends
      | put m j =>
        cases hreaches
        cases hs
        exact h.put hk hrel
      | returned => cases hs
      | containsKey | getToRemove | remove | getToCheck | isEmpty | removeTopic | nullPointer =>
        exact hreaches.elim
    | remove =>
      cases p with
      | containsKey =>
        cases hs
        exact h.containsKey hk hp hdue
      | getToRemove =>
        cases hs
        obtain ⟨m, hm⟩ := Option.isSome_iff_exists.mp hrel
        rw [goOnWith_some hm]
        exact h.goOn_same hk trivial hm hdue fun _ m' hm' he =>
          ⟨trivial, h.still_mended hp trivial hm' he⟩
      | remove m =>
        cases hs
        exact h.remove hk hrel
      | getToCheck =>
        cases hs
        obtain ⟨m, hm⟩ := Option.isSome_iff_exists.mp hrel
        rw [goOnWith_some hm]
        exact h.goOn_same hk trivial (.inl hm) hdue fun hmends => absurd trivial hmends
      | isEmpty m =>
        cases hs
        exact h.isEmpty hk hrel hdue
      | removeTopic =>
        cases hs
        exact h.removeTopic hk hp hdue hC
      | returned => cases hs
      | putIfAbsent | getToPut | put | nullPointer => exact hreaches.elim

/-! ## The end of all calls -/

theorem consistent_run {trace : List (TopicMaps × ConnectionId)} {s : TopicMaps}
    (h : (runs x topic calls).Run trace s) (hC : ∀ e ∈ trace, DropsUnused topic e.1 e.2) :
    Consistent x topic calls s :=
  System.Run.inv_of (DropsUnused topic) (Consistent x topic calls) consistent_initial
    (fun _ _ _ hc hC hs => hc.step hC hs) h hC

/-- Every call has come to its end, with or without an exception. -/
def Finished (s : TopicMaps) : Prop :=
  ∀ c p, s.calls.lookup c = some p → p = .returned ∨ p = .nullPointer

theorem Consistent.no_nullPointer {s : TopicMaps} (h : Consistent x topic calls s)
    (c : ConnectionId) : s.calls.lookup c ≠ some .nullPointer := by
  intro hp
  cases hk : calls.lookup c with
  | none =>
    rw [(h.uncalled c hk).1] at hp
    cases hp
  | some k =>
    obtain ⟨q, hq, -, hrel, -⟩ := h.call c k hk
    cases hp.symm.trans hq
    exact hrel

theorem Consistent.subscription_finished {s : TopicMaps} (h : Consistent x topic calls s)
    (hfinished : s.Finished) {c : ConnectionId} {k : SubscriptionCall}
    (hk : calls.lookup c = some k) :
    s.subscription topic c = k.due (x.subscription topic c) .returned := by
  obtain ⟨p, hp, -, hrel, hdue⟩ := h.call c k hk
  obtain rfl | rfl := hfinished c p hp
  · exact hdue
  · exact hrel.elim

theorem Consistent.not_isEmpty {s : TopicMaps} (h : Consistent x topic calls s)
    (hfinished : s.Finished) {c : ConnectionId} {k : SubscriptionCall}
    (hk : calls.lookup c = some k) {m : InnerMap}
    (hm : s.topicSubscriptions.lookup topic = some m) : ¬ Table.isEmpty (s.maps m) = true := by
  intro he
  obtain ⟨d, p, hp, hmends⟩ | hall := h.empty m hm he
  · obtain rfl | rfl := hfinished d p hp
    · exact hmends
    · exact hmends
  · obtain ⟨p, hp, -⟩ := h.call c k hk
    have hearly := hall c p hp
    obtain rfl | rfl := hfinished c p hp
    · exact hearly
    · exact hearly

theorem map_get_eq {a b : Option (Table ConnectionId Int)}
    (hsub : ∀ c, (a.bind fun m => m.lookup c) = b.bind fun m => m.lookup c)
    (ha : ∀ m, a = some m → ¬ Table.isEmpty m = true)
    (hb : ∀ m, b = some m → ¬ Table.isEmpty m = true) : a.map Table.get = b.map Table.get := by
  cases a with
  | none =>
    cases b with
    | none => rfl
    | some m => exact absurd ((Table.isEmpty_iff m).mpr fun c => (hsub c).symm) (hb m rfl)
  | some m =>
    cases b with
    | none => exact absurd ((Table.isEmpty_iff m).mpr hsub) (ha m rfl)
    | some m' => exact congrArg some (funext hsub)

theorem Consistent.table_eq {s : TopicMaps} (h : Consistent x topic calls s)
    (hfinished : s.Finished) {c : ConnectionId} {k : SubscriptionCall}
    (hk : calls.lookup c = some k) {order : List ((_ : ConnectionId) × SubscriptionCall)}
    (horder : order.Perm calls.entries) (t : Text) :
    (s.table.lookup t).map Table.get =
      ((x.applyCalls topic order).topicSubscriptions.lookup t).map Table.get := by
  have hnodup : order.NodupKeys := (List.perm_nodupKeys horder).mpr calls.nodupKeys
  have hlookup : ∀ d, order.dlookup d = calls.lookup d :=
    fun d => List.perm_dlookup d hnodup horder
  by_cases ht : t = topic
  · subst ht
    refine map_get_eq (fun d => ?_) (fun m hm => ?_) (fun m hm => ?_)
    · have hleft : ((s.table.lookup t).bind fun m => m.lookup d) = s.subscription t d := by
        rw [table, Table.lookup_mapValues, subscription, Option.bind_map]
        rfl
      have hright := x.subscription_applyCalls t order hnodup d
      rw [hlookup d] at hright
      rw [hleft]
      refine Eq.trans ?_ hright.symm
      cases hd : calls.lookup d with
      | some k' => exact h.subscription_finished hfinished hd
      | none => exact (h.uncalled d hd).2
    · rw [table, Table.lookup_mapValues] at hm
      obtain ⟨r, hr, rfl⟩ := Option.map_eq_some_iff.mp hm
      exact h.not_isEmpty hfinished hk hr
    · refine ConnectionsImpl.not_isEmpty_applyCalls t ?_ x hm
      rintro rfl
      rw [← hlookup c] at hk
      cases hk
  · rw [ConnectionsImpl.lookup_applyCalls_ne ht, table, Table.lookup_mapValues, h.others t ht]
    cases hx : x.topicSubscriptions.lookup t with
    | none => rfl
    | some m =>
      show some (Table.get (s.maps (.given t))) = some (Table.get m)
      rw [h.given t ht, ConnectionsImpl.getSubscribers, hx]
      rfl

theorem run_no_calls {trace : List (TopicMaps × ConnectionId)} {s : TopicMaps}
    (h : (runs x topic calls).Run trace s) (hnone : ∀ c, calls.lookup c = none) :
    s = initial x calls := by
  refine System.Run.inv (· = initial x calls) rfl (fun s c s' hs hstep => ?_) h
  subst hs
  have hp : (initial x calls).calls.lookup c = none := by
    rw [initial, Table.lookup_mapValues, hnone c]
    rfl
  rw [show (runs x topic calls).step = step topic from rfl, step, hp] at hstep
  cases hstep

theorem table_initial (x : ConnectionsImpl) (calls : Table ConnectionId SubscriptionCall) (t : Text) :
    (initial x calls).table.lookup t = x.topicSubscriptions.lookup t := by
  rw [table, Table.lookup_mapValues, initial, Table.lookup_mapWithKey]
  cases hx : x.topicSubscriptions.lookup t with
  | none => rfl
  | some m =>
    show some (x.getSubscribers t) = some m
    rw [ConnectionsImpl.getSubscribers, hx]
    rfl

/-- When no step drops an inner map that is in use, the calls side by side do what they do one
after the other, in any order. -/
theorem calls_lose_nothing {trace : List (TopicMaps × ConnectionId)} {s : TopicMaps}
    (h : (runs x topic calls).Run trace s) (hC : ∀ e ∈ trace, DropsUnused topic e.1 e.2) :
    (∀ c, s.calls.lookup c ≠ some .nullPointer) ∧
      (s.Finished →
        (∀ c i, calls.lookup c = some (.add i) → s.subscription topic c = some i) ∧
        (∀ c, calls.lookup c = some .remove → s.subscription topic c = none) ∧
        ∀ order : List ((_ : ConnectionId) × SubscriptionCall), order.Perm calls.entries → ∀ t,
          (s.table.lookup t).map Table.get =
            ((x.applyCalls topic order).topicSubscriptions.lookup t).map Table.get) := by
  have hcons := consistent_run h hC
  refine ⟨hcons.no_nullPointer, fun hfinished => ⟨fun c i hk => hcons.subscription_finished hfinished hk,
    fun c hk => hcons.subscription_finished hfinished hk, fun order horder t => ?_⟩⟩
  by_cases hnone : ∀ c, calls.lookup c = none
  · have hnil : calls.entries = [] := List.isEmpty_iff.mp ((Table.isEmpty_iff calls).mpr hnone)
    rw [hnil] at horder
    obtain rfl := horder.eq_nil
    rw [run_no_calls h hnone, table_initial]
    rfl
  · obtain ⟨c, hc⟩ := not_forall.mp hnone
    obtain ⟨k, hk⟩ := Option.ne_none_iff_exists'.mp hc
    exact hcons.table_eq hfinished hk horder t

/-- A topic with these subscribers. -/
def topicOf (subscribers : List (ConnectionId × Int)) : ConnectionsImpl :=
  { ConnectionsImpl.initial with
    topicSubscriptions := Table.ofPairs [("t".toList, Table.ofPairs subscribers)] }

instance (s : TopicMaps) : Decidable s.Finished :=
  Table.decidableForall s.calls fun _ p => p = .returned ∨ p = .nullPointer

/-- Two connections leave a topic side by side, and a third one comes. -/
theorem calls_lose_nothing_three : ∃ trace s,
    (runs (topicOf [(1, 5), (3, 9)]) "t".toList
      (Table.ofPairs [(1, .remove), (2, .add 7), (3, .remove)])).Run trace s ∧
      s.subscription "t".toList 2 = some 7 ∧ s.subscription "t".toList 1 = none := by
  obtain ⟨trace, s, hr, hp⟩ := System.exists_run
    (M := runs (topicOf [(1, 5), (3, 9)]) "t".toList
      (Table.ofPairs [(1, .remove), (2, .add 7), (3, .remove)]))
    [1, 3, 1, 3, 1, 3, 3, 1, 3, 1, 3, 1, 2, 2, 2]
    (fun trace s => decide ((∀ e ∈ trace, DropsUnused "t".toList e.1 e.2) ∧ s.Finished)) (by decide)
  obtain ⟨hC, hfinished⟩ := of_decide_eq_true hp
  obtain ⟨hadd, hremove, -⟩ := (calls_lose_nothing hr hC).2 hfinished
  exact ⟨trace, s, hr, hadd 2 7 (by decide), hremove 1 (by decide)⟩

/-- Two connections that leave a topic as the last ones, and one that comes when another leaves. -/
theorem call_fails_and_subscription_lost :
    (∃ trace s, (runs (topicOf [(1, 5), (2, 7)]) "t".toList
        (Table.ofPairs [(1, .remove), (2, .remove)])).Run trace s ∧
      s.calls.lookup 2 = some .nullPointer) ∧
    ∃ trace s, (runs (topicOf [(1, 5)]) "t".toList
        (Table.ofPairs [(1, .remove), (2, .add 7)])).Run trace s ∧
      s.Finished ∧ s.subscription "t".toList 2 = none := by
  constructor
  · obtain ⟨trace, s, hr, hp⟩ := System.exists_run
      (M := runs (topicOf [(1, 5), (2, 7)]) "t".toList (Table.ofPairs [(1, .remove), (2, .remove)]))
      [1, 1, 1, 2, 2, 2, 1, 1, 1, 2] (fun _ s => s.calls.lookup 2 = some .nullPointer) (by decide)
    exact ⟨trace, s, hr, of_decide_eq_true hp⟩
  · obtain ⟨trace, s, hr, hp⟩ := System.exists_run
      (M := runs (topicOf [(1, 5)]) "t".toList (Table.ofPairs [(1, .remove), (2, .add 7)]))
      [1, 1, 1, 1, 1, 2, 2, 2, 1]
      (fun _ s => decide (s.Finished ∧ s.subscription "t".toList 2 = none)) (by decide)
    exact ⟨trace, s, hr, of_decide_eq_true hp⟩

end TopicMaps

end Stomp
