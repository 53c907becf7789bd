import Stomp.ServerRun
import Stomp.Base.Paired

/-!
# The two subscription tables

A session maps its ids to topics, and the shared table maps each topic to one id of the
session. Where a client uses ids and topics as it likes, the two can part.
-/

namespace Stomp

open StompMessagingProtocolImpl

namespace Server

/-- The ids under which the shared table holds a connection. -/
def topicsOf (x : ConnectionsImpl) (c : ConnectionId) (t : Text) : Option Int := x.subscription t c

theorem topicsOf_addSubscription (x : ConnectionsImpl) (t : Text) (c : ConnectionId) (i : Int) :
    topicsOf (x.addSubscription t c i) c = Function.update (topicsOf x c) t (some i) := by
  funext t'
  by_cases h : t' = t
  · subst h
    simp [topicsOf, ConnectionsImpl.subscription_addSubscription]
  · simp [topicsOf, ConnectionsImpl.subscription_addSubscription, h]

theorem topicsOf_removeSubscription (x : ConnectionsImpl) (t : Text) (c : ConnectionId) :
    topicsOf (x.removeSubscription t c) c = Function.update (topicsOf x c) t none := by
  funext t'
  by_cases h : t' = t
  · subst h
    simp [topicsOf, ConnectionsImpl.subscription_removeSubscription]
  · simp [topicsOf, ConnectionsImpl.subscription_removeSubscription, h]

/-- A connection that is registered and whose session is not terminated. -/
structure Live (s : Server) (c : ConnectionId) (p : Session) : Prop where
  session : s.sessions.lookup c = some p
  registered : c ∈ s.connections.activeConnections
  open_ : p.shouldTerminate = false

/-- The two tables agree for every live connection. -/
def TablesAgree (s : Server) : Prop :=
  ∀ c p, s.Live c p → Paired.InStep (Table.get p.clientSubscriptions) (topicsOf s.connections c)

/-- The step is no SUBSCRIBE that takes an id from the topic whose entry holds it, and no
UNSUBSCRIBE of a topic that the session holds under a second id. -/
def KeepsTables (s : Server) : ServerEvent → Prop
  | .frame c f => ∀ p, s.Live c p →
    (∀ t i, Subscribes p f t i → ∀ t', p.clientSubscriptions.lookup i = some t' → t' ≠ t →
      s.connections.subscription t' c ≠ some i) ∧
    ∀ t i, Unsubscribes p f t i → ∀ j, p.clientSubscriptions.lookup j = some t → j = i
  | _ => True

/-! ## One frame -/

theorem Subscribes.unique {p : Session} {f : StompFrame} {t t' : Text} {i i' : Int}
    (h : Subscribes p f t i) (h' : Subscribes p f t' i') : t' = t ∧ i' = i :=
  ⟨Option.some.inj (h'.destination.symm.trans h.destination),
    Option.some.inj (h'.id_eq.symm.trans h.id_eq)⟩

theorem Unsubscribes.unique {p : Session} {f : StompFrame} {t t' : Text} {i i' : Int}
    (h : Unsubscribes p f t i) (h' : Unsubscribes p f t' i') : t' = t ∧ i' = i := by
  have hi : i' = i := Option.some.inj (h'.id_eq.symm.trans h.id_eq)
  exact ⟨Option.some.inj (h'.held.symm.trans (hi ▸ h.held)), hi⟩

theorem keeps_of_command {p : Session} {f : StompFrame} {P : Text → Int → Prop}
    {Q : Text → Int → Prop} (hs : f.command ≠ "SUBSCRIBE".toList)
    (hu : f.command ≠ "UNSUBSCRIBE".toList) :
    (∀ t i, Subscribes p f t i → P t i) ∧ ∀ t i, Unsubscribes p f t i → Q t i :=
  ⟨fun _ _ h => absurd h.command hs, fun _ _ h => absurd h.command hu⟩

theorem live_setSession {s : Server} {p q : Session} :
    (s.setSession p).Live p.connectionId q ↔
      q = p ∧ p.connectionId ∈ s.connections.activeConnections ∧ p.shouldTerminate = false := by
  constructor
  · rintro ⟨hs, hr, ho⟩
    rw [lookup_setSession, if_pos rfl] at hs
    cases hs
    exact ⟨rfl, hr, ho⟩
  · rintro ⟨rfl, hr, ho⟩
    exact ⟨by rw [lookup_setSession, if_pos rfl], hr, ho⟩

theorem agree_step_self {s s' : Server} {p : Session} {f : StompFrame} {out : List Sent}
    (ho : Outcome s p f (s', out)) (hlive : s.Live p.connectionId p)
    (h : Paired.InStep (Table.get p.clientSubscriptions) (topicsOf s.connections p.connectionId)) :
    (∀ q, s'.Live p.connectionId q →
      Paired.InStep (Table.get q.clientSubscriptions) (topicsOf s'.connections p.connectionId)) ↔
    (∀ t i, Subscribes p f t i → ∀ t', p.clientSubscriptions.lookup i = some t' → t' ≠ t →
      s.connections.subscription t' p.connectionId ≠ some i) ∧
    ∀ t i, Unsubscribes p f t i → ∀ j, p.clientSubscriptions.lookup j = some t → j = i := by
  cases ho with
  | refused reason hno =>
    refine iff_of_true (fun q hq => ?_) ⟨fun t i hs => absurd (.subscribe hs) hno,
      fun t i hu => absurd (.unsubscribe hu) hno⟩
    obtain ⟨rfl, -, hopen⟩ := live_setSession.mp hq
    cases hopen
  | @connect login passcode hc =>
    obtain ⟨-, htopics, -⟩ := s.connections.authenticateUser_fields p.connectionId login passcode
    refine iff_of_true (fun q hq => ?_) (keeps_of_command (by rw [hc.command]; decide)
      (by rw [hc.command]; decide))
    obtain ⟨rfl, -, -⟩ := live_setSession.mp hq
    have : topicsOf (s.connections.authenticateUser p.connectionId login passcode).2 p.connectionId =
        topicsOf s.connections p.connectionId := by
      funext t
      simp [topicsOf, ConnectionsImpl.subscription, htopics]
    simpa [this] using h
  | @subscribe t i hs =>
    have hput := Paired.inStep_put_iff h i t
    rw [← Table.get_insert, ← topicsOf_addSubscription] at hput
    constructor
    · intro hall
      refine ⟨fun t' i' hs' => ?_, fun t' i' hu => ?_⟩
      · obtain ⟨rfl, rfl⟩ := hs.unique hs'
        exact hput.mp (hall _ (live_setSession.mpr ⟨rfl, hlive.registered, hlive.open_⟩))
      · exact absurd (hs.command.symm.trans hu.command) (by decide)
    · intro hkeep q hq
      obtain ⟨rfl, -, -⟩ := live_setSession.mp hq
      exact hput.mpr (hkeep.1 t i hs)
  | @unsubscribe t i hu =>
    have hdrop := Paired.inStep_drop_iff h i t hu.held
    rw [← Table.get_erase, ← topicsOf_removeSubscription] at hdrop
    have hreg := (s.connections.removeSubscription_fields t p.connectionId).1
    constructor
    · intro hall
      refine ⟨fun t' i' hs => ?_, fun t' i' hu' => ?_⟩
      · exact absurd (hs.command.symm.trans hu.command) (by decide)
      · obtain ⟨rfl, rfl⟩ := hu.unique hu'
        refine hdrop.mp (hall _ (live_setSession.mpr ⟨rfl, ?_, hlive.open_⟩))
        rw [connections_setConnections, hreg]
        exact hlive.registered
    · intro hkeep q hq
      obtain ⟨rfl, -, -⟩ := live_setSession.mp hq
      exact hdrop.mpr (hkeep.2 t i hu)
  | send hs =>
    refine iff_of_true (fun q hq => ?_) (keeps_of_command (by rw [hs.command]; decide)
      (by rw [hs.command]; decide))
    have : q = p := Option.some.inj (hq.session.symm.trans hlive.session)
    subst this
    exact h
  | disconnect hd =>
    refine iff_of_true (fun q hq => ?_) (keeps_of_command (by rw [hd.command]; decide)
      (by rw [hd.command]; decide))
    obtain ⟨rfl, -, hopen⟩ := live_setSession.mp hq
    cases hopen

theorem Untouched.live_iff {d : ConnectionId} {s s' : Server} (h : Untouched d s s') (q : Session) :
    s'.Live d q ↔ s.Live d q := by
  constructor
  · rintro ⟨hs, hr, ho⟩
    exact ⟨h.session ▸ hs, h.registered.mp hr, ho⟩
  · rintro ⟨hs, hr, ho⟩
    exact ⟨h.session.trans hs, h.registered.mpr hr, ho⟩

theorem Untouched.topicsOf {d : ConnectionId} {s s' : Server} (h : Untouched d s s') :
    topicsOf s'.connections d = topicsOf s.connections d := funext h.subscribed

theorem Outcome.live_back {s s' : Server} {p q : Session} {f : StompFrame} {out : List Sent}
    (ho : Outcome s p f (s', out)) (hp : s.sessions.lookup p.connectionId = some p)
    (hq : s'.Live p.connectionId q) : s.Live p.connectionId p := by
  cases ho with
  | refused reason hno =>
    obtain ⟨rfl, -, hopen⟩ := live_setSession.mp hq
    cases hopen
  | @connect login passcode hc =>
    obtain ⟨rfl, hr, hopen⟩ := live_setSession.mp hq
    rw [connections_setConnections,
      (s.connections.authenticateUser_fields p.connectionId login passcode).1] at hr
    exact ⟨hp, hr, hopen⟩
  | subscribe hs =>
    obtain ⟨rfl, hr, hopen⟩ := live_setSession.mp hq
    exact ⟨hp, hr, hopen⟩
  | @unsubscribe t i hu =>
    obtain ⟨rfl, hr, hopen⟩ := live_setSession.mp hq
    rw [connections_setConnections,
      (s.connections.removeSubscription_fields t p.connectionId).1] at hr
    exact ⟨hp, hr, hopen⟩
  | send hs =>
    have : q = p := Option.some.inj (hq.session.symm.trans hp)
    subst this
    exact ⟨hp, hq.registered, hq.open_⟩
  | disconnect hd =>
    obtain ⟨rfl, -, hopen⟩ := live_setSession.mp hq
    cases hopen

/-! ## One step and whole runs -/

theorem tablesAgree_step {s s' : Server} {e : ServerEvent} (hf : s.IdsFresh) (h : s.TablesAgree)
    (hn : s.next e = some s') : s'.TablesAgree ↔ s.KeepsTables e := by
  obtain ⟨rfl, rfl⟩ | ⟨c, f, p, out, rfl, hp, rfl, -, ho⟩ | ⟨c, rfl, rfl⟩ := next_cases hn
  · refine iff_of_true (fun d q hq => ?_) trivial
    by_cases hd : d = s.connectionCounter + 1
    · subst hd
      have : q = start (s.connectionCounter + 1) :=
        Option.some.inj (hq.session.symm.trans s.lookup_accept)
      subst this
      have hnone := (hf _ (Nat.lt_succ_self _)).2.unsubscribed
      have hempty : topicsOf s.accept.connections (s.connectionCounter + 1) = fun _ => none :=
        funext hnone
      rw [hempty]
      exact Paired.inverse_empty.inStep
    · have hu := s.untouched_accept hd
      rw [hu.topicsOf]
      exact h d q ((hu.live_iff q).mp hq)
  · have hother : ∀ d q, d ≠ p.connectionId → s'.Live d q →
        Paired.InStep (Table.get q.clientSubscriptions) (topicsOf s'.connections d) := by
      intro d q hd hq
      have hu := ho.untouched hd
      rw [hu.topicsOf]
      exact h d q ((hu.live_iff q).mp hq)
    by_cases hlive : s.Live p.connectionId p
    · have hself := agree_step_self ho hlive (h _ _ hlive)
      constructor
      · intro hall q hq
        have : q = p := Option.some.inj (hq.session.symm.trans hp)
        subst this
        exact hself.mp fun q' => hall _ q'
      · intro hkeep d q hq
        by_cases hd : d = p.connectionId
        · subst hd
          exact hself.mpr (hkeep p hlive) q hq
        · exact hother d q hd hq
    · refine iff_of_true (fun d q hq => ?_) (fun q hq => ?_)
      · by_cases hd : d = p.connectionId
        · subst hd
          exact absurd (ho.live_back hp hq) hlive
        · exact hother d q hd hq
      · have : q = p := Option.some.inj (hq.session.symm.trans hp)
        exact absurd (this ▸ hq) hlive
  · refine iff_of_true (fun d q hq => ?_) trivial
    by_cases hd : d = c
    · subst hd
      have := hq.registered
      simp [ConnectionsImpl.disconnect] at this
    · have hu := s.untouched_disconnect hd
      rw [hu.topicsOf]
      exact h d q ((hu.live_iff q).mp hq)

/-- The tables agree in every state of a run exactly when every step of it keeps them. -/
theorem tables_agree_iff {trace : List (Server × ServerEvent)} {s : Server}
    (h : runs.Run trace s) :
    ((∀ e ∈ trace, e.1.TablesAgree) ∧ s.TablesAgree) ↔ ∀ e ∈ trace, e.1.KeepsTables e.2 :=
  System.Run.all_iff IdsFresh TablesAgree KeepsTables idsFresh_initial
    (fun _ _ _ => idsFresh_step) (fun _ _ hq => by cases hq.session)
    (fun _ _ _ => tablesAgree_step) h

theorem tables_agree_subscribed : ∃ trace s, runs.Run trace s ∧
    s.connections.subscription "t".toList 1 = some 7 ∧
    (((∀ e ∈ trace, e.1.TablesAgree) ∧ s.TablesAgree) ↔ ∀ e ∈ trace, e.1.KeepsTables e.2) := by
  obtain ⟨trace, s, hr, hs⟩ := System.exists_run (M := runs)
    [.accept, .frame 1 (connectFrame "u" "p"), .frame 1 (subscribeFrame "t" "7")]
    (fun _ s => decide (s.connections.subscription "t".toList 1 = some 7)) (by decide)
  exact ⟨trace, s, hr, of_decide_eq_true hs, tables_agree_iff hr⟩

/-- A client holds a topic under two ids and gives up one of them. -/
def secondIdRun : List ServerEvent :=
  [.accept, .frame 1 (connectFrame "u" "p"), .frame 1 (subscribeFrame "t" "1"),
    .frame 1 (subscribeFrame "t" "2"), .frame 1 (unsubscribeFrame "2")]

/-- It may still send to the topic, but receives nothing from it. -/
theorem tables_part : ∃ trace s, runs.Run trace s ∧ ¬ TablesAgree s := by
  obtain ⟨trace, s, hr, hs⟩ := System.exists_run (M := runs) secondIdRun
    (fun _ s => decide (1 ∈ s.connections.activeConnections) &&
      (s.connections.subscription "t".toList 1).isNone &&
      (s.sessions.lookup 1).any fun p : Session => !p.shouldTerminate &&
        decide (p.clientSubscriptions.lookup 1 = some "t".toList)) (by decide)
  simp only [Bool.and_eq_true, decide_eq_true_eq, Option.isNone_iff_eq_none, Option.any_eq_true,
    Bool.not_eq_true'] at hs
  obtain ⟨⟨hreg, hnone⟩, p, hp, hopen, hheld⟩ := hs
  refine ⟨trace, s, hr, fun hagree => ?_⟩
  have := (hagree 1 p ⟨hp, hreg, hopen⟩ "t".toList).1.mpr ⟨1, hheld⟩
  rw [topicsOf, hnone] at this
  cases this

end Server

end Stomp
