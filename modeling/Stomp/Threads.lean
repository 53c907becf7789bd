import Stomp.ServerRun
import Stomp.Handlers

/-!
# Handlers that run side by side

Every connection has one thread in `process` at most. A thread makes one call on the shared
tables at a time, between the calls of the others.
-/

namespace Stomp

open StompMessagingProtocolImpl

/-- A thread in `process`: its frame, and what is left of the handler. -/
structure Task where
  message : StompFrame
  rest : Handler

structure Threads where
  server : Server
  running : ConnectionId → Option Task

inductive ThreadEvent where
  | accept
  | process (c : ConnectionId) (f : StompFrame)
  | call (c : ConnectionId)
  /-- A call of `getSubscribers` whose loop is given these entries: the other threads change the map
  while the iterator goes through it, and any entries are let through. -/
  | iterate (c : ConnectionId) (entries : List ((_ : ConnectionId) × Int))
  | disconnect (c : ConnectionId)

namespace Threads

/-- The thread is not in the middle of a frame. -/
def idle (t : Threads) (c : ConnectionId) : Bool :=
  match t.running c with
  | some ⟨_, .call _ _⟩ => false
  | _ => true

theorem idle_congr {t t' : Threads} {c : ConnectionId} (h : t'.running c = t.running c) :
    t'.idle c = t.idle c := by
  rw [idle, idle, h]

def next (t : Threads) : ThreadEvent → Option Threads
  | .accept => some { t with server := t.server.accept }
  | .process c f =>
    if t.idle c then
      (t.server.sessions.lookup c).map fun p =>
        { t with running := Function.update t.running c (some ⟨f, p.process f⟩) }
    else none
  | .call c =>
    match t.running c with
    | some ⟨f, .call k rest⟩ =>
      let r := Server.answer k (t.server, [])
      some ⟨r.2.1, Function.update t.running c (some ⟨f, rest r.1⟩)⟩
    | _ => none
  | .iterate c entries =>
    match t.running c with
    | some ⟨f, .call (.getSubscribers _) rest⟩ =>
      some { t with running := Function.update t.running c (some ⟨f, rest entries⟩) }
    | _ => none
  | .disconnect c =>
    some { t with server := t.server.setConnections (t.server.connections.disconnect c) }

def runs : System Threads ThreadEvent := ⟨⟨.initial, fun _ => none⟩, next⟩

/-- The call that a step makes, with the thread's connection and frame. -/
def called : Threads × ThreadEvent → Option (ConnectionId × StompFrame × Call)
  | (t, .call c) =>
    match t.running c with
    | some ⟨f, .call k _⟩ => some (c, f, k)
    | _ => none
  | (t, .iterate c _) =>
    match t.running c with
    | some ⟨f, .call (.getSubscribers topic) _⟩ => some (c, f, .getSubscribers topic)
    | _ => none
  | _ => none

def passedToDisconnect : Call → Option ConnectionId
  | .disconnect c => some c
  | _ => none

/-- The connection that a step passes to `Connections.disconnect`. -/
def disconnects : Threads × ThreadEvent → Option ConnectionId
  | (_, .disconnect c) => some c
  | e => (called e).bind fun x => passedToDisconnect x.2.2

theorem session_of_process {t t' : Threads} {c : ConnectionId} {f : StompFrame}
    (hs : t.next (.process c f) = some t') : t.idle c = true ∧ ∃ p,
      t.server.sessions.lookup c = some p ∧
      t' = { t with running := Function.update t.running c (some ⟨f, p.process f⟩) } := by
  simp only [next] at hs
  split at hs
  · next hidle =>
    obtain ⟨p, hp, rfl⟩ := Option.map_eq_some_iff.mp hs
    exact ⟨hidle, p, hp, rfl⟩
  · cases hs

theorem running_of_call {t t' : Threads} {c : ConnectionId} (hs : t.next (.call c) = some t') :
    ∃ f k rest, t.running c = some ⟨f, .call k rest⟩ ∧
      t' = ⟨(Server.answer k (t.server, [])).2.1,
        Function.update t.running c (some ⟨f, rest (Server.answer k (t.server, [])).1⟩)⟩ := by
  simp only [next] at hs
  split at hs
  · next f k rest hrun => exact ⟨f, k, rest, hrun, (Option.some.inj hs).symm⟩
  · cases hs

theorem running_of_iterate {t t' : Threads} {c : ConnectionId}
    {entries : List ((_ : ConnectionId) × Int)} (hs : t.next (.iterate c entries) = some t') :
    ∃ f topic rest, t.running c = some ⟨f, .call (.getSubscribers topic) rest⟩ ∧
      t' = { t with running := Function.update t.running c (some ⟨f, rest entries⟩) } := by
  simp only [next] at hs
  split at hs
  · next f topic rest hrun => exact ⟨f, topic, rest, hrun, (Option.some.inj hs).symm⟩
  · cases hs

theorem next_cases {t t' : Threads} {e : ThreadEvent} (h : t.next e = some t') :
    (e = .accept ∧ t' = { t with server := t.server.accept }) ∨
    (∃ c f p, e = .process c f ∧ t.idle c = true ∧ t.server.sessions.lookup c = some p ∧
      t' = { t with running := Function.update t.running c (some ⟨f, p.process f⟩) }) ∨
    (∃ c f k rest, e = .call c ∧ t.running c = some ⟨f, .call k rest⟩ ∧
      t' = ⟨(Server.answer k (t.server, [])).2.1,
        Function.update t.running c (some ⟨f, rest (Server.answer k (t.server, [])).1⟩)⟩) ∨
    (∃ c f topic rest entries, e = .iterate c entries ∧
      t.running c = some ⟨f, .call (.getSubscribers topic) rest⟩ ∧
      t' = { t with running := Function.update t.running c (some ⟨f, rest entries⟩) }) ∨
    (∃ c, e = .disconnect c ∧
      t' = { t with server := t.server.setConnections (t.server.connections.disconnect c) }) := by
  cases e with
  | accept => exact .inl ⟨rfl, (Option.some.inj h).symm⟩
  | process c f =>
    obtain ⟨hidle, p, hp, rfl⟩ := session_of_process h
    exact .inr (.inl ⟨c, f, p, rfl, hidle, hp, rfl⟩)
  | call c =>
    obtain ⟨f, k, rest, hrun, rfl⟩ := running_of_call h
    exact .inr (.inr (.inl ⟨c, f, k, rest, rfl, hrun, rfl⟩))
  | iterate c entries =>
    obtain ⟨f, topic, rest, hrun, rfl⟩ := running_of_iterate h
    exact .inr (.inr (.inr (.inl ⟨c, f, topic, rest, entries, rfl, hrun, rfl⟩)))
  | disconnect c => exact .inr (.inr (.inr (.inr ⟨c, rfl, (Option.some.inj h).symm⟩)))

/-! ## The entries of a connection -/

/-- The connection that a call enters in a table. -/
def entered (x : ConnectionsImpl) : Call → Option ConnectionId
  | .authenticateUser c u _ => if (x.users.lookup u).isNone then some c else none
  | .addSubscription _ c _ => some c
  | _ => none

/-- The connection that a step enters in a table. -/
def enters : Threads × ThreadEvent → Option ConnectionId
  | (t, .accept) => some (t.server.connectionCounter + 1)
  | e => (called e).bind fun x => entered e.1.server.connections x.2.2

theorem called_call {t : Threads} {c : ConnectionId} {f : StompFrame} {k : Call}
    {rest : Reply k → Handler} (hrun : t.running c = some ⟨f, .call k rest⟩) :
    called (t, .call c) = some (c, f, k) := by
  simp [called, hrun]

theorem disconnects_call {t : Threads} {c : ConnectionId} {f : StompFrame} {k : Call}
    {rest : Reply k → Handler} (hrun : t.running c = some ⟨f, .call k rest⟩) :
    disconnects (t, .call c) = passedToDisconnect k := by
  unfold disconnects
  dsimp only
  rw [called_call hrun]
  rfl

theorem enters_call {t : Threads} {c : ConnectionId} {f : StompFrame} {k : Call}
    {rest : Reply k → Handler} (hrun : t.running c = some ⟨f, .call k rest⟩) :
    enters (t, .call c) = entered t.server.connections k := by
  unfold enters
  dsimp only
  rw [called_call hrun]
  rfl

theorem called_iterate {t : Threads} {c : ConnectionId} {f : StompFrame} {topic : Text}
    {rest : List ((_ : ConnectionId) × Int) → Handler}
    (hrun : t.running c = some ⟨f, .call (.getSubscribers topic) rest⟩)
    (entries : List ((_ : ConnectionId) × Int)) :
    called (t, .iterate c entries) = some (c, f, .getSubscribers topic) := by
  simp [called, hrun]

theorem called_iterate_cases (t : Threads) (c : ConnectionId)
    (entries : List ((_ : ConnectionId) × Int)) : called (t, .iterate c entries) = none ∨
      ∃ f topic, called (t, .iterate c entries) = some (c, f, .getSubscribers topic) := by
  unfold called
  dsimp only
  split
  · exact .inr ⟨_, _, rfl⟩
  · exact .inl rfl

theorem called_own {t : Threads} {e : ThreadEvent} {x : ConnectionId × StompFrame × Call}
    (h : called (t, e) = some x) : e = .call x.1 ∨ ∃ entries, e = .iterate x.1 entries := by
  unfold called at h
  split at h
  · next heq =>
    cases heq
    split at h
    · cases h
      exact .inl rfl
    · cases h
  · next entries heq =>
    cases heq
    split at h
    · cases h
      exact .inr ⟨entries, rfl⟩
    · cases h
  · cases h

theorem running_of_called {t : Threads} {e : ThreadEvent} {c : ConnectionId} {f : StompFrame}
    {k : Call} (h : called (t, e) = some (c, f, k)) (hk : ∀ topic, k ≠ .getSubscribers topic) :
    ∃ rest, e = .call c ∧ t.running c = some ⟨f, .call k rest⟩ := by
  cases e with
  | call d =>
    unfold called at h
    dsimp only at h
    split at h
    · next hrun =>
      cases h
      exact ⟨_, rfl, hrun⟩
    · cases h
  | iterate d entries =>
    obtain hnone | ⟨g, topic, hsome⟩ := called_iterate_cases t d entries
    · cases hnone.symm.trans h
    · cases hsome.symm.trans h
      exact absurd rfl (hk topic)
  | accept | process | disconnect => cases h

theorem disconnects_iterate (t : Threads) (c : ConnectionId)
    (entries : List ((_ : ConnectionId) × Int)) : disconnects (t, .iterate c entries) = none := by
  unfold disconnects
  dsimp only
  obtain h | ⟨f, topic, h⟩ := called_iterate_cases t c entries <;> rw [h] <;> rfl

theorem noTrace_answer {s : Server} {k : Call} {c : ConnectionId} (hn : s.connections.NoTrace c)
    (he : entered s.connections k ≠ some c) :
    (Server.answer k (s, [])).2.1.connections.NoTrace c := by
  cases k with
  | put | send | isUserActive | getSubscribers => exact hn
  | getNextMessageId => exact ⟨hn.unregistered, hn.inactive, hn.unsubscribed⟩
  | disconnect d => exact hn.disconnect d
  | authenticateUser d u w =>
    obtain ⟨h1, h2, -⟩ := s.connections.authenticateUser_fields d u w
    refine ⟨?_, ?_, fun t => ?_⟩
    · show c ∉ (s.connections.authenticateUser d u w).2.activeConnections
      rw [h1]
      exact hn.unregistered
    · show (s.connections.authenticateUser d u w).2.activeUsers.lookup c = none
      unfold ConnectionsImpl.authenticateUser
      cases hu : s.connections.users.lookup u with
      | some stored => exact hn.inactive
      | none =>
        have hdc : c ≠ d := by
          rintro rfl
          exact he (by simp [entered, hu])
        exact (AList.lookup_insert_ne hdc).trans hn.inactive
    · show (s.connections.authenticateUser d u w).2.subscription t c = none
      rw [ConnectionsImpl.subscription, h2]
      exact hn.unsubscribed t
  | addSubscription topic d i =>
    refine ⟨hn.unregistered, hn.inactive, fun t => ?_⟩
    have hdc : c ≠ d := by
      rintro rfl
      exact he rfl
    show (s.connections.addSubscription topic d i).subscription t c = none
    rw [ConnectionsImpl.subscription_addSubscription, if_neg fun h => hdc h.2]
    exact hn.unsubscribed t
  | removeSubscription topic d =>
    obtain ⟨h1, h2, -⟩ := s.connections.removeSubscription_fields topic d
    refine ⟨?_, ?_, fun t => ?_⟩
    · show c ∉ (s.connections.removeSubscription topic d).activeConnections
      rw [h1]
      exact hn.unregistered
    · show (s.connections.removeSubscription topic d).activeUsers.lookup c = none
      rw [h2]
      exact hn.inactive
    · show (s.connections.removeSubscription topic d).subscription t c = none
      rw [ConnectionsImpl.subscription_removeSubscription, hn.unsubscribed t, ite_self]

theorem noTrace_next {t t' : Threads} {e : ThreadEvent} {c : ConnectionId} (hs : t.next e = some t')
    (hn : t.server.connections.NoTrace c) (he : enters (t, e) ≠ some c) :
    t'.server.connections.NoTrace c := by
  obtain ⟨rfl, rfl⟩ | ⟨d, f, p, rfl, -, -, rfl⟩ | ⟨d, f, k, rest, rfl, hrun, rfl⟩ |
    ⟨d, f, topic, rest, entries, rfl, -, rfl⟩ | ⟨d, rfl, rfl⟩ := next_cases hs
  · refine (t.server.untouched_accept ?_).noTrace hn
    rintro rfl
    exact he rfl
  · exact hn
  · exact noTrace_answer hn (enters_call hrun ▸ he)
  · exact hn
  · exact hn.disconnect d

theorem noTrace_of_disconnects {t t' : Threads} {e : ThreadEvent} {c : ConnectionId}
    (hs : t.next e = some t') (hd : disconnects (t, e) = some c) :
    t'.server.connections.NoTrace c := by
  obtain ⟨rfl, rfl⟩ | ⟨d, f, p, rfl, -, -, rfl⟩ | ⟨d, f, k, rest, rfl, hrun, rfl⟩ |
    ⟨d, f, topic, rest, entries, rfl, hrun, rfl⟩ | ⟨d, rfl, rfl⟩ := next_cases hs
  · cases hd
  · cases hd
  · rw [disconnects_call hrun] at hd
    cases k with
    | disconnect d =>
      cases hd
      exact ConnectionsImpl.noTrace_disconnect _ _
    | put | send | authenticateUser | isUserActive | getNextMessageId | addSubscription
    | removeSubscription | getSubscribers => cases hd
  · rw [disconnects_iterate] at hd
    cases hd
  · cases hd
    exact ConnectionsImpl.noTrace_disconnect _ _

/-- Every thread changes the tables for its own connection only. -/
def OwnCalls (t : Threads) : Prop := ∀ c task, t.running c = some task → task.rest.Calls (Own c)

theorem ownCalls_next {t t' : Threads} {e : ThreadEvent} (h : t.OwnCalls) (hs : t.next e = some t') :
    t'.OwnCalls := by
  have hupdate : ∀ c task, task.rest.Calls (Own c) → ∀ d task',
      Function.update t.running c (some task) d = some task' → task'.rest.Calls (Own d) := by
    intro c task hc d task' hd
    by_cases hdc : d = c
    · subst hdc
      rw [Function.update_self] at hd
      cases hd
      exact hc
    · rw [Function.update_of_ne hdc] at hd
      exact h d task' hd
  obtain ⟨rfl, rfl⟩ | ⟨c, f, p, rfl, -, hp, rfl⟩ | ⟨c, f, k, rest, rfl, hrun, rfl⟩ |
    ⟨c, f, topic, rest, entries, rfl, hrun, rfl⟩ | ⟨c, rfl, rfl⟩ := next_cases hs
  · exact h
  · exact hupdate c _ (t.server.ids c p hp ▸ process_own p f)
  · exact hupdate c _ ((h c _ hrun).2 _)
  · exact hupdate c _ ((h c _ hrun).2 _)
  · exact h

theorem OwnCalls.enters {t : Threads} (h : t.OwnCalls) {c d : ConnectionId}
    (he : enters (t, .call c) = some d) : d = c := by
  obtain ⟨⟨c', f, k⟩, hcalled, hd⟩ := Option.bind_eq_some_iff.mp he
  unfold called at hcalled
  dsimp only at hcalled
  split at hcalled
  · next f' k' rest hrun =>
    cases hcalled
    have hown := (h c _ hrun).1
    cases k with
    | authenticateUser e u w =>
      simp only [entered] at hd
      split at hd
      · cases hd
        exact hown
      · cases hd
    | addSubscription topic e i =>
      cases hd
      exact hown
    | put | send | disconnect | isUserActive | getNextMessageId | removeSubscription
    | getSubscribers => cases hd
  · cases hcalled

end Threads

end Stomp
