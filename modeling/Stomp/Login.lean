import Stomp.Threads

/-!
# One session for one user

`isUserActive` looks into `activeUsers`, and only the branch of `authenticateUser` for a new user
writes there. A user who is known already comes in by the other branch.
-/

namespace Stomp

open StompMessagingProtocolImpl

namespace Threads

/-- The connection and the login of a CONNECTED that a step hands to a registered connection. -/
def answers (e : Threads × ThreadEvent) : Option (ConnectionId × Text) :=
  match called e with
  | some (_, f, .send c msg) =>
    if msg.command = "CONNECTED".toList ∧ e.1.server.connections.isRegistered c = true then
      (f.getHeader "login".toList).map fun login => (c, login)
    else none
  | _ => none

/-- The connection and the login of a call of `authenticateUser` that finds the user and the right
password, and does not enter `activeUsers`. -/
def logsInAgain (e : Threads × ThreadEvent) : Option (ConnectionId × Text) :=
  match called e with
  | some (_, _, .authenticateUser c u w) =>
    if e.1.server.connections.users.lookup u = some w then some (c, u) else none
  | _ => none

/-- Answered CONNECTED for a login, and not passed to `disconnect` since. -/
def LoggedIn (c : ConnectionId) (u : Text) (trace : List (Threads × ThreadEvent)) : Prop :=
  Since (fun e => answers e = some (c, u)) (fun e => disconnects e = some c) trace

def LoggedInAgain (c : ConnectionId) (u : Text) (trace : List (Threads × ThreadEvent)) : Prop :=
  Since (fun e => logsInAgain e = some (c, u)) (fun e => disconnects e = some c) trace

instance (c : ConnectionId) (u : Text) (trace : List (Threads × ThreadEvent)) :
    Decidable (LoggedIn c u trace) := inferInstanceAs (Decidable (Since _ _ trace))

def OneSession (trace : List (Threads × ThreadEvent)) : Prop :=
  ∀ c d u, LoggedIn c u trace → LoggedIn d u trace → c = d

/-- A known user comes in only when `activeUsers` does not have the user and no connection that came
in the same way is left. -/
def Alone (pre : List (Threads × ThreadEvent)) (e : Threads × ThreadEvent) : Prop :=
  ∀ c u, logsInAgain e = some (c, u) →
    e.1.server.connections.isUserActive u = false ∧ ∀ d, ¬ LoggedInAgain d u pre

/-! ## The calls of a login -/

/-- No call of a login: `connected` stays, and no CONNECTED is sent. -/
def Quiet (p : Session) : Call → Prop
  | .put q => q.connectionId = p.connectionId ∧ q.connected = p.connected
  | .send _ msg => msg.command ≠ "CONNECTED".toList
  | .authenticateUser _ _ _ => False
  | _ => True

theorem quiet_permits (p : Session) (f : StompFrame) : Permits (Quiet p) p f where
  put _ hid hcon := ⟨hid, hcon⟩
  sendError reason receiptId := by
    show "ERROR".toList ≠ _
    decide
  sendReceipt r := by
    show "RECEIPT".toList ≠ _
    decide
  sendMessage d topic i m body := by
    show "MESSAGE".toList ≠ _
    decide
  disconnect := trivial
  isUserActive _ := trivial
  getNextMessageId := trivial
  addSubscription _ _ := trivial
  removeSubscription _ := trivial
  getSubscribers _ := trivial

/-! ## What a run keeps -/

/-- A login counts for a connection: `activeUsers` has it, or the connection came in again. -/
def Holds (trace : List (Threads × ThreadEvent)) (t : Threads) (c : ConnectionId) (u : Text) : Prop :=
  t.server.connections.activeUsers.lookup c = some u ∨ LoggedInAgain c u trace

/-- Where a session stands, with `unused` for no login so far and `held` for the login that counts. -/
inductive Stage (p : Session) (unused : Prop) (held : Text → Prop) : Option Task → Prop
  | none (h : p.connected = false → unused) : Stage p unused held none
  | quiet {f rest} (h : p.connected = false → unused) (hq : rest.Calls (Quiet p)) :
    Stage p unused held (some ⟨f, rest⟩)
  | check {f u w rest} (h : unused) (hu : f.getHeader "login".toList = some u)
    (heq : rest = checkActive p f u w) : Stage p unused held (some ⟨f, rest⟩)
  | authenticate {f u w rest} (h : unused) (hu : f.getHeader "login".toList = some u)
    (heq : rest = authenticate p f u w) : Stage p unused held (some ⟨f, rest⟩)
  | connect {f u rest} (hu : f.getHeader "login".toList = some u) (h : held u)
    (heq : rest = connect p f) : Stage p unused held (some ⟨f, rest⟩)
  | welcome {f u rest} (hc : p.connected = true) (hu : f.getHeader "login".toList = some u)
    (h : held u) (heq : rest = welcome p f) : Stage p unused held (some ⟨f, rest⟩)

theorem Stage.mono {p : Session} {unused unused' : Prop} {held held' : Text → Prop}
    {o : Option Task} (h : Stage p unused held o) (h1 : unused → unused')
    (h2 : ∀ u, held u → held' u) : Stage p unused' held' o := by
  cases h with
  | none h => exact .none fun hc => h1 (h hc)
  | quiet h hq => exact .quiet (fun hc => h1 (h hc)) hq
  | check h hu heq => exact .check (h1 h) hu heq
  | authenticate h hu heq => exact .authenticate (h1 h) hu heq
  | connect hu h heq => exact .connect hu (h2 _ h) heq
  | welcome hc hu h heq => exact .welcome hc hu (h2 _ h) heq

theorem Stage.of_idle {p : Session} {unused : Prop} {held : Text → Prop} {t : Threads}
    {c : ConnectionId} (h : Stage p unused held (t.running c)) (hi : t.idle c = true) :
    p.connected = false → unused := by
  unfold idle at hi
  revert h hi
  generalize t.running c = o
  intro h hi
  cases h with
  | none h => exact h
  | quiet h _ => exact h
  | check _ _ heq => rw [heq] at hi; cases hi
  | authenticate _ _ heq => rw [heq] at hi; cases hi
  | connect _ _ heq => rw [heq] at hi; cases hi
  | welcome _ _ _ heq => rw [heq] at hi; cases hi

structure Logins (trace : List (Threads × ThreadEvent)) (t : Threads) : Prop where
  fresh : ∀ c, t.server.connectionCounter < c → t.server.sessions.lookup c = none ∧
    t.running c = none ∧ c ∉ t.server.connections.activeConnections ∧ ∀ u, ¬ Holds trace t c u
  started : ∀ c, (t.running c).isSome → (t.server.sessions.lookup c).isSome
  one : ∀ c d u, Holds trace t c u → Holds trace t d u → c = d
  known : ∀ c u, Holds trace t c u → (t.server.connections.users.lookup u).isSome
  answered : ∀ c u, LoggedIn c u trace → Holds trace t c u
  stage : ∀ c p, t.server.sessions.lookup c = some p → Stage p (∀ u, ¬ Holds trace t c u)
    (fun u => c ∈ t.server.connections.activeConnections → Holds trace t c u) (t.running c)

theorem logins_initial : Logins [] runs.init where
  fresh c _ := ⟨rfl, rfl, by simp [runs, Server.initial, ConnectionsImpl.initial], fun u h => by
    rcases h with h | h
    · cases h
    · exact h⟩
  started c h := by cases h
  one c d u h := by
    rcases h with h | h
    · cases h
    · exact h.elim
  known c u h := by
    rcases h with h | h
    · cases h
    · exact h.elim
  answered c u h := h.elim
  stage c p h := by cases h

/-! ## One step -/

theorem holds_snoc {trace : List (Threads × ThreadEvent)} {e : Threads × ThreadEvent} {t' : Threads}
    (c : ConnectionId) (u : Text) : Holds (trace ++ [e]) t' c u ↔
      t'.server.connections.activeUsers.lookup c = some u ∨ logsInAgain e = some (c, u) ∨
        (LoggedInAgain c u trace ∧ disconnects e ≠ some c) := by
  rw [Holds, LoggedInAgain, since_snoc]
  rfl

theorem loggedIn_snoc {trace : List (Threads × ThreadEvent)} {e : Threads × ThreadEvent}
    (c : ConnectionId) (u : Text) : LoggedIn c u (trace ++ [e]) ↔
      answers e = some (c, u) ∨ (LoggedIn c u trace ∧ disconnects e ≠ some c) := since_snoc _ _ _ _

theorem Logins.keep {trace : List (Threads × ThreadEvent)} {t t' : Threads} {e : ThreadEvent}
    (h : Logins trace t) (hg : logsInAgain (t, e) = none) (hd : disconnects (t, e) = none)
    (hans : ∀ c u, answers (t, e) = some (c, u) → Holds trace t c u)
    (hactive : t'.server.connections.activeUsers = t.server.connections.activeUsers)
    (husers : t'.server.connections.users = t.server.connections.users)
    (hfresh : ∀ c, t'.server.connectionCounter < c → t.server.connectionCounter < c ∧
      t'.server.sessions.lookup c = none ∧ t'.running c = none ∧
      c ∉ t'.server.connections.activeConnections)
    (hstarted : ∀ c, (t'.running c).isSome → (t'.server.sessions.lookup c).isSome)
    (hstage : ∀ c p, t'.server.sessions.lookup c = some p → Stage p (∀ u, ¬ Holds trace t c u)
      (fun u => c ∈ t'.server.connections.activeConnections → Holds trace t c u) (t'.running c)) :
    Logins (trace ++ [(t, e)]) t' := by
  have hholds : ∀ c u, Holds (trace ++ [(t, e)]) t' c u ↔ Holds trace t c u := by
    intro c u
    rw [holds_snoc, hactive, hg, hd]
    simp [Holds]
  refine ⟨fun c hc => ?_, hstarted, ?_, ?_, fun c u hl => ?_, ?_⟩
  · obtain ⟨hlt, h1, h2, h3⟩ := hfresh c hc
    simp only [hholds]
    exact ⟨h1, h2, h3, (h.fresh c hlt).2.2.2⟩
  · simp only [hholds]
    exact h.one
  · simp only [hholds, husers]
    exact h.known
  · rw [hholds]
    rcases (loggedIn_snoc c u).mp hl with hl | ⟨hl, -⟩
    · exact hans c u hl
    · exact h.answered c u hl
  · simp only [hholds]
    exact hstage

theorem Logins.accept {trace : List (Threads × ThreadEvent)} {t : Threads} (h : Logins trace t) :
    Logins (trace ++ [(t, .accept)]) { t with server := t.server.accept } := by
  refine h.keep rfl rfl (fun c u hl => by cases hl) rfl rfl (fun c hc => ?_) (fun c hc => ?_)
    fun c p hp => ?_
  · have hlt : t.server.connectionCounter + 1 < c := hc
    have hu := t.server.untouched_accept (Nat.ne_of_gt hlt)
    obtain ⟨h1, h2, h3, -⟩ := h.fresh c (Nat.lt_of_succ_lt hlt)
    exact ⟨Nat.lt_of_succ_lt hlt, hu.session.trans h1, h2, fun hr => h3 (hu.registered.mp hr)⟩
  · by_cases heq : c = t.server.connectionCounter + 1
    · rw [heq, Server.lookup_accept]
      rfl
    · rw [(t.server.untouched_accept heq).session]
      exact h.started c hc
  · by_cases heq : c = t.server.connectionCounter + 1
    · obtain ⟨-, hrun, -, hno⟩ := h.fresh c (by rw [heq]; exact Nat.lt_succ_self _)
      show Stage p _ _ (t.running c)
      rw [hrun]
      exact .none fun _ => hno
    · have hu := t.server.untouched_accept heq
      exact (h.stage c p (hu.session.symm.trans hp)).mono (fun hno => hno)
        fun u hheld hr => hheld (hu.registered.mp hr)

theorem Logins.process {trace : List (Threads × ThreadEvent)} {t : Threads} {c : ConnectionId}
    {f : StompFrame} {p : Session} (h : Logins trace t) (hi : t.idle c = true)
    (hp : t.server.sessions.lookup c = some p) : Logins (trace ++ [(t, .process c f)])
      { t with running := Function.update t.running c (some ⟨f, p.process f⟩) } := by
  refine h.keep rfl rfl (fun c u hl => by cases hl) rfl rfl (fun d hd => ?_) (fun d hd => ?_)
    fun d q hq => ?_
  all_goals dsimp only at *
  · obtain ⟨h1, h2, h3, -⟩ := h.fresh d hd
    have hne : d ≠ c := by
      rintro rfl
      rw [h1] at hp
      cases hp
    exact ⟨hd, h1, (Function.update_of_ne hne _ _).trans h2, h3⟩
  · by_cases hdc : d = c
    · rw [hdc, hp]
      rfl
    · exact h.started d (by rwa [Function.update_of_ne hdc] at hd)
  · by_cases hdc : d = c
    · subst hdc
      cases hp.symm.trans hq
      have hun := (h.stage d p hp).of_idle hi
      rw [Function.update_self]
      obtain hquiet | ⟨hc, login, passcode, hlogin, heq⟩ := (quiet_permits p f).process_cases
      · exact .quiet hun hquiet
      · exact .check (hun hc) hlogin heq
    · rw [Function.update_of_ne hdc]
      exact h.stage d q hq

theorem Stage.iterate {p : Session} {unused : Prop} {held : Text → Prop} {f : StompFrame}
    {topic : Text} {rest : List ((_ : ConnectionId) × Int) → Handler}
    (h : Stage p unused held (some ⟨f, .call (.getSubscribers topic) rest⟩))
    (entries : List ((_ : ConnectionId) × Int)) : Stage p unused held (some ⟨f, rest entries⟩) := by
  cases h with
  | quiet hun hq => exact .quiet hun (hq.2 entries)
  | check _ _ heq | authenticate _ _ heq | connect _ _ heq | welcome _ _ _ heq => cases heq

theorem Logins.iterate {trace : List (Threads × ThreadEvent)} {t : Threads} {c : ConnectionId}
    {f : StompFrame} {topic : Text} {rest : List ((_ : ConnectionId) × Int) → Handler}
    (h : Logins trace t) (hrun : t.running c = some ⟨f, .call (.getSubscribers topic) rest⟩)
    (entries : List ((_ : ConnectionId) × Int)) : Logins (trace ++ [(t, .iterate c entries)])
      { t with running := Function.update t.running c (some ⟨f, rest entries⟩) } := by
  have hcalled := called_iterate hrun entries
  have hg : logsInAgain (t, .iterate c entries) = none := by
    unfold logsInAgain
    rw [hcalled]
  have hnone : answers (t, .iterate c entries) = none := by
    unfold answers
    rw [hcalled]
  refine h.keep hg (disconnects_iterate t c entries) (fun d u hl => by rw [hnone] at hl; cases hl) rfl rfl
    (fun d hlt => ?_) (fun d hr => ?_) fun d q hq => ?_
  all_goals dsimp only at *
  · obtain ⟨h1, h2, h3, -⟩ := h.fresh d hlt
    have hne : d ≠ c := by
      rintro rfl
      rw [h2] at hrun
      cases hrun
    exact ⟨hlt, h1, (Function.update_of_ne hne _ _).trans h2, h3⟩
  · by_cases hdc : d = c
    · exact h.started d (by rw [hdc, hrun]; rfl)
    · exact h.started d (by rwa [Function.update_of_ne hdc] at hr)
  · by_cases hdc : d = c
    · subst hdc
      have hstage := h.stage d q hq
      rw [hrun] at hstage
      rw [Function.update_self]
      exact hstage.iterate entries
    · rw [Function.update_of_ne hdc]
      exact h.stage d q hq

theorem Logins.call {trace : List (Threads × ThreadEvent)} {t : Threads} {c : ConnectionId}
    {f : StompFrame} {q : Session} {s' : Server} {rest : Handler} (h : Logins trace t)
    (hp : (t.server.sessions.lookup c).isSome) (hg : logsInAgain (t, .call c) = none)
    (hd : disconnects (t, .call c) = none)
    (hans : ∀ d u, answers (t, .call c) = some (d, u) → Holds trace t d u)
    (hregistered : s'.connections.activeConnections = t.server.connections.activeConnections)
    (hactive : s'.connections.activeUsers = t.server.connections.activeUsers)
    (husers : s'.connections.users = t.server.connections.users)
    (hcounter : s'.connectionCounter = t.server.connectionCounter)
    (hsessions : ∀ d, s'.sessions.lookup d = if d = c then some q else t.server.sessions.lookup d)
    (hstage : Stage q (∀ u, ¬ Holds trace t c u)
      (fun u => c ∈ t.server.connections.activeConnections → Holds trace t c u) (some ⟨f, rest⟩)) :
    Logins (trace ++ [(t, .call c)]) ⟨s', Function.update t.running c (some ⟨f, rest⟩)⟩ := by
  refine h.keep hg hd hans hactive husers (fun d hlt => ?_) (fun d hr => ?_) fun d q' hq => ?_
  all_goals dsimp only at *
  · rw [hcounter] at hlt
    obtain ⟨h1, h2, h3, -⟩ := h.fresh d hlt
    have hne : d ≠ c := by
      rintro rfl
      rw [h1] at hp
      cases hp
    exact ⟨hlt, by rw [hsessions, if_neg hne, h1], (Function.update_of_ne hne _ _).trans h2,
      hregistered ▸ h3⟩
  · rw [hsessions]
    by_cases hdc : d = c
    · rw [if_pos hdc]
      rfl
    · rw [if_neg hdc]
      exact h.started d (by rwa [Function.update_of_ne hdc] at hr)
  · rw [hsessions] at hq
    rw [hregistered]
    by_cases hdc : d = c
    · subst hdc
      rw [if_pos rfl] at hq
      cases hq
      rwa [Function.update_self]
    · rw [if_neg hdc] at hq
      rw [Function.update_of_ne hdc]
      exact h.stage d q' hq

theorem Logins.drop {trace : List (Threads × ThreadEvent)} {t t' : Threads} {e : ThreadEvent}
    {c : ConnectionId} (h : Logins trace t) (hg : logsInAgain (t, e) = none)
    (hd : disconnects (t, e) = some c) (hans : answers (t, e) = none)
    (hserver : t'.server = t.server.setConnections (t.server.connections.disconnect c))
    (hfresh : ∀ d, t.running d = none → t.server.connectionCounter < d → t'.running d = none)
    (hstarted : ∀ d, (t'.running d).isSome → (t.server.sessions.lookup d).isSome)
    (hstage : ∀ d p, t.server.sessions.lookup d = some p → Stage p (∀ u, ¬ Holds trace t d u)
      (fun u => d ∈ t.server.connections.activeConnections → Holds trace t d u) (t'.running d)) :
    Logins (trace ++ [(t, e)]) t' := by
  have hholds : ∀ d u, Holds (trace ++ [(t, e)]) t' d u ↔ Holds trace t d u ∧ d ≠ c := by
    intro d u
    rw [holds_snoc, hserver, hg, hd]
    by_cases hdc : d = c
    · subst hdc
      simp [ConnectionsImpl.disconnect]
    · simp [ConnectionsImpl.disconnect, AList.lookup_erase_ne hdc, hdc, Ne.symm hdc, Holds]
  refine ⟨fun d hlt => ?_, fun d hr => ?_, fun d d' u h1 h2 => ?_, fun d u h1 => ?_, fun d u hl => ?_,
    fun d p hp => ?_⟩
  · rw [hserver] at hlt
    obtain ⟨h1, h2, h3, h4⟩ := h.fresh d hlt
    refine ⟨by rwa [hserver], hfresh d h2 hlt, ?_, fun u hu => h4 u ((hholds d u).mp hu).1⟩
    rw [hserver]
    exact fun hm => h3 (Finset.mem_of_mem_erase hm)
  · rw [hserver]
    exact hstarted d hr
  · exact h.one d d' u ((hholds d u).mp h1).1 ((hholds d' u).mp h2).1
  · rw [hserver]
    exact h.known d u ((hholds d u).mp h1).1
  · rw [hholds]
    rcases (loggedIn_snoc d u).mp hl with hl | ⟨hl, hne⟩
    · rw [hans] at hl
      cases hl
    · refine ⟨h.answered d u hl, ?_⟩
      rintro rfl
      exact hne hd
  · rw [hserver] at hp
    refine (hstage d p hp).mono (fun hno u hu => hno u ((hholds d u).mp hu).1) fun u hheld hr => ?_
    rw [hserver] at hr
    have hm := Finset.mem_erase.mp hr
    exact (hholds d u).mpr ⟨hheld hm.2, hm.1⟩

theorem holds_comesIn {trace : List (Threads × ThreadEvent)} {t : Threads} {c : ConnectionId}
    {u : Text} {x : ConnectionsImpl} {running : ConnectionId → Option Task}
    (hd : disconnects (t, .call c) = none)
    (hholds : ∀ d v, x.activeUsers.lookup d = some v ∨ logsInAgain (t, .call c) = some (d, v) ↔
      t.server.connections.activeUsers.lookup d = some v ∨ (d = c ∧ v = u))
    (d : ConnectionId) (v : Text) :
    Holds (trace ++ [(t, .call c)]) ⟨t.server.setConnections x, running⟩ d v ↔
      Holds trace t d v ∨ (d = c ∧ v = u) := by
  rw [holds_snoc, ← or_assoc]
  refine (or_congr (hholds d v) Iff.rfl).trans ?_
  rw [hd, Holds]
  simp only [ne_eq, reduceCtorEq, not_false_eq_true, and_true]
  exact or_right_comm

theorem Logins.stage_comesIn {trace : List (Threads × ThreadEvent)} {t : Threads} {c d : ConnectionId}
    {q : Session} {u : Text} {H : Text → Prop} {active : Finset ConnectionId} (h : Logins trace t)
    (hdc : d ≠ c) (hq : t.server.sessions.lookup d = some q)
    (hactive : active = t.server.connections.activeConnections)
    (hiff : ∀ v, H v ↔ Holds trace t d v ∨ (d = c ∧ v = u)) :
    Stage q (∀ v, ¬ H v) (fun v => d ∈ active → H v) (t.running d) := by
  rw [hactive]
  refine (h.stage d q hq).mono (fun hno v hv => ?_) fun v hheld hr => (hiff v).mpr (.inl (hheld hr))
  rcases (hiff v).mp hv with hv | ⟨heq, -⟩
  · exact hno v hv
  · exact hdc heq

theorem Logins.comesIn {trace : List (Threads × ThreadEvent)} {t : Threads} {c : ConnectionId}
    {f : StompFrame} {p : Session} {u : Text} {x : ConnectionsImpl} (h : Logins trace t)
    (hp : t.server.sessions.lookup c = some p) (hd : disconnects (t, .call c) = none)
    (hans : answers (t, .call c) = none) (hfree : ∀ d, ¬ Holds trace t d u)
    (hunused : ∀ v, ¬ Holds trace t c v)
    (hx : x.activeConnections = t.server.connections.activeConnections)
    (hknown : (x.users.lookup u).isSome)
    (husers : ∀ v, (t.server.connections.users.lookup v).isSome → (x.users.lookup v).isSome)
    (hholds : ∀ d v, x.activeUsers.lookup d = some v ∨ logsInAgain (t, .call c) = some (d, v) ↔
      t.server.connections.activeUsers.lookup d = some v ∨ (d = c ∧ v = u))
    (hu : f.getHeader "login".toList = some u) :
    Logins (trace ++ [(t, .call c)]) ⟨t.server.setConnections x,
      Function.update t.running c (some ⟨f, connect p f⟩)⟩ := by
  have hiff : ∀ d v, Holds (trace ++ [(t, .call c)]) ⟨t.server.setConnections x,
      Function.update t.running c (some ⟨f, connect p f⟩)⟩ d v ↔
        Holds trace t d v ∨ (d = c ∧ v = u) := holds_comesIn hd hholds
  refine ⟨fun d hlt => ?_, fun d hr => ?_, fun d d' v h1 h2 => ?_, fun d v h1 => ?_, fun d v hl => ?_,
    fun d q hq => ?_⟩
  · obtain ⟨h1, h2, h3, h4⟩ := h.fresh d hlt
    have hne : d ≠ c := by
      rintro rfl
      rw [h1] at hp
      cases hp
    refine ⟨h1, (Function.update_of_ne hne _ _).trans h2, hx ▸ h3, fun v hv => ?_⟩
    rcases (hiff d v).mp hv with hv | ⟨hdc, -⟩
    · exact h4 v hv
    · exact hne hdc
  · by_cases hdc : d = c
    · rw [hdc]
      show (t.server.sessions.lookup c).isSome
      rw [hp]
      rfl
    · refine h.started d ?_
      dsimp only at hr
      rwa [Function.update_of_ne hdc] at hr
  · rcases (hiff d v).mp h1 with hold | ⟨rfl, rfl⟩ <;>
      rcases (hiff d' v).mp h2 with hold' | ⟨rfl, heq⟩
    · exact h.one d d' v hold hold'
    · exact absurd (heq ▸ hold) (hfree d)
    · exact absurd hold' (hfree d')
    · rfl
  · rcases (hiff d v).mp h1 with h1 | ⟨-, rfl⟩
    · exact husers v (h.known d v h1)
    · exact hknown
  · rw [hiff]
    rcases (loggedIn_snoc d v).mp hl with hl | ⟨hl, -⟩
    · rw [hans] at hl
      cases hl
    · exact .inl (h.answered d v hl)
  · show Stage q _ (fun v => d ∈ x.activeConnections → _) (Function.update t.running c _ d)
    by_cases hdc : d = c
    · subst hdc
      cases hp.symm.trans hq
      rw [Function.update_self]
      exact .connect hu (fun _ => (hiff d u).mpr (.inr ⟨rfl, rfl⟩)) rfl
    · rw [Function.update_of_ne hdc]
      exact h.stage_comesIn hdc hq hx (hiff d)

/-- The calls that change no login. -/
def Neutral : Call → Prop
  | .put _ => False
  | .disconnect _ => False
  | .authenticateUser _ _ _ => False
  | _ => True

theorem answer_neutral {k : Call} (hk : Neutral k) (s : Server) :
    (Server.answer k (s, [])).2.1.connections.activeConnections = s.connections.activeConnections ∧
      (Server.answer k (s, [])).2.1.connections.activeUsers = s.connections.activeUsers ∧
      (Server.answer k (s, [])).2.1.connections.users = s.connections.users ∧
      (Server.answer k (s, [])).2.1.connectionCounter = s.connectionCounter ∧
      (Server.answer k (s, [])).2.1.sessions = s.sessions := by
  cases k with
  | put q => exact hk.elim
  | disconnect c => exact hk.elim
  | authenticateUser c u w => exact hk.elim
  | removeSubscription topic c =>
    obtain ⟨h1, h2, h3, -⟩ := s.connections.removeSubscription_fields topic c
    exact ⟨h1, h2, h3, rfl, rfl⟩
  | send | isUserActive | getNextMessageId | addSubscription | getSubscribers =>
    exact ⟨rfl, rfl, rfl, rfl, rfl⟩

theorem Logins.call_neutral {trace : List (Threads × ThreadEvent)} {t : Threads} {c : ConnectionId}
    {f : StompFrame} {k : Call} {rest : Reply k → Handler} {p : Session} (h : Logins trace t)
    (hrun : t.running c = some ⟨f, .call k rest⟩) (hp : t.server.sessions.lookup c = some p)
    (hk : Neutral k) (hans : ∀ d u, answers (t, .call c) = some (d, u) → Holds trace t d u)
    (hstage : ∀ r, Stage p (∀ u, ¬ Holds trace t c u)
      (fun u => c ∈ t.server.connections.activeConnections → Holds trace t c u) (some ⟨f, rest r⟩)) :
    Logins (trace ++ [(t, .call c)]) ⟨(Server.answer k (t.server, [])).2.1,
      Function.update t.running c (some ⟨f, rest (Server.answer k (t.server, [])).1⟩)⟩ := by
  obtain ⟨h1, h2, h3, h4, h5⟩ := answer_neutral hk t.server
  have hcalled := called_call hrun
  refine h.call (by rw [hp]; rfl) ?_ ?_ hans h1 h2 h3 h4 (fun d => ?_) (hstage _)
  · unfold logsInAgain
    rw [hcalled]
    cases k <;> first | rfl | exact hk.elim
  · rw [disconnects_call hrun]
    cases k <;> first | rfl | exact hk.elim
  · rw [h5]
    split
    · next hdc => rw [hdc, hp]
    · rfl

theorem Quiet.congr {p q : Session} (hid : q.connectionId = p.connectionId)
    (hcon : q.connected = p.connected) (k : Call) (hk : Quiet p k) : Quiet q k := by
  cases k with
  | put r => exact ⟨hk.1.trans hid.symm, hk.2.trans hcon.symm⟩
  | send | disconnect | authenticateUser | isUserActive | getNextMessageId | addSubscription
  | removeSubscription | getSubscribers => exact hk

theorem answers_call {t : Threads} {c : ConnectionId} {f : StompFrame} {k : Call}
    {rest : Reply k → Handler} (hrun : t.running c = some ⟨f, .call k rest⟩)
    (hk : ∀ d msg, k = .send d msg → msg.command ≠ "CONNECTED".toList) :
    answers (t, .call c) = none := by
  unfold answers
  rw [called_call hrun]
  cases k with
  | send d msg => exact if_neg fun h => hk d msg rfl h.1
  | put | disconnect | authenticateUser | isUserActive | getNextMessageId | addSubscription
  | removeSubscription | getSubscribers => rfl

theorem Logins.put {trace : List (Threads × ThreadEvent)} {t : Threads} {c : ConnectionId}
    {f : StompFrame} {q : Session} {rest : Unit → Handler} (h : Logins trace t)
    (hrun : t.running c = some ⟨f, .call (.put q) rest⟩) (hp : (t.server.sessions.lookup c).isSome)
    (hq : q.connectionId = c)
    (hstage : Stage q (∀ u, ¬ Holds trace t c u)
      (fun u => c ∈ t.server.connections.activeConnections → Holds trace t c u) (some ⟨f, rest ()⟩)) :
    Logins (trace ++ [(t, .call c)]) ⟨t.server.setSession q,
      Function.update t.running c (some ⟨f, rest ()⟩)⟩ := by
  have hnone : answers (t, .call c) = none := answers_call hrun fun d msg hk => by cases hk
  refine h.call hp ?_ (disconnects_call hrun) (fun d u hl => by rw [hnone] at hl; cases hl)
    rfl rfl rfl rfl (fun d => ?_) hstage
  · unfold logsInAgain
    rw [called_call hrun]
  · rw [Server.lookup_setSession, hq]

theorem Logins.call_quiet {trace : List (Threads × ThreadEvent)} {t : Threads} {c : ConnectionId}
    {f : StompFrame} {k : Call} {rest : Reply k → Handler} {p : Session} (h : Logins trace t)
    (hrun : t.running c = some ⟨f, .call k rest⟩) (hp : t.server.sessions.lookup c = some p)
    (hun : p.connected = false → ∀ u, ¬ Holds trace t c u) (hk : Quiet p k)
    (hrest : ∀ r, (rest r).Calls (Quiet p)) :
    Logins (trace ++ [(t, .call c)]) ⟨(Server.answer k (t.server, [])).2.1,
      Function.update t.running c (some ⟨f, rest (Server.answer k (t.server, [])).1⟩)⟩ := by
  have hid := t.server.ids c p hp
  have hsome : (t.server.sessions.lookup c).isSome := by rw [hp]; rfl
  have hnone : answers (t, .call c) = none := answers_call hrun fun d msg hd => by
    subst hd
    exact hk
  have hans : ∀ d u, answers (t, .call c) = some (d, u) → Holds trace t d u := by
    intro d u hl
    rw [hnone] at hl
    cases hl
  cases k with
  | put q =>
    refine h.put hrun hsome (hk.1.trans hid) (.quiet (fun hc => hun (hk.2.symm.trans hc)) ?_)
    exact Prog.calls_mono (Quiet.congr hk.1 hk.2) (hrest ())
  | authenticateUser => exact hk.elim
  | disconnect d =>
    refine h.drop ?_ (disconnects_call hrun) hnone rfl (fun e he hlt => ?_) (fun e he => ?_)
      fun e q hq => ?_
    · unfold logsInAgain
      rw [called_call hrun]
    · have hne : e ≠ c := by
        rintro rfl
        rw [he] at hrun
        cases hrun
      exact (Function.update_of_ne hne _ _).trans he
    · by_cases hec : e = c
      · rwa [hec]
      · dsimp only at he
        rw [Function.update_of_ne hec] at he
        exact h.started e he
    · show Stage q _ _ (Function.update t.running c _ e)
      by_cases hec : e = c
      · subst hec
        cases hp.symm.trans hq
        rw [Function.update_self]
        exact .quiet hun (hrest ())
      · rw [Function.update_of_ne hec]
        exact h.stage e q hq
  | send | isUserActive | getNextMessageId | addSubscription | removeSubscription
  | getSubscribers => exact h.call_neutral hrun hp trivial hans fun r => .quiet hun (hrest r)

section Authenticate

variable {trace : List (Threads × ThreadEvent)} {t : Threads} {c : ConnectionId} {f : StompFrame}
  {p : Session} {u w : Text}

theorem logsInAgain_authenticate (hrun : t.running c = some ⟨f, authenticate p f u w⟩)
    (hid : p.connectionId = c) : logsInAgain (t, .call c) =
      if t.server.connections.users.lookup u = some w then some (c, u) else none := by
  subst hid
  unfold logsInAgain
  rw [called_call hrun]

theorem Logins.authenticate_new (h : Logins trace t)
    (hp : t.server.sessions.lookup c = some p) (hd : disconnects (t, .call c) = none)
    (hans : answers (t, .call c) = none) (hagain : logsInAgain (t, .call c) = none)
    (hun : ∀ v, ¬ Holds trace t c v) (hu : f.getHeader "login".toList = some u)
    (hstored : t.server.connections.users.lookup u = none) :
    Logins (trace ++ [(t, .call c)])
      ⟨t.server.setConnections { t.server.connections with
          users := t.server.connections.users.insert u w
          activeUsers := t.server.connections.activeUsers.insert c u },
        Function.update t.running c (some ⟨f, connect p f⟩)⟩ := by
  refine h.comesIn hp hd hans (fun d hd => ?_) hun rfl ?_ (fun v hv => ?_) (fun d v => ?_) hu
  · have hknown := h.known d u hd
    rw [hstored] at hknown
    cases hknown
  · rw [AList.lookup_insert]
    rfl
  · rw [Table.lookup_insert_if]
    split
    · rfl
    · exact hv
  · have hdv := hun v
    rw [Holds, not_or] at hdv
    rw [Table.lookup_insert_if, hagain]
    by_cases hdc : d = c
    · rw [hdc, if_pos rfl]
      simp only [hdv.1, Option.some.injEq, reduceCtorEq, or_false, false_or, true_and]
      exact eq_comm
    · simp [hdc]

theorem Logins.authenticate_again (h : Logins trace t) (hA : Alone trace (t, .call c))
    (hp : t.server.sessions.lookup c = some p) (hd : disconnects (t, .call c) = none)
    (hans : answers (t, .call c) = none) (hagain : logsInAgain (t, .call c) = some (c, u))
    (hun : ∀ v, ¬ Holds trace t c v) (hu : f.getHeader "login".toList = some u)
    (hstored : t.server.connections.users.lookup u = some w) :
    Logins (trace ++ [(t, .call c)]) ⟨t.server.setConnections t.server.connections,
      Function.update t.running c (some ⟨f, connect p f⟩)⟩ := by
  obtain ⟨hinactive, hnobody⟩ := hA c u hagain
  have hfree : ∀ d, ¬ Holds trace t d u := by
    rintro d (hd | hd)
    · have hactive := (Table.containsValue_iff _ u).mpr ⟨d, hd⟩
      rw [ConnectionsImpl.isUserActive, hactive] at hinactive
      cases hinactive
    · exact hnobody d hd
  refine h.comesIn hp hd hans hfree hun rfl (by rw [hstored]; rfl) (fun v hv => hv) (fun d v => ?_) hu
  rw [hagain]
  simp [eq_comm]

theorem Logins.authenticate (h : Logins trace t)
    (hA : Alone trace (t, .call c)) (hrun : t.running c = some ⟨f, authenticate p f u w⟩)
    (hp : t.server.sessions.lookup c = some p) (hun : ∀ v, ¬ Holds trace t c v)
    (hu : f.getHeader "login".toList = some u) :
    Logins (trace ++ [(t, .call c)])
      ⟨t.server.setConnections (t.server.connections.authenticateUser p.connectionId u w).2,
        Function.update t.running c (some ⟨f,
          if !(t.server.connections.authenticateUser p.connectionId u w).1 then
            sendError p ("Invalid password for user: ".toList ++ u) (f.getHeader receiptKey) f
          else connect p f⟩)⟩ := by
  have hid := t.server.ids c p hp
  have hagain := logsInAgain_authenticate hrun hid
  rw [StompMessagingProtocolImpl.authenticate, hid] at hrun
  rw [hid]
  have hd := disconnects_call hrun
  have hnone : answers (t, .call c) = none := answers_call hrun fun d msg hk => by cases hk
  unfold ConnectionsImpl.authenticateUser
  cases hstored : t.server.connections.users.lookup u with
  | none =>
    rw [hstored, if_neg (by simp)] at hagain
    exact h.authenticate_new hp hd hnone hagain hun hu hstored
  | some stored =>
    by_cases hw : stored = w
    · subst hw
      rw [hstored, if_pos rfl] at hagain
      simp only [decide_true, Bool.not_true, Bool.false_eq_true, if_false]
      exact h.authenticate_again hA hp hd hnone hagain hun hu hstored
    · rw [hstored, if_neg (by simpa using hw)] at hagain
      simp only [hw, decide_false, Bool.not_false, if_true]
      refine h.call (q := p) (by rw [hp]; rfl) hagain hd (fun d v hl => by rw [hnone] at hl; cases hl)
        rfl rfl rfl rfl (fun d => ?_) (.quiet (fun _ => hun) ((quiet_permits p f).calls_sendError _ _))
      split
      · next hdc => rw [hdc]; exact hp
      · rfl

end Authenticate

theorem Logins.step {trace : List (Threads × ThreadEvent)} {t t' : Threads} {e : ThreadEvent}
    (h : Logins trace t) (hA : Alone trace (t, e)) (hn : t.next e = some t') :
    Logins (trace ++ [(t, e)]) t' := by
  obtain ⟨rfl, rfl⟩ | ⟨c, f, p, rfl, hi, hp, rfl⟩ | ⟨c, f, k, rest, rfl, hrun, rfl⟩ |
    ⟨c, f, topic, rest, entries, rfl, hrun, rfl⟩ | ⟨c, rfl, rfl⟩ := next_cases hn
  · exact h.accept
  · exact h.process hi hp
  · obtain ⟨p, hp⟩ := Option.isSome_iff_exists.mp (h.started c (by rw [hrun]; rfl))
    have hid := t.server.ids c p hp
    have hsome : (t.server.sessions.lookup c).isSome := by rw [hp]; rfl
    have hstage := h.stage c p hp
    rw [hrun] at hstage
    cases hstage with
    | quiet hun hq => exact h.call_quiet hrun hp hun hq.1 hq.2
    | check hun hu heq =>
      cases heq
      have hnone := answers_call hrun fun d msg hk => by cases hk
      refine h.call_neutral hrun hp trivial (fun d v hl => by rw [hnone] at hl; cases hl) fun r => ?_
      cases r with
      | true => exact .quiet (fun _ => hun) ((quiet_permits p f).calls_sendError _ _)
      | false => exact .authenticate hun hu rfl
    | authenticate hun hu heq =>
      cases heq
      exact h.authenticate hA hrun hp hun hu
    | connect hu hheld heq =>
      cases heq
      exact h.put hrun hsome hid (.welcome rfl hu hheld rfl)
    | @welcome f u rest hc hu hheld heq =>
      cases heq
      refine h.call_neutral hrun hp trivial (fun d v hl => ?_) fun _ =>
        .quiet (fun hf => by rw [hc] at hf; cases hf) ((quiet_permits p f).calls_sendReceipt rfl _)
      unfold answers at hl
      rw [called_call hrun] at hl
      dsimp only at hl
      split at hl
      · next hsent =>
        rw [hu, hid] at hl
        cases hl
        rw [hid] at hsent
        exact hheld (of_decide_eq_true hsent.2)
      · cases hl
  · exact h.iterate hrun entries
  · refine h.drop rfl rfl rfl rfl (fun _ hd _ => hd) (fun d hd => h.started d hd) fun d q hq => ?_
    exact h.stage d q hq

/-- In a run where known users come in alone, a login has one session. -/
theorem one_session {trace : List (Threads × ThreadEvent)} {t : Threads} (h : runs.Run trace t)
    (hA : ∀ pre e post, trace = pre ++ e :: post → Alone pre e) : OneSession trace := by
  have hlogins : Logins trace t := by
    induction h with
    | nil => exact logins_initial
    | @snoc trace t e t' _ hs ih =>
      refine (ih fun pre x post heq => hA pre x (post ++ [(t, e)]) ?_).step (hA trace (t, e) [] rfl) hs
      rw [heq, List.append_assoc, List.cons_append]
  exact fun c d u hc hd => hlogins.one c d u (hlogins.answered c u hc) (hlogins.answered d u hd)

/-- The steps of a CONNECT that is answered CONNECTED. -/
def connectSteps (c : ConnectionId) : List ThreadEvent :=
  [.process c (Server.connectFrame "u" "p"), .call c, .call c, .call c, .call c]

theorem alone_of_once {trace : List (Threads × ThreadEvent)}
    (hone : (trace.filter fun e => (logsInAgain e).isSome).length ≤ 1)
    (hinactive : ∀ e ∈ trace, ∀ x ∈ logsInAgain e,
      e.1.server.connections.isUserActive x.2 = false) :
    ∀ pre e post, trace = pre ++ e :: post → Alone pre e := by
  rintro pre e post rfl c u he
  refine ⟨hinactive e (by simp) (c, u) he, fun d hd => ?_⟩
  obtain ⟨pre', x, post', rfl, hx, -⟩ := (since_iff _ _ _).mp hd
  simp only [List.filter_append, List.filter_cons, he, hx, Option.isSome_some, if_true,
    List.length_append, List.length_cons] at hone
  omega

/-- A user registers, leaves and comes back. -/
def comeBack : List ThreadEvent :=
  [.accept] ++ connectSteps 1 ++ [.disconnect 1, .accept] ++ connectSteps 2

theorem one_session_comeBack : ∃ trace t, runs.Run trace t ∧ LoggedIn 2 "u".toList trace ∧
    OneSession trace := by
  obtain ⟨trace, t, hr, ht⟩ := System.exists_run (M := runs) comeBack
    (fun trace _ => decide (LoggedIn 2 "u".toList trace ∧
      (trace.filter fun e => (logsInAgain e).isSome).length ≤ 1 ∧
      ∀ e ∈ trace, ∀ x ∈ logsInAgain e, e.1.server.connections.isUserActive x.2 = false)) (by decide)
  rw [decide_eq_true_eq] at ht
  exact ⟨trace, t, hr, ht.1, one_session hr (alone_of_once ht.2.1 ht.2.2)⟩

/-- A third connection comes in for the user, who is logged in on the second one. -/
theorem two_sessions : ∃ trace t, runs.Run trace t ∧ ¬ OneSession trace := by
  obtain ⟨trace, t, hr, ht⟩ := System.exists_run (M := runs) (comeBack ++ [.accept] ++ connectSteps 3)
    (fun trace _ => decide (LoggedIn 2 "u".toList trace ∧ LoggedIn 3 "u".toList trace)) (by decide)
  rw [decide_eq_true_eq] at ht
  exact ⟨trace, t, hr, fun h => absurd (h 2 3 _ ht.1 ht.2) (by decide)⟩

end Threads

end Stomp
