import Stomp.Authentication
import Stomp.Login

/-!
# Who is active

Only the call of `authenticateUser` that stores a new user enters `activeUsers`. The user is active
from then on until the connection of that call is passed to `Connections.disconnect`.
-/

namespace Stomp

open StompMessagingProtocolImpl

namespace Threads

/-- The connection, the user and the password of a call of `authenticateUser` that stores a user. -/
def registers (e : Threads × ThreadEvent) : Option (ConnectionId × Text × Text) :=
  match called e with
  | some (_, _, .authenticateUser c u w) =>
    if e.1.server.connections.users.lookup u = none then some (c, u, w) else none
  | _ => none

def Registered (c : ConnectionId) (trace : List (Threads × ThreadEvent)) : Prop :=
  ∃ e ∈ trace, ∃ u w, registers e = some (c, u, w)

/-- The connection stored the user, and was not passed to `disconnect` since. -/
def Holding (c : ConnectionId) (u : Text) (trace : List (Threads × ThreadEvent)) : Prop :=
  Since (fun e => ∃ w, registers e = some (c, u, w)) (fun e => disconnects e = some c) trace

/-! ## The calls of a session -/

/-- A call that stores no user and keeps `connected`. -/
def Keeps (p : Session) : Call → Prop
  | .put q => q.connectionId = p.connectionId ∧ q.connected = p.connected
  | .authenticateUser _ _ _ => False
  | _ => True

theorem Quiet.keeps {p : Session} (k : Call) (h : Quiet p k) : Keeps p k := by
  cases k with
  | put q => exact h
  | authenticateUser => exact h
  | send | disconnect | isUserActive | getNextMessageId | addSubscription | removeSubscription
  | getSubscribers => trivial

theorem Keeps.congr {p q : Session} (hid : q.connectionId = p.connectionId)
    (hcon : q.connected = p.connected) (k : Call) (h : Keeps p k) : Keeps q k := by
  cases k with
  | put r => exact ⟨h.1.trans hid.symm, h.2.trans hcon.symm⟩
  | authenticateUser => exact h
  | send | disconnect | isUserActive | getNextMessageId | addSubscription | removeSubscription
  | getSubscribers => trivial

/-- A session that is not logged in stores no user before its CONNECT gets to `authenticateUser`. -/
inductive Entering (p : Session) (registered : Prop) : Option Task → Prop
  | keeps {o} (h : p.connected = false → ¬ registered)
    (hk : ∀ task, o = some task → task.rest.Calls (Keeps p)) : Entering p registered o
  | check {f u w} (h : ¬ registered) : Entering p registered (some ⟨f, checkActive p f u w⟩)
  | authenticate {f u w} (h : ¬ registered) : Entering p registered (some ⟨f, authenticate p f u w⟩)
  | connect {f} : Entering p registered (some ⟨f, connect p f⟩)

theorem Entering.mono {p : Session} {registered registered' : Prop} {o : Option Task}
    (h : Entering p registered o) (hr : registered' → registered) : Entering p registered' o := by
  cases h with
  | keeps h hk => exact .keeps (fun hc hreg => h hc (hr hreg)) hk
  | check h => exact .check fun hreg => h (hr hreg)
  | authenticate h => exact .authenticate fun hreg => h (hr hreg)
  | connect => exact .connect

theorem Entering.of_idle {p : Session} {registered : Prop} {t : Threads} {c : ConnectionId}
    (h : Entering p registered (t.running c)) (hi : t.idle c = true) :
    p.connected = false → ¬ registered := by
  unfold idle at hi
  revert h hi
  generalize t.running c = o
  intro h hi
  cases h with
  | keeps h _ => exact h
  | check => cases hi
  | authenticate => cases hi
  | connect => cases hi

theorem keeps_sendError (p : Session) (f : StompFrame) (reason : Text) :
    (p.sendError reason (f.getHeader receiptKey) f).Calls (Keeps p) :=
  Prog.calls_mono Quiet.keeps ((quiet_permits p f).calls_sendError _ _)

theorem entering_process {p : Session} {registered : Prop} (f : StompFrame)
    (h : p.connected = false → ¬ registered) : Entering p registered (some ⟨f, p.process f⟩) := by
  obtain hquiet | ⟨hc, u, w, -, heq⟩ := (quiet_permits p f).process_cases
  · refine .keeps h fun task htask => ?_
    cases htask
    exact Prog.calls_mono Quiet.keeps hquiet
  · rw [heq]
    exact .check (h hc)

/-! ## What a call does to the tables -/

theorem users_answer_same (s : Server) {k : Call} (hk : ∀ c u w, k ≠ .authenticateUser c u w) :
    (Server.answer k (s, [])).2.1.connections.users = s.connections.users := by
  cases k with
  | authenticateUser c u w => exact absurd rfl (hk c u w)
  | removeSubscription topic c => exact (s.connections.removeSubscription_fields topic c).2.2.1
  | put | send | disconnect | isUserActive | getNextMessageId | addSubscription | getSubscribers => rfl

theorem activeUsers_answer (s : Server) {k : Call} (hk : ∀ c u w, k ≠ .authenticateUser c u w)
    (d : ConnectionId) : (Server.answer k (s, [])).2.1.connections.activeUsers.lookup d =
      if passedToDisconnect k = some d then none else s.connections.activeUsers.lookup d := by
  cases k with
  | authenticateUser c u w => exact absurd rfl (hk c u w)
  | removeSubscription topic c =>
    show (s.connections.removeSubscription topic c).activeUsers.lookup d = _
    rw [(s.connections.removeSubscription_fields topic c).2.1]
    rfl
  | disconnect c =>
    show (s.connections.activeUsers.erase c).lookup d = _
    rw [Table.lookup_erase_if]
    simp [passedToDisconnect, eq_comm]
  | put | send | isUserActive | getNextMessageId | addSubscription | getSubscribers => rfl

theorem registers_call {t : Threads} {c : ConnectionId} {f : StompFrame} {k : Call}
    {rest : Reply k → Handler} (hrun : t.running c = some ⟨f, .call k rest⟩) :
    registers (t, .call c) = match k with
      | .authenticateUser d u w =>
        if t.server.connections.users.lookup u = none then some (d, u, w) else none
      | _ => none := by
  unfold registers
  rw [called_call hrun]
  cases k <;> rfl

theorem registers_iterate (t : Threads) (c : ConnectionId)
    (entries : List ((_ : ConnectionId) × Int)) : registers (t, .iterate c entries) = none := by
  unfold registers
  obtain h | ⟨f, topic, h⟩ := called_iterate_cases t c entries <;> rw [h]

/-! ## One step -/

structure Entries (trace : List (Threads × ThreadEvent)) (t : Threads) : Prop where
  sessions : ∀ c, Registered c trace → (t.server.sessions.lookup c).isSome
  stage : ∀ c p, t.server.sessions.lookup c = some p → Entering p (Registered c trace) (t.running c)
  users : ∀ u w, t.server.connections.users.lookup u = some w ↔
    ∃ e ∈ trace, ∃ c, registers e = some (c, u, w)
  active : ∀ c u, t.server.connections.activeUsers.lookup c = some u ↔ Holding c u trace

theorem registered_snoc (c : ConnectionId) (trace : List (Threads × ThreadEvent))
    (e : Threads × ThreadEvent) : Registered c (trace ++ [e]) ↔
      Registered c trace ∨ ∃ u w, registers e = some (c, u, w) := by
  simp [Registered, or_and_right, exists_or]

theorem Entries.keep {trace : List (Threads × ThreadEvent)} {t t' : Threads} {e : ThreadEvent}
    (h : Entries trace t) (hr : registers (t, e) = none)
    (husers : t'.server.connections.users = t.server.connections.users)
    (hactive : ∀ c, t'.server.connections.activeUsers.lookup c =
      if disconnects (t, e) = some c then none else t.server.connections.activeUsers.lookup c)
    (hsessions : ∀ c, (t.server.sessions.lookup c).isSome → (t'.server.sessions.lookup c).isSome)
    (hstage : ∀ c p, t'.server.sessions.lookup c = some p →
      Entering p (Registered c trace) (t'.running c)) : Entries (trace ++ [(t, e)]) t' := by
  have hregistered : ∀ c, Registered c (trace ++ [(t, e)]) ↔ Registered c trace := by
    simp [registered_snoc, hr]
  refine ⟨fun c hc => ?_, fun c p hp => ?_, fun u w => ?_, fun c u => ?_⟩
  · exact hsessions c (h.sessions c ((hregistered c).mp hc))
  · exact (hstage c p hp).mono (hregistered c).mp
  · rw [husers, h.users]
    simp [or_and_right, exists_or, hr]
  · rw [hactive, Holding, since_snoc, hr]
    split
    · next hd => simp [hd]
    · next hd =>
      rw [h.active]
      simp [hd, Holding]

theorem Entries.register {trace : List (Threads × ThreadEvent)} {t : Threads} {c : ConnectionId}
    {f : StompFrame} {p : Session} {u w : Text} (h : Entries trace t)
    (hp : t.server.sessions.lookup c = some p) (hno : ¬ Registered c trace)
    (hrun : t.running c = some ⟨f, authenticate p f u w⟩)
    (hnone : t.server.connections.users.lookup u = none) {x : ConnectionsImpl}
    (husers : x.users = t.server.connections.users.insert u w)
    (hactive : x.activeUsers = t.server.connections.activeUsers.insert c u) :
    Entries (trace ++ [(t, .call c)]) ⟨t.server.setConnections x,
      Function.update t.running c (some ⟨f, connect p f⟩)⟩ := by
  have hid := t.server.ids c p hp
  have hr : registers (t, .call c) = some (c, u, w) := by
    have hcall : registers (t, .call c) = some (p.connectionId, u, w) :=
      (registers_call hrun).trans (if_pos hnone)
    rwa [hid] at hcall
  have hd : disconnects (t, .call c) = none := disconnects_call hrun
  have hregistered : ∀ d, Registered d (trace ++ [(t, .call c)]) ↔ Registered d trace ∨ d = c := by
    intro d
    rw [registered_snoc, hr]
    simp [eq_comm]
  refine ⟨fun d hdr => ?_, fun d q hq => ?_, fun v y => ?_, fun d v => ?_⟩
  · rcases (hregistered d).mp hdr with hdr | rfl
    · exact h.sessions d hdr
    · exact Option.isSome_iff_exists.mpr ⟨p, hp⟩
  · show Entering q _ (Function.update t.running c _ d)
    by_cases hdc : d = c
    · subst hdc
      cases hp.symm.trans hq
      rw [Function.update_self]
      exact .connect
    · rw [Function.update_of_ne hdc]
      exact (h.stage d q hq).mono fun hdr => ((hregistered d).mp hdr).resolve_right hdc
  · show x.users.lookup v = some y ↔ _
    rw [husers, Table.lookup_insert_if]
    simp only [List.mem_append, List.mem_singleton, or_and_right, exists_or, exists_eq_left, hr,
      Option.some.injEq, Prod.mk.injEq, exists_and_right, exists_eq', true_and, ← h.users]
    by_cases hv : v = u
    · subst hv
      simp [hnone]
    · simp [hv, Ne.symm hv]
  · show x.activeUsers.lookup d = some v ↔ _
    rw [hactive, Table.lookup_insert_if, Holding, since_snoc, hr, hd]
    by_cases hdc : d = c
    · subst hdc
      have hold : ¬ Since (fun e => ∃ w, registers e = some (d, v, w))
          (fun e => disconnects e = some d) trace := by
        rw [since_iff]
        rintro ⟨pre, e, post, rfl, ⟨y, hy⟩, -⟩
        exact hno ⟨e, by simp, v, y, hy⟩
      simp [hold]
    · simp [hdc, Ne.symm hdc, h.active, Holding]

theorem Entries.call {trace : List (Threads × ThreadEvent)} {t : Threads} {c : ConnectionId}
    {f : StompFrame} {k : Call} {rest : Reply k → Handler} {p : Session} (h : Entries trace t)
    (p' : Session) (hp : t.server.sessions.lookup c = some p)
    (hrun : t.running c = some ⟨f, .call k rest⟩)
    (hk : ∀ d u w, k ≠ .authenticateUser d u w)
    (hsessions : ∀ d, (Server.answer k (t.server, [])).2.1.sessions.lookup d =
      if d = c then some p' else t.server.sessions.lookup d)
    (hstage : Entering p' (Registered c trace)
      (some ⟨f, rest (Server.answer k (t.server, [])).1⟩)) :
    Entries (trace ++ [(t, .call c)]) ⟨(Server.answer k (t.server, [])).2.1,
      Function.update t.running c (some ⟨f, rest (Server.answer k (t.server, [])).1⟩)⟩ := by
  refine h.keep ?_ (users_answer_same t.server hk) (fun d => ?_) (fun d hd => ?_) fun d q hq => ?_
  · rw [registers_call hrun]
    cases k with
    | authenticateUser d u w => exact absurd rfl (hk d u w)
    | put | send | disconnect | isUserActive | getNextMessageId | addSubscription
    | removeSubscription | getSubscribers => rfl
  · rw [disconnects_call hrun]
    exact activeUsers_answer t.server hk d
  · dsimp only
    rw [hsessions]
    split
    · rfl
    · exact hd
  · dsimp only at hq ⊢
    rw [hsessions] at hq
    by_cases hdc : d = c
    · subst hdc
      rw [if_pos rfl] at hq
      cases hq
      rw [Function.update_self]
      exact hstage
    · rw [if_neg hdc] at hq
      rw [Function.update_of_ne hdc]
      exact h.stage d q hq

theorem Entries.authenticate {trace : List (Threads × ThreadEvent)} {t : Threads}
    {c : ConnectionId} {f : StompFrame} {p : Session} {u w : Text} (h : Entries trace t)
    (hp : t.server.sessions.lookup c = some p) (hno : ¬ Registered c trace)
    (hrun : t.running c = some ⟨f, authenticate p f u w⟩) : Entries (trace ++ [(t, .call c)])
      ⟨t.server.setConnections (t.server.connections.authenticateUser p.connectionId u w).2,
        Function.update t.running c (some ⟨f,
          if !(t.server.connections.authenticateUser p.connectionId u w).1 then
            sendError p ("Invalid password for user: ".toList ++ u) (f.getHeader receiptKey) f
          else connect p f⟩)⟩ := by
  have hid := t.server.ids c p hp
  have hr := registers_call hrun
  have hd : disconnects (t, .call c) = none := disconnects_call hrun
  unfold ConnectionsImpl.authenticateUser
  cases hstored : t.server.connections.users.lookup u with
  | none =>
    refine h.register hp hno hrun hstored rfl ?_
    rw [hid]
  | some stored =>
    have hnone : registers (t, .call c) = none := hr.trans (if_neg (by simp [hstored]))
    refine h.keep hnone rfl (fun d => by rw [hd]; rfl) (fun d hd => hd) fun d q hq => ?_
    show Entering q _ (Function.update t.running c _ d)
    by_cases hdc : d = c
    · subst hdc
      cases hp.symm.trans hq
      rw [Function.update_self]
      dsimp only
      split
      · refine .keeps (fun _ => hno) fun task htask => ?_
        cases htask
        apply keeps_sendError
      · exact .connect
    · rw [Function.update_of_ne hdc]
      exact h.stage d q hq

theorem Entries.keeps {trace : List (Threads × ThreadEvent)} {t : Threads} {c : ConnectionId}
    {f : StompFrame} {k : Call} {rest : Reply k → Handler} {p : Session} (h : Entries trace t)
    (hp : t.server.sessions.lookup c = some p) (hrun : t.running c = some ⟨f, .call k rest⟩)
    (hun : p.connected = false → ¬ Registered c trace) (hk : Keeps p k)
    (hrest : ∀ r, (rest r).Calls (Keeps p)) :
    Entries (trace ++ [(t, .call c)]) ⟨(Server.answer k (t.server, [])).2.1,
      Function.update t.running c (some ⟨f, rest (Server.answer k (t.server, [])).1⟩)⟩ := by
  have hid := t.server.ids c p hp
  have hauth : ∀ d u w, k ≠ .authenticateUser d u w := by
    rintro d u w rfl
    exact hk
  have hsessions := sessions_answer t.server k
  by_cases hput : ∃ q, k = .put q
  · obtain ⟨q, rfl⟩ := hput
    have hqid : q.connectionId = c := hk.1.trans hid
    simp only [hqid] at hsessions
    refine h.call q hp hrun hauth hsessions ?_
    refine .keeps (fun hc => hun (hk.2.symm.trans hc)) fun task htask => ?_
    cases htask
    exact Prog.calls_mono (Keeps.congr hk.1 hk.2) (hrest ())
  · refine h.call p hp hrun hauth (fun d => ?_) (.keeps hun fun task htask => ?_)
    · rw [hsessions]
      have hsame : t.server.sessions.lookup d =
          if d = c then some p else t.server.sessions.lookup d := by
        split
        · next hdc => rw [hdc, hp]
        · rfl
      cases k with
      | put q => exact absurd ⟨q, rfl⟩ hput
      | send | disconnect | authenticateUser | isUserActive | getNextMessageId | addSubscription
      | removeSubscription | getSubscribers => exact hsame
    · cases htask
      exact hrest _

theorem Entries.accept {trace : List (Threads × ThreadEvent)} {t : Threads} (h : Entries trace t)
    (hg : t.Guarded) : Entries (trace ++ [(t, .accept)]) { t with server := t.server.accept } := by
  refine h.keep rfl rfl (fun c => rfl) (fun c hc => ?_) fun c p hp => ?_
  · obtain ⟨p, hp⟩ := Option.isSome_iff_exists.mp hc
    exact Option.isSome_iff_exists.mpr ⟨p, hg.lookup_accept hp⟩
  · dsimp only at hp ⊢
    by_cases hc : c = t.server.connectionCounter + 1
    · have hfresh := hg.fresh c (by rw [hc]; exact Nat.lt_succ_self _)
      refine .keeps (fun _ hreg => ?_) fun task htask => ?_
      · have := h.sessions c hreg
        rw [hfresh] at this
        cases this
      · obtain ⟨q, hq, -⟩ := hg.progress c task htask
        rw [hfresh] at hq
        cases hq
    · exact h.stage c p ((t.server.untouched_accept hc).session.symm.trans hp)

theorem Entries.process {trace : List (Threads × ThreadEvent)} {t : Threads} {c : ConnectionId}
    {f : StompFrame} {p : Session} (h : Entries trace t) (hi : t.idle c = true)
    (hp : t.server.sessions.lookup c = some p) : Entries (trace ++ [(t, .process c f)])
      { t with running := Function.update t.running c (some ⟨f, p.process f⟩) } := by
  refine h.keep rfl rfl (fun c => rfl) (fun c hc => hc) fun d q hq => ?_
  dsimp only at hq ⊢
  by_cases hdc : d = c
  · subst hdc
    cases hp.symm.trans hq
    rw [Function.update_self]
    exact entering_process f ((h.stage d p hp).of_idle hi)
  · rw [Function.update_of_ne hdc]
    exact h.stage d q hq

theorem Entering.iterate {p : Session} {registered : Prop} {f : StompFrame} {topic : Text}
    {rest : List ((_ : ConnectionId) × Int) → Handler}
    (h : Entering p registered (some ⟨f, .call (.getSubscribers topic) rest⟩))
    (entries : List ((_ : ConnectionId) × Int)) : Entering p registered (some ⟨f, rest entries⟩) := by
  generalize htask : some (⟨f, .call (.getSubscribers topic) rest⟩ : Task) = o at h
  cases h with
  | keeps hun hk =>
    refine .keeps hun fun task heq => ?_
    cases heq
    exact (hk _ htask.symm).2 entries
  | check | authenticate | connect => cases htask

theorem Entries.iterate {trace : List (Threads × ThreadEvent)} {t : Threads} {c : ConnectionId}
    {f : StompFrame} {topic : Text} {rest : List ((_ : ConnectionId) × Int) → Handler}
    (h : Entries trace t) (hrun : t.running c = some ⟨f, .call (.getSubscribers topic) rest⟩)
    (entries : List ((_ : ConnectionId) × Int)) : Entries (trace ++ [(t, .iterate c entries)])
      { t with running := Function.update t.running c (some ⟨f, rest entries⟩) } := by
  refine h.keep (registers_iterate t c entries) rfl (fun d => ?_) (fun d hd => hd) fun d q hq => ?_
  · rw [disconnects_iterate, if_neg (by simp)]
  · dsimp only at hq ⊢
    by_cases hdc : d = c
    · subst hdc
      have hstage := h.stage d q hq
      rw [hrun] at hstage
      rw [Function.update_self]
      exact hstage.iterate entries
    · rw [Function.update_of_ne hdc]
      exact h.stage d q hq

theorem Entries.step {trace : List (Threads × ThreadEvent)} {t t' : Threads} {e : ThreadEvent}
    (h : Entries trace t) (hg : t.Guarded) (hs : t.next e = some t') :
    Entries (trace ++ [(t, e)]) t' := by
  obtain ⟨rfl, rfl⟩ | ⟨c, f, p, rfl, hi, hp, rfl⟩ | ⟨c, f, k, rest, rfl, hrun, rfl⟩ |
    ⟨c, f, topic, rest, entries, rfl, hrun, rfl⟩ | ⟨c, rfl, rfl⟩ := next_cases hs
  · exact h.accept hg
  · exact h.process hi hp
  · obtain ⟨p, hp, -⟩ := hg.progress c _ hrun
    have hid := t.server.ids c p hp
    have hsame : ∀ d, t.server.sessions.lookup d =
        if d = c then some p else t.server.sessions.lookup d := by
      intro d
      split
      · next hdc => rw [hdc, hp]
      · rfl
    have hstage := h.stage c p hp
    rw [hrun] at hstage
    generalize htask : some (⟨f, .call k rest⟩ : Task) = o at hstage
    cases hstage with
    | keeps hun hk =>
      have hcalls := hk _ htask.symm
      exact h.keeps hp hrun hun hcalls.1 hcalls.2
    | @check _ u w hno =>
      cases htask
      refine h.call _ hp hrun (by simp) hsame ?_
      show Entering p _ (some ⟨_, if t.server.connections.isUserActive u then _ else _⟩)
      split
      · refine .keeps (fun _ => hno) fun task htask => ?_
        cases htask
        apply keeps_sendError
      · exact .authenticate hno
    | authenticate hno =>
      cases htask
      exact h.authenticate hp hno hrun
    | connect =>
      cases htask
      refine h.call { p with connected := true } hp hrun (by simp) (fun d => ?_) ?_
      · rw [sessions_answer]
        dsimp only
        rw [hid]
      · refine .keeps (by simp) fun task htask => ?_
        cases htask
        exact ⟨trivial, fun _ => Prog.calls_mono Quiet.keeps
          ((quiet_permits _ f).calls_sendReceipt rfl _)⟩
  · exact h.iterate hrun entries
  · refine h.keep rfl rfl (fun d => ?_) (fun d hd => hd) h.stage
    show (t.server.connections.activeUsers.erase c).lookup d = _
    rw [Table.lookup_erase_if]
    simp [disconnects, eq_comm]

/-! ## Whole runs -/

theorem entries_run {trace : List (Threads × ThreadEvent)} {t : Threads} (h : runs.Run trace t) :
    Entries trace t := by
  induction h with
  | nil =>
    refine ⟨fun c hc => ?_, fun c p hp => (by cases hp), fun u w => ?_, fun c u => ?_⟩
    · obtain ⟨e, he, -⟩ := hc
      cases he
    · simp [runs, Server.initial, ConnectionsImpl.initial]
    · simp [runs, Server.initial, ConnectionsImpl.initial, Holding, Since]
  | snoc hr hs ih => exact ih.step (guarded_run hr) hs

theorem registers_new {e : Threads × ThreadEvent} {c : ConnectionId} {u w : Text}
    (h : registers e = some (c, u, w)) : e.1.server.connections.users.lookup u = none := by
  unfold registers at h
  split at h
  · split at h
    · next hnone =>
      cases h
      exact hnone
    · cases h
  · cases h

theorem registers_once {trace pre post pre' post' : List (Threads × ThreadEvent)}
    {e e' : Threads × ThreadEvent} {t : Threads} (h : runs.Run trace t) (heq : trace = pre ++ e :: post)
    (heq' : trace = pre' ++ e' :: post') {c c' : ConnectionId} {u w w' : Text}
    (hr : registers e = some (c, u, w)) (hr' : registers e' = some (c', u, w')) :
    pre = pre' ∧ e = e' ∧ post = post' := by
  obtain hsame | ⟨mid, hmid, -⟩ | ⟨mid, hmid, -⟩ := System.append_cons_cases (heq.symm.trans heq')
  · exact hsame
  · have hstored := ((entries_run (h.split heq').1).users u w).mpr ⟨e, by simp [hmid], c, hr⟩
    rw [registers_new hr'] at hstored
    cases hstored
  · have hstored := ((entries_run (h.split heq).1).users u w').mpr ⟨e', by simp [hmid], c', hr'⟩
    rw [registers_new hr] at hstored
    cases hstored

/-- The passwords are those of the calls that stored them. A user is active exactly while the
connection that stored the user has not been passed to `disconnect`. -/
theorem active_iff {trace : List (Threads × ThreadEvent)} {t : Threads} (h : runs.Run trace t) :
    (∀ u w, t.server.connections.users.lookup u = some w ↔
      ∃ e ∈ trace, ∃ c, registers e = some (c, u, w)) ∧
    (∀ u, t.server.connections.isUserActive u = true ↔ ∃ c, Holding c u trace) ∧
    ∀ pre e post c u w, trace = pre ++ e :: post → registers e = some (c, u, w) →
      (t.server.connections.isUserActive u = true ↔ ∀ x ∈ post, disconnects x ≠ some c) := by
  have hactive : ∀ u, t.server.connections.isUserActive u = true ↔ ∃ c, Holding c u trace := by
    intro u
    rw [ConnectionsImpl.isUserActive, Table.containsValue_iff]
    simp only [(entries_run h).active]
  refine ⟨(entries_run h).users, hactive, fun pre e post c u w heq hr => ?_⟩
  rw [hactive]
  constructor
  · rintro ⟨d, hd⟩
    obtain ⟨pre', e', post', heq', ⟨w', hr'⟩, hnone⟩ := (since_iff _ _ _).mp hd
    obtain ⟨-, rfl, rfl⟩ := registers_once h heq heq' hr hr'
    rw [hr] at hr'
    cases hr'
    exact hnone
  · intro hnone
    exact ⟨c, (since_iff _ _ _).mpr ⟨pre, e, post, heq, ⟨w, hr⟩, hnone⟩⟩

/-- A user logs in, a second connection logs in as the same user after the first was dropped. -/
def secondLogin : List ThreadEvent :=
  [.accept, .accept, .process 1 (Server.connectFrame "u" "p")] ++ List.replicate 4 (.call 1) ++
    [.disconnect 1, .process 2 (Server.connectFrame "u" "p")] ++ List.replicate 4 (.call 2)

/-- The second session is logged in, and its user is not active. -/
theorem active_iff_second : ∃ trace t, runs.Run trace t ∧ t.isConnected 2 = true ∧
    t.server.connections.users.lookup "u".toList = some "p".toList ∧
    t.server.connections.isUserActive "u".toList = false ∧
    ¬ ∃ c, Holding c "u".toList trace := by
  obtain ⟨trace, t, hr, ht⟩ := System.exists_run (M := runs) secondLogin
    (fun _ t => decide (t.isConnected 2 = true ∧
      t.server.connections.users.lookup "u".toList = some "p".toList ∧
      t.server.connections.isUserActive "u".toList = false)) (by decide +kernel)
  rw [decide_eq_true_eq] at ht
  obtain ⟨hconnected, husers, hinactive⟩ := ht
  refine ⟨trace, t, hr, hconnected, husers, hinactive, fun hholding => ?_⟩
  rw [← (active_iff hr).2.1, hinactive] at hholding
  cases hholding

end Threads

end Stomp
