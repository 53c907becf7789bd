import Stomp.ServerRun
import Stomp.Base.Paired

/-!
# Delivery over runs

What a client may expect follows from the frames alone: which subscriptions it holds open,
and which accepted SENDs fall into that time.
-/

namespace Stomp

open StompMessagingProtocolImpl

namespace Server

/-! ## What the frames say -/

/-- What one step does to the open subscriptions of a connection, each a topic and the id as it
was written. -/
def openStep (c : ConnectionId) (subs : List (Text × Text)) :
    Server × ServerEvent → List (Text × Text)
  | (s, .frame d f) =>
    if d = c ∧ s.accepted d f = true then
      if f.command = "SUBSCRIBE".toList then
        match f.getHeader "destination".toList, f.getHeader "id".toList with
        | some topic, some id => (topic, id) :: subs
        | _, _ => subs
      else if f.command = "UNSUBSCRIBE".toList then
        subs.filter fun sub => f.getHeader "id".toList ≠ some sub.2
      else if f.command = "DISCONNECT".toList then []
      else subs
    else subs
  | (_, .disconnect d) => if d = c then [] else subs
  | (_, .accept) => subs

def openSubs (c : ConnectionId) (trace : List (Server × ServerEvent)) : List (Text × Text) :=
  trace.foldl (openStep c) []

/-- The step ends the connection. -/
def leaves (c : ConnectionId) : Server × ServerEvent → Prop
  | (s, .frame d f) => d = c ∧ s.accepted d f = true ∧ f.command = "DISCONNECT".toList
  | (_, .disconnect d) => d = c
  | (_, .accept) => False

instance (c : ConnectionId) : DecidablePred (leaves c)
  | (s, .frame d f) =>
    inferInstanceAs (Decidable (d = c ∧ s.accepted d f = true ∧ f.command = "DISCONNECT".toList))
  | (_, .disconnect d) => inferInstanceAs (Decidable (d = c))
  | (_, .accept) => inferInstanceAs (Decidable False)

/-- An id that is written as its number is written. -/
def Canonical (id : Text) : Prop := (Decimal.parseInt id).map Decimal.valueOf = some id

instance : DecidablePred Canonical := fun _ => decEq _ _

/-- A frame of a client that is still there, takes no topic and no id that it holds, and writes
ids in the canonical way. -/
structure Allowed (pre : List (Server × ServerEvent)) (c : ConnectionId) (f : StompFrame) : Prop where
  present : ∀ e ∈ pre, ¬ leaves c e
  subscribe : f.command = "SUBSCRIBE".toList → ∀ topic ∈ f.getHeader "destination".toList,
    ∀ id ∈ f.getHeader "id".toList,
      Canonical id ∧ ∀ sub ∈ openSubs c pre, sub.1 ≠ topic ∧ sub.2 ≠ id
  unsubscribe : f.command = "UNSUBSCRIBE".toList → ∀ id ∈ f.getHeader "id".toList, Canonical id

instance (pre : List (Server × ServerEvent)) (c : ConnectionId) (f : StompFrame) :
    Decidable (Allowed pre c f) :=
  decidable_of_iff
    ((∀ e ∈ pre, ¬ leaves c e) ∧
      (f.command = "SUBSCRIBE".toList → ∀ topic ∈ f.getHeader "destination".toList,
        ∀ id ∈ f.getHeader "id".toList,
          Canonical id ∧ ∀ sub ∈ openSubs c pre, sub.1 ≠ topic ∧ sub.2 ≠ id) ∧
      (f.command = "UNSUBSCRIBE".toList → ∀ id ∈ f.getHeader "id".toList, Canonical id))
    ⟨fun h => ⟨h.1, h.2.1, h.2.2⟩, fun h => ⟨h.present, h.subscribe, h.unsubscribe⟩⟩

def AllowedStep (pre : List (Server × ServerEvent)) : Server × ServerEvent → Prop
  | (_, .frame c f) => Allowed pre c f
  | _ => True

instance (pre : List (Server × ServerEvent)) : DecidablePred (AllowedStep pre)
  | (_, .frame c f) => inferInstanceAs (Decidable (Allowed pre c f))
  | (_, .disconnect _) => inferInstanceAs (Decidable True)
  | (_, .accept) => inferInstanceAs (Decidable True)

/-- Every frame of the run is allowed where it stands. -/
def Disciplined (trace : List (Server × ServerEvent)) : Prop :=
  ∀ i, ∀ h : i < trace.length, AllowedStep (trace.take i) (trace.get ⟨i, h⟩)

instance (trace : List (Server × ServerEvent)) : Decidable (Disciplined trace) := by
  unfold Disciplined
  infer_instance

theorem openSubs_snoc (c : ConnectionId) (trace : List (Server × ServerEvent))
    (e : Server × ServerEvent) : openSubs c (trace ++ [e]) = openStep c (openSubs c trace) e := by
  simp [openSubs]

theorem Disciplined.at {trace pre post : List (Server × ServerEvent)} {e : Server × ServerEvent}
    (h : Disciplined trace) (he : trace = pre ++ e :: post) : AllowedStep pre e := by
  subst he
  simpa using h pre.length (by simp)

theorem Disciplined.of_append {pre post : List (Server × ServerEvent)} (h : Disciplined (pre ++ post)) :
    Disciplined pre := by
  intro i hi
  have := h i (by rw [List.length_append]; omega)
  rwa [List.take_append_of_le_length (by omega), List.get_eq_getElem,
    List.getElem_append_left hi] at this

/-! ## The tables say the same -/

/-- Both tables hold exactly the open subscriptions of a connection. -/
structure Books (trace : List (Server × ServerEvent)) (s : Server) (c : ConnectionId) : Prop where
  canonical : ∀ sub ∈ openSubs c trace, Canonical sub.2
  shared : ∀ t i, s.connections.subscription t c = some i ↔
    Decimal.InRange i ∧ (t, Decimal.valueOf i) ∈ openSubs c trace
  own : (∀ e ∈ trace, ¬ leaves c e) → ∀ p, s.sessions.lookup c = some p → ∀ i t,
    p.clientSubscriptions.lookup i = some t ↔
      Decimal.InRange i ∧ (t, Decimal.valueOf i) ∈ openSubs c trace
  registered : (∀ e ∈ trace, ¬ leaves c e) → (s.sessions.lookup c).isSome →
    c ∈ s.connections.activeConnections
  held : openSubs c trace ≠ [] → (s.sessions.lookup c).isSome ∧ ∀ e ∈ trace, ¬ leaves c e

theorem books_keep {trace : List (Server × ServerEvent)} {s s' : Server} {c : ConnectionId}
    {e : Server × ServerEvent} (h : Books trace s c)
    (hsub : ∀ t, s'.connections.subscription t c = s.connections.subscription t c)
    (hreg : c ∈ s.connections.activeConnections → c ∈ s'.connections.activeConnections)
    (hsess : (s'.sessions.lookup c).map (·.clientSubscriptions) =
      (s.sessions.lookup c).map (·.clientSubscriptions))
    (hsubs : openStep c (openSubs c trace) e = openSubs c trace) (hl : ¬ leaves c e) :
    Books (trace ++ [e]) s' c := by
  have hleaves : (∀ x ∈ trace ++ [e], ¬ leaves c x) ↔ ∀ x ∈ trace, ¬ leaves c x := by
    simp [or_imp, forall_and, hl]
  have hsome : (s'.sessions.lookup c).isSome = (s.sessions.lookup c).isSome := by
    simpa using congrArg Option.isSome hsess
  constructor
  · rw [openSubs_snoc, hsubs]
    exact h.canonical
  · intro t i
    rw [openSubs_snoc, hsubs, hsub]
    exact h.shared t i
  · intro hno p hp i t
    rw [hp, Option.map_some] at hsess
    obtain ⟨q, hq, hqp⟩ := Option.map_eq_some_iff.mp hsess.symm
    rw [openSubs_snoc, hsubs, ← hqp]
    exact h.own (hleaves.mp hno) q hq i t
  · intro hno hs
    exact hreg (h.registered (hleaves.mp hno) (hsome ▸ hs))
  · rw [openSubs_snoc, hsubs, hsome, hleaves]
    exact h.held

theorem books_untouched {trace : List (Server × ServerEvent)} {s s' : Server} {c : ConnectionId}
    {e : Server × ServerEvent} (h : Books trace s c) (hu : Untouched c s s')
    (hsubs : openStep c (openSubs c trace) e = openSubs c trace) (hl : ¬ leaves c e) :
    Books (trace ++ [e]) s' c :=
  books_keep h hu.subscribed hu.registered.mpr (by rw [hu.session]) hsubs hl

theorem canonical_id {f : StompFrame} {id : Int}
    (h : (f.getHeader "id".toList).bind Decimal.parseInt = some id)
    (hc : ∀ text, f.getHeader "id".toList = some text → Canonical text) :
    f.getHeader "id".toList = some (Decimal.valueOf id) ∧ Decimal.InRange id := by
  obtain ⟨text, ht, hp⟩ := Option.bind_eq_some_iff.mp h
  have hcan := hc text ht
  rw [Canonical, hp, Option.map_some] at hcan
  exact ⟨ht.trans hcan.symm, Decimal.inRange_of_parseInt hp⟩

theorem canonical_valueOf {n : Int} (h : Decimal.InRange n) : Canonical (Decimal.valueOf n) := by
  rw [Canonical, Decimal.parseInt_valueOf n h]
  rfl

theorem canonical_exists {id : Text} (h : Canonical id) :
    ∃ n, Decimal.InRange n ∧ id = Decimal.valueOf n := by
  obtain ⟨n, hn, hv⟩ := Option.map_eq_some_iff.mp h
  exact ⟨n, Decimal.inRange_of_parseInt hn, hv.symm⟩

theorem valueOf_eq_iff {m n : Int} (hm : Decimal.InRange m) (hn : Decimal.InRange n) :
    Decimal.valueOf m = Decimal.valueOf n ↔ m = n :=
  ⟨Decimal.valueOf_injective hm hn, fun h => h ▸ rfl⟩

/-! ## One step -/

theorem openStep_other {c d : ConnectionId} (hd : d ≠ c) (s : Server) (f : StompFrame)
    (subs : List (Text × Text)) : openStep c subs (s, .frame d f) = subs := by
  simp [openStep, hd]

theorem openStep_quiet {s : Server} {c : ConnectionId} {f : StompFrame}
    (h : s.accepted c f = true → f.command ≠ "SUBSCRIBE".toList ∧
      f.command ≠ "UNSUBSCRIBE".toList ∧ f.command ≠ "DISCONNECT".toList)
    (subs : List (Text × Text)) :
    openStep c subs (s, .frame c f) = subs ∧ ¬ leaves c (s, .frame c f) := by
  constructor
  · simp only [openStep, true_and]
    split
    · next ha => rw [if_neg (h ha).1, if_neg (h ha).2.1, if_neg (h ha).2.2]
    · rfl
  · rintro ⟨-, ha, hc⟩
    exact (h ha).2.2 hc

theorem Allowed.stays {trace : List (Server × ServerEvent)} {c : ConnectionId} {f : StompFrame}
    (ha : Allowed trace c f) (s : Server) (hc : f.command ≠ "DISCONNECT".toList) :
    ∀ e ∈ trace ++ [(s, .frame c f)], ¬ leaves c e := by
  intro e he
  rcases List.mem_append.mp he with he | he
  · exact ha.present e he
  · cases List.mem_singleton.mp he
    exact fun hl => hc hl.2.2

theorem books_subscribe {trace : List (Server × ServerEvent)} {s : Server} {p : Session}
    {f : StompFrame} {t : Text} {i : Int} (h : Books trace s p.connectionId)
    (hp : s.sessions.lookup p.connectionId = some p) (hs : Subscribes p f t i)
    (ha : Allowed trace p.connectionId f) :
    Books (trace ++ [(s, .frame p.connectionId f)])
      ((s.setConnections (s.connections.addSubscription t p.connectionId i)).setSession
        { p with clientSubscriptions := p.clientSubscriptions.insert i t }) p.connectionId := by
  have hacc : s.accepted p.connectionId f = true := (accepted_iff hp).mpr (.subscribe hs)
  obtain ⟨hid, hi⟩ := canonical_id hs.id_eq fun id he =>
    (ha.subscribe hs.command t hs.destination id he).1
  have hnew := (ha.subscribe hs.command t hs.destination _ hid).2
  have hstep : openSubs p.connectionId (trace ++ [(s, .frame p.connectionId f)]) =
      (t, Decimal.valueOf i) :: openSubs p.connectionId trace := by
    rw [openSubs_snoc, openStep, if_pos ⟨rfl, hacc⟩, if_pos hs.command, hs.destination, hid]
  have hmem : ∀ t' i', (Decimal.InRange i' ∧ (t', Decimal.valueOf i') ∈
      openSubs p.connectionId (trace ++ [(s, .frame p.connectionId f)])) ↔
      (t' = t ∧ i' = i) ∨
        (Decimal.InRange i' ∧ (t', Decimal.valueOf i') ∈ openSubs p.connectionId trace) := by
    intro t' i'
    rw [hstep, List.mem_cons, Prod.mk.injEq]
    constructor
    · rintro ⟨hr, ⟨rfl, hv⟩ | hm⟩
      · exact .inl ⟨rfl, (valueOf_eq_iff hr hi).mp hv⟩
      · exact .inr ⟨hr, hm⟩
    · rintro (⟨rfl, rfl⟩ | ⟨hr, hm⟩)
      · exact ⟨hi, .inl ⟨rfl, rfl⟩⟩
      · exact ⟨hr, .inr hm⟩
  have hstays := ha.stays s (by rw [hs.command]; decide)
  constructor
  · rw [hstep]
    intro sub hsub
    rcases List.mem_cons.mp hsub with rfl | hsub
    · exact canonical_valueOf hi
    · exact h.canonical sub hsub
  · intro t' i'
    rw [hmem, connections_setSession, connections_setConnections,
      ConnectionsImpl.subscription_addSubscription]
    by_cases ht : t' = t
    · subst ht
      have hfree : ¬ (Decimal.InRange i' ∧ (t', Decimal.valueOf i') ∈ openSubs p.connectionId trace) :=
        fun hm => (hnew _ hm.2).1 rfl
      simp [hfree, eq_comm]
    · simp [ht, h.shared t' i']
  · intro hno q hq i' t'
    rw [lookup_setSession, if_pos rfl] at hq
    cases hq
    rw [hmem, Table.lookup_insert_if]
    by_cases hii : i' = i
    · subst hii
      have hfree : ¬ (Decimal.InRange i' ∧ (t', Decimal.valueOf i') ∈ openSubs p.connectionId trace) :=
        fun hm => (hnew _ hm.2).2 rfl
      simp [hfree, eq_comm]
    · have := h.own ha.present p hp i' t'
      simp [hii, this]
  · intro hno _
    exact h.registered ha.present (by simp [hp])
  · intro _
    exact ⟨by rw [lookup_setSession, if_pos rfl]; rfl, hstays⟩

theorem books_unsubscribe {trace : List (Server × ServerEvent)} {s : Server} {p : Session}
    {f : StompFrame} {t : Text} {i : Int} (h : Books trace s p.connectionId)
    (hp : s.sessions.lookup p.connectionId = some p) (hu : Unsubscribes p f t i)
    (ha : Allowed trace p.connectionId f) :
    Books (trace ++ [(s, .frame p.connectionId f)])
      ((s.setConnections (s.connections.removeSubscription t p.connectionId)).setSession
        { p with clientSubscriptions := p.clientSubscriptions.erase i }) p.connectionId := by
  have hacc : s.accepted p.connectionId f = true := (accepted_iff hp).mpr (.unsubscribe hu)
  obtain ⟨hid, hi⟩ := canonical_id hu.id_eq (ha.unsubscribe hu.command)
  have hown := h.own ha.present p hp
  have hstep : openSubs p.connectionId (trace ++ [(s, .frame p.connectionId f)]) =
      (openSubs p.connectionId trace).filter fun sub => some (Decimal.valueOf i) ≠ some sub.2 := by
    rw [openSubs_snoc, openStep, if_pos ⟨rfl, hacc⟩,
      if_neg (by rw [hu.command]; decide), if_pos hu.command, hid]
  have hmem : ∀ t' i', (Decimal.InRange i' ∧ (t', Decimal.valueOf i') ∈
      openSubs p.connectionId (trace ++ [(s, .frame p.connectionId f)])) ↔
      i' ≠ i ∧ Decimal.InRange i' ∧ (t', Decimal.valueOf i') ∈ openSubs p.connectionId trace := by
    intro t' i'
    rw [hstep, List.mem_filter]
    constructor
    · rintro ⟨hr, hm, hne⟩
      refine ⟨?_, hr, hm⟩
      rintro rfl
      simp at hne
    · rintro ⟨hne, hr, hm⟩
      refine ⟨hr, hm, ?_⟩
      have : Decimal.valueOf i ≠ Decimal.valueOf i' := fun hv => hne ((valueOf_eq_iff hi hr).mp hv).symm
      simpa using this
  have hstays := ha.stays s (by rw [hu.command]; decide)
  constructor
  · rw [hstep]
    exact fun sub hsub => h.canonical sub (List.mem_filter.mp hsub).1
  · intro t' i'
    rw [hmem, connections_setSession, connections_setConnections,
      ConnectionsImpl.subscription_removeSubscription, ← h.shared t' i']
    by_cases ht : t' = t
    · subst ht
      have hit := (h.shared t' i).mpr ((hown i t').mp hu.held)
      rw [hit]
      simp [eq_comm]
    · have hit : i' = i → s.connections.subscription t' p.connectionId ≠ some i' := by
        rintro rfl hsome
        have := (hown i' t').mpr ((h.shared t' i').mp hsome)
        exact ht (Option.some.inj (this.symm.trans hu.held))
      simp only [ht, false_and, if_false]
      exact ⟨fun hsome => ⟨fun he => hit he hsome, hsome⟩, fun hsome => hsome.2⟩
  · intro hno q hq i' t'
    rw [lookup_setSession, if_pos rfl] at hq
    cases hq
    rw [hmem, Table.lookup_erase_if]
    by_cases hii : i' = i
    · simp [hii]
    · simp [hii, hown i' t']
  · intro hno _
    rw [connections_setSession, connections_setConnections,
      (s.connections.removeSubscription_fields t p.connectionId).1]
    exact h.registered ha.present (by simp [hp])
  · intro _
    exact ⟨by rw [lookup_setSession, if_pos rfl]; rfl, hstays⟩

theorem books_left {trace : List (Server × ServerEvent)} {s' : Server} {c : ConnectionId}
    {e : Server × ServerEvent} (hsubs : openSubs c (trace ++ [e]) = []) (hl : leaves c e)
    (hnone : ∀ t, s'.connections.subscription t c = none) : Books (trace ++ [e]) s' c := by
  have hleft : ¬ ∀ x ∈ trace ++ [e], ¬ leaves c x := fun h =>
    h e (List.mem_append_right _ (List.mem_singleton_self _)) hl
  exact ⟨by simp [hsubs], by simp [hsubs, hnone], fun h => absurd h hleft, fun h => absurd h hleft,
    fun h => absurd hsubs h⟩

theorem books_accept {trace : List (Server × ServerEvent)} {s : Server}
    (hfresh : s.sessions.lookup (s.connectionCounter + 1) = none)
    (hnone : s.connections.NoTrace (s.connectionCounter + 1))
    (h : Books trace s (s.connectionCounter + 1)) :
    Books (trace ++ [(s, .accept)]) s.accept (s.connectionCounter + 1) := by
  have hsubs : openSubs (s.connectionCounter + 1) (trace ++ [(s, .accept)]) = [] := by
    rw [openSubs_snoc]
    by_contra hne
    have := (h.held hne).1
    rw [hfresh] at this
    cases this
  constructor
  · simp [hsubs]
  · intro t i
    rw [hsubs]
    exact iff_of_false (fun hi => by
      have : s.connections.subscription t _ = some i := hi
      rw [hnone.unsubscribed] at this
      cases this) (by simp)
  · intro _ p hp i t
    rw [s.lookup_accept] at hp
    cases hp
    simp [hsubs, start]
  · intro _ _
    exact Finset.mem_insert_self _ _
  · exact fun hne => absurd hsubs hne

theorem books_frame {trace : List (Server × ServerEvent)} {s s' : Server} {p : Session}
    {f : StompFrame} {out : List Sent} (h : Books trace s p.connectionId)
    (hp : s.sessions.lookup p.connectionId = some p) (ho : Outcome s p f (s', out))
    (ha : Allowed trace p.connectionId f) :
    Books (trace ++ [(s, .frame p.connectionId f)]) s' p.connectionId := by
  have hacc := accepted_iff (f := f) hp
  cases ho with
  | refused reason hno =>
    obtain ⟨hq, hl⟩ := openStep_quiet (fun hs => absurd (hacc.mp hs) hno)
      (openSubs p.connectionId trace)
    exact books_keep h (fun _ => rfl) id (by rw [lookup_setSession, if_pos rfl, hp]; rfl) hq hl
  | @connect login passcode hc =>
    obtain ⟨hq, hl⟩ := openStep_quiet (s := s) (c := p.connectionId) (f := f)
      (fun _ => by rw [hc.command]; decide) (openSubs p.connectionId trace)
    obtain ⟨hreg, htopics, -⟩ := s.connections.authenticateUser_fields p.connectionId login passcode
    refine books_keep h (fun t => ?_) (fun hr => ?_)
      (by rw [lookup_setSession, if_pos rfl, hp]; rfl) hq hl
    · simp [ConnectionsImpl.subscription, htopics]
    · simpa [hreg] using hr
  | subscribe hs => exact books_subscribe h hp hs ha
  | unsubscribe hu => exact books_unsubscribe h hp hu ha
  | send hs =>
    obtain ⟨hq, hl⟩ := openStep_quiet (s := s) (c := p.connectionId) (f := f)
      (fun _ => by rw [hs.command]; decide) (openSubs p.connectionId trace)
    exact books_keep h (fun _ => rfl) id rfl hq hl
  | disconnect hd =>
    have hs : s.accepted p.connectionId f = true := hacc.mpr (.disconnect hd)
    refine books_left ?_ ⟨rfl, hs, hd.command⟩ fun t => ?_
    · rw [openSubs_snoc, openStep, if_pos ⟨rfl, hs⟩, if_neg (by rw [hd.command]; decide),
        if_neg (by rw [hd.command]; decide), if_pos hd.command]
    · simp [ConnectionsImpl.subscription_disconnect]

/-! ## Whole runs -/

theorem books_run {trace : List (Server × ServerEvent)} {s : Server} (h : runs.Run trace s)
    (hd : Disciplined trace) : s.IdsFresh ∧ ∀ c, Books trace s c := by
  induction h with
  | nil =>
    refine ⟨idsFresh_initial, fun c => ⟨by simp [openSubs], ?_, ?_, ?_, by simp [openSubs]⟩⟩
    · intro t i
      exact iff_of_false (fun h => by cases h) (by simp [openSubs])
    · intro _ p hp
      cases hp
    · intro _ hp
      cases hp
  | @snoc trace s e s' hr hs ih =>
    obtain ⟨hf, hbooks⟩ := ih hd.of_append
    refine ⟨idsFresh_step hf hs, fun c => ?_⟩
    obtain ⟨rfl, rfl⟩ | ⟨d, f, p, out, rfl, hp, rfl, -, ho⟩ | ⟨d, rfl, rfl⟩ := next_cases hs
    · by_cases hc : c = s.connectionCounter + 1
      · subst hc
        obtain ⟨hfresh, htrace⟩ := hf _ (Nat.lt_succ_self s.connectionCounter)
        exact books_accept hfresh htrace (hbooks _)
      · exact books_untouched (hbooks c) (s.untouched_accept hc) rfl id
    · by_cases hc : p.connectionId = c
      · subst hc
        exact books_frame (hbooks _) hp ho (hd.at rfl)
      · exact books_untouched (hbooks c) (ho.untouched (Ne.symm hc)) (openStep_other hc s f _)
          fun hl => hc hl.1
    · by_cases hc : d = c
      · subst hc
        refine books_left ?_ rfl fun t => ?_
        · rw [openSubs_snoc]
          simp [openStep]
        · simp [ConnectionsImpl.subscription_disconnect]
      · refine books_untouched (hbooks c) (s.untouched_disconnect (Ne.symm hc)) ?_ hc
        simp [openStep, hc]

/-! ## Messages -/

/-- A MESSAGE with this destination, subscription, message id and body. -/
structure Message (topic id messageId body : Text) (msg : StompFrame) : Prop where
  command : msg.command = "MESSAGE".toList
  destination : msg.getHeader "destination".toList = some topic
  subscription : msg.getHeader "subscription".toList = some id
  messageId : msg.getHeader "message-id".toList = some messageId
  body : msg.body = body

theorem message_messageFrame (topic : Text) (id messageId : Int) (body : Text) :
    Message topic (Decimal.valueOf id) (Decimal.valueOf messageId) body
      (messageFrame topic id messageId body) :=
  ⟨rfl, rfl, rfl, rfl, rfl⟩

/-- The topic and the body of a SEND that is not refused. -/
def acceptedSend : Server × ServerEvent → Option (Text × Text)
  | (s, .frame c f) =>
    if s.accepted c f = true ∧ f.command = "SEND".toList then
      (f.getHeader "destination".toList).map fun topic => (topic, f.body)
    else none
  | _ => none

/-- The messages that a run sends to a connection, in order. -/
def received (c : ConnectionId) (trace : List (Server × ServerEvent)) : List Sent :=
  (trace.flatMap outputs).filter fun x => x.connectionId = c ∧ x.msg.command = "MESSAGE".toList

def sendCount (trace : List (Server × ServerEvent)) : Nat := trace.countP fun e => (acceptedSend e).isSome

theorem send_or_quiet {s s' : Server} {e : ServerEvent} (h : s.next e = some s') :
    (∃ topic body, acceptedSend (s, e) = some (topic, body) ∧
      outputs (s, e) = s.messages topic s.connections.getNextMessageId.1 body ∧
      s'.connections.messageCounter = s.connections.getNextMessageId.1) ∨
    (acceptedSend (s, e) = none ∧ (∀ x ∈ outputs (s, e), x.msg.command ≠ "MESSAGE".toList) ∧
      s'.connections.messageCounter = s.connections.messageCounter) := by
  obtain ⟨rfl, rfl⟩ | ⟨c, f, p, out, rfl, hp, rfl, hpr, ho⟩ | ⟨c, rfl, rfl⟩ := next_cases h
  · exact .inr ⟨rfl, by simp [outputs], rfl⟩
  · have hacc := accepted_iff (f := f) hp
    have hout : outputs (s, .frame p.connectionId f) = out := congrArg Prod.snd hpr
    have hquiet : f.command ≠ "SEND".toList → acceptedSend (s, .frame p.connectionId f) = none :=
      fun hne => if_neg fun h => hne h.2
    have hreceipts : ∀ x ∈ s.receipts p.connectionId f, x.msg.command ≠ "MESSAGE".toList := by
      intro x hx
      rw [receipts_command hx]
      decide
    rw [hout]
    cases ho with
    | refused reason hno =>
      refine .inr ⟨if_neg fun h => hno (hacc.mp h.1), fun x hx => ?_, rfl⟩
      cases List.mem_singleton.mp hx
      show "ERROR".toList ≠ _
      decide
    | @connect login passcode hc =>
      refine .inr ⟨hquiet (by rw [hc.command]; decide), fun x hx => ?_, ?_⟩
      · rcases List.mem_cons.mp hx with rfl | hx
        · show connectedFrame.command ≠ _
          decide
        · exact hreceipts x hx
      · exact (s.connections.authenticateUser_fields p.connectionId login passcode).2.2
    | subscribe hs => exact .inr ⟨hquiet (by rw [hs.command]; decide), hreceipts, rfl⟩
    | @unsubscribe t i hu =>
      exact .inr ⟨hquiet (by rw [hu.command]; decide), hreceipts,
        (s.connections.removeSubscription_fields t p.connectionId).2.2.2⟩
    | @send topic hs =>
      refine .inl ⟨topic, f.body, ?_, rfl, rfl⟩
      rw [acceptedSend, if_pos ⟨hacc.mpr (.send hs), hs.command⟩, hs.destination]
      rfl
    | disconnect hd =>
      refine .inr ⟨hquiet (by rw [hd.command]; decide), hreceipts, ?_⟩
      exact (s.connections.removeSubscriptions_fields p.connectionId _).2.2.2
  · exact .inr ⟨rfl, by simp [outputs], rfl⟩

theorem messageCounter_run {trace : List (Server × ServerEvent)} {s : Server}
    (h : runs.Run trace s) : s.connections.messageCounter = Decimal.wrap (sendCount trace) := by
  induction h with
  | nil => rfl
  | @snoc trace s e s' hr hs ih =>
    have hcount : sendCount (trace ++ [(s, e)]) =
        sendCount trace + if (acceptedSend (s, e)).isSome then 1 else 0 := by
      simp [sendCount, List.countP_append, List.countP_cons]
    rcases send_or_quiet hs with ⟨topic, body, hsend, -, hc⟩ | ⟨hnone, -, hc⟩
    · rw [hc, hcount, hsend, Option.isSome_some, if_pos rfl, ← Decimal.wrap_wrap_succ, ← ih]
      rfl
    · rw [hc, hcount, hnone, ih, Option.isSome_none, if_neg (by decide), Nat.add_zero]

/-! ## Exactly once -/

/-- Every accepted SEND reaches each connection with an open subscription once, nothing else makes
a message, and message ids grow. -/
structure ExactlyOnce (trace : List (Server × ServerEvent)) : Prop where
  delivered : ∀ pre e post topic body, trace = pre ++ e :: post →
    acceptedSend e = some (topic, body) → ∃ messageId, ∀ c,
      (∀ id, (topic, id) ∈ openSubs c pre → ∃ msg, Message topic id messageId body msg ∧
        sentTo c (outputs e) = [⟨c, msg, true⟩]) ∧
      ((∀ id, (topic, id) ∉ openSubs c pre) → sentTo c (outputs e) = [])
  nothing_else : ∀ pre e post, trace = pre ++ e :: post → ∀ x ∈ outputs e,
    x.msg.command = "MESSAGE".toList → ∃ topic body id,
      x.msg.getHeader "destination".toList = some topic ∧ acceptedSend e = some (topic, body) ∧
        (topic, id) ∈ openSubs x.connectionId pre
  increasing : sendCount trace < 2 ^ 31 → ∀ c, ∃ ids : List Int, ids.Pairwise (· < ·) ∧
    (received c trace).map (fun x => x.msg.getHeader "message-id".toList) =
      ids.map fun n => some (Decimal.valueOf n)

theorem mem_openSubs_of_subscription {trace : List (Server × ServerEvent)} {s : Server}
    {c : ConnectionId} {t : Text} {i : Int} (h : Books trace s c)
    (hi : s.connections.subscription t c = some i) : (t, Decimal.valueOf i) ∈ openSubs c trace :=
  ((h.shared t i).mp hi).2

theorem subscription_of_mem_openSubs {trace : List (Server × ServerEvent)} {s : Server}
    {c : ConnectionId} {t id : Text} (h : Books trace s c) (hm : (t, id) ∈ openSubs c trace) :
    ∃ i, id = Decimal.valueOf i ∧ s.connections.subscription t c = some i ∧
      s.connections.isRegistered c = true := by
  obtain ⟨i, hi, rfl⟩ := canonical_exists (h.canonical _ hm)
  obtain ⟨hsome, hpresent⟩ := h.held (List.ne_nil_of_mem hm)
  exact ⟨i, rfl, (h.shared t i).mpr ⟨hi, hm⟩, by
    simpa [ConnectionsImpl.isRegistered] using h.registered hpresent hsome⟩

theorem delivered_step {trace : List (Server × ServerEvent)} {s : Server} {c : ConnectionId}
    (h : Books trace s c) (topic body : Text) (m : Int) :
    (∀ id, (topic, id) ∈ openSubs c trace → ∃ msg, Message topic id (Decimal.valueOf m) body msg ∧
      sentTo c (s.messages topic m body) = [⟨c, msg, true⟩]) ∧
    ((∀ id, (topic, id) ∉ openSubs c trace) → sentTo c (s.messages topic m body) = []) := by
  constructor
  · intro id hm
    obtain ⟨i, rfl, hi, hreg⟩ := subscription_of_mem_openSubs h hm
    refine ⟨_, message_messageFrame topic i m body, ?_⟩
    rw [sentTo_messages, hi]
    simp [sent, hreg]
  · intro hnone
    cases hi : s.connections.subscription topic c with
    | none => rw [sentTo_messages, hi]; rfl
    | some i => exact absurd (mem_openSubs_of_subscription h hi) (hnone _)

theorem received_snoc (c : ConnectionId) (trace : List (Server × ServerEvent))
    (e : Server × ServerEvent) :
    received c (trace ++ [e]) = received c trace ++
      (sentTo c (outputs e)).filter fun x => x.msg.command = "MESSAGE".toList := by
  rw [received, List.flatMap_append, List.filter_append, sentTo, List.filter_filter,
    List.flatMap_singleton]
  simp only [received, Bool.decide_and, Bool.and_comm]

theorem sendCount_snoc (trace : List (Server × ServerEvent)) (e : Server × ServerEvent) :
    sendCount (trace ++ [e]) = sendCount trace + if (acceptedSend e).isSome then 1 else 0 := by
  simp [sendCount, List.countP_append, List.countP_cons]

theorem increasing_run {trace : List (Server × ServerEvent)} {s : Server} (h : runs.Run trace s)
    (hlt : sendCount trace < 2 ^ 31) (c : ConnectionId) :
    ∃ ids : List Int, ids.Pairwise (· < ·) ∧ (∀ n ∈ ids, n ≤ sendCount trace) ∧
      (received c trace).map (fun x => x.msg.getHeader "message-id".toList) =
        ids.map fun n => some (Decimal.valueOf n) := by
  induction h with
  | nil => exact ⟨[], .nil, by simp, rfl⟩
  | @snoc trace s e s' hr hs ih =>
    rw [sendCount_snoc] at hlt
    obtain ⟨ids, hsorted, hle, hids⟩ := ih (by omega)
    rw [received_snoc, sendCount_snoc]
    rcases send_or_quiet hs with ⟨topic, body, hsend, hout, -⟩ | ⟨hnone, hout, -⟩
    · rw [hsend, Option.isSome_some, if_pos rfl] at hlt ⊢
      have hm : s.connections.getNextMessageId.1 = (sendCount trace + 1 : Nat) := by
        rw [← Decimal.wrap_nat hlt, ← Decimal.wrap_wrap_succ, ← messageCounter_run hr]
        rfl
      rw [hout, sentTo_messages, hm]
      cases s.connections.subscription topic c with
      | none =>
        refine ⟨ids, hsorted, fun n hn => by have := hle n hn; omega, ?_⟩
        rw [Option.toList_none, List.map_nil, List.filter_nil, List.append_nil]
        exact hids
      | some i =>
        refine ⟨ids ++ [((sendCount trace + 1 : Nat) : Int)], ?_, ?_, ?_⟩
        · rw [List.pairwise_append]
          refine ⟨hsorted, List.pairwise_singleton _ _, fun a ha b hb => ?_⟩
          have := hle a ha
          rw [List.mem_singleton.mp hb]
          omega
        · intro n hn
          rcases List.mem_append.mp hn with hn | hn
          · have := hle n hn
            omega
          · rw [List.mem_singleton.mp hn]
        · rw [List.map_append, hids, List.map_append]
          rfl
    · have hnil : (sentTo c (outputs (s, e))).filter
          (fun x => x.msg.command = "MESSAGE".toList) = [] := by
        rw [List.filter_eq_nil_iff]
        intro x hx
        rw [decide_eq_true_eq]
        exact hout x (List.mem_filter.mp hx).1
      rw [hnil, List.append_nil, hnone]
      exact ⟨ids, hsorted, hle, hids⟩

theorem exactly_once {trace : List (Server × ServerEvent)} {s : Server} (h : runs.Run trace s)
    (hd : Disciplined trace) : ExactlyOnce trace where
  delivered pre e post topic body he hsend := by
    obtain ⟨hr, s', hs, -⟩ := h.split he
    have hbooks := (books_run hr (Disciplined.of_append (he ▸ hd))).2
    rcases send_or_quiet hs with ⟨t, b, hsend', hout, -⟩ | ⟨hnone, -⟩
    · cases hsend.symm.trans hsend'
      refine ⟨Decimal.valueOf e.1.connections.getNextMessageId.1, fun c => ?_⟩
      rw [show outputs e = _ from hout]
      exact delivered_step (hbooks c) topic body _
    · rw [hsend] at hnone
      cases hnone
  nothing_else pre e post he x hx hcommand := by
    obtain ⟨hr, s', hs, -⟩ := h.split he
    have hbooks := (books_run hr (Disciplined.of_append (he ▸ hd))).2
    rcases send_or_quiet hs with ⟨t, b, hsend, hout, -⟩ | ⟨-, hout, -⟩
    · rw [hout] at hx
      obtain ⟨⟨c, i⟩, he, rfl⟩ := List.mem_map.mp hx
      have hi : e.1.connections.subscription t c = some i := by
        rw [← ConnectionsImpl.lookup_getSubscribers]
        exact (Table.mem_entries_iff _ c i).mp he
      exact ⟨t, b, _, rfl, hsend, mem_openSubs_of_subscription (hbooks c) hi⟩
    · exact absurd hcommand (hout x hx)
  increasing hlt c := by
    obtain ⟨ids, hsorted, -, hids⟩ := increasing_run h hlt c
    exact ⟨ids, hsorted, hids⟩

/-- Two clients subscribe to one topic, one of them sends, and one leaves before the second SEND. -/
def twoSubscribers : List ServerEvent :=
  [.accept, .accept, .frame 1 (connectFrame "u" "p"), .frame 2 (connectFrame "v" "q"),
    .frame 1 (subscribeFrame "t" "0"), .frame 2 (subscribeFrame "t" "7"),
    .frame 1 (.ofStrings "SEND" [("destination", "t")] "x"), .disconnect 2,
    .frame 1 (.ofStrings "SEND" [("destination", "t")] "y")]

theorem exactly_once_two : ∃ trace s, runs.Run trace s ∧ Disciplined trace ∧ sendCount trace = 2 ∧
    ExactlyOnce trace := by
  obtain ⟨trace, s, hr, hd⟩ := System.exists_run (M := runs) twoSubscribers
    (fun trace _ => decide (Disciplined trace ∧ sendCount trace = 2)) (by decide)
  rw [decide_eq_true_eq] at hd
  exact ⟨trace, s, hr, hd.1, hd.2, exactly_once hr hd.1⟩

end Server

end Stomp
