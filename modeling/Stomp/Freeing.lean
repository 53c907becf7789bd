import Stomp.ClientThreads
import Stomp.Outstanding

/-!
# When the protocol object is freed

The communication thread deletes the connection handler and the protocol object when it leaves its
loop. After a logout it does so only when `main` has nothing left to do but to join it.
-/

open Stomp.Split Stomp.Utf8 Stomp.Client

namespace Stomp

open StompMessageEncoderDecoder StompMessagingProtocolImpl

theorem Client.Command.run_stopCommunication (p : StompProtocol) (username : Bytes)
    (command : Command) : (command.run p username).1.stopCommunication = p.stopCommunication := by
  cases command with
  | join channel =>
    simp only [run, StompProtocol.join]
    split
    · rfl
    · split <;> rfl
  | exit channel =>
    simp only [run, StompProtocol.exit]
    split
    · rfl
    · split <;> rfl
  | report channel_name events =>
    simp only [run, StompProtocol.report]
    split <;> rfl
  | logout =>
    simp only [run, StompProtocol.logout]
    split <;> rfl

namespace Link

/-! ## Why a thread stops -/

/-- The client handled an ERROR, or the RECEIPT of its logout. -/
def Told (c : ConnectionId) (trace : List (Link × LinkEvent)) : Prop :=
  (∃ m ∈ trace.filterMap (handles c), m.command = ascii "ERROR") ∨
    ∃ q ∈ trace.filterMap (requests c), q.requestType = ascii "Logout" ∧
      ∃ m ∈ handlesOf "RECEIPT" c trace, q.Acknowledged m

variable {trace : List (Link × LinkEvent)} {s : Link} {c : ConnectionId} {x : Peer}

theorem Told.snoc (h : Told c trace) (e : Link × LinkEvent) : Told c (trace ++ [e]) := by
  unfold Told
  rw [filterMap_snoc, filterMap_snoc, handlesOf_snoc]
  rcases h with ⟨m, hm, hc⟩ | ⟨q, hq, htype, m, hm, hack⟩
  · exact .inl ⟨m, List.mem_append_left _ hm, hc⟩
  · exact .inr ⟨q, List.mem_append_left _ hq, htype, m, List.mem_append_left _ hm, hack⟩

theorem told_receive {message rest : Bytes} {p : StompProtocol} (hr : runs.Run trace s)
    (hplain : Plain c trace) (hcount : trace.countP (draws c) < 2 ^ 31)
    (hx : s.peers.lookup c = some x) (hgoes : x.protocol.stopCommunication = false)
    (hm : getFrameAscii [] 0 x.toClient = some (message, rest))
    (hp : x.protocol.parseFrame message = some p) (hstop : p.stopCommunication = true) :
    Told c (trace ++ [(s, .receive c)]) := by
  have hhandles : handles c (s, .receive c) = some (StompProtocol.parse message) := by
    rw [handles_receive hx, Peer.incoming, hgoes, hm]
    rfl
  unfold Told
  rw [filterMap_snoc, filterMap_snoc, handlesOf_snoc, hhandles, Option.toList_some]
  cases StompProtocol.parseFrame_handles hp with
  | connected _ | message _ _ _ | unknown _ _ | other _ =>
    exact absurd hstop (by simp [hgoes, StompProtocol.handleConnected])
  | error hc => exact .inl ⟨_, List.mem_append_right _ (List.mem_singleton_self _), hc⟩
  | @receipt id requestType hc hid ht =>
    have htype : requestType = ascii "Logout" := by
      by_contra hne
      dsimp only at hstop
      rw [if_neg hne, hgoes] at hstop
      cases hstop
    obtain ⟨q, hq, hqid, hqtype⟩ := (stores_run hr hplain hcount hx).asked id requestType ht
    refine .inr ⟨q, List.mem_append_left _ hq, hqtype.trans htype, StompProtocol.parse message,
      List.mem_append_right _ ?_, hc, hqid ▸ hid⟩
    exact List.mem_filter.mpr ⟨List.mem_singleton_self _, decide_eq_true hc⟩

theorem told_run (h : runs.Run trace s) (hplain : Plain c trace)
    (hcount : trace.countP (draws c) < 2 ^ 31) (hx : s.peers.lookup c = some x)
    (hstop : x.protocol.stopCommunication = true) : Told c trace := by
  refine peer_run (P := fun trace x => Plain c trace → trace.countP (draws c) < 2 ^ 31 →
    x.protocol.stopCommunication = true → Told c trace) ?_ ?_ h hx hplain hcount hstop
  · intro trace s username password _ _ _ _ _ hstop
    cases hstop
  · intro trace s e x x' hr hx hs ih hplain hcount hstop
    have hpre : trace.countP (draws c) < 2 ^ 31 :=
      Nat.lt_of_le_of_lt (by simp [List.countP_append]) hcount
    have hinit : Plain c trace := fun e he => hplain e (List.mem_append_left _ he)
    have hkeep : x.protocol.stopCommunication = true → Told c (trace ++ [(s, e)]) :=
      fun hstop => (ih hinit hpre hstop).snoc _
    cases hs with
    | quiet _ _ _ _ _ | byte _ _ | frame _ _ | handed _ => exact hkeep hstop
    | command command _ =>
      exact hkeep ((command.run_stopCommunication x.protocol x.username).symm.trans hstop)
    | receive hgoes hm hp => exact told_receive hr hinit hpre hx hgoes hm hp hstop

/-! ## All is read -/

theorem handled_read {q : Request} {m : StompProtocol.Parsed} (h : runs.Run trace s)
    (hplain : Plain c trace) (hcount : trace.countP (draws c) < 2 ^ 31)
    (hx : s.peers.lookup c = some x) (hq : q ∈ trace.filterMap (requests c))
    (hm : m ∈ handlesOf "RECEIPT" c trace) (hack : q.Acknowledged m) :
    ∃ f ∈ (trace.filterMap (reads c)).filter hasReceipt, q.ReadAs f := by
  have hkept : Kept _ _ _ _ x := keeps_run h hplain hcount hx
  obtain ⟨done, waiting, hmatched⟩ := matched_run h hplain hcount hx
  obtain ⟨q', hq', hack'⟩ := forall₂_mem_right hmatched.handled hm
  have hmem : q' ∈ done ++ waiting := List.mem_append_left _ hq'
  obtain rfl : q' = q := List.inj_on_of_nodup_map hkept.distinct (hmatched.made.subset hmem) hq
    (Option.some.inj (hack'.2.symm.trans hack.2))
  obtain ⟨e, he, rfl, hcause⟩ := forall₂_mem_left hmatched.caused hmem
  obtain ⟨-, pre, t, post, y, p, htrace, -, hfor⟩ := mem_handsOf h he
  obtain ⟨f, -, hread⟩ := forall₂_mem_left hkept.asked hq
  cases hread.outcome_eq.symm.trans hcause
  refine ⟨e.cause, List.mem_filter.mpr ⟨List.mem_filterMap.mpr ⟨_, ?_, hfor.reads⟩, ?_⟩, hread⟩
  · rw [htrace]
    exact List.mem_append_right _ List.mem_cons_self
  · simp [hasReceipt, hread.receipt]

theorem undelivered_nil {q : Request} {qs : List Request} {f : StompFrame} {n : Nat}
    {ms : List Framing.ClientFrame} {hs : List StompProtocol.Parsed} {rs us : List StompFrame}
    (hkept : Kept n (qs ++ [q]) ms hs x) (hn : n < 2 ^ 31) (hasked : asked ms = rs ++ us) (hf : f ∈ rs)
    (hread : q.ReadAs f) : us = [] := by
  -- When the last request is read, nothing that asks for a receipt is on its way.
  rcases List.eq_nil_or_concat us with hnil | ⟨us', u, rfl⟩
  · exact hnil
  have hforall := hkept.asked
  rw [hasked, List.concat_eq_append, ← List.append_assoc] at hforall
  obtain ⟨qs', ys, heq, hqs, hys⟩ := forall₂_append_right hforall
  obtain ⟨y, -, rfl⟩ : ∃ y, y = y ∧ ys = [y] := by
    cases hys with
    | cons _ hnil =>
      cases hnil
      exact ⟨_, rfl, rfl⟩
  obtain ⟨rfl, -⟩ := List.append_inj' heq rfl
  obtain ⟨q', hq', hread'⟩ := forall₂_mem_right hqs (List.mem_append_left _ hf)
  -- An earlier request would ask for the same receipt.
  have hid : q'.receiptId = q.receiptId := by
    refine Decimal.valueOf_injective (hkept.inRange hn (List.mem_append_left _ hq'))
      (hkept.inRange hn (List.mem_append_right _ (List.mem_singleton_self _))) ?_
    exact Option.some.inj (hread'.receipt.symm.trans hread.receipt)
  have hdistinct := hkept.distinct
  rw [List.map_append, List.nodup_append] at hdistinct
  exact absurd hid (hdistinct.2.2 _ (List.mem_map_of_mem hq') _
    (List.mem_map_of_mem (List.mem_singleton_self q)))

theorem logout_read {q : Request} {m : StompProtocol.Parsed} (h : runs.Run trace s)
    (hplain : Plain c trace) (hcount : trace.countP (draws c) < 2 ^ 31)
    (hx : s.peers.lookup c = some x) (hq : q ∈ trace.filterMap (requests c))
    (hlogout : q.requestType = ascii "Logout") (hm : m ∈ handlesOf "RECEIPT" c trace)
    (hack : q.Acknowledged m) : x.waits = true ∧ x.toServer = [] := by
  -- When the RECEIPT of the logout is there, the server read all that the client wrote.
  obtain ⟨f, hf, hread⟩ := handled_read h hplain hcount hx hq hm hack
  have hkept : Kept _ _ _ _ x := keeps_run h hplain hcount hx
  rcases hkept.logout with ⟨-, hopen⟩ | ⟨hwaits, ms, qs, q', hms, hqs, hopen⟩
  · exact absurd hlogout (hopen q hq)
  refine ⟨hwaits, ?_⟩
  obtain rfl : q = q' := by
    rw [hqs] at hq
    rcases List.mem_append.mp hq with hq' | hq'
    · exact absurd hlogout (hopen q hq')
    · exact List.mem_singleton.mp hq'
  rw [hqs] at hkept
  have hunread := undelivered_nil hkept hcount (asked_eq h hx) hf hread
  -- The last piece of what was written is the frame of the logout.
  have hwritten : (trace.flatMap (writes c)).flatMap (fun m => (pieces 0 m.wire).map outcome) =
      ms.flatMap (fun m => (pieces 0 m.wire).map outcome) ++ [.frame f] := by
    rw [hms, List.flatMap_append, List.flatMap_singleton, Framing.ClientFrame.wire_eq,
      pieces_cons _ _ _ hread.text, pieces_nil, List.map_singleton, hread.outcome_eq]
  have hpieces : pieces 0 (x.encdec.pending ++ x.toServer) = [] := by
    rcases List.eq_nil_or_concat (pieces 0 (x.encdec.pending ++ x.toServer)) with hnil | ⟨ps, p, hps⟩
    · exact hnil
    have hreads := reads_toServer h hx
    rw [hwritten, hps, List.concat_eq_append, List.map_append, ← List.append_assoc] at hreads
    obtain ⟨-, hlast⟩ := List.append_inj' hreads rfl
    have hmem : f ∈ x.undelivered.filter hasReceipt := by
      refine List.mem_filter.mpr ⟨List.mem_filterMap.mpr ⟨p, ?_, ?_⟩, by simp [hasReceipt, hread.receipt]⟩
      · rw [hps, List.concat_eq_append]
        exact List.mem_append_right _ (List.mem_singleton_self p)
      · rw [List.singleton_inj.mp hlast]
    rw [hunread] at hmem
    cases hmem
  obtain ⟨-, ⟨ps, hps, -⟩, -⟩ := channels_run h hx
  rcases List.eq_nil_or_concat (x.encdec.pending ++ x.toServer) with hnil | ⟨bs, b, hbs⟩
  · exact (List.append_eq_nil_iff.mp hnil).2
  have hend := hps.eq
  rw [hbs, List.concat_eq_append, written, hms, List.flatMap_append, List.flatMap_singleton,
    Framing.ClientFrame.wire_eq, ← List.append_assoc, ← List.append_assoc] at hend
  obtain ⟨-, hb⟩ := List.append_inj' hend rfl
  rw [hbs, List.concat_eq_append, ← List.singleton_inj.mp hb] at hpieces
  rw [pieces_snoc, if_pos rfl] at hpieces
  exact absurd hpieces (by simp)

end Link

/-! ## What is left of a logout -/

namespace Peer

theorem run_appends (p : Branch) (x : Peer) : ∃ bs, (p.run answer x).2.toServer = x.toServer ++ bs := by
  induction p generalizing x with
  | ret a => exact ⟨[], (List.append_nil _).symm⟩
  | call k next ih =>
    obtain ⟨bs, hbs⟩ := ih (answer k x).1 (answer k x).2
    cases k with
    | write b => exact ⟨b :: bs, hbs.trans (by simp [answer])⟩
    | _ => exact ⟨bs, hbs⟩

/-- A logged in client with nothing to write has nothing to do but to join its thread. -/
def Quiet (p : Branch) : Prop :=
  ∀ x : Peer, x.Connected → (p.run answer x).2.toServer = x.toServer → p.Calls (· = .join)

/-- A logged in client has something to write. -/
def Writes (p : Branch) : Prop :=
  ∀ x : Peer, x.Connected → (p.run answer x).2.toServer ≠ x.toServer

theorem Writes.quiet {p : Branch} (h : Writes p) : Quiet p := fun x hx heq => absurd heq (h x hx)

theorem writes_write (b : UInt8) (next : Unit → Branch) : Writes (.call (.write b) next) := by
  intro x _ heq
  obtain ⟨bs, hbs⟩ := run_appends (next ()) (answer (.write b) x).2
  have hlength := congrArg List.length (hbs.symm.trans heq)
  simp [answer] at hlength

theorem writes_isConnected {next : Bool → Branch} (h : Writes (next true)) :
    Writes (.call .isConnected next) := by
  intro x hx
  rw [Prog.run_call]
  show ((next x.protocol.connected).run answer x).2.toServer ≠ x.toServer
  rw [hx]
  exact h x hx

theorem writes_sendBytes {f : Unit → Branch} (bytes : Bytes) (h : Writes (f ())) :
    Writes (Branch.sendBytes bytes >>= f) := by
  cases bytes with
  | nil => exact h
  | cons b bytes => exact writes_write b _

theorem quiet_sendBytes {f : Unit → Branch} (bytes : Bytes) (h : (f ()).Always Quiet) :
    (Branch.sendBytes bytes >>= f).Always Quiet := by
  induction bytes with
  | nil => exact h
  | cons b bytes ih => exact ⟨(writes_write b _).quiet, fun _ => ih⟩

theorem quiet_joins : Call.joins.Always Quiet :=
  ⟨fun _ _ _ => ⟨rfl, fun _ => trivial⟩, fun _ _ _ _ => trivial⟩

theorem quiet_sendFrame (m : Framing.ClientFrame) :
    Writes (Branch.sendFrame m >>= fun _ => Call.joins) ∧
      (Branch.sendFrame m >>= fun _ => Call.joins).Always Quiet := by
  have hsent : ∀ frame, Writes (Branch.sendFrameAscii frame 0 >>= fun _ => Call.joins) ∧
      (Branch.sendFrameAscii frame 0 >>= fun _ => Call.joins).Always Quiet := by
    intro frame
    unfold Branch.sendFrameAscii
    rw [Prog.bind_assoc]
    exact ⟨writes_sendBytes _ (writes_write 0 _), quiet_sendBytes _ (quiet_sendBytes [0] quiet_joins)⟩
  obtain ⟨hwrites, hquiet⟩ := hsent (StompProtocol.frameStr m.command m.headers m.body)
  have hwrites : Writes (Branch.sendFrame m >>= fun _ => Call.joins) := writes_isConnected hwrites
  refine ⟨hwrites, hwrites.quiet, fun connected => ?_⟩
  show ((if !connected ∧ m.command ≠ ascii "CONNECT" then pure ()
    else Branch.sendFrameAscii (StompProtocol.frameStr m.command m.headers m.body) 0) >>=
      fun _ => Call.joins).Always Quiet
  split
  · exact quiet_joins
  · exact hquiet

theorem quiet_logout : Branch.logout.Always Quiet := by
  have hstore : ∀ receiptId : Int, Writes (Call.stores receiptId (ascii "Logout") >>= fun _ =>
      Branch.sendFrame (disconnectFrame receiptId) >>= fun _ => Call.joins) :=
    fun receiptId x hx => (quiet_sendFrame (disconnectFrame receiptId)).1 _ hx
  have hdraw : Writes (.call .getNextReceiptId fun receiptId => Call.stores receiptId
      (ascii "Logout") >>= fun _ => Branch.sendFrame (disconnectFrame receiptId) >>=
        fun _ => Call.joins) := fun x hx => hstore _ _ hx
  refine ⟨(writes_isConnected hdraw).quiet, fun connected => ?_⟩
  cases connected with
  | false => exact fun _ _ _ => trivial
  | true =>
    exact ⟨hdraw.quiet, fun receiptId => ⟨(hstore receiptId).quiet, fun _ =>
      (quiet_sendFrame (disconnectFrame receiptId)).2⟩⟩

end Peer

namespace ClientThreads

variable {trace : List (ClientThreads × ClientThreadsEvent)} {s : ClientThreads} {c : ConnectionId}
  {x : Peer}

theorem quiet_run (h : runs.Run trace s) :
    ∀ d, s.doing c = some d → d.command = .logout → d.rest.Always Peer.Quiet := by
  induction h with
  | nil => exact nofun
  | @snoc trace s e s' _ hs ih =>
    cases e with
    | link e =>
      obtain ⟨-, l, -, rfl⟩ := next_link hs
      exact ih
    | start c' command =>
      obtain ⟨y, -, -, -, rfl⟩ := next_start hs
      dsimp only
      by_cases hc : c = c'
      · subst hc
        rw [Function.update_self]
        intro d hd hlogout
        cases hd
        dsimp only at hlogout ⊢
        rw [hlogout]
        exact Peer.quiet_logout
      · rw [Function.update_of_ne hc]
        exact ih
    | call c' =>
      obtain ⟨y, command, k, rest, -, hdoing, rfl⟩ := next_call hs
      dsimp only
      by_cases hc : c = c'
      · subst hc
        rw [Function.update_self]
        intro d hd hlogout
        cases hd
        exact (ih _ hdoing hlogout).2 _
      · rw [Function.update_of_ne hc]
        exact ih

theorem started_run (h : runs.Run trace s) :
    s.doing c = none → trace.filterMap (started c) = [] := by
  induction h with
  | nil => exact fun _ => rfl
  | @snoc trace s e s' _ hs ih =>
    rw [filterMap_snoc]
    cases e with
    | link e =>
      obtain ⟨-, l, -, rfl⟩ := next_link hs
      intro hd
      rw [ih hd]
      rfl
    | start c' command =>
      obtain ⟨y, -, -, -, rfl⟩ := next_start hs
      dsimp only
      by_cases hc : c = c'
      · subst hc
        rw [Function.update_self]
        intro hd
        cases hd
      · rw [Function.update_of_ne hc]
        intro hd
        rw [ih hd]
        simp [started, hc]
    | call c' =>
      obtain ⟨y, command, k, rest, -, hdoing, rfl⟩ := next_call hs
      dsimp only
      by_cases hc : c = c'
      · subst hc
        rw [Function.update_self]
        intro hd
        cases hd
      · rw [Function.update_of_ne hc]
        intro hd
        rw [ih hd]
        rfl

theorem commands_of_request {trace : List (Link × LinkEvent)} {q : Request}
    (h : q ∈ trace.filterMap (Link.requests c)) : trace.filterMap (Link.commands c) ≠ [] := by
  obtain ⟨⟨t, e⟩, he, hq⟩ := List.mem_filterMap.mp h
  cases e with
  | command d command =>
    obtain ⟨rfl, -⟩ : c = d ∧ _ := Option.ite_none_right_eq_some.mp hq
    exact List.ne_nil_of_mem (List.mem_filterMap.mpr ⟨_, he, if_pos rfl⟩)
  | login _ _ | deliver _ | receive _ | lose _ | disconnect _ => cases hq

theorem countP_draws_le (c : ConnectionId) (trace : List (Link × LinkEvent)) :
    trace.countP (Link.draws c) ≤ (trace.filterMap (Link.commands c)).length := by
  have hsome : ∀ e, Link.draws c e = true → (Link.commands c e).isSome = true := by
    rintro ⟨t, e⟩ he
    cases e with
    | command d command =>
      obtain ⟨hd, -⟩ := Bool.and_eq_true_iff.mp he
      simp [Link.commands, (of_decide_eq_true hd).symm]
    | login _ _ | deliver _ | receive _ | lose _ | disconnect _ => cases he
  rw [List.length_filterMap_eq_countP]
  exact List.countP_mono_left fun e _ he => hsome e he

/-- If a client handled no ERROR, its communication thread comes to the end of its loop, and frees
what both threads use, only when `main` is in its logout and waits for it, or is about to. -/
theorem freed_late (h : runs.Run trace s)
    (hplain : ∀ command ∈ trace.filterMap (started c), command.ChannelsPlain ∧ command.NoNul)
    (hcount : (trace.filterMap (started c)).length < 2 ^ 31)
    (herror : ∀ m ∈ trace.filterMap (handles c), m.command ≠ ascii "ERROR")
    (hx : s.link.peers.lookup c = some x) (hstop : x.protocol.stopCommunication = true) :
    ∃ rest, s.doing c = some ⟨.logout, rest⟩ ∧ rest.Calls (· = .join) ∧
      (x.waits = true ∨ ∃ next, rest = .call .join next) := by
  obtain ⟨trace', t, owed, hr, hbeside, hfollows⟩ := next_run h
  obtain ⟨y, hy, hm⟩ := hbeside.peer hx
  have hcommands := hfollows.commands c
  have hplain' : Link.Plain c trace' := by
    intro e he command heq
    refine hplain command ?_
    rw [hcommands]
    refine List.mem_append_left _ (List.mem_filterMap.mpr ⟨e, he, ?_⟩)
    obtain ⟨t, e⟩ := e
    dsimp only at heq
    subst heq
    exact if_pos rfl
  have hcount' : trace'.countP (Link.draws c) < 2 ^ 31 := by
    have hle := countP_draws_le c trace'
    rw [hcommands, List.length_append] at hcount
    omega
  obtain ⟨y', hy', -⟩ := hm.others (.stop hstop)
  have htold := Link.told_run hr hplain' hcount' hy (Peer.stop_cases hy')
  unfold Link.Told at htold
  rw [hfollows.handles] at htold
  rcases htold with ⟨m, hm, hc⟩ | ⟨q, hq, hlogout, m, hm', hack⟩
  · exact absurd hc (herror m hm)
  obtain ⟨hwaits, hread⟩ := Link.logout_read hr hplain' hcount' hy hq hlogout hm' hack
  generalize owed c = qs at hm hcommands
  generalize hd : s.doing c = d at hm
  cases hm with
  | none =>
    rw [started_run h hd, List.append_nil] at hcommands
    exact absurd hcommands.symm (commands_of_request hq)
  | before hw _ => exact absurd (hw.symm.trans hwaits) Bool.false_ne_true
  | @after command rest _ _ hw hafter =>
    obtain rfl := hw hwaits
    obtain ⟨hcloses, rfl⟩ := hafter
    have hquiet := (quiet_run h _ hd rfl).here
    refine ⟨rest, rfl, ?_⟩
    rcases hcloses with ⟨a, rfl⟩ | ⟨hconnected, -⟩
    · exact ⟨trivial, .inl hwaits⟩
    · obtain ⟨bs, hbs⟩ := Peer.run_appends rest x
      rw [hread] at hbs
      have hjoin : rest.Calls (· = .join) :=
        hquiet x hconnected (hread.trans (List.append_eq_nil_iff.mp hbs.symm).1.symm)
      refine ⟨hjoin, ?_⟩
      cases rest with
      | ret a => exact .inl hwaits
      | call k next =>
        obtain ⟨rfl, -⟩ := hjoin
        exact .inr ⟨next, rfl⟩

/-- A client logs in and out, and handles the RECEIPT before its `main` joins the thread. -/
def freedRun : List ClientThreadsEvent :=
  .link (.login (word "u" Link.nl_not_mem_u) (word "p" Link.nl_not_mem_p)) ::
    List.replicate 72 (.link (.deliver 1)) ++ [.link (.receive 1), .start 1 .logout] ++
      List.replicate 27 (.call 1) ++ List.replicate 23 (.link (.deliver 1)) ++ [.link (.receive 1)]

theorem freed_late_join : ∃ trace s x next, runs.Run trace s ∧ s.link.peers.lookup 1 = some x ∧
    x.protocol.stopCommunication = true ∧ x.waits = false ∧
    s.doing 1 = some ⟨.logout, .call .join next⟩ := by
  obtain ⟨trace, s, hr, hl, hs⟩ := System.exists_run_labels (M := runs) freedRun (fun trace s =>
    (trace.filterMap (handles 1)).all (fun m => decide (m.command ≠ ascii "ERROR")) &&
      decide ((trace.filterMap (started 1)).length < 2 ^ 31) &&
        (s.link.peers.lookup 1).any fun x : Peer => x.protocol.stopCommunication && !x.waits)
    (by decide +kernel)
  simp only [Bool.and_eq_true, List.all_eq_true, decide_eq_true_eq, Bool.not_eq_true',
    Option.any_eq_true] at hs
  obtain ⟨⟨herror, hcount⟩, x, hx, hstop, hwaits⟩ := hs
  have hplain : ∀ command ∈ trace.filterMap (started 1), command.ChannelsPlain ∧ command.NoNul := by
    intro command hc
    obtain ⟨⟨t, e⟩, he, heq⟩ := List.mem_filterMap.mp hc
    have hmem : e ∈ freedRun := hl ▸ List.mem_map_of_mem he
    simp only [freedRun, List.mem_append, List.mem_cons, List.mem_replicate] at hmem
    rcases hmem with ((((h | ⟨-, h⟩) | h | h | h) | ⟨-, h⟩) | ⟨-, h⟩) | h | h <;> cases h <;> cases heq
    exact ⟨trivial, trivial⟩
  obtain ⟨rest, hd, -, hjoins | ⟨next, rfl⟩⟩ := freed_late hr hplain hcount herror hx hstop
  · exact absurd (hwaits.symm.trans hjoins) Bool.false_ne_true
  · exact ⟨trace, s, x, next, hr, hx, hstop, hwaits, hd⟩

end ClientThreads

end Stomp
