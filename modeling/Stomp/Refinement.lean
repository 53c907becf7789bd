import Stomp.Checked
import Stomp.ServerRun

/-!
# The checks that never fail

A frame, a decoder, a session and the tables of the server have no null in them. From there the
code with its exceptions ends normally, and does what the code without them does. Only
`fromString` can throw.
-/

open Stomp.Split Stomp.Utf8

namespace Stomp

open Throws

variable {S : Type}

/-! ## Frames -/

namespace StompFrame

def checked (f : StompFrame) : Checked.StompFrame :=
  ⟨some f.command, Table.mapValues some f.headers, some f.body⟩

@[simp]
theorem getHeader_checked (f : StompFrame) (key : Text) : f.checked.getHeader key = f.getHeader key := by
  show ((Table.mapValues some f.headers).lookup key).join = f.headers.lookup key
  rw [Table.lookup_mapValues]
  cases f.headers.lookup key <;> rfl

theorem toString_ends (f : StompFrame) (s : S) : Ends f.checked.toString s f.toString s := by
  apply (deref_ends f.body s).bind
  have hlines : (Table.mapValues some f.headers).entries.map Checked.StompFrame.headerLine =
      f.headers.entries.map headerLine := List.map_map
  rw [show f.checked.headers = Table.mapValues some f.headers from rfl, hlines]
  exact ends_pure _ s

theorem putHeader_ends (headers : Table Text Text) (line : Text) (s : S) :
    Ends (Checked.StompFrame.putHeader (Table.mapValues some headers) line) s
      (Table.mapValues some (putHeader headers line)) s := by
  unfold Checked.StompFrame.putHeader Checked.split putHeader HeaderLines.put
  obtain ⟨key, _ | value⟩ := splitOnce [':'] line
  · exact ends_pure _ s
  · rw [Table.mapValues_insert]
    exact ends_pure _ s

theorem fromString_checked (message : Text) (s : S) :
    (Checked.StompFrame.fromString (some message)).result s =
      (match fromString message with
        | some f => .ok f.checked
        | none => .error .indexOutOfBounds, s) := by
  unfold Checked.StompFrame.fromString fromString
  rw [result_bind (deref_ends message s)]
  have hcut : Ends (if message.getLast? = some '\x00' then slice message 0 (message.length - 1)
      else pure message : Throws S Text) s
      (if message.getLast? = some '\x00' then message.dropLast else message) s := by
    split
    · rw [List.dropLast_eq_take]
      exact slice_ends (Nat.sub_le _ _) s
    · exact ends_pure _ s
  rw [result_bind hcut]
  generalize (if message.getLast? = some '\x00' then message.dropLast else message) = message
  rw [result_bind (index_ends (x := (splitOnce ['\n', '\n'] message).1) rfl s)]
  have hbody : Ends (if 1 < (Checked.split ['\n', '\n'] message).length then
      index (Checked.split ['\n', '\n'] message) 1 else pure [] : Throws S Text) s
      ((splitOnce ['\n', '\n'] message).2.getD []) s := by
    unfold Checked.split
    cases (splitOnce ['\n', '\n'] message).2 with
    | none => exact ends_pure _ s
    | some body =>
      rw [if_pos (by simp)]
      exact index_ends (x := body) rfl s
  rw [result_bind hbody]
  dsimp only
  cases splitAll '\n' (splitOnce ['\n', '\n'] message).1 with
  | nil => exact result_bind_error (index_throws (le_refl 0) s) _
  | cons command lines =>
    rw [result_bind (index_ends (x := command) rfl s)]
    have hloop : Ends ((List.range' 1 ((command :: lines).length - 1)).foldlM
        (fun headers i => index (command :: lines) i >>= Checked.StompFrame.putHeader headers) ∅) s
        (Table.mapValues some (lines.foldl putHeader ∅)) s :=
      ends_foldlM_index putHeader_ends [command] lines ∅ s
    rw [result_bind hloop]
    rfl

end StompFrame

/-! ## The decoder -/

namespace StompMessageEncoderDecoder

def checked (d : StompMessageEncoderDecoder) : Checked.StompMessageEncoderDecoder := ⟨d.bytes, d.len⟩

theorem grow_ends (d : StompMessageEncoderDecoder) (h : d.len < 2 ^ 30) :
    ∃ bytes, d.len < bytes.length ∧ Ends Checked.StompMessageEncoderDecoder.grow d.checked ()
        ⟨bytes, d.len⟩ ∧
      ∀ b, ∃ d', d.pushByte b = some d' ∧ d'.bytes = bytes.set d.len b ∧ d'.len = d.len + 1 := by
  by_cases hroom : d.len < d.bytes.length
  · refine ⟨d.bytes, hroom, (ends_get _).bind ?_, fun b => ?_⟩
    · rw [if_pos (show d.checked.len < d.checked.bytes.length from hroom)]
      exact ends_pure () _
    · rw [pushByte, dif_pos hroom]
      exact ⟨_, rfl, rfl, rfl⟩
  · have hwrap : Decimal.wrap (d.len * 2) = d.len * 2 :=
      Decimal.wrap_of_inRange ⟨by omega, by omega⟩
    have hneg : ¬ Decimal.wrap (d.len * 2) < 0 := by omega
    obtain ⟨htwice, hpos, -⟩ := doubled_size hroom hneg
    refine ⟨copyOf d.bytes (Decimal.wrap (d.len * 2)).toNat, ?_, (ends_get _).bind ?_, fun b => ?_⟩
    · rw [length_copyOf]
      omega
    · rw [if_neg (show ¬ d.checked.len < d.checked.bytes.length from hroom)]
      have hcopy : Ends (Checked.StompMessageEncoderDecoder.copyOf d.bytes (Decimal.wrap (d.len * 2)))
          d.checked (copyOf d.bytes (Decimal.wrap (d.len * 2)).toNat) d.checked := by
        rw [Checked.StompMessageEncoderDecoder.copyOf, if_neg hneg]
        exact ends_pure _ _
      exact hcopy.bind (ends_set _ _)
    · rw [pushByte, dif_neg hroom, dif_neg hneg]
      refine ⟨_, rfl, ?_, ?_⟩
      · dsimp only
      · dsimp only

theorem pushByte_ends {d d' : StompMessageEncoderDecoder} {b : UInt8} (h : d.len < 2 ^ 30)
    (hd : d.pushByte b = some d') :
    Ends (Checked.StompMessageEncoderDecoder.pushByte b) d.checked () d'.checked := by
  obtain ⟨bytes, hroom, hgrow, hpush⟩ := grow_ends d h
  obtain ⟨d'', hd'', hbytes, hlen⟩ := hpush b
  obtain rfl := Option.some.inj (hd.symm.trans hd'')
  have hchecked : d'.checked = ⟨bytes.set d.len b, d.len + 1⟩ := by rw [checked, hbytes, hlen]
  rw [hchecked]
  exact hgrow.bind ((ends_get _).bind ((ends_set _ _).bind ((store_ends hroom b _).bind
    (ends_set _ _))))

theorem decodeNextByte_push (d : StompMessageEncoderDecoder) {b : UInt8} (hb : b ≠ 0)
    (h : d.len < 2 ^ 30) :
    Ends (Checked.StompMessageEncoderDecoder.decodeNextByte b) d.checked none
      (d.decodeNextByte b).2.checked := by
  obtain ⟨d', hd⟩ := pushByte_isSome d b h
  rw [Checked.StompMessageEncoderDecoder.decodeNextByte, if_neg hb, decodeNextByte, if_neg hb, hd]
  exact (pushByte_ends h hd).bind (ends_pure none _)

theorem decodeNextByte_pop (d : StompMessageEncoderDecoder) :
    (Checked.StompMessageEncoderDecoder.decodeNextByte 0).result d.checked =
      (match StompFrame.fromString (Utf8.decode d.pending) with
        | some f => .ok (some f.checked)
        | none => .error .indexOutOfBounds, (d.decodeNextByte 0).2.checked) := by
  have hd : (d.decodeNextByte 0).2.checked = ⟨d.bytes, 0⟩ := by
    rw [decodeNextByte, if_pos rfl, popFrame]
    cases StompFrame.fromString (Utf8.decode (d.bytes.take d.len)) <;> rfl
  rw [hd, Checked.StompMessageEncoderDecoder.decodeNextByte, if_pos rfl, map_eq_pure_bind]
  have hpop : Checked.StompMessageEncoderDecoder.popFrame.result d.checked =
      (Checked.StompFrame.fromString (some (Utf8.decode d.pending))).result ⟨d.bytes, 0⟩ := by
    rw [Checked.StompMessageEncoderDecoder.popFrame, result_bind (ends_get _),
      result_bind (slice_ends (show d.checked.len ≤ d.checked.bytes.length from d.len_le) _), result_bind (ends_set _ _)]
    rfl
  rw [StompFrame.fromString_checked] at hpop
  cases hf : StompFrame.fromString (Utf8.decode d.pending) with
  | none =>
    rw [hf] at hpop
    exact result_bind_error hpop _
  | some f =>
    rw [hf] at hpop
    exact result_bind hpop _

theorem decodeNextByte_cases (d : StompMessageEncoderDecoder) (b : UInt8) (h : d.len < 2 ^ 30)
    (h0 : 0 ∉ d.pending) :
    let d' := (d.decodeNextByte b).2
    (b ≠ 0 ∧ d'.pending = d.pending ++ [b] ∧
        Ends (Checked.StompMessageEncoderDecoder.decodeNextByte b) d.checked none d'.checked) ∨
      (b = 0 ∧ d'.pending = [] ∧ d.pending = [10] ∧
        (Checked.StompMessageEncoderDecoder.decodeNextByte b).result d.checked =
          (.error .indexOutOfBounds, d'.checked)) ∨
      (b = 0 ∧ d'.pending = [] ∧ d.pending ≠ [10] ∧ ∃ f : StompFrame,
        Ends (Checked.StompMessageEncoderDecoder.decodeNextByte b) d.checked (some f.checked)
          d'.checked) := by
  by_cases hb : b = 0
  · subst hb
    refine .inr ?_
    have hnul : '\x00' ∉ Utf8.decode d.pending := fun hm => h0 (mem_decode_ascii '\x00' (by decide) _ hm)
    have hthrows : StompFrame.fromString (Utf8.decode d.pending) = none ↔ d.pending = [10] :=
      (StompFrame.fromString_eq_none_iff hnul).trans (decode_eq_ascii_iff (by decide))
    have hpop := decodeNextByte_pop d
    cases hf : StompFrame.fromString (Utf8.decode d.pending) with
    | none =>
      rw [hf] at hpop
      exact .inl ⟨rfl, (decodeNextByte_zero d).2, hthrows.mp hf, hpop⟩
    | some f =>
      rw [hf] at hpop
      refine .inr ⟨rfl, (decodeNextByte_zero d).2, fun heq => ?_, f, hpop⟩
      rw [hthrows.mpr heq] at hf
      cases hf
  · exact .inl ⟨hb, (decodeNextByte_ne_zero d b hb h).2, decodeNextByte_push d hb h⟩

end StompMessageEncoderDecoder

/-! ## The tables -/

namespace StompMessagingProtocolImpl

def checked (p : StompMessagingProtocolImpl) : Checked.StompMessagingProtocolImpl :=
  ⟨p.connectionId, p.shouldTerminate, p.connected, Table.mapValues some p.clientSubscriptions⟩

end StompMessagingProtocolImpl

/-- A frame that was sent to a registered handler is in its output stream. -/
def written (streams : Table ConnectionId Bytes) (m : Sent) : Table ConnectionId Bytes :=
  if m.delivered then
    streams.modify m.connectionId (· ++ StompMessageEncoderDecoder.encode m.msg)
  else streams

theorem isSome_written (out : List Sent) (streams : Table ConnectionId Bytes) (c : ConnectionId) :
    ((out.foldl written streams).lookup c).isSome = (streams.lookup c).isSome := by
  induction out generalizing streams with
  | nil => rfl
  | cons m out ih =>
    rw [List.foldl_cons, ih, written]
    split
    · rw [Table.lookup_modify]
      split
      · next hc => rw [hc, Option.isSome_map]
      · rfl
    · rfl

/-- The state of a call of `process`, as the handlers without exceptions have it. -/
def view (streams : Table ConnectionId Bytes) (p : Session) (r : Server × List Sent) : Checked.State :=
  ⟨p.checked, r.1.connections, r.2.foldl written streams⟩

section Tables

variable (streams : Table ConnectionId Bytes) (p : Session) (s : Server) (out : List Sent)

theorem this_ends : Ends Checked.StompMessagingProtocolImpl.this (view streams p (s, out)) p.checked
    (view streams p (s, out)) := rfl

theorem put_ends (x : ConnectionsImpl) : Ends (Checked.Connections.put x) (view streams p (s, out)) ()
    (view streams p (s.setConnections x, out)) := ends_modify _ _

theorem setThis_ends (q : Session) : Ends (Checked.StompMessagingProtocolImpl.setThis q.checked)
    (view streams p (s, out)) () (view streams q (s.setSession q, out)) := ends_modify _ _

theorem send_ends {c : ConnectionId} (hc : (streams.lookup c).isSome = true) (msg : StompFrame) :
    Ends (Checked.Connections.send c msg.checked) (view streams p (s, out))
      (s.connections.isRegistered c)
      (view streams p (s, out ++ [⟨c, msg, s.connections.isRegistered c⟩])) := by
  apply (ends_get _).bind
  cases hr : s.connections.isRegistered c with
  | false =>
    rw [if_neg (by rw [show (view streams p (s, out)).connections = s.connections from rfl, hr]; simp)]
    have hview : view streams p (s, out ++ [⟨c, msg, false⟩]) = view streams p (s, out) := by
      simp [view, written]
    rw [hview]
    exact ends_pure false _
  | true =>
    rw [if_pos (show (view streams p (s, out)).connections.isRegistered c = true from hr)]
    have hsome : ((out.foldl written streams).lookup c).isSome = true := by
      rw [isSome_written, hc]
    obtain ⟨bytes, hbytes⟩ := Option.isSome_iff_exists.mp hsome
    have hview : view streams p (s, out ++ [⟨c, msg, true⟩]) = { view streams p (s, out) with
        streams := (out.foldl written streams).insert c
          (bytes ++ StompMessageEncoderDecoder.encode msg) } := by
      simp [view, written, Table.modify, hbytes]
    rw [hview]
    apply ((StompFrame.toString_ends msg _).map _).bind
    rw [show (view streams p (s, out)).streams.lookup c = some bytes from hbytes]
    exact (deref_ends _ _).bind ((ends_set _ _).bind (ends_pure true _))

theorem isUserActive_ends (username : Text) :
    Ends (Checked.Connections.isUserActive (some username)) (view streams p (s, out))
      (s.connections.isUserActive username) (view streams p (s, out)) :=
  (ends_get _).bind (ConcurrentHashMap.containsValue_ends _ _ _)

theorem getSubscribers_ends (topic : Text) :
    Ends (Checked.Connections.getSubscribers (some topic)) (view streams p (s, out))
      (s.connections.getSubscribers topic) (view streams p (s, out)) :=
  (ends_get _).bind (ConcurrentHashMap.getOrDefault_ends _ _ _ _)

theorem getNextMessageId_ends : Ends Checked.Connections.getNextMessageId (view streams p (s, out))
    s.connections.getNextMessageId.1
    (view streams p (s.setConnections s.connections.getNextMessageId.2, out)) :=
  (ends_get _).bind ((put_ends _ _ _ _ _).bind (ends_pure _ _))

theorem disconnect_ends (c : ConnectionId) :
    Ends (Checked.Connections.disconnect c) (view streams p (s, out)) ()
      (view streams p (s.setConnections (s.connections.disconnect c), out)) := ends_modify _ _

theorem authenticateUser_ends (c : ConnectionId) (username password : Text) :
    Ends (Checked.Connections.authenticateUser c (some username) (some password))
      (view streams p (s, out)) (s.connections.authenticateUser c username password).1
      (view streams p (s.setConnections (s.connections.authenticateUser c username password).2, out)) := by
  refine (ends_get _).bind ((ConcurrentHashMap.containsKey_ends _ _ _).bind ?_)
  unfold ConnectionsImpl.authenticateUser
  have hx : (view streams p (s, out)).connections = s.connections := rfl
  rw [hx]
  cases hu : s.connections.users.lookup username with
  | some stored =>
    rw [if_pos (Option.isSome_some)]
    apply (ConcurrentHashMap.get_ends _ _ _).bind
    rw [hu]
    apply (deref_ends stored _).bind
    rw [show decide (some stored = some password) = decide (stored = password) by simp]
    exact ends_pure _ _
  | none =>
    rw [if_neg (by simp)]
    exact (ConcurrentHashMap.put_ends _ _ _ _).bind ((put_ends _ _ _ _ _).bind
      ((ConcurrentHashMap.put_ends _ _ _ _).bind ((put_ends _ _ _ _ _).bind (ends_pure _ _))))

theorem addSubscription_ends (topic : Text) (c : ConnectionId) (i : Int) :
    Ends (Checked.Connections.addSubscription (some topic) c i) (view streams p (s, out)) ()
      (view streams p (s.setConnections (s.connections.addSubscription topic c i), out)) := by
  refine (ends_get _).bind ((ConcurrentHashMap.putIfAbsent_ends _ _ _ _).bind
    ((put_ends _ _ _ _ _).bind ((ConcurrentHashMap.get_ends _ _ _).bind ?_)))
  have hx : (view streams p (s, out)).connections = s.connections := rfl
  rw [hx]
  -- `putIfAbsent` left something under the topic
  obtain ⟨subscribers, hsome⟩ : ∃ subscribers,
      (s.connections.topicSubscriptions.putIfAbsent topic ∅).lookup topic = some subscribers :=
    ⟨_, by rw [Table.lookup_putIfAbsent, if_pos rfl]⟩
  rw [hsome]
  refine (deref_ends subscribers _).bind ((ConcurrentHashMap.put_ends _ _ _ _).bind ?_)
  rw [ConnectionsImpl.addSubscription, Table.modify, hsome]
  exact put_ends _ _ _ _ _

theorem removeSubscription_ends (topic : Text) (c : ConnectionId) :
    Ends (Checked.Connections.removeSubscription (some topic) c) (view streams p (s, out)) ()
      (view streams p (s.setConnections (s.connections.removeSubscription topic c), out)) := by
  refine (ends_get _).bind ((ConcurrentHashMap.containsKey_ends _ _ _).bind ?_)
  have hx : (view streams p (s, out)).connections = s.connections := rfl
  rw [hx, ConnectionsImpl.removeSubscription]
  cases hl : s.connections.topicSubscriptions.lookup topic with
  | none =>
    rw [if_neg (by simp)]
    exact ends_pure () _
  | some subscribers =>
    rw [if_pos (Option.isSome_some)]
    apply (ConcurrentHashMap.get_ends _ _ _).bind
    rw [hl]
    refine (deref_ends subscribers _).bind ((ConcurrentHashMap.put_ends _ _ _ _).bind
      ((put_ends _ _ _ _ _).bind ((ConcurrentHashMap.get_ends _ _ _).bind ?_)))
    rw [AList.lookup_insert]
    apply (deref_ends (subscribers.erase c) _).bind
    dsimp only
    split
    · apply (ConcurrentHashMap.remove_ends _ _ _).bind
      rw [Table.insert_erase_self]
      exact put_ends _ _ _ _ _
    · exact ends_pure () _

end Tables

/-! ## The handlers -/

open StompMessagingProtocolImpl

theorem errorFrame_checked (errorMessage : Text) (receiptId : Option Text) (f : StompFrame) :
    (errorFrame errorMessage receiptId f).checked =
      ⟨some "ERROR".toList,
        (let headers := (∅ : Table Text (Option Text)).insert "message".toList
          (some (' ' :: errorMessage))
        if receiptId = none then headers else headers.insert "receipt-id".toList receiptId),
        some (errorBody errorMessage f)⟩ := by
  cases receiptId with
  | none => rfl
  | some receiptId =>
    rw [if_neg (by simp)]
    show (⟨_, Table.mapValues some (AList.insert "receipt-id".toList receiptId
      (AList.insert "message".toList (' ' :: errorMessage) ∅)), _⟩ : Checked.StompFrame) = _
    rw [Table.mapValues_insert, Table.mapValues_insert]
    rfl

theorem messageFrame_checked (topic : Text) (subscriptionId messageId : Int) (body : Text) :
    (messageFrame topic subscriptionId messageId body).checked =
      ⟨some "MESSAGE".toList,
        (((∅ : Table Text (Option Text)).insert "destination".toList (some topic)).insert
          "subscription".toList (some (Decimal.valueOf subscriptionId))).insert
            "message-id".toList (some (Decimal.valueOf messageId)), some body⟩ := by
  show (⟨_, Table.mapValues some (AList.insert "message-id".toList (Decimal.valueOf messageId)
    (AList.insert "subscription".toList (Decimal.valueOf subscriptionId)
      (AList.insert "destination".toList topic ∅))), _⟩ : Checked.StompFrame) = _
  rw [Table.mapValues_insert, Table.mapValues_insert, Table.mapValues_insert]
  rfl

section Handlers

variable (streams : Table ConnectionId Bytes) (p : Session) (f : StompFrame) (s : Server)
  (out : List Sent)

/-- A handler with its exceptions ends normally, and does what the handler without them does. -/
def Refines (m : Throws Checked.State Unit) (h : Handler) (s : Server) (out : List Sent) : Prop :=
  ∃ q : Session, q.connectionId = p.connectionId ∧
    Ends m (view streams p (s, out)) () (view streams q (h.run Server.answer (s, out)).2) ∧
    (h.run Server.answer (s, out)).2.1.sessions.lookup p.connectionId = some q

variable {streams p s out}

theorem Refines.read {α : Type} {m : Throws Checked.State α} {a : α}
    {k : α → Throws Checked.State Unit} {h : Handler}
    (hm : Ends m (view streams p (s, out)) a (view streams p (s, out)))
    (hk : Refines streams p (k a) h s out) : Refines streams p (m >>= k) h s out := by
  obtain ⟨q, hq, hends, hlookup⟩ := hk
  exact ⟨q, hq, hm.bind hends, hlookup⟩

theorem Refines.bind {α β : Type} {m : Throws Checked.State α} {a : α} {q : Session}
    {h : Prog Call Reply β} {k : α → Throws Checked.State Unit} {next : β → Handler}
    (hm : Ends m (view streams p (s, out)) a (view streams q (h.run Server.answer (s, out)).2))
    (hq : q.connectionId = p.connectionId)
    (hk : Refines streams q (k a) (next (h.run Server.answer (s, out)).1)
      (h.run Server.answer (s, out)).2.1 (h.run Server.answer (s, out)).2.2) :
    Refines streams p (m >>= k) (h >>= next) s out := by
  obtain ⟨r, hr, hends, hlookup⟩ := hk
  rw [hq] at hlookup
  refine ⟨r, hr.trans hq, ?_, ?_⟩
  · rw [Prog.run_bind]
    exact hm.bind hends
  · rw [Prog.run_bind]
    exact hlookup

theorem Refines.call {α : Type} {m : Throws Checked.State α} {a : α} {q : Session} {c : Call}
    {k : α → Throws Checked.State Unit} {next : Reply c → Handler}
    (hm : Ends m (view streams p (s, out)) a (view streams q (Server.answer c (s, out)).2))
    (hq : q.connectionId = p.connectionId)
    (hk : Refines streams q (k a) (next (Server.answer c (s, out)).1) (Server.answer c (s, out)).2.1
      (Server.answer c (s, out)).2.2) : Refines streams p (m >>= k) (Prog.op c >>= next) s out :=
  Refines.bind (h := Prog.op c) hm hq hk

variable (streams p s out)
variable (hown : (streams.lookup p.connectionId).isSome = true)
include hown

theorem sendError_refines (errorMessage : Text) :
    Refines streams p
      (Checked.StompMessagingProtocolImpl.sendError errorMessage (f.getHeader receiptKey) f.checked)
      (sendError p errorMessage (f.getHeader receiptKey) f) s out := by
  refine ⟨{ p with shouldTerminate := true }, rfl, ?_, ?_⟩
  · refine (StompFrame.toString_ends f _).bind ((this_ends _ _ _ _).bind ?_)
    have hsend := send_ends streams p s out hown (errorFrame errorMessage (f.getHeader receiptKey) f)
    rw [errorFrame_checked] at hsend
    exact hsend.bind ((this_ends _ _ _ _).bind (setThis_ends _ _ _ _ { p with shouldTerminate := true }))
  · exact (Server.lookup_setSession _ _ _).trans (if_pos rfl)

variable {p f s out} in
theorem Refines.guard {refused : Prop} [Decidable refused] {errorMessage : Text}
    {m : Throws Checked.State Unit} {h : Handler} (hk : ¬ refused → Refines streams p m h s out) :
    Refines streams p
      (if refused then Checked.StompMessagingProtocolImpl.sendError errorMessage
        (f.getHeader receiptKey) f.checked else m)
      (if refused then sendError p errorMessage (f.getHeader receiptKey) f else h) s out := by
  by_cases hr : refused
  · rw [if_pos hr, if_pos hr]
    exact sendError_refines streams p f s out hown errorMessage
  · rw [if_neg hr, if_neg hr]
    exact hk hr

theorem sendReceipt_ends : Ends
    (Checked.StompMessagingProtocolImpl.sendReceiptIfRequested (f.getHeader receiptKey))
    (view streams p (s, out)) ()
    (view streams p ((sendReceiptIfRequested p (f.getHeader receiptKey)).run Server.answer (s, out)).2) := by
  unfold Checked.StompMessagingProtocolImpl.sendReceiptIfRequested sendReceiptIfRequested
  cases f.getHeader receiptKey with
  | none => exact ends_pure () _
  | some receiptId =>
    rw [if_neg (by simp)]
    exact (this_ends _ _ _ _).bind
      ((send_ends streams p s out hown (receiptFrame receiptId)).bind (ends_pure () _))

theorem receipt_refines (hp : s.sessions.lookup p.connectionId = some p) :
    Refines streams p
      (Checked.StompMessagingProtocolImpl.sendReceiptIfRequested (f.getHeader receiptKey))
      (sendReceiptIfRequested p (f.getHeader receiptKey)) s out := by
  refine ⟨p, rfl, sendReceipt_ends streams p f s out hown, ?_⟩
  rw [Server.run_sendReceipt]
  exact hp

theorem handleConnect_refines :
    Refines streams p (Checked.StompMessagingProtocolImpl.handleConnect f.checked)
      (handleConnect p f) s out := by
  apply Refines.read (this_ends _ _ _ _)
  unfold handleConnect
  rw [show p.checked.connected = p.connected from rfl]
  simp only [StompFrame.getHeader_checked]
  refine Refines.guard streams hown fun _ => ?_
  split
  · next hmissing =>
    split
    · next hv hl hw hh => exact absurd hmissing (by rw [hv, hl, hw, hh]; simp)
    · exact sendError_refines streams p f s out hown _
  next hpresent =>
  split
  · next v login passcode host hv hl hw hh =>
    rw [hl, hw]
    apply Refines.call (isUserActive_ends _ _ _ _ login) rfl
    dsimp only [Server.answer]
    cases s.connections.isUserActive login with
    | true => exact sendError_refines streams p f s out hown _
    | false =>
      apply Refines.call (authenticateUser_ends _ _ _ _ p.connectionId login passcode) rfl
      dsimp only [Server.answer]
      cases (s.connections.authenticateUser p.connectionId login passcode).1 with
      | false => exact sendError_refines streams p f _ out hown _
      | true =>
        refine Refines.call (setThis_ends _ _ _ _ { p with connected := true }) rfl ?_
        apply Refines.call (send_ends _ _ _ _ hown connectedFrame) rfl
        exact receipt_refines streams { p with connected := true } f _ _ hown
          ((Server.lookup_setSession _ _ _).trans (if_pos rfl))
  · next hmissing =>
    simp only [not_or, ← ne_eq, Option.ne_none_iff_exists'] at hpresent
    obtain ⟨⟨v, hv⟩, ⟨l, hl⟩, ⟨w, hw⟩, ⟨host, hh⟩⟩ := hpresent
    exact absurd hh (hmissing v l w host hv hl hw)

omit hown in
theorem tryParseInt_ends (idStr : Text) (s : S) :
    Ends (Checked.tryParseInt (some idStr)) s (Decimal.parseInt idStr) s := by
  unfold Checked.tryParseInt Checked.parseInt
  rw [Option.bind_some]
  cases Decimal.parseInt idStr with
  | some id => exact ((ends_pure id s).map some).catches _
  | none => exact catches_ends rfl (ends_pure none s)

theorem handleSubscribe_refines :
    Refines streams p (Checked.StompMessagingProtocolImpl.handleSubscribe f.checked)
      (handleSubscribe p f) s out := by
  apply Refines.read (this_ends _ _ _ _)
  unfold handleSubscribe
  rw [show p.checked.connected = p.connected from rfl]
  simp only [StompFrame.getHeader_checked]
  refine Refines.guard streams hown fun _ => ?_
  split
  · next hmissing =>
    split
    · next hd hi => exact absurd hmissing (by rw [hd, hi]; simp)
    · exact sendError_refines streams p f s out hown _
  next hpresent =>
  split
  · next topic idStr hd hi =>
    rw [hd, hi]
    apply Refines.read (tryParseInt_ends idStr _)
    cases Decimal.parseInt idStr with
    | none => exact sendError_refines streams p f s out hown _
    | some id =>
      have hset := setThis_ends streams p s out
        { p with clientSubscriptions := p.clientSubscriptions.insert id topic }
      simp only [checked, Table.mapValues_insert] at hset
      refine Refines.call hset rfl ?_
      apply Refines.call (addSubscription_ends _ _ _ _ topic p.connectionId id) rfl
      exact receipt_refines streams _ f _ _ hown ((Server.lookup_setSession _ _ _).trans (if_pos rfl))
  · next hmissing =>
    simp only [not_or, ← ne_eq, Option.ne_none_iff_exists'] at hpresent
    obtain ⟨⟨topic, hd⟩, ⟨idStr, hi⟩⟩ := hpresent
    exact absurd hi (hmissing topic idStr hd)

theorem handleUnsubscribe_refines :
    Refines streams p (Checked.StompMessagingProtocolImpl.handleUnsubscribe f.checked)
      (handleUnsubscribe p f) s out := by
  apply Refines.read (this_ends _ _ _ _)
  unfold handleUnsubscribe
  rw [show p.checked.connected = p.connected from rfl]
  simp only [StompFrame.getHeader_checked]
  refine Refines.guard streams hown fun _ => ?_
  cases f.getHeader "id".toList with
  | none =>
    rw [if_pos rfl]
    exact sendError_refines streams p f s out hown _
  | some idStr =>
    rw [if_neg (by simp)]
    apply Refines.read (tryParseInt_ends idStr _)
    dsimp only
    cases Decimal.parseInt idStr with
    | none => exact sendError_refines streams p f s out hown _
    | some id =>
      have htopic : (p.checked.clientSubscriptions.lookup id).join =
          p.clientSubscriptions.lookup id := by
        show ((Table.mapValues some p.clientSubscriptions).lookup id).join = _
        rw [Table.lookup_mapValues]
        cases p.clientSubscriptions.lookup id <;> rfl
      have hset := setThis_ends streams p s out
        { p with clientSubscriptions := p.clientSubscriptions.erase id }
      simp only [checked, Table.mapValues_erase] at hset
      dsimp only
      rw [htopic]
      cases hid : p.clientSubscriptions.lookup id with
      | none =>
        -- what `remove` takes out was not there
        have hsame : view streams { p with clientSubscriptions := p.clientSubscriptions.erase id }
            (s.setSession { p with clientSubscriptions := p.clientSubscriptions.erase id }, out) =
            view streams p (s, out) := by
          rw [Table.erase_of_lookup_none hid]
          rfl
        rw [hsame] at hset
        exact Refines.read hset (sendError_refines streams p f s out hown _)
      | some topic =>
        refine Refines.call (c := .put _) hset rfl ?_
        apply Refines.call (removeSubscription_ends _ _ _ _ topic p.connectionId) rfl
        exact receipt_refines streams _ f _ _ hown
          ((Server.lookup_setSession _ _ _).trans (if_pos rfl))

omit hown in
theorem removeSubscriptions_ends (topics : List Text) :
    Ends (Checked.StompMessagingProtocolImpl.removeSubscriptions p.connectionId (topics.map some))
      (view streams p (s, out)) ()
      (view streams p ((removeSubscriptions p topics).run Server.answer (s, out)).2) := by
  induction topics generalizing s with
  | nil => exact ends_pure () _
  | cons topic topics ih =>
    exact (removeSubscription_ends _ _ _ _ topic p.connectionId).bind (ih _)

theorem handleDisconnect_refines :
    Refines streams p (Checked.StompMessagingProtocolImpl.handleDisconnect f.checked)
      (handleDisconnect p f) s out := by
  apply Refines.read (this_ends _ _ _ _)
  unfold handleDisconnect
  rw [show p.checked.connected = p.connected from rfl]
  simp only [StompFrame.getHeader_checked]
  refine Refines.guard streams hown fun _ => ?_
  refine Refines.call (setThis_ends _ _ _ _ { p with shouldTerminate := true }) rfl ?_
  have hvalues : p.checked.clientSubscriptions.values = p.clientSubscriptions.values.map some := by
    simp [checked, Table.values, Table.mapValues]
  rw [hvalues]
  refine Refines.bind (removeSubscriptions_ends streams { p with shouldTerminate := true } _ out
    p.clientSubscriptions.values) rfl ?_
  rw [Server.run_removeSubscriptions]
  refine Refines.call (setThis_ends _ _ _ _
    { p with shouldTerminate := true, clientSubscriptions := ∅ }) rfl ?_
  refine Refines.bind (sendReceipt_ends streams
    { p with shouldTerminate := true, clientSubscriptions := ∅ } f _ _ hown) rfl ?_
  rw [Server.run_sendReceipt]
  exact ⟨_, rfl, disconnect_ends _ _ _ _ p.connectionId,
    (Server.lookup_setSession _ _ _).trans (if_pos rfl)⟩

omit hown in
theorem sendMessages_ends (topic : Text) (messageId : Int) (body : Text)
    (entries : List ((_ : ConnectionId) × Int))
    (hstreams : ∀ e ∈ entries, (streams.lookup e.1).isSome = true) :
    Ends (Checked.StompMessagingProtocolImpl.sendMessages (some topic) messageId (some body) entries)
      (view streams p (s, out)) ()
      (view streams p ((sendMessages topic messageId body entries).run Server.answer (s, out)).2) := by
  induction entries generalizing out with
  | nil => exact ends_pure () _
  | cons e entries ih =>
    have hsend := send_ends streams p s out (hstreams e List.mem_cons_self)
      (messageFrame topic e.2 messageId body)
    rw [messageFrame_checked] at hsend
    exact hsend.bind (ih _ fun x hx => hstreams x (List.mem_cons_of_mem _ hx))

theorem handleSend_refines (hp : s.sessions.lookup p.connectionId = some p)
    (hsubscribed : ∀ t c, s.connections.subscription t c ≠ none → (streams.lookup c).isSome = true) :
    Refines streams p (Checked.StompMessagingProtocolImpl.handleSend f.checked)
      (handleSend p f) s out := by
  apply Refines.read (this_ends _ _ _ _)
  unfold handleSend
  rw [show p.checked.connected = p.connected from rfl]
  simp only [StompFrame.getHeader_checked]
  refine Refines.guard streams hown fun _ => ?_
  cases f.getHeader "destination".toList with
  | none =>
    rw [if_pos rfl]
    exact sendError_refines streams p f s out hown _
  | some topic =>
    have hheld : p.checked.clientSubscriptions.containsValue (some topic) =
        p.clientSubscriptions.containsValue topic := by
      simp [checked, Table.containsValue, Table.values, Table.mapValues]
    rw [if_neg (by simp), hheld]
    refine Refines.guard streams hown fun _ => ?_
    apply Refines.call (getNextMessageId_ends _ _ _ _) rfl
    apply Refines.call (getSubscribers_ends _ _ _ _ topic) rfl
    refine ⟨p, rfl, sendMessages_ends _ _ _ _ _ _ _ _ fun e he => hsubscribed topic e.1 ?_, ?_⟩
    · have hlookup := (Table.mem_entries_iff (s.connections.getSubscribers topic) e.1 e.2).mp he
      rw [ConnectionsImpl.lookup_getSubscribers] at hlookup
      rw [hlookup]
      exact Option.some_ne_none _
    · rw [Server.run_sendMessages]
      exact hp

theorem process_refines (hp : s.sessions.lookup p.connectionId = some p)
    (hsubscribed : ∀ t c, s.connections.subscription t c ≠ none → (streams.lookup c).isSome = true) :
    Refines streams p (Checked.StompMessagingProtocolImpl.process f.checked) (p.process f) s out := by
  apply Refines.read (deref_ends f.command _)
  unfold StompMessagingProtocolImpl.process
  split
  · exact handleConnect_refines streams p f s out hown
  split
  · exact handleSend_refines streams p f s out hown hp hsubscribed
  split
  · exact handleSubscribe_refines streams p f s out hown
  split
  · exact handleUnsubscribe_refines streams p f s out hown
  split
  · exact handleDisconnect_refines streams p f s out hown
  · rw [StompFrame.getHeader_checked]
    exact sendError_refines streams p f s out hown _

end Handlers

end Stomp
