import Stomp.ServerRun
import Stomp.Framing

/-!
# The terminator in the server's frames

A frame on the wire ends at its first NUL. The ERROR frame carries the refused frame in its
body, with the NUL of that frame.
-/

open Stomp.Split
open Stomp.Utf8 (Bytes mem_decode_ascii)

namespace Stomp.Replies

open StompMessagingProtocolImpl StompMessageEncoderDecoder Server

/-- A byte string whose only NUL is its last byte. -/
def OneNul (bs : Bytes) : Prop := ∃ xs, bs = xs ++ [0] ∧ (0 : UInt8) ∉ xs

/-- The same frame with its headers in another order. -/
structure Reordered (f g : StompFrame) : Prop where
  command : g.command = f.command
  headers : g.headers.entries.Perm f.headers.entries
  body : g.body = f.body

theorem Reordered.refl (f : StompFrame) : Reordered f f := ⟨rfl, .refl _, rfl⟩

/-! ## One frame -/

/-- The bytes of a frame before the NUL that ends it. -/
def frameBytes (f : StompFrame) : Bytes :=
  HeaderLines.layout Client.nl Client.colon (Utf8.encode f.command)
    (Framing.encodeHeaders f.headers).entries (Utf8.encode (Framing.bodyText f))

theorem encode_eq (f : StompFrame) : encode f = frameBytes f ++ [0] := Framing.encode_toString f

theorem oneNul_encode (f : StompFrame) : OneNul (encode f) ↔ (0 : UInt8) ∉ frameBytes f := by
  rw [encode_eq]
  constructor
  · rintro ⟨xs, heq, hxs⟩
    rwa [List.append_cancel_right heq]
  · exact fun h => ⟨_, rfl, h⟩

theorem frameBytes_clean (f : StompFrame) : (0 : UInt8) ∉ frameBytes f ↔ f.NoNul := by
  have hnl : (0 : UInt8) ≠ Client.nl := by decide
  have hcolon : (0 : UInt8) ≠ Client.colon := by decide
  have hbody : (0 : UInt8) ∉ Utf8.encode (Framing.bodyText f) ↔ '\x00' ∉ f.body := by
    rw [Framing.zero_mem_encode, Framing.bodyText]
    split
    · next h => rw [List.isEmpty_iff.mp h]
    · simp
  have hlines : (0 : UInt8) ∉ unlines Client.nl
      ((Framing.encodeHeaders f.headers).entries.map (HeaderLines.line Client.colon)) ↔
      StompFrame.CleanHeaders f.headers := by
    simp only [unlines, List.mem_flatMap, List.mem_map, not_exists, not_and]
    constructor
    · intro h k v hkv
      have := h _ ⟨(Framing.encodeEntry ⟨k, v⟩),
        List.mem_map.mpr ⟨_, (Table.mem_entries_iff _ k v).mpr hkv, rfl⟩, rfl⟩
      simp only [HeaderLines.line, Framing.encodeEntry, List.mem_append, List.mem_cons,
        Framing.zero_mem_encode, hcolon, hnl, false_or, not_or] at this
      exact this.1
    · rintro h _ ⟨e, he, rfl⟩
      obtain ⟨e', he', rfl⟩ := List.mem_map.mp he
      have := h _ _ ((Table.mem_entries_iff _ e'.1 e'.2).mp he')
      simp [HeaderLines.line, Framing.encodeEntry, Framing.zero_mem_encode, hcolon, hnl, this]
  rw [StompFrame.noNul_iff, ← Framing.zero_mem_encode f.command, ← hlines, ← hbody]
  simp [frameBytes, HeaderLines.layout, hnl]

theorem Reordered.noNul {f g : StompFrame} (h : Reordered f g) : g.NoNul ↔ f.NoNul := by
  have hclean : StompFrame.CleanHeaders g.headers ↔ StompFrame.CleanHeaders f.headers := by
    simp only [StompFrame.CleanHeaders, AList.perm_lookup h.headers]
  rw [StompFrame.noNul_iff, StompFrame.noNul_iff, h.command, h.body, hclean]

theorem noNul_of_outcome {piece : Bytes} {f : StompFrame} (h0 : 0 ∉ piece)
    (h : outcome piece = .frame f) : f.NoNul := by
  unfold outcome at h
  split at h
  · next g hg =>
    cases h
    refine StompFrame.fromString_noNul hg fun hm => h0 ?_
    exact mem_decode_ascii '\x00' (by decide) piece hm
  · cases h

theorem noNul_fromWire {f : StompFrame} (h : FromWire f) : f.NoNul := by
  obtain ⟨piece, h0, hpiece⟩ := h.piece
  exact noNul_of_outcome h0 hpiece

/-! ## The frames that the handlers build -/

theorem cleanHeaders_ofPairs (l : List (Text × Text))
    (h : ∀ e ∈ l, '\x00' ∉ e.1 ∧ '\x00' ∉ e.2) : StompFrame.CleanHeaders (Table.ofPairs l) := by
  have hfold : ∀ (l : List (Text × Text)) (t : Table Text Text), StompFrame.CleanHeaders t →
      (∀ e ∈ l, '\x00' ∉ e.1 ∧ '\x00' ∉ e.2) →
      StompFrame.CleanHeaders (l.foldl (fun t e => t.insert e.1 e.2) t) := by
    intro l
    induction l with
    | nil => exact fun t ht _ => ht
    | cons e l ih =>
      intro t ht hl
      have he := hl e List.mem_cons_self
      exact ih _ (StompFrame.cleanHeaders_insert ht he.1 he.2)
        fun x hx => hl x (List.mem_cons_of_mem _ hx)
  exact hfold l ∅ (fun k v hk => by cases hk) h

theorem zero_not_mem_valueOf (n : Int) : '\x00' ∉ Decimal.valueOf n := by
  intro h
  rcases Decimal.mem_valueOf n _ h with h | h
  · exact absurd h (by decide)
  · exact absurd h (by decide)

theorem noNul_connectedFrame : connectedFrame.NoNul :=
  (StompFrame.noNul_iff _).mpr ⟨by decide, cleanHeaders_ofPairs _ (by decide), by decide⟩

theorem noNul_receiptFrame {r : Text} (h : '\x00' ∉ r) : (receiptFrame r).NoNul := by
  have hcommand : '\x00' ∉ "RECEIPT".toList := by decide
  have hkey : '\x00' ∉ "receipt-id".toList := by decide
  refine (StompFrame.noNul_iff _).mpr ⟨hcommand, cleanHeaders_ofPairs _ fun e he => ?_,
    List.not_mem_nil⟩
  rw [List.mem_singleton.mp he]
  exact ⟨hkey, h⟩

theorem noNul_messageFrame {topic body : Text} (id messageId : Int) (ht : '\x00' ∉ topic)
    (hb : '\x00' ∉ body) : (messageFrame topic id messageId body).NoNul := by
  have hcommand : '\x00' ∉ "MESSAGE".toList := by decide
  have hkeys : '\x00' ∉ "destination".toList ∧ '\x00' ∉ "subscription".toList ∧
    '\x00' ∉ "message-id".toList := by decide
  refine (StompFrame.noNul_iff _).mpr ⟨hcommand, cleanHeaders_ofPairs _ fun e he => ?_, hb⟩
  simp only [List.mem_cons, List.not_mem_nil, or_false] at he
  rcases he with rfl | rfl | rfl
  · exact ⟨hkeys.1, ht⟩
  · exact ⟨hkeys.2.1, zero_not_mem_valueOf _⟩
  · exact ⟨hkeys.2.2, zero_not_mem_valueOf _⟩

theorem zero_mem_errorBody (reason : Text) (f : StompFrame) : '\x00' ∈ errorBody reason f := by
  have hmem : '\x00' ∈ f.toString := by
    rw [StompFrame.toString_eq, StompFrame.layout, HeaderLines.layout]
    simp
  unfold errorBody
  exact List.mem_append_left _ (List.mem_append_left _ (List.mem_append_left _
    (List.mem_append_left _ (List.mem_append_right _ hmem))))

theorem nul_errorFrame (reason : Text) (receiptId : Option Text) (f : StompFrame) :
    ¬ (errorFrame reason receiptId f).NoNul := fun h => h.body (zero_mem_errorBody reason f)

theorem noNul_receipts {s : Server} {c : ConnectionId} {f : StompFrame} (hf : f.NoNul) :
    ∀ x ∈ s.receipts c f, x.msg.NoNul := by
  intro x hx
  obtain ⟨r, hr, rfl⟩ := List.mem_map.mp hx
  exact noNul_receiptFrame (hf.value _ _ (Option.mem_toList.mp hr))

theorem Outcome.noNul {s : Server} {p : Session} {f : StompFrame} {r : Server × List Sent}
    (ho : Outcome s p f r) (hf : f.NoNul) :
    (Accepts s.connections p f ∧ ∀ x ∈ r.2, x.msg.NoNul) ∨
    (¬ Accepts s.connections p f ∧ ∃ x, r.2 = [x] ∧ x.connectionId = p.connectionId ∧
      ¬ x.msg.NoNul) := by
  -- The frames that processing hands out are clean exactly when the frame is accepted, and what is
  -- not clean goes to the sender.
  cases ho with
  | refused reason hno =>
    exact .inr ⟨hno, _, rfl, rfl, nul_errorFrame _ _ _⟩
  | connect h =>
    refine .inl ⟨.connect h, fun x hx => ?_⟩
    rcases List.mem_cons.mp hx with rfl | hx
    · exact noNul_connectedFrame
    · exact noNul_receipts hf x hx
  | subscribe h => exact .inl ⟨.subscribe h, noNul_receipts hf⟩
  | unsubscribe h => exact .inl ⟨.unsubscribe h, noNul_receipts hf⟩
  | send h =>
    refine .inl ⟨.send h, fun x hx => ?_⟩
    obtain ⟨e, -, rfl⟩ := List.mem_map.mp hx
    exact noNul_messageFrame _ _ (hf.value _ _ h.destination) hf.body
  | disconnect h => exact .inl ⟨.disconnect h, noNul_receipts hf⟩

/-! ## Many frames -/

theorem count_encode (f : StompFrame) :
    (encode f).count 0 = (frameBytes f).count 0 + 1 := by
  rw [encode_eq, List.count_append]
  rfl

theorem count_encode_eq_one (f : StompFrame) : (encode f).count 0 = 1 ↔ f.NoNul := by
  rw [count_encode, ← frameBytes_clean, ← List.count_eq_zero]
  omega

theorem count_frames (gs : List StompFrame) :
    gs.length ≤ (gs.flatMap encode).count 0 ∧
      ((gs.flatMap encode).count 0 = gs.length → ∀ g ∈ gs, g.NoNul) := by
  induction gs with
  | nil => simp
  | cons g gs ih =>
    have hg := count_encode g
    rw [List.flatMap_cons, List.count_append, List.length_cons]
    refine ⟨by omega, fun heq x hx => ?_⟩
    rcases List.mem_cons.mp hx with rfl | hx
    · exact (count_encode_eq_one x).mp (by omega)
    · exact ih.2 (by omega) x hx

theorem readFrames_iff (gs : List StompFrame) :
    Client.readFrames (gs.flatMap encode).length (gs.flatMap encode) =
      gs.map (fun g => (encode g).dropLast) ↔ ∀ g ∈ gs, g.NoNul := by
  rw [Client.readFrames_eq _ _ (Nat.le_refl _)]
  constructor
  · intro heq
    have hlen := congrArg List.length heq
    rw [length_pieces, List.length_map] at hlen
    exact (count_frames gs).2 hlen
  · intro h
    have hpieces := (pieces_flatMap 0 frameBytes gs
      fun g hg => (frameBytes_clean g).mpr (h g hg)).1
    have hbytes : gs.flatMap encode = gs.flatMap fun g => frameBytes g ++ [0] :=
      congrArg (gs.flatMap ·) (funext encode_eq)
    rw [hbytes, hpieces]
    simp [encode_eq]

theorem forall_noNul_iff {xs : List Sent} {gs : List StompFrame}
    (h : List.Forall₂ (fun x g => Reordered x.msg g) xs gs) :
    (∀ g ∈ gs, g.NoNul) ↔ ∀ x ∈ xs, x.msg.NoNul := by
  induction h with
  | nil => simp
  | cons hxg _ ih => simp [ih, hxg.noNul]

theorem handed_clean_iff {trace : List (Server × ServerEvent)}
    (hwire : ∀ e ∈ trace, ∀ c f, e.2 = .frame c f → f.NoNul) (d : ConnectionId) :
    (∀ x ∈ sentTo d (trace.flatMap outputs), x.msg.NoNul) ↔
      ∀ e ∈ trace, ∀ f p, e.2 = .frame d f → e.1.sessions.lookup d = some p →
        Accepts e.1.connections p f := by
  have hmem : ∀ x, x ∈ sentTo d (trace.flatMap outputs) ↔
      ∃ e ∈ trace, x ∈ outputs e ∧ x.connectionId = d := by
    intro x
    simp only [sentTo, List.mem_filter, List.mem_flatMap, decide_eq_true_eq]
    constructor
    · rintro ⟨⟨e, he, hx⟩, hd⟩
      exact ⟨e, he, hx, hd⟩
    · rintro ⟨e, he, hx, hd⟩
      exact ⟨⟨e, he, hx⟩, hd⟩
  constructor
  · rintro hclean ⟨t, l⟩ he f p rfl hp
    have hout : outputs (t, .frame d f) = (t.exec (p.process f)).2 :=
      congrArg Prod.snd (process_of_session f hp)
    rcases Outcome.noNul (process_outcome t p f) (hwire _ he d f rfl) with ⟨ha, -⟩ | ⟨-, x, hx, hc, hnul⟩
    · exact ha
    · refine absurd (hclean x ((hmem x).mpr ⟨_, he, ?_, hc.trans (t.ids d p hp)⟩)) hnul
      rw [hout, hx]
      exact List.mem_singleton_self _
  · intro hall x hx
    obtain ⟨⟨t, l⟩, he, hxo, hd⟩ := (hmem x).mp hx
    cases l with
    | accept => cases hxo
    | disconnect c => cases hxo
    | frame c f =>
      cases hp : t.sessions.lookup c with
      | none =>
        have hnil : outputs (t, .frame c f) = [] := by simp [outputs, Server.process, hp]
        rw [hnil] at hxo
        cases hxo
      | some p =>
        have hout : outputs (t, .frame c f) = (t.exec (p.process f)).2 :=
          congrArg Prod.snd (process_of_session f hp)
        rw [hout] at hxo
        rcases Outcome.noNul (process_outcome t p f) (hwire _ he c f rfl) with
          ⟨-, hclean⟩ | ⟨hno, y, hy, hc, -⟩
        · exact hclean x hxo
        · rw [hy, List.mem_singleton] at hxo
          have hcd : c = d := by rw [← hd, hxo, hc, t.ids c p hp]
          subst hcd
          exact absurd (hall _ he f p rfl hp) hno

/-- A frame sent is a frame on the wire exactly for the frames that the server accepts. -/
theorem one_frame_iff {trace : List (Server × ServerEvent)} {s : Server}
    (hwire : ∀ e ∈ trace, ∀ c f, e.2 = .frame c f → FromWire f) :
    (∀ c p f, s.sessions.lookup c = some p → FromWire f →
      ((∀ x ∈ (s.process c f).2, ∀ g, Reordered x.msg g → OneNul (encode g)) ↔
        Accepts s.connections p f)) ∧
    ∀ d gs, List.Forall₂ (fun x g => Reordered x.msg g) (sentTo d (trace.flatMap outputs)) gs →
      (Client.readFrames (gs.flatMap encode).length (gs.flatMap encode) =
          gs.map (fun g => (encode g).dropLast) ↔
        ∀ e ∈ trace, ∀ f p, e.2 = .frame d f → e.1.sessions.lookup d = some p →
          Accepts e.1.connections p f) := by
  constructor
  · intro c p f hp hf
    rw [process_of_session f hp]
    have hone : ∀ x : Sent, (∀ g, Reordered x.msg g → OneNul (encode g)) ↔ x.msg.NoNul := by
      intro x
      simp only [oneNul_encode, frameBytes_clean]
      exact ⟨fun hall => hall _ (.refl _), fun hx g hg => hg.noNul.mpr hx⟩
    simp only [hone]
    rcases Outcome.noNul (process_outcome s p f) (noNul_fromWire hf) with ⟨ha, hclean⟩ | ⟨hno, x, hx, -, hnul⟩
    · exact iff_of_true hclean ha
    · refine iff_of_false (fun hall => hnul (hall x ?_)) hno
      rw [hx]
      exact List.mem_singleton_self _
  · intro d gs hgs
    rw [readFrames_iff, ← handed_clean_iff (fun e he c f hf => noNul_fromWire (hwire e he c f hf)) d]
    exact forall_noNul_iff hgs

/-- A client logs in and then sends a frame with no known command. -/
def junkRun : List ServerEvent := [.accept, .frame 1 (connectFrame "u" "p"), .frame 1 (.ofStrings "x" [] "")]

theorem fromWire_connectFrame : FromWire (connectFrame "u" "p") := by
  have hout : outcome (Utf8.encode
      "CONNECT\naccept-version:1.2\nhost:h\nlogin:u\npasscode:p\n\n".toList) =
        .frame (connectFrame "u" "p") := rfl
  exact fromWire_of_outcome (by decide) (by decide) hout

theorem fromWire_junk : FromWire (.ofStrings "x" [] "") := by
  have hout : outcome (Utf8.encode "x\n\n".toList) = .frame (.ofStrings "x" [] "") := rfl
  exact fromWire_of_outcome (by decide) (by decide) hout

theorem one_frame_junk : ∃ trace s, runs.Run trace s ∧ trace.map (·.2) = junkRun ∧
    (Client.readFrames
        (((sentTo 1 (trace.flatMap outputs)).map (·.msg)).flatMap encode).length
        (((sentTo 1 (trace.flatMap outputs)).map (·.msg)).flatMap encode) =
      ((sentTo 1 (trace.flatMap outputs)).map (·.msg)).map (fun g => (encode g).dropLast) ↔
    ∀ e ∈ trace, ∀ f p, e.2 = .frame 1 f → e.1.sessions.lookup 1 = some p →
      Accepts e.1.connections p f) := by
  obtain ⟨trace, s, hr, hl, -⟩ := System.exists_run_labels (M := runs) junkRun (fun _ _ => true) (by decide)
  have hwire : ∀ e ∈ trace, ∀ c f, e.2 = .frame c f → FromWire f := by
    intro e he c f hf
    have hmem : e.2 ∈ junkRun := hl ▸ List.mem_map_of_mem he
    rw [hf] at hmem
    simp only [junkRun, List.mem_cons, List.not_mem_nil, or_false, ServerEvent.frame.injEq,
      reduceCtorEq, false_or] at hmem
    rcases hmem with ⟨-, rfl⟩ | ⟨-, rfl⟩
    · exact fromWire_connectFrame
    · exact fromWire_junk
  have hsame : ∀ xs : List Sent,
      List.Forall₂ (fun x g => Reordered x.msg g) xs (xs.map (·.msg)) := by
    intro xs
    induction xs with
    | nil => exact .nil
    | cons x xs ih => exact .cons (.refl _) ih
  exact ⟨trace, s, hr, hl, (one_frame_iff (s := s) hwire).2 1 _ (hsame _)⟩

/-- The ERROR for a frame with no known command has two NULs, and the client reads two frames. -/
theorem error_splits : ∃ f x, FromWire f ∧ runs.Run [(initial, .accept)] initial.accept ∧
    (initial.accept.process 1 f).2 = [x] ∧ ¬ OneNul (encode x.msg) ∧
    (Client.readFrames (encode x.msg).length (encode x.msg)).length = 2 := by
  let f : StompFrame := .ofStrings "x" [] ""
  let reason : Text := "Invalid command: ".toList ++ "x".toList
  refine ⟨f, ⟨1, errorFrame reason none f, true⟩, fromWire_junk, .snoc .nil rfl, rfl, ?_, by decide⟩
  rw [oneNul_encode, frameBytes_clean]
  exact nul_errorFrame reason none f

end Stomp.Replies
