import Stomp.Codec
import Stomp.Client.StompProtocol

/-!
# Frames on the wire

The server reads what the client writes. The client reads what the server writes, except
that a body gains an end of line.
-/

open Stomp.Split Stomp.Utf8

namespace Stomp.Framing

open Stomp.Client

/-! ## Text and its bytes -/

theorem encode_decode {bs : Bytes} (h : Valid bs) : encode (decode bs) = bs := by
  obtain ⟨text, rfl⟩ := h
  rw [decode_encode]

def encodeEntry (e : (_ : Text) × Text) : (_ : Bytes) × Bytes := ⟨encode e.1, encode e.2⟩

theorem encode_layout (command rest : Text) (headers : List ((_ : Text) × Text)) :
    encode (StompFrame.layout command headers rest) =
      HeaderLines.layout nl colon (encode command) (headers.map encodeEntry) (encode rest) := by
  have hnl : ∀ t : Text, encode ('\n' :: t) = nl :: encode t := fun t => rfl
  have hcolon : ∀ t : Text, encode (':' :: t) = colon :: encode t := fun t => rfl
  rw [StompFrame.layout, HeaderLines.layout, HeaderLines.layout, encode_append, hnl, encode_append]
  congr 2
  induction headers with
  | nil => simp only [List.map_nil, unlines_nil, encode_nil, List.nil_append, hnl]
  | cons e headers ih =>
    simp only [List.map_cons, unlines_cons, encode_append, List.append_assoc, hnl,
      List.cons_append] at ih ⊢
    rw [ih]
    simp only [HeaderLines.line, encode_append, hcolon, encodeEntry]

theorem zero_mem_encode (t : Text) : (0 : UInt8) ∈ encode t ↔ '\x00' ∈ t :=
  mem_encode_ascii t '\x00' (by decide)

theorem nl_mem_encode (t : Text) : nl ∈ encode t ↔ '\n' ∈ t := mem_encode_ascii t '\n' (by decide)

theorem colon_mem_encode (t : Text) : colon ∈ encode t ↔ ':' ∈ t :=
  mem_encode_ascii t ':' (by decide)

/-! ## What the client sends -/

theorem frameStr_eq (command : Bytes) (headers : Headers) (body : Bytes) :
    StompProtocol.frameStr command headers body =
      HeaderLines.layout nl colon command headers.entries body := by
  have hnl : ascii "\n" = [nl] := rfl
  have hcolon : ascii ":" = [colon] := rfl
  have hlines : headers.entries.flatMap StompProtocol.headerLine =
      unlines nl (headers.entries.map (HeaderLines.line colon)) := by
    rw [unlines, List.flatMap_map]
    congr 1
    funext e
    simp [StompProtocol.headerLine, HeaderLines.line, hnl, hcolon]
  rw [StompProtocol.frameStr, HeaderLines.layout, hlines, hnl]
  cases body <;> simp

/-- A frame of the client, all of it bytes. -/
structure ClientFrame where
  command : Bytes
  headers : Headers
  body : Bytes

namespace ClientFrame

/-- The bytes of one frame, with the NUL that `sendFrameAscii` adds. -/
def wire (m : ClientFrame) : Bytes := StompProtocol.frameStr m.command m.headers m.body ++ [0]

structure WellFormed (m : ClientFrame) : Prop where
  command : Valid m.command ∧ nl ∉ m.command ∧ 0 ∉ m.command
  key : ∀ k v, m.headers.lookup k = some v → Valid k ∧ colon ∉ k ∧ nl ∉ k ∧ 0 ∉ k
  value : ∀ k v, m.headers.lookup k = some v → Valid v ∧ nl ∉ v ∧ 0 ∉ v
  body : Valid m.body ∧ 0 ∉ m.body

/-- The same command, header map and body, as text. -/
structure Reads (m : ClientFrame) (g : StompFrame) : Prop where
  command : m.command = encode g.command
  header : ∀ k v, m.headers.lookup k = some v ↔
    ∃ a b, k = encode a ∧ v = encode b ∧ g.getHeader a = some b
  body : m.body = encode g.body

/-! ## The text of a client's frame -/

theorem WellFormed.mem {m : ClientFrame} (h : m.WellFormed) {e : (_ : Bytes) × Bytes}
    (he : e ∈ m.headers.entries) :
    (Valid e.1 ∧ colon ∉ e.1 ∧ nl ∉ e.1 ∧ 0 ∉ e.1) ∧ Valid e.2 ∧ nl ∉ e.2 ∧ 0 ∉ e.2 := by
  have := (Table.mem_entries_iff m.headers e.1 e.2).mp he
  exact ⟨h.key _ _ this, h.value _ _ this⟩

theorem WellFormed.exists_text {m : ClientFrame} (h : m.WellFormed) :
    ∃ f : StompFrame, f.WellFormed ∧ m.Reads f ∧
      m.wire = encode (StompFrame.layout f.command f.headers.entries f.body) ++ [0] := by
  have hentries : m.headers.entries.map (fun e => encodeEntry ⟨decode e.1, decode e.2⟩) =
      m.headers.entries := by
    refine (List.map_congr_left fun e he => ?_).trans (List.map_id _)
    obtain ⟨⟨hk, -⟩, hv, -⟩ := h.mem he
    simp [encodeEntry, encode_decode hk, encode_decode hv]
  have hnodup : (m.headers.entries.map fun e =>
      (⟨decode e.1, decode e.2⟩ : (_ : Text) × Text)).NodupKeys := by
    rw [List.NodupKeys, List.keys, List.map_map]
    have hkeys := m.headers.nodupKeys
    rw [List.NodupKeys, List.keys] at hkeys
    have hinj : ∀ a ∈ m.headers.entries.map Sigma.fst, ∀ b ∈ m.headers.entries.map Sigma.fst,
        decode a = decode b → a = b := by
      intro a ha b hb hab
      obtain ⟨e, he, rfl⟩ := List.mem_map.mp ha
      obtain ⟨e', he', rfl⟩ := List.mem_map.mp hb
      rw [← encode_decode (h.mem he).1.1, hab, encode_decode (h.mem he').1.1]
    have := hkeys.map_on hinj
    rwa [List.map_map] at this
  let headers : Table Text Text := ⟨_, hnodup⟩
  have hlookup : ∀ k v, m.headers.lookup k = some v ↔
      ∃ a b, k = encode a ∧ v = encode b ∧ headers.lookup a = some b := by
    intro k v
    simp only [← Table.mem_entries_iff]
    constructor
    · intro he
      obtain ⟨⟨hk, -⟩, hv, -⟩ := h.mem he
      exact ⟨decode k, decode v, (encode_decode hk).symm, (encode_decode hv).symm,
        List.mem_map.mpr ⟨_, he, rfl⟩⟩
    · rintro ⟨a, b, rfl, rfl, he⟩
      rw [← hentries]
      obtain ⟨e, he, heq⟩ := List.mem_map.mp he
      refine List.mem_map.mpr ⟨e, he, ?_⟩
      cases heq
      rfl
  refine ⟨⟨decode m.command, headers, decode m.body⟩, ⟨?_, ?_, ?_, ?_⟩,
    ⟨(encode_decode h.command.1).symm, hlookup, (encode_decode h.body.1).symm⟩, ?_⟩
  · have := encode_decode h.command.1
    rw [StompFrame.Line, ← nl_mem_encode, ← zero_mem_encode, this]
    exact h.command.2
  · intro a b hab
    have := h.key _ _ ((hlookup _ _).mpr ⟨a, b, rfl, rfl, hab⟩)
    rw [StompFrame.Line, ← nl_mem_encode, ← zero_mem_encode, ← colon_mem_encode]
    exact ⟨this.2.2, this.2.1⟩
  · intro a b hab
    have := h.value _ _ ((hlookup _ _).mpr ⟨a, b, rfl, rfl, hab⟩)
    rw [StompFrame.Line, ← nl_mem_encode, ← zero_mem_encode]
    exact this.2
  · have := encode_decode h.body.1
    rw [← zero_mem_encode, this]
    exact h.body.2
  · rw [wire, frameStr_eq, encode_layout, List.map_map, encode_decode h.command.1,
      encode_decode h.body.1]
    exact congrArg (fun es => HeaderLines.layout nl colon m.command es m.body ++ [0]) hentries.symm

end ClientFrame

/-! ## From the client to the server -/

/-- Calls of `send`, one for each frame. -/
def sendFrames (p : StompProtocol) (frames : List ClientFrame) (s : Socket) : Socket :=
  frames.foldl (fun s m => p.send m.command m.headers m.body s) s

theorem sendFrames_written (p : StompProtocol) (hp : p.connected = true) (frames : List ClientFrame)
    (s : Socket) (h : s.Healthy) :
    (sendFrames p frames s).written = s.written ++ frames.flatMap ClientFrame.wire := by
  induction frames generalizing s with
  | nil => simp [sendFrames]
  | cons m frames ih =>
    obtain ⟨-, hs, hw⟩ := sendFrameAscii_written
      (StompProtocol.frameStr m.command m.headers m.body) 0 s h
    have hsend : p.send m.command m.headers m.body s =
        (sendFrameAscii (StompProtocol.frameStr m.command m.headers m.body) 0 s).2 := by
      simp [StompProtocol.send, hp]
    rw [sendFrames, List.foldl_cons, ← sendFrames, hsend, ih _ hs, hw, List.flatMap_cons]
    simp [ClientFrame.wire]

theorem outcome_wire {m : ClientFrame} (h : m.WellFormed) :
    ∃ g, m.Reads g ∧ 0 ∉ StompProtocol.frameStr m.command m.headers m.body ∧
      StompMessageEncoderDecoder.outcome (StompProtocol.frameStr m.command m.headers m.body) =
        .frame g := by
  obtain ⟨f, hf, hr, hwire⟩ := h.exists_text
  obtain ⟨g, hg, hsame⟩ := StompFrame.fromString_layout_same f hf
  have hbytes : StompProtocol.frameStr m.command m.headers m.body =
      encode (StompFrame.layout f.command f.headers.entries f.body) := by
    rw [ClientFrame.wire] at hwire
    exact List.append_cancel_right hwire
  refine ⟨g, ⟨?_, fun k v => ?_, ?_⟩, ?_, ?_⟩
  · rw [hsame.command]
    exact hr.command
  · rw [hr.header k v]
    simp only [hsame.header]
  · rw [hsame.body]
    exact hr.body
  · rw [hbytes, zero_mem_encode]
    exact StompFrame.zero_not_mem_layout hf
  · rw [hbytes, StompMessageEncoderDecoder.outcome, decode_encode, hg]

theorem outcomes_wire (frames : List ClientFrame) (hf : ∀ m ∈ frames, m.WellFormed) :
    ∃ gs : List StompFrame, List.Forall₂ ClientFrame.Reads frames gs ∧
      frames.map (fun m => StompMessageEncoderDecoder.outcome
        (StompProtocol.frameStr m.command m.headers m.body)) = gs.map Decoded.frame := by
  induction frames with
  | nil => exact ⟨[], .nil, rfl⟩
  | cons m frames ih =>
    obtain ⟨gs, hgs, heq⟩ := ih fun x hx => hf x (List.mem_cons_of_mem _ hx)
    obtain ⟨g, hg, -, hout⟩ := outcome_wire (hf m List.mem_cons_self)
    exact ⟨g :: gs, .cons hg hgs, by rw [List.map_cons, List.map_cons, hout, heq]⟩

/-- Whatever the writes, the server reads the frames that the client sent, and keeps no byte. -/
theorem server_decodes_client (p : StompProtocol) (hp : p.connected = true)
    (frames : List ClientFrame) (hf : ∀ m ∈ frames, m.WellFormed) (room : Nat → {n : Nat // 0 < n})
    (hsize : (frames.flatMap ClientFrame.wire).length < 2 ^ 30) :
    ∃ gs : List StompFrame, List.Forall₂ ClientFrame.Reads frames gs ∧
      ∃ d, StompMessageEncoderDecoder.initial.decodeAll
          (sendFrames p frames ⟨fun k => some (room k), 0, []⟩).written =
        (gs.map Decoded.frame, d) ∧ d.len = 0 := by
  have hwritten := sendFrames_written p hp frames ⟨fun k => some (room k), 0, []⟩ fun k => rfl
  rw [List.nil_append] at hwritten
  obtain ⟨hpieces, hrest⟩ := pieces_flatMap 0
    (fun m : ClientFrame => StompProtocol.frameStr m.command m.headers m.body) frames
    fun m hm => (outcome_wire (hf m hm)).choose_spec.2.1
  obtain ⟨gs, hgs, heq⟩ := outcomes_wire frames hf
  obtain ⟨hout, hpending⟩ := StompMessageEncoderDecoder.decodeAll_spec
    (frames.flatMap ClientFrame.wire) .initial (by simp) (by
      rw [show StompMessageEncoderDecoder.initial.len = 0 from rfl]
      omega)
  refine ⟨gs, hgs, (StompMessageEncoderDecoder.initial.decodeAll
    (frames.flatMap ClientFrame.wire)).2, ?_, ?_⟩
  · rw [hwritten, ← heq]
    refine Prod.ext (hout.trans ?_) rfl
    rw [StompMessageEncoderDecoder.pending_initial, List.nil_append]
    exact (congrArg _ hpieces).trans List.map_map
  · rw [← StompMessageEncoderDecoder.length_pending, hpending,
      StompMessageEncoderDecoder.pending_initial, List.nil_append]
    exact congrArg List.length hrest

/-- A SEND whose body begins with end of lines. -/
def sendFrame : ClientFrame :=
  ⟨ascii "SEND", Table.ofPairs [(ascii "destination", ascii "t")], ascii "\n\nx"⟩

theorem sendFrame_wellFormed : sendFrame.WellFormed where
  command := ⟨⟨_, rfl⟩, by decide⟩
  key k v h := by
    have hk := (Table.mem_entries_iff _ _ _).mpr h
    cases List.mem_singleton.mp hk
    exact ⟨⟨_, rfl⟩, by decide⟩
  value k v h := by
    have hk := (Table.mem_entries_iff _ _ _).mpr h
    cases List.mem_singleton.mp hk
    exact ⟨⟨_, rfl⟩, by decide⟩
  body := ⟨⟨_, rfl⟩, by decide⟩

theorem server_decodes_send : ∃ gs : List StompFrame,
    List.Forall₂ ClientFrame.Reads [sendFrame] gs ∧
      ∃ d, StompMessageEncoderDecoder.initial.decodeAll
          (sendFrames { StompProtocol.initial with connected := true } [sendFrame]
            ⟨fun _ => some ⟨1, Nat.one_pos⟩, 0, []⟩).written =
        (gs.map Decoded.frame, d) ∧ d.len = 0 :=
  server_decodes_client _ rfl [sendFrame]
    (fun m hm => by rw [List.mem_singleton.mp hm]; exact sendFrame_wellFormed)
    (fun _ => ⟨1, Nat.one_pos⟩) (by decide)

/-! ## From the server to the client -/

theorem length_unlines (lines : List Bytes) : lines.length ≤ (unlines nl lines).length := by
  induction lines with
  | nil => exact Nat.le_refl _
  | cons line lines ih =>
    rw [unlines_cons, List.length_cons, List.length_append, List.length_cons]
    omega

theorem readHeaders_line {line : Bytes} (hl : nl ∉ line ∧ line ≠ []) (rest : Bytes) (headers : Headers)
    (fuel : Nat) : StompProtocol.readHeaders (fuel + 1) headers (some (line ++ nl :: rest)) =
      StompProtocol.readHeaders fuel (StompProtocol.putHeader headers line) (some rest) := by
  simp only [StompProtocol.readHeaders, getline_line nl line rest hl.1, List.isEmpty_iff, hl.2, if_false]

theorem readHeaders_lines (lines : List Bytes) (rest : Bytes) (headers : Headers) (fuel : Nat)
    (hl : ∀ line ∈ lines, nl ∉ line ∧ line ≠ []) (hfuel : lines.length < fuel) :
    StompProtocol.readHeaders fuel headers (some (unlines nl lines ++ nl :: rest)) =
      (lines.foldl StompProtocol.putHeader headers, some rest) := by
  induction lines generalizing headers fuel with
  | nil =>
    obtain ⟨fuel, rfl⟩ := Nat.exists_eq_add_of_lt hfuel
    have hget := getline_line nl [] rest (by simp)
    rw [List.nil_append] at hget
    simp only [unlines_nil, List.nil_append, StompProtocol.readHeaders, hget]
    rfl
  | cons line lines ih =>
    obtain ⟨hline, hrest⟩ := List.forall_mem_cons.mp hl
    obtain ⟨fuel, rfl⟩ := Nat.exists_eq_add_of_lt hfuel
    rw [unlines_cons, List.append_assoc, List.cons_append, readHeaders_line hline, List.foldl_cons]
    exact ih _ _ hrest (by
      rw [List.length_cons] at hfuel ⊢
      omega)

theorem parse_blank (command : Bytes) (lines : List Bytes) (body : Bytes) (hc : nl ∉ command)
    (hl : ∀ x ∈ lines, nl ∉ x ∧ x ≠ []) (hb : 0 ∉ body) :
    StompProtocol.parse (command ++ nl :: (unlines nl lines ++ nl :: body)) =
      ⟨command, lines.foldl StompProtocol.putHeader ∅, body⟩ := by
  have hfuel : lines.length < (command ++ nl :: (unlines nl lines ++ nl :: body)).length + 1 := by
    have := length_unlines lines
    simp only [List.length_append, List.length_cons]
    omega
  simp only [StompProtocol.parse, getline_line nl command _ hc,
    readHeaders_lines lines body ∅ _ hl hfuel, Option.getD_some, getline_last 0 body hb]

theorem parse_layout (command rest : Bytes) (headers : Headers) (hc : nl ∉ command)
    (hh : ∀ e ∈ headers.entries, nl ∉ e.1 ∧ nl ∉ e.2) (hr : 0 ∉ rest) :
    StompProtocol.parse (HeaderLines.layout nl colon command headers.entries rest) =
      ⟨command, (headers.entries.map (HeaderLines.line colon)).foldl StompProtocol.putHeader ∅,
        rest⟩ := by
  refine parse_blank command _ rest hc ?_ hr
  simp only [List.mem_map]
  rintro _ ⟨e, he, rfl⟩
  exact HeaderLines.line_ok (by decide) (hh e he).1 (hh e he).2

/-- The header map of a frame, as bytes. -/
def encodeHeaders (headers : Table Text Text) : Headers where
  entries := headers.entries.map encodeEntry
  nodupKeys := by
    have hkeys := headers.nodupKeys
    rw [List.NodupKeys, List.keys] at hkeys ⊢
    have := hkeys.map (f := encode) fun a b hab => encode_injective hab
    rwa [List.map_map] at this ⊢

theorem lookup_encodeHeaders (headers : Table Text Text) (k v : Bytes) :
    (encodeHeaders headers).lookup k = some v ↔
      ∃ a b, k = encode a ∧ v = encode b ∧ headers.lookup a = some b := by
  simp only [← Table.mem_entries_iff, encodeHeaders, List.mem_map, encodeEntry]
  constructor
  · rintro ⟨e, he, heq⟩
    cases heq
    exact ⟨e.1, e.2, rfl, rfl, he⟩
  · rintro ⟨a, b, rfl, rfl, he⟩
    exact ⟨⟨a, b⟩, he, rfl⟩

/-- What `toString` writes after the blank line, without the NUL. -/
def bodyText (f : StompFrame) : Text := if f.body.isEmpty then [] else f.body ++ ['\n']

theorem encode_toString (f : StompFrame) :
    StompMessageEncoderDecoder.encode f =
      HeaderLines.layout nl colon (encode f.command) (encodeHeaders f.headers).entries
        (encode (bodyText f)) ++ [0] := by
  have htext : f.toString = StompFrame.layout f.command f.headers.entries (bodyText f) ++ ['\x00'] := by
    rw [StompFrame.toString_eq, bodyText]
    simp [StompFrame.layout, HeaderLines.layout]
  rw [StompMessageEncoderDecoder.encode, htext, encode_append, encode_layout]
  rfl

/-- The bytes of a frame of the server, read by the client. -/
def clientReads (f : StompFrame) : Option StompProtocol.Parsed :=
  (getFrameAscii [] 0 (StompMessageEncoderDecoder.encode f)).map fun r => StompProtocol.parse r.1

/-- The client has the frame of the server: command, header map and body. -/
def ReadsBack (f : StompFrame) : Prop :=
  ∃ r, clientReads f = some r ∧ r.command = encode f.command ∧
    (∀ k v, r.headers.lookup k = some v ↔
      ∃ a b, k = encode a ∧ v = encode b ∧ f.getHeader a = some b) ∧
    r.body = encode f.body

theorem clientReads_spec (f : StompFrame) (hf : f.WellFormed) :
    ∃ r, clientReads f = some r ∧ r.command = encode f.command ∧
      (∀ k v, r.headers.lookup k = some v ↔
        ∃ a b, k = encode a ∧ v = encode b ∧ f.getHeader a = some b) ∧
      r.body = encode (bodyText f) := by
  have hmem : ∀ e ∈ (encodeHeaders f.headers).entries,
      (nl ∉ e.1 ∧ nl ∉ e.2) ∧ colon ∉ e.1 ∧ 0 ∉ e.1 ∧ 0 ∉ e.2 := by
    rintro ⟨k, v⟩ he
    obtain ⟨a, b, rfl, rfl, hab⟩ :=
      (lookup_encodeHeaders f.headers k v).mp ((Table.mem_entries_iff _ k v).mp he)
    simp only [nl_mem_encode, colon_mem_encode, zero_mem_encode]
    exact ⟨⟨(hf.key a b hab).1.1, (hf.value a b hab).1⟩, (hf.key a b hab).2, (hf.key a b hab).1.2,
      (hf.value a b hab).2⟩
  have hbody : (0 : UInt8) ∉ encode (bodyText f) := by
    rw [zero_mem_encode, bodyText]
    split <;> simp [hf.body]
  have hcommand : nl ∉ encode f.command ∧ (0 : UInt8) ∉ encode f.command := by
    rw [nl_mem_encode, zero_mem_encode]
    exact hf.command
  have hnl : (0 : UInt8) ≠ nl := by decide
  have hlines : (0 : UInt8) ∉
      unlines nl ((encodeHeaders f.headers).entries.map (HeaderLines.line colon)) := by
    simp only [unlines, List.mem_flatMap, List.mem_map]
    rintro ⟨_, ⟨e, he, rfl⟩, hm⟩
    simp [HeaderLines.line, (hmem e he).2, nl, colon] at hm
  have hframe : (0 : UInt8) ∉ HeaderLines.layout nl colon (encode f.command)
      (encodeHeaders f.headers).entries (encode (bodyText f)) := by
    simp [HeaderLines.layout, hcommand.2, hlines, hbody, hnl]
  refine ⟨⟨encode f.command, ((encodeHeaders f.headers).entries.map
    (HeaderLines.line colon)).foldl StompProtocol.putHeader ∅, encode (bodyText f)⟩, ?_, rfl,
    fun k v => ?_, rfl⟩
  · rw [clientReads, encode_toString, getFrameAscii_frame [] _ [] hframe, Option.map_some,
      List.nil_append, parse_layout _ _ _ hcommand.1 (fun e he => (hmem e he).1) hbody]
  · have hput := HeaderLines.lookup_foldl_put (encodeHeaders f.headers) k
      fun e he => (hmem e he).2.1
    have hkeys := lookup_encodeHeaders f.headers k v
    rw [← hput] at hkeys
    exact hkeys

/-- Everything comes back exactly when there is no body: another body gains an end of line. -/
theorem reads_back_iff (f : StompFrame) (hf : f.WellFormed) : ReadsBack f ↔ f.body = [] := by
  obtain ⟨r, hr, hcommand, hheaders, hbody⟩ := clientReads_spec f hf
  constructor
  · rintro ⟨r', hr', -, -, hbody'⟩
    cases hr.symm.trans hr'
    have htext : bodyText f = f.body := encode_injective (hbody.symm.trans hbody')
    unfold bodyText at htext
    split at htext
    · exact htext.symm
    · simp at htext
  · intro hempty
    refine ⟨r, hr, hcommand, hheaders, hbody.trans ?_⟩
    rw [bodyText, hempty]
    rfl

/-- A RECEIPT with its header. -/
def receipt17 : StompFrame := .ofStrings "RECEIPT" [("receipt-id", "17")] ""

theorem receipt17_wellFormed : receipt17.WellFormed := by
  refine ⟨?_, fun k v h => ?_, fun k v h => ?_, by decide⟩
  · unfold StompFrame.Line
    decide
  all_goals
    unfold StompFrame.Line
    cases List.mem_singleton.mp ((Table.mem_entries_iff _ k v).mpr h)
    decide

/-- A MESSAGE with its three headers and a body of two lines. -/
def relayed : StompFrame := .ofStrings "MESSAGE"
  [("subscription", "7"), ("message-id", "3"), ("destination", "fire")] "user:a\ncity:b"

theorem relayed_wellFormed : relayed.WellFormed := by
  refine ⟨?_, fun k v h => ?_, fun k v h => ?_, by decide⟩
  · unfold StompFrame.Line
    decide
  all_goals
    unfold StompFrame.Line
    have he := (Table.mem_entries_iff _ k v).mpr h
    rcases List.mem_cons.mp he with he | he
    · cases he
      decide
    rcases List.mem_cons.mp he with he | he
    · cases he
      decide
    cases List.mem_singleton.mp he
    decide

theorem receipt_reads_back : ReadsBack receipt17 ∧ ¬ ReadsBack relayed :=
  ⟨(reads_back_iff receipt17 receipt17_wellFormed).mpr rfl,
    fun h => absurd ((reads_back_iff relayed relayed_wellFormed).mp h) (by decide)⟩

/-- The body of this MESSAGE is read with one more end of line. -/
theorem body_grows : ∃ f : StompFrame, f.WellFormed ∧ ¬ ReadsBack f := by
  refine ⟨relayed, relayed_wellFormed, ?_⟩
  rintro ⟨r, hr, -, -, hbody⟩
  obtain ⟨r', hr', -, -, hbody'⟩ := clientReads_spec relayed relayed_wellFormed
  cases hr.symm.trans hr'
  exact absurd (hbody.symm.trans hbody') (by decide)

end Stomp.Framing
