import Stomp.Client.Commands
import Stomp.Subscriptions

/-!
# What the server reads of a client's frames

A frame asks for one change of the two tables of its connection, or for none.
-/

open Stomp.Split Stomp.Utf8 Stomp.Framing

namespace Stomp

open StompMessageEncoderDecoder

/-- The change of the tables that a frame asks for. -/
inductive Asks (f : StompFrame) : Paired.Change Int Text → Prop
  | put {i : Int} {t : Text} (command : f.command = "SUBSCRIBE".toList)
    (destination : f.getHeader "destination".toList = some t)
    (id_eq : (f.getHeader "id".toList).bind Decimal.parseInt = some i) : Asks f (.put i t)
  | drop {i : Int} {t : Text} (command : f.command = "UNSUBSCRIBE".toList)
    (id_eq : (f.getHeader "id".toList).bind Decimal.parseInt = some i) : Asks f (.drop i t)
  | keep (h : f.command = "SUBSCRIBE".toList ∨ f.command = "UNSUBSCRIBE".toList →
    f.getHeader "id".toList = none) : Asks f .keep

/-- The bytes of one frame that asks for a change. -/
def Carries (piece : Bytes) (x : Paired.Change Int Text) : Prop :=
  0 ∉ piece ∧ ∃ f, outcome piece = .frame f ∧ Asks f x

namespace Framing.ClientFrame

/-- The bytes of one frame, without the NUL. -/
def text (m : ClientFrame) : Bytes := Client.StompProtocol.frameStr m.command m.headers m.body

theorem wire_eq (m : ClientFrame) : m.wire = m.text ++ [0] := rfl

theorem Reads.getHeader {m : ClientFrame} {g : StompFrame} (h : m.Reads g) {k v : Text}
    (hk : m.headers.lookup (encode k) = some (encode v)) : g.getHeader k = some v := by
  obtain ⟨a, b, ha, hb, hab⟩ := (h.header _ _).mp hk
  rwa [encode_injective ha, encode_injective hb]

end Framing.ClientFrame

namespace Client

/-! ## Frames with headers only -/

theorem wellFormed_headerMap {command : Bytes} {l : List (Bytes × Bytes)} (hc : HeaderText command)
    (hkeys : (l.map (·.1)).Nodup)
    (hl : ∀ e ∈ l, (HeaderText e.1 ∧ colon ∉ e.1) ∧ HeaderText e.2) :
    ClientFrame.WellFormed ⟨command, headerMap l, []⟩ where
  command := hc
  key _ _ h := key_headerMap hkeys (fun e he => (hl e he).1) h
  value k v h := (hl _ ((lookup_headerMap l hkeys k v).mp h)).2
  body := ⟨⟨[], rfl⟩, by simp⟩

theorem subscribeFrame_carries {t : Text} {i : Int} (r : Int) (ht : HeaderText (encode t))
    (hi : Decimal.InRange i) : Carries (subscribeFrame (encode t) i r).text (.put i t) := by
  have hkeys : ([(ascii "destination", encode t), (ascii "id", to_string i),
      (ascii "receipt", to_string r)].map (·.1)).Nodup := by
    show [ascii "destination", ascii "id", ascii "receipt"].Nodup
    decide
  have hwf : (subscribeFrame (encode t) i r).WellFormed := by
    refine wellFormed_headerMap ⟨⟨_, rfl⟩, by decide⟩ hkeys ?_
    simp only [List.forall_mem_cons]
    exact ⟨⟨⟨⟨⟨_, rfl⟩, by decide⟩, by decide⟩, ht⟩,
      ⟨⟨⟨⟨_, rfl⟩, by decide⟩, by decide⟩, headerText_to_string i⟩,
      ⟨⟨⟨⟨_, rfl⟩, by decide⟩, by decide⟩, headerText_to_string r⟩, by simp⟩
  obtain ⟨g, hg, h0, hout⟩ := outcome_wire hwf
  have hdest : g.getHeader "destination".toList = some t :=
    hg.getHeader ((lookup_headerMap _ hkeys _ _).mpr (by simp [ascii]))
  have hid : g.getHeader "id".toList = some (Decimal.valueOf i) :=
    hg.getHeader ((lookup_headerMap _ hkeys _ _).mpr (by simp [ascii, to_string]))
  refine ⟨h0, g, hout, .put (encode_injective hg.command).symm hdest ?_⟩
  rw [hid]
  exact Decimal.parseInt_valueOf i hi

theorem unsubscribeFrame_carries {t : Text} {i : Int} (r : Int) (hi : Decimal.InRange i) :
    Carries (unsubscribeFrame i r).text (.drop i t) := by
  have hkeys : ([(ascii "id", to_string i), (ascii "receipt", to_string r)].map (·.1)).Nodup := by
    show [ascii "id", ascii "receipt"].Nodup
    decide
  have hwf : (unsubscribeFrame i r).WellFormed := by
    refine wellFormed_headerMap ⟨⟨_, rfl⟩, by decide⟩ hkeys ?_
    simp only [List.forall_mem_cons]
    exact ⟨⟨⟨⟨⟨_, rfl⟩, by decide⟩, by decide⟩, headerText_to_string i⟩,
      ⟨⟨⟨⟨_, rfl⟩, by decide⟩, by decide⟩, headerText_to_string r⟩, by simp⟩
  obtain ⟨g, hg, h0, hout⟩ := outcome_wire hwf
  have hid : g.getHeader "id".toList = some (Decimal.valueOf i) :=
    hg.getHeader ((lookup_headerMap _ hkeys _ _).mpr (by simp [ascii, to_string]))
  refine ⟨h0, g, hout, .drop (encode_injective hg.command).symm ?_⟩
  rw [hid]
  exact Decimal.parseInt_valueOf i hi

theorem disconnectFrame_carries (r : Int) : Carries (disconnectFrame r).text .keep := by
  have hwf : (disconnectFrame r).WellFormed := by
    refine wellFormed_headerMap ⟨⟨_, rfl⟩, by decide⟩ (List.nodup_singleton _) ?_
    simp only [List.forall_mem_cons]
    exact ⟨⟨⟨⟨⟨_, rfl⟩, by decide⟩, by decide⟩, headerText_to_string r⟩, by simp⟩
  obtain ⟨g, hg, h0, hout⟩ := outcome_wire hwf
  have hcommand : g.command = "DISCONNECT".toList := (encode_injective hg.command).symm
  refine ⟨h0, g, hout, .keep fun h => ?_⟩
  rw [hcommand] at h
  exact absurd h (by decide)

/-! ## Reports -/

theorem zero_mem_ascii (s : String) : 0 ∈ ascii s ↔ '\x00' ∈ s.toList := zero_mem_encode _

theorem zero_not_mem_to_string (n : Int) : 0 ∉ to_string n := (headerText_to_string n).2.2

theorem zero_not_mem_reportBody {username : Bytes} {event : Event} (hu : 0 ∉ username)
    (he : event.NoNul) : 0 ∉ reportBody username event := by
  obtain ⟨hcity, hname, hdescription, hinfo⟩ := he
  have hlines : 0 ∉ event.general_information.entries.flatMap
      (fun e => ascii " " ++ e.1 ++ ascii ":" ++ e.2 ++ ascii "\n") := by
    rw [List.mem_flatMap]
    rintro ⟨e, he, hm⟩
    simp [hinfo e he, zero_mem_ascii] at hm
  simp only [List.append_assoc] at hlines
  simp [reportBody, zero_mem_ascii, hu, hcity, hname, hdescription, hlines, zero_not_mem_to_string]

end Client

/-! ## Any text after the first line -/

theorem zero_not_mem_decode {bs : Bytes} (h : 0 ∉ bs) : '\x00' ∉ decode bs :=
  fun hm => h (mem_decode_ascii '\x00' (by decide) bs hm)

theorem carries_line {command : Text} {rest : Bytes} (hc : '\n' ∉ command) (hne : command ≠ [])
    (hs : command ≠ "SUBSCRIBE".toList) (hu : command ≠ "UNSUBSCRIBE".toList)
    (h0 : 0 ∉ encode command ++ Client.nl :: rest) :
    Carries (encode command ++ Client.nl :: rest) .keep := by
  -- A frame with a command of its own asks for nothing, whatever the rest of it is.
  have htext : decode (encode command ++ Client.nl :: rest) = command ++ '\n' :: decode rest := by
    rw [decode_append_ascii _ _ _ (by decide), decode_encode]
    rfl
  obtain ⟨f, hf, hcommand⟩ := StompFrame.fromString_line command (decode rest) hc hne
    (htext ▸ zero_not_mem_decode h0)
  refine ⟨h0, f, ?_, .keep fun h => ?_⟩
  · rw [outcome, htext, hf]
  · rw [hcommand] at h
    exact absurd h (not_or.mpr ⟨hs, hu⟩)

namespace Client

theorem reportFrame_carries {username channel_name : Bytes} {event : Event} (hu : 0 ∉ username)
    (hc : 0 ∉ channel_name) (he : event.NoNul) :
    Carries (reportFrame username channel_name event).text .keep := by
  have htext : (reportFrame username channel_name event).text = ascii "SEND" ++ nl ::
      (ascii "destination" ++ colon :: channel_name ++ nl :: nl :: reportBody username event) :=
    (frameStr_eq _ _ _).trans (by simp [HeaderLines.layout, HeaderLines.line, reportFrame, headerMap,
      Table.ofPairs])
  have hbody := zero_not_mem_reportBody hu he
  have h0 : 0 ∉ ascii "SEND" ++ nl ::
      (ascii "destination" ++ colon :: channel_name ++ nl :: nl :: reportBody username event) := by
    simp [hc, hbody, zero_mem_ascii, nl, colon]
  rw [htext]
  exact carries_line (by decide) (by decide) (by decide) (by decide) h0

/-! ## The login -/

/-- Everything before the user name in a CONNECT. -/
def connectHead : String := "CONNECT\naccept-version:1.2\nhost:stomp.cs.bgu.ac.il\nlogin:"

theorem connectFrame_text (username password : Bytes) :
    (connectFrame username password).text =
      ascii connectHead ++ (username ++ (ascii "\npasscode:" ++ (password ++ [nl, nl]))) := by
  have hentries : (connectFrame username password).headers.entries =
      [⟨ascii "accept-version", ascii "1.2"⟩, ⟨ascii "host", ascii "stomp.cs.bgu.ac.il"⟩,
        ⟨ascii "login", username⟩, ⟨ascii "passcode", password⟩] := rfl
  simp only [ClientFrame.text, StompProtocol.frameStr, hentries, List.flatMap_cons, List.flatMap_nil,
    StompProtocol.headerLine, List.append_assoc, List.append_nil]
  rfl

theorem outcome_cut_login {username : Bytes} (hu : nl ∉ username) (h0 : 0 ∉ username) :
    ∃ f, outcome (ascii connectHead ++ username) = .frame f ∧
      f.getHeader "passcode".toList = none := by
  have hnl : '\n' ∉ decode username := fun h => hu (mem_decode_ascii '\n' (by decide) _ h)
  let headers : List ((_ : Text) × Text) := [⟨"accept-version".toList, "1.2".toList⟩,
    ⟨"host".toList, "stomp.cs.bgu.ac.il".toList⟩, ⟨"login".toList, decode username⟩]
  have htext : decode (ascii connectHead ++ username) =
      ['\n'].intercalate ("CONNECT".toList :: headers.map (HeaderLines.line ':')) := by
    rw [ascii, decode_encode_append]
    simp [headers, connectHead, HeaderLines.line, List.intercalate, List.intersperse]
  have hlines : ∀ x ∈ headers.map (HeaderLines.line ':'), '\n' ∉ x ∧ x ≠ [] := by
    simp [headers, HeaderLines.line, hnl]
  have h0' : '\x00' ∉ decode (ascii connectHead ++ username) :=
    zero_not_mem_decode (by simp [zero_mem_ascii, connectHead, h0])
  have hread := StompFrame.fromString_noNul_eq h0'
  rw [htext, splitOnce_intercalate _ _ _ (by decide) hlines,
    splitAll_intercalate _ _ _ (by decide) hlines] at hread
  refine ⟨_, by rw [outcome, htext, hread], ?_⟩
  have hput : (headers.map (HeaderLines.line ':')).foldl (HeaderLines.put ':') ∅ = _ :=
    HeaderLines.foldl_put headers ∅ (by simp [headers])
  show ((headers.map (HeaderLines.line ':')).foldl (HeaderLines.put ':') ∅).lookup _ = none
  rw [hput]
  rfl

theorem carries_bare {q : Bytes} (hq : nl ∉ q) (h0 : 0 ∉ q) :
    Carries q .keep ∧ Carries (q ++ [nl, nl]) .keep := by
  have hnl : '\n' ∉ decode q := fun h => hq (mem_decode_ascii '\n' (by decide) _ h)
  obtain ⟨hline, hblank⟩ := StompFrame.fromString_bare (decode q) hnl (zero_not_mem_decode h0)
  have htext : decode (q ++ [nl, nl]) = decode q ++ ['\n', '\n'] := by
    rw [decode_append_ascii _ _ _ (by decide)]
    rfl
  refine ⟨⟨h0, _, by rw [outcome, hline], .keep fun _ => rfl⟩,
    ⟨by simp [h0, nl], _, by rw [outcome, htext, hblank], .keep fun _ => rfl⟩⟩

theorem carries_cut_passcode (q : Bytes) (hq : nl ∉ q) :
    ∃ js : List Bytes, q ++ [nl, nl, 0] = js.flatMap (· ++ [0]) ∧ ∀ j ∈ js, Carries j .keep := by
  induction q using parts_induction (0 : UInt8) with
  | last q h0 =>
    refine ⟨[q ++ [nl, nl]], by simp, ?_⟩
    rw [List.forall_mem_singleton]
    exact (carries_bare hq h0).2
  | cons q1 q2 h1 ih =>
    simp only [List.mem_append, List.mem_cons, not_or] at hq
    obtain ⟨js, hjs, hall⟩ := ih hq.2.2
    refine ⟨q1 :: js, ?_, ?_⟩
    · rw [List.flatMap_cons, ← hjs]
      simp
    · rw [List.forall_mem_cons]
      exact ⟨(carries_bare hq.1 h1).1, hall⟩

theorem connectFrame_piece {username password piece rest : Bytes} {f : StompFrame}
    (hu : nl ∉ username) (hp : nl ∉ password)
    (hwire : (connectFrame username password).wire = piece ++ 0 :: rest) (h0 : 0 ∉ piece)
    (hout : outcome piece = .frame f) (hf : f.getHeader "passcode".toList ≠ none) :
    0 ∉ username ∧ ∃ js : List Bytes, rest = js.flatMap (· ++ [0]) ∧ ∀ j ∈ js, Carries j .keep := by
  -- The first piece of a CONNECT: with a passcode in it, no NUL is in the user name, and what is
  -- left asks for nothing.
  rw [ClientFrame.wire_eq, connectFrame_text] at hwire
  have hhead : 0 ∉ ascii connectHead := by decide
  have hmiddle : 0 ∉ ascii "\npasscode:" := by decide
  have hlogin : 0 ∉ username := by
    intro hm
    obtain ⟨u1, u2, rfl, h1⟩ := List.eq_append_cons_of_mem hm
    have hcut : (ascii connectHead ++ u1) ++
        0 :: (u2 ++ (ascii "\npasscode:" ++ (password ++ [nl, nl])) ++ [0]) = piece ++ 0 :: rest := by
      rw [← hwire]
      simp
    obtain ⟨rfl, -⟩ := append_cons_inj (by simp [hhead, h1]) h0 hcut
    obtain ⟨f', hf', hnone⟩ := outcome_cut_login (fun h => hu (by simp [h])) h1
    cases hf'.symm.trans hout
    exact hf hnone
  refine ⟨hlogin, ?_⟩
  by_cases hm : 0 ∈ password
  · obtain ⟨p1, p2, rfl, h1⟩ := List.eq_append_cons_of_mem hm
    have hcut : (ascii connectHead ++ (username ++ (ascii "\npasscode:" ++ p1))) ++
        0 :: (p2 ++ [nl, nl, 0]) = piece ++ 0 :: rest := by
      rw [← hwire]
      simp
    obtain ⟨-, rfl⟩ := append_cons_inj (by simp [hhead, hlogin, hmiddle, h1]) h0 hcut
    exact carries_cut_passcode p2 fun h => hp (by simp [h])
  · obtain ⟨-, rfl⟩ := append_cons_inj (by simp [hhead, hlogin, hmiddle, hm, nl]) h0 hwire
    exact ⟨[], rfl, by simp⟩

end Client

/-! ## The headers of a CONNECT -/

theorem decode_piece {piece : Bytes} (bs : Bytes) (h : piece ∈ pieces 0 bs) :
    decode piece <:+: decode bs := by
  induction bs using parts_induction (0 : UInt8) with
  | last bs hm =>
    rw [pieces_open _ _ hm] at h
    cases h
  | cons a b ha ih =>
    rw [pieces_cons _ _ _ ha] at h
    rw [decode_append_ascii _ _ _ (by decide)]
    rcases List.mem_cons.mp h with rfl | h
    · exact (List.prefix_append _ _).isInfix
    · refine (ih h).trans (List.IsSuffix.isInfix ?_)
      exact (List.suffix_cons _ _).trans (List.suffix_append _ _)

theorem header_of_lines {piece bs : Bytes} {f : StompFrame} {lines : List Text} {k v : Text}
    (hpiece : piece ∈ pieces 0 bs) (hout : outcome piece = .frame f) (hk : f.getHeader k = some v)
    (hbs : decode bs = ['\n'].intercalate lines) (hlines : ∀ l ∈ lines, '\n' ∉ l)
    (hne : lines ≠ []) : ':' ∉ k ∧ ∃ line ∈ lines.tail, k ++ ':' :: v <+: line := by
  unfold outcome at hout
  split at hout
  · next g hg =>
    cases hout
    obtain ⟨hcolon, hnl, hinside⟩ := StompFrame.fromString_header hg hk
    refine ⟨hcolon, ?_⟩
    have := exists_mem_tail_of_infix _ hnl (hinside.trans (decode_piece bs hpiece))
    rwa [hbs, List.splitOn_intercalate _ hlines hne] at this
  · cases hout

theorem key_of_start {k v key rest : Text} (hk : ':' ∉ k) (hkey : ':' ∉ key)
    (h : k ++ ':' :: v <+: key ++ ':' :: rest) : k = key := by
  obtain ⟨t, ht⟩ := h
  rw [List.append_assoc, List.cons_append] at ht
  exact (append_cons_inj hk hkey ht).1

namespace Client

theorem nl_not_mem_decode {bs : Bytes} (h : nl ∉ bs) : '\n' ∉ decode bs :=
  fun hm => h (mem_decode_ascii '\n' (by decide) bs hm)

theorem decode_passcode (username password : Bytes) :
    decode (username ++ (ascii "\npasscode:" ++ (password ++ [nl, nl])) ++ [0]) =
      decode username ++ '\n' :: ("passcode:".toList ++ (decode password ++ ['\n', '\n', '\x00'])) := by
  have hsplit : username ++ (ascii "\npasscode:" ++ (password ++ [nl, nl])) ++ [0] =
      username ++ nl :: (encode "passcode:".toList ++ (password ++ nl :: [nl, 0])) := by
    simp [ascii]
    rfl
  rw [hsplit, decode_append_ascii _ _ _ (by decide), decode_encode_append,
    decode_append_ascii _ _ _ (by decide)]
  rfl

theorem connectFrame_header {username password piece : Bytes} {f : StompFrame} {k v : Text}
    (hu : nl ∉ username) (hp : nl ∉ password)
    (hpiece : piece ∈ pieces 0 (connectFrame username password).wire)
    (hout : outcome piece = .frame f) (hk : f.getHeader k = some v) :
    k ∈ ["accept-version".toList, "host".toList, "login".toList, "passcode".toList] := by
  have hunl := nl_not_mem_decode hu
  have hpnl := nl_not_mem_decode hp
  let lines : List Text := ["CONNECT".toList, "accept-version".toList ++ ':' :: "1.2".toList,
    "host".toList ++ ':' :: "stomp.cs.bgu.ac.il".toList, "login".toList ++ ':' :: decode username,
    "passcode".toList ++ ':' :: decode password, [], ['\x00']]
  have htext : decode (connectFrame username password).wire = ['\n'].intercalate lines := by
    rw [ClientFrame.wire_eq, connectFrame_text, List.append_assoc, ascii, decode_encode_append,
      decode_passcode]
    simp [lines, connectHead, List.intercalate, List.intersperse]
  have hlines : ∀ l ∈ lines, '\n' ∉ l := by simp [lines, hunl, hpnl]
  obtain ⟨hcolon, line, hline, hprefix⟩ := header_of_lines hpiece hout hk htext hlines (by simp [lines])
  simp only [lines, List.tail_cons, List.mem_cons, List.not_mem_nil, or_false] at hline
  rcases hline with rfl | rfl | rfl | rfl | rfl | rfl
  · simp [key_of_start hcolon (by decide) hprefix]
  · simp [key_of_start hcolon (by decide) hprefix]
  · simp [key_of_start hcolon (by decide) hprefix]
  · simp [key_of_start hcolon (by decide) hprefix]
  · simp at hprefix
  · have := hprefix.subset (List.mem_append_right k List.mem_cons_self)
    simp at this

theorem connectFrame_cut {username password piece : Bytes} {f : StompFrame}
    (hu : nl ∉ username) (hp : nl ∉ password) (h0 : 0 ∈ username)
    (hpiece : piece ∈ pieces 0 (connectFrame username password).wire)
    (hout : outcome piece = .frame f) :
    f.getHeader "login".toList = none ∨ f.getHeader "passcode".toList = none := by
  -- A CONNECT whose login has a NUL is in pieces that have no login or no passcode.
  obtain ⟨u1, u2, rfl, h1⟩ := List.eq_append_cons_of_mem h0
  simp only [List.mem_append, List.mem_cons, not_or] at hu
  have hwire : (connectFrame (u1 ++ 0 :: u2) password).wire = (ascii connectHead ++ u1) ++
      0 :: (u2 ++ (ascii "\npasscode:" ++ (password ++ [nl, nl])) ++ [0]) := by
    rw [ClientFrame.wire_eq, connectFrame_text]
    simp
  have hhead : 0 ∉ ascii connectHead := by decide
  rw [hwire, pieces_cons _ _ _ (by simp [hhead, h1])] at hpiece
  rcases List.mem_cons.mp hpiece with rfl | hpiece
  · obtain ⟨g, hg, hnone⟩ := outcome_cut_login hu.1 h1
    cases hg.symm.trans hout
    exact .inr hnone
  · left
    rw [Option.eq_none_iff_forall_ne_some]
    intro v hk
    have hunl := nl_not_mem_decode hu.2.2
    have hpnl := nl_not_mem_decode hp
    let lines : List Text := [decode u2, "passcode".toList ++ ':' :: decode password, [], ['\x00']]
    have htext : decode (u2 ++ (ascii "\npasscode:" ++ (password ++ [nl, nl])) ++ [0]) =
        ['\n'].intercalate lines := by
      rw [decode_passcode]
      simp [lines, List.intercalate, List.intersperse]
    have hlines : ∀ l ∈ lines, '\n' ∉ l := by simp [lines, hunl, hpnl]
    obtain ⟨hcolon, line, hline, hprefix⟩ :=
      header_of_lines hpiece hout hk htext hlines (by simp [lines])
    simp only [lines, List.tail_cons, List.mem_cons, List.not_mem_nil, or_false] at hline
    rcases hline with rfl | rfl | rfl
    · exact absurd (key_of_start hcolon (by decide) hprefix) (by decide)
    · simp at hprefix
    · have := hprefix.subset (List.mem_append_right _ List.mem_cons_self)
      simp at this

end Client

/-! ## Frames of any bytes -/

section AnyBytes

open Client

namespace Framing

def decodeEntry (e : (_ : Bytes) × Bytes) : (_ : Text) × Text := ⟨decode e.1, decode e.2⟩

theorem decode_layout (command rest : Bytes) (headers : List ((_ : Bytes) × Bytes)) :
    decode (HeaderLines.layout nl colon command headers rest) =
      HeaderLines.layout '\n' ':' (decode command) (headers.map decodeEntry) (decode rest) := by
  have hnl : ∀ xs ys : Bytes, decode (xs ++ nl :: ys) = decode xs ++ '\n' :: decode ys :=
    fun xs ys => decode_append_ascii xs ys nl (by decide)
  have hcolon : ∀ xs ys : Bytes, decode (xs ++ colon :: ys) = decode xs ++ ':' :: decode ys :=
    fun xs ys => decode_append_ascii xs ys colon (by decide)
  rw [HeaderLines.layout, HeaderLines.layout, hnl]
  congr 2
  induction headers with
  | nil => exact hnl [] rest
  | cons e headers ih =>
    simp only [List.map_cons, unlines_cons, List.append_assoc, List.cons_append] at ih ⊢
    rw [hnl, ih, HeaderLines.line, hcolon]
    rfl

namespace ClientFrame

/-- A frame whose lines are lines, of any bytes. Its keys are text. -/
structure Readable (m : ClientFrame) : Prop where
  command : Valid m.command ∧ nl ∉ m.command ∧ 0 ∉ m.command
  key : ∀ k v, m.headers.lookup k = some v → Valid k ∧ colon ∉ k ∧ nl ∉ k ∧ 0 ∉ k
  value : ∀ k v, m.headers.lookup k = some v → nl ∉ v ∧ 0 ∉ v
  body : 0 ∉ m.body

theorem Readable.zero_not_mem {m : ClientFrame} (h : m.Readable) : 0 ∉ m.text := by
  have hlines : 0 ∉ unlines nl (m.headers.entries.map (HeaderLines.line colon)) := by
    simp only [unlines, List.mem_flatMap, List.mem_map]
    rintro ⟨_, ⟨e, he, rfl⟩, hm⟩
    have hkv := (Table.mem_entries_iff m.headers e.1 e.2).mp he
    simp [HeaderLines.line, (h.key _ _ hkv).2.2.2, (h.value _ _ hkv).2, nl, colon] at hm
  have hnl : 0 ≠ nl := by decide
  rw [text, frameStr_eq]
  simp [HeaderLines.layout, h.command.2.2, hlines, h.body, hnl]

theorem Readable.outcome {m : ClientFrame} (h : m.Readable) :
    ∃ f, outcome m.text = .frame f ∧ m.command = encode f.command ∧
      (∀ k, f.getHeader k = (m.headers.lookup (encode k)).map decode) ∧ f.body = decode m.body := by
  let read : ClientFrame :=
    ⟨m.command, m.headers.mapValues fun v => encode (decode v), encode (decode m.body)⟩
  have hlookup : ∀ k v, read.headers.lookup k = some v →
      ∃ w, m.headers.lookup k = some w ∧ v = encode (decode w) := by
    intro k v hkv
    rw [Table.lookup_mapValues] at hkv
    obtain ⟨w, hw, rfl⟩ := Option.map_eq_some_iff.mp hkv
    exact ⟨w, hw, rfl⟩
  have hwf : read.WellFormed := by
    refine ⟨h.command, fun k v hkv => ?_, fun k v hkv => ?_, ⟨_, rfl⟩, ?_⟩
    · obtain ⟨w, hw, -⟩ := hlookup k v hkv
      exact h.key k w hw
    · obtain ⟨w, hw, rfl⟩ := hlookup k v hkv
      have hline := h.value k w hw
      exact ⟨⟨_, rfl⟩, by rw [nl_mem_encode]; exact nl_not_mem_decode hline.1,
        by rw [zero_mem_encode]; exact zero_not_mem_decode hline.2⟩
    · rw [zero_mem_encode]
      exact zero_not_mem_decode h.body
  obtain ⟨f, hf, -, hout⟩ := outcome_wire hwf
  have hsame : decode m.text = decode read.text := by
    rw [text, text, frameStr_eq, frameStr_eq, decode_layout, decode_layout, decode_encode]
    congr 1
    simp [read, Table.mapValues, decodeEntry, List.map_map]
  refine ⟨f, ?_, hf.command, fun k => ?_, encode_injective hf.body.symm⟩
  · rw [StompMessageEncoderDecoder.outcome, hsame]
    exact hout
  · apply Option.ext
    intro v
    constructor
    · intro hk
      obtain ⟨w, hw, heq⟩ := hlookup _ _ ((hf.header _ _).mpr ⟨k, v, rfl, rfl, hk⟩)
      rw [hw, Option.map_some, encode_injective heq]
    · intro hk
      obtain ⟨w, hw, rfl⟩ := Option.map_eq_some_iff.mp hk
      exact hf.getHeader (by rw [Table.lookup_mapValues, hw]; rfl)
end ClientFrame

end Framing

end AnyBytes

/-! ## What the server does with them -/

namespace Server

open StompMessagingProtocolImpl

/-- A session that is logged in, and the two tables of its connection. -/
structure Holds (s : Server) (c : ConnectionId) (p : Session) (own : Int → Option Text)
    (topics : Text → Option Int) : Prop where
  session : s.sessions.lookup c = some p
  connected : p.connected = true
  own_eq : Table.get p.clientSubscriptions = own
  topics_eq : topicsOf s.connections c = topics

theorem Holds.accepts {s : Server} {c : ConnectionId} {p : Session} {own : Int → Option Text}
    {topics : Text → Option Int} {f : StompFrame} {x : Paired.Change Int Text}
    (h : s.Holds c p own topics) (hinv : Paired.Inverse own topics) (hx : x.Fits topics)
    (hf : Asks f x) (hne : x ≠ .keep) : Accepts s.connections p f := by
  cases hf with
  | put command destination id_eq => exact .subscribe ⟨command, h.connected, destination, id_eq⟩
  | @drop i t command id_eq =>
    have hheld : p.clientSubscriptions.lookup i = some t := by
      have := (hinv i t).mpr hx
      rwa [← h.own_eq] at this
    exact .unsubscribe ⟨command, h.connected, id_eq, hheld⟩
  | keep _ => exact absurd rfl hne

theorem Holds.process {s : Server} {c : ConnectionId} {p : Session} {own : Int → Option Text}
    {topics : Text → Option Int} {f : StompFrame} {x : Paired.Change Int Text}
    (h : s.Holds c p own topics) (hinv : Paired.Inverse own topics) (hx : x.Fits topics)
    (hf : Asks f x) (hd : f.command ≠ "DISCONNECT".toList) :
    ∃ p', (s.process c f).1.Holds c p' (x.applyOwn own) (x.apply topics) ∧
      (s.accepted c f = true → s.Live c p → (s.process c f).1.Live c p') := by
  obtain rfl := s.ids c p h.session
  have hacc := accepted_iff (f := f) h.session
  have hacc' := h.accepts hinv hx hf
  have ho := process_outcome s p f
  rw [← process_of_session f h.session] at ho
  obtain ⟨hsession, hconnected, rfl, rfl⟩ := h
  generalize s.process p.connectionId f = r at ho ⊢
  cases ho with
  | refused reason hno =>
    have hkeep : x = .keep := by
      by_contra hne
      exact hno (hacc' hne)
    subst hkeep
    refine ⟨{ p with shouldTerminate := true }, ⟨?_, hconnected, rfl, rfl⟩, fun ha => ?_⟩
    · rw [lookup_setSession, if_pos rfl]
    · exact absurd (hacc.mp ha) hno
  | connect h' => exact absurd h'.fresh (by simp [hconnected])
  | @subscribe topic id h' =>
    cases hf with
    | @put i t command destination id_eq =>
      obtain rfl := Option.some.inj (destination.symm.trans h'.destination)
      obtain rfl := Option.some.inj (id_eq.symm.trans h'.id_eq)
      refine ⟨{ p with clientSubscriptions := p.clientSubscriptions.insert i t },
        ⟨?_, hconnected, Table.get_insert _ _ _, topicsOf_addSubscription _ _ _ _⟩,
        fun _ hl => ⟨?_, hl.registered, hl.open_⟩⟩ <;> rw [lookup_setSession, if_pos rfl]
    | drop command _ => exact absurd (command.symm.trans h'.command) (by decide)
    | keep hk =>
      have := h'.id_eq
      rw [hk (.inl h'.command)] at this
      cases this
  | @unsubscribe topic id h' =>
    cases hf with
    | put command _ _ => exact absurd (command.symm.trans h'.command) (by decide)
    | @drop i t command id_eq =>
      obtain rfl := Option.some.inj (id_eq.symm.trans h'.id_eq)
      obtain rfl := Option.some.inj (((hinv i t).mpr hx).symm.trans h'.held)
      have hreg := (s.connections.removeSubscription_fields t p.connectionId).1
      refine ⟨{ p with clientSubscriptions := p.clientSubscriptions.erase i },
        ⟨?_, hconnected, Table.get_erase _ _, topicsOf_removeSubscription _ _ _⟩,
        fun _ hl => ⟨?_, hreg ▸ hl.registered, hl.open_⟩⟩ <;> rw [lookup_setSession, if_pos rfl]
    | keep hk =>
      have := h'.id_eq
      rw [hk (.inr h'.command)] at this
      cases this
  | send h' =>
    have hkeep : x = .keep := by
      cases hf with
      | put command _ _ => exact absurd (command.symm.trans h'.command) (by decide)
      | drop command _ => exact absurd (command.symm.trans h'.command) (by decide)
      | keep _ => rfl
    subst hkeep
    exact ⟨p, ⟨hsession, hconnected, rfl, rfl⟩, fun _ hl => ⟨hl.session, hl.registered, hl.open_⟩⟩
  | disconnect h' => exact absurd h'.command hd

end Server

end Stomp
