import Stomp.Answers
import Stomp.Client.Report

/-!
# Bodies that end the client

The server relays every body. The constructor of the event throws on a line of colons, and on a date
that is no number, wherever it finds one before the description.
-/

open Stomp.Split Stomp.Client
open Stomp.Utf8 (Bytes)

namespace Stomp

namespace Client

/-! ## Lines -/

theorem getlines_end (text : Bytes) : getlines nl (text ++ [nl]) = text.splitOn nl := by
  induction text using parts_induction nl with
  | last text hm =>
    rw [getlines_cons _ _ hm, List.splitOn_eq_singleton hm]
    simp [getlines, unfinished]
  | cons line rest hline ih =>
    rw [List.append_assoc, List.cons_append, getlines_cons _ _ hline, ih,
      List.splitOn_append_cons_self_of_not_mem hline]

/-- The line at which the rest of the body becomes the description. -/
def startsDescription (line : Bytes) : Bool :=
  decide (colon ∈ line) && decide ((split_str line colon).head? = some (ascii "description"))

theorem startsDescription_tokens {line key : Bytes} {args : List Bytes} (hcolon : colon ∈ line)
    (hsplit : split_str line colon = key :: args) :
    startsDescription line = decide (key = ascii "description") := by
  rw [startsDescription, hsplit, decide_eq_true hcolon, Bool.true_and, List.head?_cons]
  simp

theorem startsDescription_noColon {line : Bytes} (h : colon ∉ line) : startsDescription line = false := by
  rw [startsDescription, decide_eq_false h, Bool.false_and]

/-- A line that the constructor of the event reads: with a colon it has something else as well, and
a date is one number. -/
structure Harmless (line : Bytes) : Prop where
  token : colon ∈ line → ∃ b ∈ line, b ≠ colon
  number : ∀ args, colon ∈ line → split_str line colon = ascii "date time" :: args →
    ∃ val, args = [val] ∧ (stoi val).isSome = true

/-- All lines before the description are harmless. -/
def HarmlessBody (body : Bytes) : Prop :=
  ∀ line ∈ (body.splitOn nl).takeWhile (fun line => !startsDescription line), Harmless line

theorem harmless_of_noColon {line : Bytes} (h : colon ∉ line) : Harmless line :=
  ⟨fun hm => absurd hm h, fun _ hm => absurd hm h⟩

theorem not_harmless_of_colons {line : Bytes} (hcolon : colon ∈ line) (h : split_str line colon = []) :
    ¬ Harmless line := by
  intro hh
  obtain ⟨b, hb, hne⟩ := hh.token hcolon
  exact hne ((split_str_eq_nil_iff line colon).mp h b hb)

theorem harmless_tokens_iff {line key : Bytes} {args : List Bytes} (hcolon : colon ∈ line)
    (hsplit : split_str line colon = key :: args) :
    Harmless line ↔ (key = ascii "date time" → (stoi (value args)).isSome = true) := by
  constructor
  · rintro h rfl
    obtain ⟨val, rfl, hval⟩ := h.number args hcolon hsplit
    exact hval
  · intro h
    refine ⟨fun _ => ?_, fun args' _ hsplit' => ?_⟩
    · by_contra hall
      have hnil := (split_str_eq_nil_iff line colon).mpr fun b hb => by_contra fun hne => hall ⟨b, hb, hne⟩
      rw [hsplit] at hnil
      cases hnil
    · cases hsplit.symm.trans hsplit'
      have hval := h rfl
      have hne : value args ≠ [] := by
        intro hnil
        rw [hnil] at hval
        cases hval
      exact ⟨value args, value_of_ne_nil hne, hval⟩

namespace EventReader

theorem isSome_turn {key val : Bytes} {lines : List Bytes} {P : Prop} (hkey : key ≠ ascii "description")
    (hP : ∀ r, (read lines r).isSome = true ↔ P) (r : EventReader) :
    (turn key val lines r).isSome = true ↔
      (key = ascii "date time" → (stoi val).isSome = true) ∧ P := by
  -- Only a date can end the turn of a line that does not start the description.
  have hother : key ≠ ascii "date time" →
      (P ↔ (key = ascii "date time" → (stoi val).isSome = true) ∧ P) :=
    fun hne => ⟨fun hp => ⟨fun h => absurd h hne, hp⟩, fun h => h.2⟩
  simp only [turn, if_neg hkey]
  split
  · next hcity =>
    rw [hP]
    exact hother (by rw [hcity]; decide)
  split
  · next hname =>
    rw [hP]
    exact hother (by rw [hname]; decide)
  split
  · next hdate =>
    cases stoi val with
    | none => simp [hdate]
    | some n =>
      rw [hP]
      simp
  next hdate =>
  split
  · rw [hP]
    exact hother hdate
  · rw [hP]
    exact hother hdate

theorem isSome_read_iff (lines : List Bytes) (r : EventReader) : (read lines r).isSome = true ↔
    ∀ line ∈ lines.takeWhile (fun line => !startsDescription line), Harmless line := by
  induction lines generalizing r with
  | nil => simp [read]
  | cons line lines ih =>
    by_cases hcolon : colon ∈ line
    · cases hsplit : split_str line colon with
      | nil =>
        have hstart : startsDescription line = false := by
          rw [startsDescription, hsplit]
          exact Bool.and_false _
        rw [read, if_pos hcolon, hsplit]
        refine iff_of_false (fun h => by cases h) fun h => ?_
        rw [List.takeWhile_cons_of_pos (by rw [hstart]; rfl)] at h
        exact not_harmless_of_colons hcolon hsplit (h line List.mem_cons_self)
      | cons key args =>
        have hstart := startsDescription_tokens hcolon hsplit
        rw [read_tokens hcolon hsplit]
        by_cases hkey : key = ascii "description"
        · rw [List.takeWhile_cons_of_neg (by simp [hstart, hkey]), hkey]
          refine iff_of_true rfl fun line hline => ?_
          cases hline
        · rw [isSome_turn hkey ih, List.takeWhile_cons_of_pos (by simp [hstart, hkey]),
            List.forall_mem_cons, harmless_tokens_iff hcolon hsplit]
    · have hstart := startsDescription_noColon hcolon
      rw [read, if_neg hcolon, ih, List.takeWhile_cons_of_pos (by rw [hstart]; rfl), List.forall_mem_cons]
      exact ⟨fun h => ⟨harmless_of_noColon hcolon, h⟩, fun h => h.2⟩

end EventReader

end Client

open StompMessagingProtocolImpl

/-! ## Messages -/

/-- The client takes the frame off the wire, and no exception leaves `parseFrame`. -/
def Handled (p : StompProtocol) (g : StompFrame) : Prop :=
  ∃ r p', getFrameAscii [] 0 (StompMessageEncoderDecoder.encode g) = some r ∧
    p.parseFrame r.1 = some p'

theorem handled_iff_parsed {p : StompProtocol} {g : StompFrame} {m : StompProtocol.Parsed}
    (hm : Framing.clientReads g = some m) (hc : m.command = ascii "MESSAGE") {destination : Bytes}
    (hd : m.headers.lookup (ascii "destination") = some destination) :
    Handled p g ↔ (Event.ofBody m.body).isSome = true := by
  obtain ⟨r, hr, rfl⟩ := Option.map_eq_some_iff.mp hm
  have hparse : p.parseFrame r.1 = p.handleMessage (StompProtocol.parse r.1).headers
      (StompProtocol.parse r.1).body := by
    simp only [StompProtocol.parseFrame, hc, if_true]
    rw [if_neg (show ascii "MESSAGE" ≠ ascii "CONNECTED" by decide)]
  have hsome : (p.parseFrame r.1).isSome = (Event.ofBody (StompProtocol.parse r.1).body).isSome := by
    rw [hparse, StompProtocol.handleMessage, hd]
    exact Option.isSome_map
  constructor
  · rintro ⟨r', p', hr', hp'⟩
    cases hr.symm.trans hr'
    rw [← hsome, hp']
    rfl
  · intro h
    obtain ⟨p', hp'⟩ := Option.isSome_iff_exists.mp (hsome.trans h)
    exact ⟨r, p', hr, hp'⟩

theorem handled_iff_read (p : StompProtocol) {topic body : Text} (id messageId : Int)
    (ht : StompFrame.Line topic) (hb : '\x00' ∉ body) :
    Handled p (messageFrame topic id messageId body) ↔
      (EventReader.read ((Utf8.encode body).splitOn nl) .initial).isSome = true := by
  obtain ⟨m, hm, hcommand, hheader, hbody⟩ :=
    Framing.clientReads_spec _ (messageFrame_wellFormed id messageId ht hb)
  have hd : m.headers.lookup (ascii "destination") = some (Utf8.encode topic) :=
    (hheader _ _).mpr ⟨_, topic, rfl, rfl, destination_messageFrame topic body id messageId⟩
  rw [handled_iff_parsed hm hcommand hd, Event.ofBody, Option.isSome_map, hbody, Framing.bodyText]
  split
  · next hempty =>
    have hnil : body = [] := List.isEmpty_iff.mp hempty
    rw [hnil]
    exact iff_of_true rfl rfl
  · have hend : Utf8.encode (body ++ ['\n']) = Utf8.encode body ++ [nl] := Utf8.encode_append _ _
    rw [← getlines_end, ← hend]
    rfl

/-- A relayed body is handled exactly when its lines before the description are harmless. -/
theorem message_handled_iff (p : StompProtocol) {topic body : Text} (id messageId : Int)
    (ht : StompFrame.Line topic) (hb : '\x00' ∉ body) :
    Handled p (messageFrame topic id messageId body) ↔ HarmlessBody (Utf8.encode body) := by
  rw [handled_iff_read p id messageId ht hb, EventReader.isSome_read_iff]
  rfl

theorem line_t : StompFrame.Line "t".toList := by
  unfold StompFrame.Line
  decide

theorem message_handled_hello :
    Handled .initial (messageFrame "t".toList 1 1 "user:u\ndate time:7\n\nhello".toList) :=
  (message_handled_iff .initial 1 1 line_t (by decide)).mpr
    ((EventReader.isSome_read_iff _ .initial).mp (by decide))

/-- A line of one colon, a date that is no number, and a date that no `int` holds. -/
theorem message_not_handled :
    ('\x00' ∉ ":".toList ∧ ¬ Handled .initial (messageFrame "t".toList 1 1 ":".toList)) ∧
      ('\x00' ∉ "date time:noon".toList ∧
        ¬ Handled .initial (messageFrame "t".toList 1 1 "date time:noon".toList)) ∧
      ('\x00' ∉ "date time:9999999999".toList ∧
        ¬ Handled .initial (messageFrame "t".toList 1 1 "date time:9999999999".toList)) := by
  have hnot : ∀ body : Text, '\x00' ∉ body →
      ¬ (EventReader.read ((Utf8.encode body).splitOn nl) .initial).isSome = true →
        '\x00' ∉ body ∧ ¬ Handled .initial (messageFrame "t".toList 1 1 body) :=
    fun body hclean hread => ⟨hclean, fun h => hread ((handled_iff_read .initial 1 1 line_t hclean).mp h)⟩
  refine ⟨hnot _ ?_ ?_, hnot _ ?_ ?_, hnot _ ?_ ?_⟩ <;> decide

end Stomp
