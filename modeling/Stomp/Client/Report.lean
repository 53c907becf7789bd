import Stomp.Client.Commands

/-!
# What a reported event comes back as

The client builds an event from the body that another client's `report` built.
-/

open Stomp.Split Stomp.Utf8

namespace Stomp.Client

open Stomp.Framing

/-! ## Numbers -/

theorem encode_ascii (l : List Char) (h : ∀ c ∈ l, c.toNat < 0x80) :
    encode l = l.map fun c => UInt8.ofNat c.toNat := by
  induction l with
  | nil => rfl
  | cons c l ih =>
    rw [encode_cons, encodeChar_one c (h c List.mem_cons_self),
      ih fun x hx => h x (List.mem_cons_of_mem _ hx)]
    rfl

theorem digit_bounds {c : Char} (h : c.isDigit = true) : 48 ≤ c.toNat ∧ c.toNat ≤ 57 := by
  simp only [Char.isDigit, Bool.and_eq_true, decide_eq_true_eq] at h
  exact h

theorem encode_digits (l : List Char) (h : ∀ c ∈ l, c.isDigit = true) :
    encode l = l.map fun c => UInt8.ofNat c.toNat :=
  encode_ascii l fun c hc => Nat.lt_of_le_of_lt (digit_bounds (h c hc)).2 (by decide)

theorem foldl_digits (l : List Char) (n : Nat) (h : ∀ c ∈ l, c.isDigit = true) :
    (encode l).foldl (fun n b => 10 * n + (b.toNat - 48)) n = Nat.ofDigitChars 10 l n := by
  rw [encode_digits l h, List.foldl_map, Nat.ofDigitChars_eq_foldl]
  induction l generalizing n with
  | nil => rfl
  | cons c l ih =>
    have hc := digit_bounds (h c List.mem_cons_self)
    rw [List.foldl_cons, List.foldl_cons, toNat_ofNat _ (by omega)]
    exact ih _ fun x hx => h x (List.mem_cons_of_mem _ hx)

theorem isDigit_encode (l : List Char) (h : ∀ c ∈ l, c.isDigit = true) :
    ∀ b ∈ encode l, isDigit b = true := by
  rw [encode_digits l h]
  intro b hb
  obtain ⟨c, hc, rfl⟩ := List.mem_map.mp hb
  have hc := digit_bounds (h c hc)
  rw [isDigit, toNat_ofNat _ (by omega)]
  simp [hc.1, hc.2]

theorem stoi_to_string {n : Int} (h : Decimal.InRange n) : stoi (to_string n) = some n := by
  have hdigits := Decimal.isDigit_of_mem_toDigits n.natAbs
  have hne : encode (Nat.toDigits 10 n.natAbs) ≠ [] := by
    rw [encode_digits _ hdigits]
    simp
  have htake := List.takeWhile_eq_self_iff.mpr (isDigit_encode _ hdigits)
  have hvalue : ∀ negative, Decimal.withSign negative n.natAbs = n →
      (if encode (Nat.toDigits 10 n.natAbs) = [] then none else
        Decimal.toInt32 (Decimal.withSign negative
          ((encode (Nat.toDigits 10 n.natAbs)).foldl (fun n b => 10 * n + (b.toNat - 48)) 0))) =
        some n := by
    intro negative hv
    rw [if_neg hne, foldl_digits _ _ hdigits, Nat.ofDigitChars_ten_toDigits, hv]
    exact if_pos h
  by_cases hn : n < 0
  · have htext : to_string n = 45 :: encode (Nat.toDigits 10 n.natAbs) := by
      rw [to_string, Decimal.valueOf, if_pos hn]
      rfl
    have hspace : isSpace 45 = false := by decide
    have hsign : Decimal.withSign true n.natAbs = n := by
      show -(n.natAbs : Int) = n
      omega
    simpa [stoi, htext, hspace, htake] using hvalue true hsign
  · have htext : to_string n = encode (Nat.toDigits 10 n.natAbs) := by
      rw [to_string, Decimal.valueOf, if_neg hn]
    obtain ⟨b, bs, hb⟩ := List.exists_cons_of_ne_nil hne
    have hdigit : isDigit b = true := isDigit_encode _ hdigits b (hb ▸ List.mem_cons_self)
    simp only [isDigit, Bool.and_eq_true, decide_eq_true_eq] at hdigit
    have hspace : isSpace b = false := by
      have : b ≠ 32 := by rintro rfl; exact absurd hdigit.1 (by decide)
      simp [isSpace, this]
      omega
    have hsign : b ≠ 45 ∧ b ≠ 43 := by
      constructor <;> rintro rfl <;> exact absurd hdigit.1 (by decide)
    have hplus : Decimal.withSign false n.natAbs = n := by
      show (n.natAbs : Int) = n
      omega
    have := hvalue false hplus
    rw [hb] at this htake
    simpa [stoi, htext, hb, hspace, hsign, htake] using this

/-! ## Lines -/

theorem getlines_cons (line rest : Bytes) (h : nl ∉ line) :
    getlines nl (line ++ nl :: rest) = line :: getlines nl rest := by
  rw [getlines, pieces_cons _ _ _ h, unfinished_cons _ _ _ h]
  rfl

theorem getlines_unlines (lines : List Bytes) (rest : Bytes) (h : ∀ line ∈ lines, nl ∉ line) :
    getlines nl (unlines nl lines ++ rest) = lines ++ getlines nl rest := by
  induction lines with
  | nil => rfl
  | cons line lines ih =>
    rw [unlines_cons, List.append_assoc, List.cons_append,
      getlines_cons _ _ (h line List.mem_cons_self), ih fun x hx => h x (List.mem_cons_of_mem _ hx)]
    rfl

theorem unlines_getlines (text : Bytes) : unlines nl (getlines nl (text ++ [nl])) = text ++ [nl] := by
  induction text using parts_induction nl with
  | last text hm =>
    rw [getlines_cons _ _ hm]
    simp [getlines, unfinished]
  | cons line rest hline ih =>
    rw [List.append_assoc, List.cons_append, getlines_cons _ _ hline, unlines_cons, ih]

/-- A line with a key and a value. -/
def keyLine (key val : Bytes) : Bytes := key ++ colon :: val

theorem nl_not_mem_keyLine {key val : Bytes} (hk : nl ∉ key) (hv : nl ∉ val) :
    nl ∉ keyLine key val := by
  have hne : nl ≠ colon := by decide
  simp [keyLine, hk, hv, hne]

theorem split_keyLine {key : Bytes} (hk : colon ∉ key) (hne : key ≠ []) (val : Bytes) :
    split_str (keyLine key val) colon = key :: split_str val colon := by
  rw [split_str, keyLine, List.splitOn_append_cons_self_of_not_mem hk, List.filter_cons_of_pos, split_str]
  simpa using hne

/-- The value of a line, from the tokens after the key: the only one, or nothing. -/
def value (args : List Bytes) : Bytes := if args.length = 1 then args.headD [] else []

/-- What the reader takes for a value. -/
def kept (val : Bytes) : Bytes := value (split_str val colon)

theorem value_of_ne_nil {args : List Bytes} (h : value args ≠ []) : args = [value args] := by
  rcases args with _ | ⟨token, _ | ⟨b, args⟩⟩
  · exact absurd rfl h
  · rfl
  · exact absurd rfl h

theorem kept_eq {val : Bytes} (hv : colon ∉ val) : kept val = val := by
  rw [kept, split_str, List.splitOn_eq_singleton hv]
  cases val <;> rfl

theorem kept_eq_iff (val : Bytes) : kept val = val ↔ colon ∉ val := by
  refine ⟨fun h hm => ?_, kept_eq⟩
  have hne : val ≠ [] := List.ne_nil_of_mem hm
  have hargs : split_str val colon = [kept val] := value_of_ne_nil fun hnil => hne (h.symm.trans hnil)
  have htoken : val ∈ split_str val colon := by
    rw [hargs, h]
    exact List.mem_singleton_self val
  exact not_mem_of_mem_splitOn val (List.mem_filter.mp htoken).1 hm

namespace EventReader

/-- The turn of the loop for a line with this key and this value, and the turns after it. -/
def turn (key val : Bytes) (lines : List Bytes) (r : EventReader) : Option EventReader :=
  let r := r.setUserAndChannel key val
  if key = ascii "city" then
    read lines ({ r with event := { r.event with city := val } }.putInformation key val)
  else if key = ascii "event name" then
    read lines ({ r with event := { r.event with name := val } }.putInformation key val)
  else if key = ascii "date time" then
    match stoi val with
    | none => none
    | some n => read lines ({ r with event := { r.event with date_time := n } }.putInformation key val)
  else if key = ascii "general information" then read lines { r with inGeneralInformation := true }
  else if key = ascii "description" then
    some ({ r with event := { r.event with description := unlines nl lines } }.putInformation key val)
  else read lines (r.putInformation key val)

theorem read_tokens {line key : Bytes} {args : List Bytes} (hcolon : colon ∈ line)
    (hsplit : split_str line colon = key :: args) (lines : List Bytes) (r : EventReader) :
    read (line :: lines) r = turn key (value args) lines r := by
  rewrite [read, if_pos hcolon, hsplit]
  rcases args with _ | ⟨val, _ | ⟨b, args⟩⟩ <;> rfl

theorem read_keyLine {key : Bytes} (hk : colon ∉ key) (hne : key ≠ []) (text : Bytes)
    (lines : List Bytes) (r : EventReader) :
    read (keyLine key text :: lines) r = turn key (kept text) lines r :=
  read_tokens (by simp [keyLine]) (split_keyLine hk hne text) lines r

end EventReader

/-! ## The lines of a report -/

/-- The fields of an event, and its user, have no end of line, and `date_time` is an `int`. Only the
keys of the general information have no colon. -/
structure Event.SingleLines (username : Bytes) (event : Event) : Prop where
  user : nl ∉ username
  city : nl ∉ event.city
  name : nl ∉ event.name
  information : ∀ e ∈ event.general_information.entries, (colon ∉ e.1 ∧ nl ∉ e.1) ∧ nl ∉ e.2
  date_time : Decimal.InRange event.date_time

/-- The fields of an event, and its user, stand on one line each, and `date_time` is an `int`. -/
structure Event.OneLine (username : Bytes) (event : Event) : Prop where
  user : colon ∉ username ∧ nl ∉ username
  city : colon ∉ event.city ∧ nl ∉ event.city
  name : colon ∉ event.name ∧ nl ∉ event.name
  information : ∀ e ∈ event.general_information.entries,
    (colon ∉ e.1 ∧ nl ∉ e.1) ∧ colon ∉ e.2 ∧ nl ∉ e.2
  date_time : Decimal.InRange event.date_time

theorem Event.OneLine.singleLines {username : Bytes} {event : Event} (h : event.OneLine username) :
    event.SingleLines username where
  user := h.user.2
  city := h.city.2
  name := h.name.2
  information e he := ⟨(h.information e he).1, (h.information e he).2.2⟩
  date_time := h.date_time

/-- The line of an entry of the general information. -/
def infoLine (e : (_ : Bytes) × Bytes) : Bytes := keyLine (32 :: e.1) e.2

def headLines (username : Bytes) (event : Event) : List Bytes :=
  [keyLine (ascii "user") username, keyLine (ascii "city") event.city,
    keyLine (ascii "event name") event.name,
    keyLine (ascii "date time") (to_string event.date_time),
    keyLine (ascii "general information") []]

theorem reportBody_eq (username : Bytes) (event : Event) :
    reportBody username event = unlines nl (headLines username event ++
        event.general_information.entries.map infoLine ++ [keyLine (ascii "description") []]) ++
      (event.description ++ [nl]) := by
  have hnl : ascii "\n" = [nl] := rfl
  have hcolon : ascii ":" = [colon] := rfl
  have hspace : ascii " " = [32] := rfl
  have huser : ascii "user:" = ascii "user" ++ [colon] := rfl
  have hcity : ascii "city:" = ascii "city" ++ [colon] := rfl
  have hname : ascii "event name:" = ascii "event name" ++ [colon] := rfl
  have hdate : ascii "date time:" = ascii "date time" ++ [colon] := rfl
  have hinformation : ascii "general information:\n" = ascii "general information" ++ [colon, nl] := rfl
  have hdescription : ascii "description:\n" = ascii "description" ++ [colon, nl] := rfl
  have hinfo : event.general_information.entries.flatMap
      (fun e => ascii " " ++ e.1 ++ ascii ":" ++ e.2 ++ ascii "\n") =
      unlines nl (event.general_information.entries.map infoLine) := by
    rw [unlines, List.flatMap_map]
    congr 1
    funext e
    simp [infoLine, keyLine, hnl, hcolon, hspace]
  rw [reportBody, hinfo, huser, hcity, hname, hdate, hinformation, hdescription, hnl]
  simp [headLines, unlines, keyLine]

/-! ## Reading a report -/

theorem nl_not_mem_ascii (s : String) (h : '\n' ∉ s.toList) : nl ∉ ascii s := by
  rwa [ascii, nl_mem_encode]

theorem colon_not_mem_ascii (s : String) (h : ':' ∉ s.toList) : colon ∉ ascii s := by
  rwa [ascii, colon_mem_encode]

theorem colon_not_mem_to_string (n : Int) : colon ∉ to_string n := by
  rw [to_string, colon_mem_encode]
  intro h
  rcases Decimal.mem_valueOf n _ h with h | h <;> revert h <;> decide

theorem nl_not_mem_headLines {username : Bytes} {event : Event} (huser : nl ∉ username)
    (hcity : nl ∉ event.city) (hname : nl ∉ event.name) : ∀ line ∈ headLines username event, nl ∉ line := by
  intro line hline
  have hkey : ∀ (s : String) (val : Bytes), '\n' ∉ s.toList → nl ∉ val → nl ∉ keyLine (ascii s) val :=
    fun s val hs hv => nl_not_mem_keyLine (nl_not_mem_ascii s hs) hv
  simp only [headLines, List.mem_cons, List.not_mem_nil, or_false] at hline
  rcases hline with rfl | rfl | rfl | rfl | rfl
  · exact hkey _ _ (by decide) huser
  · exact hkey _ _ (by decide) hcity
  · exact hkey _ _ (by decide) hname
  · exact hkey _ _ (by decide) (headerText_to_string _).2.1
  · exact hkey _ _ (by decide) List.not_mem_nil

theorem nl_not_mem_infoLine {e : (_ : Bytes) × Bytes} (hk : nl ∉ e.1) (hv : nl ∉ e.2) :
    nl ∉ infoLine e := by
  have hne : nl ≠ 32 := by decide
  exact nl_not_mem_keyLine (by simp [hk, hne]) hv

theorem Event.SingleLines.lines {username : Bytes} {event : Event} (h : event.SingleLines username) :
    ∀ line ∈ headLines username event ++ event.general_information.entries.map infoLine ++
      [keyLine (ascii "description") []], nl ∉ line := by
  intro line hline
  rcases List.mem_append.mp hline with hline | hline
  · rcases List.mem_append.mp hline with hline | hline
    · exact nl_not_mem_headLines h.user h.city h.name line hline
    · obtain ⟨e, he, rfl⟩ := List.mem_map.mp hline
      exact nl_not_mem_infoLine (h.information e he).1.2 (h.information e he).2
  · rw [List.mem_singleton.mp hline]
    exact nl_not_mem_keyLine (nl_not_mem_ascii _ (by decide)) List.not_mem_nil

namespace EventReader

theorem read_infoLines (es : List ((_ : Bytes) × Bytes)) (lines : List Bytes) (r : EventReader)
    (hr : r.inGeneralInformation = true) (h : ∀ e ∈ es, colon ∉ e.1) :
    read (es.map infoLine ++ lines) r = read lines { r with
      general_information_from_string :=
        es.foldl (fun t e => t.insert e.1 (kept e.2)) r.general_information_from_string } := by
  induction es generalizing r with
  | nil => rfl
  | cons e es ih =>
    have hk := h e List.mem_cons_self
    have hspace : colon ≠ 32 := by decide
    have hother : ∀ s : String, (ascii s).head? ≠ some 32 → 32 :: e.1 ≠ ascii s := by
      rintro s hs heq
      rw [← heq] at hs
      exact hs rfl
    rw [List.map_cons, List.cons_append, infoLine,
      read_keyLine (by simp [hk, hspace]) (List.cons_ne_nil _ _), turn]
    have hsame : r.setUserAndChannel (32 :: e.1) (kept e.2) = r := by
      simp only [setUserAndChannel, if_neg (hother "user" (by decide)),
        if_neg (hother "channel name" (by decide))]
    simp only [hsame, if_neg (hother "city" (by decide)), if_neg (hother "event name" (by decide)),
      if_neg (hother "date time" (by decide)), if_neg (hother "general information" (by decide)),
      if_neg (hother "description" (by decide)), putInformation, hr, if_true]
    exact ih _ rfl fun x hx => h x (List.mem_cons_of_mem _ hx)

theorem read_headLines {username : Bytes} {event : Event} (h : Decimal.InRange event.date_time)
    (lines : List Bytes) :
    read (headLines username event ++ lines) initial = read lines
      ⟨⟨[], kept event.city, kept event.name, event.date_time, [], ∅, kept username⟩, true, ∅⟩ := by
  rw [headLines, List.cons_append, read_keyLine (colon_not_mem_ascii _ (by decide)) (by decide), turn]
  simp only [if_neg (show ascii "user" ≠ ascii "city" by decide),
    if_neg (show ascii "user" ≠ ascii "event name" by decide),
    if_neg (show ascii "user" ≠ ascii "date time" by decide),
    if_neg (show ascii "user" ≠ ascii "general information" by decide),
    if_neg (show ascii "user" ≠ ascii "description" by decide)]
  rw [List.cons_append, read_keyLine (colon_not_mem_ascii _ (by decide)) (by decide), turn,
    List.cons_append]
  simp only [if_true]
  rw [read_keyLine (colon_not_mem_ascii _ (by decide)) (by decide), turn, List.cons_append]
  simp only [if_neg (show ascii "event name" ≠ ascii "city" by decide), if_true]
  rw [read_keyLine (colon_not_mem_ascii _ (by decide)) (by decide), turn, List.cons_append,
    List.nil_append, kept_eq (colon_not_mem_to_string _)]
  simp only [if_neg (show ascii "date time" ≠ ascii "city" by decide),
    if_neg (show ascii "date time" ≠ ascii "event name" by decide), if_true,
    stoi_to_string h]
  rw [read_keyLine (colon_not_mem_ascii _ (by decide)) (by decide), turn]
  simp only [if_neg (show ascii "general information" ≠ ascii "city" by decide),
    if_neg (show ascii "general information" ≠ ascii "event name" by decide),
    if_neg (show ascii "general information" ≠ ascii "date time" by decide), if_true]
  rfl

theorem read_description (lines : List Bytes) (r : EventReader) (hr : r.inGeneralInformation = true) :
    read (keyLine (ascii "description") [] :: lines) r = some { r with
      event := { r.event with description := unlines nl lines }
      general_information_from_string :=
        r.general_information_from_string.insert (ascii "escription") [] } := by
  -- The line of the description ends the loop, and is taken for an entry of the general information
  -- as well.
  rw [read_keyLine (colon_not_mem_ascii _ (by decide)) (by decide), kept_eq List.not_mem_nil, turn]
  have hsame : r.setUserAndChannel (ascii "description") [] = r := by
    simp only [setUserAndChannel, if_neg (show ascii "description" ≠ ascii "user" by decide),
      if_neg (show ascii "description" ≠ ascii "channel name" by decide)]
  simp only [hsame, if_neg (show ascii "description" ≠ ascii "city" by decide),
    if_neg (show ascii "description" ≠ ascii "event name" by decide),
    if_neg (show ascii "description" ≠ ascii "date time" by decide),
    if_neg (show ascii "description" ≠ ascii "general information" by decide), if_true,
    putInformation, hr]
  rfl

end EventReader

/-- The event that is built from a report, with `xs` after its body. -/
def Event.readBack (username : Bytes) (event : Event) (xs : Bytes) : Event where
  channel_name := []
  city := event.city
  name := event.name
  date_time := event.date_time
  description := unlines nl (getlines nl (event.description ++ [nl] ++ xs))
  general_information := ((event.general_information.entries.foldl
    (fun t e => t.insert e.1 e.2) (∅ : Table Bytes Bytes)).insert (ascii "escription") [])
  eventOwnerUser := username

theorem ofBody_singleLines {username : Bytes} {event : Event} (h : event.SingleLines username)
    (xs : Bytes) : Event.ofBody (reportBody username event ++ xs) = some
      { channel_name := []
        city := kept event.city
        name := kept event.name
        date_time := event.date_time
        description := unlines nl (getlines nl (event.description ++ [nl] ++ xs))
        general_information := (event.general_information.entries.foldl
          (fun t e => t.insert e.1 (kept e.2)) (∅ : Table Bytes Bytes)).insert (ascii "escription") []
        eventOwnerUser := kept username } := by
  rw [Event.ofBody, reportBody_eq, List.append_assoc, getlines_unlines _ _ h.lines,
    List.append_assoc, List.append_assoc, EventReader.read_headLines h.date_time,
    EventReader.read_infoLines _ _ _ rfl fun e he => (h.information e he).1.1,
    List.cons_append, List.nil_append, EventReader.read_description _ _ rfl]
  rfl

theorem ofBody_reportBody {username : Bytes} {event : Event} (h : event.OneLine username)
    (xs : Bytes) :
    Event.ofBody (reportBody username event ++ xs) = some (event.readBack username xs) := by
  have hinformation := List.foldl_ext
    (fun (t : Table Bytes Bytes) (e : (_ : Bytes) × Bytes) => t.insert e.1 (kept e.2))
    (fun t e => t.insert e.1 e.2) ∅ (l := event.general_information.entries)
    fun t e he => by rw [kept_eq (h.information e he).2.1]
  rw [ofBody_singleLines h.singleLines, hinformation, kept_eq h.user.1, kept_eq h.city.1,
    kept_eq h.name.1, Event.readBack]

theorem lookup_readBack (username : Bytes) (event : Event) (xs k : Bytes) :
    (event.readBack username xs).general_information.lookup k =
      if k = ascii "escription" then some [] else event.general_information.lookup k := by
  have hpairs := Table.lookup_foldl_entries event.general_information k
  rw [Event.readBack, Table.lookup_insert_if, hpairs]

/-- The general information and the description come back as they were. -/
def Event.RoundTrips (username : Bytes) (event : Event) : Prop :=
  ∃ e, Event.ofBody (reportBody username event) = some e ∧
    (∀ k, e.general_information.lookup k = event.general_information.lookup k) ∧
    e.description = event.description

/-- No event comes back as it was: the description gains an end of line, and the general
information the key "escription". -/
theorem no_event_round_trips {username : Bytes} {event : Event} (h : event.OneLine username) :
    (∃ e, Event.ofBody (reportBody username event) = some e ∧
      (∀ k, e.general_information.lookup k =
        if k = ascii "escription" then some [] else event.general_information.lookup k) ∧
      e.description = event.description ++ [nl]) ∧
    ¬ event.RoundTrips username := by
  have hread := ofBody_reportBody h []
  rw [List.append_nil] at hread
  have hdescription : (event.readBack username []).description = event.description ++ [nl] := by
    rw [Event.readBack, List.append_nil]
    exact unlines_getlines _
  refine ⟨⟨_, hread, lookup_readBack username event [], hdescription⟩, ?_⟩
  rintro ⟨e, he, -, hsame⟩
  cases hread.symm.trans he
  rw [hdescription] at hsame
  simpa using congrArg List.length hsame

/-- An event with one entry of general information. -/
def fireEvent : Event :=
  ⟨ascii "fire", ascii "Liberty City", ascii "Fire", 1734961200, ascii "smoke",
    Table.ofPairs [(ascii "active", ascii "true")], []⟩

theorem fireEvent_oneLine : fireEvent.OneLine (ascii "u") := by
  refine ⟨by decide, by decide, by decide, fun e he => ?_, by decide⟩
  cases List.mem_singleton.mp he
  decide

theorem fireEvent_read : (∃ e, Event.ofBody (reportBody (ascii "u") fireEvent) = some e ∧
      (∀ k, e.general_information.lookup k =
        if k = ascii "escription" then some [] else fireEvent.general_information.lookup k) ∧
      e.description = ascii "smoke" ++ [nl]) ∧ ¬ fireEvent.RoundTrips (ascii "u") :=
  no_event_round_trips fireEvent_oneLine

/-- The key "escription" is invented. -/
theorem fireEvent_escription : ∃ e, Event.ofBody (reportBody (ascii "u") fireEvent) = some e ∧
    fireEvent.OneLine (ascii "u") ∧ e.general_information.lookup (ascii "escription") = some [] ∧
    ¬ fireEvent.RoundTrips (ascii "u") := by
  have hread := ofBody_reportBody fireEvent_oneLine []
  rw [List.append_nil] at hread
  refine ⟨_, hread, fireEvent_oneLine, ?_, ?_⟩
  · rw [lookup_readBack, if_pos rfl]
  · rintro ⟨e, he, hinformation, -⟩
    cases hread.symm.trans he
    have := hinformation (ascii "escription")
    rw [lookup_readBack, if_pos rfl] at this
    exact absurd this (by decide)

/-! ## Colons in values -/

/-- The user, the city, the event name, the date and every entry of the general information come
back as they were. -/
def Event.FieldsSurvive (username : Bytes) (event : Event) : Prop :=
  ∃ e, Event.ofBody (reportBody username event) = some e ∧ e.eventOwnerUser = username ∧
    e.city = event.city ∧ e.name = event.name ∧ e.date_time = event.date_time ∧
    ∀ k v, event.general_information.lookup k = some v → e.general_information.lookup k = some v

/-- No value has a colon, and the key that the line of the description writes is free or empty. -/
structure Event.NoColons (username : Bytes) (event : Event) : Prop where
  user : colon ∉ username
  city : colon ∉ event.city
  name : colon ∉ event.name
  information : ∀ k v, event.general_information.lookup k = some v → colon ∉ v
  escription : ∀ v, event.general_information.lookup (ascii "escription") = some v → v = []

theorem lookup_foldl_kept (t : Table Bytes Bytes) (k : Bytes) :
    (t.entries.foldl (fun t e => t.insert e.1 (kept e.2)) (∅ : Table Bytes Bytes)).lookup k =
      (t.lookup k).map kept := by
  rw [← Table.lookup_mapValues]
  refine Eq.trans ?_ (Table.lookup_foldl_entries (t.mapValues kept) k)
  rw [show (t.mapValues kept).entries = t.entries.map fun e => ⟨e.1, kept e.2⟩ from rfl, List.foldl_map]

/-- The fields of an event survive exactly when no value has a colon. -/
theorem fields_survive_iff {username : Bytes} {event : Event} (h : event.SingleLines username) :
    event.FieldsSurvive username ↔ event.NoColons username := by
  have hread := ofBody_singleLines h []
  rw [List.append_nil] at hread
  constructor
  · rintro ⟨e, he, huser, hcity, hname, -, hinformation⟩
    cases hread.symm.trans he
    have hentry : ∀ k v, event.general_information.lookup k = some v →
        (if k = ascii "escription" then some [] else some (kept v)) = some v := by
      intro k v hk
      have hlookup := hinformation k v hk
      rwa [Table.lookup_insert_if, lookup_foldl_kept, hk, Option.map_some] at hlookup
    refine ⟨(kept_eq_iff _).mp huser, (kept_eq_iff _).mp hcity, (kept_eq_iff _).mp hname, ?_, ?_⟩
    · intro k v hk
      have hv := hentry k v hk
      split at hv
      · cases hv
        exact List.not_mem_nil
      · exact (kept_eq_iff v).mp (Option.some.inj hv)
    · intro v hk
      have hv := hentry _ v hk
      rw [if_pos rfl] at hv
      exact (Option.some.inj hv).symm
  · intro hno
    refine ⟨_, hread, kept_eq hno.user, kept_eq hno.city, kept_eq hno.name, rfl, fun k v hk => ?_⟩
    rw [Table.lookup_insert_if, lookup_foldl_kept, hk, Option.map_some, kept_eq (hno.information k v hk)]
    split
    · next hkey =>
      rw [hno.escription v (hkey ▸ hk)]
    · rfl

theorem fireEvent_singleLines (city : Bytes) (h : nl ∉ city) :
    ({ fireEvent with city := city } : Event).SingleLines (ascii "u") :=
  ⟨fireEvent_oneLine.user.2, h, fireEvent_oneLine.name.2, fireEvent_oneLine.singleLines.information,
    fireEvent_oneLine.date_time⟩

theorem fireEvent_fields : fireEvent.FieldsSurvive (ascii "u") := by
  refine (fields_survive_iff fireEvent_oneLine.singleLines).mpr
    ⟨by decide, by decide, by decide, fun k v hk => ?_, fun v hk => by cases hk⟩
  cases List.mem_singleton.mp ((Table.mem_entries_iff _ k v).mpr hk)
  decide

/-- A city with a colon comes back empty. -/
theorem colon_in_city : ∃ event : Event, event.SingleLines (ascii "u") ∧
    event.city = ascii "Haifa:Port" ∧ ¬ event.FieldsSurvive (ascii "u") := by
  have h := fireEvent_singleLines (ascii "Haifa:Port") (by decide)
  have hread := ofBody_singleLines h []
  rw [List.append_nil] at hread
  refine ⟨_, h, rfl, ?_⟩
  rintro ⟨e, he, -, hcity, -⟩
  cases hread.symm.trans he
  exact absurd hcity (by decide)

end Stomp.Client
