import Mathlib.Data.List.Sort
import Stomp.Base.Forall2
import Stomp.Client.Report

/-!
# Event files

`parseEventsFile` goes through the JSON value of a file. It throws when a member has a type that it
does not expect, and `report` calls it before it sends anything.
-/

open Stomp.Split Stomp.Utf8

namespace Stomp.Client

open Stomp.Framing

/-- `nlohmann::json`, as far as a text can be parsed to it: its strings are UTF-8. A number that is
not an integer is a double, of the type `F`. The entries of an object stand in the order of their
keys. -/
inductive Json (F : Type) where
  | null
  | boolean (b : Bool)
  | integer (n : Int)
  | float (x : F)
  | string (s : Text)
  | array (elements : List (Json F))
  | object (entries : List (Text × Json F))

/-- What the library makes of finite doubles: an `int`, and the shortest text of the number. -/
structure Floats (F : Type) where
  /-- `static_cast<int>`. -/
  toInt : F → Int
  inRange : ∀ x, Decimal.InRange (toInt x)
  dump_float : F → Text
  number : ∀ x, ∀ c ∈ dump_float x, c ∈ "0123456789+-.e".toList

namespace Json

variable {F : Type}

/-! ## Text -/

def hexDigit (n : Nat) : Char := Char.ofNat (if n < 10 then 48 + n else 87 + n)

def escape (c : Char) : Text :=
  if c = '\x08' then "\\b".toList
  else if c = '\t' then "\\t".toList
  else if c = '\n' then "\\n".toList
  else if c = '\x0c' then "\\f".toList
  else if c = '\r' then "\\r".toList
  else if c = '"' then "\\\"".toList
  else if c = '\\' then "\\\\".toList
  else if c.toNat ≤ 0x1f then "\\u00".toList ++ [hexDigit (c.toNat / 16), hexDigit (c.toNat % 16)]
  else [c]

/-- Characters that are not ASCII stay as they are. -/
def dump_escaped (s : Text) : Text := s.flatMap escape

def quoted (s : Text) : Text := '"' :: dump_escaped s ++ ['"']

mutual

/-- The compact form. -/
def dump (fl : Floats F) : Json F → Text
  | null => "null".toList
  | boolean b => if b then "true".toList else "false".toList
  | integer n => Decimal.valueOf n
  | float x => fl.dump_float x
  | string s => quoted s
  | array elements => '[' :: dumpElements fl elements ++ [']']
  | object entries => '\x7b' :: dumpEntries fl entries ++ ['\x7d']

def dumpElements (fl : Floats F) : List (Json F) → Text
  | [] => []
  | [j] => dump fl j
  | j :: elements => dump fl j ++ ',' :: dumpElements fl elements

def dumpEntries (fl : Floats F) : List (Text × Json F) → Text
  | [] => []
  | [e] => dumpEntry fl e
  | e :: entries => dumpEntry fl e ++ ',' :: dumpEntries fl entries

def dumpEntry (fl : Floats F) : Text × Json F → Text
  | (key, j) => quoted key ++ ':' :: dump fl j

end

/-! ## Access -/

/-- `operator[]`, which takes null for an empty object and makes a missing entry null. `none` is a
`type_error`. -/
def get (key : String) : Json F → Option (Json F)
  | null => some null
  | object entries => some ((entries.lookup key.toList).getD null)
  | _ => none

/-- The conversion to `std::string`. -/
def toStr : Json F → Option Text
  | string s => some s
  | _ => none

/-- The conversion to `int`. -/
def toInt (fl : Floats F) : Json F → Option Int
  | integer n => some (Decimal.wrap n)
  | float x => some (fl.toInt x)
  | boolean b => some (if b then 1 else 0)
  | _ => none

/-- What `items` visits. Null is empty, and a primitive value is visited once, with the empty key. -/
def items : Json F → List (Text × Json F)
  | null => []
  | array elements => elements.mapIdx fun i j => (Decimal.valueOf i, j)
  | object entries => entries
  | j => [([], j)]

/-- What a range-based loop visits. -/
def elements : Json F → List (Json F)
  | null => []
  | array elements => elements
  | object entries => entries.map (·.2)
  | j => [j]

/-- A string as it is, and any other value as its text. -/
def text (fl : Floats F) : Json F → Text
  | string s => s
  | j => dump fl j

end Json

/-- A map of strings stands in the order of its keys. -/
def sortKeys (t : Table Bytes Bytes) : Table Bytes Bytes where
  entries := t.entries.insertionSort fun a b => a.1 ≤ b.1
  nodupKeys := by
    have hperm := List.perm_insertionSort (fun a b : (_ : Bytes) × Bytes => a.1 ≤ b.1) t.entries
    exact (List.perm_nodupKeys hperm).mpr t.nodupKeys

variable {F : Type} (fl : Floats F)

/-- The loop over the general information of an event. -/
def readInformation (j : Json F) : Table Bytes Bytes :=
  sortKeys (Table.ofPairs (j.items.map fun e => (encode e.1, encode (e.2.text fl))))

/-- The body of the loop over the events. -/
def readEvent (channel_name : Text) (event : Json F) : Option Event := do
  let name ← (← event.get "event_name").toStr
  let city ← (← event.get "city").toStr
  let date_time ← (← event.get "date_time").toInt fl
  let description ← (← event.get "description").toStr
  let general_information := readInformation fl (← event.get "general_information")
  return ⟨encode channel_name, encode city, encode name, date_time, encode description,
    general_information, []⟩

/-- `none` is an exception. -/
def parseEventsFile (data : Json F) : Option (Text × List Event) := do
  let channel_name ← (← data.get "channel_name").toStr
  let events ← (← data.get "events").elements.mapM (readEvent fl channel_name)
  return (channel_name, events)

/-- The branch of `report`, with the value of the file. An exception ends the program. -/
def StompProtocol.reportFile (p : StompProtocol) (username : Bytes) (data : Json F) :
    Option (StompProtocol × List ClientFrame) :=
  if !p.connected then some (p, [])
  else (parseEventsFile fl data).map fun r => p.report username (encode r.1) r.2

/-! ## Event files -/

namespace Json

/-- An object with this entry. -/
def Has (j : Json F) (key : String) (v : Json F) : Prop :=
  ∃ entries, j = object entries ∧ entries.lookup key.toList = some v

/-- The member with this key, or null. -/
def member (j : Json F) (key : String) : Json F := (j.get key).getD null

inductive IsNumber : Json F → Prop
  | boolean (b : Bool) : IsNumber (boolean b)
  | integer (n : Int) : IsNumber (integer n)
  | float (x : F) : IsNumber (float x)

structure IsEvent (j : Json F) : Prop where
  name : ∃ s, j.Has "event_name" (string s)
  city : ∃ s, j.Has "city" (string s)
  date_time : ∃ d, j.Has "date_time" d ∧ d.IsNumber
  description : ∃ s, j.Has "description" (string s)

/-- A channel, and events if there are any. -/
structure IsEventsFile (data : Json F) : Prop where
  channel_name : ∃ s, data.Has "channel_name" (string s)
  events : ∀ j ∈ (data.member "events").elements, j.IsEvent

/-- The value that a loop over the items leaves under a key: the last one. -/
def item (j : Json F) (key : Text) : Option (Json F) :=
  (j.items.reverse.find? fun e => e.1 = key).map (·.2)

/-- The event that an element of a file stands for. -/
structure Describes (j : Json F) (event : Event) : Prop where
  name : ∃ s, j.Has "event_name" (string s) ∧ event.name = encode s
  city : ∃ s, j.Has "city" (string s) ∧ event.city = encode s
  date_time : ∃ d, j.Has "date_time" d ∧ d.toInt fl = some event.date_time
  description : ∃ s, j.Has "description" (string s) ∧ event.description = encode s
  sorted : event.general_information.keys.Pairwise (· < ·)
  keys : ∀ key ∈ event.general_information.keys, Valid key
  information : ∀ key, event.general_information.lookup (encode key) =
    ((j.member "general_information").item key).map fun v => encode (v.text fl)

theorem isNumber_iff (d : Json F) : d.IsNumber ↔ ∃ n, d.toInt fl = some n := by
  constructor
  · rintro (_ | _ | _) <;> exact ⟨_, rfl⟩
  · rintro ⟨n, h⟩
    cases d with
    | boolean b => exact .boolean b
    | integer n => exact .integer n
    | float x => exact .float x
    | null | string _ | array _ | object _ => cases h

variable {fl}

theorem toStr_get (j : Json F) (key : String) (s : Text) :
    (j.get key).bind toStr = some s ↔ j.Has key (string s) := by
  cases j with
  | object entries =>
    cases h : entries.lookup key.toList with
    | none => simp [get, Has, h, toStr]
    | some v => cases v <;> simp [get, Has, h, toStr]
  | null | boolean _ | integer _ | float _ | string _ | array _ => simp [get, Has, toStr]

theorem toInt_get (j : Json F) (key : String) (n : Int) :
    (j.get key).bind (toInt fl) = some n ↔ ∃ d, j.Has key d ∧ d.toInt fl = some n := by
  cases j with
  | object entries =>
    cases h : entries.lookup key.toList with
    | none => simp [get, Has, h, toInt]
    | some v => simp [get, Has, h]
  | null | boolean _ | integer _ | float _ | string _ | array _ => simp [get, Has, toInt]

theorem mem_of_item {j v : Json F} {key : Text} (h : j.item key = some v) : (key, v) ∈ j.items := by
  obtain ⟨e, he, rfl⟩ := Option.map_eq_some_iff.mp h
  have hkey := List.find?_some he
  simp only [decide_eq_true_eq] at hkey
  subst hkey
  exact List.mem_reverse.mp (List.mem_of_find?_eq_some he)

theorem Has.get {j v : Json F} {key : String} (h : j.Has key v) (key' : String) :
    j.get key' = some (j.member key') := by
  obtain ⟨entries, rfl, -⟩ := h
  rfl

end Json

open Json

theorem lookup_sortKeys (t : Table Bytes Bytes) (key : Bytes) :
    (sortKeys t).lookup key = t.lookup key :=
  AList.perm_lookup (List.perm_insertionSort _ t.entries)

theorem keys_sortKeys (t : Table Bytes Bytes) : (sortKeys t).keys.Pairwise (· < ·) := by
  have hle : (sortKeys t).keys.Pairwise (· ≤ ·) := by
    refine List.pairwise_map.mpr ?_
    exact List.pairwise_insertionSort (fun a b : (_ : Bytes) × Bytes => a.1 ≤ b.1) t.entries
  exact (hle.and (sortKeys t).keys_nodup).imp fun h =>
    List.not_le.mp fun hge => h.2 (List.le_antisymm h.1 hge)

variable {fl}

theorem lookup_readInformation (j : Json F) (key : Bytes) :
    (readInformation fl j).lookup key = (j.items.reverse.find? fun e => encode e.1 = key).map
      fun e => encode (e.2.text fl) := by
  rw [readInformation, lookup_sortKeys, Table.ofPairs, Table.lookup_foldl_insert, AList.lookup_empty,
    Option.or_none, ← List.map_reverse, List.find?_map, Option.map_map]
  rfl

theorem item_readInformation (j : Json F) (key : Text) :
    (readInformation fl j).lookup (encode key) = (j.item key).map fun v => encode (v.text fl) := by
  have hkey : ∀ e : Text × Json F, encode e.1 = encode key ↔ e.1 = key := fun e =>
    ⟨encode_injective, congrArg encode⟩
  rw [lookup_readInformation, item, Option.map_map]
  simp only [hkey]
  rfl

theorem keys_readInformation (j : Json F) : ∀ key ∈ (readInformation fl j).keys, Valid key := by
  intro key hkey
  obtain ⟨val, hval⟩ := Option.isSome_iff_exists.mp (AList.lookup_isSome.mpr hkey)
  rw [lookup_readInformation] at hval
  obtain ⟨e, he, -⟩ := Option.map_eq_some_iff.mp hval
  have hfound := List.find?_some he
  exact ⟨e.1, (of_decide_eq_true hfound).symm⟩

theorem readEvent_some {channel_name : Text} {j : Json F} {event : Event}
    (h : readEvent fl channel_name j = some event) : j.Describes fl event := by
  unfold readEvent at h
  obtain ⟨jname, hjname, h⟩ := Option.bind_eq_some_iff.mp h
  obtain ⟨name, hname, h⟩ := Option.bind_eq_some_iff.mp h
  obtain ⟨jcity, hjcity, h⟩ := Option.bind_eq_some_iff.mp h
  obtain ⟨city, hcity, h⟩ := Option.bind_eq_some_iff.mp h
  obtain ⟨jdate, hjdate, h⟩ := Option.bind_eq_some_iff.mp h
  obtain ⟨date_time, hdate, h⟩ := Option.bind_eq_some_iff.mp h
  obtain ⟨jdescription, hjdescription, h⟩ := Option.bind_eq_some_iff.mp h
  obtain ⟨description, hdescription, h⟩ := Option.bind_eq_some_iff.mp h
  obtain ⟨information, hinformation, h⟩ := Option.bind_eq_some_iff.mp h
  cases h
  refine ⟨⟨name, ?_, rfl⟩, ⟨city, ?_, rfl⟩, ?_, ⟨description, ?_, rfl⟩, keys_sortKeys _,
    keys_readInformation _, fun key => ?_⟩
  · exact (toStr_get j _ _).mp (Option.bind_eq_some_iff.mpr ⟨_, hjname, hname⟩)
  · exact (toStr_get j _ _).mp (Option.bind_eq_some_iff.mpr ⟨_, hjcity, hcity⟩)
  · exact (toInt_get j _ _).mp (Option.bind_eq_some_iff.mpr ⟨_, hjdate, hdate⟩)
  · exact (toStr_get j _ _).mp (Option.bind_eq_some_iff.mpr ⟨_, hjdescription, hdescription⟩)
  · rw [member, hinformation]
    exact item_readInformation information key

theorem readEvent_isSome_iff (channel_name : Text) (j : Json F) :
    (readEvent fl channel_name j).isSome = true ↔ j.IsEvent := by
  rw [Option.isSome_iff_exists]
  constructor
  · rintro ⟨event, hevent⟩
    have h := readEvent_some hevent
    obtain ⟨d, hd, hdate⟩ := h.date_time
    exact ⟨h.name.imp fun _ => And.left, h.city.imp fun _ => And.left,
      ⟨d, hd, (isNumber_iff fl d).mpr ⟨_, hdate⟩⟩, h.description.imp fun _ => And.left⟩
  · intro h
    obtain ⟨name, hname⟩ := h.name
    obtain ⟨city, hcity⟩ := h.city
    obtain ⟨d, hd, hnumber⟩ := h.date_time
    obtain ⟨date_time, hdate⟩ := (isNumber_iff fl d).mp hnumber
    obtain ⟨description, hdescription⟩ := h.description
    have hinformation := hname.get "general_information"
    obtain ⟨jname, hjname, hname⟩ := Option.bind_eq_some_iff.mp ((toStr_get j _ _).mpr hname)
    obtain ⟨jcity, hjcity, hcity⟩ := Option.bind_eq_some_iff.mp ((toStr_get j _ _).mpr hcity)
    obtain ⟨jdate, hjdate, hdate⟩ :=
      Option.bind_eq_some_iff.mp ((toInt_get j _ _).mpr ⟨d, hd, hdate⟩)
    obtain ⟨jdescription, hjdescription, hdescription⟩ :=
      Option.bind_eq_some_iff.mp ((toStr_get j _ _).mpr hdescription)
    refine ⟨⟨encode channel_name, encode city, encode name, date_time, encode description,
      readInformation fl (j.member "general_information"), []⟩, ?_⟩
    simp only [readEvent, Option.bind_eq_bind, hjname, hname, hjcity, hcity, hjdate, hdate,
      hjdescription, hdescription, hinformation, Option.bind_some, Option.pure_def]

theorem parseEventsFile_some {data : Json F} {channel_name : Text} {events : List Event}
    (h : parseEventsFile fl data = some (channel_name, events)) :
    data.Has "channel_name" (string channel_name) ∧
      List.Forall₂ (fun j event => readEvent fl channel_name j = some event)
        (data.member "events").elements events := by
  unfold parseEventsFile at h
  obtain ⟨jname, hjname, h⟩ := Option.bind_eq_some_iff.mp h
  obtain ⟨name, hname, h⟩ := Option.bind_eq_some_iff.mp h
  obtain ⟨jevents, hjevents, h⟩ := Option.bind_eq_some_iff.mp h
  obtain ⟨events, hevents, h⟩ := Option.bind_eq_some_iff.mp h
  cases h
  refine ⟨(toStr_get data _ _).mp (Option.bind_eq_some_iff.mpr ⟨_, hjname, hname⟩), ?_⟩
  rw [member, hjevents]
  exact mapM_eq_some_iff.mp hevents

theorem parseEventsFile_isSome_iff (fl : Floats F) (data : Json F) :
    (parseEventsFile fl data).isSome = true ↔ data.IsEventsFile := by
  rw [Option.isSome_iff_exists]
  constructor
  · rintro ⟨⟨channel_name, events⟩, h⟩
    obtain ⟨hname, hevents⟩ := parseEventsFile_some h
    refine ⟨⟨channel_name, hname⟩, fun j hj => ?_⟩
    obtain ⟨event, -, hevent⟩ := forall₂_mem_left hevents hj
    exact (readEvent_isSome_iff channel_name j).mp (Option.isSome_iff_exists.mpr ⟨event, hevent⟩)
  · intro h
    obtain ⟨channel_name, hname⟩ := h.channel_name
    have hjevents := hname.get "events"
    obtain ⟨jname, hjname, hname⟩ := Option.bind_eq_some_iff.mp ((toStr_get data _ _).mpr hname)
    have hread : ∀ j ∈ (data.member "events").elements,
        ∃ event, readEvent fl channel_name j = some event := fun j hj =>
      Option.isSome_iff_exists.mp ((readEvent_isSome_iff channel_name j).mpr (h.events j hj))
    obtain ⟨events, hevents⟩ := exists_forall₂ (R := fun event j =>
      readEvent fl channel_name j = some event) hread
    refine ⟨(channel_name, events), ?_⟩
    simp only [parseEventsFile, Option.bind_eq_bind, hjname, hname, hjevents,
      mapM_eq_some_iff.mpr hevents.flip, Option.bind_some, Option.pure_def]

def reportLines (username : Bytes) (event : Event) : List Bytes :=
  [ascii "user:" ++ username, ascii "city:" ++ event.city, ascii "event name:" ++ event.name,
    ascii "date time:" ++ to_string event.date_time, ascii "general information:"] ++
  event.general_information.entries.map (fun e => ascii " " ++ e.1 ++ ascii ":" ++ e.2) ++
  [ascii "description:", event.description]

/-- A SEND to the channel, with the lines of the event as its body. -/
structure Reports (username channel_name : Bytes) (event : Event) (m : Framing.ClientFrame) :
    Prop where
  command : m.command = ascii "SEND"
  header : ∀ k v, m.headers.lookup k = some v ↔ k = ascii "destination" ∧ v = channel_name
  body : m.body = (reportLines username event).flatMap fun line => line ++ [nl]

theorem reports_reportFrame (username channel_name : Bytes) (event : Event) :
    Reports username channel_name event (reportFrame username channel_name event) where
  command := rfl
  header k v := by
    have hkeys : ([(ascii "destination", channel_name)].map (·.1)).Nodup := List.nodup_singleton _
    refine (lookup_headerMap _ hkeys k v).trans ?_
    rw [List.mem_singleton, Prod.mk.injEq]
  body := by
    have hinformation : ascii "general information:\n" = ascii "general information:" ++ [nl] := rfl
    have hdescription : ascii "description:\n" = ascii "description:" ++ [nl] := rfl
    have hend : ascii "\n" = [nl] := rfl
    show reportBody username event = _
    simp [reportBody, reportLines, List.flatMap_map, hinformation, hdescription, hend]

/-- A client that is logged in reports a file of events, one SEND for each event in the order of the
file. Any other file is an exception, before anything is sent. -/
theorem reportFile_spec (fl : Floats F) {p : StompProtocol} (hp : p.connected = true) (username : Bytes)
    (data : Json F) :
    ((p.reportFile fl username data).isSome = true ↔ data.IsEventsFile) ∧
    ∀ r, p.reportFile fl username data = some r → ∃ channel_name events,
      data.Has "channel_name" (string channel_name) ∧
      List.Forall₂ (Describes fl) (data.member "events").elements events ∧ r.1 = p ∧
      List.Forall₂ (Reports username (encode channel_name)) events r.2 := by
  unfold StompProtocol.reportFile StompProtocol.report
  simp only [hp, Bool.not_true, Bool.false_eq_true, if_false, Option.isSome_map]
  refine ⟨parseEventsFile_isSome_iff fl data, fun r hr => ?_⟩
  obtain ⟨⟨channel_name, events⟩, h, rfl⟩ := Option.map_eq_some_iff.mp hr
  obtain ⟨hname, hevents⟩ := parseEventsFile_some h
  refine ⟨channel_name, events, hname, hevents.imp fun _ _ => readEvent_some, rfl, ?_⟩
  exact List.forall₂_map_right_iff.mpr
    (List.forall₂_same.mpr fun event _ => reports_reportFrame _ _ event)

theorem digitChar_mem : ∀ n < 10, Nat.digitChar n ∈ "0123456789+-.e".toList := by decide

/-- Doubles from 0.0 to 9.9, by their tenths. -/
def tenths : Floats (Fin 100) where
  toInt x := (x.val / 10 : Nat)
  inRange x := by
    have hx := x.isLt
    unfold Decimal.InRange
    omega
  dump_float x := [Nat.digitChar (x.val / 10), '.', Nat.digitChar (x.val % 10)]
  number x c hc := by
    have hx := x.isLt
    simp only [List.mem_cons, List.not_mem_nil, or_false] at hc
    rcases hc with rfl | rfl | rfl
    · exact digitChar_mem _ (by omega)
    · decide
    · exact digitChar_mem _ (by omega)

/-- A file with one event. -/
def thefts (date_time : Json (Fin 100)) : Json (Fin 100) :=
  .object [("channel_name".toList, .string "police".toList),
    ("events".toList, .array [.object [
      ("city".toList, .string "Liberty City".toList),
      ("date_time".toList, date_time),
      ("description".toList, .string "Plate \"STOL3N1\".".toList),
      ("event_name".toList, .string "Grand Theft Auto".toList),
      ("general_information".toList, .object [
        ("active".toList, .boolean true), ("damage".toList, .float 25)])]])]

/-- A date that is a number is reported, and a date that is text ends the program. -/
theorem reportFile_spec_thefts : ∃ r channel_name events,
    ({ StompProtocol.initial with connected := true } : StompProtocol).reportFile tenths (ascii "u")
      (thefts (.integer 1734961200)) = some r ∧
    List.Forall₂ (Describes tenths) ((thefts (.integer 1734961200)).member "events").elements events ∧
    List.Forall₂ (Reports (ascii "u") (encode channel_name)) events r.2 ∧
    ¬ (thefts (.string "1734961200".toList)).IsEventsFile := by
  have hspec := reportFile_spec tenths (p := { StompProtocol.initial with connected := true }) rfl
    (ascii "u")
  obtain ⟨r, hr⟩ := Option.isSome_iff_exists.mp (show (({ StompProtocol.initial with
    connected := true } : StompProtocol).reportFile tenths (ascii "u")
      (thefts (.integer 1734961200))).isSome = true by decide)
  obtain ⟨channel_name, events, -, hevents, -, hframes⟩ := (hspec _).2 r hr
  refine ⟨r, channel_name, events, hr, hevents, hframes, fun hfile => ?_⟩
  exact absurd ((hspec _).1.mpr hfile) (by decide)

/-! ## The text of a value -/

namespace Json

mutual

/-- No string has a colon, and no object an entry. -/
def noColon : Json F → Bool
  | null | boolean _ | integer _ | float _ => true
  | string s => decide (':' ∉ s)
  | array elements => noColons elements
  | object entries => entries.isEmpty

def noColons : List (Json F) → Bool
  | [] => true
  | j :: elements => noColon j && noColons elements

end

/-- What a client reads of the text of a value, when it is the value of a line. -/
def received (fl : Floats F) : Json F → Bytes
  | string s => kept (encode s)
  | j => if j.noColon then encode (j.dump fl) else []

theorem hexDigit_spec : ∀ n < 16, 32 ≤ (hexDigit n).toNat ∧ hexDigit n ≠ ':' := by
  decide

theorem printable_of_all {l : Text} (h : (l.all fun c => 32 ≤ c.toNat) = true) :
    ∀ c ∈ l, 32 ≤ c.toNat := by
  simpa only [List.all_eq_true, decide_eq_true_eq] using h

theorem escape_printable (b : Char) : ∀ c ∈ escape b, 32 ≤ c.toNat := by
  unfold escape
  split_ifs
  all_goals first | exact printable_of_all (by decide) | skip
  · have h1 := (hexDigit_spec (b.toNat / 16) (by omega)).1
    have h2 := (hexDigit_spec (b.toNat % 16) (by omega)).1
    intro c hc
    rcases List.mem_append.mp hc with hc | hc
    · exact printable_of_all (l := "\\u00".toList) (by decide) c hc
    · simp only [List.mem_cons, List.not_mem_nil, or_false] at hc
      rcases hc with rfl | rfl <;> assumption
  · intro c hc
    rw [List.mem_singleton.mp hc]
    omega

theorem colon_mem_escape (c : Char) : ':' ∈ escape c ↔ c = ':' := by
  unfold escape
  split_ifs
  all_goals first | (subst c; decide) | skip
  · have h1 := (hexDigit_spec (c.toNat / 16) (by omega)).2
    have h2 := (hexDigit_spec (c.toNat % 16) (by omega)).2
    have h0 : ':' ∉ "\\u00".toList := by decide
    have hc : c ≠ ':' := by
      rintro rfl
      exact absurd ‹Char.toNat ':' ≤ 0x1f› (by decide)
    rw [List.mem_append]
    simp only [h0, hc, List.mem_cons, Ne.symm h1, Ne.symm h2, List.not_mem_nil, or_false]
  · rw [List.mem_singleton, eq_comm]

theorem enclosed_printable {b e : Char} {l : Text} (hb : 32 ≤ b.toNat) (he : 32 ≤ e.toNat)
    (hl : ∀ c ∈ l, 32 ≤ c.toNat) : ∀ c ∈ b :: l ++ [e], 32 ≤ c.toNat := by
  intro c hc
  simp only [List.cons_append, List.mem_cons, List.mem_append, List.not_mem_nil, or_false] at hc
  rcases hc with rfl | hc | rfl
  · exact hb
  · exact hl c hc
  · exact he

theorem joined_printable {b : Char} {l m : Text} (hb : 32 ≤ b.toNat) (hl : ∀ c ∈ l, 32 ≤ c.toNat)
    (hm : ∀ c ∈ m, 32 ≤ c.toNat) : ∀ c ∈ l ++ b :: m, 32 ≤ c.toNat := by
  intro c hc
  simp only [List.mem_append, List.mem_cons] at hc
  rcases hc with hc | rfl | hc
  · exact hl c hc
  · exact hb
  · exact hm c hc

theorem quoted_printable (s : Text) : ∀ c ∈ quoted s, 32 ≤ c.toNat := by
  unfold quoted dump_escaped
  apply enclosed_printable (by decide) (by decide)
  intro c hc
  obtain ⟨b, -, hc⟩ := List.mem_flatMap.mp hc
  exact escape_printable b c hc

theorem colon_mem_quoted (s : Text) : ':' ∈ quoted s ↔ ':' ∈ s := by
  have hquote : ':' ≠ '"' := by decide
  simp [quoted, dump_escaped, colon_mem_escape, hquote]

mutual

theorem dump_printable (fl : Floats F) : ∀ j : Json F, ∀ c ∈ j.dump fl, 32 ≤ c.toNat
  | null => by rw [dump]; exact printable_of_all (by decide)
  | boolean b => by rw [dump]; cases b <;> exact printable_of_all (by decide)
  | integer n => by
    rw [dump]
    intro c hc
    rcases Decimal.mem_valueOf n c hc with rfl | hc
    · decide
    · have hbounds := digit_bounds hc
      omega
  | float x => by
    rw [dump]
    intro c hc
    exact printable_of_all (l := "0123456789+-.e".toList) (by decide) c (fl.number x c hc)
  | string s => by
    rw [dump]
    exact quoted_printable s
  | array elements => by
    rw [dump]
    exact enclosed_printable (by decide) (by decide) (dumpElements_printable fl elements)
  | object entries => by
    rw [dump]
    exact enclosed_printable (by decide) (by decide) (dumpEntries_printable fl entries)

theorem dumpElements_printable (fl : Floats F) :
    ∀ js : List (Json F), ∀ c ∈ dumpElements fl js, 32 ≤ c.toNat
  | [] => by simp [dumpElements]
  | [j] => by
    rw [dumpElements]
    exact dump_printable fl j
  | j :: k :: js => by
    rw [dumpElements]
    · exact joined_printable (by decide) (dump_printable fl j) (dumpElements_printable fl (k :: js))
    · simp

theorem dumpEntries_printable (fl : Floats F) :
    ∀ es : List (Text × Json F), ∀ c ∈ dumpEntries fl es, 32 ≤ c.toNat
  | [] => by simp [dumpEntries]
  | [e] => by
    rw [dumpEntries]
    exact dumpEntry_printable fl e
  | e :: e' :: es => by
    rw [dumpEntries]
    · exact joined_printable (by decide) (dumpEntry_printable fl e) (dumpEntries_printable fl (e' :: es))
    · simp

theorem dumpEntry_printable (fl : Floats F) : ∀ e : Text × Json F, ∀ c ∈ dumpEntry fl e, 32 ≤ c.toNat
  | (key, j) => by
    rw [dumpEntry]
    exact joined_printable (by decide) (quoted_printable key) (dump_printable fl j)

end

theorem colon_mem_dumpEntries (fl : Floats F) {entries : List (Text × Json F)} (h : entries ≠ []) :
    ':' ∈ dumpEntries fl entries := by
  have hentry : ∀ e : Text × Json F, ':' ∈ dumpEntry fl e := fun e => by
    rw [dumpEntry]
    exact List.mem_append_right _ List.mem_cons_self
  rcases entries with _ | ⟨e, _ | ⟨e', es⟩⟩
  · exact absurd rfl h
  · rw [dumpEntries]
    exact hentry e
  · rw [dumpEntries]
    · exact List.mem_append_left _ (hentry e)
    · simp

theorem colon_not_mem_valueOf (n : Int) : ':' ∉ Decimal.valueOf n := by
  intro hm
  rcases Decimal.mem_valueOf n _ hm with h | h <;> revert h <;> decide

mutual

theorem colon_mem_dump (fl : Floats F) : ∀ j : Json F, ':' ∈ j.dump fl ↔ j.noColon = false
  | null => by rw [dump, noColon]; decide
  | boolean b => by rw [dump, noColon]; cases b <;> decide
  | integer n => by
    simp [dump, noColon, colon_not_mem_valueOf]
  | float x => by
    have hnumber : ':' ∉ fl.dump_float x := fun hc => absurd (fl.number x _ hc) (by decide)
    simp [dump, noColon, hnumber]
  | string s => by
    simp [dump, noColon, colon_mem_quoted]
  | array elements => by
    simp [dump, noColon, colon_mem_dumpElements fl elements]
  | object entries => by
    by_cases h : entries = []
    · simp [dump, noColon, h, dumpEntries]
    · simp [dump, noColon, h, colon_mem_dumpEntries fl h]

theorem colon_mem_dumpElements (fl : Floats F) :
    ∀ js : List (Json F), ':' ∈ dumpElements fl js ↔ noColons js = false
  | [] => by simp [dumpElements, noColons]
  | [j] => by simp [dumpElements, noColons, colon_mem_dump fl j]
  | j :: k :: js => by
    rw [dumpElements, noColons, List.mem_append, List.mem_cons, colon_mem_dump fl j,
      colon_mem_dumpElements fl (k :: js), Bool.and_eq_false_iff]
    · simp
    · simp

end

theorem kept_between {b c : Char} {m : Text} (hb : b ≠ ':') (hc : c ≠ ':') (hm : ':' ∈ m) :
    kept (encode (b :: m ++ [c])) = [] := by
  -- A value between two characters that are no colons is not read when it has a colon.
  obtain ⟨xs, ys, rfl, hxs⟩ := List.eq_append_cons_of_mem hm
  have hsplit : encode (b :: (xs ++ ':' :: ys) ++ [c]) =
      keyLine (encode (b :: xs)) (encode (ys ++ [c])) := by
    have hcolon : encode [':'] = [colon] := rfl
    rw [keyLine, ← List.singleton_append (x := colon), ← hcolon, ← encode_append, ← encode_append]
    simp
  have hkey : colon ∉ encode (b :: xs) := by
    rw [colon_mem_encode]
    simp [hxs, Ne.symm hb]
  have hne : encode (b :: xs) ≠ [] := fun hnil =>
    absurd (encode_injective (t := []) hnil) (List.cons_ne_nil _ _)
  have hrest : split_str (encode (ys ++ [c])) colon ≠ [] := by
    rw [Ne, split_str_eq_nil_iff, encode_append]
    intro h
    have hlast : colon ∉ encode [c] := by
      rw [colon_mem_encode, List.mem_singleton]
      exact Ne.symm hc
    obtain ⟨x, hx⟩ := List.exists_mem_of_ne_nil (encode [c]) fun hnil =>
      absurd (encode_injective (t := []) hnil) (List.cons_ne_nil _ _)
    exact hlast (h x (List.mem_append_right _ hx) ▸ hx)
  have hlength : (encode (b :: xs) :: split_str (encode (ys ++ [c])) colon).length ≠ 1 := by
    simpa using hrest
  rw [kept, hsplit, split_keyLine hkey hne, value, if_neg hlength]

theorem kept_text (j : Json F) : kept (encode (j.text fl)) = j.received fl := by
  have hplain : ∀ j : Json F, j.noColon = true → kept (encode (j.dump fl)) = encode (j.dump fl) :=
    fun j h => kept_eq fun hm => by
      rw [(colon_mem_dump fl j).mp ((colon_mem_encode _).mp hm)] at h
      cases h
  cases j with
  | string s => rfl
  | null | boolean _ | integer _ | float _ => exact hplain _ (by rw [noColon])
  | array elements =>
    by_cases h : (array elements).noColon = true
    · simp only [text, received, h, if_true, hplain _ h]
    · have hm := (colon_mem_dumpElements fl elements).mpr (by simpa [noColon] using h)
      simp only [text, received, if_neg h, dump]
      exact kept_between (by decide) (by decide) hm
  | object entries =>
    by_cases h : (object entries).noColon = true
    · simp only [text, received, h, if_true, hplain _ h]
    · have hne : entries ≠ [] := by simpa [noColon] using h
      have hm := colon_mem_dumpEntries fl hne
      simp only [text, received, if_neg h, dump]
      exact kept_between (by decide) (by decide) hm

end Json

/-! ## What comes of an event -/

namespace Json

/-- The names stand on one line each, and no text has a NUL. The text of a value that is no string
always stands on one line. -/
structure Sendable (j : Json F) : Prop where
  name : ∀ s, j.Has "event_name" (string s) → StompFrame.Line s
  city : ∀ s, j.Has "city" (string s) → StompFrame.Line s
  description : ∀ s, j.Has "description" (string s) → '\x00' ∉ s
  keys : ∀ key v, (j.member "general_information").item key = some v → ':' ∉ key ∧ StompFrame.Line key
  values : ∀ key s, (j.member "general_information").item key = some (string s) → StompFrame.Line s

/-- The event that a client makes of the report of an element. -/
structure Arrives (fl : Floats F) (username : Bytes) (j : Json F) (e : Event) : Prop where
  user : e.eventOwnerUser = kept username
  name : ∃ s, j.Has "event_name" (string s) ∧ e.name = kept (encode s)
  city : ∃ s, j.Has "city" (string s) ∧ e.city = kept (encode s)
  date_time : ∃ d, j.Has "date_time" d ∧ d.toInt fl = some e.date_time
  description : ∃ s, j.Has "description" (string s) ∧ e.description = encode s ++ [nl, nl]
  information : ∀ key, e.general_information.lookup (encode key) = if key = "escription".toList then some []
    else ((j.member "general_information").item key).map (received fl)

theorem inRange_toInt {d : Json F} {n : Int} (h : d.toInt fl = some n) : Decimal.InRange n := by
  cases d with
  | boolean b =>
    cases h
    cases b <;> exact ⟨by decide, by decide⟩
  | integer n =>
    cases h
    exact Decimal.inRange_wrap n
  | float x =>
    cases h
    exact fl.inRange x
  | null | string _ | array _ | object _ => cases h

theorem line_text {j : Json F} (h : ∀ s, j = string s → StompFrame.Line s) :
    StompFrame.Line (j.text fl) := by
  have hdump : StompFrame.Line (j.dump fl) := by
    constructor <;> exact fun hm => absurd (dump_printable fl j _ hm) (by decide)
  cases j with
  | string s => exact h s rfl
  | null | boolean _ | integer _ | float _ | array _ | object _ => exact hdump

theorem line_encode {t : Text} (h : StompFrame.Line t) : nl ∉ encode t ∧ 0 ∉ encode t :=
  ⟨(nl_mem_encode t).not.mpr h.1, (zero_mem_encode t).not.mpr h.2⟩

namespace Describes

variable {j : Json F} {event : Event}

theorem entry (h : j.Describes fl event) {e : (_ : Bytes) × Bytes}
    (he : e ∈ event.general_information.entries) : ∃ key v, e.1 = encode key ∧
      e.2 = encode (v.text fl) ∧ (j.member "general_information").item key = some v := by
  obtain ⟨key, hkey⟩ := h.keys e.1 (List.mem_map_of_mem he)
  have hlookup := h.information key
  rw [← hkey, (Table.mem_entries_iff _ e.1 e.2).mp he, eq_comm] at hlookup
  obtain ⟨v, hv, htext⟩ := Option.map_eq_some_iff.mp hlookup
  exact ⟨key, v, hkey, htext.symm, hv⟩

theorem singleLines (h : j.Describes fl event) (hs : j.Sendable) {username : Bytes}
    (huser : nl ∉ username) : event.SingleLines username where
  user := huser
  city := by
    obtain ⟨s, hcity, heq⟩ := h.city
    rw [heq]
    exact (line_encode (hs.city s hcity)).1
  name := by
    obtain ⟨s, hname, heq⟩ := h.name
    rw [heq]
    exact (line_encode (hs.name s hname)).1
  information e he := by
    obtain ⟨key, v, hkey, hval, hv⟩ := h.entry he
    obtain ⟨hcolon, hline⟩ := hs.keys key v hv
    rw [hkey, hval]
    refine ⟨⟨(colon_mem_encode key).not.mpr hcolon, (line_encode hline).1⟩, (line_encode ?_).1⟩
    exact line_text fun s heq => hs.values key s (heq ▸ hv)
  date_time := by
    obtain ⟨d, -, hd⟩ := h.date_time
    exact inRange_toInt hd

theorem noNul (h : j.Describes fl event) (hs : j.Sendable) : event.NoNul := by
  obtain ⟨name, hname, hnameEq⟩ := h.name
  obtain ⟨city, hcity, hcityEq⟩ := h.city
  obtain ⟨description, hdescription, hdescriptionEq⟩ := h.description
  rw [Event.NoNul, hnameEq, hcityEq, hdescriptionEq]
  refine ⟨(line_encode (hs.city _ hcity)).2, (line_encode (hs.name _ hname)).2,
    (zero_mem_encode _).not.mpr (hs.description _ hdescription), fun e he => ?_⟩
  obtain ⟨key, v, hkey, hval, hv⟩ := h.entry he
  rw [hkey, hval]
  refine ⟨(line_encode (hs.keys key v hv).2).2, (line_encode ?_).2⟩
  exact line_text fun s heq => hs.values key s (heq ▸ hv)

theorem arrives (h : j.Describes fl event) (hs : j.Sendable) {username : Bytes}
    (huser : nl ∉ username) :
    ∃ e, Event.ofBody (reportBody username event ++ [nl]) = some e ∧ j.Arrives fl username e := by
  refine ⟨_, ofBody_singleLines (h.singleLines hs huser) [nl], rfl, ?_, ?_, h.date_time, ?_,
    fun key => ?_⟩
  · obtain ⟨s, hname, heq⟩ := h.name
    exact ⟨s, hname, congrArg kept heq⟩
  · obtain ⟨s, hcity, heq⟩ := h.city
    exact ⟨s, hcity, congrArg kept heq⟩
  · obtain ⟨s, hdescription, heq⟩ := h.description
    refine ⟨s, hdescription, ?_⟩
    dsimp only
    rw [unlines_getlines, heq, List.append_assoc]
    rfl
  · have hkey : encode key = ascii "escription" ↔ key = "escription".toList :=
      ⟨fun heq => encode_injective heq, congrArg encode⟩
    dsimp only
    rw [Table.lookup_insert_if, lookup_foldl_kept, h.information, Option.map_map]
    simp only [hkey, Function.comp_def, kept_text]

end Describes

end Json

end Stomp.Client
