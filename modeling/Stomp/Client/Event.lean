import Stomp.Base.Split
import Stomp.Base.Decimal
import Stomp.Base.Table
import Stomp.Base.Utf8

/-!
# Events and their text

The client sends an event as the lines of a body, and builds an event from the lines of a
body that it receives. Strings are bytes.
-/

open Stomp.Split Stomp.Utf8

namespace Stomp.Client

/-- The bytes of a string literal. -/
def ascii (s : String) : Bytes := Utf8.encode s.toList

def nl : UInt8 := 10

def colon : UInt8 := 58

/-- `std::to_string` of an `int`. -/
def to_string (n : Int) : Bytes := Utf8.encode (Decimal.valueOf n)

/-! ## Reading -/

/-- `KeyboardInput::split_str`: the tokens between the delimiters, without the empty ones. -/
def split_str (str : Bytes) (delimiter : UInt8) : List Bytes :=
  (str.splitOn delimiter).filter fun token => !token.isEmpty

def isSpace (b : UInt8) : Bool := b = 32 || (9 ≤ b.toNat && b.toNat ≤ 13)

def isDigit (b : UInt8) : Bool := 48 ≤ b.toNat && b.toNat ≤ 57

/-- `std::stoi`: blanks, a sign and digits, then anything. `none` is `invalid_argument` or
`out_of_range`. -/
def stoi (str : Bytes) : Option Int :=
  let str := str.dropWhile isSpace
  let negative := str.head? = some 45
  let digits := (if negative ∨ str.head? = some 43 then str.tail else str).takeWhile isDigit
  if digits = [] then none
  else
    let n := digits.foldl (fun n b => 10 * n + (b.toNat - 48)) 0
    Decimal.toInt32 (Decimal.withSign negative n)

/-- The lines that repeated calls of `getline` give. -/
def getlines (delim : UInt8) (str : Bytes) : List Bytes :=
  pieces delim str ++ (if unfinished delim str = [] then [] else [unfinished delim str])

structure Event where
  channel_name : Bytes
  city : Bytes
  name : Bytes
  date_time : Int
  description : Bytes
  general_information : Table Bytes Bytes
  eventOwnerUser : Bytes

/-- The local variables of the loop in `Event(frame_body)`. -/
structure EventReader where
  event : Event
  inGeneralInformation : Bool
  general_information_from_string : Table Bytes Bytes

namespace EventReader

def initial : EventReader := ⟨⟨[], [], [], 0, [], ∅, []⟩, false, ∅⟩

/-- The first two tests of a line, which are not part of the `else if` chain. -/
def setUserAndChannel (r : EventReader) (key val : Bytes) : EventReader :=
  let r := if key = ascii "user" then { r with event := { r.event with eventOwnerUser := val } } else r
  if key = ascii "channel name" then { r with event := { r.event with channel_name := val } } else r

/-- The end of the loop body. -/
def putInformation (r : EventReader) (key val : Bytes) : EventReader :=
  if r.inGeneralInformation then
    { r with
      general_information_from_string := r.general_information_from_string.insert (key.drop 1) val }
  else r

/-- The loop of `Event(frame_body)` over the lines that are left. `none` is an exception: of
`lineArgs.at(0)` on a line of colons, or of `stoi`. -/
def read : List Bytes → EventReader → Option EventReader
  | [], r => some r
  | line :: lines, r =>
    if colon ∈ line then
      match split_str line colon with
      | [] => none
      | key :: args =>
        let val := match args with
          | [val] => val
          | _ => []
        let r := r.setUserAndChannel key val
        if key = ascii "city" then
          read lines ({ r with event := { r.event with city := val } }.putInformation key val)
        else if key = ascii "event name" then
          read lines ({ r with event := { r.event with name := val } }.putInformation key val)
        else if key = ascii "date time" then
          match stoi val with
          | none => none
          | some n => read lines ({ r with event := { r.event with date_time := n } }.putInformation key val)
        else if key = ascii "general information" then
          read lines { r with inGeneralInformation := true }
        else if key = ascii "description" then
          -- the inner loop reads all other lines, so that the outer one ends
          some ({ r with event := { r.event with description := unlines nl lines } }.putInformation key val)
        else read lines (r.putInformation key val)
    else read lines r

end EventReader

/-- The constructor `Event(frame_body)`. -/
def Event.ofBody (frame_body : Bytes) : Option Event :=
  (EventReader.read (getlines nl frame_body) .initial).map fun r =>
    { r.event with general_information := r.general_information_from_string }

theorem split_str_eq_nil_iff (str : Bytes) (delimiter : UInt8) :
    split_str str delimiter = [] ↔ ∀ b ∈ str, b = delimiter := by
  rw [split_str, List.filter_eq_nil_iff]
  induction str using parts_induction delimiter with
  | last str hm =>
    rw [List.splitOn_eq_singleton hm]
    cases str with
    | nil => simp
    | cons b str =>
      have hb : b ≠ delimiter := fun h => hm (h ▸ List.mem_cons_self)
      simp [hb]
  | cons token rest htoken ih =>
    rw [List.splitOn_append_cons_self_of_not_mem htoken, List.forall_mem_cons, ih]
    have hnil : token = [] ↔ ∀ b ∈ token, b = delimiter := by
      refine ⟨fun h b hb => (by rw [h] at hb; cases hb), fun h => ?_⟩
      refine List.eq_nil_iff_forall_not_mem.mpr fun b hb => htoken (h b hb ▸ hb)
    simp [or_imp, forall_and, hnil]

/-! ## Writing -/

/-- The body that `report` builds for an event. -/
def reportBody (username : Bytes) (event : Event) : Bytes :=
  ascii "user:" ++ username ++ ascii "\n" ++
    ascii "city:" ++ event.city ++ ascii "\n" ++
    ascii "event name:" ++ event.name ++ ascii "\n" ++
    ascii "date time:" ++ to_string event.date_time ++ ascii "\n" ++
    ascii "general information:\n" ++
    event.general_information.entries.flatMap
      (fun e => ascii " " ++ e.1 ++ ascii ":" ++ e.2 ++ ascii "\n") ++
    ascii "description:\n" ++ event.description ++ ascii "\n"

end Stomp.Client
