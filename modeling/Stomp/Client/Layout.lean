import Stomp.Bodies
import Stomp.Client.Summary

/-!
# The block of a report in a summary

A block is five lines after an empty one. The description that it shows is the text after the line
of the description in the body that was read, with all its ends of line.
-/

open Stomp.Split Stomp.Utf8

namespace Stomp.Client

/-! ## The date -/

/-- The fields of `std::tm` that are printed. -/
structure Tm where
  tm_mday : Fin 32
  tm_mon : Fin 12
  tm_year : Nat
  tm_hour : Fin 24
  tm_min : Fin 60

def twoDigits (n : Nat) : Bytes := [UInt8.ofNat (48 + n / 10 % 10), UInt8.ofNat (48 + n % 10)]

/-- `std::put_time(tm, "%d/%m/%y %H:%M")` -/
def put_time (tm : Tm) : Bytes :=
  twoDigits tm.tm_mday ++ ascii "/" ++ twoDigits (tm.tm_mon + 1) ++ ascii "/" ++
    twoDigits (tm.tm_year % 100) ++ ascii " " ++ twoDigits tm.tm_hour ++ ascii ":" ++
    twoDigits tm.tm_min

def epochToDate (localtime : Int → Tm) (epochTime : Int) : Bytes := put_time (localtime epochTime)

theorem nl_not_mem_twoDigits (n : Nat) : nl ∉ twoDigits n := by
  have hdigit : ∀ k < 10, nl ≠ UInt8.ofNat (48 + k) := by decide
  have htens := hdigit _ (Nat.mod_lt (n / 10) (by decide))
  have hones := hdigit _ (Nat.mod_lt n (by decide))
  rw [twoDigits, List.mem_cons, List.mem_singleton, not_or]
  exact ⟨htens, hones⟩

theorem nl_not_mem_epochToDate (localtime : Int → Tm) (epochTime : Int) :
    nl ∉ epochToDate localtime epochTime := by
  have hascii : nl ∉ ascii "/" ∧ nl ∉ ascii " " ∧ nl ∉ ascii ":" := by decide
  simp [epochToDate, put_time, nl_not_mem_twoDigits, hascii]

/-! ## Blocks -/

/-- What the summary line has to show. -/
def shown (description : Bytes) : Bytes :=
  if description.length ≤ 27 then description else description.take 27 ++ ascii "..."

def blockLines (number : Nat) (city date name summary : Bytes) : List Bytes :=
  [ascii "Report_" ++ to_string number ++ ascii ":", ascii "\tcity: " ++ city,
    ascii "\tdate time: " ++ date, ascii "\tevent name: " ++ name, ascii "\tsummary: " ++ summary]

/-- After an empty line, the block is these five lines. -/
structure LaidOut (number : Nat) (city date name summary block : Bytes) : Prop where
  block_eq : block = nl :: unlines nl (blockLines number city date name summary)
  oneLine : ∀ line ∈ blockLines number city date name summary, nl ∉ line

theorem nl_not_mem_shown {description : Bytes} (h : nl ∉ description) : nl ∉ shown description := by
  unfold shown
  split
  · exact h
  · have hdots : nl ∉ ascii "..." := by decide
    simp only [List.mem_append, not_or]
    exact ⟨fun hm => h (List.mem_of_mem_take hm), hdots⟩

theorem reportEntry_eq (date : Int → Bytes) (number : Nat) (city : Bytes) (date_time : Int)
    (name description : Bytes) : reportEntry date number city date_time name description =
      nl :: unlines nl (blockLines number city (date date_time) name (shortDescription description)) := by
  have hnl : ascii "\n" = [nl] := rfl
  have hreport : ascii "\nReport_" = nl :: ascii "Report_" := rfl
  have hcolon : ascii ":\n" = ascii ":" ++ [nl] := rfl
  simp [reportEntry, blockLines, unlines, hnl, hreport, hcolon]

theorem laidOut_iff {date : Int → Bytes} {number : Nat} {city name description summary : Bytes}
    {date_time : Int} (hcity : nl ∉ city) (hdate : nl ∉ date date_time) (hname : nl ∉ name)
    (hsummary : nl ∉ summary) :
    LaidOut number city (date date_time) name summary
        (reportEntry date number city date_time name description) ↔
      shortDescription description = summary := by
  constructor
  · intro h
    have hblock := h.block_eq
    rw [reportEntry_eq] at hblock
    simpa [blockLines] using hblock
  · rintro rfl
    refine ⟨reportEntry_eq _ _ _ _ _ _, fun line hline => ?_⟩
    have hascii : nl ∉ ascii "Report_" ∧ nl ∉ ascii ":" ∧ nl ∉ ascii "\tcity: " ∧
        nl ∉ ascii "\tdate time: " ∧ nl ∉ ascii "\tevent name: " ∧ nl ∉ ascii "\tsummary: " := by
      decide
    obtain ⟨hreport, hcolon, hcity', hdate', hname', hsummary'⟩ := hascii
    have hnumber : nl ∉ to_string number := (headerText_to_string _).2.1
    simp only [blockLines, List.mem_cons, List.not_mem_nil, or_false] at hline
    rcases hline with rfl | rfl | rfl | rfl | rfl <;>
      simp [hreport, hcolon, hcity', hdate', hname', hsummary', hnumber, hcity, hdate, hname, hsummary]

/-! ## Descriptions that are cut -/

theorem length_dots : (ascii "...").length = 3 := rfl

theorem short_ne_shown {stored d : Bytes} (hd : nl ∉ d) (h : nl ∈ stored.take 27) :
    shortDescription stored ≠ shown d := fun heq =>
  nl_not_mem_shown hd (heq ▸ List.mem_append_left _ h)

theorem nl_mem_take {line rest : Bytes} (h : line.length < 27) : nl ∈ (line ++ nl :: rest).take 27 := by
  obtain ⟨k, hk⟩ := Nat.exists_eq_add_of_lt h
  rw [show 27 = line.length + (k + 1) by omega, List.take_length_add_append]
  simp

theorem short_eq_shown_iff {d : Bytes} (hd : nl ∉ d) :
    shortDescription (d ++ [nl, nl]) = shown d ↔ d.length = 27 ∨ 29 ≤ d.length := by
  rcases Nat.lt_or_ge d.length 27 with hlt | hge
  · exact iff_of_false (short_ne_shown hd (nl_mem_take hlt)) (by omega)
  have htake : (d ++ [nl, nl]).take 27 = d.take 27 := List.take_append_of_le_length hge
  rw [shortDescription, shown, htake]
  by_cases hcut : 29 ≤ d.length
  · rw [if_pos (by simp; omega), if_neg (by omega)]
    exact iff_of_true rfl (.inr hcut)
  · rw [if_neg (by simp; omega), List.append_nil]
    by_cases hfull : d.length = 27
    · rw [if_pos (by omega), List.take_of_length_le (by omega)]
      exact iff_of_true rfl (.inl hfull)
    · rw [if_neg (by omega)]
      refine iff_of_false (fun h => ?_) (by omega)
      have := congrArg List.length h
      rw [List.length_append, length_dots] at this
      omega

theorem short_early_eq_shown_iff {d : Bytes} (hd : nl ∉ d) (lines : List Bytes) :
    shortDescription (unlines nl (lines ++ [keyLine (ascii "description") [], d, []])) = shown d ↔
      27 < d.length ∧ ∃ line rest, lines = line :: rest ∧ line.take 27 = d.take 27 := by
  cases lines with
  | nil =>
    rw [List.nil_append, unlines_cons]
    refine iff_of_false (short_ne_shown hd (nl_mem_take (by decide))) ?_
    rintro ⟨-, _, _, hnil, -⟩
    cases hnil
  | cons line rest =>
    have hright : (27 < d.length ∧ ∃ line' rest', line :: rest = line' :: rest' ∧
        line'.take 27 = d.take 27) ↔ 27 < d.length ∧ line.take 27 = d.take 27 := by
      refine and_congr_right fun _ => ⟨?_, fun h => ⟨line, rest, rfl, h⟩⟩
      rintro ⟨_, _, heq, h⟩
      cases heq
      exact h
    rw [hright, List.cons_append, unlines_cons]
    rcases Nat.lt_or_ge line.length 27 with hlt | hge
    · refine iff_of_false (short_ne_shown hd (nl_mem_take hlt)) fun ⟨hlong, h⟩ => ?_
      have := congrArg List.length h
      rw [List.length_take, List.length_take] at this
      omega
    · have hstored : 30 < (line ++ nl :: unlines nl (rest ++ [keyLine (ascii "description") [], d, []])).length := by
        have hkey : (keyLine (ascii "description") []).length = 12 := rfl
        simp [unlines, List.flatMap_append, hkey]
        omega
      rw [shortDescription, List.take_append_of_le_length hge, if_pos hstored, shown]
      split
      · next hshort =>
        refine iff_of_false (fun h => ?_) (by omega)
        have := congrArg List.length h
        rw [List.length_append, length_dots, List.length_take] at this
        omega
      · next hlong =>
        rw [List.append_left_inj]
        exact ⟨fun h => ⟨by omega, h⟩, fun h => h.2⟩

/-! ## What is read of a body -/

/-- The lines after the first one that starts the description. -/
def descriptionLines (lines : List Bytes) : List Bytes :=
  (lines.dropWhile fun line => !startsDescription line).tail

/-- The texts of an event that a summary prints, before and after the description was read. -/
structure Event.Printable (event : Event) (description : Bytes) : Prop where
  city : nl ∉ event.city
  name : nl ∉ event.name
  description_eq : event.description = description

theorem nl_not_mem_value {line key : Bytes} {args : List Bytes} (h : nl ∉ line)
    (hsplit : split_str line colon = key :: args) : nl ∉ value args := by
  intro hm
  have hargs := value_of_ne_nil (List.ne_nil_of_mem hm)
  have htoken : value args ∈ split_str line colon := by
    rw [hsplit]
    exact List.mem_cons_of_mem _ (hargs ▸ List.mem_singleton_self _)
  exact h (mem_of_mem_splitOn colon line _ (List.mem_filter.mp htoken).1 nl hm)

namespace EventReader

theorem event_putInformation (r : EventReader) (key val : Bytes) :
    (r.putInformation key val).event = r.event := by
  unfold putInformation
  split <;> rfl

theorem printable_setUserAndChannel {r : EventReader} {d : Bytes} (h : r.event.Printable d)
    (key val : Bytes) : (r.setUserAndChannel key val).event.Printable d := by
  unfold setUserAndChannel
  dsimp only
  split <;> split <;> exact ⟨h.city, h.name, h.description_eq⟩

theorem printable_turn {key val d : Bytes} {lines : List Bytes} {r r' : EventReader} (hval : nl ∉ val)
    (hr : r.event.Printable []) (h : turn key val lines r = some r')
    (hlast : key = ascii "description" → d = unlines nl lines)
    (hrest : key ≠ ascii "description" →
      ∀ r, r.event.Printable [] → read lines r = some r' → r'.event.Printable d) :
    r'.event.Printable d := by
  -- The line that starts the description is the last one. At any other line the turns after it
  -- decide.
  have hset := printable_setUserAndChannel hr key val
  unfold turn at h
  dsimp only at h
  split at h
  · next hkey =>
    refine hrest (by rw [hkey]; decide) _ ?_ h
    rw [event_putInformation]
    exact ⟨hval, hset.name, hset.description_eq⟩
  split at h
  · next hkey =>
    refine hrest (by rw [hkey]; decide) _ ?_ h
    rw [event_putInformation]
    exact ⟨hset.city, hval, hset.description_eq⟩
  split at h
  · next hkey =>
    split at h
    · cases h
    · refine hrest (by rw [hkey]; decide) _ ?_ h
      rw [event_putInformation]
      exact ⟨hset.city, hset.name, hset.description_eq⟩
  split at h
  · next hkey =>
    refine hrest (by rw [hkey]; decide) _ ?_ h
    exact hset
  split at h
  · next hkey =>
    cases h
    rw [event_putInformation]
    exact ⟨hset.city, hset.name, (hlast hkey).symm⟩
  · next hkey =>
    refine hrest hkey _ ?_ h
    rw [event_putInformation]
    exact hset

theorem printable_read {lines : List Bytes} {r r' : EventReader} (hlines : ∀ line ∈ lines, nl ∉ line)
    (hr : r.event.Printable []) (h : read lines r = some r') :
    r'.event.Printable (unlines nl (descriptionLines lines)) := by
  induction lines generalizing r with
  | nil =>
    cases h
    exact hr
  | cons line lines ih =>
    have ih := fun r hr h => ih (r := r) (fun line hm => hlines line (List.mem_cons_of_mem _ hm)) hr h
    have hskip : startsDescription line = false →
        descriptionLines (line :: lines) = descriptionLines lines := by
      intro hstart
      rw [descriptionLines, List.dropWhile_cons_of_pos (by rw [hstart]; rfl), descriptionLines]
    by_cases hcolon : colon ∈ line
    · cases hsplit : split_str line colon with
      | nil =>
        rw [read, if_pos hcolon, hsplit] at h
        cases h
      | cons key args =>
        have hstart := startsDescription_tokens hcolon hsplit
        rw [read_tokens hcolon hsplit] at h
        have hval := nl_not_mem_value (hlines line List.mem_cons_self) hsplit
        refine printable_turn hval hr h (fun hkey => ?_) fun hkey => ?_
        · rw [descriptionLines, List.dropWhile_cons_of_neg (by simp [hstart, hkey]), List.tail_cons]
        · rw [hskip (by simp [hstart, hkey])]
          exact ih
    · rw [read, if_neg hcolon] at h
      rw [hskip (startsDescription_noColon hcolon)]
      exact ih r hr h

end EventReader

theorem nl_not_mem_getlines {text line : Bytes} (h : line ∈ getlines nl text) : nl ∉ line := by
  rcases List.mem_append.mp h with h | h
  · exact not_mem_of_mem_splitOn text (List.dropLast_subset _ h)
  · split at h
    · cases h
    · rw [List.mem_singleton.mp h]
      exact not_mem_unfinished nl text

theorem printable_ofBody {body : Bytes} {event : Event} (h : Event.ofBody body = some event) :
    event.Printable (unlines nl (descriptionLines (getlines nl body))) := by
  obtain ⟨r, hr, rfl⟩ := Option.map_eq_some_iff.mp h
  have hread := EventReader.printable_read (fun _ hline => nl_not_mem_getlines hline)
    ⟨List.not_mem_nil, List.not_mem_nil, rfl⟩ hr
  exact ⟨hread.city, hread.name, hread.description_eq⟩

/-! ## What is read of a report -/

/-- The user, the city, the name and the description stand on one line each. The general information
has any text. -/
structure Event.NoBreaks (username : Bytes) (event : Event) : Prop where
  user : nl ∉ username
  city : nl ∉ event.city
  name : nl ∉ event.name
  description : nl ∉ event.description

theorem getlines_break (text rest : Bytes) :
    getlines nl (text ++ nl :: rest) = getlines nl (text ++ [nl]) ++ getlines nl rest := by
  induction text using parts_induction nl with
  | last text hm =>
    rw [getlines_cons _ _ hm, getlines_cons _ _ hm]
    rfl
  | cons line text hline ih =>
    rw [List.append_assoc, List.append_assoc, List.cons_append, List.cons_append,
      getlines_cons _ _ hline, getlines_cons _ _ hline, ih, List.cons_append]

theorem getlines_texts (texts : List Bytes) (rest : Bytes) :
    getlines nl (unlines nl texts ++ rest) = getlines nl (unlines nl texts) ++ getlines nl rest := by
  induction texts with
  | nil => rfl
  | cons text texts ih =>
    rw [unlines_cons, List.append_assoc, List.cons_append, getlines_break, ih,
      getlines_break text (unlines nl texts), List.append_assoc]

theorem startsDescription_keyLine {key : Bytes} (hk : colon ∉ key) (hne : key ≠ []) (val : Bytes) :
    startsDescription (keyLine key val) = decide (key = ascii "description") :=
  startsDescription_tokens (by simp [keyLine]) (split_keyLine hk hne val)

theorem startsDescription_headLines (username : Bytes) (event : Event) :
    ∀ line ∈ headLines username event, (!startsDescription line) = true := by
  intro line hline
  have hkey : ∀ (s : String) (val : Bytes), ':' ∉ s.toList → ascii s ≠ [] →
      ascii s ≠ ascii "description" → (!startsDescription (keyLine (ascii s) val)) = true := by
    intro s val hs hne hother
    rw [startsDescription_keyLine (colon_not_mem_ascii s hs) hne, decide_eq_false hother]
    rfl
  simp only [headLines, List.mem_cons, List.not_mem_nil, or_false] at hline
  rcases hline with rfl | rfl | rfl | rfl | rfl
  · exact hkey _ _ (by decide) (by decide) (by decide)
  · exact hkey _ _ (by decide) (by decide) (by decide)
  · exact hkey _ _ (by decide) (by decide) (by decide)
  · exact hkey _ _ (by decide) (by decide) (by decide)
  · exact hkey _ _ (by decide) (by decide) (by decide)

/-- The lines of the general information in a report. -/
def informationLines (event : Event) : List Bytes :=
  getlines nl (unlines nl (event.general_information.entries.map infoLine))

theorem getlines_reportBody {username : Bytes} {event : Event} (h : event.NoBreaks username) :
    getlines nl (reportBody username event ++ [nl]) = headLines username event ++
      (informationLines event ++ [keyLine (ascii "description") [], event.description, []]) := by
  have hhead := nl_not_mem_headLines h.user h.city h.name
  have hsplit : reportBody username event ++ [nl] = unlines nl (headLines username event) ++
      (unlines nl (event.general_information.entries.map infoLine) ++
        (keyLine (ascii "description") [] ++ nl :: (event.description ++ nl :: [nl]))) := by
    rw [reportBody_eq]
    simp [unlines, List.flatMap_append]
  have hkey : nl ∉ keyLine (ascii "description") [] := by decide
  have hlast : getlines nl [nl] = [[]] := rfl
  rw [hsplit, getlines_unlines _ _ hhead, getlines_texts, getlines_cons _ _ hkey,
    getlines_cons _ _ h.description, hlast, informationLines]

/-- A description of this length shows as it has to. If a line of the general information starts it,
the next line has to look the same. -/
def Event.Fits (event : Event) : Prop :=
  match (informationLines event).dropWhile fun line => !startsDescription line with
  | [] => event.description.length = 27 ∨ 29 ≤ event.description.length
  | _ :: lines => 27 < event.description.length ∧
      ∃ line rest, lines = line :: rest ∧ line.take 27 = event.description.take 27

theorem laidOut_iff_fits {username : Bytes} {event stored : Event} (h : event.NoBreaks username)
    (hstored : Event.ofBody (reportBody username event ++ [nl]) = some stored) (number : Nat)
    (localtime : Int → Tm) :
    LaidOut number stored.city (epochToDate localtime stored.date_time) stored.name
        (shown event.description) (reportEntry (epochToDate localtime) number stored.city
          stored.date_time stored.name stored.description) ↔ event.Fits := by
  have hprint := printable_ofBody hstored
  rw [laidOut_iff hprint.city (nl_not_mem_epochToDate _ _) hprint.name
    (nl_not_mem_shown h.description), hprint.description_eq, getlines_reportBody h, descriptionLines,
    List.dropWhile_append_of_pos (startsDescription_headLines _ _), Event.Fits]
  cases hearly : (informationLines event).dropWhile fun line => !startsDescription line with
  | nil =>
    have hstart : startsDescription (keyLine (ascii "description") []) = true := by decide
    have hbreaks : unlines nl [event.description, []] = event.description ++ [nl, nl] := by simp
    rw [List.dropWhile_append, hearly, List.isEmpty_nil, if_pos rfl,
      List.dropWhile_cons_of_neg (by simp [hstart]), List.tail_cons, hbreaks]
    exact short_eq_shown_iff h.description
  | cons start lines =>
    rw [List.dropWhile_append, hearly, List.isEmpty_cons, if_neg Bool.false_ne_true,
      List.cons_append, List.tail_cons]
    exact short_early_eq_shown_iff h.description lines

theorem startsDescription_infoLine (e : (_ : Bytes) × Bytes) : startsDescription (infoLine e) = false := by
  -- The first token of such a line begins with a space.
  obtain ⟨token, tokens, htokens⟩ := List.exists_cons_of_ne_nil (List.splitOn_ne_nil colon (keyLine e.1 e.2))
  have hsplit : split_str (infoLine e) colon = (32 :: token) :: tokens.filter (!·.isEmpty) := by
    rw [infoLine, keyLine, List.cons_append, split_str, List.splitOn_cons_eq_if_modifyHead]
    rw [keyLine] at htokens
    rw [htokens]
    rfl
  rw [startsDescription_tokens (by simp [infoLine, keyLine]) hsplit, decide_eq_false]
  intro h
  cases h

theorem fits_iff {event : Event}
    (h : ∀ e ∈ event.general_information.entries, nl ∉ e.1 ∧ nl ∉ e.2) :
    event.Fits ↔ event.description.length = 27 ∨ 29 ≤ event.description.length := by
  have hlines : informationLines event = event.general_information.entries.map infoLine := by
    have hnone : ∀ line ∈ event.general_information.entries.map infoLine, nl ∉ line := by
      intro line hline
      obtain ⟨e, he, rfl⟩ := List.mem_map.mp hline
      exact nl_not_mem_infoLine (h e he).1 (h e he).2
    have hread := getlines_unlines _ [] hnone
    rwa [List.append_nil, show getlines nl [] = [] from rfl, List.append_nil] at hread
  have hstart : (informationLines event).dropWhile (fun line => !startsDescription line) = [] := by
    rw [hlines, List.dropWhile_eq_nil_iff]
    intro line hline
    obtain ⟨e, -, rfl⟩ := List.mem_map.mp hline
    rw [startsDescription_infoLine]
    rfl
  rw [Event.Fits, hstart]

end Stomp.Client
