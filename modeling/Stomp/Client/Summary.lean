import Stomp.Client.StompProtocol
import Mathlib.Data.List.Perm.Basic

/-!
# The summary of a channel

`std::sort` may leave events that compare equal in any order, and the time zone decides what
`epochToDate` prints. Both are parameters.
-/

open Stomp.Split Stomp.Utf8

namespace Stomp.Client

/-- The comparison that `std::sort` gets. -/
def Event.before (a b : Event) : Bool :=
  if a.date_time = b.date_time then a.name < b.name else a.date_time < b.date_time

/-- A `std::sort` with this comparison. -/
structure EventSort where
  sort : List Event → List Event
  perm : ∀ l, (sort l).Perm l
  sorted : ∀ l, (sort l).Pairwise fun a b => b.before a = false

/-- The local variables of the loop that filters the events. -/
structure Tally where
  relevantEvents : List Event
  activeCount : Int
  forcesArrivalCount : Int

/-- `find(key)`, and then `at(key) == "true"`. -/
def Event.isTrue (key : String) (event : Event) : Bool :=
  event.general_information.lookup (ascii key) = some (ascii "true")

def Tally.add (user : Bytes) (t : Tally) (event : Event) : Tally :=
  if event.eventOwnerUser = user then
    { relevantEvents := t.relevantEvents ++ [event]
      activeCount :=
        if event.isTrue "active" then Decimal.wrap (t.activeCount + 1) else t.activeCount
      forcesArrivalCount :=
        if event.isTrue "forces_arrival_at_scene" then Decimal.wrap (t.forcesArrivalCount + 1)
        else t.forcesArrivalCount }
  else t

def tally (user : Bytes) (events : List Event) : Tally := events.foldl (Tally.add user) ⟨[], 0, 0⟩

/-! ## The file -/

def summaryHead (channel : Bytes) (total : Nat) (activeCount forcesArrivalCount : Int) : Bytes :=
  ascii "Channel " ++ channel ++ ascii "\n" ++
    ascii "Stats:\n" ++
    ascii "Total: " ++ to_string total ++ ascii "\n" ++
    ascii "active: " ++ to_string activeCount ++ ascii "\n" ++
    ascii "forces arrival at scene: " ++ to_string forcesArrivalCount ++ ascii "\n\n" ++
    ascii "\nEvent Reports:\n\n"

def shortDescription (description : Bytes) : Bytes :=
  description.take 27 ++ if description.length > 30 then ascii "..." else []

def reportEntry (epochToDate : Int → Bytes) (number : Nat) (city : Bytes) (date_time : Int)
    (name description : Bytes) : Bytes :=
  ascii "\nReport_" ++ to_string number ++ ascii ":\n" ++
    ascii "\tcity: " ++ city ++ ascii "\n" ++
    ascii "\tdate time: " ++ epochToDate date_time ++ ascii "\n" ++
    ascii "\tevent name: " ++ name ++ ascii "\n" ++
    ascii "\tsummary: " ++ shortDescription description ++ ascii "\n"

namespace StompProtocol

/-- What is written to the file, if it opens. -/
def summarizeEmergencyChannel (p : StompProtocol) (std : EventSort) (epochToDate : Int → Bytes)
    (outFile : Bool) (channel user : Bytes) : Option Bytes :=
  let t := tally user ((p.eventSummary.lookup channel).getD [])
  if !outFile then none
  else
    some (summaryHead channel t.relevantEvents.length t.activeCount t.forcesArrivalCount ++
      if !t.relevantEvents.isEmpty then
        ((std.sort t.relevantEvents).mapIdx fun i event => reportEntry epochToDate (i + 1)
          event.city event.date_time event.name event.description).flatten
      else [])

end StompProtocol

/-! ## What the loop counts -/

/-- Both counters are those of the events that were kept. -/
structure Tally.Counts (t : Tally) : Prop where
  active : t.activeCount = Decimal.wrap (t.relevantEvents.countP (Event.isTrue "active") : Nat)
  forces : t.forcesArrivalCount =
    Decimal.wrap (t.relevantEvents.countP (Event.isTrue "forces_arrival_at_scene") : Nat)

theorem counter_snoc (q : Event → Bool) (events : List Event) (event : Event) :
    (if q event then Decimal.wrap (Decimal.wrap (events.countP q : Nat) + 1)
      else Decimal.wrap (events.countP q : Nat)) =
      Decimal.wrap ((events ++ [event]).countP q : Nat) := by
  rw [List.countP_append, List.countP_singleton]
  split
  · exact Decimal.wrap_wrap_succ _
  · rfl

theorem Tally.Counts.add {t : Tally} (h : t.Counts) (user : Bytes) (event : Event) :
    (t.add user event).Counts := by
  unfold Tally.add
  split
  · exact ⟨by rw [h.active]; exact counter_snoc _ _ _, by rw [h.forces]; exact counter_snoc _ _ _⟩
  · exact h

theorem tally_counts (user : Bytes) (events : List Event) : (tally user events).Counts := by
  have hfold : ∀ t : Tally, t.Counts → (events.foldl (Tally.add user) t).Counts := by
    induction events with
    | nil => exact fun t h => h
    | cons event events ih => exact fun t h => ih _ (h.add user event)
  exact hfold _ ⟨rfl, rfl⟩

theorem tally_relevantEvents (user : Bytes) (events : List Event) :
    (tally user events).relevantEvents = events.filter fun event => event.eventOwnerUser = user := by
  have hfold : ∀ t : Tally, (events.foldl (Tally.add user) t).relevantEvents =
      t.relevantEvents ++ events.filter fun event => event.eventOwnerUser = user := by
    induction events with
    | nil => exact fun t => (List.append_nil _).symm
    | cons event events ih =>
      intro t
      rw [List.foldl_cons, ih]
      by_cases huser : event.eventOwnerUser = user
      · rw [Tally.add, if_pos huser, List.filter_cons_of_pos (by simpa using huser)]
        simp
      · rw [Tally.add, if_neg huser, List.filter_cons_of_neg (by simpa using huser)]
  exact hfold _

/-! ## What the file says -/

theorem summarizeEmergencyChannel_lists {α : Type} (f : α → Event) {p : StompProtocol}
    {channel user : Bytes} {received : List α} (std : EventSort) (epochToDate : Int → Bytes)
    (h : ((p.eventSummary.lookup channel).getD []).filter (fun event => event.eventOwnerUser = user) =
      received.map f) :
    ∃ listed : List α, listed.Perm received ∧
      listed.Pairwise (fun a b => (f b).before (f a) = false) ∧
      p.summarizeEmergencyChannel std epochToDate true channel user =
        some (summaryHead channel received.length
            (tally user ((p.eventSummary.lookup channel).getD [])).activeCount
            (tally user ((p.eventSummary.lookup channel).getD [])).forcesArrivalCount ++
          (listed.mapIdx fun i a => reportEntry epochToDate (i + 1) (f a).city (f a).date_time
            (f a).name (f a).description).flatten) := by
  obtain ⟨listed, hlisted, hperm⟩ :
      Relation.Comp (fun es as => es = List.map f as) List.Perm (std.sort (received.map f)) received := by
    rw [List.eq_map_comp_perm]
    exact std.perm _
  have hsorted := std.sorted (received.map f)
  rw [hlisted, List.pairwise_map] at hsorted
  have hrelevant := (tally_relevantEvents user ((p.eventSummary.lookup channel).getD [])).trans h
  refine ⟨listed, hperm, hsorted, ?_⟩
  have hentries : ∀ g : Nat → Event → Bytes,
      (listed.map f).mapIdx g = listed.mapIdx fun i a => g i (f a) := by
    intro g
    rw [List.mapIdx_eq_iff]
    simp [Function.comp_def]
  rw [StompProtocol.summarizeEmergencyChannel, hrelevant, List.length_map, hlisted, hentries]
  cases received with
  | nil =>
    obtain rfl := List.perm_nil.mp hperm
    rfl
  | cons a received => rfl

theorem summarizeEmergencyChannel_eq {α : Type} (f : α → Event) {p : StompProtocol} {channel user : Bytes}
    {received : List α} (std : EventSort) (epochToDate : Int → Bytes)
    (h : ((p.eventSummary.lookup channel).getD []).filter (fun event => event.eventOwnerUser = user) =
      received.map f) (hlength : received.length < 2 ^ 31) :
    ∃ listed : List α, listed.Perm received ∧
      listed.Pairwise (fun a b => (f b).before (f a) = false) ∧
      p.summarizeEmergencyChannel std epochToDate true channel user =
        some (summaryHead channel received.length
            (received.countP fun a => (f a).isTrue "active" : Nat)
            (received.countP fun a => (f a).isTrue "forces_arrival_at_scene" : Nat) ++
          (listed.mapIdx fun i a => reportEntry epochToDate (i + 1) (f a).city (f a).date_time
            (f a).name (f a).description).flatten) := by
  obtain ⟨listed, hperm, hsorted, hfile⟩ := summarizeEmergencyChannel_lists f std epochToDate h
  have hrelevant := (tally_relevantEvents user ((p.eventSummary.lookup channel).getD [])).trans h
  have hcounts := tally_counts user ((p.eventSummary.lookup channel).getD [])
  have hwrap : ∀ q : Event → Bool, Decimal.wrap ((received.map f).countP q : Nat) =
      (received.countP fun a => q (f a) : Nat) := by
    intro q
    rw [List.countP_map, Decimal.wrap_nat (Nat.lt_of_le_of_lt List.countP_le_length hlength)]
    rfl
  refine ⟨listed, hperm, hsorted, ?_⟩
  rw [hfile, hcounts.active, hcounts.forces, hrelevant, hwrap, hwrap]

/-! ## A sort -/

namespace Event

theorem not_before_iff (a b : Event) : (!b.before a) = true ↔
    a.date_time < b.date_time ∨ (a.date_time = b.date_time ∧ a.name ≤ b.name) := by
  unfold before
  split
  · next h => simp [h]
  · next h =>
    rw [Bool.not_eq_true', decide_eq_false_iff_not]
    omega

theorem before_total (a b : Event) : (!b.before a || !a.before b) = true := by
  rw [Bool.or_eq_true, not_before_iff, not_before_iff]
  rcases Int.lt_trichotomy a.date_time b.date_time with hlt | heq | hgt
  · exact .inl (.inl hlt)
  · rcases List.le_total a.name b.name with hname | hname
    · exact .inl (.inr ⟨heq, hname⟩)
    · exact .inr (.inr ⟨heq.symm, hname⟩)
  · exact .inr (.inl hgt)

theorem before_trans (a b c : Event) (hab : (!b.before a) = true) (hbc : (!c.before b) = true) :
    (!c.before a) = true := by
  rw [not_before_iff] at *
  rcases hab with hab | ⟨hab, hname⟩
  · exact .inl (by omega)
  · rcases hbc with hbc | ⟨hbc, hname'⟩
    · exact .inl (hab ▸ hbc)
    · exact .inr ⟨hab.trans hbc, List.le_trans hname hname'⟩

end Event

/-- The merge sort of the library is such a sort. -/
def EventSort.merge : EventSort where
  sort l := l.mergeSort fun a b => !b.before a
  perm l := List.mergeSort_perm l _
  sorted l := by
    have h := List.pairwise_mergeSort Event.before_trans Event.before_total l
    simpa using h

end Stomp.Client
