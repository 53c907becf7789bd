import Stomp.Base.HeaderLines

/-!
# Frames and their text

The headers of a frame are a table; the order of its entries is the order in which
`entrySet` gives them.
-/

open Stomp.Split

namespace Stomp

abbrev Text := List Char

structure StompFrame where
  command : Text
  headers : Table Text Text
  body : Text
  deriving DecidableEq

namespace StompFrame

def getHeader (f : StompFrame) (key : Text) : Option Text := f.headers.lookup key

def headerLine (e : (_ : Text) × Text) : Text := HeaderLines.line ':' e

def toString (f : StompFrame) : Text :=
  f.command ++ '\n' ::
    (unlines '\n' (f.headers.entries.map headerLine) ++ '\n' ::
      ((if f.body.isEmpty then [] else f.body ++ ['\n']) ++ ['\x00']))

/-- One header line: `split(":", 2)`, and a `put` if there are two parts. -/
def putHeader (headers : Table Text Text) (line : Text) : Table Text Text :=
  HeaderLines.put ':' headers line

/-- `none` is the `ArrayIndexOutOfBoundsException` of `lines[0]`. -/
def fromString (message : Text) : Option StompFrame :=
  let message := if message.getLast? = some '\x00' then message.dropLast else message
  let parts := splitOnce ['\n', '\n'] message
  match splitAll '\n' parts.1 with
  | [] => none
  | command :: lines => some ⟨command, lines.foldl putHeader ∅, parts.2.getD []⟩

/-- A frame written with string literals. -/
def ofStrings (command : String) (headers : List (String × String)) (body : String) : StompFrame where
  command := command.toList
  headers := Table.ofPairs (headers.map fun e => (e.1.toList, e.2.toList))
  body := body.toList

/-- The frame has this command, these headers and no others, and this body. -/
structure Has (f : StompFrame) (command : String) (headers : List (Text × Text)) (body : Text) :
    Prop where
  command : f.command = command.toList
  header : ∀ k v, f.getHeader k = some v ↔ (k, v) ∈ headers
  body : f.body = body

theorem has_ofPairs (command : String) {headers : List (Text × Text)} (body : Text)
    (h : (headers.map (·.1)).Nodup) :
    Has ⟨command.toList, Table.ofPairs headers, body⟩ command headers body :=
  ⟨rfl, Table.lookup_ofPairs headers h, rfl⟩

/-! ## Text that a frame can carry -/

/-- A line of text inside a frame. -/
def Line (t : Text) : Prop := '\n' ∉ t ∧ '\x00' ∉ t

/-- A command, header keys and header values that are lines, no colon in a key, no NUL in the body. -/
structure WellFormed (f : StompFrame) : Prop where
  command : Line f.command
  key : ∀ k v, f.headers.lookup k = some v → Line k ∧ ':' ∉ k
  value : ∀ k v, f.headers.lookup k = some v → Line v
  body : '\x00' ∉ f.body

/-- The same command, the same header map and the same body, with the headers in any order. -/
structure Same (f g : StompFrame) : Prop where
  command : f.command = g.command
  header : ∀ k, f.getHeader k = g.getHeader k
  body : f.body = g.body

/-- No NUL anywhere: true of every frame that came through the decoder. -/
structure NoNul (f : StompFrame) : Prop where
  command : '\x00' ∉ f.command
  key : ∀ k v, f.headers.lookup k = some v → '\x00' ∉ k
  value : ∀ k v, f.headers.lookup k = some v → '\x00' ∉ v
  body : '\x00' ∉ f.body

/-! ## Reading what was written -/

/-- Command, headers, a blank line, and the rest. -/
def layout (command : Text) (headers : List ((_ : Text) × Text)) (rest : Text) : Text :=
  HeaderLines.layout '\n' ':' command headers rest

theorem toString_eq (f : StompFrame) :
    f.toString = layout f.command f.headers.entries
      ((if f.body.isEmpty then [] else f.body ++ ['\n']) ++ ['\x00']) := rfl

theorem zero_not_mem_layout {f : StompFrame} (hf : f.WellFormed) :
    '\x00' ∉ layout f.command f.headers.entries f.body := by
  have hlines : '\x00' ∉ unlines '\n' (f.headers.entries.map (HeaderLines.line ':')) := by
    simp only [unlines, List.mem_flatMap, List.mem_map]
    rintro ⟨_, ⟨e, he, rfl⟩, hm⟩
    have hkv := (Table.mem_entries_iff f.headers e.1 e.2).mp he
    simp [HeaderLines.line, (hf.key _ _ hkv).1.2, (hf.value _ _ hkv).2] at hm
  simp [layout, HeaderLines.layout, hf.command.2, hf.body, hlines]

theorem fromString_layout (command body : Text) (headers : Table Text Text)
    (hf : WellFormed ⟨command, headers, body⟩) :
    fromString (layout command headers.entries body) =
      some ⟨command, (headers.entries.map headerLine).foldl putHeader ∅, body⟩ := by
  -- The parser finds the first blank line in the right place, whatever the body is.
  have hlast : (layout command headers.entries body).getLast? ≠ some '\x00' := by
    rw [layout, HeaderLines.layout, ← List.cons_append, ← List.append_assoc,
      List.getLast?_append_of_ne_nil _ (by simp)]
    intro h
    have := List.mem_of_getLast? h
    simp [hf.body] at this
  have hh : ∀ e ∈ headers.entries, '\n' ∉ e.1 ∧ '\n' ∉ e.2 := by
    rintro ⟨k, v⟩ he
    have hkv := (Table.mem_entries_iff headers k v).mp he
    exact ⟨(hf.key k v hkv).1.1, (hf.value k v hkv).1⟩
  have hsplit : splitOnce ['\n', '\n'] (layout command headers.entries body) = _ :=
    HeaderLines.splitOnce_layout (by decide) command body _ hf.command.1 hh
  have hlines : splitAll '\n' (['\n'].intercalate
      (command :: headers.entries.map (HeaderLines.line ':'))) = _ :=
    HeaderLines.splitAll_layout (by decide) command _ hf.command.1 hh
  simp only [fromString, if_neg hlast, hsplit, hlines, Option.getD_some]
  rfl

theorem fromString_layout_same (f : StompFrame) (hf : f.WellFormed) :
    ∃ g, fromString (layout f.command f.headers.entries f.body) = some g ∧ g.Same f := by
  refine ⟨_, fromString_layout f.command f.body f.headers hf, rfl, fun k => ?_, rfl⟩
  apply HeaderLines.lookup_foldl_put
  rintro ⟨k, v⟩ he
  exact (hf.key k v ((Table.mem_entries_iff f.headers k v).mp he)).2

/-! ## Reading other text -/

theorem fromString_noNul_eq {message : Text} (h : '\x00' ∉ message) :
    fromString message = match splitAll '\n' (splitOnce ['\n', '\n'] message).1 with
      | [] => none
      | command :: lines =>
        some ⟨command, lines.foldl putHeader ∅, (splitOnce ['\n', '\n'] message).2.getD []⟩ := by
  have hlast : message.getLast? ≠ some '\x00' := fun hl => h (List.mem_of_getLast? hl)
  simp only [fromString, if_neg hlast]

theorem fromString_cases {message : Text} (h : '\x00' ∉ message) : ∃ command lines, '\n' ∉ command ∧
    (∀ x ∈ lines, '\n' ∉ x ∧ x ≠ []) ∧
      ((∃ body, message = command ++ '\n' :: (unlines '\n' lines ++ '\n' :: body) ∧
          fromString message = some ⟨command, lines.foldl putHeader ∅, body⟩) ∨
        (message = ['\n'].intercalate (command :: lines) ∧
          fromString message = some ⟨command, lines.foldl putHeader ∅, []⟩) ∨
        (message = unlines '\n' (command :: lines) ∧ fromString message =
          if command = [] ∧ lines = [] then none else some ⟨command, lines.foldl putHeader ∅, []⟩)) := by
  obtain ⟨command, lines, hc, hl, hcases⟩ := lines_cases '\n' message
  refine ⟨command, lines, hc, hl, ?_⟩
  rw [fromString_noNul_eq h]
  obtain ⟨body, rfl⟩ | rfl | rfl := hcases
  · refine .inl ⟨body, rfl, ?_⟩
    rw [splitOnce_unlines _ _ _ _ hc hl, splitAll_intercalate _ _ _ hc hl]
    rfl
  · refine .inr (.inl ⟨rfl, ?_⟩)
    rw [splitOnce_intercalate _ _ _ hc hl, splitAll_intercalate _ _ _ hc hl]
    rfl
  · refine .inr (.inr ⟨rfl, ?_⟩)
    rw [splitOnce_unlines_none _ _ _ hc hl, splitAll_unlines _ _ _ hc hl]
    split_ifs <;> rfl

theorem fromString_eq_none_iff {message : Text} (h : '\x00' ∉ message) :
    fromString message = none ↔ message = ['\n'] := by
  constructor
  · intro hnone
    obtain ⟨command, lines, -, -, ⟨body, -, hf⟩ | ⟨-, hf⟩ | ⟨hm, hf⟩⟩ := fromString_cases h
    · cases hnone.symm.trans hf
    · cases hnone.symm.trans hf
    · rw [hnone] at hf
      split at hf
      · next hempty =>
        rw [hm, hempty.1, hempty.2]
        rfl
      · cases hf
  · rintro rfl
    rfl

theorem fromString_line (command rest : Text) (hc : '\n' ∉ command) (hne : command ≠ [])
    (h : '\x00' ∉ command ++ '\n' :: rest) :
    ∃ f, fromString (command ++ '\n' :: rest) = some f ∧ f.command = command := by
  have hhead : ∃ lines, splitAll '\n' (splitOnce ['\n', '\n'] (command ++ '\n' :: rest)).1 =
      command :: lines := by
    by_cases hr : rest.head? = some '\n'
    · obtain ⟨rest, rfl⟩ := List.head?_eq_some_iff.mp hr
      rw [splitOnce_line_blank _ _ _ hc, splitAll, if_neg hc]
      exact ⟨[], rfl⟩
    · rw [splitOnce_line _ _ _ hc hr]
      exact splitAll_line _ _ _ hc hne
  obtain ⟨lines, hlines⟩ := hhead
  rw [fromString_noNul_eq h, hlines]
  exact ⟨_, rfl, rfl⟩

theorem fromString_bare (command : Text) (hc : '\n' ∉ command) (h : '\x00' ∉ command) :
    fromString command = some ⟨command, ∅, []⟩ ∧
      fromString (command ++ ['\n', '\n']) = some ⟨command, ∅, []⟩ := by
  have h' : '\x00' ∉ command ++ ['\n', '\n'] := by simp [h]
  rw [fromString_noNul_eq h, fromString_noNul_eq h', splitOnce_nl_none _ _ hc,
    splitOnce_line_blank _ _ _ hc, splitAll, if_neg hc]
  exact ⟨rfl, rfl⟩

theorem fromString_header {message : Text} {f : StompFrame} (h : fromString message = some f)
    {k v : Text} (hk : f.getHeader k = some v) :
    ':' ∉ k ∧ '\n' ∉ k ++ ':' :: v ∧ '\n' :: (k ++ ':' :: v) <:+: message := by
  -- A header of a frame is a line of its text, and not the first one.
  unfold fromString at h
  dsimp only at h
  have hmessage : (if message.getLast? = some '\x00' then message.dropLast else message) <+:
      message := by
    split
    · exact List.dropLast_prefix _
    · exact List.prefix_refl _
  generalize (if message.getLast? = some '\x00' then message.dropLast else message) = text at h hmessage
  split at h
  · cases h
  next command lines heq =>
  cases h
  rcases HeaderLines.exists_line lines ∅ hk with hnone | ⟨hcolon, hline⟩
  · cases hnone
  · have htail : k ++ ':' :: v ∈ (splitAll '\n' (splitOnce ['\n', '\n'] text).1).tail := by
      rwa [heq]
    obtain ⟨hnl, hinside⟩ := mem_tail_splitAll htail
    exact ⟨hcolon, hnl, hinside.trans ((splitOnce_isPrefix _ _).trans hmessage).isInfix⟩

/-! ## Frames from the wire -/

/-- Header keys and values with no NUL. -/
def CleanHeaders (headers : Table Text Text) : Prop :=
  ∀ k v, headers.lookup k = some v → '\x00' ∉ k ∧ '\x00' ∉ v

theorem cleanHeaders_insert {headers : Table Text Text} (h : CleanHeaders headers) {k v : Text}
    (hk : '\x00' ∉ k) (hv : '\x00' ∉ v) : CleanHeaders (headers.insert k v) := by
  intro a w hw
  rw [Table.lookup_insert_if] at hw
  split at hw
  · next ha =>
    cases hw
    exact ⟨ha ▸ hk, hv⟩
  · exact h a w hw

theorem cleanHeaders_putHeader {headers : Table Text Text} (h : CleanHeaders headers) {line : Text}
    (hl : '\x00' ∉ line) : CleanHeaders (putHeader headers line) := by
  have hm := mem_of_mem_splitOnce [':'] line
  unfold putHeader HeaderLines.put
  split
  · next key value heq =>
    rw [heq] at hm
    exact cleanHeaders_insert h (fun hk => hl (hm.1 _ hk)) fun hv => hl (hm.2 value rfl _ hv)
  · exact h

theorem cleanHeaders_foldl (lines : List Text) {headers : Table Text Text}
    (h : CleanHeaders headers) (hl : ∀ line ∈ lines, '\x00' ∉ line) :
    CleanHeaders (lines.foldl putHeader headers) := by
  induction lines generalizing headers with
  | nil => exact h
  | cons line lines ih =>
    exact ih (cleanHeaders_putHeader h (hl line List.mem_cons_self))
      fun x hx => hl x (List.mem_cons_of_mem _ hx)

theorem noNul_iff (f : StompFrame) :
    f.NoNul ↔ '\x00' ∉ f.command ∧ CleanHeaders f.headers ∧ '\x00' ∉ f.body :=
  ⟨fun h => ⟨h.command, fun k v hk => ⟨h.key k v hk, h.value k v hk⟩, h.body⟩,
    fun h => ⟨h.1, fun k v hk => (h.2.1 k v hk).1, fun k v hk => (h.2.1 k v hk).2, h.2.2⟩⟩

instance (f : StompFrame) : Decidable f.NoNul :=
  decidable_of_iff
    ('\x00' ∉ f.command ∧ (∀ e ∈ f.headers.entries, '\x00' ∉ e.1 ∧ '\x00' ∉ e.2) ∧ '\x00' ∉ f.body) <| by
      rw [noNul_iff, CleanHeaders]
      simp only [← Table.mem_entries_iff, Sigma.forall]

theorem fromString_noNul {message : Text} {f : StompFrame} (h : fromString message = some f)
    (hm : '\x00' ∉ message) : f.NoNul := by
  have hparts := mem_of_mem_splitOnce ['\n', '\n'] message
  have hlines := mem_of_mem_splitAll '\n' (splitOnce ['\n', '\n'] message).1
  rw [fromString_noNul_eq hm] at h
  split at h
  · cases h
  · next command lines heq =>
    cases h
    rw [heq] at hlines
    have hclean : ∀ line ∈ command :: lines, '\x00' ∉ line :=
      fun line hl ha => hm (hparts.1 _ (hlines line hl _ ha))
    rw [noNul_iff]
    refine ⟨hclean command List.mem_cons_self, ?_, ?_⟩
    · exact cleanHeaders_foldl lines (fun k v hk => by simp at hk)
        fun line hl => hclean line (List.mem_cons_of_mem _ hl)
    · cases hb : (splitOnce ['\n', '\n'] message).2 with
      | none => simp
      | some body => exact fun ha => hm (hparts.2 body hb _ ha)

end StompFrame

end Stomp
