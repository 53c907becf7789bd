import Stomp.Framing

/-!
# The two parsers of frames

The server cuts a text at the first blank line and splits what stands before it. The client reads
line by line. They find the same command, headers and body in every text that the server accepts.
-/

open Stomp.Split Stomp.Utf8

namespace Stomp.Framing

open Stomp.Client

/-! ## The headers -/

/-- The same entries, as bytes. -/
def SameHeaders (t : Table Text Text) (h : Headers) : Prop :=
  ∀ k v, h.lookup k = some v ↔ ∃ a b, k = encode a ∧ v = encode b ∧ t.lookup a = some b

theorem sameHeaders_empty : SameHeaders ∅ ∅ := by
  intro k v
  refine iff_of_false (fun h => by cases h) ?_
  rintro ⟨a, b, -, -, h⟩
  cases h

theorem SameHeaders.insert {t : Table Text Text} {h : Headers} (hs : SameHeaders t h) (key value : Text) :
    SameHeaders (t.insert key value) (h.insert (encode key) (encode value)) := by
  intro k v
  rw [Table.lookup_insert_if]
  split
  · next hk =>
    subst hk
    constructor
    · intro hv
      refine ⟨key, value, rfl, (Option.some.inj hv).symm, ?_⟩
      rw [Table.lookup_insert_if, if_pos rfl]
    · rintro ⟨a, b, hk, rfl, hb⟩
      rw [Table.lookup_insert_if, if_pos (encode_injective hk).symm] at hb
      rw [Option.some.inj hb]
  · next hk =>
    rw [hs k v]
    refine exists_congr fun a => exists_congr fun b => and_congr_right fun ha => ?_
    have hne : a ≠ key := by
      rintro rfl
      exact hk ha
    rw [Table.lookup_insert_if, if_neg hne]

theorem splitOnce_encode (line : Text) : splitOnce [colon] (encode line) =
    (encode (splitOnce [':'] line).1, (splitOnce [':'] line).2.map encode) := by
  by_cases hm : ':' ∈ line
  · obtain ⟨key, value, rfl, hkey⟩ := List.eq_append_cons_of_mem hm
    have hcut : encode (key ++ ':' :: value) = encode key ++ colon :: encode value :=
      encode_append key (':' :: value)
    rw [hcut, splitOnce_single ':' key value hkey, splitOnce_single colon _ _ (by rwa [colon_mem_encode])]
    rfl
  · rw [splitOnce_single_none ':' line hm, splitOnce_single_none colon _ (by rwa [colon_mem_encode])]
    rfl

theorem SameHeaders.put {t : Table Text Text} {h : Headers} (hs : SameHeaders t h) (line : Text) :
    SameHeaders (StompFrame.putHeader t line) (StompProtocol.putHeader h (encode line)) := by
  rw [StompFrame.putHeader, StompProtocol.putHeader, HeaderLines.put, HeaderLines.put, splitOnce_encode]
  cases splitOnce [':'] line with
  | mk key value =>
    cases value with
    | none => exact hs
    | some value => exact hs.insert key value

theorem SameHeaders.foldl (lines : List Text) {t : Table Text Text} {h : Headers}
    (hs : SameHeaders t h) : SameHeaders (lines.foldl StompFrame.putHeader t)
      ((lines.map encode).foldl StompProtocol.putHeader h) := by
  induction lines generalizing t h with
  | nil => exact hs
  | cons line lines ih => exact ih (hs.put line)

/-! ## Lines as bytes -/

theorem encode_unlines (lines : List Text) :
    encode (unlines '\n' lines) = unlines nl (lines.map encode) := by
  induction lines with
  | nil => rfl
  | cons line lines ih =>
    have hnl : encode ('\n' :: unlines '\n' lines) = nl :: encode (unlines '\n' lines) := rfl
    rw [unlines_cons, encode_append, hnl, ih, List.map_cons, unlines_cons]

theorem encode_intercalate (line : Text) (lines : List Text) :
    encode (['\n'].intercalate (line :: lines)) = [nl].intercalate (encode line :: lines.map encode) := by
  induction lines generalizing line with
  | nil => simp [List.intercalate]
  | cons x lines ih =>
    have hnl : ∀ t : Text, encode ('\n' :: t) = nl :: encode t := fun t => rfl
    rw [intercalate_line, encode_append, hnl, ih x, List.map_cons, intercalate_line]

theorem encode_lines {lines : List Text} (h : ∀ x ∈ lines, '\n' ∉ x ∧ x ≠ []) :
    ∀ x ∈ lines.map encode, nl ∉ x ∧ x ≠ [] := by
  intro x hx
  obtain ⟨line, hline, rfl⟩ := List.mem_map.mp hx
  obtain ⟨hnl, hne⟩ := h line hline
  refine ⟨by rwa [nl_mem_encode], fun hnil => hne (encode_injective (hnil.trans encode_nil.symm))⟩

/-! ## The client at the end of the text -/

theorem readHeaders_none (headers : Headers) (fuel : Nat) :
    StompProtocol.readHeaders fuel headers none = (headers, none) := by
  cases fuel <;> rfl

theorem readHeaders_unlines (lines : List Bytes) (headers : Headers) (fuel : Nat)
    (hl : ∀ line ∈ lines, nl ∉ line ∧ line ≠ []) (hfuel : lines.length < fuel) :
    StompProtocol.readHeaders fuel headers (some (unlines nl lines)) =
      (lines.foldl StompProtocol.putHeader headers, none) := by
  induction lines generalizing headers fuel with
  | nil =>
    obtain ⟨fuel, rfl⟩ := Nat.exists_eq_add_of_lt hfuel
    rfl
  | cons line lines ih =>
    obtain ⟨hline, hrest⟩ := List.forall_mem_cons.mp hl
    obtain ⟨fuel, rfl⟩ := Nat.exists_eq_add_of_lt hfuel
    rw [unlines_cons, readHeaders_line hline, List.foldl_cons]
    exact ih _ _ hrest (by
      rw [List.length_cons] at hfuel ⊢
      omega)

theorem readHeaders_intercalate (line : Bytes) (lines : List Bytes) (headers : Headers) (fuel : Nat)
    (hl : ∀ x ∈ line :: lines, nl ∉ x ∧ x ≠ []) (hfuel : lines.length < fuel) :
    StompProtocol.readHeaders fuel headers (some ([nl].intercalate (line :: lines))) =
      ((line :: lines).foldl StompProtocol.putHeader headers, none) := by
  induction lines generalizing line headers fuel with
  | nil =>
    obtain ⟨hline, -⟩ := List.forall_mem_cons.mp hl
    obtain ⟨fuel, rfl⟩ := Nat.exists_eq_add_of_lt hfuel
    rw [List.intercalate_singleton]
    simp only [StompProtocol.readHeaders, getline_end nl line hline.1 hline.2, List.isEmpty_iff, hline.2,
      if_false, readHeaders_none]
    rfl
  | cons x lines ih =>
    obtain ⟨hline, hrest⟩ := List.forall_mem_cons.mp hl
    obtain ⟨fuel, rfl⟩ := Nat.exists_eq_add_of_lt hfuel
    rw [intercalate_line, readHeaders_line hline, List.foldl_cons]
    exact ih _ _ _ hrest (by
      rw [List.length_cons] at hfuel ⊢
      omega)

theorem parse_unlines (command : Bytes) (lines : List Bytes) (hc : nl ∉ command)
    (hl : ∀ x ∈ lines, nl ∉ x ∧ x ≠ []) : StompProtocol.parse (unlines nl (command :: lines)) =
      ⟨command, lines.foldl StompProtocol.putHeader ∅, []⟩ := by
  have hlength := length_unlines (command :: lines)
  rw [List.length_cons] at hlength
  have hfirst : getline nl (some (unlines nl (command :: lines))) = _ :=
    unlines_cons nl command lines ▸ getline_line nl command _ hc
  simp only [StompProtocol.parse, hfirst, readHeaders_unlines lines ∅ _ hl (Nat.lt_succ_of_lt hlength)]
  rfl

theorem parse_intercalate (command : Bytes) (lines : List Bytes) (hc : nl ∉ command)
    (hl : ∀ x ∈ lines, nl ∉ x ∧ x ≠ []) :
    StompProtocol.parse ([nl].intercalate (command :: lines)) =
      ⟨command, lines.foldl StompProtocol.putHeader ∅, []⟩ := by
  cases lines with
  | nil =>
    rw [List.intercalate_singleton]
    cases command with
    | nil => rfl
    | cons b command =>
      simp only [StompProtocol.parse, getline_end nl (b :: command) hc (List.cons_ne_nil _ _),
        readHeaders_none]
      rfl
  | cons x lines =>
    have hlength := length_unlines (command :: x :: lines)
    rw [unlines_eq_intercalate, List.length_append, List.length_singleton, List.length_cons,
      List.length_cons] at hlength
    have hfuel : lines.length < ([nl].intercalate (command :: x :: lines)).length + 1 := by omega
    have hfirst : getline nl (some ([nl].intercalate (command :: x :: lines))) = _ :=
      intercalate_line nl command x lines ▸ getline_line nl command _ hc
    simp only [StompProtocol.parse, hfirst, readHeaders_intercalate x lines ∅ _ hl hfuel]
    rfl

/-! ## Every text -/

/-- The client has what the server has: command, header map and body. -/
structure Agrees (r : StompProtocol.Parsed) (f : StompFrame) : Prop where
  command : r.command = encode f.command
  headers : SameHeaders f.headers r.headers
  body : r.body = encode f.body

theorem agrees_lines (command : Text) (lines : List Text) (body : Text) :
    Agrees ⟨encode command, (lines.map encode).foldl StompProtocol.putHeader ∅, encode body⟩
      ⟨command, lines.foldl StompFrame.putHeader ∅, body⟩ :=
  ⟨rfl, sameHeaders_empty.foldl lines, rfl⟩

/-- The two parsers agree on all bytes of text that the server accepts. -/
theorem parsers_agree {message : Bytes} (hv : Valid message) (h0 : 0 ∉ message) {f : StompFrame}
    (h : StompFrame.fromString (decode message) = some f) : Agrees (StompProtocol.parse message) f := by
  obtain ⟨text, rfl⟩ := hv
  rw [zero_mem_encode] at h0
  rw [decode_encode] at h
  obtain ⟨command, lines, hc, hl, hcases⟩ := StompFrame.fromString_cases h0
  have hc' : nl ∉ encode command := by rwa [nl_mem_encode]
  have hl' := encode_lines hl
  obtain ⟨body, rfl, hf⟩ | ⟨rfl, hf⟩ | ⟨rfl, hf⟩ := hcases
  · cases h.symm.trans hf
    have hnl : ∀ t : Text, encode ('\n' :: t) = nl :: encode t := fun t => rfl
    have hb : (0 : UInt8) ∉ encode body := by
      rw [zero_mem_encode]
      simp only [List.mem_append, List.mem_cons, not_or] at h0
      exact h0.2.2.2.2
    rw [encode_append, hnl, encode_append, hnl, encode_unlines, parse_blank _ _ _ hc' hl' hb]
    exact agrees_lines command lines body
  · cases h.symm.trans hf
    rw [encode_intercalate, parse_intercalate _ _ hc' hl']
    exact agrees_lines command lines []
  · rw [hf] at h
    split at h
    · cases h
    · cases h
      rw [encode_unlines, List.map_cons, parse_unlines _ _ hc' hl']
      exact agrees_lines command lines []

/-- An empty command, a line with no colon, and a key that stands twice. -/
def untidy : Text := "\nc:1\nno colon\nc:2:3\n".toList

theorem parsers_agree_untidy : ∃ f, StompFrame.fromString (decode (encode untidy)) = some f ∧
    f.command = [] ∧ f.getHeader "c".toList = some "2:3".toList ∧
    Agrees (StompProtocol.parse (encode untidy)) f := by
  have hf : StompFrame.fromString untidy =
      some ⟨[], ["c:1".toList, "no colon".toList, "c:2:3".toList].foldl StompFrame.putHeader ∅, []⟩ := rfl
  rw [← decode_encode untidy] at hf
  refine ⟨_, hf, rfl, rfl, parsers_agree ⟨untidy, rfl⟩ ?_ hf⟩
  rw [zero_mem_encode]
  decide

end Stomp.Framing
