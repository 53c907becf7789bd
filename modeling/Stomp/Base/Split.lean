import Mathlib.Data.List.DropRight

/-!
# Splitting text

`splitOnce` and `splitAll` follow Java's `String.split`, `getline` follows C++'s
`std::getline`, and `pieces` cuts a stream at a terminator.
-/

namespace Stomp.Split

variable {α : Type}

/-- Lines, each with its end. -/
def unlines (nl : α) (lines : List (List α)) : List α := lines.flatMap (· ++ [nl])

@[simp]
theorem unlines_nil (nl : α) : unlines nl [] = [] := rfl

@[simp]
theorem unlines_cons (nl : α) (line : List α) (lines : List (List α)) :
    unlines nl (line :: lines) = line ++ nl :: unlines nl lines := by
  simp [unlines]

@[elab_as_elim]
theorem parts_induction (c : α) {motive : List α → Prop} (last : ∀ l, c ∉ l → motive l)
    (cons : ∀ a b, c ∉ a → motive b → motive (a ++ c :: b)) (l : List α) : motive l := by
  induction hn : l.length using Nat.strong_induction_on generalizing l with
  | _ n ih =>
    by_cases hm : c ∈ l
    · obtain ⟨a, b, rfl, ha⟩ := List.eq_append_cons_of_mem hm
      exact cons a b ha (ih b.length (by simp at hn; omega) b rfl)
    · exact last l hm

theorem prefix_of_prefix_append {c : α} {w a b : List α} (hw : c ∉ w) (h : w <+: a ++ c :: b) :
    w <+: a := by
  have hac : a ++ [c] <+: a ++ c :: b := by
    simp [List.prefix_append_right_inj, List.cons_prefix_cons]
  rcases List.prefix_or_prefix_of_prefix h hac with h | h
  · rcases List.prefix_concat_iff.mp h with rfl | h
    · simp at hw
    · exact h
  · exact absurd (h.subset (by simp)) hw

theorem intercalate_line (nl : α) (line x : List α) (lines : List (List α)) :
    [nl].intercalate (line :: x :: lines) = line ++ nl :: [nl].intercalate (x :: lines) := by
  rw [List.intercalate_cons_cons, List.append_assoc, List.singleton_append]

theorem unlines_eq_intercalate (nl : α) (line : List α) (lines : List (List α)) :
    unlines nl (line :: lines) = [nl].intercalate (line :: lines) ++ [nl] := by
  induction lines generalizing line with
  | nil => rw [unlines_cons, unlines_nil, List.intercalate_singleton]
  | cons x lines ih =>
    rw [unlines_cons, ih, intercalate_line, List.append_assoc, List.cons_append]

theorem head?_append_cons {nl : α} {x : List α} (hx : nl ∉ x ∧ x ≠ []) (rest : List α) :
    (x ++ rest).head? ≠ some nl := by
  obtain ⟨y, ys, rfl⟩ := List.exists_cons_of_ne_nil hx.2
  have hy : y ≠ nl := fun h => hx.1 (h ▸ List.mem_cons_self)
  simpa using hy

variable [DecidableEq α]

/-! ## Java's `split` -/

/-- `split(sep, 2)`: what stands before the first `sep`, and what stands after it. -/
def splitOnce (sep : List α) : List α → List α × Option (List α)
  | [] => ([], none)
  | a :: l =>
    if sep <+: a :: l then ([], some ((a :: l).drop sep.length))
    else (a :: (splitOnce sep l).1, (splitOnce sep l).2)

/-- `split(sep)`: empty strings at the end are dropped, but text with no `sep` is kept as it is. -/
def splitAll (sep : α) (l : List α) : List (List α) :=
  if sep ∈ l then (l.splitOn sep).rdropWhile List.isEmpty else [l]

theorem splitOnce_single (c : α) (xs rest : List α) (h : c ∉ xs) :
    splitOnce [c] (xs ++ c :: rest) = (xs, some rest) := by
  induction xs with
  | nil => simp [splitOnce]
  | cons x xs ih =>
    simp only [List.mem_cons, not_or] at h
    simp [splitOnce, List.cons_prefix_cons, h.1, ih h.2]

theorem splitOnce_single_none (c : α) (xs : List α) (h : c ∉ xs) :
    splitOnce [c] xs = (xs, none) := by
  induction xs with
  | nil => rfl
  | cons x xs ih =>
    simp only [List.mem_cons, not_or] at h
    simp [splitOnce, List.cons_prefix_cons, h.1, ih h.2]

theorem append_cons_inj {c : α} {xs ys rest rest' : List α} (hx : c ∉ xs) (hy : c ∉ ys)
    (h : xs ++ c :: rest = ys ++ c :: rest') : xs = ys ∧ rest = rest' := by
  have hsplit := splitOnce_single c xs rest hx
  rw [h, splitOnce_single c ys rest' hy, Prod.mk.injEq, Option.some.injEq] at hsplit
  exact ⟨hsplit.1.symm, hsplit.2.symm⟩

theorem mem_of_mem_splitOnce (sep : List α) (l : List α) :
    (∀ a ∈ (splitOnce sep l).1, a ∈ l) ∧ ∀ r, (splitOnce sep l).2 = some r → ∀ a ∈ r, a ∈ l := by
  induction l with
  | nil => simp [splitOnce]
  | cons x l ih =>
    simp only [splitOnce]
    split
    · refine ⟨by simp, fun r hr a ha => ?_⟩
      cases hr
      exact List.mem_of_mem_drop ha
    · refine ⟨fun a ha => ?_, fun r hr a ha => List.mem_cons_of_mem _ (ih.2 r hr a ha)⟩
      rcases List.mem_cons.mp ha with rfl | ha
      · exact List.mem_cons_self
      · exact List.mem_cons_of_mem _ (ih.1 a ha)

theorem mem_of_mem_splitOn (sep : α) (l x : List α) (hx : x ∈ l.splitOn sep) :
    ∀ a ∈ x, a ∈ l := by
  intro a ha
  have hjoin : [sep].intercalate (l.splitOn sep) = l := List.intercalate_splitOn sep
  rw [← hjoin, List.intercalate]
  refine List.mem_flatten.mpr ⟨x, ?_, ha⟩
  revert hx
  generalize l.splitOn sep = ls
  intro hx
  induction ls with
  | nil => simp at hx
  | cons y ls ih =>
    cases ls with
    | nil => simpa using hx
    | cons z ls =>
      rcases List.mem_cons.mp hx with rfl | hx
      · simp
      · simp [ih hx]

theorem mem_of_mem_splitAll (sep : α) (l x : List α) (hx : x ∈ splitAll sep l) :
    ∀ a ∈ x, a ∈ l := by
  unfold splitAll at hx
  split at hx
  · exact mem_of_mem_splitOn sep l x ((List.rdropWhile_prefix _ _).mem hx)
  · simp_all

/-! ## Lines and the blank line -/

theorem splitOnce_line_blank (nl : α) (line rest : List α) (h : nl ∉ line) :
    splitOnce [nl, nl] (line ++ nl :: nl :: rest) = (line, some rest) := by
  induction line with
  | nil => simp [splitOnce]
  | cons x xs ih =>
    simp only [List.mem_cons, not_or] at h
    simp [splitOnce, List.cons_prefix_cons, h.1, ih h.2]

theorem splitOnce_line (nl : α) (line rest : List α) (h : nl ∉ line) (hr : rest.head? ≠ some nl) :
    splitOnce [nl, nl] (line ++ nl :: rest) =
      (line ++ nl :: (splitOnce [nl, nl] rest).1, (splitOnce [nl, nl] rest).2) := by
  induction line with
  | nil =>
    have : ¬ [nl, nl] <+: nl :: rest := by
      cases rest with
      | nil => simp
      | cons r rest => simpa [List.cons_prefix_cons, eq_comm] using hr
    simp [splitOnce, this]
  | cons x xs ih =>
    simp only [List.mem_cons, not_or] at h
    simp [splitOnce, List.cons_prefix_cons, h.1, ih h.2]

theorem splitOnce_nl_none (nl : α) (line : List α) (h : nl ∉ line) :
    splitOnce [nl, nl] line = (line, none) := by
  induction line with
  | nil => rfl
  | cons x xs ih =>
    simp only [List.mem_cons, not_or] at h
    simp [splitOnce, List.cons_prefix_cons, h.1, ih h.2]

theorem splitOnce_unlines (nl : α) (line : List α) (lines : List (List α)) (rest : List α)
    (hl : nl ∉ line) (hls : ∀ x ∈ lines, nl ∉ x ∧ x ≠ []) :
    splitOnce [nl, nl] (line ++ nl :: (unlines nl lines ++ nl :: rest)) =
      ([nl].intercalate (line :: lines), some rest) := by
  induction lines generalizing line with
  | nil => simpa using splitOnce_line_blank nl line rest hl
  | cons x lines ih =>
    obtain ⟨hx, hne⟩ := hls x List.mem_cons_self
    have hhead : (x ++ nl :: (unlines nl lines ++ nl :: rest)).head? ≠ some nl :=
      head?_append_cons ⟨hx, hne⟩ _
    have hi := ih x hx fun y hy => hls y (List.mem_cons_of_mem _ hy)
    rw [unlines_cons, List.append_assoc, List.cons_append, splitOnce_line nl line _ hl hhead, hi]
    simp [List.intercalate, List.intersperse]

theorem splitOnce_intercalate (nl : α) (line : List α) (lines : List (List α)) (hl : nl ∉ line)
    (hls : ∀ x ∈ lines, nl ∉ x ∧ x ≠ []) :
    splitOnce [nl, nl] ([nl].intercalate (line :: lines)) =
      ([nl].intercalate (line :: lines), none) := by
  -- Lines that are not empty hold no blank line.
  induction lines generalizing line with
  | nil => simpa using splitOnce_nl_none nl line hl
  | cons x lines ih =>
    obtain ⟨hx, hne⟩ := hls x List.mem_cons_self
    have hhead : ([nl].intercalate (x :: lines)).head? ≠ some nl := by
      cases lines with
      | nil => simpa using head?_append_cons ⟨hx, hne⟩ []
      | cons z lines =>
        rw [intercalate_line]
        exact head?_append_cons ⟨hx, hne⟩ _
    rw [intercalate_line, splitOnce_line nl line _ hl hhead, ih x hx fun y hy => hls y (List.mem_cons_of_mem _ hy)]

theorem splitAll_intercalate (nl : α) (line : List α) (lines : List (List α)) (hl : nl ∉ line)
    (hls : ∀ x ∈ lines, nl ∉ x ∧ x ≠ []) :
    splitAll nl ([nl].intercalate (line :: lines)) = line :: lines := by
  rcases List.eq_nil_or_concat lines with rfl | ⟨init, last, rfl⟩
  · simp [splitAll, hl]
  · have hsplit : ([nl].intercalate (line :: init.concat last)).splitOn nl = line :: init.concat last := by
      refine List.splitOn_intercalate nl (fun l hm => ?_) (by simp)
      rcases List.mem_cons.mp hm with rfl | hm
      · exact hl
      · exact (hls l hm).1
    have hlast : last ≠ [] := (hls last (by simp)).2
    have hmem : nl ∈ [nl].intercalate (line :: init.concat last) := by
      by_contra hn
      rw [List.splitOn_eq_singleton hn] at hsplit
      simpa using congrArg List.length hsplit
    rw [splitAll, if_pos hmem, hsplit, List.concat_eq_append, ← List.cons_append,
      List.rdropWhile_concat_neg]
    simpa using hlast

theorem splitAll_line (nl : α) (line rest : List α) (hl : nl ∉ line) (hne : line ≠ []) :
    ∃ lines, splitAll nl (line ++ nl :: rest) = line :: lines := by
  have hmem : nl ∈ line ++ nl :: rest := by simp
  rw [splitAll, if_pos hmem, List.splitOn_append_cons_self_of_not_mem hl]
  have hpre := List.rdropWhile_prefix List.isEmpty (line :: rest.splitOn nl)
  cases hdrop : (line :: rest.splitOn nl).rdropWhile List.isEmpty with
  | nil =>
    have hempty := List.rdropWhile_eq_nil_iff.mp hdrop line List.mem_cons_self
    exact absurd (List.isEmpty_iff.mp hempty) hne
  | cons x lines =>
    rw [hdrop, List.cons_prefix_cons] at hpre
    exact ⟨lines, by rw [hpre.1]⟩

/-! ## Lines that end the text -/

theorem splitOnce_unlines_none (nl : α) (line : List α) (lines : List (List α)) (hl : nl ∉ line)
    (hls : ∀ x ∈ lines, nl ∉ x ∧ x ≠ []) :
    splitOnce [nl, nl] (unlines nl (line :: lines)) = (unlines nl (line :: lines), none) := by
  induction lines generalizing line with
  | nil =>
    rw [unlines_cons, unlines_nil, splitOnce_line nl line [] hl (by simp)]
    rfl
  | cons x lines ih =>
    obtain ⟨hx, hrest⟩ := List.forall_mem_cons.mp hls
    have hhead : (unlines nl (x :: lines)).head? ≠ some nl := by
      rw [unlines_cons]
      exact head?_append_cons hx _
    rw [unlines_cons, splitOnce_line nl line _ hl hhead, ih x hx.1 hrest]

theorem splitOn_unlines (nl : α) (lines : List (List α)) (h : ∀ x ∈ lines, nl ∉ x) :
    (unlines nl lines).splitOn nl = lines ++ [[]] := by
  induction lines with
  | nil => rfl
  | cons x lines ih =>
    obtain ⟨hx, hrest⟩ := List.forall_mem_cons.mp h
    rw [unlines_cons, List.splitOn_append_cons_self_of_not_mem hx, ih hrest, List.cons_append]

theorem splitAll_unlines (nl : α) (line : List α) (lines : List (List α)) (hl : nl ∉ line)
    (hls : ∀ x ∈ lines, nl ∉ x ∧ x ≠ []) :
    splitAll nl (unlines nl (line :: lines)) =
      if line = [] ∧ lines = [] then [] else line :: lines := by
  -- Lines that end the text are its parts, unless the only line is empty.
  have hmem : nl ∈ unlines nl (line :: lines) := by simp
  have hall : ∀ x ∈ line :: lines, nl ∉ x :=
    List.forall_mem_cons.mpr ⟨hl, fun x hx => (hls x hx).1⟩
  rw [splitAll, if_pos hmem, splitOn_unlines nl _ hall, List.rdropWhile_concat_pos _ _ _ rfl]
  rcases List.eq_nil_or_concat lines with rfl | ⟨init, last, rfl⟩
  · cases line <;> rfl
  · have hlast : last ≠ [] := (hls last (by simp)).2
    rw [List.concat_eq_append, ← List.cons_append, List.rdropWhile_concat_neg _ _ _ (by simpa using hlast),
      if_neg (by simp)]

/-- A text has a blank line after its first lines, or it has only lines, the last with or without
an end. -/
theorem lines_cases (nl : α) (l : List α) : ∃ line lines, nl ∉ line ∧
    (∀ x ∈ lines, nl ∉ x ∧ x ≠ []) ∧
      ((∃ rest, l = line ++ nl :: (unlines nl lines ++ nl :: rest)) ∨
        l = [nl].intercalate (line :: lines) ∨ l = unlines nl (line :: lines)) := by
  induction l using parts_induction nl with
  | last l hm =>
    refine ⟨l, [], hm, fun x hx => (by cases hx), .inr (.inl ?_)⟩
    simp [List.intercalate]
  | cons line b hline ih =>
    cases b with
    | nil =>
      refine ⟨line, [], hline, fun x hx => (by cases hx), .inr (.inr ?_)⟩
      rw [unlines_cons, unlines_nil]
    | cons y b =>
      by_cases hy : y = nl
      · refine ⟨line, [], hline, fun x hx => (by cases hx), .inl ⟨b, ?_⟩⟩
        rw [hy, unlines_nil, List.nil_append]
      · obtain ⟨x, lines, hx, hlines, hcases⟩ := ih
        have hxne : x ≠ [] := by
          rintro rfl
          rcases hcases with ⟨rest, h⟩ | h | h
          · exact hy (List.cons.inj h).1
          · cases lines with
            | nil => simp [List.intercalate] at h
            | cons z lines =>
              rw [intercalate_line] at h
              exact hy (List.cons.inj h).1
          · rw [unlines_cons] at h
            exact hy (List.cons.inj h).1
        refine ⟨line, x :: lines, hline, List.forall_mem_cons.mpr ⟨⟨hx, hxne⟩, hlines⟩, ?_⟩
        rcases hcases with ⟨rest, h⟩ | h | h
        · exact .inl ⟨rest, by rw [h, unlines_cons, List.append_assoc, List.cons_append]⟩
        · exact .inr (.inl (by rw [h, intercalate_line]))
        · exact .inr (.inr (by rw [h, unlines_cons nl line]))

/-! ## Lines inside a text -/

theorem not_mem_of_mem_splitOn {c : α} (l : List α) {x : List α} (h : x ∈ l.splitOn c) : c ∉ x := by
  induction l using parts_induction c with
  | last l hm =>
    rw [List.splitOn_eq_singleton hm] at h
    rwa [List.mem_singleton.mp h]
  | cons a b ha ih =>
    rw [List.splitOn_append_cons_self_of_not_mem ha] at h
    rcases List.mem_cons.mp h with rfl | h
    · exact ha
    · exact ih h

theorem infix_of_mem_splitOn {c : α} (l : List α) {x : List α} (h : x ∈ l.splitOn c) :
    x <+: l ∨ c :: x <:+: l := by
  induction l using parts_induction c with
  | last l hm =>
    rw [List.splitOn_eq_singleton hm] at h
    exact .inl (List.mem_singleton.mp h ▸ List.prefix_refl _)
  | cons a b ha ih =>
    rw [List.splitOn_append_cons_self_of_not_mem ha] at h
    rcases List.mem_cons.mp h with rfl | h
    · exact .inl (List.prefix_append _ _)
    · have hb : c :: b <:+: a ++ c :: b := (List.suffix_append a _).isInfix
      rcases ih h with hx | hx
      · exact .inr (((List.cons_prefix_cons.mpr ⟨rfl, hx⟩).isInfix).trans hb)
      · exact .inr ((hx.trans (List.suffix_cons c b).isInfix).trans hb)

theorem infix_of_mem_tail {c : α} {l x : List α} (h : x ∈ (l.splitOn c).tail) : c :: x <:+: l := by
  by_cases hm : c ∈ l
  · obtain ⟨a, b, rfl, ha⟩ := List.eq_append_cons_of_mem hm
    rw [List.splitOn_append_cons_self_of_not_mem ha, List.tail_cons] at h
    have hb : c :: b <:+: a ++ c :: b := (List.suffix_append a _).isInfix
    rcases infix_of_mem_splitOn b h with hx | hx
    · exact ((List.cons_prefix_cons.mpr ⟨rfl, hx⟩).isInfix).trans hb
    · exact (hx.trans (List.suffix_cons c b).isInfix).trans hb
  · rw [List.splitOn_eq_singleton hm] at h
    cases h

theorem prefix_head_splitOn {c : α} {w l : List α} (hw : c ∉ w) (h : w <+: l) :
    ∃ x ∈ l.splitOn c, w <+: x := by
  by_cases hm : c ∈ l
  · obtain ⟨a, b, rfl, ha⟩ := List.eq_append_cons_of_mem hm
    rw [List.splitOn_append_cons_self_of_not_mem ha]
    exact ⟨a, List.mem_cons_self, prefix_of_prefix_append hw h⟩
  · rw [List.splitOn_eq_singleton hm]
    exact ⟨l, List.mem_cons_self, h⟩

theorem exists_mem_tail_of_infix {c : α} (l : List α) {w : List α} (hw : c ∉ w)
    (h : c :: w <:+: l) : ∃ x ∈ (l.splitOn c).tail, w <+: x := by
  induction l using parts_induction c with
  | last l hm => exact absurd (h.subset List.mem_cons_self) hm
  | cons a b ha ih =>
    rw [List.splitOn_append_cons_self_of_not_mem ha, List.tail_cons]
    have hcases : w <+: b ∨ c :: w <:+: b := by
      obtain ⟨s, t, heq⟩ := h
      rw [List.append_assoc, List.cons_append, List.append_eq_append_iff] at heq
      rcases heq with ⟨a', rfl, heq⟩ | ⟨s', rfl, heq⟩
      · cases a' with
        | nil => exact .inl ⟨t, (List.cons.inj heq).2⟩
        | cons y a' =>
          cases (List.cons.inj heq).1
          simp at ha
      · cases s' with
        | nil => exact .inl ⟨t, (List.cons.inj heq).2.symm⟩
        | cons y s' => exact .inr ⟨s', t, by simpa using (List.cons.inj heq).2.symm⟩
    rcases hcases with hb | hb
    · exact prefix_head_splitOn hw hb
    · obtain ⟨x, hx, hwx⟩ := ih hb
      exact ⟨x, List.mem_of_mem_tail hx, hwx⟩

theorem splitOnce_isPrefix (sep l : List α) : (splitOnce sep l).1 <+: l := by
  induction l with
  | nil => exact List.prefix_refl _
  | cons a l ih =>
    rw [splitOnce]
    split
    · exact List.nil_prefix
    · exact List.cons_prefix_cons.mpr ⟨rfl, ih⟩

theorem splitOnce_single_some {c : α} {l x y : List α} (h : splitOnce [c] l = (x, some y)) :
    c ∉ x ∧ l = x ++ c :: y := by
  by_cases hm : c ∈ l
  · obtain ⟨a, b, rfl, ha⟩ := List.eq_append_cons_of_mem hm
    rw [splitOnce_single c a b ha] at h
    cases h
    exact ⟨ha, rfl⟩
  · rw [splitOnce_single_none c l hm] at h
    cases h

theorem mem_tail_splitAll {c : α} {l x : List α} (h : x ∈ (splitAll c l).tail) :
    c ∉ x ∧ c :: x <:+: l := by
  unfold splitAll at h
  split at h
  · have hsub : x ∈ (l.splitOn c).tail := by
      obtain ⟨t, ht⟩ := List.rdropWhile_prefix List.isEmpty (l.splitOn c)
      revert h ht
      cases (l.splitOn c).rdropWhile List.isEmpty with
      | nil => exact fun h _ => by cases h
      | cons y ys =>
        intro h ht
        rw [← ht]
        exact List.mem_append_left _ h
    exact ⟨not_mem_of_mem_splitOn l (List.mem_of_mem_tail hsub), infix_of_mem_tail hsub⟩
  · cases h

/-! ## C++'s `getline` -/

/-- One `getline` from what is left of a stream, where `none` is a stream that met its end.
It gives the line, unless there is nothing to read, and what is left. -/
def getline (delim : α) : Option (List α) → Option (List α) × Option (List α)
  | none => (none, none)
  | some [] => (none, none)
  | some (a :: l) => (some (splitOnce [delim] (a :: l)).1, (splitOnce [delim] (a :: l)).2)

theorem getline_line (delim : α) (line rest : List α) (h : delim ∉ line) :
    getline delim (some (line ++ delim :: rest)) = (some line, some rest) := by
  have hs := splitOnce_single delim line rest h
  cases line with
  | nil => simp only [List.nil_append, getline] at hs ⊢; rw [hs]
  | cons x xs => simp only [List.cons_append, getline] at hs ⊢; rw [hs]

theorem getline_last (delim : α) (line : List α) (h : delim ∉ line) :
    (getline delim (some line)).1.getD [] = line := by
  cases line with
  | nil => rfl
  | cons x xs => simp [getline, splitOnce_single_none delim _ h]

theorem getline_end (delim : α) (line : List α) (h : delim ∉ line) (hne : line ≠ []) :
    getline delim (some line) = (some line, none) := by
  obtain ⟨x, xs, rfl⟩ := List.exists_cons_of_ne_nil hne
  rw [getline, splitOnce_single_none delim _ h]

/-! ## Pieces of a stream -/

/-- The pieces that `delim` ends. -/
def pieces (delim : α) (l : List α) : List (List α) := (l.splitOn delim).dropLast

/-- What stands after the last `delim`. -/
def unfinished (delim : α) (l : List α) : List α := (l.splitOn delim).getLastD []

@[simp]
theorem pieces_nil (delim : α) : pieces delim [] = [] := by simp [pieces]

theorem pieces_open (delim : α) (xs : List α) (h : delim ∉ xs) : pieces delim xs = [] := by
  simp [pieces, List.splitOn_eq_singleton h]

theorem pieces_cons (delim : α) (xs rest : List α) (h : delim ∉ xs) :
    pieces delim (xs ++ delim :: rest) = xs :: pieces delim rest := by
  rw [pieces, List.splitOn_append_cons_self_of_not_mem h,
    List.dropLast_cons_of_ne_nil (List.splitOn_ne_nil _ _), pieces]

theorem unfinished_open (delim : α) (xs : List α) (h : delim ∉ xs) : unfinished delim xs = xs := by
  simp [unfinished, List.splitOn_eq_singleton h]

theorem unfinished_cons (delim : α) (xs rest : List α) (h : delim ∉ xs) :
    unfinished delim (xs ++ delim :: rest) = unfinished delim rest := by
  rw [unfinished, List.splitOn_append_cons_self_of_not_mem h, unfinished, List.getLastD_eq_getLast?,
    List.getLastD_eq_getLast?, List.getLast?_cons_of_ne_nil (List.splitOn_ne_nil _ _)]

theorem eq_open_or_cons (delim : α) (l : List α) :
    delim ∉ l ∨ ∃ xs rest, delim ∉ xs ∧ l = xs ++ delim :: rest := by
  by_cases h : delim ∈ l
  · obtain ⟨xs, rest, rfl, hxs⟩ := List.eq_append_cons_of_mem h
    exact .inr ⟨xs, rest, hxs, rfl⟩
  · exact .inl h

theorem unfinished_snoc (delim : α) (l : List α) (b : α) :
    unfinished delim (l ++ [b]) = if b = delim then [] else unfinished delim l ++ [b] := by
  rcases eq_open_or_cons delim l with h | ⟨xs, rest, hxs, rfl⟩
  · rw [unfinished_open delim l h]
    split
    · next hb =>
      rw [hb, unfinished_cons delim l [] h]
      rfl
    · next hb => exact unfinished_open delim _ (by simp [h, Ne.symm hb])
  · rw [List.append_assoc, List.cons_append, unfinished_cons delim xs _ hxs,
      unfinished_cons delim xs _ hxs]
    exact unfinished_snoc delim rest b
  termination_by l.length

theorem not_mem_unfinished (delim : α) (l : List α) : delim ∉ unfinished delim l := by
  induction l using List.reverseRecOn with
  | nil => simp [unfinished]
  | append_singleton l b ih =>
    rw [unfinished_snoc]
    split
    · exact List.not_mem_nil
    · next hb => simp [ih, Ne.symm hb]

theorem length_unfinished_le (delim : α) (l : List α) :
    (unfinished delim l).length ≤ l.length := by
  induction l using List.reverseRecOn with
  | nil => simp [unfinished]
  | append_singleton l b ih =>
    rw [unfinished_snoc, List.length_append]
    split
    · exact Nat.zero_le _
    · rw [List.length_append]
      exact Nat.add_le_add_right ih _

theorem pieces_flatMap {β : Type} (delim : α) (f : β → List α) (l : List β)
    (h : ∀ x ∈ l, delim ∉ f x) :
    pieces delim (l.flatMap fun x => f x ++ [delim]) = l.map f ∧
      unfinished delim (l.flatMap fun x => f x ++ [delim]) = [] := by
  induction l with
  | nil => simp [unfinished]
  | cons x l ih =>
    obtain ⟨h1, h2⟩ := ih fun y hy => h y (List.mem_cons_of_mem _ hy)
    have hx := h x List.mem_cons_self
    rw [List.flatMap_cons, List.append_assoc, List.singleton_append, pieces_cons delim _ _ hx,
      unfinished_cons delim _ _ hx, h1, h2]
    exact ⟨rfl, rfl⟩

theorem length_splitOn (delim : α) (l : List α) :
    (l.splitOn delim).length = l.count delim + 1 := by
  induction l with
  | nil => simp
  | cons a l ih =>
    rw [List.splitOn_cons_eq_if_modifyHead]
    by_cases h : a = delim
    · simp [h, ih]
    · simp [h, ih]

theorem length_pieces (delim : α) (l : List α) : (pieces delim l).length = l.count delim := by
  simp [pieces, length_splitOn]

end Stomp.Split
