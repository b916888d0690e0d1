import BuildAlign.DelimitedText

/-! # The pieces between delimiters

A text is joined from the pieces that it is split into, and pieces without the delimiter are got
back from the text that they are joined to.  What is put in front of a text or behind it belongs to
its first or last piece. -/
namespace BuildAlign.DelimitedText
variable {delimiter : Char} {cs piece : List Char} {pieces : List (List Char)}

theorem split_of_notMem {piece : List Char} (h : delimiter ∉ piece) :
    split delimiter piece = [piece] := by
  induction piece with
  | nil => rfl
  | cons c cs ih =>
    simp only [List.mem_cons, not_or] at h
    simp [split, Ne.symm h.1, ih h.2]

theorem split_append_delimiter (delimiter : Char) (cs ds : List Char) :
    split delimiter (cs ++ delimiter :: ds) = split delimiter cs ++ split delimiter ds := by
  induction cs with
  | nil => simp [split]
  | cons c cs ih =>
    by_cases hc : c = delimiter
    · simp [split, hc, ih]
    · obtain ⟨piece, pieces, hp⟩ := List.exists_cons_of_ne_nil (split_ne_nil delimiter cs)
      simp [split, hc, ih, hp]

theorem split_append {piece : List Char} (h : delimiter ∉ piece) (rest : List Char) :
    split delimiter (piece ++ delimiter :: rest) = piece :: split delimiter rest := by
  rw [split_append_delimiter, split_of_notMem h]
  rfl

theorem split_join {pieces : List (List Char)} (hn : pieces ≠ [])
    (h : ∀ piece ∈ pieces, delimiter ∉ piece) :
    split delimiter (join delimiter pieces) = pieces := by
  induction pieces with
  | nil => exact absurd rfl hn
  | cons piece pieces ih =>
    have hp := h piece List.mem_cons_self
    cases pieces with
    | nil => exact split_of_notMem hp
    | cons next pieces =>
      have hj : join delimiter (piece :: next :: pieces) =
        piece ++ delimiter :: join delimiter (next :: pieces) := rfl
      rw [hj, split_append hp, ih (by simp) fun piece hm => h piece (List.mem_cons_of_mem _ hm)]

theorem mem_join {pieces : List (List Char)} {c : Char} (h : c ∈ join delimiter pieces) :
    c = delimiter ∨ ∃ piece ∈ pieces, c ∈ piece := by
  induction pieces with
  | nil => simp [join] at h
  | cons piece pieces ih =>
    cases pieces with
    | nil => exact .inr ⟨piece, List.mem_cons_self, h⟩
    | cons next pieces =>
      have hj : c ∈ piece ++ delimiter :: join delimiter (next :: pieces) := h
      rcases List.mem_append.1 hj with hc | hc
      · exact .inr ⟨piece, List.mem_cons_self, hc⟩
      · rcases List.mem_cons.1 hc with rfl | hc
        · exact .inl rfl
        · obtain he | ⟨piece, hm, hc⟩ := ih hc
          · exact .inl he
          · exact .inr ⟨piece, List.mem_cons_of_mem _ hm, hc⟩

private theorem mem_join_of_mem {delimiter c : Char} {piece : List Char} {pieces : List (List Char)}
    (hp : piece ∈ pieces) (hc : c ∈ piece) : c ∈ join delimiter pieces := by
  induction pieces with
  | nil => cases hp
  | cons first pieces ih =>
    cases pieces with
    | nil =>
      cases List.mem_singleton.1 hp
      exact hc
    | cons second pieces =>
      rw [join, List.mem_append, List.mem_cons]
      · rcases List.mem_cons.1 hp with rfl | hp
        · exact .inl hc
        · exact .inr (.inr (ih hp))
      · exact List.cons_ne_nil second pieces

theorem mem_of_mem_split {delimiter c : Char} {cs piece : List Char}
    (hp : piece ∈ split delimiter cs)
    (hc : c ∈ piece) : c ∈ cs := join_split delimiter cs ▸ mem_join_of_mem hp hc

theorem cut?_append {delimiter : Char} {piece : List Char}
    (h : delimiter ∉ piece) (rest : List Char) :
    cut? delimiter (piece ++ delimiter :: rest) = some (piece, rest) := by
  induction piece with
  | nil => simp [cut?]
  | cons c cs ih =>
    simp only [List.mem_cons, not_or] at h
    simp [cut?, Ne.symm h.1, ih h.2]

theorem eq_of_cut? {delimiter : Char} {cs before behind : List Char}
    (h : cut? delimiter cs = some (before, behind)) : cs = before ++ delimiter :: behind := by
  induction cs generalizing before with
  | nil => cases h
  | cons c cs ih =>
    rw [cut?] at h
    split at h
    · next hc =>
      cases h
      rw [hc, List.nil_append]
    · obtain ⟨⟨first, last⟩, hf, he⟩ := Option.map_eq_some_iff.1 h
      cases he
      rw [ih hf, List.cons_append]

private theorem notMem_of_mem_split (h : piece ∈ split delimiter cs) : delimiter ∉ piece := by
  induction cs generalizing piece with
  | nil => simp_all [split]
  | cons c cs ih =>
    obtain ⟨first, others, hs⟩ := List.exists_cons_of_ne_nil (split_ne_nil delimiter cs)
    rw [hs, List.forall_mem_cons] at ih
    by_cases hc : c = delimiter
    · simp only [split, hc, if_true, hs, List.mem_cons] at h
      rcases h with rfl | rfl | h
      · exact List.not_mem_nil
      · exact ih.1
      · exact ih.2 piece h
    · simp only [split, hc, if_false, hs, List.mem_cons] at h
      rcases h with rfl | h
      · exact fun hm => (List.mem_cons.1 hm).elim (fun he => hc he.symm) ih.1
      · exact ih.2 piece h

/-- The pieces that the delimiters in a text leave of it. -/
structure Pieces (delimiter : Char) (cs : List Char) (pieces : List (List Char)) : Prop where
  nonempty : pieces ≠ []
  closed : ∀ piece ∈ pieces, delimiter ∉ piece
  joined : join delimiter pieces = cs

/-- They are unique, and splitting finds them. -/
theorem pieces_iff : Pieces delimiter cs pieces ↔ split delimiter cs = pieces := by
  constructor
  · intro h
    rw [← h.joined, split_join h.nonempty h.closed]
  · rintro rfl
    exact ⟨split_ne_nil delimiter cs, fun _ => notMem_of_mem_split, join_split delimiter cs⟩

theorem Pieces.mem (h : Pieces delimiter cs pieces) {c : Char} (hp : piece ∈ pieces)
    (hc : c ∈ piece) : c ∈ cs :=
  h.joined ▸ mem_join_of_mem hp hc

theorem split_append_front {front : List Char} (h : delimiter ∉ front) (cs : List Char) :
    ∃ first others, split delimiter cs = first :: others ∧
      split delimiter (front ++ cs) = (front ++ first) :: others := by
  induction front with
  | nil =>
    obtain ⟨first, others, hs⟩ := List.exists_cons_of_ne_nil (split_ne_nil delimiter cs)
    exact ⟨first, others, hs, hs⟩
  | cons c front ih =>
    simp only [List.mem_cons, not_or] at h
    obtain ⟨first, others, hs, hf⟩ := ih h.2
    exact ⟨first, others, hs, by simp [split, Ne.symm h.1, hf]⟩

theorem split_append_back {back : List Char} (h : delimiter ∉ back) (cs : List Char) :
    ∃ others last, split delimiter cs = others ++ [last] ∧
      split delimiter (cs ++ back) = others ++ [last ++ back] := by
  induction cs with
  | nil => exact ⟨[], [], rfl, split_of_notMem h⟩
  | cons c cs ih =>
    obtain ⟨others, last, hs, hb⟩ := ih
    by_cases hc : c = delimiter
    · exact ⟨[] :: others, last, by simp [split, hc, hs], by simp [split, hc, hb]⟩
    · cases others with
      | nil => exact ⟨[], c :: last, by simp [split, hc, hs], by simp [split, hc, hb]⟩
      | cons first others =>
        exact ⟨(c :: first) :: others, last, by simp [split, hc, hs], by simp [split, hc, hb]⟩

end BuildAlign.DelimitedText
