/-! # Line ends -/
namespace BuildAlign.LineEnds

/-- Line feed, carriage return, or both in a row end a line; each becomes a line feed. -/
def normalize : List Char → List Char
  | '\r' :: '\n' :: cs => '\n' :: normalize cs
  | '\r' :: cs => '\n' :: normalize cs
  | c :: cs => c :: normalize cs
  | [] => []

variable {c : Char} {cs rest : List Char}

theorem normalize_cons (h : c ≠ '\r') (cs : List Char) :
    normalize (c :: cs) = c :: normalize cs := by
  simp [normalize, h]

private theorem normalize_return (h : ∀ c ∈ cs.head?, c ≠ '\n') :
    normalize ('\r' :: cs) = '\n' :: normalize cs := by
  cases cs with
  | nil => rfl
  | cons c cs => simp [normalize, h c rfl]

theorem normalize_append_of_notMem (h : '\r' ∉ cs) (rest : List Char) :
    normalize (cs ++ rest) = cs ++ normalize rest := by
  induction cs with
  | nil => rfl
  | cons c cs ih =>
    simp only [List.mem_cons, not_or] at h
    rw [List.cons_append, normalize_cons (Ne.symm h.1), ih h.2, List.cons_append]

theorem normalize_of_return (cs : List Char) : ∃ rest, normalize ('\r' :: cs) = '\n' :: rest := by
  cases cs with
  | nil => exact ⟨[], rfl⟩
  | cons c cs =>
    by_cases hc : c = '\n'
    · exact ⟨normalize cs, by rw [hc, normalize]⟩
    · exact ⟨_, normalize_return fun d hd => by cases hd; exact hc⟩

/-- Only a carriage return before a line feed does not end a line of its own. -/
theorem normalize_append (h : ∀ c ∈ rest.head?, c ≠ '\n') (cs : List Char) :
    normalize (cs ++ rest) = normalize cs ++ normalize rest := by
  fun_induction normalize cs with
  | case1 cs ih => exact congrArg ('\n' :: ·) ih
  | case2 cs hn ih =>
    have hhead : ∀ c ∈ (cs ++ rest).head?, c ≠ '\n' := by
      cases cs with
      | nil => exact h
      | cons c cs =>
        rintro c ⟨⟩ rfl
        exact hn cs rfl
    rw [List.cons_append, normalize_return hhead, ih, List.cons_append]
  | case3 c cs hc hn ih =>
    have hc : c ≠ '\r' := fun he => hn he
    rw [List.cons_append, normalize_cons hc, ih, List.cons_append]
  | case4 => rfl

/-- Line ends stay line ends, and no character takes their place. -/
theorem getLast?_normalize (cs : List Char) :
    (normalize cs).getLast? = cs.getLast?.map fun c => if c = '\r' then '\n' else c := by
  fun_induction normalize cs with
  | case1 cs ih =>
    rw [List.getLast?_cons, List.getLast?_cons, List.getLast?_cons, ih]
    cases cs.getLast? <;> rfl
  | case2 cs hn ih =>
    rw [List.getLast?_cons, List.getLast?_cons, ih]
    cases cs.getLast? <;> rfl
  | case3 c cs hc hn ih =>
    have hc : c ≠ '\r' := hn
    rw [List.getLast?_cons, List.getLast?_cons, ih]
    cases cs.getLast? <;> simp [hc]
  | case4 => rfl

end BuildAlign.LineEnds
