import Mathlib.Data.List.Forall2

/-! # Reading lists

A list is read element by element, and where one of them cannot be read, neither can the list. -/
namespace BuildAlign.ListReading

variable {ε α β : Type} {related : α → β → Prop} {read : α → Except ε β} {l : List α} {l' : List β}

theorem exists_left (h : List.Forall₂ related l l') {y : β} (hy : y ∈ l') :
    ∃ x ∈ l, related x y := by
  obtain ⟨i, hi, rfl⟩ := List.mem_iff_getElem.1 hy
  have hl : i < l.length := h.length_eq ▸ hi
  exact ⟨l[i], List.getElem_mem hl, h.get hl hi⟩

theorem exists_right (h : List.Forall₂ related l l') {x : α} (hx : x ∈ l) : ∃ y ∈ l', related x y :=
  exists_left h.flip hx

theorem mapError_eq_ok {ε' : Type} {r : Except ε β} {f : ε → ε'} {y : β} :
    r.mapError f = .ok y ↔ r = .ok y := by
  cases r <;> simp [Except.mapError]

theorem mapM_eq_ok_iff : l.mapM read = .ok l' ↔ List.Forall₂ (fun x y => read x = .ok y) l l' := by
  induction l generalizing l' with
  | nil =>
    rw [List.forall₂_nil_left_iff]
    constructor
    · rintro ⟨⟩
      rfl
    · rintro rfl
      rfl
  | cons x l ih =>
    rw [List.mapM_cons, List.forall₂_cons_left_iff]
    cases hx : read x with
    | error e =>
      constructor
      · rintro ⟨⟩
      · rintro ⟨y, rest, ⟨⟩, -⟩
    | ok y =>
      cases hl : l.mapM read with
      | error e =>
        constructor
        · rintro ⟨⟩
        · rintro ⟨_, rest, -, hr, rfl⟩
          cases hl.symm.trans (ih.2 hr)
      | ok rest =>
        constructor
        · rintro ⟨⟩
          exact ⟨y, rest, rfl, ih.1 hl, rfl⟩
        · rintro ⟨_, rest', ⟨⟩, hr, rfl⟩
          cases hl.symm.trans (ih.2 hr)
          rfl

/-- A list fails with the first of its elements that cannot be read. -/
theorem mapM_eq_error_iff {e : ε} :
    l.mapM read = .error e ↔
      ∃ before x after, l = before ++ x :: after ∧ (∀ y ∈ before, ∃ z, read y = .ok z) ∧
        read x = .error e := by
  induction l with
  | nil =>
    constructor
    · rintro ⟨⟩
    · rintro ⟨before, x, after, hl, -⟩
      simp at hl
  | cons x l ih =>
    rw [List.mapM_cons]
    cases hx : read x with
    | error e' =>
      constructor
      · rintro ⟨⟩
        exact ⟨[], x, l, rfl, by simp, hx⟩
      · rintro ⟨before, y, after, hl, hb, hy⟩
        cases before with
        | nil =>
          cases hl
          cases hx.symm.trans hy
          rfl
        | cons y' before =>
          cases hl
          obtain ⟨z, hz⟩ := hb _ List.mem_cons_self
          cases hx.symm.trans hz
    | ok y =>
      have hm : (do let ys ← l.mapM read; pure (y :: ys)) = .error e ↔ l.mapM read = .error e := by
        cases l.mapM read <;> simp [bind, Except.bind, pure, Except.pure]
      refine hm.trans (ih.trans ?_)
      constructor
      · rintro ⟨before, x', after, rfl, hb, hx'⟩
        exact ⟨x :: before, x', after, rfl, List.forall_mem_cons.2 ⟨⟨y, hx⟩, hb⟩, hx'⟩
      · rintro ⟨before, x', after, hl, hb, hx'⟩
        cases before with
        | nil =>
          cases hl
          cases hx.symm.trans hx'
        | cons y' before =>
          cases hl
          exact ⟨before, x', after, rfl, (List.forall_mem_cons.1 hb).2, hx'⟩

theorem mapM_fails_iff : (∃ e, l.mapM read = .error e) ↔ ∃ x ∈ l, ∃ e, read x = .error e := by
  constructor
  · rintro ⟨e, h⟩
    obtain ⟨before, x, after, rfl, -, hx⟩ := mapM_eq_error_iff.1 h
    exact ⟨x, List.mem_append_right before List.mem_cons_self, e, hx⟩
  · rintro ⟨x, hx, e, he⟩
    cases h : l.mapM read with
    | error e' => exact ⟨e', rfl⟩
    | ok l' =>
      obtain ⟨_, -, hr⟩ := exists_right (mapM_eq_ok_iff.1 h) hx
      cases he.symm.trans hr

theorem mapM_succeeds_iff : (∃ l', l.mapM read = .ok l') ↔ ∀ x ∈ l, ∃ y, read x = .ok y := by
  have hok : ∀ {γ : Type} {r : Except ε γ}, (∃ a, r = .ok a) ↔ ¬ ∃ e, r = .error e := by
    intro γ r
    cases r <;> simp
  simp only [hok, mapM_fails_iff, not_exists, not_and]

/-- What is read of a list is read of its elements. -/
theorem exists_of_mapM (h : l.mapM read = .ok l') {y : β} (hy : y ∈ l') : ∃ x ∈ l, read x = .ok y :=
  exists_left (mapM_eq_ok_iff.1 h) hy

end BuildAlign.ListReading
