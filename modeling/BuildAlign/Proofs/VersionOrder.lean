import BuildAlign.VersionPolicy

/-! # The order of versions

In strict mode a version is accepted in the place of itself and of every version that it extends by
a qualifier.  A qualifier may again be extended, so acceptance goes on from one version to the next.
The versions that one and the same version may replace are beginnings of it, and of two beginnings
the longer one extends the other.  Below every version the order is therefore a chain, as below a
node of a tree. -/
namespace BuildAlign.VersionPolicy

variable {cs ms qualifier rest : List Char} {u v w w' : String}

/-- What may stand behind a version: a text that begins with a separator. -/
def IsQualifier (qualifier : List Char) : Prop := ∃ c ∈ qualifier.head?, isSeparator c = true

theorem IsQualifier.ne_nil (h : IsQualifier qualifier) : qualifier ≠ [] := by
  rintro rfl
  obtain ⟨c, hc, -⟩ := h
  cases hc

private theorem isQualifier_cons {c : Char} : IsQualifier (c :: cs) ↔ isSeparator c = true := by
  simp [IsQualifier]

/-- A qualifier goes on with anything. -/
theorem IsQualifier.append (h : IsQualifier qualifier) (rest : List Char) :
    IsQualifier (qualifier ++ rest) := by
  obtain ⟨c, cs, rfl⟩ := List.exists_cons_of_ne_nil h.ne_nil
  exact isQualifier_cons.2 (isQualifier_cons.1 h)

/-- The first part of a qualifier is one itself, unless it is empty. -/
theorem IsQualifier.of_append (h : IsQualifier (qualifier ++ rest)) (hn : qualifier ≠ []) :
    IsQualifier qualifier := by
  obtain ⟨c, cs, rfl⟩ := List.exists_cons_of_ne_nil hn
  exact isQualifier_cons.2 (isQualifier_cons.1 h)

private theorem extends?_iff :
    extends? cs ms = true ↔ ∃ qualifier, IsQualifier qualifier ∧ cs = ms ++ qualifier := by
  induction ms generalizing cs with
  | nil =>
    cases cs with
    | nil => simp [extends?, IsQualifier]
    | cons c cs => simp [extends?, isQualifier_cons]
  | cons m ms ih =>
    cases cs with
    | nil => simp [extends?]
    | cons c cs =>
      simp only [extends?, Bool.and_eq_true, decide_eq_true_eq, ih,
        List.cons_append, List.cons.injEq]
      constructor
      · rintro ⟨rfl, qualifier, hq, rfl⟩
        exact ⟨qualifier, hq, rfl, rfl⟩
      · rintro ⟨qualifier, hq, rfl, rfl⟩
        exact ⟨rfl, qualifier, hq, rfl⟩

/-- One version is another one with a qualifier behind it.  Nothing extends the empty version. -/
structure Extends (v w : String) : Prop where
  nonempty : w ≠ ""
  qualified : ∃ qualifier, IsQualifier qualifier ∧ v.toList = w.toList ++ qualifier

private theorem accepts_loose_iff : accepts false v w = true ↔ v = w := by simp [accepts]

private theorem accepts_strict_iff : accepts true v w = true ↔ v = w ∨ Extends v w := by
  simp only [accepts, Bool.or_eq_true, Bool.and_eq_true, decide_eq_true_eq,
    Bool.true_and, extends?_iff]
  exact or_congr_right ⟨fun h => ⟨h.1, h.2⟩, fun h => ⟨h.nonempty, h.qualified⟩⟩

private theorem Extends.length_lt (h : Extends v w) : w.toList.length < v.toList.length := by
  obtain ⟨qualifier, hq, he⟩ := h.qualified
  have hlong := List.length_pos_iff.2 hq.ne_nil
  rw [he, List.length_append]
  omega

/-- The qualifiers are put one behind the other. -/
theorem Extends.trans (h : Extends u v) (h' : Extends v w) : Extends u w := by
  obtain ⟨outer, -, hu⟩ := h.qualified
  obtain ⟨inner, hi, hv⟩ := h'.qualified
  refine ⟨h'.nonempty, inner ++ outer, hi.append outer, ?_⟩
  rw [hu, hv, List.append_assoc]

/-- A version that stands between another one and a qualifier behind it. -/
theorem accepts_of_between (hw : w ≠ "") (hb : v.toList = w.toList ++ qualifier)
    (hq : IsQualifier (qualifier ++ rest)) : accepts true v w = true := by
  rw [accepts_strict_iff]
  by_cases hn : qualifier = []
  · rw [hn, List.append_nil, String.toList_inj] at hb
    exact .inl hb
  · exact .inr ⟨hw, qualifier, hq.of_append hn, hb⟩

/-- Of two versions that one version extends, the longer one goes on with a part of the
qualifier. -/
theorem comparable_of_extends (h : Extends v w) (h' : Extends v w') :
    accepts true w w' = true ∨ accepts true w' w = true := by
  obtain ⟨qualifier, hq, hv⟩ := h.qualified
  obtain ⟨qualifier', hq', hv'⟩ := h'.qualified
  rcases List.append_eq_append_iff.1 (hv.symm.trans hv') with
    ⟨between, hw', rfl⟩ | ⟨between, hw, rfl⟩
  · exact .inr (accepts_of_between h.nonempty hw' hq)
  · exact .inl (accepts_of_between h'.nonempty hw hq')

private theorem accepts_comparable (h : accepts true v w = true) (h' : accepts true v w' = true) :
    accepts true w w' = true ∨ accepts true w' w = true := by
  rcases accepts_strict_iff.1 h with rfl | hext
  · exact .inl h'
  · rcases accepts_strict_iff.1 h' with rfl | hext'
    · exact .inr h
    · exact comparable_of_extends hext hext'

private theorem accepts_trans (h : accepts true u v = true) (h' : accepts true v w = true) :
    accepts true u w = true := by
  rcases accepts_strict_iff.1 h with rfl | hext
  · exact h'
  · rcases accepts_strict_iff.1 h' with rfl | hext'
    · exact h
    · exact accepts_strict_iff.2 (.inr (hext.trans hext'))

private theorem accepts_antisymm (h : accepts true v w = true) (h' : accepts true w v = true) :
    v = w := by
  rcases accepts_strict_iff.1 h with he | hext
  · exact he
  · rcases accepts_strict_iff.1 h' with he' | hext'
    · exact he'.symm
    · exact absurd hext.length_lt (Nat.lt_asymm hext'.length_lt)

/-- A version is accepted for the very same version and in strict mode also for one that it extends.
Strict acceptance is a partial order that contains the loose one.  It is the order of a tree: any
two versions that the same version is accepted for are comparable. -/
theorem strict_acceptance_is_tree_order :
    (∀ v w, accepts false v w = true ↔ v = w) ∧
    (∀ v w, accepts true v w = true ↔ v = w ∨ Extends v w) ∧
    (∀ v w, accepts false v w = true → accepts true v w = true) ∧
    (∀ v, accepts true v v = true) ∧
    (∀ v w, accepts true v w = true → accepts true w v = true → v = w) ∧
    (∀ u v w, accepts true u v = true → accepts true v w = true → accepts true u w = true) ∧
    ∀ v w w', accepts true v w = true → accepts true v w' = true →
      accepts true w w' = true ∨ accepts true w' w = true := by
  have contains_loose : ∀ v w, accepts false v w = true → accepts true v w = true :=
    fun v w h => accepts_strict_iff.2 (.inl (accepts_loose_iff.1 h))
  exact ⟨fun _ _ => accepts_loose_iff, fun _ _ => accepts_strict_iff, contains_loose,
    fun v => accepts_strict_iff.2 (.inl rfl), fun _ _ =>
      accepts_antisymm, fun _ _ _ => accepts_trans,
    fun _ _ _ => accepts_comparable⟩

/-- A version built from another one twice, the steps between, and one that looks like a step but is
none. -/
theorem strict_acceptance_is_tree_order_rebuilt :
    accepts true "1.1.redhat-2" "1.1.redhat" = true ∧ accepts true "1.1.redhat-2" "1.1" = true ∧
    (accepts true "1.1.redhat" "1.1" = true ∨ accepts true "1.1" "1.1.redhat" = true) ∧
    accepts true "1.1.redhat" "1" = true ∧ accepts true "1.1.redhat-2" "1" = true ∧
    accepts true "1.10" "1.1" = false := by
  obtain ⟨-, -, -, -, -, htrans, hcomparable⟩ := strict_acceptance_is_tree_order
  have hstep : accepts true "1.1.redhat-2" "1.1.redhat" = true := by decide
  have hboth : accepts true "1.1.redhat-2" "1.1" = true := by decide
  have hfirst : accepts true "1.1.redhat" "1" = true := by decide
  exact ⟨hstep, hboth, hcomparable _ _ _ hstep hboth, hfirst, htrans _ _ _ hstep hfirst, by decide⟩

end BuildAlign.VersionPolicy
