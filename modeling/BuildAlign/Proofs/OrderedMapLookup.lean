import BuildAlign.OrderedMap

/-! # What is found in a map that keeps the order of insertion

Looking a key up is finding its only entry.  A key that is known keeps its place when it is set
again, and a new one comes last. -/
namespace BuildAlign.OrderedMap
variable {κ α β : Type} [DecidableEq κ]

theorem find_eq_some_iff {l : List (κ × α)} (h : (l.map Prod.fst).Nodup) {key : κ} {value : α} :
    find key l = some value ↔ (key, value) ∈ l := by
  induction l with
  | nil => simp [find]
  | cons e l ih =>
    obtain ⟨k, v⟩ := e
    simp only [List.map_cons, List.nodup_cons] at h
    by_cases hk : k = key
    · subst hk
      have hn : (k, value) ∉ l := fun hm => h.1 (List.mem_map_of_mem (f := Prod.fst) hm)
      simp [find, hn, eq_comm]
    · simp [find, hk, ih h.2, Ne.symm hk]

theorem mem_of_find {l : List (κ × α)} {key : κ} {value : α} (h : find key l = some value) :
    (key, value) ∈ l := by
  induction l with
  | nil => cases h
  | cons e l ih =>
    obtain ⟨k, v⟩ := e
    simp only [find] at h
    split at h
    · next hk =>
      cases h
      exact hk ▸ List.mem_cons_self
    · exact List.mem_cons_of_mem _ (ih h)

theorem find_of_notMem {l : List (κ × α)} {key : κ} (h : key ∉ l.map Prod.fst) :
    find key l = none := by
  cases hf : find key l with
  | none => rfl
  | some value => exact absurd (List.mem_map_of_mem (f := Prod.fst) (mem_of_find hf)) h

theorem find_filter (p : κ → Bool) (l : List (κ × α)) (key : κ) :
    find key (l.filter fun (k, _) => p k) = if p key then find key l else none := by
  induction l with
  | nil => simp [find]
  | cons e l ih =>
    obtain ⟨k, v⟩ := e
    by_cases hk : k = key
    · subst hk
      cases hp : p k <;> simp [find, hp, ih]
    · cases hp : p k <;> simp [find, hp, hk, ih]

/-- The only entry of a key. -/
theorem filter_eq_find {l : List (κ × α)} (h : (l.map Prod.fst).Nodup) (key : κ) :
    l.filter (fun (k, _) => decide (k = key)) =
      ((find key l).map fun value => (key, value)).toList := by
  induction l with
  | nil => rfl
  | cons e l ih =>
    obtain ⟨k, v⟩ := e
    simp only [List.map_cons, List.nodup_cons] at h
    by_cases hk : k = key
    · subst hk
      have hn : l.filter (fun (k', _) => decide (k' = k)) = [] := by
        rw [ih h.2, find_of_notMem h.1]
        rfl
      simp [find, hn]
    · simp [find, hk, ih h.2]

theorem put_of_notMem {l : List (κ × α)} {key : κ} (h : key ∉ l.map Prod.fst) (value : α) :
    put key value l = l ++ [(key, value)] := by
  induction l with
  | nil => rfl
  | cons e l ih =>
    obtain ⟨k, v⟩ := e
    simp only [List.map_cons, List.mem_cons, not_or] at h
    simp [put, Ne.symm h.1, ih h.2]

theorem keys_put_of_mem {l : List (κ × α)} {key : κ} (h : key ∈ l.map Prod.fst) (value : α) :
    (put key value l).map Prod.fst = l.map Prod.fst := by
  induction l with
  | nil => simp at h
  | cons e l ih =>
    obtain ⟨k, v⟩ := e
    by_cases hk : k = key
    · simp [put, hk]
    · have hm : key ∈ l.map Prod.fst := by simpa [Ne.symm hk] using h
      simp [put, hk, ih hm]

theorem mem_put {l : List (κ × α)} {key : κ} {value : α} {e : κ × α} (h : e ∈ put key value l) :
    e = (key, value) ∨ e ∈ l := by
  induction l with
  | nil => exact .inl (List.mem_singleton.1 h)
  | cons e' l ih =>
    obtain ⟨k, v⟩ := e'
    simp only [put] at h
    split at h
    · next hk =>
      rcases List.mem_cons.1 h with rfl | h
      · exact .inl (hk ▸ rfl)
      · exact .inr (List.mem_cons_of_mem _ h)
    · rcases List.mem_cons.1 h with rfl | h
      · exact .inr List.mem_cons_self
      · exact (ih h).imp_right (List.mem_cons_of_mem _)

theorem get?_eq_some_iff {m : OrderedMap κ α} {key : κ} {value : α} :
    m.get? key = some value ↔ (key, value) ∈ m.entries := find_eq_some_iff m.distinct

theorem contains_iff {m : OrderedMap κ α} {key : κ} :
    m.contains key = true ↔ ∃ value, m.get? key = some value := by
  rw [contains, Option.isSome_iff_exists]

@[simp] theorem get?_emptyCollection (k : κ) : (∅ : OrderedMap κ α).get? k = none := rfl

@[simp] theorem get?_mapValues (f : α → β) (m : OrderedMap κ α) (key : κ) :
    (m.mapValues f).get? key = (m.get? key).map f := by
  obtain ⟨l, hl⟩ := m
  simp only [get?, mapValues]
  clear hl
  induction l with
  | nil => rfl
  | cons e l ih =>
    obtain ⟨k, v⟩ := e
    by_cases hk : k = key <;> simp [find, hk, ih]

private theorem get?_insertIfNew (m : OrderedMap κ α) (key k : κ) (value : α) :
    (m.insertIfNew key value).get? k = (m.get? k).or (if key = k then some value else none) := by
  unfold insertIfNew
  by_cases hk : key = k
  · subst hk
    cases hg : m.get? key <;> simp [contains, hg]
  · split <;> simp [hk]

/-- Of values that are added under new names only, the first one of a name is found. -/
theorem get?_foldl_insertIfNew (name : α → κ) (l : List α) (m : OrderedMap κ α) (key : κ) :
    (l.foldl (fun m x => m.insertIfNew (name x) x) m).get? key =
      (m.get? key).or (l.find? fun x => name x = key) := by
  induction l generalizing m with
  | nil => simp
  | cons x l ih =>
    rw [List.foldl_cons, ih, get?_insertIfNew, Option.or_assoc, List.find?_cons]
    by_cases h : name x = key <;> simp [h]

/-- Changes every value by itself, with its key at hand. -/
def mapEntries (f : κ → α → β) (m : OrderedMap κ α) : OrderedMap κ β :=
  ⟨m.entries.map fun (key, value) => (key, f key value), by
    simpa [List.map_map, Function.comp_def] using m.distinct⟩

@[simp] theorem get?_mapEntries (f : κ → α → β) (m : OrderedMap κ α) (key : κ) :
    (m.mapEntries f).get? key = (m.get? key).map (f key) := by
  obtain ⟨l, hl⟩ := m
  simp only [get?, mapEntries]
  clear hl
  induction l with
  | nil => rfl
  | cons e l ih =>
    obtain ⟨k, v⟩ := e
    by_cases hk : k = key <;> simp [find, hk, ih]

private theorem find_append (l l' : List (κ × α)) (key : κ) :
    find key (l ++ l') = (find key l).or (find key l') := by
  induction l with
  | nil => rfl
  | cons e l ih =>
    obtain ⟨k, v⟩ := e
    by_cases hk : k = key <;> simp [find, hk, ih]

theorem exists_find_of_mem {l : List (κ × α)} {key : κ} {value : α} (h : (key, value) ∈ l) :
    ∃ found, find key l = some found := by
  induction l with
  | nil => cases h
  | cons e l ih =>
    obtain ⟨k, v⟩ := e
    by_cases hk : k = key
    · exact ⟨v, by simp [find, hk]⟩
    · have hm : (key, value) ∈ l := by simpa [Ne.symm hk] using h
      simpa [find, hk] using ih hm

private theorem find_reverse {l : List (κ × α)} (h : (l.map Prod.fst).Nodup) (key : κ) :
    find key l.reverse = find key l := by
  have hr : (l.reverse.map Prod.fst).Nodup := by
    rw [List.map_reverse]
    exact List.pairwise_reverse.2 (h.imp Ne.symm)
  ext value
  rw [find_eq_some_iff hr, find_eq_some_iff h, List.mem_reverse]

/-- Of the associations that a list has for a key the last one counts. -/
theorem get?_insertAll (m : OrderedMap κ α) (l : List (κ × α)) (key : κ) :
    (m.insertAll l).get? key = (find key l.reverse).or (m.get? key) := by
  induction l generalizing m with
  | nil => rfl
  | cons e l ih =>
    obtain ⟨k, v⟩ := e
    have hs : m.insertAll ((k, v) :: l) = (m.insert k v).insertAll l := rfl
    rw [hs, ih, List.reverse_cons, find_append, Option.or_assoc, get?_insert]
    by_cases hk : k = key <;> simp [find, hk]

/-- What is found after setting all associations of a list was found before or is one of them. -/
theorem mem_of_get?_insertAll {m : OrderedMap κ α} {l : List (κ × α)} {key : κ} {value : α}
    (h : (m.insertAll l).get? key = some value) : m.get? key = some value ∨ (key, value) ∈ l := by
  rw [get?_insertAll, Option.or_eq_some_iff] at h
  rcases h with h | ⟨-, h⟩
  · exact .inr (List.mem_reverse.1 (mem_of_find h))
  · exact .inl h

/-- Where the names of a list are different, the association of a name is found, or what was
there. -/
theorem get?_insertAll_of_nodup {l : List (κ × α)} (h : (l.map Prod.fst).Nodup) (m : OrderedMap κ α)
    (key : κ) : (m.insertAll l).get? key = (find key l).or (m.get? key) := by
  rw [get?_insertAll, find_reverse h]

theorem mem_of_get?_ofList {l : List (κ × α)} {key : κ} {value : α}
    (h : (ofList l).get? key = some value) : (key, value) ∈ l := by
  rcases mem_of_get?_insertAll h with h | h
  · simp at h
  · exact h

theorem get?_ofList_of_mem {l : List (κ × α)} (h : (l.map Prod.fst).Nodup) {key : κ} {value : α}
    (hm : (key, value) ∈ l) : (ofList l).get? key = some value := by
  rw [ofList, get?_insertAll_of_nodup h, (find_eq_some_iff h).2 hm, Option.some_or]

/-- The last association of a key is found. -/
theorem get?_ofList_append {before after : List (κ × α)} {key : κ} {value : α}
    (h : (ofList after).get? key = none) :
    (ofList (before ++ (key, value) :: after)).get? key = some value := by
  rw [ofList, get?_insertAll] at h ⊢
  have hafter : find key after.reverse = none := (Option.or_eq_none_iff.1 h).1
  rw [List.reverse_append, List.reverse_cons, List.append_assoc, find_append, hafter]
  simp [find]

private theorem put_put (key : κ) (value value' : α) (l : List (κ × α)) :
    put key value' (put key value l) = put key value' l := by
  induction l with
  | nil => simp [put]
  | cons e l ih =>
    obtain ⟨k, v⟩ := e
    by_cases hk : k = key <;> simp [put, hk, ih]

/-- A key that is there keeps its place, so that it may as well be set before another one. -/
theorem put_put_of_mem {l : List (κ × α)} {key key' : κ} (hne : key' ≠ key)
    (h : key ∈ l.map Prod.fst)
    (value value' : α) : put key value (put key' value' l) = put key' value' (put key value l) := by
  induction l with
  | nil => simp at h
  | cons e l ih =>
    obtain ⟨k, v⟩ := e
    by_cases hk : k = key
    · subst hk
      simp [put, Ne.symm hne]
    · have hm : key ∈ l.map Prod.fst := by simpa [Ne.symm hk] using h
      by_cases hk' : k = key' <;> simp [put, hk, hk', hne, ih hm]

theorem insert_insert (m : OrderedMap κ α) (key : κ) (value value' : α) :
    (m.insert key value).insert key value' = m.insert key value' := by
  simp only [insert, put_put]

theorem mem_keys_insert (m : OrderedMap κ α) (key : κ) (value : α) :
    key ∈ (m.insert key value).keys :=
  mem_keys_put.2 (.inl rfl)

/-- A key that is there may as well be set before others. -/
theorem insert_insertAll {m : OrderedMap κ α} {l : List (κ × α)} {key : κ} (hm : key ∈ m.keys)
    (hl : key ∉ l.map Prod.fst) (value : α) :
    (m.insertAll l).insert key value = (m.insert key value).insertAll l := by
  induction l generalizing m with
  | nil => rfl
  | cons e l ih =>
    obtain ⟨k, v⟩ := e
    simp only [List.map_cons, List.mem_cons, not_or] at hl
    have hk : key ∈ (m.insert k v).keys := mem_keys_put.2 (.inr hm)
    have hc : (m.insert k v).insert key value = (m.insert key value).insert k v := by
      simp only [insert, put_put_of_mem (Ne.symm hl.1) hm]
    have hi := ih hk hl.2
    rw [hc] at hi
    exact hi

end BuildAlign.OrderedMap
