import BuildAlign.Proofs.OrderedMapLookup
import Mathlib.Data.List.Induction
import Mathlib.Data.List.Nodup

/-! # Merging lists and maps by keys

Elements are added to a list unless one with their key is there, and maps are merged key by key, by
a rule for the keys that both have.  Both keep what is first of all in the first place, and both may
be grouped freely if the rule may. -/
namespace BuildAlign.KeyedList
variable {α κ : Type} [DecidableEq κ] {key : α → κ} {known l : List α}

/-- Adds an element unless there is one with its key. -/
def addNew (key : α → κ) (known : List α) (x : α) : List α :=
  if key x ∈ known.map key then known else known ++ [x]

/-- Adds the elements of a list one after the other, the first one of each new key alone. -/
def keepFirst (key : α → κ) (known l : List α) : List α := l.foldl (addNew key) known

/-- The first element of each key, in the order in which the keys appear. -/
def firsts (key : α → κ) (l : List α) : List α :=
  (l.map key).eraseDups.filterMap fun k => l.find? fun x => key x = k

theorem addNew_of_mem {x : α} (h : key x ∈ known.map key) : addNew key known x = known := if_pos h

theorem addNew_of_notMem {x : α} (h : key x ∉ known.map key) :
    addNew key known x = known ++ [x] := if_neg h

private theorem keepFirst_cons (known : List α) (x : α) (l : List α) :
    keepFirst key known (x :: l) = keepFirst key (addNew key known x) l := rfl

theorem keepFirst_append (known l l' : List α) :
    keepFirst key known (l ++ l') = keepFirst key (keepFirst key known l) l' := List.foldl_append

private theorem mem_keys_addNew {x : α} {k : κ} :
    k ∈ (addNew key known x).map key ↔ k ∈ known.map key ∨ k = key x := by
  by_cases h : key x ∈ known.map key
  · rw [addNew_of_mem h]
    exact ⟨.inl, fun hk => hk.elim id fun he => he ▸ h⟩
  · rw [addNew_of_notMem h, List.map_append, List.mem_append,
      List.map_singleton, List.mem_singleton]

theorem mem_keys_keepFirst {k : κ} :
    k ∈ (keepFirst key known l).map key ↔ k ∈ known.map key ∨ k ∈ l.map key := by
  induction l generalizing known with
  | nil => simp [keepFirst]
  | cons x l ih => rw [keepFirst_cons, ih, mem_keys_addNew, or_assoc, List.map_cons, List.mem_cons]

/-- What is there stays, in its place. -/
theorem prefix_keepFirst (known l : List α) : known <+: keepFirst key known l := by
  induction l generalizing known with
  | nil => exact List.prefix_rfl
  | cons x l ih =>
    refine List.IsPrefix.trans ?_ (ih (addNew key known x))
    by_cases h : key x ∈ known.map key
    · simp only [addNew_of_mem h, List.prefix_rfl]
    · rw [addNew_of_notMem h]
      exact List.prefix_append known [x]

/-- Nothing is added where all keys are there. -/
theorem keepFirst_of_known (h : ∀ x ∈ l, key x ∈ known.map key) :
    keepFirst key known l = known := by
  induction l with
  | nil => rfl
  | cons x l ih =>
    rw [List.forall_mem_cons] at h
    rw [keepFirst_cons, addNew_of_mem h.1, ih h.2]

theorem mem_of_mem_keepFirst {x : α} (h : x ∈ keepFirst key known l) : x ∈ known ∨ x ∈ l := by
  induction l generalizing known with
  | nil => exact .inl h
  | cons y l ih =>
    rcases ih h with h | h
    · by_cases hy : key y ∈ known.map key
      · rw [addNew_of_mem hy] at h
        exact .inl h
      · rw [addNew_of_notMem hy, List.mem_append, List.mem_singleton] at h
        rcases h with h | rfl
        · exact .inl h
        · exact .inr List.mem_cons_self
    · exact .inr (List.mem_cons_of_mem _ h)

theorem nodup_keepFirst (h : (known.map key).Nodup) (l : List α) :
    ((keepFirst key known l).map key).Nodup := by
  induction l generalizing known with
  | nil => exact h
  | cons x l ih =>
    refine ih ?_
    by_cases hx : key x ∈ known.map key
    · rwa [addNew_of_mem hx]
    · rw [addNew_of_notMem hx, List.map_append, List.map_singleton]
      exact List.nodup_append.2 ⟨h, List.nodup_singleton _, fun k hk y hy => by
        rw [List.mem_singleton.1 hy]
        exact fun he => hx (he ▸ hk)⟩

private theorem find?_addNew (p : κ → Bool) (known : List α) (x : α) :
    (addNew key known x).find? (fun x => p (key x)) = (known ++ [x]).find? fun x => p (key x) := by
  by_cases hx : key x ∈ known.map key
  · obtain ⟨y, hy, he⟩ := List.mem_map.1 hx
    rw [addNew_of_mem hx, List.find?_append]
    cases hp : p (key x) with
    | false => simp [hp]
    | true =>
      have hs : (known.find? fun x => p (key x)).isSome :=
        List.find?_isSome.2 ⟨y, hy, by simp [he, hp]⟩
      rw [Option.or_of_isSome hs]
  · rw [addNew_of_notMem hx]

/-- What is left out cannot be the first of its kind, when kinds are told by keys. -/
theorem find?_keepFirst (key : α → κ) (p : κ → Bool) (known l : List α) :
    (keepFirst key known l).find? (fun x => p (key x)) = (known ++ l).find? fun x => p (key x) := by
  induction l generalizing known with
  | nil => rw [List.append_nil]; rfl
  | cons x l ih =>
    rw [keepFirst_cons, ih, List.append_cons, List.find?_append, find?_addNew, ← List.find?_append]

/-- The keys stand in the order in which they appear first. -/
theorem keys_keepFirst (l : List α) : (keepFirst key [] l).map key = (l.map key).eraseDups := by
  induction l using List.reverseRecOn with
  | nil => rfl
  | append_singleton l x ih =>
    rw [keepFirst_append, List.map_append, List.eraseDups_append, ← ih]
    have hk : key x ∈ (keepFirst key [] l).map key ↔ key x ∈ l.map key := by
      simp [mem_keys_keepFirst]
    by_cases hx : key x ∈ l.map key
    · have hr : ([x].map key).removeAll (l.map key) = [] := by simpa [List.removeAll] using hx
      rw [keepFirst_cons, addNew_of_mem (hk.2 hx), hr, List.eraseDups_nil, List.append_nil]
      rfl
    · have hr : ([x].map key).removeAll (l.map key) = [key x] := by simpa [List.removeAll] using hx
      rw [keepFirst_cons, addNew_of_notMem (mt hk.1 hx), hr]
      exact List.map_append

/-- Where the keys are different, every element is the first one of its key. -/
theorem find?_key_of_nodup (h : (l.map key).Nodup) {x : α} (hx : x ∈ l) :
    (l.find? fun y => key y = key x) = some x := by
  obtain ⟨y, hy⟩ : ∃ y, (l.find? fun y => key y = key x) = some y :=
    Option.isSome_iff_exists.1 (List.find?_isSome.2 ⟨x, hx, decide_eq_true rfl⟩)
  have hk : key y = key x := by simpa using List.find?_some hy
  rw [hy, List.inj_on_of_nodup_map h (List.mem_of_find?_eq_some hy) hx hk]

/-- Added to nothing, the first elements of all keys remain. -/
theorem keepFirst_nil (l : List α) : keepFirst key [] l = firsts key l := by
  have hnil : (([] : List α).map key).Nodup := List.nodup_nil
  have hn : ((keepFirst key [] l).map key).Nodup := nodup_keepFirst hnil l
  have hf : ∀ k, (l.find? fun x => key x = k) = (keepFirst key [] l).find? fun x => key x = k :=
    fun k =>
    (find?_keepFirst key (fun k' => decide (k' = k)) [] l).symm
  have hs : (keepFirst key [] l).filterMap (fun x => l.find? fun y => key y = key x) =
      (keepFirst key [] l).filterMap some :=
    List.filterMap_congr fun x hx => (hf (key x)).trans (find?_key_of_nodup hn hx)
  rw [firsts, ← keys_keepFirst, List.filterMap_map]
  exact (hs.trans List.filterMap_some).symm

/-- No key is lost. -/
theorem mem_keys_firsts {k : κ} : k ∈ (firsts key l).map key ↔ k ∈ l.map key := by
  rw [← keepFirst_nil, mem_keys_keepFirst, List.map_nil, List.mem_nil_iff, false_or]

theorem nodup_keys_firsts (key : α → κ) (l : List α) : ((firsts key l).map key).Nodup := by
  have hnil : (([] : List α).map key).Nodup := List.nodup_nil
  rw [← keepFirst_nil]
  exact nodup_keepFirst hnil l

/-- What an earlier addition leaves out is left out anyway. -/
theorem keepFirst_keepFirst (known l l' : List α) :
    keepFirst key known (keepFirst key l l') = keepFirst key known (l ++ l') := by
  induction l' generalizing l with
  | nil => rw [List.append_nil]; rfl
  | cons x l' ih =>
    rw [keepFirst_cons, ih, List.append_cons, keepFirst_append, keepFirst_append _ (l ++ [x])]
    by_cases hx : key x ∈ l.map key
    · rw [addNew_of_mem hx, keepFirst_append _ l [x], keepFirst_cons _ x,
        addNew_of_mem (mem_keys_keepFirst.2 (.inr hx))]
      rfl
    · rw [addNew_of_notMem hx]

end BuildAlign.KeyedList

namespace BuildAlign.OrderedMap
variable {κ α : Type} [DecidableEq κ] {m s : OrderedMap κ α} {key : κ} {value : α}

theorem mem_keys_iff : key ∈ m.keys ↔ (m.get? key).isSome := by
  constructor
  · intro h
    obtain ⟨⟨_, value⟩, he, rfl⟩ := List.mem_map.1 h
    rw [get?_eq_some_iff.2 he]
    rfl
  · intro h
    obtain ⟨value, hv⟩ := Option.isSome_iff_exists.1 h
    exact mem_keys_of_get? hv

theorem entries_eq (m : OrderedMap κ α) :
    (m.entries.map fun (key, value) => (key, some value)) = m.keys.map fun key =>
      (key, m.get? key) := by
  rw [keys, List.map_map]
  refine List.map_congr_left fun entry hm => ?_
  obtain ⟨key, value⟩ := entry
  simp only [Function.comp_apply, get?_eq_some_iff.2 hm]

/-- Maps with the same keys in the same order and the same values are the same. -/
theorem ext_of_keys (hk : m.keys = s.keys) (hg : ∀ key, m.get? key = s.get? key) : m = s := by
  have he : (m.entries.map fun (key, value) => (key, some value)) =
      s.entries.map fun (key, value) => (key, some value) := by
    rw [entries_eq, entries_eq, hk]
    exact List.map_congr_left fun key _ => congrArg (Prod.mk key) (hg key)
  have hinj : Function.Injective fun (e : κ × α) => (e.1, some e.2) := by
    rintro ⟨k, v⟩ ⟨k', v'⟩ h
    simpa using h
  have hl : m.entries = s.entries := List.map_injective_iff.2 hinj he
  cases m
  cases s
  cases hl
  rfl

private theorem keys_insert_of_mem (h : key ∈ m.keys) (value : α) :
    (m.insert key value).keys = m.keys :=
  keys_put_of_mem h value

private theorem keys_insert_of_notMem (h : key ∉ m.keys) (value : α) :
    (m.insert key value).keys = m.keys ++ [key] := by
  change (put key value m.entries).map Prod.fst = m.keys ++ [key]
  rw [put_of_notMem h, List.map_append]
  rfl

/-- Keys stand in the order in which they are set first, whatever is set under them. -/
theorem keys_foldl_insert {β : Type} (key : β → κ) (value : OrderedMap κ α → β → α) (l : List β) :
    (l.foldl (fun m x => m.insert (key x) (value m x)) (∅ : OrderedMap κ α)).keys =
      (l.map key).eraseDups := by
  induction l using List.reverseRecOn with
  | nil => rfl
  | append_singleton l x ih =>
    rw [List.foldl_append, List.map_append, List.eraseDups_append, ← ih,
      List.foldl_cons, List.foldl_nil]
    generalize l.foldl (fun m x => m.insert (key x) (value m x)) (∅ : OrderedMap κ α) = m at ih ⊢
    have hm : key x ∈ m.keys ↔ key x ∈ l.map key := by rw [ih, List.mem_eraseDups]
    by_cases hx : key x ∈ l.map key
    · have hr : ([x].map key).removeAll (l.map key) = [] := by simpa [List.removeAll] using hx
      rw [keys_insert_of_mem (hm.2 hx), hr, List.eraseDups_nil, List.append_nil]
    · have hr : ([x].map key).removeAll (l.map key) = [key x] := by simpa [List.removeAll] using hx
      rw [keys_insert_of_notMem (mt hm.1 hx), hr]
      rfl

/-- A value that is there may be set again. -/
theorem insert_of_get? (h : m.get? key = some value) : m.insert key value = m :=
  ext_of_keys (keys_insert_of_mem (mem_keys_of_get? h) value) fun k => by
    rw [get?_insert]
    split
    · next he => rw [← he, h]
    · rfl

/-- Merges a map into another one.  The rule says what becomes of a value where one may be there
already. -/
def combine (rule : Option α → α → α) (m s : OrderedMap κ α) : OrderedMap κ α :=
  s.entries.foldl (fun m (key, value) => m.insert key (rule (m.get? key) value)) m

/-- A rule under which merges may be grouped freely. -/
structure Grouping (rule : Option α → α → α) : Prop where
  alone : ∀ value, rule none value = value
  grouped : ∀ known value later,
    rule known (rule (some value) later) = rule (some (rule known value)) later

variable {rule : Option α → α → α}

/-- The associations of a map that is merged set their own keys, each one once. -/
theorem get?_combine (rule : Option α → α → α) (m s : OrderedMap κ α) (key : κ) :
    (m.combine rule s).get? key =
      match s.get? key with
      | none => m.get? key
      | some value => some (rule (m.get? key) value) := by
  obtain ⟨l, hl⟩ := s
  change (l.foldl _ m).get? key = match find key l with | none => _ | some value => _
  induction l generalizing m with
  | nil => rfl
  | cons e l ih =>
    obtain ⟨k, v⟩ := e
    have hn := List.nodup_cons.1 hl
    rw [List.foldl_cons, ih _ hn.2, get?_insert]
    by_cases hk : k = key
    · subst hk
      simp [find, find_of_notMem hn.1]
    · simp [find, hk]

private theorem keys_combine (rule : Option α → α → α) (m s : OrderedMap κ α) :
    (m.combine rule s).keys = m.keys ++ s.keys.filter (· ∉ m.keys) := by
  obtain ⟨l, hl⟩ := s
  change (l.foldl _ m).keys = m.keys ++ (l.map Prod.fst).filter _
  induction l generalizing m with
  | nil => exact (List.append_nil _).symm
  | cons e l ih =>
    obtain ⟨k, v⟩ := e
    have hn := List.nodup_cons.1 hl
    rw [List.foldl_cons, ih _ hn.2, List.map_cons]
    by_cases hk : k ∈ m.keys
    · rw [keys_insert_of_mem hk, List.filter_cons_of_neg (by simpa using hk)]
    · have hf : (l.map Prod.fst).filter (fun x => x ∉ m.keys ++ [k]) =
          (l.map Prod.fst).filter fun x => x ∉ m.keys := by
        refine List.filter_congr fun x hx => ?_
        have hne : x ≠ k := fun he => hn.1 (he ▸ hx)
        simp [hne]
      rw [keys_insert_of_notMem hk, hf,
        List.filter_cons_of_pos (by simpa using hk), List.append_assoc]
      rfl

/-- Merges by a rule that may be grouped can be grouped freely. -/
theorem combine_combine (h : Grouping rule) (a b c : OrderedMap κ α) :
    a.combine rule (b.combine rule c) = (a.combine rule b).combine rule c := by
  refine ext_of_keys ?_ fun key => ?_
  · have hf : (b.keys ++ c.keys.filter (· ∉ b.keys)).filter (· ∉ a.keys) =
      b.keys.filter (· ∉ a.keys) ++
        c.keys.filter (· ∉ a.keys ++ b.keys.filter (· ∉ a.keys)) := by
      rw [List.filter_append, List.filter_filter]
      refine congrArg _ (List.filter_congr fun k _ => ?_)
      by_cases ha : k ∈ a.keys <;> simp [ha]
    simp only [keys_combine, hf, List.append_assoc]
  · simp only [get?_combine]
    cases hc : c.get? key with
    | none => rfl
    | some later =>
      cases hb : b.get? key with
      | none => simp only [h.alone]
      | some value => exact congrArg some (h.grouped ..)

/-- Merging again changes nothing if and only if the rule changes no value that it has taken
already. -/
theorem combine_again_iff : (m.combine rule s).combine rule s = m.combine rule s ↔
    ∀ key value, s.get? key = some value →
      rule (some (rule (m.get? key) value)) value = rule (m.get? key) value := by
  constructor
  · intro h key value hv
    have hk := congrArg (fun m => m.get? key) h
    simpa only [get?_combine, hv, Option.some.injEq] using hk
  · intro h
    refine ext_of_keys ?_ fun key => ?_
    · have hn : s.keys.filter (· ∉ (m.combine rule s).keys) = [] := by
        rw [List.filter_eq_nil_iff, keys_combine]
        intro key hm
        by_cases hk : key ∈ m.keys <;> simp [hm, hk]
      rw [keys_combine _ (m.combine rule s), hn, List.append_nil]
    · rw [get?_combine _ (m.combine rule s), get?_combine]
      cases hv : s.get? key with
      | none => rfl
      | some value => exact congrArg some (h key value hv)

/-- What is merged into nothing stays as it is. -/
theorem empty_combine (h : Grouping rule) (s : OrderedMap κ α) :
    (∅ : OrderedMap κ α).combine rule s = s := by
  refine ext_of_keys ?_ fun key => ?_
  · rw [keys_combine]
    exact List.filter_eq_self.2 fun _ _ => by simp [keys, EmptyCollection.emptyCollection, empty]
  · rw [get?_combine]
    cases s.get? key with
    | none => rfl
    | some value => exact congrArg some (h.alone value)

/-- The last value counts. -/
def lastValue (_ : Option α) (value : α) : α := value

/-- The value that is there counts. -/
def firstValue (known : Option α) (value : α) : α := known.getD value

theorem grouping_lastValue : Grouping (lastValue : Option α → α → α) :=
  ⟨fun _ => rfl, fun _ _ _ => rfl⟩

theorem grouping_firstValue : Grouping (firstValue : Option α → α → α) :=
  ⟨fun _ => rfl, fun known _ _ => by cases known <;> rfl⟩

theorem get?_combine_lastValue (m s : OrderedMap κ α) (key : κ) :
    (m.combine lastValue s).get? key = (s.get? key).or (m.get? key) := by
  rw [get?_combine]
  cases s.get? key <;> rfl

theorem get?_combine_firstValue (m s : OrderedMap κ α) (key : κ) :
    (m.combine firstValue s).get? key = (m.get? key).or (s.get? key) := by
  rw [get?_combine]
  cases s.get? key with
  | none => exact Option.or_none.symm
  | some value => cases m.get? key <;> rfl

/-- A map in which the value that is there counts has the first association of every key. -/
theorem entries_combine_firstValue (m s : OrderedMap κ α) :
    (m.combine firstValue s).entries = KeyedList.keepFirst Prod.fst m.entries s.entries := by
  obtain ⟨l, hl⟩ := s
  change (l.foldl _ m).entries = KeyedList.keepFirst Prod.fst m.entries l
  clear hl
  induction l generalizing m with
  | nil => rfl
  | cons e l ih =>
    obtain ⟨key, value⟩ := e
    rw [List.foldl_cons, ih, KeyedList.keepFirst_cons]
    have hs : (m.insert key (firstValue (m.get? key) value)).entries =
        KeyedList.addNew Prod.fst m.entries (key, value) := by
      cases h : m.get? key with
      | none =>
        have hn : key ∉ m.keys := fun hm => by simp [mem_keys_iff, h] at hm
        rw [KeyedList.addNew_of_notMem hn]
        exact put_of_notMem hn value
      | some known =>
        rw [KeyedList.addNew_of_mem (mem_keys_of_get? h)]
        exact congrArg entries (insert_of_get? h)
    exact congrArg (KeyedList.keepFirst Prod.fst · l) hs

end BuildAlign.OrderedMap
