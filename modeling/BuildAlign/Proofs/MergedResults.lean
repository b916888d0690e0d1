import BuildAlign.Proofs.IntroducedProperties
import BuildAlign.Proofs.KeyedMerges

/-! # Merged results

Merging goes through versions in use, edits, new properties and injected dependencies one after the
other.  For versions and edits the first decision is kept, and a later one is reported if it is
different.  A new property has the last value, without a report, and dependencies are injected as
often as they are merged. -/
namespace BuildAlign

def Operation.place (op : Operation) : String × String := (op.target, op.path)

namespace AlignmentResult
open KeyedList OrderedMap

variable {r s : AlignmentResult} {name version : String} {op : Operation}

/-- What is reported about a version where another one is kept. -/
def versionConflict (name kept version : String) : String :=
  s!"Property '{name}' aligned to both '{kept}' and '{version}'; keeping '{kept}'"

def versionConflict? (known : Option String) (name version : String) : Option String :=
  known.bind fun kept => if kept = version then none else some (versionConflict name kept version)

/-- What is reported about an edit where another one is kept. -/
def editConflict (kept op : Operation) : String :=
  s!"Conflicting edit of {op.path} in {op.target}: keeping '{optionText kept.value}'"

def editConflict? (known : Option Operation) (op : Operation) : Option String :=
  known.bind fun kept => if kept.value = op.value then none else some (editConflict kept op)

def addProperties (known : Option (OrderedMap String String)) (props : OrderedMap String String) :
    OrderedMap String String := (known.getD ∅).combine lastValue props

def appendEntries (known : Option (List ManagedEntry))
    (entries : List ManagedEntry) : List ManagedEntry :=
  known.getD [] ++ entries

section Updates

private theorem mergeUpdate_eq (r : AlignmentResult) (name version : String) :
    r.mergeUpdate name version = { r with
      updates := r.updates.insert name (firstValue (r.updates.get? name) version)
      warnings := r.warnings ++ (versionConflict? (r.updates.get? name) name version).toList } := by
  unfold mergeUpdate
  cases h : r.updates.get? name with
  | none =>
    rw [versionConflict?, Option.bind_none, Option.toList_none, List.append_nil]
    rfl
  | some kept =>
    have hs : r.updates.insert name (firstValue (some kept) version) = r.updates := insert_of_get? h
    rw [hs, versionConflict?, Option.bind_some]
    dsimp only
    by_cases hv : kept = version
    · rw [if_pos hv, if_pos hv, Option.toList_none, List.append_nil]
    · rw [if_neg hv, if_neg hv]
      rfl

/-- The conflicts of the versions that two results have for the same names. -/
def versionConflicts (known : OrderedMap String String)
    (l : List (String × String)) : List String :=
  l.filterMap fun (name, version) => versionConflict? (known.get? name) name version

theorem mem_versionConflicts {known : OrderedMap String String} {kept : String}
    {l : List (String × String)}
    (hk : known.get? name = some kept) (hm : (name, version) ∈ l) (hne : kept ≠ version) :
    versionConflict name kept version ∈ versionConflicts known l :=
  List.mem_filterMap.2 ⟨(name, version), hm, by simp [versionConflict?, hk, hne]⟩

private theorem foldl_mergeUpdate {l : List (String × String)} (hl : (l.map Prod.fst).Nodup)
    (r : AlignmentResult) :
    l.foldl (fun r (name, version) => r.mergeUpdate name version) r = { r with
      updates := r.updates.combine firstValue ⟨l, hl⟩
      warnings := r.warnings ++ versionConflicts r.updates l } := by
  induction l generalizing r with
  | nil => simp [combine, versionConflicts]
  | cons e l ih =>
    obtain ⟨name, version⟩ := e
    obtain ⟨hn, hl'⟩ : name ∉ l.map Prod.fst ∧ (l.map Prod.fst).Nodup := List.nodup_cons.1 hl
    -- The names of a result are different: what is added for one of them is not what another is
    -- compared with.
    have hlater :
      versionConflicts (r.updates.insert name (firstValue (r.updates.get? name) version)) l =
        versionConflicts r.updates l := by
      refine List.filterMap_congr fun entry hm => ?_
      obtain ⟨k, v⟩ := entry
      have hk : k ∈ l.map Prod.fst := List.mem_map_of_mem (f := Prod.fst) hm
      have hne : name ≠ k := fun he => hn (he ▸ hk)
      simp only [get?_insert, if_neg hne]
    have hcons : versionConflicts r.updates ((name, version) :: l) =
        (versionConflict? (r.updates.get? name) name version).toList ++
          versionConflicts r.updates l := by
      cases h : versionConflict? (r.updates.get? name) name version <;> simp [versionConflicts, h]
    change l.foldl _ (r.mergeUpdate name version) = _
    rw [ih hl', mergeUpdate_eq, hlater, hcons, List.append_assoc]
    rfl

end Updates

section Operations

private theorem rival?_eq_none_iff {operations : List Operation} :
    rival? operations op = none ↔ op.place ∉ operations.map Operation.place := by
  simp [rival?, Operation.place, List.find?_eq_none]

private theorem place_of_rival? {operations : List Operation} {kept : Operation}
    (h : rival? operations op = some kept) :
    kept ∈ operations ∧ kept.place = op.place := by
  have hp := List.find?_some h
  simp only [Bool.and_eq_true, decide_eq_true_eq] at hp
  exact ⟨List.mem_reverse.1 (List.mem_of_find?_eq_some h), Prod.ext hp.1 hp.2⟩

private theorem mergeOperation_eq (r : AlignmentResult) (op : Operation) :
    r.mergeOperation op = { r with
      operations := addNew Operation.place r.operations op
      warnings := r.warnings ++ (editConflict? (rival? r.operations op) op).toList } := by
  unfold mergeOperation
  cases h : rival? r.operations op with
  | none =>
    rw [addNew_of_notMem (rival?_eq_none_iff.1 h), editConflict?,
      Option.bind_none, Option.toList_none,
      List.append_nil]
  | some kept =>
    obtain ⟨hm, hp⟩ := place_of_rival? h
    rw [addNew_of_mem (List.mem_map.2 ⟨kept, hm, hp⟩), editConflict?, Option.bind_some]
    dsimp only
    by_cases hv : kept.value = op.value
    · rw [if_pos hv, if_pos hv, Option.toList_none, List.append_nil]
    · rw [if_neg hv, if_neg hv]
      rfl

/-- The edit that counts for a place is the one that was there, else the first of those that are
merged. -/
def keptEdit? (known merged : List Operation) (op : Operation) : Option Operation :=
  (rival? known op).or (merged.find? fun o => o.place = op.place)

def editConflicts (known merged : List Operation) : List String :=
  merged.filterMap fun op => editConflict? (keptEdit? known merged op) op

private theorem rival?_addNew (known : List Operation) (o op : Operation) :
    rival? (addNew Operation.place known o) op =
      (rival? known op).or (if o.place = op.place then some o else none) := by
  by_cases ho : o.place ∈ known.map Operation.place
  · rw [addNew_of_mem ho]
    split
    · next he =>
      have hs : (rival? known op).isSome := by
        rw [Option.isSome_iff_ne_none, ne_eq, rival?_eq_none_iff, ← he, not_not]
        exact ho
      rw [Option.or_of_isSome hs]
    · rw [Option.or_none]
  · rw [addNew_of_notMem ho, rival?, List.reverse_append]
    have hplace : (decide (o.target = op.target) && decide (o.path = op.path)) =
        decide (o.place = op.place) := by
      simp [Operation.place, Prod.ext_iff, Bool.decide_and]
    by_cases he : o.place = op.place
    · have hn : rival? known op = none := rival?_eq_none_iff.2 (he ▸ ho)
      simp [hplace, he, hn]
    · simp [hplace, he, rival?]

private theorem foldl_mergeOperation (l : List Operation) (r : AlignmentResult) :
    l.foldl mergeOperation r = { r with
      operations := keepFirst Operation.place r.operations l
      warnings := r.warnings ++ editConflicts r.operations l } := by
  induction l generalizing r with
  | nil => simp [keepFirst, editConflicts]
  | cons o l ih =>
    -- Places may be repeated here, so an edit may be compared with one that has just been added.
    have hkept : ∀ op, keptEdit? (addNew Operation.place r.operations o) l op =
        keptEdit? r.operations (o :: l) op := by
      intro op
      rw [keptEdit?, keptEdit?, rival?_addNew, Option.or_assoc, List.find?_cons]
      by_cases he : o.place = op.place <;> simp [he]
    have hfirst : editConflict? (keptEdit? r.operations (o :: l) o) o =
        editConflict? (rival? r.operations o) o := by
      cases h : rival? r.operations o <;> simp [keptEdit?, h, editConflict?]
    have hcons : editConflicts r.operations (o :: l) =
      (editConflict? (rival? r.operations o) o).toList ++
        editConflicts (addNew Operation.place r.operations o) l := by
      simp only [editConflicts, hkept, List.filterMap_cons, hfirst]
      cases editConflict? (rival? r.operations o) o <;> rfl
    rw [List.foldl_cons, mergeOperation_eq, ih, hcons, List.append_assoc]
    rfl

end Operations

section Parts

private theorem foldl_mergeProperties (l : List (String × OrderedMap String String))
    (r : AlignmentResult) :
    l.foldl (fun r (target, props) => r.mergeProperties target props) r = { r with
      newProperties :=
        l.foldl (fun m (target, props) => m.insert target (addProperties (m.get? target) props))
        r.newProperties } := by
  induction l generalizing r with
  | nil => rfl
  | cons e l ih => exact ih _

private theorem foldl_mergeInjected (l : List (String × List ManagedEntry)) (r : AlignmentResult) :
    l.foldl (fun r (target, entries) => r.mergeInjected target entries) r = { r with
      injected :=
        l.foldl (fun m (target, entries) => m.insert target (appendEntries (m.get? target) entries))
        r.injected } := by
  induction l generalizing r with
  | nil => rfl
  | cons e l ih => exact ih _

/-- Each part of a result is merged by itself, by its own rule. -/
theorem merge_eq (r s : AlignmentResult) : r.merge s =
    { updates := r.updates.combine firstValue s.updates
      operations := keepFirst Operation.place r.operations s.operations
      newProperties := r.newProperties.combine addProperties s.newProperties
      injected := r.injected.combine appendEntries s.injected
      warnings := r.warnings ++ s.warnings ++ versionConflicts r.updates s.updates.entries ++
        editConflicts r.operations s.operations } := by
  simp only [merge, foldl_mergeUpdate s.updates.distinct, foldl_mergeOperation,
    foldl_mergeProperties,
    foldl_mergeInjected]
  rfl

theorem get?_updates_merge (r s : AlignmentResult) (name : String) :
    (r.merge s).updates.get? name = (r.updates.get? name).or (s.updates.get? name) := by
  rw [merge_eq, get?_combine_firstValue]

/-- Merging makes up no edits. -/
theorem mem_operations_merge (h : op ∈ (r.merge s).operations) :
    op ∈ r.operations ∨ op ∈ s.operations := by
  rw [merge_eq] at h
  exact mem_of_mem_keepFirst h

/-- New properties are merged into nothing, or into those of the same POM, by the last value. -/
theorem addProperties_none (props : OrderedMap String String) : addProperties none props = props :=
  empty_combine grouping_lastValue props

private theorem grouping_addProperties : Grouping addProperties :=
  ⟨addProperties_none, fun known props later =>
    combine_combine grouping_lastValue (known.getD ∅) props later⟩

private theorem grouping_appendEntries : Grouping appendEntries :=
  ⟨fun _ => rfl, fun _ _ _ => (List.append_assoc ..).symm⟩

private theorem addProperties_again (known : Option (OrderedMap String String))
    (props : OrderedMap String String) :
    addProperties (some (addProperties known props)) props = addProperties known props :=
  combine_again_iff.2 fun _ _ _ => rfl

private theorem firstValue_again (known : Option String) (version : String) :
    firstValue (some (firstValue known version)) version = firstValue known version := rfl

private theorem appendEntries_again_iff {known : Option (List ManagedEntry)}
    {entries : List ManagedEntry} :
    appendEntries (some (appendEntries known entries)) entries =
      appendEntries known entries ↔ entries = [] := by
  rw [appendEntries, Option.getD_some, List.append_right_eq_self]

end Parts

section Sequences

private theorem operations_foldl_merge (results : List AlignmentResult) (r : AlignmentResult) :
    (results.foldl merge r).operations =
      keepFirst Operation.place r.operations (results.flatMap operations) := by
  induction results generalizing r with
  | nil => rfl
  | cons s results ih => rw [List.foldl_cons, ih, merge_eq, List.flatMap_cons, keepFirst_append]

private theorem updates_foldl_merge (results : List AlignmentResult) (r : AlignmentResult) :
    (results.foldl merge r).updates.entries =
      keepFirst Prod.fst r.updates.entries (results.flatMap fun s => s.updates.entries) := by
  induction results generalizing r with
  | nil => rfl
  | cons s results ih =>
    rw [List.foldl_cons, ih, merge_eq, entries_combine_firstValue,
      List.flatMap_cons, keepFirst_append]

/-- However many results are merged, and however they are grouped, the first edit of every place and
the first version of every name is kept, in the order in which they come first.  No place and no
name is lost, and later merges only add to them. -/
theorem merging_keeps_first_edits :
    (∀ results : List AlignmentResult,
      let total := results.foldl merge ∅
      let edits := results.flatMap operations
      let versions := results.flatMap fun r => r.updates.entries
      total.operations = firsts Operation.place edits ∧
      (∀ place, place ∈ total.operations.map Operation.place ↔ place ∈ edits.map Operation.place) ∧
      (total.operations.map Operation.place).Nodup ∧
      total.updates.entries = firsts Prod.fst versions ∧
      ∀ name, name ∈ total.updates.keys ↔ name ∈ versions.map Prod.fst) ∧
    (∀ r s : AlignmentResult, r.operations <+: (r.merge s).operations ∧
      r.updates.entries <+: (r.merge s).updates.entries) ∧
    ∀ r s t : AlignmentResult, { r.merge (s.merge t) with warnings := [] } =
      { (r.merge s).merge t with warnings := [] } := by
  refine ⟨fun results => ?_, fun r s => ?_, fun r s t => ?_⟩
  · intro total edits versions
    have ho : total.operations = firsts Operation.place edits :=
      (operations_foldl_merge results ∅).trans (keepFirst_nil _)
    have hu : total.updates.entries = firsts Prod.fst versions :=
      (updates_foldl_merge results ∅).trans (keepFirst_nil _)
    refine ⟨ho, fun place => ?_, ?_, hu, fun name => ?_⟩
    · rw [ho, mem_keys_firsts]
    · rw [ho]
      exact nodup_keys_firsts ..
    · rw [OrderedMap.keys, hu, mem_keys_firsts]
  · rw [merge_eq, entries_combine_firstValue]
    exact ⟨prefix_keepFirst .., prefix_keepFirst ..⟩
  · simp only [merge_eq, combine_combine grouping_firstValue,
      combine_combine grouping_addProperties,
      combine_combine grouping_appendEntries, keepFirst_keepFirst, keepFirst_append]

end Sequences

section Repetitions
open ModuleAlignment

private theorem get?_addProperties (known : Option (OrderedMap String String))
    (props : OrderedMap String String)
    (name : String) :
    (addProperties known props).get? name =
      (props.get? name).or (known.bind fun known => known.get? name) := by
  rw [addProperties, get?_combine_lastValue]
  cases known <;> rfl

theorem newValue?_merge (r s : AlignmentResult) (target name : String) :
    newValue? (r.merge s) target name = (newValue? s target name).or (newValue? r target name) := by
  rw [merge_eq, newValue?, newValue?, newValue?, get?_combine]
  cases s.newProperties.get? target with
  | none => rfl
  | some props => exact get?_addProperties ..

private theorem merge_merge_injected_iff : ((r.merge s).merge s).injected = (r.merge s).injected ↔
    ∀ target entries, s.injected.get? target = some entries → entries = [] := by
  simp only [merge_eq, combine_again_iff, appendEntries_again_iff]

/-- The first decision counts for versions and edits, and warnings are given for these alone.  Of
new properties the last value counts.  What is merged a second time changes nothing but the
warnings, unless it has entries to be added to the dependency management: these are added again. -/
theorem merging_overwrites_new_properties (r s : AlignmentResult) : let merged := r.merge s
    (∀ name, merged.updates.get? name = (r.updates.get? name).or (s.updates.get? name)) ∧
    (∀ place, merged.operations.find? (fun op => op.place = place) =
      (r.operations.find? fun op => op.place = place).or
        (s.operations.find? fun op => op.place = place)) ∧
    merged.warnings = r.warnings ++ s.warnings ++ versionConflicts r.updates s.updates.entries ++
      editConflicts r.operations s.operations ∧
    (∀ target name, newValue? merged target name =
      (newValue? s target name).or (newValue? r target name)) ∧
    (∀ target name, newValue? merged target name = newValue? r target name ↔
      newValue? s target name = none ∨ newValue? s target name = newValue? r target name) ∧
    (merged.merge s).updates = merged.updates ∧ (merged.merge s).operations = merged.operations ∧
    (merged.merge s).newProperties = merged.newProperties ∧
    ((merged.merge s).injected = merged.injected ↔
      ∀ target entries, s.injected.get? target = some entries → entries = []) := by
  intro merged
  have hm : merged = r.merge s := rfl
  have hplaces : ∀ op ∈ s.operations, op.place ∈ merged.operations.map Operation.place := by
    intro op hop
    rw [hm, merge_eq]
    exact mem_keys_keepFirst.2 (.inr (List.mem_map_of_mem hop))
  refine ⟨get?_updates_merge r s, fun place => ?_,
    congrArg warnings (merge_eq r s), newValue?_merge r s,
    fun target name => ?_, ?_, ?_, ?_, merge_merge_injected_iff⟩
  · rw [hm, merge_eq, ← List.find?_append]
    exact find?_keepFirst Operation.place (fun p => decide (p = place)) ..
  · rw [hm, newValue?_merge]
    cases newValue? s target name <;> simp
  · simp only [hm, merge_eq, combine_again_iff, firstValue_again, implies_true]
  · rw [merge_eq]
    exact keepFirst_of_known hplaces
  · simp only [hm, merge_eq, combine_again_iff, addProperties_again, implies_true]

/-- A property that is to be added to a POM, and another version of it with an entry to be added. -/
def firstAddition : AlignmentResult := { (∅ : AlignmentResult) with
  newProperties := .ofList [("pom.xml", .ofList [("v", "1.0")])] }

def laterAddition : AlignmentResult := { (∅ : AlignmentResult) with
  newProperties := .ofList [("pom.xml", .ofList [("v", "2.0")])]
  injected := .ofList [("pom.xml", [⟨"g", "c", some "1.0"⟩])] }

/-- New properties need not keep their values, nor is anything said about it, and what is merged a
second time need not leave everything as it is. -/
theorem not_every_first_decision_is_kept :
    (¬ ∀ (r s : AlignmentResult) (target name value : String),
      newValue? r target name = some value →
      newValue? (r.merge s) target name = some value ∧
      ((∃ other, newValue? s target name = some other ∧ other ≠ value) →
        (r.merge s).warnings ≠ r.warnings ++ s.warnings)) ∧
    ¬ ∀ r s : AlignmentResult, { (r.merge s).merge s with warnings := [] } =
      { r.merge s with warnings := [] } := by
  constructor
  · intro h
    have hv := (h firstAddition laterAddition "pom.xml" "v" "1.0" (by decide)).1
    rw [newValue?_merge] at hv
    revert hv
    decide
  · intro h
    have hi := congrArg injected (h firstAddition laterAddition)
    have hg : laterAddition.injected.get? "pom.xml" = some [⟨"g", "c", some "1.0"⟩] := by decide
    cases merge_merge_injected_iff.1 hi "pom.xml" _ hg

end Repetitions

end AlignmentResult
end BuildAlign
