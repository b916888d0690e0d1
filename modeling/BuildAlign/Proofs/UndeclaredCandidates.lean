import BuildAlign.Proofs.AlignmentAccount
import BuildAlign.Proofs.KeyedMerges

/-! # Candidates for undeclared dependencies

A module may receive the candidates for dependencies that it does not declare, the first candidate
for each, in their order.  Only the dependencies that are aligned count as declared.  Where direct
ones are not aligned, a candidate for such a dependency is received as well. -/
namespace BuildAlign.KeyedList

variable {α β κ : Type} [DecidableEq κ]

private theorem firsts_map (key : β → κ) (f : α → β) (l : List α) :
    firsts key (l.map f) = (firsts (key ∘ f) l).map f := by
  rw [firsts, firsts, List.map_map, List.map_filterMap]
  exact List.filterMap_congr fun k _ => List.find?_map ..

end BuildAlign.KeyedList

namespace BuildAlign.OrderedMap
variable {κ α : Type} [DecidableEq κ]

private theorem entries_insertIfNew (m : OrderedMap κ α) (key : κ) (value : α) :
    (m.insertIfNew key value).entries = KeyedList.addNew Prod.fst m.entries (key, value) := by
  have hc : m.contains key = true ↔ key ∈ m.keys := mem_keys_iff.symm
  unfold insertIfNew
  by_cases hk : key ∈ m.keys
  · rw [if_pos (hc.2 hk)]
    exact (KeyedList.addNew_of_mem hk).symm
  · rw [if_neg (mt hc.1 hk)]
    exact (put_of_notMem hk value).trans (KeyedList.addNew_of_notMem hk).symm

/-- Values that are added under new names only are the first ones of their names. -/
theorem entries_foldl_insertIfNew (name : α → κ) (l : List α) :
    (l.foldl (fun m x => m.insertIfNew (name x) x) (∅ : OrderedMap κ α)).entries =
      (KeyedList.firsts name l).map fun x => (name x, x) := by
  have hkeep : ∀ m : OrderedMap κ α, (l.foldl (fun m x => m.insertIfNew (name x) x) m).entries =
      KeyedList.keepFirst Prod.fst m.entries (l.map fun x => (name x, x)) := by
    induction l with
    | nil => exact fun _ => rfl
    | cons x l ih =>
      intro m
      rw [List.foldl_cons, ih, entries_insertIfNew]
      rfl
  have hnil : (∅ : OrderedMap κ α).entries = [] := rfl
  rw [hkeep, hnil, KeyedList.keepFirst_nil, KeyedList.firsts_map]
  rfl

end BuildAlign.OrderedMap

namespace BuildAlign.ModuleAlignment
open KeyedList

variable {settings : AlignmentSettings} {m : PomModule} {scope : PropertyScope} {d : Dependency}
  {r r' : AlignmentResult} {v : Verdict}

section Candidates

/-- The candidates for dependencies that are not in the list: the first one for each of them, in
their order. -/
def candidatesBeyond (settings : AlignmentSettings) (deps : List Dependency) :
    List VersionReference :=
  (firsts VersionReference.ga settings.candidates).filter fun c => c.ga ∉ deps.map Dependency.ga

/-- The entry that a candidate becomes. -/
def entryOf (c : VersionReference) : ManagedEntry := ⟨c.group, c.artifact, some c.version⟩

/-- What is received of a list of candidates: nothing at all if there is none. -/
def received (candidates : List VersionReference) : Option (List ManagedEntry) :=
  if candidates = [] then none else some (candidates.map entryOf)

theorem undeclared_eq (settings : AlignmentSettings) (m : PomModule) :
    undeclared settings m = (candidatesBeyond settings (considered settings m)).map entryOf := by
  have hentries : settings.managed.entries =
      (firsts VersionReference.ga settings.candidates).map fun c => (c.ga, c) :=
    OrderedMap.entries_foldl_insertIfNew VersionReference.ga settings.candidates
  simp only [undeclared, hentries, List.filter_map, List.map_map,
    candidatesBeyond, Function.comp_def,
    List.contains_eq_mem, decide_not]
  rfl

private theorem entryOf_injective : Function.Injective entryOf := by
  rintro ⟨group, artifact, version⟩ ⟨group', artifact', version'⟩ h
  cases h
  rfl

private theorem received_injective : Function.Injective received := by
  intro l l' h
  unfold received at h
  split at h <;> split at h
  · next hl hl' => rw [hl, hl']
  · cases h
  · cases h
  · exact List.map_injective_iff.2 entryOf_injective (Option.some.inj h)

private theorem mem_candidatesBeyond {c : VersionReference} {deps : List Dependency} :
    c ∈ candidatesBeyond settings deps ↔
      c ∈ firsts VersionReference.ga settings.candidates ∧ c.ga ∉ deps.map Dependency.ga := by
  rw [candidatesBeyond, List.mem_filter, decide_eq_true_iff]

/-- More dependencies leave the same candidates if and only if no candidate is for one of the others
alone. -/
theorem candidatesBeyond_append_iff (deps others : List Dependency) :
    candidatesBeyond settings deps = candidatesBeyond settings (deps ++ others) ↔
      ∀ c ∈ settings.candidates, c.ga ∈ others.map Dependency.ga →
        c.ga ∈ deps.map Dependency.ga := by
  constructor
  · intro h c hc ho
    obtain ⟨first, hf, he⟩ :=
      List.mem_map.1 (mem_keys_firsts.2 (List.mem_map_of_mem (f := VersionReference.ga) hc))
    by_contra hn
    have hm := mem_candidatesBeyond.2 ⟨hf, he ▸ hn⟩
    rw [h, mem_candidatesBeyond, List.map_append, he] at hm
    exact hm.2 (List.mem_append_right _ ho)
  · intro h
    refine List.filter_congr fun c hc => ?_
    obtain ⟨c', hc', he⟩ :=
      List.mem_map.1 (mem_keys_firsts.1 (List.mem_map_of_mem (f := VersionReference.ga) hc))
    have hk := h c' hc'
    rw [he] at hk
    rw [List.map_append, decide_eq_decide, List.mem_append, not_or]
    exact ⟨fun hn => ⟨hn, mt hk hn⟩, fun hn => hn.1⟩

end Candidates

section Results

private theorem changeLiteral_injected (settings : AlignmentSettings) (m : PomModule)
    (d : Dependency) (decided : String)
    (r : AlignmentResult) : (changeLiteral settings m d decided r).injected = r.injected := by
  unfold changeLiteral
  cases settings.format.propertyName? d.group d.artifact <;> rfl

/-- No candidate is received for what is decided about a dependency. -/
theorem Recorded.injected_eq (h : Recorded settings m scope d r v r') :
    r'.injected = r.injected := by
  cases h with
  | literal edited => exact changeLiteral_injected ..
  | _ => rfl

theorem alignAll_injected {ds : List Dependency} (h : (alignAll settings m scope ds r).1 = .ok r') :
    r'.injected = r.injected := by
  induction ds generalizing r with
  | nil => cases h; rfl
  | cons d ds ih => exact (ih (alignAll_cons_ok h).2).trans (recorded_record ..).injected_eq

private theorem get?_inject (h : r.injected = ∅) :
    (inject settings m r).injected.get? m.target =
      received (candidatesBeyond settings (considered settings m)) := by
  unfold inject
  rw [undeclared_eq]
  cases hc : candidatesBeyond settings (considered settings m) with
  | nil => rw [List.map_nil, h]; rfl
  | cons c rest => simp [received]

/-- What a module receives, where it is to receive candidates. -/
theorem get?_injected {inherited : PropertyScope} (transitive : settings.overrideTransitive = true)
    (aligned : (align settings m true inherited).1 = .ok r) :
    r.injected.get? m.target = received (candidatesBeyond settings (considered settings m)) := by
  obtain ⟨r₀, hr, rfl⟩ := align_eq_ok_iff.1 aligned
  have hnone : r₀.injected = ∅ := alignAll_injected hr
  rw [transitive, Bool.and_self, Bool.and_true]
  cases he : settings.isEnabled with
  | true => exact get?_inject hnone
  | false =>
    have hc : settings.candidates = [] := by simpa [AlignmentSettings.isEnabled] using he
    have hb : candidatesBeyond settings (considered settings m) = [] := by
      rw [candidatesBeyond, hc]; rfl
    rw [if_neg Bool.false_ne_true, hnone, hb]
    rfl

end Results

/-- A module receives the candidates for dependencies that are not among those considered.  These
are the ones it does not declare if and only if direct dependencies are considered, or no candidate
is for one that is not managed as well. -/
theorem receives_undeclared_iff {inherited : PropertyScope}
    (transitive : settings.overrideTransitive = true)
    (aligned : (align settings m true inherited).1 = .ok r) :
    r.injected.get? m.target = received (candidatesBeyond settings (considered settings m)) ∧
    (r.injected.get? m.target =
      received (candidatesBeyond settings (m.management ++ m.dependencies)) ↔
      settings.overrideDependencies = true ∨
        ∀ c ∈ settings.candidates, c.ga ∈ m.dependencies.map Dependency.ga →
          c.ga ∈ m.management.map Dependency.ga) := by
  have hr := get?_injected transitive aligned
  refine ⟨hr, ?_⟩
  rw [hr, received_injective.eq_iff, considered]
  cases settings.overrideDependencies with
  | true => exact iff_of_true rfl (.inl rfl)
  | false =>
    rw [if_neg Bool.false_ne_true, List.append_nil, candidatesBeyond_append_iff,
      or_iff_right Bool.false_ne_true]

/-- One dependency that is managed and one that is not. -/
def halfManaged : PomModule where
  group := "g"
  artifact := "m"
  version := none
  parentGroup := none
  parentArtifact := none
  properties := ∅
  dependencies := [⟨"g", "b", some "1.0", "compile", none, some "dependencies/dependency[0]"⟩]
  management := [
    ⟨"g", "a", some "1.0", "compile", none, some "dependencyManagement/dependencies/dependency[0]"⟩]
  modules := []
  directory := none

/-- Candidates for both and two for a third one, while direct dependencies are not aligned. -/
def managedAlone : AlignmentSettings where
  candidates := [⟨"g", "c", "1.0"⟩, ⟨"g", "b", "2.0"⟩, ⟨"g", "c", "3.0"⟩, ⟨"g", "a", "1.0"⟩]
  overrideTransitive := true
  overrideDependencies := false
  strict := false
  violationFails := false
  format := .literal
  exclusions := []

def halfManagedResult : AlignmentResult where
  updates := ∅
  operations := []
  newProperties := ∅
  injected := .ofList [("pom.xml", [⟨"g", "c", some "1.0"⟩, ⟨"g", "b", some "2.0"⟩])]
  warnings := []

private theorem align_halfManaged :
    (align managedAlone halfManaged true ∅).1 = .ok halfManagedResult := by
  decide +kernel

theorem receives_undeclared_iff_halfManaged :
    (align managedAlone halfManaged true ∅).1 = .ok halfManagedResult ∧
    halfManagedResult.injected.get? "pom.xml" =
      received (candidatesBeyond managedAlone (considered managedAlone halfManaged)) ∧
    (halfManagedResult.injected.get? "pom.xml" =
        received (candidatesBeyond managedAlone
          (halfManaged.management ++ halfManaged.dependencies)) ↔
      managedAlone.overrideDependencies = true ∨
        ∀ c ∈ managedAlone.candidates, c.ga ∈ halfManaged.dependencies.map Dependency.ga →
          c.ga ∈ halfManaged.management.map Dependency.ga) :=
  ⟨align_halfManaged, receives_undeclared_iff rfl align_halfManaged⟩

/-- A module may receive a candidate for a dependency that it declares. -/
theorem not_only_undeclared_received :
    ¬ ∀ (settings : AlignmentSettings) (m : PomModule) (inherited : PropertyScope)
      (r : AlignmentResult),
      settings.isEnabled = true → settings.overrideTransitive = true →
      (align settings m true inherited).1 = .ok r →
      r.injected.get? m.target =
        received (candidatesBeyond settings (m.management ++ m.dependencies)) := by
  intro h
  have he := h managedAlone halfManaged ∅ halfManagedResult rfl rfl align_halfManaged
  revert he
  decide +kernel

end BuildAlign.ModuleAlignment
