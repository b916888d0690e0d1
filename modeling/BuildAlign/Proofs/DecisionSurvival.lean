import BuildAlign.Proofs.AlignmentAccount
import BuildAlign.Proofs.ReferenceSources

/-! # Decisions after the edits

A decision about a dependency is worth something only if the version still is the one decided on
when all edits of the module have been made.  Without warnings, this can fail in one way: a
dependency that is left alone takes its version from a property that is changed for another
dependency. -/
namespace BuildAlign.ModuleAlignment
open PropertyReferences

section Application

/-- What operations leave at a place that holds a value. -/
def valueAfter (target path : String) (ops : List Operation)
    (value : Option String) : Option String :=
  ops.foldl (fun value op => if op.target = target ∧ op.path = path then op.value else value) value

def definitionAfter (ops : List Operation) (name : String) (definition : Definition) : Definition :=
  { definition with
    value := (valueAfter definition.owner (propertyPath name) ops (some definition.value)).getD
      definition.value }

/-- The scope once the operations are applied to the POMs that define its properties. -/
def scopeAfter (ops : List Operation) (scope : PropertyScope) : PropertyScope :=
  scope.mapEntries (definitionAfter ops)

/-- The version that is declared for a dependency once the operations are applied. -/
def declaredAfter (ops : List Operation) (m : PomModule) (d : Dependency) : Option String :=
  valueAfter m.target (versionPath d) ops d.version

/-- The version that a dependency has once the operations are applied. -/
def versionAfter (ops : List Operation) (m : PomModule) (scope : PropertyScope) (d : Dependency) :
    Option String :=
  (declaredAfter ops m d).bind (resolve (scopeAfter ops scope).values)

variable {target path : String} {new value : Option String} {ops : List Operation}

private theorem valueAfter_cons (op : Operation) (ops : List Operation) :
    valueAfter target path (op :: ops) value =
      valueAfter target path ops (if op.target = target ∧
        op.path = path then op.value else value) := rfl

private theorem valueAfter_of_elsewhere (h : ∀ op ∈ ops, op.target = target → op.path ≠ path) :
    valueAfter target path ops value = value := by
  induction ops with
  | nil => rfl
  | cons op ops ih =>
    rw [List.forall_mem_cons] at h
    rw [valueAfter_cons, if_neg fun ht => h.1 ht.1 ht.2, ih h.2]

/-- A place that has the value on which operations agree keeps it. -/
theorem valueAfter_of_agreed
    (h : ∀ op ∈ ops, op.target = target → op.path = path → op.value = new) :
    valueAfter target path ops new = new := by
  induction ops with
  | nil => rfl
  | cons op ops ih =>
    rw [List.forall_mem_cons] at h
    rw [valueAfter_cons]
    split
    · next hs => rw [h.1 hs.1 hs.2, ih h.2]
    · exact ih h.2

/-- Operations that agree leave their value at the place. -/
theorem valueAfter_of_mem (h : ∀ op ∈ ops, op.target = target → op.path = path → op.value = new)
    {op : Operation} (hm : op ∈ ops) (ht : op.target = target) (hp : op.path = path) :
    valueAfter target path ops value = new := by
  induction ops generalizing value with
  | nil => cases hm
  | cons op' ops ih =>
    rw [List.forall_mem_cons] at h
    rw [valueAfter_cons]
    rcases List.mem_cons.1 hm with rfl | hm
    · rw [if_pos ⟨ht, hp⟩, h.1 ht hp, valueAfter_of_agreed h.2]
    · exact ih h.2 hm

end Application

/-- Neither a candidate nor an exclusion has a version that mentions a reference. -/
structure PlainVersions (settings : AlignmentSettings) : Prop where
  candidates : ∀ c ∈ settings.candidates, mentionsReference c.version.toList = false
  exclusions : ∀ e ∈ settings.exclusions, mentionsReference e.version.toList = false

/-- The version that a dependency is to have in the end, if alignment is about it: that of its
exclusion, the one it has when the exclusion leaves it alone, and that of its candidate
otherwise. -/
def intended? (settings : AlignmentSettings) (m : PomModule)
    (scope : PropertyScope) (d : Dependency) :
    Option String :=
  match settings.managed.get? d.ga, d.version with
  | none, _ | _, none | _, some "" => none
  | some reference, some version =>
    if d.isImport then none
    else match settings.exclusionFor d.ga m.ga with
      | none => some reference.version
      | some exclusion =>
        if exclusion.version = "" then resolve scope.values version else some exclusion.version

/-- The verdicts about dependencies that keep the version they have. -/
def Spared (v : Verdict) : Prop := v = .excluded ∨ v = .upToDate

/-- The property that the version of a dependency comes from is not set to another version. -/
def Undisturbed (scope : PropertyScope) (r : AlignmentResult) (d : Dependency) : Prop :=
  ∀ version name decided, d.version = some version → source? scope.values version = some name →
    r.updates.get? name = some decided → resolve scope.values version = some decided

variable {settings : AlignmentSettings} {m : PomModule} {scope : PropertyScope} {d : Dependency}
  {r : AlignmentResult}

section Values

private theorem get?_values (scope : PropertyScope) (name : String) :
    scope.values.get? name = (scope.get? name).map fun definition => some definition.value :=
  OrderedMap.get?_mapValues _ scope name

private theorem valued_values (scope : PropertyScope) : Valued scope.values := by
  intro name value h
  rw [get?_values] at h
  obtain ⟨definition, -, rfl⟩ := Option.map_eq_some_iff.1 h
  rfl

private theorem contains_values (scope : PropertyScope) (name : String) :
    scope.values.contains name = scope.contains name := by
  simp [OrderedMap.contains, get?_values]

private theorem value?_values (scope : PropertyScope) (name : String) :
    PropertyMap.value? scope.values name = (scope.get? name).map Definition.value := by
  rw [value?_eq, get?_values]
  cases scope.get? name <;> rfl

theorem resolve_eq (scope : PropertyScope) (version : String) :
    resolve scope.values version = some (currentVersion scope version) := by
  obtain ⟨current, h⟩ := lastValue_isSome (valued_values scope) (longestChain + 1) version
  rw [currentVersion, resolve, h]
  rfl

/-- The source of a version is a property of the scope that has this version. -/
theorem definition_of_source {version name : String}
    (h : source? scope.values version = some name) :
    ∃ definition, scope.get? name = some definition ∧
      definition.value = currentVersion scope version := by
  have hval := lastValue_of_lastSource (valued_values scope) h
  rw [value?_values] at hval
  exact Option.map_eq_some_iff.1 (hval.symm.trans (resolve_eq scope version))

private theorem resolve_plain {props : PropertyMap} {text : String}
    (h : mentionsReference text.toList = false) :
    resolve props text = some text := by
  have hr := reference?_eq_none h
  simp [resolve, lastValue, hr]

end Values

section Decided

/-- The candidate for a dependency is the first one that is declared. -/
theorem get?_managed (settings : AlignmentSettings) (ga : String) :
    settings.managed.get? ga = settings.candidates.find? fun c => c.ga = ga :=
  OrderedMap.get?_foldl_insertIfNew VersionReference.ga settings.candidates ∅ ga

private theorem mem_candidates_of_managed {reference : VersionReference} {ga : String}
    (h : settings.managed.get? ga = some reference) : reference ∈ settings.candidates := by
  rw [get?_managed] at h
  exact List.mem_of_find?_eq_some h

private theorem mem_exclusions_of_exclusionFor {exclusion : Exclusion} {ga module : String}
    (h : settings.exclusionFor ga module = some exclusion) : exclusion ∈ settings.exclusions := by
  simp only [AlignmentSettings.exclusionFor, Option.orElse_eq_orElse, Option.orElse_eq_or,
    Option.or_eq_some_iff] at h
  rcases h with h | ⟨-, h⟩
  · exact (List.mem_filter.1 (List.mem_of_find?_eq_some h)).1
  · exact (List.mem_filter.1 (List.mem_reverse.1 (List.mem_of_find?_eq_some h))).1

private theorem plain_of_decided? (hp : PlainVersions settings)
    {reference : VersionReference} {decided : String}
    {strict : Bool} (hm : settings.managed.get? d.ga = some reference)
    (h : decided? settings m reference d = some (decided, strict)) :
    mentionsReference decided.toList = false := by
  unfold decided? at h
  split at h
  · cases h; exact hp.candidates _ (mem_candidates_of_managed hm)
  · next exclusion he =>
    split at h
    · cases h
    · cases h; exact hp.exclusions _ (mem_exclusions_of_exclusionFor he)

/-- What is intended for a dependency that alignment is about. -/
theorem Concerned.intended?_eq {reference : VersionReference} {version : String}
    (h : Concerned settings d reference version) (m : PomModule) (scope : PropertyScope) :
    intended? settings m scope d =
      match decided? settings m reference d with
      | none => some (currentVersion scope version)
      | some (decided, _) => some decided := by
  unfold intended?
  rw [h.managed, h.declared]
  split
  · contradiction
  · contradiction
  · next he _ => exact absurd (Option.some.inj he) h.nonempty
  · next hv hr =>
    cases Option.some.inj hr
    cases Option.some.inj hv
    rw [if_neg (by simp [h.ordinary]), resolve_eq]
    unfold decided?
    cases settings.exclusionFor d.ga m.ga with
    | none => rfl
    | some exclusion => by_cases he : exclusion.version = "" <;> simp [he]

private theorem concerned_of_intended? {v : String} (h : intended? settings m scope d = some v) :
    ∃ reference version, Concerned settings d reference version := by
  unfold intended? at h
  split at h
  · cases h
  · cases h
  · cases h
  · next reference version hn hm hv =>
    cases hd : d.isImport with
    | true => simp [hd] at h
    | false => exact ⟨reference, version, hm, hv, hn, hd⟩

end Decided

section Edited
variable {deps : List Dependency} {name decided : String}

theorem Changes.plain (h : Changes settings m scope d (some name) decided)
    (hp : PlainVersions settings) : mentionsReference decided.toList = false := by
  obtain ⟨current, hv⟩ := h.decision
  obtain ⟨reference, version, strict, hc, hd, -⟩ := change_spec hv
  exact plain_of_decided? hp hc.managed hd

/-- The property that is edited for a dependency is in scope, and its version comes from there. -/
theorem Changes.source (h : Changes settings m scope d (some name) decided) :
    ∃ version definition, d.version = some version ∧ source? scope.values version = some name ∧
      scope.get? name = some definition ∧ mentionsReference definition.value.toList = false := by
  obtain ⟨current, hv⟩ := h.decision
  obtain ⟨reference, version, strict, hc, -, hcur, hm, ho, -⟩ := change_spec hv
  have hn : resolveName scope.values version = some name := by
    have he := h.edited
    rwa [editedName?, hc.declared, Option.bind_some] at he
  have hin : scope.contains name = true := by simpa [refersOutside, hn] using ho
  have hr : lastValue scope.values (longestChain + 1) version = some current := by
    rw [hcur]; exact resolve_eq scope version
  have hs :=
    lastSource_of_lastName (valued_values scope) hn (by rw [contains_values]; exact hin) hr hm
  obtain ⟨definition, hg, hval⟩ := definition_of_source hs
  refine ⟨version, definition, hc.declared, hs, hg, ?_⟩
  rw [hval, ← hcur]
  exact hm

/-- The property that is edited has the version of the dependency. -/
theorem Changes.value_property (h : Changes settings m scope d (some name) decided) :
    ∃ version definition, d.version = some version ∧ scope.get? name = some definition ∧
      definition.value = currentVersion scope version := by
  obtain ⟨version, -, hv, hs, -⟩ := h.source
  obtain ⟨definition, hg, hcur⟩ := definition_of_source hs
  exact ⟨version, definition, hv, hg, hcur⟩

/-- So does a declaration that is edited itself. -/
theorem Changes.value_literal (h : Changes settings m scope d none decided) :
    ∃ version, d.version = some version ∧ currentVersion scope version = version := by
  obtain ⟨current, hverdict⟩ := h.decision
  obtain ⟨reference, version, strict, hc, -⟩ := change_spec hverdict
  have hn : resolveName scope.values version = none := by
    have he := h.edited
    rwa [editedName?, hc.declared, Option.bind_some] at he
  refine ⟨version, hc.declared, ?_⟩
  rw [currentVersion, resolve_of_resolveName hn, Option.getD_some]

private theorem value_of_path (account : Account settings m scope deps r) (located : Located deps)
    {op : Operation} (hm : op ∈ r.operations) (hp : op.path = propertyPath name) :
    op.value = r.updates.get? name ∧ (r.updates.get? name).isSome := by
  obtain ⟨decided, hu, rfl⟩ := account.propertyEdit_of_path located.apart hm hp
  rw [hu]
  exact ⟨rfl, rfl⟩

/-- The edits set a property to its new version, and leave the others. -/
theorem valueAfter_property (account : Account settings m scope deps r) (located : Located deps)
    {definition : Definition} (hg : scope.get? name = some definition) :
    valueAfter definition.owner (propertyPath name) r.operations (some definition.value) =
      some ((r.updates.get? name).getD definition.value) := by
  cases hu : r.updates.get? name with
  | none =>
    refine valueAfter_of_elsewhere fun op hm _ hp => ?_
    have hs := (value_of_path account located hm hp).2
    rw [hu] at hs
    cases hs
  | some decided =>
    have hown : ownerOf m scope name = definition.owner := by simp [ownerOf, hg]
    refine valueAfter_of_mem (fun op hm _ hp => ?_) (account.posted name decided hu).1 hown rfl
    exact (value_of_path account located hm hp).1.trans hu

private theorem get?_scopeAfter (account : Account settings m scope deps r) (located : Located deps)
    (name : String) :
    (scopeAfter r.operations scope).get? name =
      (scope.get? name).map fun definition =>
        { definition with value := (r.updates.get? name).getD definition.value } := by
  rw [scopeAfter, OrderedMap.get?_mapEntries]
  cases hg : scope.get? name with
  | none => rfl
  | some definition => simp [definitionAfter, valueAfter_property account located hg]

private theorem reset_scopeAfter (plain : PlainVersions settings)
    (account : Account settings m scope deps r)
    (located : Located deps) : Reset scope.values (scopeAfter r.operations scope).values := by
  constructor
  · intro name
    rw [contains_values, contains_values, OrderedMap.contains, OrderedMap.contains,
      get?_scopeAfter account located, Option.isSome_map]
  · intro name
    rw [value?_values, value?_values, get?_scopeAfter account located, Option.map_map]
    cases hu : r.updates.get? name with
    | none => left; rfl
    | some decided =>
      right
      obtain ⟨-, e, -, hc⟩ := account.posted name decided hu
      obtain ⟨version, definition, -, -, hg, hm⟩ := hc.source
      exact ⟨definition.value, decided, by simp [hg], by simp [hg], hm, hc.plain plain⟩

/-- A version that does not take another one's place stays as declared. -/
theorem declaredAfter_of_kept (account : Account settings m scope deps r) (located : Located deps)
    (hd : d ∈ deps) (h : ∀ decided, ¬ Changes settings m scope d none decided) :
    declaredAfter r.operations m d = d.version := by
  refine valueAfter_of_elsewhere fun op hm _ hp => ?_
  rcases account.traced op hm with ⟨name, decided, -, rfl⟩ | ⟨e, he, decided, hc, rfl⟩
  · exact located.apart d hd name hp.symm
  · rw [located.eq_of_path he hd hp] at hc
    exact h decided hc

private theorem declaredAfter_of_literal (format : settings.format = .literal)
    (account : Account settings m scope deps r) (located : Located deps) (hd : d ∈ deps)
    (hc : Changes settings m scope d none decided)
    (hm : literalEdit settings m d decided ∈ r.operations) :
    declaredAfter r.operations m d = some decided := by
  refine valueAfter_of_mem (fun op hm _ hp => ?_) hm rfl rfl
  rcases account.traced op hm with ⟨name, decided, -, rfl⟩ | ⟨e, he, decided', hc', rfl⟩
  · exact absurd hp.symm (located.apart d hd name)
  · rw [located.eq_of_path he hd hp] at hc'
    obtain ⟨_, hv⟩ := hc.decision
    obtain ⟨_, hv'⟩ := hc'.decision
    rw [hv] at hv'
    cases hv'
    exact congrArg some (literalValue_eq format e decided)

/-- The version of a dependency that keeps its declaration: what its source is set to, or what it
was. -/
theorem versionAfter_of_kept (plain : PlainVersions settings)
    (account : Account settings m scope deps r)
    (located : Located deps) (hd : d ∈ deps)
    (h : ∀ decided, ¬ Changes settings m scope d none decided)
    {version : String} (hv : d.version = some version) :
    versionAfter r.operations m scope d =
      match (source? scope.values version).bind r.updates.get? with
      | some decided => some decided
      | none => resolve scope.values version := by
  have hr := reset_scopeAfter plain account located
  rw [versionAfter, declaredAfter_of_kept account located hd h, hv, Option.bind_some,
    hr.resolve_eq (valued_values _) (valued_values _)]
  cases hs : source? scope.values version with
  | none => rfl
  | some name =>
    obtain ⟨definition, hg, he⟩ := definition_of_source hs
    have hcur := resolve_eq scope version
    rw [← he] at hcur
    simp only [value?_values, get?_scopeAfter account located, hg, Option.map_some,
      Option.bind_some, hcur]
    cases r.updates.get? name <;> rfl

/-- A dependency whose version is to change has the version that was decided on. -/
theorem versionAfter_of_change (format : settings.format = .literal)
    (plain : PlainVersions settings)
    (account : Account settings m scope deps r) (located : Located deps)
    (hd : d ∈ deps) {current : String}
    (hv : verdict settings m scope d = .change decided current)
    (seen : SeenTo settings m scope r d (.change decided current)) :
    versionAfter r.operations m scope d = some decided := by
  simp only [SeenTo] at seen
  split at seen
  · next name he =>
    have hc : Changes settings m scope d (some name) decided := .of_verdict hv he
    obtain ⟨version, definition, hversion, hs, -⟩ := hc.source
    have hn : ∀ decided, ¬ Changes settings m scope d none decided := by
      rintro _ ⟨-, he'⟩
      rw [he] at he'
      cases he'
    rw [versionAfter_of_kept plain account located hd hn hversion, hs, Option.bind_some, seen]
  · next he =>
    obtain ⟨reference, version, strict, hc, hdec, -⟩ := change_spec hv
    have hl := declaredAfter_of_literal format account located hd (.of_verdict hv he) seen
    rw [versionAfter, hl, Option.bind_some]
    exact resolve_plain (plain_of_decided? plain hc.managed hdec)

private theorem undisturbed_iff {version : String} (hv : d.version = some version) :
    Undisturbed scope r d ↔ ∀ decided,
      (source? scope.values version).bind r.updates.get? = some decided →
      resolve scope.values version = some decided := by
  constructor
  · intro h decided hb
    obtain ⟨name, hs, hu⟩ := Option.bind_eq_some_iff.1 hb
    exact h version name decided hv hs hu
  · intro h version' name decided hv' hs hu
    rw [hv, Option.some.injEq] at hv'
    subst hv'
    exact h decided (Option.bind_eq_some_iff.2 ⟨name, hs, hu⟩)

end Edited

/-- Without warnings, a decision survives all edits of the module if and only if the dependency is
not left alone while the property that its version comes from is set to another version. -/
theorem decision_survives_iff {injects : Bool} {inherited : PropertyScope}
    (format : settings.format = .literal) (plain : PlainVersions settings)
    (located : Located (considered settings m))
    (aligned : (align settings m injects inherited).1 = .ok r) (quiet : r.warnings = []) :
    ∀ d ∈ considered settings m, ∀ version,
      intended? settings m (inherited.define m) d = some version →
      (versionAfter r.operations m (inherited.define m) d = some version ↔
        (Spared (verdict settings m (inherited.define m) d) →
          Undisturbed (inherited.define m) r d)) := by
  intro d hd v hi
  have account := account_align aligned
  have seen := account.seen quiet d hd
  generalize inherited.define m = scope at hi account seen
  obtain ⟨reference, version, hc⟩ := concerned_of_intended? hi
  have hv := hc.declared
  rw [hc.intended?_eq] at hi
  have kept : Spared (verdict settings m scope d) → v = currentVersion scope version →
      (versionAfter r.operations m scope d = some v ↔
        (Spared (verdict settings m scope d) → Undisturbed scope r d)) := by
    intro hs hcur
    have hn : ∀ decided, ¬ Changes settings m scope d none decided := by
      rintro decided ⟨⟨current, he⟩, -⟩
      rw [he] at hs
      rcases hs with hs | hs <;> cases hs
    rw [versionAfter_of_kept plain account located hd hn hv, forall_prop_of_true hs,
      undisturbed_iff hv, hcur]
    cases (source? scope.values version).bind r.updates.get? with
    | none => simp [resolve_eq]
    | some decided => simp [resolve_eq, eq_comm]
  have hverdict := hc.verdict_eq m scope
  cases hdec : decided? settings m reference d with
  | none =>
    rw [hdec] at hi hverdict
    exact kept (.inl hverdict) (Option.some.inj hi).symm
  | some p =>
    obtain ⟨decided, strict⟩ := p
    rw [hdec] at hi hverdict
    cases hi
    simp only at hverdict
    split at hverdict
    · rw [hverdict] at seen
      exact seen.elim
    · split at hverdict
      · next he => exact kept (.inr hverdict) he.symm
      · split at hverdict
        · rw [hverdict] at seen
          exact seen.elim
        · have hspared : ¬ Spared (verdict settings m scope d) := by
            rw [hverdict]
            rintro (h | h) <;> cases h
          refine iff_of_true ?_ fun h => absurd h hspared
          rw [hverdict] at seen
          exact versionAfter_of_change format plain account located hd hverdict seen

/-- Two dependencies that take their version from one property. -/
def sharedProperty : PomModule where
  group := "g"
  artifact := "m"
  version := none
  parentGroup := none
  parentArtifact := none
  properties := .ofList [("v", "1.0")]
  dependencies := [
    ⟨"g", "a", some "$\x7bv\x7d", "compile", none, some "dependencies/dependency[0]"⟩,
    ⟨"g", "b", some "$\x7bv\x7d", "compile", none, some "dependencies/dependency[1]"⟩]
  management := []
  modules := []
  directory := none

/-- Candidates for both dependencies, and an exclusion that leaves the second one alone. -/
def oneExcluded : AlignmentSettings where
  candidates := [⟨"g", "a", "2.0"⟩, ⟨"g", "b", "2.0"⟩]
  overrideTransitive := true
  overrideDependencies := true
  strict := false
  violationFails := false
  format := .literal
  exclusions := [⟨"g", "b", "*", ""⟩]

/-- The property is changed for the first dependency. -/
def sharedResult : AlignmentResult where
  updates := .ofList [("v", "2.0")]
  operations := [⟨"pom.xml", "properties/v", some "2.0"⟩]
  newProperties := ∅
  injected := ∅
  warnings := []

private theorem plainVersions_oneExcluded : PlainVersions oneExcluded := ⟨by decide, by decide⟩

private theorem located_sharedProperty : Located (considered oneExcluded sharedProperty) := by
  refine ⟨by decide, fun d hd name => ?_⟩
  have hc : considered oneExcluded sharedProperty = sharedProperty.dependencies := rfl
  rw [hc] at hd
  rcases List.mem_cons.1 hd with rfl | hd
  · exact versionPath_ne_propertyPath rfl rfl name
  · rw [List.mem_singleton.1 hd]
    exact versionPath_ne_propertyPath rfl rfl name

private theorem align_sharedProperty :
    (align oneExcluded sharedProperty false ∅).1 = .ok sharedResult := by
  decide

/-- The dependency whose version changes survives; the one that is left alone does not. -/
theorem decision_survives_iff_shared :
    oneExcluded.format = .literal ∧ sharedResult.warnings = [] ∧
    ∀ d ∈ considered oneExcluded sharedProperty, ∀ version,
      intended? oneExcluded sharedProperty
        (PropertyScope.define ∅ sharedProperty) d = some version →
        (versionAfter sharedResult.operations sharedProperty
          (PropertyScope.define ∅ sharedProperty) d =
            some version ↔
          (Spared (verdict oneExcluded sharedProperty (PropertyScope.define ∅ sharedProperty) d) →
            Undisturbed (PropertyScope.define ∅ sharedProperty) sharedResult d)) :=
  ⟨rfl, rfl, decision_survives_iff rfl plainVersions_oneExcluded located_sharedProperty
    align_sharedProperty rfl⟩

/-- Without the condition, decisions need not survive: the exclusion leaves the version 1.0 alone,
which then is 2.0. -/
theorem not_all_decisions_survive :
    ¬ ∀ (settings : AlignmentSettings) (m : PomModule) (injects : Bool) (inherited : PropertyScope)
      (r : AlignmentResult), settings.format = .literal → PlainVersions settings →
      Located (considered settings m) →
        (align settings m injects inherited).1 = .ok r → r.warnings = [] →
      ∀ d ∈ considered settings m, ∀ version,
        intended? settings m (inherited.define m) d = some version →
          versionAfter r.operations m (inherited.define m) d = some version := by
  intro h
  have hd :
    (⟨"g", "b", some "$\x7bv\x7d", "compile", none,
    some "dependencies/dependency[1]"⟩ : Dependency) ∈
      considered oneExcluded sharedProperty := by decide
  have hv := h oneExcluded sharedProperty false ∅ sharedResult rfl plainVersions_oneExcluded
    located_sharedProperty align_sharedProperty rfl _ hd "1.0" (by decide)
  revert hv
  decide

end BuildAlign.ModuleAlignment
