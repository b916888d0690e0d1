import BuildAlign.ModuleAlignment
import BuildAlign.Proofs.EditLocations
import BuildAlign.Proofs.OrderedMapLookup

/-! # What alignment writes down

A step of alignment leaves the result as it is, adds a warning, or adds one edit.  After any number
of steps every edit goes back to a dependency whose version is to change, and every such dependency
has its edit, unless there is a warning about it. -/
namespace BuildAlign.ModuleAlignment
open PropertyReferences

variable {settings : AlignmentSettings} {m : PomModule} {scope : PropertyScope} {d : Dependency}
  {r : AlignmentResult}

section Edits

/-- The property that is edited to change the version of a dependency. -/
def editedName? (scope : PropertyScope) (d : Dependency) : Option String :=
  d.version.bind (resolveName scope.values)

def ownerOf (m : PomModule) (scope : PropertyScope) (name : String) : String :=
  ((scope.get? name).map Definition.owner).getD m.target

def propertyEdit (m : PomModule) (scope : PropertyScope) (name version : String) : Operation :=
  ⟨ownerOf m scope name, propertyPath name, some version⟩

/-- What takes the place of a literal version: the new version or a reference to its property. -/
def literalValue (settings : AlignmentSettings) (d : Dependency) (decided : String) : String :=
  match settings.format.propertyName? d.group d.artifact with
  | none => decided
  | some name => "$\x7b" ++ name ++ "\x7d"

theorem literalValue_eq (format : settings.format = .literal) (d : Dependency) (decided : String) :
    literalValue settings d decided = decided := by
  simp [literalValue, format, VersionPropertyFormat.propertyName?]

def literalEdit (settings : AlignmentSettings) (m : PomModule) (d : Dependency) (decided : String) :
    Operation :=
  ⟨m.target, versionPath d, some (literalValue settings d decided)⟩

theorem changeLiteral_operations (settings : AlignmentSettings) (m : PomModule) (d : Dependency)
    (decided : String) (r : AlignmentResult) :
    (changeLiteral settings m d decided r).operations =
      r.operations ++ [literalEdit settings m d decided] := by
  unfold changeLiteral literalEdit literalValue
  cases settings.format.propertyName? d.group d.artifact <;> rfl

private theorem changeLiteral_updates (settings : AlignmentSettings)
    (m : PomModule) (d : Dependency)
    (decided : String) (r : AlignmentResult) :
    (changeLiteral settings m d decided r).updates = r.updates := by
  unfold changeLiteral
  cases settings.format.propertyName? d.group d.artifact <;> rfl

theorem changeLiteral_warnings (settings : AlignmentSettings) (m : PomModule) (d : Dependency)
    (decided : String) (r : AlignmentResult) :
    (changeLiteral settings m d decided r).warnings = r.warnings := by
  unfold changeLiteral
  cases settings.format.propertyName? d.group d.artifact <;> rfl

end Edits

section Verdicts

/-- A dependency that alignment is about: it has a candidate and a version, and is no import. -/
structure Concerned (settings : AlignmentSettings) (d : Dependency) (reference : VersionReference)
    (version : String) : Prop where
  managed : settings.managed.get? d.ga = some reference
  declared : d.version = some version
  nonempty : version ≠ ""
  ordinary : d.isImport = false

/-- The version that a text has in the scope. -/
def currentVersion (scope : PropertyScope) (version : String) : String :=
  (resolve scope.values version).getD version

theorem Concerned.verdict_eq {reference : VersionReference} {version : String}
    (h : Concerned settings d reference version) (m : PomModule) (scope : PropertyScope) :
    verdict settings m scope d =
      match decided? settings m reference d with
      | none => .excluded
      | some (decided, strict) =>
        let current := currentVersion scope version
        if mentionsReference current.toList || refersOutside scope version then .unresolved version
        else if current = decided then .upToDate
        else if strict && !VersionPolicy.accepts true decided
          current then .incompatible decided current
        else .change decided current := by
  unfold verdict
  rw [h.managed, h.declared]
  split
  · contradiction
  · contradiction
  · next he _ => exact absurd (Option.some.inj he) h.nonempty
  · next hv hr =>
    cases Option.some.inj hr
    cases Option.some.inj hv
    rw [if_neg (by simp [h.ordinary])]
    rfl

/-- The verdicts after which nothing is written down. -/
def LeavesAlone : Verdict → Prop
  | .unmanaged | .imported | .excluded | .upToDate => True
  | _ => False

private theorem concerned_or (settings : AlignmentSettings) (m : PomModule) (scope : PropertyScope)
    (d : Dependency) :
    verdict settings m scope d = .unmanaged ∨ verdict settings m scope d = .imported ∨
      ∃ reference version, Concerned settings d reference version := by
  unfold verdict
  split
  · exact .inl rfl
  · exact .inl rfl
  · exact .inl rfl
  · next reference version hn hm hv =>
    cases hd : d.isImport with
    | true => exact .inr (.inl rfl)
    | false => exact .inr (.inr ⟨reference, version, hm, hv, hn, hd⟩)

/-- What holds of a dependency whose version is to change. -/
theorem change_spec {decided current : String}
    (h : verdict settings m scope d = .change decided current) :
    ∃ reference version strict, Concerned settings d reference version ∧
      decided? settings m reference d = some (decided, strict) ∧
        current = currentVersion scope version ∧
      mentionsReference current.toList = false ∧
        refersOutside scope version = false ∧ current ≠ decided ∧
      (strict = true → VersionPolicy.accepts true decided current = true) := by
  obtain hv | hv | ⟨reference, version, hc⟩ := concerned_or settings m scope d
  · rw [h] at hv; cases hv
  · rw [h] at hv; cases hv
  refine ⟨reference, version, ?_⟩
  rw [hc.verdict_eq] at h
  split at h
  · cases h
  · next decided' strict hd =>
    simp only at h
    split at h
    · cases h
    · next hm =>
      split at h
      · cases h
      · next hne =>
        split at h
        · cases h
        · next hs =>
          cases h
          simp only [Bool.or_eq_true, not_or, Bool.not_eq_true] at hm
          simp only [Bool.and_eq_true, Bool.not_eq_true', not_and, Bool.not_eq_false] at hs
          exact ⟨strict, hc, hd, rfl, hm.1, hm.2, hne, hs⟩

end Verdicts

section Steps

/-- What writing a verdict down can do to a result. -/
inductive Recorded (settings : AlignmentSettings) (m : PomModule)
    (scope : PropertyScope) (d : Dependency)
    (r : AlignmentResult) : Verdict → AlignmentResult → Prop
  | untouched {v : Verdict} (alone : LeavesAlone v) : Recorded settings m scope d r v r
  | unresolved (version message : String) :
    Recorded settings m scope d r (.unresolved version) (r.warn message)
  | incompatible (decided current message : String) :
    Recorded settings m scope d r (.incompatible decided current) (r.warn message)
  /-- The property already has the version that is decided on. -/
  | agreed {decided current name : String} (edited : editedName? scope d = some name)
    (known : r.updates.get? name = some decided) :
    Recorded settings m scope d r (.change decided current) r
  /-- The property already has another version. -/
  | conflict {decided current name previous : String} (message : String)
    (edited : editedName? scope d = some name) (known : r.updates.get? name = some previous)
    (differs : previous ≠ decided) :
    Recorded settings m scope d r (.change decided current) (r.warn message)
  | property {decided current name : String} (edited : editedName? scope d = some name)
    (fresh : r.updates.get? name = none) :
    Recorded settings m scope d r (.change decided current)
      { r with
        updates := r.updates.insert name decided
        operations := r.operations ++ [propertyEdit m scope name decided] }
  | literal {decided current : String} (edited : editedName? scope d = none) :
    Recorded settings m scope d r (.change decided current) (changeLiteral settings m d decided r)

private theorem recorded_changeVersion (settings : AlignmentSettings) (m : PomModule)
    (scope : PropertyScope)
    (d : Dependency) (decided current : String) (r : AlignmentResult) :
    Recorded settings m scope d r (.change decided current)
      (changeVersion settings m scope d decided r).1 := by
  cases he : editedName? scope d with
  | none =>
    have hc : changeVersion settings m scope d decided r =
        (changeLiteral settings m d decided r, []) := by
      simp only [editedName?] at he
      simp only [changeVersion, he]
    rw [hc]
    exact .literal he
  | some name =>
    have hc : changeVersion settings m scope d decided r =
        changeProperty d name (ownerOf m scope name) decided r := by
      simp only [editedName?] at he
      simp only [changeVersion, he, ownerOf]
    rw [hc]
    unfold changeProperty
    split
    · next previous hp =>
      by_cases hs : previous = decided
      · rw [if_pos hs]
        exact .agreed he (hs ▸ hp)
      · rw [if_neg hs]
        exact .conflict _ he hp hs
    · next hp => exact .property he hp

theorem recorded_record (settings : AlignmentSettings) (m : PomModule) (scope : PropertyScope)
    (d : Dependency) (r : AlignmentResult) (v : Verdict) :
    Recorded settings m scope d r v (record settings m scope d r v).1 := by
  cases v with
  | unmanaged => exact .untouched trivial
  | imported => exact .untouched trivial
  | excluded => exact .untouched trivial
  | upToDate => exact .untouched trivial
  | unresolved version => exact .unresolved version _
  | incompatible decided current => exact .incompatible decided current _
  | change decided current => exact recorded_changeVersion settings m scope d decided current r

theorem violation?_of_tolerant (h : settings.violationFails = false)
    (d : Dependency) (v : Verdict) :
    violation? settings d v = none := by
  cases v with
  | incompatible decided current => simp [violation?, h]
  | _ => rfl

theorem alignAll_of_violation {violation : PolicyViolation}
    (h : violation? settings d (verdict settings m scope d) = some violation) (ds : List Dependency)
    (r : AlignmentResult) : alignAll settings m scope (d :: ds) r = (.error violation, []) := by
  simp only [alignAll, h]

theorem alignAll_of_none (h : violation? settings d (verdict settings m scope d) = none)
    (ds : List Dependency)
    (r : AlignmentResult) :
    alignAll settings m scope (d :: ds) r =
      let (r, log) := record settings m scope d r (verdict settings m scope d)
      ((alignAll settings m scope ds r).1, log ++ (alignAll settings m scope ds r).2) := by
  simp only [alignAll, h]

/-- Where violations are not fatal, nothing keeps alignment from going on to the end. -/
theorem alignAll_ok_of_tolerant (h : settings.violationFails = false) (m : PomModule)
    (scope : PropertyScope)
    (ds : List Dependency) (r : AlignmentResult) :
    ∃ r', (alignAll settings m scope ds r).1 = .ok r' := by
  induction ds generalizing r with
  | nil => exact ⟨r, rfl⟩
  | cons d ds ih =>
    rw [alignAll_of_none (violation?_of_tolerant h d _)]
    exact ih _

theorem alignAll_cons_ok {ds : List Dependency} {r' : AlignmentResult}
    (h : (alignAll settings m scope (d :: ds) r).1 = .ok r') :
    violation? settings d (verdict settings m scope d) = none ∧
      (alignAll settings m scope ds
        (record settings m scope d r (verdict settings m scope d)).1).1 =
        .ok r' := by
  cases hv : violation? settings d (verdict settings m scope d) with
  | some violation =>
    rw [alignAll_of_violation hv] at h
    cases h
  | none =>
    rw [alignAll_of_none hv] at h
    exact ⟨rfl, h⟩

/-- What every step keeps holds at the end, of all dependencies that were gone through. -/
theorem alignAll_induction (Inv : List Dependency → AlignmentResult → Prop) {ds : List Dependency}
    (step : ∀ done d r r', d ∈ ds → Inv done r →
      Recorded settings m scope d r (verdict settings m scope d) r' → Inv (done ++ [d]) r')
    {done : List Dependency} {r' : AlignmentResult} (h : Inv done r)
    (hr : (alignAll settings m scope ds r).1 = .ok r') : Inv (done ++ ds) r' := by
  induction ds generalizing done r with
  | nil => cases hr; simpa using h
  | cons d ds ih =>
    have hs := step done d r _ List.mem_cons_self h (recorded_record settings m scope d r _)
    have hi := ih (fun done d r r' hm => step done d r r' (List.mem_cons_of_mem _ hm)) hs
      (alignAll_cons_ok hr).2
    simpa using hi

end Steps

section Account

/-- The dependency is to have that version, through that property or by itself. -/
structure Changes (settings : AlignmentSettings) (m : PomModule)
    (scope : PropertyScope) (d : Dependency)
    (name : Option String) (decided : String) : Prop where
  decision : ∃ current, verdict settings m scope d = .change decided current
  edited : editedName? scope d = name

/-- The dependency has the verdict that is seen to in the result. -/
def SeenTo (settings : AlignmentSettings) (m : PomModule)
    (scope : PropertyScope) (r : AlignmentResult)
    (d : Dependency) : Verdict → Prop
  | .change decided _ =>
    match editedName? scope d with
    | some name => r.updates.get? name = some decided
    | none => literalEdit settings m d decided ∈ r.operations
  | v => LeavesAlone v

/-- How a result and the dependencies that were gone through hang together. -/
structure Account (settings : AlignmentSettings) (m : PomModule) (scope : PropertyScope)
    (done : List Dependency) (r : AlignmentResult) : Prop where
  /-- Every edit is of a property that has a new version or of a literal version. -/
  traced : ∀ op ∈ r.operations,
    (∃ name decided, r.updates.get? name = some decided ∧ op = propertyEdit m scope name decided) ∨
      ∃ d ∈ done, ∃ decided, Changes settings m scope d none decided ∧
        op = literalEdit settings m d decided
  /-- Every new version of a property is decided on for a dependency, and its edit is there. -/
  posted : ∀ name decided, r.updates.get? name = some decided →
    propertyEdit m scope name decided ∈ r.operations ∧
      ∃ d ∈ done, Changes settings m scope d (some name) decided
  seen : r.warnings = [] → ∀ d ∈ done, SeenTo settings m scope r d (verdict settings m scope d)

theorem Changes.of_verdict {decided current : String} {name : Option String}
    (hv : verdict settings m scope d = .change decided current) (he : editedName? scope d = name) :
    Changes settings m scope d name decided := ⟨⟨current, hv⟩, he⟩

/-- What was there stays there, and a result without warnings never had one. -/
structure Grows (r r' : AlignmentResult) : Prop where
  updates : ∀ name version, r.updates.get? name = some version → r'.updates.get? name = some version
  operations : ∀ op ∈ r.operations, op ∈ r'.operations
  warnings : r'.warnings = [] → r.warnings = []

variable {v : Verdict} {r' : AlignmentResult}

theorem Grows.refl (r : AlignmentResult) : Grows r r := ⟨fun _ _ h => h, fun _ h => h, fun h => h⟩

theorem Grows.warn (r : AlignmentResult) (message : String) : Grows r (r.warn message) :=
  ⟨fun _ _ h => h, fun _ h => h, fun h => absurd h (by simp [AlignmentResult.warn])⟩

theorem Recorded.grows (h : Recorded settings m scope d r v r') : Grows r r' := by
  cases h with
  | untouched alone => exact .refl r
  | unresolved version message => exact .warn r message
  | incompatible decided current message => exact .warn r message
  | agreed edited known => exact .refl r
  | conflict message edited known differs => exact .warn r message
  | @property decided current name edited fresh =>
    refine ⟨fun other version h => ?_, fun op h => List.mem_append_left _ h, fun h => h⟩
    have hne : name ≠ other := fun he => by rw [← he, fresh] at h; cases h
    simpa [hne] using h
  | literal edited =>
    refine ⟨fun name version h => ?_, fun op h => ?_, fun h => ?_⟩
    · rw [changeLiteral_updates]; exact h
    · rw [changeLiteral_operations]; exact List.mem_append_left _ h
    · rw [← changeLiteral_warnings]; exact h

private theorem SeenTo.grow (hg : Grows r r') (h : SeenTo settings m scope r d v) :
    SeenTo settings m scope r' d v := by
  cases v with
  | change decided current =>
    simp only [SeenTo] at h ⊢
    split
    · next name he => rw [he] at h; exact hg.updates _ _ h
    · next he => rw [he] at h; exact hg.operations _ h
  | _ => exact h

/-- Without a warning, the step has seen to the verdict. -/
theorem Recorded.seenTo (h : Recorded settings m scope d r v r') (hw : r'.warnings = []) :
    SeenTo settings m scope r' d v := by
  cases h with
  | untouched alone =>
    cases v with
    | change decided current => exact alone.elim
    | _ => exact alone
  | unresolved version message => simp [AlignmentResult.warn] at hw
  | incompatible decided current message => simp [AlignmentResult.warn] at hw
  | agreed edited known => simpa only [SeenTo, edited] using known
  | conflict message edited known differs => simp [AlignmentResult.warn] at hw
  | property edited fresh => simp [SeenTo, edited]
  | literal edited => simp [SeenTo, edited, changeLiteral_operations]

theorem Recorded.traced (h : Recorded settings m scope d r v r') {op : Operation}
    (hm : op ∈ r'.operations) :
    op ∈ r.operations ∨ ∃ decided current, v = .change decided current ∧
      ((∃ name, editedName? scope d = some name ∧ r'.updates.get? name = some decided ∧
          op = propertyEdit m scope name decided) ∨
        (editedName? scope d = none ∧ op = literalEdit settings m d decided)) := by
  cases h with
  | untouched alone => exact .inl hm
  | unresolved version message => exact .inl hm
  | incompatible decided current message => exact .inl hm
  | agreed edited known => exact .inl hm
  | conflict message edited known differs => exact .inl hm
  | property edited fresh =>
    rcases List.mem_append.1 hm with hm | hm
    · exact .inl hm
    · exact .inr ⟨_, _, rfl, .inl ⟨_, edited, by simp, List.mem_singleton.1 hm⟩⟩
  | literal edited =>
    rw [changeLiteral_operations] at hm
    rcases List.mem_append.1 hm with hm | hm
    · exact .inl hm
    · exact .inr ⟨_, _, rfl, .inr ⟨edited, List.mem_singleton.1 hm⟩⟩

theorem Recorded.posted (h : Recorded settings m scope d r v r') {name decided : String}
    (hu : r'.updates.get? name = some decided) :
    r.updates.get? name = some decided ∨ ∃ current, v = .change decided current ∧
      editedName? scope d = some name ∧ propertyEdit m scope name decided ∈ r'.operations := by
  cases h with
  | untouched alone => exact .inl hu
  | unresolved version message => exact .inl hu
  | incompatible decided current message => exact .inl hu
  | agreed edited known => exact .inl hu
  | conflict message edited known differs => exact .inl hu
  | property edited fresh =>
    rw [OrderedMap.get?_insert] at hu
    split at hu
    · next hn => cases hu; subst hn; exact .inr ⟨_, rfl, edited, by simp⟩
    · exact .inl hu
  | literal edited => rw [changeLiteral_updates] at hu; exact .inl hu

theorem account_nil : Account settings m scope [] ∅ :=
  ⟨fun _ hm => absurd hm List.not_mem_nil, fun _ _ h => (nomatch h),
    fun _ _ hm => absurd hm List.not_mem_nil⟩

theorem Account.step {done : List Dependency} (h : Account settings m scope done r)
    (hr : Recorded settings m scope d r (verdict settings m scope d) r') :
    Account settings m scope (done ++ [d]) r' := by
  have hg := hr.grows
  have hd : d ∈ done ++ [d] := List.mem_append_right _ List.mem_cons_self
  refine ⟨fun op hm => ?_, fun name decided hu => ?_, fun hw e he => ?_⟩
  · rcases hr.traced hm with hm | ⟨decided, current, hv, ⟨name, -, hu, ho⟩ | ⟨hn, ho⟩⟩
    · rcases h.traced op hm with ⟨name, decided, hu, ho⟩ | ⟨e, he, decided, hc, ho⟩
      · exact .inl ⟨name, decided, hg.updates _ _ hu, ho⟩
      · exact .inr ⟨e, List.mem_append_left _ he, decided, hc, ho⟩
    · exact .inl ⟨name, decided, hu, ho⟩
    · exact .inr ⟨d, hd, decided, .of_verdict hv hn, ho⟩
  · rcases hr.posted hu with hu | ⟨current, hv, hn, hm⟩
    · obtain ⟨hm, e, he, hc⟩ := h.posted name decided hu
      exact ⟨hg.operations _ hm, e, List.mem_append_left _ he, hc⟩
    · exact ⟨hm, d, hd, .of_verdict hv hn⟩
  · rcases List.mem_append.1 he with he | he
    · exact (h.seen (hg.warnings hw) e he).grow hg
    · rw [List.mem_singleton.1 he]
      exact hr.seenTo hw

theorem inject_operations (settings : AlignmentSettings) (m : PomModule) (r : AlignmentResult) :
    (inject settings m r).operations = r.operations := by unfold inject; split <;> rfl

theorem inject_updates (settings : AlignmentSettings) (m : PomModule) (r : AlignmentResult) :
    (inject settings m r).updates = r.updates := by unfold inject; split <;> rfl

theorem inject_warnings (settings : AlignmentSettings) (m : PomModule) (r : AlignmentResult) :
    (inject settings m r).warnings = r.warnings := by unfold inject; split <;> rfl

theorem Account.congr {done : List Dependency} (h : Account settings m scope done r)
    (hu : r'.updates = r.updates) (ho : r'.operations = r.operations)
    (hw : r'.warnings = r.warnings) :
    Account settings m scope done r' := by
  refine ⟨fun op => ?_, fun name decided => ?_, fun hn e he => ?_⟩
  · rw [ho, hu]; exact h.traced op
  · rw [ho, hu]; exact h.posted name decided
  · exact (h.seen (hw ▸ hn) e he).grow
      ⟨fun _ _ => hu ▸ id, fun _ => ho ▸ id, fun h => hw ▸ h⟩

private theorem managed_of_disabled (h : settings.isEnabled = false) (ga : String) :
    settings.managed.get? ga = none := by
  have hc : settings.candidates = [] := by simpa [AlignmentSettings.isEnabled] using h
  simp [AlignmentSettings.managed, hc]

private theorem verdict_of_disabled (h : settings.isEnabled = false) (m : PomModule)
    (scope : PropertyScope)
    (d : Dependency) : verdict settings m scope d = .unmanaged := by
  unfold verdict
  rw [managed_of_disabled h]

private theorem alignAll_of_disabled (h : settings.isEnabled = false) (m : PomModule)
    (scope : PropertyScope)
    (ds : List Dependency) (r : AlignmentResult) : (alignAll settings m scope ds r).1 = .ok r := by
  induction ds with
  | nil => rfl
  | cons d ds ih => simpa only [alignAll, verdict_of_disabled h, violation?, record] using ih

theorem align_of_disabled (h : settings.isEnabled = false) (m : PomModule) (injects : Bool)
    (inherited : PropertyScope) :
    align settings m injects inherited = (.ok ∅, []) := by
  simp [align, h]

theorem align_of_enabled (h : settings.isEnabled = true) (m : PomModule) (injects : Bool)
    (inherited : PropertyScope) :
    align settings m injects inherited =
      let (outcome, log) := alignAll settings m (inherited.define m) (considered settings m) ∅
      (outcome.map fun r => if injects &&
        settings.overrideTransitive then inject settings m r else r, log) := by
  simp [align, h]

/-- The result of a module is that of its dependencies, with the candidates that it receives. -/
theorem align_eq_ok_iff {injects : Bool} {inherited : PropertyScope} :
    (align settings m injects inherited).1 = .ok r ↔
      ∃ r₀, (alignAll settings m (inherited.define m) (considered settings m) ∅).1 = .ok r₀ ∧
        r = if settings.isEnabled && (injects && settings.overrideTransitive) then inject
          settings m r₀ else r₀ := by
  cases hd : settings.isEnabled with
  | false => simp [align_of_disabled hd, alignAll_of_disabled hd, eq_comm]
  | true =>
    rw [align_of_enabled hd]
    generalize alignAll settings m (inherited.define m) (considered settings m) ∅ = p
    obtain ⟨outcome, log⟩ := p
    cases outcome with
    | error violation => exact iff_of_false nofun (by rintro ⟨_, ⟨⟩, -⟩)
    | ok r₀ =>
      constructor
      · rintro ⟨⟩
        exact ⟨r₀, rfl, rfl⟩
      · rintro ⟨_, ⟨⟩, rfl⟩
        rfl

/-- What every step keeps holds of the result of a module, also when alignment does not take
place. -/
theorem align_induction (Inv : List Dependency → AlignmentResult → Prop) {injects : Bool}
    {inherited : PropertyScope} (start : Inv [] ∅)
    (step : ∀ done d r r', d ∈ considered settings m → Inv done r →
      Recorded settings m (inherited.define m) d r (verdict settings m (inherited.define m) d) r' →
        Inv (done ++ [d]) r')
    (injected : ∀ done r, Inv done r → Inv done (inject settings m r))
    (h : (align settings m injects inherited).1 = .ok r) : Inv (considered settings m) r := by
  obtain ⟨r₀, hr, rfl⟩ := align_eq_ok_iff.1 h
  have hall : Inv (considered settings m) r₀ := alignAll_induction Inv step start hr
  split
  · exact injected _ _ hall
  · exact hall

/-- The account of a module, also when alignment does not take place. -/
theorem account_align {injects : Bool} {inherited : PropertyScope}
    (h : (align settings m injects inherited).1 = .ok r) :
    Account settings m (inherited.define m) (considered settings m) r :=
  align_induction (Account settings m (inherited.define m)) account_nil
    (fun _ _ _ _ _ hi hr => hi.step hr)
    (fun _ _ hi => hi.congr (inject_updates ..) (inject_operations ..) (inject_warnings ..)) h

/-- An edit among the properties is that of a property that has a new version. -/
theorem Account.propertyEdit_of_path {done : List Dependency} (h : Account settings m scope done r)
    (apart : ∀ d ∈ done, ∀ name, versionPath d ≠ propertyPath name) {op : Operation}
    (hm : op ∈ r.operations)
    {name : String} (hp : op.path = propertyPath name) :
    ∃ decided, r.updates.get? name = some decided ∧ op = propertyEdit m scope name decided := by
  rcases h.traced op hm with ⟨other, decided, hu, rfl⟩ | ⟨e, he, decided, -, rfl⟩
  · obtain rfl := propertyPath_injective hp
    exact ⟨decided, hu, rfl⟩
  · exact absurd hp (apart e he name)

theorem considered_sublist (settings : AlignmentSettings) (m : PomModule) :
    (considered settings m).Sublist (m.management ++ m.dependencies) := by
  unfold considered
  split
  · exact List.Sublist.refl _
  · exact List.Sublist.append_left (List.nil_sublist _) _

/-- The locations of a POM that was read meet what is asked of them. -/
theorem located_considered (settings : AlignmentSettings) (root : XmlNode)
    (directory : Option String) :
    Located (considered settings { PomModule.ofRoot root with directory := directory }) :=
  (PomModule.located_ofRoot root).sublist (considered_sublist settings _)

end Account

end BuildAlign.ModuleAlignment
