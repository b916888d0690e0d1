import BuildAlign.Proofs.AlignmentAccount

/-! # Fatal violations

Where violations are fatal, the alignment of a module ends at the first version that its candidate
may not replace.  Where they are not, the version is left alone, a warning is noted and the
alignment goes on.  Up to there both come to the same, and so they do in a module without such a
version. -/
namespace BuildAlign.ModuleAlignment

variable {settings : AlignmentSettings} {m : PomModule} {scope : PropertyScope} {d : Dependency}
  {r r' : AlignmentResult} {v : Verdict}

section Warnings

/-- The warning that a candidate may not replace a version. -/
def mismatchWarning (m : PomModule) (ga decided current : String) : String :=
  s!"{ga}: '{decided}' is not compatible with '{current}' in {m.target}"

def IsMismatch (m : PomModule) (warning : String) : Prop :=
  ∃ ga decided current, warning = mismatchWarning m ga decided current

theorem getLast?_append {t : String} {c : Char} (h : t.toList.getLast? = some c) (s : String) :
    (s ++ t).toList.getLast? = some c := by
  rw [String.toList_append, List.getLast?_append, h]
  rfl

private theorem getLast?_target (m : PomModule) : m.target.toList.getLast? = some 'l' := by
  have hl : "pom.xml".toList.getLast? = some 'l' := by decide
  unfold PomModule.target
  split
  · exact hl
  · exact hl
  · exact hl
  · exact getLast?_append (by decide) _

/-- A mismatch is told by the name of the POM at the end of its warning. -/
theorem not_isMismatch {warning : String} {c : Char}
    (h : warning.toList.getLast? = some c) (hc : c ≠ 'l') :
    ¬ IsMismatch m warning := by
  rintro ⟨ga, decided, current, rfl⟩
  have hl : (mismatchWarning m ga decided current).toList.getLast? = some 'l' :=
    getLast?_append (getLast?_target m) _
  exact hc (Option.some.inj (h.symm.trans hl))

/-- No mismatch has been noted. -/
def Clean (m : PomModule) (r : AlignmentResult) : Prop := ∀ w ∈ r.warnings, ¬ IsMismatch m w

theorem Clean.warn (h : Clean m r) {warning : String} (hw : ¬ IsMismatch m warning) :
    Clean m (r.warn warning) :=
  List.forall_mem_append.2 ⟨h, List.forall_mem_singleton.2 hw⟩

theorem Clean.changeVersion (h : Clean m r) (settings : AlignmentSettings)
    (scope : PropertyScope) (d : Dependency)
    (decided : String) : Clean m (changeVersion settings m scope d decided r).1 := by
  unfold ModuleAlignment.changeVersion
  split
  · unfold changeProperty
    split
    · split
      · exact h
      · exact h.warn (not_isMismatch (getLast?_append (getLast?_append rfl _) _) (by decide))
    · exact h
  · rwa [Clean, changeLiteral_warnings]

/-- Just a version that is a violation where violations are fatal is noted as a mismatch. -/
theorem Clean.record (h : Clean m r) (settings : AlignmentSettings)
    (scope : PropertyScope) (d : Dependency)
    (v : Verdict) :
    (∃ decided current, v = .incompatible decided current ∧
      (record settings m scope d r v).1 = r.warn (mismatchWarning m d.ga decided current)) ∨
    (∀ settings', violation? settings' d v = none) ∧ Clean m (record settings m scope d r v).1 := by
  cases v with
  | unmanaged => exact .inr ⟨fun _ => rfl, h⟩
  | imported => exact .inr ⟨fun _ => rfl, h⟩
  | excluded => exact .inr ⟨fun _ => rfl, h⟩
  | upToDate => exact .inr ⟨fun _ => rfl, h⟩
  | unresolved version =>
    exact .inr ⟨fun _ => rfl, h.warn (not_isMismatch (getLast?_append rfl _) (by decide))⟩
  | incompatible decided current => exact .inl ⟨decided, current, rfl, rfl⟩
  | change decided current => exact .inr ⟨fun _ => rfl, h.changeVersion settings scope d decided⟩

private theorem Recorded.warnings_grow (h : Recorded settings m scope d r v r') :
    r.warnings <+: r'.warnings := by
  cases h with
  | unresolved _ message => exact List.prefix_append _ [message]
  | incompatible _ _ message => exact List.prefix_append _ [message]
  | conflict message => exact List.prefix_append _ [message]
  | @literal decided _ _ =>
    have hw := changeLiteral_warnings settings m d decided r
    exact ⟨[], by rw [hw, List.append_nil]⟩
  | _ => exact List.prefix_rfl

/-- No warning is taken back. -/
theorem alignAll_warnings_grow {ds : List Dependency}
    (h : (alignAll settings m scope ds r).1 = .ok r') :
    r.warnings <+: r'.warnings := by
  induction ds generalizing r with
  | nil =>
    cases h
    exact List.prefix_rfl
  | cons d ds ih =>
    exact (recorded_record settings m scope d r _).warnings_grow.trans (ih (alignAll_cons_ok h).2)

end Warnings

section Runs

abbrev Outcome := Except PolicyViolation AlignmentResult × PassLog

/-- How an alignment ends where violations are fatal, and how it ends where they are not. -/
inductive Reacts (m : PomModule) : Outcome → Outcome → Prop
  | agreed {r : AlignmentResult} {log : PassLog} (clean : Clean m r) :
    Reacts m (.ok r, log) (.ok r, log)
  | ended {r : AlignmentResult} {before after : List String}
    {ga decided current : String} {log rest : PassLog}
    (noted : r.warnings = before ++ mismatchWarning m ga decided current :: after)
    (clean : ∀ w ∈ before, ¬ IsMismatch m w) :
      Reacts m (.error ⟨decided, current, some ga⟩, log) (.ok r, log ++ rest)

variable {fatal lenient : Except PolicyViolation AlignmentResult} {log log' : PassLog}

private theorem Reacts.prepend (h : Reacts m (fatal, log) (lenient, log')) (start : PassLog) :
    Reacts m (fatal, start ++ log) (lenient, start ++ log') := by
  cases h with
  | agreed clean => exact .agreed clean
  | ended noted clean =>
    rw [← List.append_assoc]
    exact .ended noted clean

theorem Reacts.map {f : AlignmentResult → AlignmentResult} (hf : ∀ r, (f r).warnings = r.warnings)
    (h : Reacts m (fatal, log) (lenient, log')) :
    Reacts m (fatal.map f, log) (lenient.map f, log') := by
  cases h with
  | agreed clean => exact .agreed (by rwa [Clean, hf])
  | ended noted clean => exact .ended ((hf _).trans noted) clean

/-- Up to the first mismatch both do the same, and then only one of them goes on. -/
theorem reacts_alignAll (settings : AlignmentSettings) (m : PomModule) (scope : PropertyScope)
    (ds : List Dependency)
    (clean : Clean m r) :
    Reacts m (alignAll { settings with violationFails := true } m scope ds r)
      (alignAll { settings with violationFails := false } m scope ds r) := by
  induction ds generalizing r with
  | nil => exact .agreed clean
  | cons d ds ih =>
    -- Whether violations are fatal matters neither to verdicts nor to what is noted about them.
    generalize hrecord : record settings m scope d r (verdict settings m scope d) = recorded
    have hgoes : ∀ fails,
      violation? { settings with violationFails := fails } d (verdict settings m scope d) = none →
        alignAll { settings with violationFails := fails } m scope (d :: ds) r =
          ((alignAll { settings with violationFails := fails } m scope ds recorded.1).1,
            recorded.2 ++
              (alignAll { settings with violationFails := fails } m scope ds recorded.1).2) :=
      fun fails hv => hrecord ▸ alignAll_of_none hv ds r
    have hlenient := hgoes false (violation?_of_tolerant rfl d _)
    rcases clean.record settings scope d (verdict settings m scope d) with
      ⟨decided, current, hv, hr⟩ | ⟨hnone, hclean⟩
    · have hfatal : alignAll { settings with violationFails := true } m scope (d :: ds) r =
          (.error ⟨decided, current, some d.ga⟩, []) := alignAll_of_violation (hv ▸ rfl) ds r
      have htolerant : { settings with violationFails := false }.violationFails = false := rfl
      obtain ⟨r', hr'⟩ := alignAll_ok_of_tolerant htolerant m scope ds recorded.1
      obtain ⟨after, hafter⟩ := alignAll_warnings_grow hr'
      have hnoted : r'.warnings = r.warnings ++
          mismatchWarning m d.ga decided current :: after := by
        rw [← hafter, ← hrecord, hr]
        exact List.append_assoc ..
      rw [hfatal, hlenient, hr']
      exact .ended hnoted clean
    · rw [hrecord] at hclean
      rw [hgoes true (hnone _), hlenient]
      exact (ih hclean).prepend recorded.2

private theorem reacts_align (settings : AlignmentSettings) (m : PomModule) (injects : Bool)
    (inherited : PropertyScope) :
    Reacts m (align { settings with violationFails := true } m injects inherited)
      (align { settings with violationFails := false } m injects inherited) := by
  have hall :=
    reacts_alignAll settings m (inherited.define m) (considered settings m) (r := ∅) nofun
  cases hd : settings.isEnabled with
  | false =>
    have hdisabled := fun fails =>
      align_of_disabled (show { settings with violationFails := fails }.isEnabled =
        false from hd) m injects inherited
    rw [hdisabled, hdisabled]
    exact .agreed nofun
  | true =>
    have henabled := fun fails =>
      align_of_enabled (show { settings with violationFails := fails }.isEnabled =
        true from hd) m injects inherited
    rw [henabled, henabled]
    refine hall.map fun r => ?_
    split
    · exact inject_warnings settings m r
    · rfl

/-- Where violations are not fatal, a module is aligned.  Where they are, the same comes of it
unless a mismatch is noted, and otherwise the first one that is noted is the violation. -/
theorem fatal_violations_differ_in_reaction (settings : AlignmentSettings)
    (m : PomModule) (injects : Bool)
    (inherited : PropertyScope) :
    ∃ r log, align { settings with violationFails := false } m injects inherited = (.ok r, log) ∧
      (∀ r' log',
        align { settings with violationFails := true } m injects inherited = (.ok r', log') →
        r' = r ∧ log' = log) ∧
      (∀ violation log', align { settings with violationFails := true } m injects inherited =
        (.error violation, log') →
        log' <+: log ∧ ∃ ga before after, violation.coordinate = some ga ∧
          r.warnings =
            before ++ mismatchWarning m ga violation.candidate violation.current :: after ∧
          ∀ w ∈ before, ¬ IsMismatch m w) ∧
      ((∃ w ∈ r.warnings, IsMismatch m w) →
        ∃ violation log', align { settings with violationFails := true } m injects inherited =
          (.error violation, log')) := by
  have h := reacts_align settings m injects inherited
  generalize align { settings with violationFails := true } m injects inherited = fatal at h ⊢
  generalize align { settings with violationFails := false } m injects inherited = lenient at h ⊢
  cases h with
  | @agreed r log clean =>
    refine ⟨r, log, rfl, ?_, nofun, ?_⟩
    · rintro r' log' ⟨⟩
      exact ⟨rfl, rfl⟩
    · rintro ⟨w, hm, hw⟩
      exact absurd hw (clean w hm)
  | @ended r before after ga decided current log rest noted clean =>
    refine ⟨r, log ++ rest, rfl, nofun, ?_, fun _ => ⟨_, _, rfl⟩⟩
    rintro violation log' ⟨⟩
    exact ⟨List.prefix_append log rest, ga, before, after, rfl, noted, clean⟩

/-- A version that cannot be resolved, two that their candidates may not replace, and one that its
candidate may. -/
def contested : PomModule where
  group := "g"
  artifact := "m"
  version := none
  parentGroup := none
  parentArtifact := none
  properties := ∅
  dependencies := [
    ⟨"g", "a", some "$\x7bv\x7d", "compile", none, some "dependencies/dependency[0]"⟩,
    ⟨"g", "b", some "1.0", "compile", none, some "dependencies/dependency[1]"⟩,
    ⟨"g", "c", some "2.0", "compile", none, some "dependencies/dependency[2]"⟩,
    ⟨"g", "d", some "3.0", "compile", none, some "dependencies/dependency[3]"⟩]
  management := []
  modules := []
  directory := some "child"

def settingsOf (candidates : List VersionReference) : AlignmentSettings where
  candidates := candidates
  overrideTransitive := true
  overrideDependencies := true
  strict := true
  violationFails := false
  format := .literal
  exclusions := []

def contestedSettings : AlignmentSettings :=
  settingsOf [⟨"g", "a", "1.1"⟩, ⟨"g", "b", "1.1"⟩, ⟨"g", "c", "2.1"⟩, ⟨"g", "d", "3.0.1"⟩]

def settledSettings : AlignmentSettings := settingsOf [⟨"g", "d", "3.0.1"⟩]

def contestedResult : AlignmentResult where
  updates := ∅
  operations := [⟨"child/pom.xml", "dependencies/dependency[3]/version", some "3.0.1"⟩]
  newProperties := ∅
  injected := ∅
  warnings := ["g:a: cannot resolve version '$\x7bv\x7d' in child/pom.xml; not aligning",
    "g:b: '1.1' is not compatible with '1.0' in child/pom.xml",
    "g:c: '2.1' is not compatible with '2.0' in child/pom.xml"]

def settledResult : AlignmentResult := { contestedResult with warnings := [] }

/-- The first of two mismatches is the violation, and there is none without candidates for these
versions. -/
theorem fatal_violations_differ_in_reaction_contested :
    (align { contestedSettings with violationFails := false } contested true ∅).1 =
      .ok contestedResult ∧
    (align { contestedSettings with violationFails := true } contested true ∅).1 =
      .error ⟨"1.1", "1.0", some "g:b"⟩ ∧
    (∃ before after, contestedResult.warnings =
      before ++ mismatchWarning contested "g:b" "1.1" "1.0" :: after ∧
      ∀ w ∈ before, ¬ IsMismatch contested w) ∧
    (align { settledSettings with violationFails := true } contested true ∅).1 = .ok settledResult ∧
    (align { settledSettings with violationFails := false } contested true ∅).1 =
      .ok settledResult := by
  have hlenient : (align { contestedSettings with violationFails := false } contested true ∅).1 =
      .ok contestedResult := by
    decide
  have hfatal : (align { contestedSettings with violationFails := true } contested true ∅).1 =
      .error ⟨"1.1", "1.0", some "g:b"⟩ := by decide
  have hagreed : (align { settledSettings with violationFails := true } contested true ∅).1 =
      .ok settledResult := by
    decide
  refine ⟨hlenient, hfatal, ?_, hagreed, ?_⟩
  · obtain ⟨r, log, hr, -, hviolation, -⟩ :=
      fatal_violations_differ_in_reaction contestedSettings contested true ∅
    cases (congrArg Prod.fst hr).symm.trans hlenient
    obtain ⟨-, ga, before, after, hga, hnoted, hclean⟩ := hviolation _ _ (Prod.ext hfatal rfl)
    cases hga
    exact ⟨before, after, hnoted, hclean⟩
  · obtain ⟨r, log, hr, hsame, -⟩ :=
      fatal_violations_differ_in_reaction settledSettings contested true ∅
    obtain ⟨rfl, -⟩ := hsame _ _ (Prod.ext hagreed rfl)
    exact congrArg Prod.fst hr

end Runs
end BuildAlign.ModuleAlignment
