import BuildAlign.AlignmentSettings
import BuildAlign.Proofs.CandidateLists
import BuildAlign.Proofs.OrderedMapLookup
import Mathlib.Data.List.Perm.Basic

/-! # Exclusions and their keys

The key of an exclusion is cut at its first `@` and in front of that at its colon, so what it is for
can be told from it.  A module's own exclusion of a dependency is found before one for every module.
There is at most one of either kind, so the order of the properties does not matter. -/
namespace BuildAlign.DelimitedText
variable {delimiter : Char} {cs : List Char}

private theorem cut?_of_notMem (h : delimiter ∉ cs) : cut? delimiter cs = none := by
  induction cs with
  | nil => rfl
  | cons c cs ih =>
    simp only [List.mem_cons, not_or] at h
    rw [cut?, if_neg (Ne.symm h.1), ih h.2]
    rfl

end BuildAlign.DelimitedText

namespace BuildAlign.AlignmentSettings
open BlankText DelimitedText DependencyCoordinates

/-- What an exclusion is for: a dependency, in the module of that key or in every module (`*`). -/
structure ExclusionScope where
  group : String
  artifact : String
  module : String
deriving DecidableEq, Repr

variable {scope : ExclusionScope} {key : String} {props : PropertyMap}

section Keys

/-- What may be a group or an artifact in a key: it shows its beginning and its end and none of the
delimiters. -/
structure IsKeyPart (s : String) : Prop where
  nonempty : s ≠ ""
  tight : Tight s.toList
  closed : ∀ c ∈ s.toList, c ≠ ':' ∧ c ≠ '@'

/-- A scope whose parts can be told apart in a key. -/
structure ExclusionScope.Plain (scope : ExclusionScope) : Prop where
  group : IsKeyPart scope.group
  artifact : IsKeyPart scope.artifact
  named : scope.module ≠ ""
  tight : Tight scope.module.toList

private theorem isKeyPart_iff {s : String} :
    IsKeyPart s ↔ s ≠ "" ∧ Tight s.toList ∧ s.toList.all (fun c => c ≠ ':' && c ≠ '@') = true := by
  simp only [List.all_eq_true, Bool.and_eq_true, decide_eq_true_eq]
  exact ⟨fun h => ⟨h.nonempty, h.tight, h.closed⟩, fun h => ⟨h.1, h.2.1, h.2.2⟩⟩

instance (s : String) : Decidable (IsKeyPart s) := decidable_of_iff _ isKeyPart_iff.symm

instance (scope : ExclusionScope) : Decidable scope.Plain :=
  decidable_of_iff (IsKeyPart scope.group ∧ IsKeyPart scope.artifact ∧ scope.module ≠ "" ∧
    Tight scope.module.toList)
    ⟨fun h => ⟨h.1, h.2.1, h.2.2.1, h.2.2.2⟩, fun h => ⟨h.group, h.artifact, h.named, h.tight⟩⟩

/-- The keys of an exclusion.  The module stands behind an `@`, and `@*` may be left out. -/
inductive Keyed : ExclusionScope → String → Prop
  | inModule (scope : ExclusionScope) :
    Keyed scope (exclusionKey ++ coordinateKey scope.group scope.artifact ++ "@" ++ scope.module)
  | everywhere (group artifact : String) :
    Keyed ⟨group, artifact, "*"⟩ (exclusionKey ++ coordinateKey group artifact)

/-- The exclusion with this scope, and the version without the blanks around it. -/
def exclusionAt (scope : ExclusionScope) (version : String) : Exclusion :=
  ⟨scope.group, scope.artifact, scope.module, trimmed version⟩

private theorem behind?_append (start cs : List Char) : behind? start (start ++ cs) = some cs := by
  rw [behind?, if_pos (List.isPrefixOf_iff_prefix.2 (List.prefix_append start cs)), List.drop_left]

private theorem behind?_eq_none {start cs : List Char} (h : ¬ start <+: cs) :
    behind? start cs = none := by
  rw [behind?, if_neg]
  rwa [List.isPrefixOf_iff_prefix]

theorem IsKeyPart.hasText {s : String} (h : IsKeyPart s) : HasText s.toList :=
  h.tight.hasText (by simpa using h.nonempty)

theorem IsKeyPart.notMem {s : String} (h : IsKeyPart s) : ':' ∉ s.toList ∧ '@' ∉ s.toList :=
  ⟨fun hm => (h.closed _ hm).1 rfl, fun hm => (h.closed _ hm).2 rfl⟩

private theorem toList_coordinateKey (group artifact : String) :
    (coordinateKey group artifact).toList = group.toList ++ ':' :: artifact.toList := by
  simp [coordinateKey]

private theorem parseKey_coordinateKey {group artifact : String} (hg : IsKeyPart group)
    (ha : IsKeyPart artifact) :
    parseKey (coordinateKey group artifact) = .ok (group, artifact) := by
  have hfields : Fields (coordinateKey group artifact).toList [group.toList, artifact.toList] := by
    refine ⟨⟨List.cons_ne_nil _ _, ?_, (toList_coordinateKey group artifact).symm⟩, ?_⟩
    · rw [List.forall_mem_cons, List.forall_mem_singleton]
      exact ⟨hg.notMem.1, ha.notMem.1⟩
    · rw [List.forall_mem_cons, List.forall_mem_singleton]
      exact ⟨hg.hasText, ha.hasText⟩
  have hparts : parts? (coordinateKey group artifact).toList = some [group, artifact] :=
    parts?_eq_some_iff.2 ⟨_, hfields, by simp [hg.tight.trim_eq, ha.tight.trim_eq]⟩
  rw [parseKey, hparts]

/-- A key without the beginning that all of them have: what is in front of its `@`, and what is
behind that. -/
theorem Keyed.cut (h : Keyed scope key) (plain : scope.Plain) :
    ∃ entry module, key.toList = exclusionKey.toList ++ entry ∧
      (cut? '@' entry).getD (entry, []) =
        ((coordinateKey scope.group scope.artifact).toList, module) ∧
      (if module = [] then ['*'] else module) = scope.module.toList := by
  have hat : '@' ∉ (coordinateKey scope.group scope.artifact).toList := by
    simp [toList_coordinateKey, plain.group.notMem, plain.artifact.notMem]
  cases h with
  | inModule =>
    have hmodule : scope.module.toList ≠ [] := by simpa using plain.named
    refine ⟨(coordinateKey scope.group scope.artifact).toList ++ '@' ::
      scope.module.toList, scope.module.toList,
      by simp, ?_, if_neg hmodule⟩
    rw [cut?_append hat]
    rfl
  | everywhere group artifact =>
    refine ⟨(coordinateKey group artifact).toList, [], by simp, ?_, by simp⟩
    rw [cut?_of_notMem hat]
    rfl

/-- A key is read as what it was made for. -/
theorem exclusion?_of_keyed (h : Keyed scope key) (plain : scope.Plain) (version : String) :
    exclusion? key (some version) = .ok (some (exclusionAt scope version)) := by
  obtain ⟨entry, module, hkey, hcut, hmodule⟩ := h.cut plain
  have hparse := parseKey_coordinateKey plain.group plain.artifact
  simp only [exclusion?, hkey, behind?_append, hcut, String.ofList_toList, hparse,
    hmodule, plain.tight.trim_eq,
    Option.getD_some]
  rfl

/-- The key of a dependency tells what it is made of, for parts without a colon. -/
theorem eq_of_coordinateKey {group artifact group' artifact' : String} (hg : ':' ∉ group.toList)
    (ha : ':' ∉ artifact.toList)
    (h : coordinateKey group artifact = coordinateKey group' artifact') :
    group = group' ∧ artifact = artifact' := by
  have he : group.toList ++ ':' :: artifact.toList = group'.toList ++ ':' :: artifact'.toList := by
    rw [← toList_coordinateKey, ← toList_coordinateKey, h]
  have hg' : ':' ∉ group'.toList := by
    have hcount := congrArg (List.count ':') he
    rw [List.count_append, List.count_append, List.count_cons_self, List.count_cons_self,
      List.count_eq_zero.2 hg,
      List.count_eq_zero.2 ha] at hcount
    exact List.count_eq_zero.1 (by omega)
  have hcut := congrArg (cut? ':') he
  rw [cut?_append hg, cut?_append hg'] at hcut
  simpa [String.toList_inj] using hcut

end Keys

section Properties

/-- A property that states no exclusion.  As a list of candidates or the name of a format, its value
can be read. -/
structure Unrelated (key : String) (value : Option String) : Prop where
  other : ¬ exclusionKey.toList <+: key.toList
  candidates : key = "dependencyManagement" → ∀ text, value = some text → HasText text.toList →
    ∀ parts, Pieces ',' text.toList parts → ∀ part ∈ parts, IsReference part
  format : key = "versionPropertyFormat" → ∀ text, value = some text → text ≠ "" →
    ∃ format : VersionPropertyFormat, format.label.toList = (trim text.toList).map Char.toUpper

/-- A property that states the exclusion with this scope and version. -/
structure States (stated : ExclusionScope × String) (property : String × Option String) : Prop where
  key : Keyed stated.1 property.1
  value : property.2 = some stated.2

/-- Properties of which some state the exclusions of the table, one each, and the others none, in
any order. -/
structure StatesAll (table : OrderedMap ExclusionScope String) (props : PropertyMap) : Prop where
  plain : ∀ scope ∈ table.keys, scope.Plain
  mixed : ∃ stating others, List.Forall₂ States table.entries stating ∧
    (∀ property ∈ others, Unrelated property.1 property.2) ∧ props.entries.Perm (stating ++ others)

/-- What a property is read as: an exclusion, or nothing. -/
def ReadAs (property : String × Option String) (found : Option Exclusion) : Prop :=
  exclusion? property.1 property.2 = .ok found

private theorem Keyed.prefix_key (h : Keyed scope key) : exclusionKey.toList <+: key.toList := by
  cases h <;> simp

private theorem States.readAs {stated : ExclusionScope × String} {property : String × Option String}
    (h : States stated property) (plain : stated.1.Plain) :
    ReadAs property (exclusionAt stated.1 stated.2) := by
  rw [ReadAs, h.value, exclusion?_of_keyed h.key plain]

private theorem Unrelated.readAs {property : String × Option String}
    (h : Unrelated property.1 property.2) :
    ReadAs property none := by
  rw [ReadAs, exclusion?, behind?_eq_none h.other]

/-- The exclusions are what is read of any rearrangement of the properties. -/
theorem exclusionsOf_of_perm {properties : List (String × Option String)}
    {found : List (Option Exclusion)}
    (mixed : props.entries.Perm properties) (h : List.Forall₂ ReadAs properties found) :
    ∃ exclusions, exclusionsOf props = .ok exclusions ∧ exclusions.Perm (found.filterMap id) := by
  obtain ⟨found', hread, hperm⟩ := List.perm_comp_forall₂ mixed h
  have hm : props.entries.mapM (fun property => exclusion? property.1 property.2) = .ok found' :=
    ListReading.mapM_eq_ok_iff.2 hread
  refine ⟨found'.filterMap id, ?_, hperm.filterMap id⟩
  change (props.entries.mapM (fun property => exclusion? property.1 property.2) >>= _) = _
  rw [hm]
  rfl

/-- Whatever the order of the properties, the exclusions that are read are those of the table. -/
theorem StatesAll.exclusionsOf {table : OrderedMap ExclusionScope String}
    (h : StatesAll table props) :
    ∃ exclusions, AlignmentSettings.exclusionsOf props = .ok exclusions ∧
      exclusions.Perm (table.entries.map fun (scope, version) => exclusionAt scope version) := by
  obtain ⟨stating, others, hstates, hothers, mixed⟩ := h.mixed
  have hstated : List.Forall₂ ReadAs stating
      (table.entries.map fun (scope, version) => some (exclusionAt scope version)) := by
    have plain : ∀ entry ∈ table.entries, entry.1.Plain :=
      fun entry hm => h.plain _ (List.mem_map_of_mem hm)
    have hboth := (List.forall₂_and_left _ _).2 ⟨plain, hstates⟩
    rw [List.forall₂_map_right_iff]
    exact (hboth.imp fun _ _ hs => hs.2.readAs hs.1).flip
  have hnone : List.Forall₂ ReadAs others (others.map fun _ => none) := by
    rw [List.forall₂_map_right_iff, List.forall₂_same]
    exact fun property hm => (hothers property hm).readAs
  obtain ⟨exclusions, hread, hperm⟩ := exclusionsOf_of_perm mixed (List.rel_append hstated hnone)
  refine ⟨exclusions, hread, ?_⟩
  simpa [List.filterMap_append, List.filterMap_map, Function.comp_def] using hperm

private theorem parseList_of_references {text : String}
    (h : HasText text.toList → ∀ parts,
      Pieces ',' text.toList parts → ∀ part ∈ parts, IsReference part) :
    ∃ references, parseList text = .ok references := by
  by_cases hn : HasText text.toList
  · have hp : Pieces ',' text.toList (split ',' text.toList) := pieces_iff.2 rfl
    rw [parseList_of_hasText hn hp, ListReading.mapM_succeeds_iff]
    intro part hm
    obtain ⟨reference, hw⟩ := isReference_iff.1 (h hn _ hp part hm)
    exact ⟨reference, parseReference_eq_ok_iff.2 hw⟩
  · exact ⟨[], by rw [parseList, if_pos (trim_eq_nil_iff.2 hn)]⟩

private theorem formatOf_of_label {text : String}
    (h : text ≠ "" → ∃ format : VersionPropertyFormat,
      format.label.toList = (trim text.toList).map Char.toUpper) :
    ∃ format, formatOf (some text) = .ok format := by
  by_cases hn : text = ""
  · exact ⟨.literal, by simp [formatOf, hn]⟩
  · obtain ⟨format, hf⟩ := h hn
    have hm : format ∈ VersionPropertyFormat.all := by cases format <;> decide
    have hsome : (VersionPropertyFormat.ofLabel? text).isSome :=
      List.find?_isSome.2 ⟨format, hm, by simpa using hf⟩
    obtain ⟨found, hfound⟩ := Option.isSome_iff_exists.1 hsome
    exact ⟨found, by simp [formatOf, hn, hfound]⟩

/-- A property of another name does not state an exclusion. -/
theorem StatesAll.unrelated {table : OrderedMap ExclusionScope String}
    (h : StatesAll table props) {text : String}
    (hv : props.value? key = some text) (hk : ¬ exclusionKey.toList <+: key.toList) :
    Unrelated key (some text) := by
  obtain ⟨stating, others, hstates, hothers, mixed⟩ := h.mixed
  have hm : (key, some text) ∈ props.entries :=
    OrderedMap.get?_eq_some_iff.1 (Option.join_eq_some_iff.1 hv)
  rcases List.mem_append.1 (mixed.mem_iff.1 hm) with hm | hm
  · obtain ⟨_, -, hs⟩ := ListReading.exists_left hstates hm
    exact absurd hs.key.prefix_key hk
  · exact hothers _ hm

/-- The settings are read, and with them the exclusions of the table. -/
theorem StatesAll.ofProperties {table : OrderedMap ExclusionScope String}
    (h : StatesAll table props) :
    ∃ settings, AlignmentSettings.ofProperties props = .ok settings ∧
      settings.exclusions.Perm
        (table.entries.map fun (scope, version) => exclusionAt scope version) := by
  obtain ⟨references, hr⟩ : ∃ references,
      parseList ((props.value? "dependencyManagement").getD "") = .ok references := by
    cases hv : props.value? "dependencyManagement" with
    | none => exact ⟨[], by decide⟩
    | some text =>
      exact parseList_of_references ((h.unrelated hv (by decide)).candidates rfl text rfl)
  obtain ⟨format, hf⟩ : ∃ format, formatOf (props.value? "versionPropertyFormat") = .ok format := by
    cases hv : props.value? "versionPropertyFormat" with
    | none => exact ⟨.literal, rfl⟩
    | some text => exact formatOf_of_label ((h.unrelated hv (by decide)).format rfl text rfl)
  obtain ⟨exclusions, he, hperm⟩ := h.exclusionsOf
  obtain ⟨settings, hs, rfl⟩ : ∃ settings, AlignmentSettings.ofProperties props = .ok settings ∧
      settings.exclusions = exclusions := by
    rw [AlignmentSettings.ofProperties, hr, hf, he]
    exact ⟨_, rfl, rfl⟩
  exact ⟨settings, hs, hperm⟩

end Properties

section Lookups

/-- What no other element of a list is like is found in it, and nothing where there is no such
element. -/
theorem find?_eq_of_unique {α : Type} {l : List α} {p : α → Bool} {found : Option α}
    (h : ∀ x, x ∈ l ∧ p x = true ↔ found = some x) : l.find? p = found := by
  cases hf : l.find? p with
  | some x => exact ((h x).1 ⟨List.mem_of_find?_eq_some hf, List.find?_some hf⟩).symm
  | none =>
    cases found with
    | none => rfl
    | some x =>
      obtain ⟨hm, hp⟩ := (h x).2 rfl
      exact absurd hp (List.find?_eq_none.1 hf x hm)

/-- The exclusion that the table has for this scope. -/
def entryAt (table : OrderedMap ExclusionScope String)
    (scope : ExclusionScope) : Option Exclusion :=
  (table.get? scope).map (exclusionAt scope)

private theorem entryAt_eq_some_iff {table : OrderedMap ExclusionScope String}
    (plain : ∀ scope ∈ table.keys, scope.Plain)
    {settings : AlignmentSettings}
    (same : settings.exclusions.Perm
      (table.entries.map fun (scope, version) => exclusionAt scope version))
    {group artifact module : String} {e : Exclusion} :
    e ∈ settings.exclusions ∧ e.ga = coordinateKey group artifact ∧ e.module = module ↔
      entryAt table ⟨group, artifact, module⟩ = some e := by
  rw [same.mem_iff, entryAt, Option.map_eq_some_iff]
  constructor
  · rintro ⟨hm, hga, rfl⟩
    obtain ⟨⟨scope, version⟩, hs, rfl⟩ := List.mem_map.1 hm
    have hp := plain scope (List.mem_map_of_mem hs)
    obtain ⟨rfl, rfl⟩ := eq_of_coordinateKey hp.group.notMem.1 hp.artifact.notMem.1 hga
    exact ⟨version, OrderedMap.get?_eq_some_iff.2 hs, rfl⟩
  · rintro ⟨version, hv, rfl⟩
    exact ⟨List.mem_map_of_mem (OrderedMap.get?_eq_some_iff.1 hv), rfl, rfl⟩

end Lookups

/-- Where some properties state exclusions, one each, in keys whose parts can be told apart, and the
others can be read, the settings are read whatever the order of the properties.  A dependency has
the exclusion that is stated for it in the module, or else the one for every module, or else none,
with the version without the blanks around it. -/
theorem exclusions_are_found_as_stated {table : OrderedMap ExclusionScope String}
    (h : StatesAll table props) :
    ∃ settings, AlignmentSettings.ofProperties props = .ok settings ∧ ∀ group artifact module,
      settings.exclusionFor (coordinateKey group artifact) module =
        (entryAt table ⟨group, artifact, module⟩ <|> entryAt table ⟨group, artifact, "*"⟩) := by
  obtain ⟨settings, hs, same⟩ := h.ofProperties
  refine ⟨settings, hs, fun group artifact module => ?_⟩
  have hown :
    ∀ module' x, x ∈ settings.exclusions.filter (fun e => e.ga = coordinateKey group artifact) ∧
      decide (x.module = module') = true ↔ entryAt table ⟨group, artifact, module'⟩ = some x := by
    intro module' x
    rw [← entryAt_eq_some_iff h.plain same, List.mem_filter, decide_eq_true_iff,
      decide_eq_true_iff, and_assoc]
  have hall :
    (settings.exclusions.filter fun e => e.ga = coordinateKey group artifact).reverse.find?
      (fun e => e.module = "*") = entryAt table ⟨group, artifact, "*"⟩ :=
    find?_eq_of_unique fun x => by rw [List.mem_reverse, hown]
  rw [exclusionFor, find?_eq_of_unique (hown module), hall]

def forcedVersions : OrderedMap ExclusionScope String :=
  .ofList [(⟨"g", "a", "*"⟩, " 1.0 "), (⟨"g", "a", "h:m@2"⟩, "2.0\t"), (⟨"g", "b", "*"⟩, "")]

/-- The module's own exclusion comes first, and the one for every module does not name them. -/
def forcingProperties : PropertyMap :=
  .ofList [("dependencyExclusion.g:a@h:m@2", some "2.0\t"), ("strictAlignment", some "true"),
    ("dependencyExclusion.g:b@*", some ""), ("dependencyManagement", some "g:a:3.0"),
    ("dependencyExclusion.g:a", some " 1.0 ")]

private theorem statesAll_forcing : StatesAll forcedVersions forcingProperties := by
  refine ⟨by decide,
    [("dependencyExclusion.g:a", some " 1.0 "), ("dependencyExclusion.g:a@h:m@2", some "2.0\t"),
    ("dependencyExclusion.g:b@*", some "")],
    [("strictAlignment", some "true"), ("dependencyManagement", some "g:a:3.0")], ?_, ?_, by decide⟩
  · exact .cons ⟨.everywhere "g" "a", rfl⟩ <| .cons ⟨.inModule ⟨"g", "a", "h:m@2"⟩, rfl⟩ <|
      .cons ⟨.inModule ⟨"g", "b", "*"⟩, rfl⟩ .nil
  · have hstrict : Unrelated "strictAlignment" (some "true") := ⟨by decide, nofun, nofun⟩
    have hreference : IsReference "g:a:3.0".toList :=
      isReference_iff.2 ⟨⟨"g", "a", "3.0"⟩, parseReference_eq_ok_iff.1 (by decide)⟩
    have hcandidates : Unrelated "dependencyManagement" (some "g:a:3.0") := by
      refine ⟨by decide, ?_, nofun⟩
      rintro - _ ⟨⟩ - parts hp part hm
      have hsplit : split ',' "g:a:3.0".toList = ["g:a:3.0".toList] := by decide
      rw [← pieces_iff.1 hp, hsplit, List.mem_singleton] at hm
      exact hm ▸ hreference
    rw [List.forall_mem_cons, List.forall_mem_singleton]
    exact ⟨hstrict, hcandidates⟩

theorem exclusions_are_found_as_stated_mixed :
    StatesAll forcedVersions forcingProperties ∧
    ∃ settings, AlignmentSettings.ofProperties forcingProperties = .ok settings ∧
      settings.exclusionFor "g:a" "h:m@2" = some ⟨"g", "a", "h:m@2", "2.0"⟩ ∧
      settings.exclusionFor "g:a" "h:n" = some ⟨"g", "a", "*", "1.0"⟩ ∧
      settings.exclusionFor "g:b" "h:m@2" = some ⟨"g", "b", "*", ""⟩ ∧
        settings.exclusionFor "a:g" "h:n" = none := by
  obtain ⟨settings, hs, hfound⟩ := exclusions_are_found_as_stated statesAll_forcing
  refine ⟨statesAll_forcing, settings, hs, (hfound "g" "a" "h:m@2").trans ?_,
    (hfound "g" "a" "h:n").trans ?_,
    (hfound "g" "b" "h:m@2").trans ?_, (hfound "a" "g" "h:n").trans ?_⟩ <;> decide

end BuildAlign.AlignmentSettings
