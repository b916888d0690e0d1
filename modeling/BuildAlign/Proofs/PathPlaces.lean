import BuildAlign.ModuleDiscovery
import BuildAlign.Proofs.PomPathSpelling

/-! # Where paths lead

A path that is put together from two leads where the second one leads from the place of the first.
So the POM of a module lies in the directory of the module, however that is spelled. -/
namespace BuildAlign.ProjectPath

theorem names_append (s t : String) :
    (ofText (s ++ "/" ++ t)).names = (ofText s).names ++ (ofText t).names := by
  have hl : (s ++ "/" ++ t).toList = s.toList ++ '/' :: t.toList := by simp
  simp only [ofText, hl, DelimitedText.split_append_delimiter, List.map_append, List.filter_append]

private theorem anchorOf_eq_empty_iff {cs : List Char} :
    anchorOf cs = "" ↔ cs.head? ≠ some '/' := by
  cases cs with
  | nil => decide
  | cons c cs =>
    by_cases hc : c = '/'
    · subst hc
      refine iff_of_false ?_ (by simp)
      unfold anchorOf
      split
      · decide
      · decide
      · decide
      · next h => exact fun _ => h cs rfl
    · refine iff_of_true ?_ (by simpa using hc)
      unfold anchorOf
      split
      · next h => exact absurd (List.cons.inj h).1 hc
      · next h => exact absurd (List.cons.inj h).1 hc
      · next h => exact absurd (List.cons.inj h).1 hc
      · rfl

theorem anchor_append {s : String} (hs : s ≠ "") (t : String) :
    (ofText (s ++ "/" ++ t)).anchor = "" ↔ (ofText s).anchor = "" := by
  obtain ⟨c, cs, hc⟩ := List.exists_cons_of_ne_nil (mt String.toList_eq_nil_iff.1 hs)
  simp only [ofText, anchorOf_eq_empty_iff, String.toList_append, hc,
    List.cons_append, List.head?_cons]

/-- No name of a path and no part of its anchor has a null character. -/
structure Plain (p : ProjectPath) : Prop where
  anchor : '\x00' ∉ p.anchor.toList
  names : ∀ name ∈ p.names, '\x00' ∉ name.toList

private theorem mem_intercalate_iff {c : Char} {pieces : List (List Char)} (h : c ≠ '/') :
    c ∈ ['/'].intercalate pieces ↔ ∃ piece ∈ pieces, c ∈ piece := by
  induction pieces with
  | nil => simp
  | cons piece pieces ih =>
    cases pieces with
    | nil => simp
    | cons next pieces => simp [List.intercalate_cons_cons, ih, h]

private theorem plain_iff {p : ProjectPath} : p.Plain ↔ p.text.toList.contains '\x00' = false := by
  obtain ⟨anchor, names⟩ := p
  have hp : Plain ⟨anchor, names⟩ ↔ '\x00' ∉ anchor.toList ∧ ∀ name ∈ names, '\x00' ∉ name.toList :=
    ⟨fun h => ⟨h.anchor, h.names⟩, fun h => ⟨h.1, h.2⟩⟩
  have hs : "/".toList = ['/'] := rfl
  rw [hp, text]
  split
  · next h =>
    simp only [Bool.and_eq_true, decide_eq_true_eq] at h
    obtain ⟨rfl, rfl⟩ := h
    simp
  · simp [String.toList_intercalate, hs, mem_intercalate_iff]

theorem plain_ofText {s : String} (h : '\x00' ∉ s.toList) : (ofText s).Plain := by
  refine ⟨?_, fun name hn hc => h ?_⟩
  · simp only [ofText, anchorOf]
    split <;> decide
  · obtain ⟨piece, hp, rfl⟩ := List.mem_map.1 (List.mem_filter.1 hn).1
    rw [String.toList_ofList] at hc
    exact DelimitedText.mem_of_mem_split hp hc

theorem Plain.join {p q : ProjectPath} (hp : p.Plain) (hq : q.Plain) : (p.join q).Plain := by
  rw [ProjectPath.join]
  split
  · exact ⟨hp.anchor, fun name hn => (List.mem_append.1 hn).elim (hp.names name) (hq.names name)⟩
  · exact hq

theorem Plain.of_join {p q : ProjectPath} (h : (p.join q).Plain) (hq : q.anchor = "") :
    p.Plain := by
  rw [ProjectPath.join, if_pos hq] at h
  exact ⟨h.anchor, fun name hn => h.names name (List.mem_append_left _ hn)⟩

/-- The bytes of names, each with a slash. -/
def spelledSize (names : List String) : Nat :=
  names.foldr (fun name size => name.utf8ByteSize + 1 + size) 0

theorem spelledSize_cons (name : String) (names : List String) :
    spelledSize (name :: names) = name.utf8ByteSize + 1 + spelledSize names := rfl

theorem spelledSize_append (names more : List String) :
    spelledSize (names ++ more) = spelledSize names + spelledSize more := by
  induction names with
  | nil => exact (Nat.zero_add _).symm
  | cons name names ih =>
    rw [List.cons_append, spelledSize_cons, spelledSize_cons, ih]
    exact (Nat.add_assoc _ _ _).symm

/-- The bytes of a path: those of its names, with a slash between them. -/
theorem size_text {p : ProjectPath} (h : p.names ≠ []) :
    p.text.utf8ByteSize + 1 = p.anchor.utf8ByteSize + spelledSize p.names := by
  obtain ⟨anchor, names⟩ := p
  have hjoined : ∀ {l : List String}, l ≠ [] →
      ("/".intercalate l).utf8ByteSize + 1 = spelledSize l := by
    intro l hl
    induction l with
    | nil => exact absurd rfl hl
    | cons name l ih =>
      cases l with
      | nil => simp [spelledSize]
      | cons next l =>
        have hs : "/".utf8ByteSize = 1 := rfl
        have hrest := ih (List.cons_ne_nil next l)
        rw [String.intercalate_cons_cons, String.utf8ByteSize_append,
          String.utf8ByteSize_append, spelledSize_cons]
        omega
  have hn : names ≠ [] := h
  have ht : text ⟨anchor, names⟩ = anchor ++ "/".intercalate names := by
    rw [text, if_neg]
    simp [hn]
  have hs := hjoined hn
  rw [ht, String.utf8ByteSize_append]
  simp only
  omega

theorem ofText_pomFile : ofText ModuleDiscovery.pomFile = ⟨"", [ModuleDiscovery.pomFile]⟩ := by
  decide +kernel

theorem child_pomFile (p : ProjectPath) :
    p.child ModuleDiscovery.pomFile = ⟨p.anchor, p.names ++ [ModuleDiscovery.pomFile]⟩ := by
  rw [child, ofText_pomFile]
  rfl

end BuildAlign.ProjectPath

namespace BuildAlign.Disk
open ProjectPath
variable {disk : Disk}

theorem resolve_child_relative (p : ProjectPath) {name : String} (h : (ofText name).anchor = "") :
    disk.resolve (p.child name) = (ofText name).names.foldl walk (disk.resolve p) := by
  have hs : disk.start ⟨p.anchor, p.names ++ (ofText name).names⟩ = disk.start p := rfl
  simp only [child, join, if_pos h, resolve, hs, List.foldl_append]

private theorem resolve_child_absolute (p : ProjectPath) {name : String}
    (h : (ofText name).anchor ≠ "") :
    disk.resolve (p.child name) = (ofText name).names.foldl walk [] := by
  simp only [child, join, if_neg h, resolve, start]

theorem resolve_child_pomFile (p : ProjectPath) :
    disk.resolve (p.child ModuleDiscovery.pomFile) =
      disk.resolve p ++ [ModuleDiscovery.pomFile] := by
  rw [resolve_child_relative p (by rw [ofText_pomFile]), ofText_pomFile]
  rfl

theorem lookup_of_plain {p : ProjectPath} (h : p.Plain) :
    disk.lookup p = if longestPath < p.text.utf8ByteSize then .tooLong
    else disk.follow (disk.start p) p.names := by
  rw [lookup, if_neg (by rw [plain_iff.1 h]; decide)]

theorem plain_of_lookup {p : ProjectPath} {text : String} (h : disk.lookup p = .file text) :
    p.Plain := by
  rw [plain_iff]
  by_contra hn
  rw [Bool.not_eq_false] at hn
  rw [lookup, if_pos hn] at h
  cases h

/-- A directory that is there can be walked through. -/
theorem follow_append {location : Location} {names : List String}
    (h : disk.follow location names = .directory)
    (more : List String) :
    disk.follow location (names ++ more) = disk.follow (names.foldl walk location) more := by
  induction names generalizing location with
  | nil => rfl
  | cons name names ih =>
    simp only [follow, List.cons_append, List.foldl_cons] at h ⊢
    split at h
    · cases h
    · next hd =>
      split at h
      · cases h
      · next hl =>
        rw [if_neg hd, if_neg hl]
        exact ih h

theorem isDirectory_of_follow {location : Location} {names : List String}
    (h : disk.follow location names = .directory) :
    disk.isDirectory (names.foldl walk location) = true := by
  have hf := follow_append h []
  rw [List.append_nil, h, follow] at hf
  by_contra hn
  rw [if_neg hn] at hf
  split at hf <;> cases hf

/-- What can be followed further is a directory. -/
theorem follow_of_append {location : Location} {names more : List String} {text : String}
    (h : disk.follow location (names ++ more) = .file text) (hm : more ≠ []) :
    disk.follow location names = .directory := by
  induction names generalizing location with
  | nil =>
    obtain ⟨name, more, rfl⟩ := List.exists_cons_of_ne_nil hm
    rw [List.nil_append, follow] at h
    rw [follow]
    split at h
    · cases h
    · next hd => rw [if_pos (by simpa using hd)]
  | cons name names ih =>
    simp only [follow, List.cons_append] at h ⊢
    split at h
    · cases h
    · next hd =>
      split at h
      · cases h
      · next hl =>
        rw [if_neg hd, if_neg hl]
        exact ih h

end BuildAlign.Disk

namespace BuildAlign.ModuleDiscovery
open ProjectPath

/-- Where a directory of a project lies. -/
def placeOf (disk : Disk) (project : ProjectPath) (directory : String) : Location :=
  disk.resolve (project.child directory)

theorem placeOf_empty (disk : Disk) (project : ProjectPath) :
    placeOf disk project "" = disk.resolve project := by
  have ho : ofText "" = ⟨"", []⟩ := by decide +kernel
  rw [placeOf, Disk.resolve_child_relative project (by rw [ho]), ho]
  rfl

theorem placeOf_dot (disk : Disk) (project : ProjectPath) :
    placeOf disk project "." = disk.resolve project := by
  have ho : ofText "." = ⟨"", []⟩ := by decide +kernel
  rw [placeOf, Disk.resolve_child_relative project (by rw [ho]), ho]
  rfl

end BuildAlign.ModuleDiscovery

namespace BuildAlign.PomModule
open ModuleDiscovery ProjectPath

/-- The POM of a module lies in its directory. -/
theorem resolve_target (disk : Disk) (project : ProjectPath) (m : PomModule) :
    disk.resolve (project.child m.target) =
      placeOf disk project (m.directory.getD ".") ++ [pomFile] := by
  have hpom : disk.resolve (project.child "pom.xml") = disk.resolve project ++ [pomFile] :=
    Disk.resolve_child_pomFile project
  unfold target
  split
  · next h => rw [h, hpom, Option.getD_none, placeOf_dot]
  · next h => rw [h, hpom, Option.getD_some, placeOf_empty]
  · next h => rw [h, hpom, Option.getD_some, placeOf_dot]
  · next directory hne _ h =>
    have he : directory ++ "/pom.xml" = directory ++ "/" ++ pomFile := by
      rw [String.append_assoc]
      rfl
    rw [h, Option.getD_some, placeOf, he]
    by_cases ha : (ofText directory).anchor = ""
    · rw [Disk.resolve_child_relative project ((anchor_append hne _).2 ha),
        names_append, ofText_pomFile,
        List.foldl_append, Disk.resolve_child_relative project ha]
      rfl
    · rw [Disk.resolve_child_absolute project (mt (anchor_append hne _).1 ha),
        names_append, ofText_pomFile,
        List.foldl_append, Disk.resolve_child_absolute project ha]
      rfl

end BuildAlign.PomModule
