import BuildAlign.ProjectFiles
import BuildAlign.Proofs.OrderedMapLookup

/-! # Writing files that are there

A file that is written anew stays in its place, so directories stay the same.  At its path the new
text is found, and at every path that leads elsewhere what was there before. -/
namespace BuildAlign.Disk
variable {disk : Disk} {p q : ProjectPath} {text : String}

private theorem keys_write (h : disk.lookup p = .file text) (written : String) :
    (disk.write p written).files.keys = disk.files.keys :=
  OrderedMap.keys_put_of_mem (OrderedMap.mem_keys_of_get? (get?_of_lookup h)) written

private theorem isDirectory_write (h : disk.lookup p = .file text) (written : String)
    (location : Location) :
    (disk.write p written).isDirectory location = disk.isDirectory location := by
  have hk := keys_write h written
  have hh : (disk.write p written).home = disk.home := rfl
  simp only [isDirectory, hk, hh]

theorem get?_write (p : ProjectPath) (written : String) (location : Location) :
    (disk.write p written).files.get? location =
      if disk.resolve p = location then some written else disk.files.get? location :=
  OrderedMap.get?_insert disk.files (disk.resolve p) location written

private theorem follow_write (h : disk.lookup p = .file text)
    (written : String) {location : Location}
    {names : List String} (hne : names.foldl walk location ≠ disk.resolve p) :
    (disk.write p written).follow location names = disk.follow location names := by
  induction names generalizing location with
  | nil =>
    have hn : disk.resolve p ≠ location := Ne.symm hne
    simp only [follow, isDirectory_write h, get?_write, if_neg hn]
  | cons name names ih => simp only [follow, isDirectory_write h, ih hne]

private theorem follow_write_self (h : disk.lookup p = .file text)
    (written : String) {location : Location}
    {names : List String} {before : String} (he : names.foldl walk location = disk.resolve p)
    (hf : disk.follow location names = .file before) :
    (disk.write p written).follow location names = .file written := by
  induction names generalizing location with
  | nil =>
    have hp : disk.resolve p = location := he.symm
    simp only [follow, isDirectory_write h, get?_write, if_pos hp] at hf ⊢
    split at hf
    · cases hf
    · next hd => rw [if_neg hd]
  | cons name names ih =>
    simp only [follow, isDirectory_write h] at hf ⊢
    split at hf
    · cases hf
    · next hd =>
      split at hf
      · cases hf
      · next hl =>
        rw [if_neg hd, if_neg hl]
        exact ih he hf

/-- Elsewhere nothing changes. -/
theorem lookup_write (h : disk.lookup p = .file text) (written : String)
    (hne : disk.resolve q ≠ disk.resolve p) :
    (disk.write p written).lookup q = disk.lookup q := by
  simp only [lookup]
  split
  · rfl
  · split
    · rfl
    · exact follow_write h written hne

/-- At its path the new text is found. -/
theorem lookup_write_self (h : disk.lookup p = .file text) (written : String) :
    (disk.write p written).lookup p = .file written := by
  have hf := h
  simp only [lookup] at hf ⊢
  split at hf
  · cases hf
  · next hz =>
    split at hf
    · cases hf
    · next hl =>
      rw [if_neg hz, if_neg hl]
      exact follow_write_self h written rfl hf

private theorem follow_write_cases (h : disk.lookup p = .file text)
    (written : String) (location : Location)
    (names : List String) :
    (disk.write p written).follow location names = disk.follow location names ∨
      disk.follow location names = .file text ∧
        (disk.write p written).follow location names = .file written := by
  induction names generalizing location with
  | nil =>
    simp only [follow, isDirectory_write h, get?_write]
    by_cases hl : disk.resolve p = location
    · have hg := get?_of_lookup h
      rw [hl] at hg
      rw [if_pos hl, hg]
      split
      · exact .inl rfl
      · exact .inr ⟨rfl, rfl⟩
    · rw [if_neg hl]
      exact .inl rfl
  | cons name names ih =>
    simp only [follow, isDirectory_write h]
    split
    · exact .inl rfl
    · split
      · exact .inl rfl
      · exact ih _

/-- After a file is written anew, a path leads to what it led to before, or from the old text to the
new one. -/
theorem lookup_write_cases (h : disk.lookup p = .file text) (written : String) (q : ProjectPath) :
    (disk.write p written).lookup q = disk.lookup q ∨
      disk.lookup q = .file text ∧ (disk.write p written).lookup q = .file written := by
  simp only [lookup]
  split
  · exact .inl rfl
  · split
    · exact .inl rfl
    · exact follow_write_cases h written _ _

end BuildAlign.Disk
