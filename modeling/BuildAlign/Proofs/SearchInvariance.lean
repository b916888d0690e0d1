import BuildAlign.Proofs.FailingRuns
import BuildAlign.Proofs.ModuleSearch
import BuildAlign.Proofs.PassOutputs

/-! # Files that a search of modules does not tell apart

A search reads POMs.  Where one file holds a text that is no document in place of another one that
is none either, it ends in the same way; and a JSON document is no XML document, neither before it
has been edited nor after. -/
namespace BuildAlign
open ModuleDiscovery ProjectPath

/-- Files that differ at most in texts that are no XML documents. -/
structure SameDocuments (disk disk' : Disk) : Prop where
  home : disk'.home = disk.home
  paths : ∀ path, disk'.lookup path = disk.lookup path ∨
    ∃ text text', disk.lookup path = .file text ∧ disk'.lookup path = .file text' ∧
      XmlReader.read text = .error .malformed ∧ XmlReader.read text' = .error .malformed

theorem SameDocuments.refl (disk : Disk) : SameDocuments disk disk := ⟨rfl, fun _ => .inl rfl⟩

/-- A further text that is no document takes the place of one that is none. -/
theorem SameDocuments.write {disk disk' : Disk} {path : ProjectPath} {text written : String}
    (h : SameDocuments disk disk') (present : disk'.lookup path = .file text)
    (before : XmlReader.read text = .error .malformed)
    (after : XmlReader.read written = .error .malformed) :
    SameDocuments disk (disk'.write path written) := by
  refine ⟨h.home, fun q => ?_⟩
  rcases Disk.lookup_write_cases present written q with hq | ⟨ht, hw⟩
  · rw [hq]
    exact h.paths q
  · rcases h.paths q with hq | ⟨first, _, hfirst, -, hmalformed, -⟩
    · exact .inr ⟨text, written, hq ▸ ht, hw, before, after⟩
    · exact .inr ⟨first, written, hfirst, hw, hmalformed, after⟩

namespace ModuleDiscovery

variable {disk disk' : Disk} {project : ProjectPath} {directory text : String}
  {pom : LoadedModule} {fault : PassFault}

private theorem load_of_malformed (h : XmlReader.read text = .error .malformed)
    (directory : String) :
    LoadedModule.load directory text = .error .malformed := by
  rw [LoadedModule.load, h]
  rfl

theorem Blocked.congr (h : SameDocuments disk disk') (hb : Blocked disk project directory fault) :
    Blocked disk' project directory fault := by
  rcases h.paths (pomPath project directory) with he | ⟨text, text', hl, hl', hm, hm'⟩
  · cases hb with
    | directory hd => exact .directory (he.trans hd)
    | tooLong ht => exact .tooLong (he.trans ht)
    | unreadable hf hload => exact .unreadable (he.trans hf) hload
  · cases hb with
    | directory hd => cases hl.symm.trans hd
    | tooLong ht => cases hl.symm.trans ht
    | unreadable hf hload =>
      cases hl.symm.trans hf
      cases (load_of_malformed hm directory).symm.trans hload
      exact .unreadable hl' (load_of_malformed hm' directory)

end ModuleDiscovery

namespace BuildPass

end BuildPass
end BuildAlign
