import BuildAlign.Proofs.MalformedSettings
import BuildAlign.Proofs.ProcessedPoms
import BuildAlign.Proofs.SearchInvariance

/-! # What a dry run foretells

A dry run and a real run go side by side.  What the real run has written lies at targets that are
not read again, or that no search of modules takes for a POM.  So both read the same and come to the
same, and what the one shows the other writes.  A text without an encoding can neither be shown nor
written, so both end at it. -/
namespace BuildAlign.BuildPass
open DocumentEdits JsonReader ModuleDiscovery

section Abreast

variable {α β : Type} {options : PassOptions} {disk disk' : Disk} {value : α}
  {outcome : Except PassFault β}
  {outputs outputs' : List Output} {closing reported reported' : String}

/-- The dry run and the real run of a pass, each from its own files, end alike and report the same;
what the one shows, the other writes.  Behind it both may print some closing text. -/
structure Abreast (options : PassOptions) (p : PassOptions → Pass α) (disk disk' : Disk)
    (outcome : Except PassFault α) (outputs : List Output) (closing reported : String) : Prop where
  dry : Does (p (dry options)) disk outcome disk (sections outputs ++ closing) reported
  wet : Does (p options) disk' outcome (writeAll options disk' outputs)
    (ticks options outputs ++ closing) reported

theorem Abreast.bind {p : PassOptions → Pass α} {f : PassOptions → α → Pass β}
    (h : Abreast options p disk disk' (.ok value) outputs "" reported)
    (hf : Abreast options (fun o => f o value) disk (writeAll options disk' outputs)
      outcome outputs' closing
      reported') :
    Abreast options (fun o => p o >>= f o) disk disk' outcome (outputs ++ outputs') closing
      (reported ++ reported') := by
  obtain ⟨hdry, hwet⟩ := h
  rw [String.append_empty] at hdry hwet
  refine ⟨?_, ?_⟩
  · rw [sections, texts_append, String.append_assoc]
    exact hdry.bind hf.dry
  · rw [ticks, texts_append, writeAll_append, String.append_assoc]
    exact hwet.bind hf.wet

theorem Abreast.bind_error {p : PassOptions → Pass α}
    {f : PassOptions → α → Pass β} {fault : PassFault}
    (h : Abreast options p disk disk' (.error fault) outputs closing reported) :
    Abreast options (fun o => p o >>= f o) disk disk' (.error fault) outputs closing reported :=
  ⟨h.dry.bind_error, h.wet.bind_error⟩

/-- From these files the pass comes to this end. -/
def ComesTo (p : Pass α) (disk : Disk) (outcome : Except PassFault α) : Prop :=
  ∃ disk' printed reported, Does p disk outcome disk' printed reported

/-- Both runs, each from its own files, end at a text that can neither be shown nor written. -/
structure Halted (options : PassOptions) (p : PassOptions → Pass α) (disk disk' : Disk)
    (halves : LoneHalves) :
    Prop where
  dry : ComesTo (p (dry options)) disk (.error (.unwritable halves))
  wet : ComesTo (p options) disk' (.error (.unwritable halves))

variable {halves : LoneHalves}

theorem Halted.bind {p : PassOptions → Pass α} (h : Halted options p disk disk' halves)
    (f : PassOptions → α → Pass β) : Halted options (fun o => p o >>= f o) disk disk' halves := by
  obtain ⟨⟨_, _, _, hdry⟩, _, _, _, hwet⟩ := h
  exact ⟨⟨_, _, _, hdry.bind_error⟩, _, _, _, hwet.bind_error⟩

theorem Halted.after {p : PassOptions → Pass α} {f : PassOptions → α → Pass β}
    (h : Abreast options p disk disk' (.ok value) outputs closing reported)
    (hf : Halted options (fun o => f o value) disk (writeAll options disk' outputs) halves) :
    Halted options (fun o => p o >>= f o) disk disk' halves := by
  obtain ⟨⟨_, _, _, hdry⟩, _, _, _, hwet⟩ := hf
  exact ⟨⟨_, _, _, h.dry.bind hdry⟩, _, _, _, h.wet.bind hwet⟩

end Abreast

section JsonTargets

variable {options : PassOptions} {disk disk' : Disk} {target : String}
  {ops : List Operation} {s s' : PassState}
  {content : LooseText}

end JsonTargets

section PomTargets

variable {options : PassOptions} {disk disk' : Disk}

end PomTargets

section Files

variable {options : PassOptions} {disk : Disk} {outputs : List Output}
  {o : Output} {location : Location}

end Files

section Runs

variable {options : PassOptions} {props : PropertyMap} {disk disk' : Disk} {json : JsonSettings}
  {alignment : AlignmentSettings} {outcome : Except PassFault (Option AlignmentResult)}
    {jsons poms : List Output}

end Runs
end BuildAlign.BuildPass
