import BuildAlign.Proofs.DocumentNames
import BuildAlign.XmlPrinter
import BuildAlign.XmlReader

/-! # Trees that can be written

A name in no namespace cannot be written when it begins with an opening brace.  No tree that is read
has such a name: the names of its elements and attributes come from tags and declarations. -/
namespace BuildAlign.XmlReader
open XmlCharacters XmlTokens XmlDoctype XmlPrinter

private theorem unbraced_prologue {a : Alphabet} {standalone : Bool} {seen : Option Declarations}
    {cs rest : List Char} {d : Declarations} (hs : ∀ d ∈ seen, d.Unbraced)
    (h : prologue a standalone seen cs = some (d, rest)) : d.Unbraced := by
  fun_induction prologue a standalone seen cs with
  | case1 seen cs start next _ _ seen' behind hn _ ih
  | case4 seen cs start next _ _ seen' behind hn _ ih =>
    refine ih (fun d hd => ?_) h
    simp only [next] at hn
    clear_value next start
    split at hn
    · obtain ⟨_, -, he⟩ := Option.map_eq_some_iff.1 hn
      cases he
      exact hs d hd
    · obtain ⟨_, -, he⟩ := Option.map_eq_some_iff.1 hn
      cases he
      exact hs d hd
    · obtain ⟨behind', -, hn⟩ := Option.bind_eq_some_iff.1 hn
      split at hn
      · cases hn
      · obtain ⟨⟨declared, _⟩, hd', he⟩ := Option.bind_eq_some_iff.1 hn
        cases he
        cases hd
        exact unbraced_doctype hd'
    · cases hn
  | case7 seen cs =>
    obtain ⟨rfl, -⟩ := Prod.mk.inj (Option.some.inj h)
    cases seen with
    | none => exact unbraced_none standalone
    | some d => exact hs d rfl
  | case2 | case3 | case5 | case6 | case8 => cases h

private theorem unbraced_expand {d : Declarations} {available : List String} {ts ts' : List Token}
    (ht : ∀ t ∈ ts, t.Unbraced) (h : expand d available ts = some ts') : ∀ t ∈ ts', t.Unbraced := by
  fun_induction expand d available ts generalizing ts' with
  | case1 => cases h; exact ht
  | case2 available name rest replacement _ _ _ inner hi _ ihi ihr =>
    obtain ⟨inner', hi', h⟩ := Option.bind_eq_some_iff.1 h
    obtain ⟨rest', hr', h⟩ := Option.bind_eq_some_iff.1 h
    cases h
    refine List.forall_mem_append.2 ⟨List.forall_mem_cons.2 ⟨trivial, ?_⟩, ?_⟩
    · exact ihi (unbraced_tokens hi) hi'
    · exact ihr (List.forall_mem_cons.1 ht).2 hr'
  | case3 | case4 | case5 | case6 => cases h
  | case7 available t rest _ ih =>
    obtain ⟨rest', hr, rfl⟩ := Option.map_eq_some_iff.1 h
    have ht := List.forall_mem_cons.1 ht
    exact List.forall_mem_cons.2 ⟨ht.1, ih ht.2 hr⟩

section Names

variable {d : Declarations} {scope : Scope} {n : QualifiedName}

private theorem label_elementName {m : XmlName} (h : elementName scope n = some m) :
    m.label = n.label := by
  unfold elementName at h
  split at h
  · obtain ⟨space, -, rfl⟩ := Option.map_eq_some_iff.1 h
    rfl
  · cases h
    rfl

private theorem label_attributeName {m : XmlName} (h : attributeName scope n = some m) :
    m.label = n.label := by
  unfold attributeName at h
  split at h
  · obtain ⟨space, -, rfl⟩ := Option.map_eq_some_iff.1 h
    rfl
  · cases h
    rfl

private theorem isWritableName_of_unbraced {m : XmlName} (h : Unbraced m.label) :
    isWritableName m = true := by
  have hb : m.label.toList.head? ≠ some '\x7b' := fun he => h (List.mem_of_head? he)
  simp [isWritableName, hb]

private theorem exists_of_mapM {α β : Type} {read : α → Option β} {l : List α} {l' : List β}
    (h : l.mapM read = some l') {y : β} (hy : y ∈ l') : ∃ x ∈ l, read x = some y := by
  induction l generalizing l' with
  | nil =>
    cases h
    cases hy
  | cons x l ih =>
    rw [List.mapM_cons] at h
    obtain ⟨first, hx, h⟩ := Option.bind_eq_some_iff.1 h
    obtain ⟨others, hl, h⟩ := Option.bind_eq_some_iff.1 h
    cases h
    rcases List.mem_cons.1 hy with rfl | hy
    · exact ⟨x, List.mem_cons_self, hx⟩
    · exact (ih hl hy).imp fun x' hm => ⟨List.mem_cons_of_mem _ hm.1, hm.2⟩

private theorem exists_of_filterMapM {α β : Type} {read : α → Option (Option β)}
    {l : List α} {l' : List β}
    (h : l.filterMapM read = some l') {y : β} (hy : y ∈ l') : ∃ x ∈ l, read x = some (some y) := by
  induction l generalizing l' with
  | nil =>
    cases h
    cases hy
  | cons x l ih =>
    rw [List.filterMapM_cons] at h
    obtain ⟨first, hx, h⟩ := Option.bind_eq_some_iff.1 h
    cases first with
    | none => exact (ih h hy).imp fun x' hm => ⟨List.mem_cons_of_mem _ hm.1, hm.2⟩
    | some first =>
      obtain ⟨others, hl, h⟩ := Option.bind_eq_some_iff.1 h
      cases h
      rcases List.mem_cons.1 hy with rfl | hy
      · exact ⟨x, List.mem_cons_self, hx⟩
      · exact (ih hl hy).imp fun x' hm => ⟨List.mem_cons_of_mem _ hm.1, hm.2⟩

private theorem unbraced_completeAttributes {written : List RawAttribute}
    {complete : List (QualifiedName × String)} (hd : d.Unbraced)
    (hw : ∀ w ∈ written, Unbraced w.1.label)
    (h : completeAttributes d n written = some complete) : ∀ c ∈ complete, Unbraced c.1.label := by
  unfold completeAttributes at h
  dsimp only at h
  split at h
  · cases h
  · obtain ⟨own, ho, h⟩ := Option.bind_eq_some_iff.1 h
    obtain ⟨defaults, hf, h⟩ := Option.bind_eq_some_iff.1 h
    cases h
    intro c hc
    rcases List.mem_append.1 hc with hc | hc
    · obtain ⟨w, hm, he⟩ := exists_of_mapM ho hc
      obtain ⟨value, -, he⟩ := Option.bind_eq_some_iff.1 he
      cases he
      exact hw w hm
    · obtain ⟨rule, hm, he⟩ := exists_of_filterMapM hf hc
      have hb := hd rule (List.mem_filter.1 hm).1
      split at he
      · cases he
      · obtain ⟨value, -, he⟩ := Option.bind_eq_some_iff.1 he
        cases he
        exact hb

end Names

section Tree

/-- An open element that can be written, as far as it has been read. -/
structure OpenElement.Writable (e : OpenElement) : Prop where
  name : isWritableName e.name = true
  attributes : ∀ held ∈ e.attributes, isWritableName held.1 = true
  children : ∀ child ∈ e.children, isWritable child.1 = true

/-- What has been built of a tree can be written. -/
structure Builder.Writable (b : Builder) : Prop where
  root : ∀ root ∈ b.root, isWritable root = true
  stack : ∀ e ∈ b.stack, e.Writable

variable {d : Declarations} {scope : Scope} {b b' : Builder}

theorem areWritable_iff {children : List XmlChild} :
    areWritable children = true ↔ ∀ child ∈ children, isWritable child.1 = true := by
  induction children with
  | nil => simp [areWritable]
  | cons child children ih => simp [areWritable, ih]

private theorem isWritable_element_iff {name : XmlName}
    {attributes : List (XmlName × String)} {text : String}
    {children : List XmlChild} : isWritable (.element name attributes text children) = true ↔
      isWritableName name = true ∧ (∀ held ∈ attributes, isWritableName held.1 = true) ∧
        ∀ child ∈ children, isWritable child.1 = true := by
  simp [isWritable, areWritable_iff, and_assoc]

private theorem writable_openElement {raw : QualifiedName}
    {written : List RawAttribute} {e : OpenElement}
    (hd : d.Unbraced) (hr : Unbraced raw.label) (hw : ∀ w ∈ written, Unbraced w.1.label)
    (h : openElement d scope raw written = some e) : e.Writable := by
  obtain ⟨complete, hc, h⟩ := Option.bind_eq_some_iff.1 h
  obtain ⟨inner, -, h⟩ := Option.bind_eq_some_iff.1 h
  obtain ⟨name, hn, h⟩ := Option.bind_eq_some_iff.1 h
  obtain ⟨held, ha, h⟩ := Option.bind_eq_some_iff.1 h
  split at h
  · cases h
    refine ⟨isWritableName_of_unbraced (label_elementName hn ▸ hr), fun a hm => ?_,
      List.forall_mem_nil _⟩
    obtain ⟨w, hw', he⟩ := exists_of_mapM ha hm
    obtain ⟨name, hn, he⟩ := Option.bind_eq_some_iff.1 he
    cases he
    have hb := unbraced_completeAttributes hd hw hc w (List.mem_filter.1 hw').1
    exact isWritableName_of_unbraced (label_attributeName hn ▸ hb)
  · cases h

private theorem OpenElement.Writable.node {e : OpenElement} (h : e.Writable) :
    isWritable e.node = true :=
  isWritable_element_iff.2 ⟨h.name, h.attributes,
    fun child hm => h.children child (List.mem_reverse.1 hm)⟩

private theorem OpenElement.Writable.addChild {e : OpenElement} (h : e.Writable) {child : XmlNode}
    (hc : isWritable child = true) : (e.addChild child).Writable :=
  ⟨h.name, h.attributes, List.forall_mem_cons.2 ⟨hc, h.children⟩⟩

private theorem OpenElement.Writable.addText {e : OpenElement} (h : e.Writable) (s : String) :
    (e.addText s).Writable := by
  obtain ⟨hn, ha, hc⟩ := h
  unfold OpenElement.addText
  split
  · exact ⟨hn, ha, hc⟩
  · next child tail children he =>
    rw [he, List.forall_mem_cons] at hc
    exact ⟨hn, ha, List.forall_mem_cons.2 hc⟩

private theorem Builder.Writable.close (h : b.Writable) {node : XmlNode}
    (hn : isWritable node = true)
    {stack : List OpenElement} (hs : ∀ e ∈ stack, e.Writable) : (b.close node stack).Writable := by
  cases stack with
  | nil => exact ⟨fun root hr => Option.some.inj hr ▸ hn, List.forall_mem_nil _⟩
  | cons parent stack =>
    have hs := List.forall_mem_cons.1 hs
    exact ⟨h.root, List.forall_mem_cons.2 ⟨hs.1.addChild hn, hs.2⟩⟩

/-- Every token leaves a tree that can be written. -/
theorem Builder.Writable.step (h : b.Writable) (hd : d.Unbraced) {t : Token} (ht : t.Unbraced)
    (hb : b.step d t = some b') : b'.Writable := by
  unfold Builder.step at hb
  split at hb
  · cases hb
    exact h
  · next cs parent stack he =>
    cases hb
    have hs := List.forall_mem_cons.1 (he ▸ h.stack)
    exact ⟨h.root, List.forall_mem_cons.2 ⟨hs.1.addChild rfl, hs.2⟩⟩
  · cases hb
    exact h
  · next cs parent stack he =>
    cases hb
    have hs := List.forall_mem_cons.1 (he ▸ h.stack)
    exact ⟨h.root, List.forall_mem_cons.2 ⟨hs.1.addText _, hs.2⟩⟩
  · next cs parent stack he =>
    cases hb
    have hs := List.forall_mem_cons.1 (he ▸ h.stack)
    exact ⟨h.root, List.forall_mem_cons.2 ⟨hs.1.addText _, hs.2⟩⟩
  · split at hb
    · cases hb
      exact h
    · cases hb
  · next raw written closed =>
    dsimp only at hb
    split at hb
    · cases hb
    · obtain ⟨e, he, hb⟩ := Option.bind_eq_some_iff.1 hb
      have hw := writable_openElement hd ht.1 ht.2 he
      cases hb
      split
      · exact h.close hw.node h.stack
      · exact ⟨h.root, List.forall_mem_cons.2 ⟨hw, h.stack⟩⟩
  · next raw e stack he =>
    have hs := List.forall_mem_cons.1 (he ▸ h.stack)
    split at hb
    · cases hb
      exact h.close hs.1.node hs.2
    · cases hb
  · cases hb

private theorem writable_foldlM {ts : List Token} (hd : d.Unbraced) (ht : ∀ t ∈ ts, t.Unbraced)
    (h : b.Writable) (hb : ts.foldlM (Builder.step d) b = some b') : b'.Writable := by
  induction ts generalizing b with
  | nil =>
    cases hb
    exact h
  | cons t ts ih =>
    rw [List.foldlM_cons] at hb
    obtain ⟨next, hn, hb⟩ := Option.bind_eq_some_iff.1 hb
    have ht := List.forall_mem_cons.1 ht
    exact ih ht.2 (h.step hd ht.1 hn) hb

private theorem writable_build {ts : List Token} {root : XmlNode} (hd : d.Unbraced)
    (ht : ∀ t ∈ ts, t.Unbraced) (h : build d ts = some root) : isWritable root = true := by
  unfold build at h
  split at h
  · next hb =>
    have hempty : Builder.Writable ⟨none, []⟩ :=
      ⟨fun root hr => absurd hr (Option.not_mem_none root), List.forall_mem_nil _⟩
    exact (writable_foldlM hd ht hempty hb).root root h
  · cases h

end Tree

private theorem writable_root? {encoding : XmlEncoding} {text : String} {root : XmlNode}
    (h : root? encoding text = some root) : isWritable root = true := by
  obtain ⟨reread, -, h⟩ := Option.bind_eq_some_iff.1 h
  obtain ⟨⟨head, rest⟩, -, h⟩ := Option.bind_eq_some_iff.1 h
  obtain ⟨⟨d, content⟩, hd, h⟩ := Option.bind_eq_some_iff.1 h
  obtain ⟨ts, ht, h⟩ := Option.bind_eq_some_iff.1 h
  obtain ⟨charged, hc, h⟩ := Option.bind_eq_some_iff.1 h
  obtain ⟨expanded, he, h⟩ := Option.bind_eq_some_iff.1 h
  have hb : charged.Unbraced := by
    rw [Declarations.Unbraced, attributes_charge hc]
    exact unbraced_prologue (fun _ hs => absurd hs (Option.not_mem_none _)) hd
  exact writable_build hb (unbraced_expand (unbraced_tokens ht) he) h

/-- Every tree that is read can be written. -/
theorem isWritable_of_read {text : String} {root : XmlNode} (h : read text = .ok root) :
    isWritable root = true := by
  unfold read at h
  dsimp only at h
  cases he : encodingOf (withoutMark text) with
  | error fault =>
    rw [he] at h
    cases h
  | ok encoding =>
    simp only [he, Bind.bind, Except.bind] at h
    split at h
    · next hr =>
      cases h
      exact writable_root? hr
    · cases h

end BuildAlign.XmlReader
