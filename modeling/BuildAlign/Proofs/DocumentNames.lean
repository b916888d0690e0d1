import BuildAlign.Proofs.DelimitedPieces
import BuildAlign.XmlDoctype
import Mathlib.Data.List.TakeWhile

/-! # The names in a document

Names are made of characters of which an opening brace is none.  So no name that a tag or a
declaration has, and none that stands in the text of an entity, can be taken for one that is written
with its namespace. -/
namespace BuildAlign.XmlTokens
open XmlCharacters

/-- A label without an opening brace. -/
def Unbraced (label : String) : Prop := '\x7b' ∉ label.toList

/-- The names of a tag are without braces, as they are written. -/
def Token.Unbraced : Token → Prop
  | .openTag name written _ =>
    XmlTokens.Unbraced name.label ∧ ∀ w ∈ written, XmlTokens.Unbraced w.1.label
  | _ => True

variable {a : Alphabet} {cs rest : List Char}

private theorem isNameChar_brace (a : Alphabet) : isNameChar a '\x7b' = false := by
  cases a <;> decide +kernel

private theorem unbraced_of_all {p : Char → Bool} (hp : p '\x7b' = false) {run : List Char}
    (h : ∀ c ∈ run, p c = true) : Unbraced (String.ofList run) := by
  intro hm
  rw [String.toList_ofList] at hm
  rw [h _ hm] at hp
  cases hp

private theorem unbraced_name {label : String} (h : name a cs = some (label, rest)) :
    Unbraced label := by
  cases cs with
  | nil => cases h
  | cons c cs =>
    rw [name] at h
    split at h
    · next hc =>
      cases h
      refine unbraced_of_all (isNameChar_brace a) fun c' hm => ?_
      rcases List.mem_cons.1 hm with rfl | hm
      · rw [isNameChar, hc, Bool.true_or]
      · exact List.mem_takeWhile_imp hm
    · cases h

private theorem unbraced_qualifiedName {n : QualifiedName}
    (h : qualifiedName a cs = some (n, rest)) : Unbraced n.label := by
  obtain ⟨⟨first, behind⟩, hf, h⟩ := Option.bind_eq_some_iff.1 h
  dsimp only at h
  split at h
  · obtain ⟨⟨label, behind⟩, hl, h⟩ := Option.bind_eq_some_iff.1 h
    cases h
    exact unbraced_name hl
  · cases h
    exact unbraced_name hf

private theorem unbraced_singleAttribute {w : RawAttribute}
    (h : singleAttribute a cs = some (w, rest)) : Unbraced w.1.label := by
  obtain ⟨⟨n, behind⟩, hn, h⟩ := Option.bind_eq_some_iff.1 h
  have hb := unbraced_qualifiedName hn
  dsimp only at h
  split at h
  · split at h
    · split at h
      · obtain ⟨⟨pieces, behind⟩, -, h⟩ := Option.bind_eq_some_iff.1 h
        cases h
        exact hb
      · cases h
    · cases h
  · cases h

private theorem unbraced_attributes {written : List RawAttribute} {closed : Bool}
    (h : attributes a cs = some (written, closed, rest)) : ∀ w ∈ written, Unbraced w.1.label := by
  fun_induction attributes a cs generalizing written closed rest with
  | case1 => cases h; exact List.forall_mem_nil _
  | case2 => cases h; exact List.forall_mem_nil _
  | case3 => cases h
  | case4 cs _ _ _ ih =>
    obtain ⟨⟨first, behind⟩, hf, h⟩ := Option.bind_eq_some_iff.1 h
    dsimp only at h
    split at h
    · next hl =>
      obtain ⟨⟨others, ends, behind⟩, ho, h⟩ := Option.bind_eq_some_iff.1 h
      cases h
      exact List.forall_mem_cons.2 ⟨unbraced_singleAttribute hf, ih _ hl ho⟩
    · cases h

private theorem unbraced_openTag {t : Token} (h : openTag a cs = some (t, rest)) : t.Unbraced := by
  obtain ⟨⟨n, behind⟩, hn, h⟩ := Option.bind_eq_some_iff.1 h
  obtain ⟨⟨written, closed, behind⟩, hw, h⟩ := Option.bind_eq_some_iff.1 h
  cases h
  exact ⟨unbraced_qualifiedName hn, unbraced_attributes hw⟩

private theorem unbraced_token {t : Token} (h : token a cs = some (t, rest)) : t.Unbraced := by
  unfold token at h
  split at h
  · grind [comment, Option.bind_eq_some_iff, Token.Unbraced]
  · grind [characterData, Option.bind_eq_some_iff, Token.Unbraced]
  · grind [instruction, Option.bind_eq_some_iff, Token.Unbraced]
  · grind [closeTag, Option.bind_eq_some_iff, Token.Unbraced]
  · exact unbraced_openTag h
  · obtain ⟨⟨r, behind⟩, -, he⟩ := Option.map_eq_some_iff.1 h
    cases r <;> (cases he; trivial)
  · grind [text, Token.Unbraced]

/-- All names in the tags of a text are without braces. -/
theorem unbraced_tokens {ts : List Token} (h : tokens a cs = some ts) : ∀ t ∈ ts, t.Unbraced := by
  fun_induction tokens a cs generalizing ts with
  | case1 => cases h; exact List.forall_mem_nil _
  | case2 => cases h
  | case3 cs _ t rest ht _ ih =>
    obtain ⟨later, hl, rfl⟩ := Option.map_eq_some_iff.1 h
    exact List.forall_mem_cons.2 ⟨unbraced_token ht, ih hl⟩
  | case4 => cases h

end BuildAlign.XmlTokens

namespace BuildAlign.XmlDoctype
open XmlCharacters XmlTokens

/-- A name that a declaration is made of is without braces. -/
def Word.Unbraced : Word → Prop
  | .name n _ => XmlTokens.Unbraced n.label
  | _ => True

/-- The attributes that have been declared are without braces. -/
def Declarations.Unbraced (d : Declarations) : Prop :=
  ∀ rule ∈ d.attributes, XmlTokens.Unbraced rule.name.label

section Words

variable {a : Alphabet} {cs rest : List Char}

private theorem unbraced_declaredName? {run : List Char} {n : QualifiedName}
    (hr : '\x7b' ∉ run) (h : declaredName? a run = some n) : XmlTokens.Unbraced n.label := by
  unfold declaredName? at h
  split at h
  · cases h
  · split at h
    · cases h
      rwa [XmlTokens.Unbraced, String.toList_ofList]
    · next qualifier label hc =>
      split at h
      · cases h
      · cases h
        rw [XmlTokens.Unbraced, String.toList_ofList]
        rw [DelimitedText.eq_of_cut? hc] at hr
        exact fun hm => hr (List.mem_append_right _ (List.mem_cons_of_mem _ hm))

private theorem unbraced_nameWord {w : Word} (h : nameWord a cs = some (w, rest)) : w.Unbraced := by
  have hrun : '\x7b' ∉ cs.takeWhile fun c => isNameChar a c || c = ':' := by
    intro hm
    simpa [isNameChar_brace] using List.mem_takeWhile_imp hm
  simp only [nameWord] at h
  split at h
  · cases h
  · split at h
    · next n hn =>
      obtain ⟨_, -, he⟩ := Option.map_eq_some_iff.1 h
      cases he
      exact unbraced_declaredName? hrun hn
    · split at h
      · cases h
        trivial
      · cases h

private theorem unbraced_word {w : Word} (h : word a cs = some (w, rest)) : w.Unbraced := by
  unfold word at h
  split at h
  case h_15 => exact unbraced_nameWord h
  all_goals grind [literalWord, percentWord, Option.bind_eq_some_iff,
    Option.map_eq_some_iff, Word.Unbraced]

private theorem unbraced_words {inSubset : Bool} {ws : List Word}
    (h : words a inSubset cs = some (ws, rest)) : ∀ w ∈ ws, w.Unbraced := by
  fun_induction words a inSubset cs generalizing ws rest with
  | case1 => cases h
  | case2 => cases h; exact List.forall_mem_nil _
  | case3 _ cs w behind hw =>
    rename_i ih
    obtain ⟨⟨later, end'⟩, hl, he⟩ := Option.map_eq_some_iff.1 h
    cases he
    exact List.forall_mem_cons.2 ⟨unbraced_word hw, ih hl⟩
  | case4 => cases h

end Words

/-! Whatever a declaration takes from the words before it, what it leaves is among them. -/
section Leftovers

variable {a : Alphabet} {d d' : Declarations} {ws rest : List Word}

private theorem externalId?_subset (h : externalId? ws = some rest) : rest ⊆ ws := by
  unfold externalId? at h
  split at h <;> grind

private theorem notationDeclaration_subset (h : notationDeclaration ws = some rest) :
    rest ⊆ ws := by
  unfold notationDeclaration at h
  split at h
  · grind
  · split at h
    · next he =>
      cases h
      have := externalId?_subset he
      grind
    · cases h
  · cases h

private theorem mixedContent_subset (h : mixedContent ws = some rest) : rest ⊆ ws := by
  fun_induction mixedContent ws <;> grind

private theorem contentModel_subset {groups : List (Option Word)} {operand : Bool}
    (h : contentModel groups operand ws = some rest) : rest ⊆ ws := by
  fun_induction contentModel groups operand ws <;> grind

private theorem elementDeclaration_subset (h : elementDeclaration ws = some rest) : rest ⊆ ws := by
  unfold elementDeclaration at h
  split at h
  · grind
  · grind
  · grind
  · have := mixedContent_subset h
    grind
  · have := contentModel_subset h
    grind
  · cases h

private theorem enumeration_subset {namesOnly : Bool} (h : enumeration namesOnly ws = some rest) :
    rest ⊆ ws := by
  fun_induction enumeration namesOnly ws <;> grind

private theorem attributeType_subset {verbatim : Bool}
    (h : attributeType ws = some (verbatim, rest)) :
    rest ⊆ ws := by
  unfold attributeType at h
  split at h
  · obtain ⟨left, hl, he⟩ := Option.map_eq_some_iff.1 h
    cases he
    exact List.subset_cons_of_subset _ (enumeration_subset hl)
  · obtain ⟨left, hl, he⟩ := Option.map_eq_some_iff.1 h
    cases he
    exact List.subset_cons_of_subset _ (List.subset_cons_of_subset _ (enumeration_subset hl))
  · grind
  · cases h

theorem attributes_charge {size : Nat} {mentions : List Mention}
    (h : charge d size mentions = some d') :
    d'.attributes = d.attributes := by
  obtain ⟨left, -, rfl⟩ := Option.map_eq_some_iff.1 h
  rfl

private theorem attributeDefault_leaves {verbatim : Bool} {default : Option (List ValuePiece)}
    (h : attributeDefault a d verbatim ws = some (d', default, rest)) :
    d'.attributes = d.attributes ∧ rest ⊆ ws := by
  have hcharged : ∀ {cs : List Char} {after : List Word},
      (if d.suspended then some (d, none, after) else do
        let found ← valuePieces a none cs
        let d ← charge d 0 (mentionsOfValue found.1)
        let value ← attributeValue d verbatim found.1
        return (d, some (value.map .literal), after)) = some (d', default, rest) →
      d'.attributes = d.attributes ∧ rest = after := by
    intro cs after h
    split at h
    · cases h
      exact ⟨rfl, rfl⟩
    · obtain ⟨found, -, h⟩ := Option.bind_eq_some_iff.1 h
      obtain ⟨charged, hc, h⟩ := Option.bind_eq_some_iff.1 h
      obtain ⟨value, -, h⟩ := Option.bind_eq_some_iff.1 h
      cases h
      exact ⟨attributes_charge hc, rfl⟩
  unfold attributeDefault at h
  split at h
  · grind
  · grind
  · have := hcharged h
    grind
  · have := hcharged h
    grind
  · cases h

private theorem attributes_declareEntity (d : Declarations) (name : String) (entity : Entity) :
    (d.declareEntity name entity).attributes = d.attributes := by
  unfold Declarations.declareEntity
  split <;> rfl

private theorem entityDeclaration_leaves (h : entityDeclaration a d ws = some (d', rest)) :
    d'.attributes = d.attributes ∧ rest ⊆ ws := by
  unfold entityDeclaration at h
  split at h
  · grind
  · next ws =>
    split at h
    · next he =>
      cases h
      have := externalId?_subset he
      grind
    · cases h
  · split at h
    · grind
    · obtain ⟨text, -, he⟩ := Option.map_eq_some_iff.1 h
      cases he
      exact ⟨attributes_declareEntity .., by grind⟩
  · next ws _ =>
    split at h
    · next he =>
      cases h
      have := externalId?_subset he
      exact ⟨attributes_declareEntity .., by grind⟩
    · next he =>
      cases h
      have := externalId?_subset he
      exact ⟨attributes_declareEntity .., by grind⟩
    · cases h
  · cases h

private theorem unbraced_declareAttribute (hd : d.Unbraced) {rule : AttributeRule}
    (hr : XmlTokens.Unbraced rule.name.label) : (d.declareAttribute rule).Unbraced := by
  unfold Declarations.declareAttribute
  split
  · exact hd
  · intro other hm
    rcases List.mem_append.1 hm with hm | hm
    · exact hd other hm
    · exact List.mem_singleton.1 hm ▸ hr

private theorem attributeList_leaves {element : QualifiedName} (hd : d.Unbraced)
    (hw : ∀ w ∈ ws, w.Unbraced) (h : attributeList a d element ws = some (d', rest)) :
    d'.Unbraced ∧ rest ⊆ ws := by
  fun_induction attributeList a d element ws with
  | case1 => cases h; exact ⟨hd, List.subset_cons_self ..⟩
  | case2 d n following ih =>
    obtain ⟨hn, hf⟩ := List.forall_mem_cons.1 hw
    obtain ⟨⟨verbatim, left⟩, ht, h⟩ := Option.bind_eq_some_iff.1 h
    obtain ⟨⟨charged, default, left'⟩, hv, h⟩ := Option.bind_eq_some_iff.1 h
    dsimp only at h
    split at h
    · next hl =>
      obtain ⟨hc, hleft⟩ := attributeDefault_leaves hv
      have hleft' : left' ⊆ following := List.Subset.trans hleft (attributeType_subset ht)
      have hcharged : charged.Unbraced := by
        rw [Declarations.Unbraced, hc]
        exact hd
      obtain ⟨hb, hr⟩ :=
        ih _ _ _ _ hl (unbraced_declareAttribute hcharged hn) (fun w hm => hf w (hleft' hm)) h
      exact ⟨hb, List.subset_cons_of_subset _ (List.Subset.trans hr hleft')⟩
    · cases h
  | case3 => cases h

private theorem unbraced_subset (hd : d.Unbraced) (hw : ∀ w ∈ ws, w.Unbraced)
    (h : subset a d ws = some (d', rest)) : d'.Unbraced := by
  fun_induction subset a d ws with
  | case1 => cases h; exact hd
  | case2 d following ih => exact ih hd (List.forall_mem_cons.1 hw).2 h
  | case3 d entity following ih => exact ih hd (List.forall_mem_cons.1 hw).2 h
  | case4 d keyword following declared d₁ left hl hlt ih =>
    have hf := (List.forall_mem_cons.1 hw).2
    have hleaves : d₁.Unbraced ∧ left ⊆ following := by
      simp only [declared] at hl
      split at hl
      · obtain ⟨he, hs⟩ := entityDeclaration_leaves hl
        exact ⟨by rw [Declarations.Unbraced, he]; exact hd, hs⟩
      · obtain ⟨_, hs, he⟩ := Option.map_eq_some_iff.1 hl
        cases he
        exact ⟨hd, notationDeclaration_subset hs⟩
      · obtain ⟨_, hs, he⟩ := Option.map_eq_some_iff.1 hl
        cases he
        exact ⟨hd, elementDeclaration_subset hs⟩
      · obtain ⟨hb, hs⟩ := attributeList_leaves hd (List.forall_mem_cons.1 hf).2 hl
        exact ⟨hb, List.subset_cons_of_subset _ hs⟩
      · cases hl
    exact ih hleaves.1 (fun w hm => hf w (hleaves.2 hm)) h
  | case5 => cases h
  | case6 => cases h
  | case7 => cases h

end Leftovers

theorem unbraced_none (standalone : Bool) :
    (Declarations.none standalone).Unbraced := List.forall_mem_nil _

private theorem unbraced_internal {a : Alphabet} {standalone incomplete : Bool} {ws : List Word}
    {behind rest : List Char} {d : Declarations}
    (h : (match ws with
      | [] => some ({ Declarations.none standalone with incomplete := incomplete }, behind)
      | .openSubset :: ws => do
        let (d, ws) ← subset a { Declarations.none standalone with incomplete := incomplete } ws
        if ws = [] then return (d, behind) else none
      | _ => none) = some (d, rest)) (hw : ∀ w ∈ ws, w.Unbraced) : d.Unbraced := by
  split at h
  · cases h
    exact unbraced_none standalone
  · obtain ⟨⟨declared, last⟩, hs, h⟩ := Option.bind_eq_some_iff.1 h
    have hd : declared.Unbraced := by
      refine unbraced_subset ?_ (List.forall_mem_cons.1 hw).2 hs
      exact unbraced_none standalone
    dsimp only at h
    split at h
    · cases h
      exact hd
    · cases h
  · cases h

/-- All names of attributes that a document type declares are without braces. -/
theorem unbraced_doctype {a : Alphabet} {standalone : Bool} {cs rest : List Char} {d : Declarations}
    (h : doctype a standalone cs = some (d, rest)) : d.Unbraced := by
  obtain ⟨⟨ws, behind⟩, hw, h⟩ := Option.bind_eq_some_iff.1 h
  have hb := unbraced_words hw
  dsimp only at h
  split at h
  · next n following =>
    have hf := (List.forall_mem_cons.1 hb).2
    cases he : externalId? following with
    | some left =>
      have hl : ∀ w ∈ left, w.Unbraced := fun w hm => hf w (externalId?_subset he hm)
      rw [he] at h
      exact unbraced_internal h hl
    | none =>
      rw [he] at h
      exact unbraced_internal h hf
  · cases h

end BuildAlign.XmlDoctype
