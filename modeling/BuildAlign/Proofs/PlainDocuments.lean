import BuildAlign.XmlReader

/-! # Documents without references

Nothing is replaced in a document that refers to no entity, so the tree is built from its tokens as
they stand. -/
namespace BuildAlign.XmlReader
open XmlTokens XmlDoctype

variable {d : Declarations} {ts : List Token} {text : String} {root : XmlNode}

private theorem expand_of_plain (h : ∀ t ∈ ts, mentionsOf t = []) (available : List String) :
    expand d available ts = some ts := by
  induction ts with
  | nil => rw [expand]
  | cons t ts ih =>
    have hn : ∀ name, t ≠ .reference name := by
      rintro name rfl
      cases h _ List.mem_cons_self
    rw [expand, ih fun t ht => h t (List.mem_cons_of_mem _ ht), Option.map_some]
    exact hn

private theorem charge_nil (d : Declarations) (size : Nat) :
    charge d size [] = some d := by simp [charge, leftOf]

/-- The root of a document in the usual encoding that has no declaration of its own and no
references. -/
def plainRoot? (text : String) : Option XmlNode := do
  if withoutMark text = text ∧ XmlEncoding.suggested text = .utf8 ∧
      XmlDeclaration.declaration text.toList = some (⟨none, false⟩, text.toList) then
    let (d, content) ← prologue .unicode false none (LineEnds.normalize text.toList)
    let ts ← tokens .unicode content
    if ts.all fun t => (mentionsOf t).isEmpty then build d ts else none
  else none

private theorem read_of_plainRoot? (h : plainRoot? text = some root) : read text = .ok root := by
  rw [plainRoot?] at h
  split at h
  · next hplain =>
    obtain ⟨hmark, hsuggested, hbare⟩ := hplain
    obtain ⟨⟨d, content⟩, hp, h⟩ := Option.bind_eq_some_iff.1 h
    obtain ⟨ts, ht, h⟩ := Option.bind_eq_some_iff.1 h
    split at h
    · next hn =>
      have hnone : ∀ t ∈ ts, mentionsOf t = [] := by simpa using hn
      have hread : (XmlEncoding.suggested text).reread? text = some text.toList := by
        rw [hsuggested]
        rfl
      have he : encodingOf text = .ok .utf8 := by
        rw [encodingOf, hread, Option.bind_some, hbare, hsuggested]
      have hr : root? .utf8 text = some root := by
        rw [hsuggested] at hread
        have ha : XmlEncoding.utf8.alphabet = .unicode := rfl
        have hm : ts.flatMap mentionsOf = [] := List.flatMap_eq_nil_iff.2 hnone
        simp [root?, hread, hbare, ha, hp, ht, hm, charge_nil, expand_of_plain hnone, h]
      simp only [read, hmark, he, Bind.bind, Except.bind, hr]
      rfl
    · cases h
  · cases h

private theorem withoutMark_ofList_iff (cs : List Char) :
    withoutMark (String.ofList cs) = String.ofList cs ↔ cs.head? ≠ some '\uFEFF' := by
  rw [withoutMark, String.toList_ofList]
  split
  · refine iff_of_false (fun h => ?_) (not_not_intro rfl)
    have hl := congrArg String.toList h
    rw [String.toList_ofList, String.toList_ofList] at hl
    exact List.cons_ne_self _ _ hl.symm
  · next hn =>
    refine iff_of_true rfl fun h => ?_
    obtain ⟨tail, rfl⟩ := List.head?_eq_some_iff.1 h
    exact hn tail rfl

/-- The root of such a document, found from its characters. -/
def plainRootIn? (cs : List Char) : Option XmlNode := do
  if cs.head? ≠ some '\uFEFF' ∧ XmlEncoding.suggested (String.ofList cs) = .utf8 ∧
      XmlDeclaration.declaration cs = some (⟨none, false⟩, cs) then
    let (d, content) ← prologue .unicode false none (LineEnds.normalize cs)
    let ts ← tokens .unicode content
    if ts.all fun t => (mentionsOf t).isEmpty then build d ts else none
  else none

/-- A document that is spelled out need not be taken apart into its characters. -/
theorem plainRoot?_ofList (cs : List Char) : plainRoot? (String.ofList cs) = plainRootIn? cs := by
  simp only [plainRoot?, plainRootIn?, String.toList_ofList, withoutMark_ofList_iff]

/-- The tree of a document without references. -/
def treeOf (text : String) : XmlNode := (plainRoot? text).getD (.comment "")

theorem read_of_isSome (h : (plainRoot? text).isSome) : read text = .ok (treeOf text) := by
  obtain ⟨tree, ht⟩ := Option.isSome_iff_exists.1 h
  rw [treeOf, read_of_plainRoot? ht, ht, Option.getD_some]

end BuildAlign.XmlReader
