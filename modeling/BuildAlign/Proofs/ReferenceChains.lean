import BuildAlign.Proofs.ReferenceSources
import Mathlib.Data.List.Nodup
import Mathlib.Logic.Relation

/-! # Chains of references

A version stands for the value of the property that is chosen for editing, if it stands for a
version at all.  A chain of references is followed to its end by both if it is no longer than the
longest one that is allowed.  What is too long, and what goes round in a circle, still mentions a
reference when it is given up. -/
namespace BuildAlign.PropertyReferences

variable {props : PropertyMap} {name next p q literal : String} {names : List String}

/-- The text that refers to a property. -/
def referenceTo (name : String) : String := "$\x7b" ++ name ++ "\x7d"

/-- A name that can stand in a reference. -/
structure Referable (name : String) : Prop where
  nonempty : name ≠ ""
  closed : '\x7d' ∉ name.toList

/-- A chain of references: the name that it begins with, the names behind it, each of which the
value of the one before refers to, and the literal that is the value of the last one. -/
inductive Chain (props : PropertyMap) : String → List String → String → Prop
  | last {name literal : String} (hn : Referable name) (h : props.value? name = some literal)
    (hl : mentionsReference literal.toList = false) : Chain props name [] literal
  | link {name next literal : String} {names : List String} (hn : Referable name)
    (h : props.value? name = some (referenceTo next)) (later : Chain props next names literal) :
    Chain props name (next :: names) literal

/-- A property is found for the first name, also without a mention of the project, and its value is
a reference to the second one. -/
def Refers (props : PropertyMap) (name next : String) : Prop :=
  definition? props name = some (some (referenceTo next))

section References

private theorem toList_referenceTo (name : String) :
    (referenceTo name).toList = '$' :: '\x7b' :: (name.toList ++ ['\x7d']) := by
  simp [referenceTo]

private theorem mentionsReference_referenceTo (name : String) :
    mentionsReference (referenceTo name).toList = true := by
  rw [toList_referenceTo]
  rfl

/-- A name ends at the first closing brace. -/
theorem cut_at_brace {name : List Char} (h : '\x7d' ∉ name) (rest : List Char) :
    (name ++ '\x7d' :: rest).takeWhile (· ≠ '\x7d') = name ∧
      (name ++ '\x7d' :: rest).dropWhile (· ≠ '\x7d') = '\x7d' :: rest := by
  have hp : ∀ c ∈ name, decide (c ≠ '\x7d') = true :=
    fun c hc => decide_eq_true fun he => h (he ▸ hc)
  constructor
  · rw [List.takeWhile_append_of_pos hp, List.takeWhile_cons_of_neg (by simp), List.append_nil]
  · rw [List.dropWhile_append_of_pos hp, List.dropWhile_cons_of_neg (by simp)]

private theorem reference?_referenceTo (h : Referable name) :
    reference? (referenceTo name) = some name := by
  obtain ⟨ht, hd⟩ := cut_at_brace h.closed []
  have hn : name.toList ≠ [] := mt String.toList_eq_nil_iff.1 h.nonempty
  rw [reference?, toList_referenceTo]
  simp only [ht, hd, if_neg hn, String.ofList_toList]

/-- What refers to a name refers to no other one. -/
theorem eq_of_reference? (h : reference? (referenceTo name) = some next) : next = name := by
  by_cases hc : '\x7d' ∈ name.toList
  · -- Behind the first brace there is at least the one at the end.
    obtain ⟨front, back, hname, hf⟩ := List.eq_append_cons_of_mem hc
    obtain ⟨ht, hd⟩ := cut_at_brace hf (back ++ ['\x7d'])
    rw [reference?, toList_referenceTo, hname, List.append_assoc, List.cons_append] at h
    simp only [ht, hd] at h
    split at h
    · cases h
    · cases back <;> simp at h
  · by_cases hn : name = ""
    · subst hn
      cases h
    · exact (Option.some.inj ((reference?_referenceTo ⟨hn, hc⟩).symm.trans h)).symm

end References

section Chains

private theorem Chain.referable (h : Chain props name names literal) : Referable name := by
  cases h <;> assumption

private theorem Chain.literal_plain (h : Chain props name names literal) :
    mentionsReference literal.toList = false := by
  induction h with
  | last _ _ hl => exact hl
  | link _ _ _ ih => exact ih

private theorem definition?_of_value? (h : props.value? name = some literal) :
    definition? props name = some (some literal) := by
  rw [definition?, Option.join_eq_some_iff.1 h]
  rfl

private theorem lastValue_referenceTo (hn : Referable name)
    (h : definition? props name = some (some literal)) (steps : Nat) :
    lastValue props (steps + 1) (referenceTo name) =
      if mentionsReference literal.toList then lastValue props steps literal else some literal := by
  rw [lastValue, reference?_referenceTo hn, Option.bind_some, h]

/-- The name that is chosen is so many references behind the first one as may be followed. -/
theorem Chain.lastName_eq (h : Chain props name names literal) (steps : Nat) :
    lastName props steps (referenceTo name) = (name :: names)[min steps names.length]? := by
  induction h generalizing steps with
  | @last name literal hn h hl =>
    cases steps with
    | zero => exact reference?_referenceTo hn
    | succ steps => simp [lastName, reference?_referenceTo hn, h, reference?_eq_none hl]
  | @link name next literal names hn h later ih =>
    cases steps with
    | zero => simp [lastName, reference?_referenceTo hn]
    | succ steps =>
      have hnext : (reference? (referenceTo next)).isSome = true := by
        rw [reference?_referenceTo later.referable]; rfl
      simp only [lastName, reference?_referenceTo hn, h, hnext, if_true, ih steps, List.length_cons,
        Nat.add_min_add_right, List.getElem?_cons_succ]

/-- Of the texts behind the first name, that one is reached which is so many references away as may
be followed. -/
theorem Chain.lastValue_eq (h : Chain props name names literal) (steps : Nat) :
    lastValue props (steps + 1) (referenceTo name) =
      (names.map referenceTo ++ [literal])[min steps names.length]? := by
  induction h generalizing steps with
  | @last name literal hn h hl =>
    rw [lastValue_referenceTo hn (definition?_of_value? h), hl, List.length_nil, Nat.min_zero]
    rfl
  | @link name next literal names hn h later ih =>
    rw [lastValue_referenceTo hn (definition?_of_value? h),
      mentionsReference_referenceTo, if_pos rfl]
    cases steps with
    | zero => rfl
    | succ steps => rw [ih steps, List.length_cons, Nat.add_min_add_right]; rfl

private theorem Chain.resolve_of_short (h : Chain props name names literal)
    (hs : names.length ≤ longestChain) :
    resolve props (referenceTo name) = some literal := by
  rw [resolve, h.lastValue_eq, Nat.min_eq_right hs, List.getElem?_append_right (by simp),
    List.length_map, Nat.sub_self]
  rfl

private theorem Chain.resolve_of_long (h : Chain props name names literal)
    (hl : longestChain < names.length) :
    resolve props (referenceTo name) = some (referenceTo names[longestChain]) := by
  rw [resolve, h.lastValue_eq, Nat.min_eq_left (Nat.le_of_lt hl),
    List.getElem?_append_left (by simpa using hl), List.getElem?_map,
    List.getElem?_eq_getElem hl, Option.map_some]

private theorem Chain.resolve_eq_literal_iff (h : Chain props name names literal) :
    resolve props (referenceTo name) = some literal ↔ names.length ≤ longestChain := by
  refine ⟨fun he => ?_, h.resolve_of_short⟩
  by_contra hl
  have hr := Option.some.inj ((h.resolve_of_long (Nat.lt_of_not_le hl)).symm.trans he)
  have hm := h.literal_plain
  rw [← hr, mentionsReference_referenceTo] at hm
  cases hm

/-- As the names on a chain are different, the last one is chosen only if the chain is short
enough. -/
theorem Chain.resolveName_eq_last_iff (h : Chain props name names literal)
    (hd : (name :: names).Nodup) :
    resolveName props (referenceTo name) = (name :: names).getLast? ↔
      names.length ≤ longestChain := by
  have hlast : (name :: names).getLast? = (name :: names)[names.length]? :=
    List.getLast?_eq_getElem? ..
  have hlength : names.length < (name :: names).length := Nat.lt_succ_self _
  rw [resolveName, h.lastName_eq, hlast]
  refine ⟨fun he => ?_, fun hs => by rw [Nat.min_eq_right hs]⟩
  have hmin : names.length = min longestChain names.length :=
    (List.getElem?_inj hlength hd).1 he.symm
  exact hmin ▸ Nat.min_le_left ..

end Chains

section Circles
open Relation

/-- Where the references lead round in a circle, there is always a next one. -/
theorem exists_refers (hc : TransGen (Refers props) p p) (h : ReflTransGen (Refers props) q p) :
    ∃ next, Refers props q next ∧ ReflTransGen (Refers props) next p := by
  rcases h.cases_head with rfl | hnext
  · exact TransGen.head'_iff.1 hc
  · exact hnext

/-- However many references may be followed, the way into a circle and round in it comes to no other
text. -/
theorem lastValue_of_circle (hc : TransGen (Refers props) p p)
    (h : ReflTransGen (Refers props) q p) (steps : Nat) :
    ∃ name, lastValue props steps (referenceTo q) = some (referenceTo name) := by
  induction steps generalizing q with
  | zero => exact ⟨q, rfl⟩
  | succ steps ih =>
    cases hr : reference? (referenceTo q) with
    | none => exact ⟨q, by rw [lastValue, hr]; rfl⟩
    | some name =>
      obtain rfl := eq_of_reference? hr
      obtain ⟨next, hq, hnext⟩ := exists_refers hc h
      have hq : definition? props name = some (some (referenceTo next)) := hq
      rw [lastValue, hr, Option.bind_some, hq]
      simpa only [mentionsReference_referenceTo, if_true] using ih hnext

end Circles

/-- What a text is resolved to is the value of the property that is chosen for editing.  A chain of
references is followed to its end if it has at most ten references behind the first one; a longer
one and one that comes to a circle still mention a reference at the end. -/
theorem resolved_value_is_of_chosen_property (hv : Valued props) :
    (∀ text, resolveName props text = none → resolve props text = some text) ∧
    (∀ text value name, resolve props text = some value → mentionsReference value.toList = false →
      resolveName props text = some name → props.contains name = true →
        props.value? name = some value) ∧
    (∀ name names literal, Chain props name names literal → (name :: names).Nodup →
      (resolveName props (referenceTo name) = (name :: names).getLast? ↔ names.length ≤ 10) ∧
      (resolve props (referenceTo name) = some literal ↔ names.length ≤ 10) ∧
      (10 < names.length → ∃ value, resolve props (referenceTo name) = some value ∧
        mentionsReference value.toList = true)) ∧
    ∀ p q, Relation.TransGen (Refers props) p p → Relation.ReflTransGen (Refers props) q p →
      ∃ value, resolve props (referenceTo q) = some value ∧
        mentionsReference value.toList = true := by
  refine ⟨fun text => resolve_of_resolveName, ?_, ?_, ?_⟩
  · intro text value name hr hm hn hc
    have hsource := lastSource_of_lastName hv hn hc hr hm
    rw [← hr, resolve, lastValue_of_lastSource hv hsource]
  · intro name names literal h hd
    refine ⟨h.resolveName_eq_last_iff hd, h.resolve_eq_literal_iff, fun hl => ?_⟩
    exact ⟨_, h.resolve_of_long hl, mentionsReference_referenceTo _⟩
  · intro p q hc h
    obtain ⟨name, hn⟩ := lastValue_of_circle hc h (longestChain + 1)
    exact ⟨_, hn, mentionsReference_referenceTo name⟩

/-- Twelve names on a chain, and a property that is defined by itself under a longer name. -/
def letters : PropertyMap :=
  .ofList [("a", some "$\x7bb\x7d"), ("b", some "$\x7bc\x7d"), ("c", some "$\x7bd\x7d"),
  ("d", some "$\x7be\x7d"), ("e", some "$\x7bf\x7d"), ("f", some "$\x7bg\x7d"),
    ("g", some "$\x7bh\x7d"),
  ("h", some "$\x7bi\x7d"), ("i", some "$\x7bj\x7d"), ("j", some "$\x7bk\x7d"),
    ("k", some "$\x7bl\x7d"),
  ("l", some "1.0"), ("version", some "$\x7bproject.version\x7d")]

private theorem referable_letters : ∀ name ∈ letters.keys, Referable name := by
  intro name hm
  have hall : ∀ name ∈ letters.keys, name ≠ "" ∧ '\x7d' ∉ name.toList := by decide
  exact ⟨(hall name hm).1, (hall name hm).2⟩

private theorem chain_letters :
    Chain letters "a" ["b", "c", "d", "e", "f", "g", "h", "i", "j", "k", "l"] "1.0" := by
  iterate 11 refine .link (referable_letters _ (by decide)) (by decide) ?_
  exact .last (referable_letters _ (by decide)) (by decide) (by decide)

/-- From the first name the literal is one reference too far away, and from the second one it is
reached. -/
theorem resolved_value_is_of_chosen_property_letters :
    Valued letters ∧ resolve letters "plain" = some "plain" ∧ letters.value? "l" = some "1.0" ∧
    resolveName letters "$\x7bb\x7d" = some "l" ∧ resolve letters "$\x7bb\x7d" = some "1.0" ∧
    resolveName letters "$\x7ba\x7d" ≠ some "l" ∧ resolve letters "$\x7ba\x7d" ≠ some "1.0" ∧
    ∃ value, resolve letters "$\x7bproject.version\x7d" = some value ∧
      mentionsReference value.toList = true := by
  have hv : Valued letters := by
    intro name value h
    have hall : ∀ entry ∈ letters.entries, entry.2.isSome := by decide
    exact hall _ (OrderedMap.get?_eq_some_iff.1 h)
  obtain ⟨hplain, hvalue, hchain, hcircle⟩ := resolved_value_is_of_chosen_property hv
  have hlong := chain_letters
  cases hlong with | link _ _ hshort =>
  obtain ⟨hname, hliteral, -⟩ := hchain _ _ _ chain_letters (by decide)
  obtain ⟨hname', hliteral', -⟩ := hchain _ _ _ hshort (by decide)
  have hlast := hname'.2 (by decide)
  have hresolved := hliteral'.2 (by decide)
  have hround : Refers letters "project.version" "project.version" := by
    unfold Refers
    decide
  refine ⟨hv, hplain _ (by decide), ?_, hlast, hresolved, fun h => ?_, fun h => ?_, ?_⟩
  · exact hvalue _ _ _ hresolved (by decide) hlast (by decide)
  · exact absurd (hname.1 h) (by decide)
  · exact absurd (hliteral.1 h) (by decide)
  · exact hcircle _ _ (.single hround) .refl

end BuildAlign.PropertyReferences
