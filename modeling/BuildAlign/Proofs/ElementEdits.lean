import BuildAlign.Proofs.PomTextEdits

/-! # What an edit of a POM changes

An edit changes the text of one element, or takes one child out of its parent.  Everything else
stays as it is, and steps lead to the same elements as before: only where a child is gone, those
that stand behind it and have its name are counted one less. -/
namespace BuildAlign.XmlNode
open PomPath

variable {node parent : XmlNode} {name : String} {f : XmlNode → XmlNode}
  {place above below : List Nat}
  {steps init rest : List PomStep} {step : PomStep}
    {before after children : List XmlChild} {c : XmlChild}
  {i j k : Nat}

section Frames

/-- The trees differ at this place only, where the nodes are so related. -/
inductive DiffersAt (related : XmlNode → XmlNode → Prop) : List Nat → XmlNode → XmlNode → Prop
  | here {node node' : XmlNode} (h : related node node') : DiffersAt related [] node node'
  | inside {place : List Nat} {child child' : XmlNode}
    (h : DiffersAt related place child child') (name : XmlName)
    (attributes : List (XmlName × String)) (text : String) (before : List XmlChild) (tail : String)
    (after : List XmlChild) :
    DiffersAt related (before.length :: place)
      (.element name attributes text (before ++ (child, tail) :: after))
      (.element name attributes text (before ++ (child', tail) :: after))

/-- The one element is the other with this text. -/
inductive SetsText (value : String) : XmlNode → XmlNode → Prop
  | intro (name : XmlName) (attributes : List (XmlName × String)) (text : String)
    (children : List XmlChild) :
    SetsText value (.element name attributes text children)
      (.element name attributes value children)

/-- The one element is the other without the child at this position and the text behind it. -/
inductive LosesChild : Nat → XmlNode → XmlNode → Prop
  | intro (name : XmlName) (attributes : List (XmlName × String)) (text : String)
    (before : List XmlChild)
    (child : XmlChild) (after : List XmlChild) :
    LosesChild before.length (.element name attributes text (before ++ child :: after))
      (.element name attributes text (before ++ after))

private theorem exists_cut (h : children[k]? = some c) :
    ∃ before after, children = before ++ c :: after ∧ before.length = k := by
  obtain ⟨hk, rfl⟩ := List.getElem?_eq_some_iff.1 h
  refine ⟨children.take k, children.drop (k + 1), ?_, List.length_take_of_le (Nat.le_of_lt hk)⟩
  rw [← List.drop_eq_getElem_cons hk, List.take_append_drop]

private theorem eraseIdx_cut (before : List XmlChild) (c : XmlChild) (after : List XmlChild) :
    (before ++ c :: after).eraseIdx before.length = before ++ after := by
  rw [List.eraseIdx_append_of_length_le (Nat.le_refl _), Nat.sub_self, List.eraseIdx_cons_zero]

private theorem differsAt_modifyAt {related : XmlNode → XmlNode → Prop} {found : XmlNode}
    (h : node.at? place = some found)
    (hf : related found (f found)) : DiffersAt related place node (node.modifyAt f place) := by
  induction place generalizing node with
  | nil =>
    cases h
    exact .here hf
  | cons i place ih =>
    obtain ⟨⟨child, tail⟩, hc, hfound⟩ := Option.bind_eq_some_iff.1 h
    cases node with
    | comment text => cases hc
    | element name attributes text children =>
      obtain ⟨before, after, rfl, rfl⟩ := exists_cut hc
      have hm : ∀ change : XmlChild → XmlChild,
        (before ++ (child, tail) :: after).modify before.length change =
          before ++ change (child, tail) :: after := by
        simp [List.modify_eq_take_drop]
      rw [modifyAt, updateChildren, hm]
      exact .inside (ih hfound) name attributes text before tail after

private theorem setsText_setText (h : node.localName ≠ "") (value : String) :
    SetsText value node (node.setText value) := by
  cases node with
  | comment text => exact absurd rfl h
  | element name attributes text children => exact .intro name attributes text children

/-- Of two changes at one place the second is made to what the first has made. -/
theorem modifyAt_modifyAt (f g : XmlNode → XmlNode) (place : List Nat) (node : XmlNode) :
    (node.modifyAt f place).modifyAt g place = node.modifyAt (g ∘ f) place := by
  induction place generalizing node with
  | nil => rfl
  | cons i place ih =>
    cases node with
    | comment text => rfl
    | element name attributes text children =>
      simp only [modifyAt, updateChildren, List.modify_modify_eq, Function.comp_def, ih]

private theorem losesChild_eraseIdx (h : node.children[k]? = some c) :
    LosesChild k node (node.updateChildren (·.eraseIdx k)) := by
  cases node with
  | comment text => cases h
  | element name attributes text children =>
    obtain ⟨before, after, rfl, rfl⟩ := exists_cut h
    rw [updateChildren, eraseIdx_cut]
    exact .intro name attributes text before c after

private theorem eraseAt_append (above : List Nat) (k : Nat) (node : XmlNode) :
    node.eraseAt (above ++ [k]) = node.modifyAt (updateChildren (·.eraseIdx k)) above := by
  induction above generalizing node with
  | nil => rfl
  | cons i above ih =>
    -- the last step takes a child out, the steps before it change one
    have hne : above ++ [k] ≠ [] := List.append_ne_nil_of_right_ne_nil _ (List.cons_ne_nil k [])
    obtain ⟨next, others, he⟩ := List.exists_cons_of_ne_nil hne
    rw [List.cons_append, modifyAt, ← funext ih, he]
    rfl

end Frames

section Positions

/-- How many children have the name. -/
def countNamed (name : String) (children : List XmlChild) : Nat :=
  children.countP fun child => child.1.localName = name

private theorem countNamed_cons (name : String) (c : XmlChild) (children : List XmlChild) :
    countNamed name (c :: children) = countNamed name children + if c.1.localName =
      name then 1 else 0 := by
  simp [countNamed, List.countP_cons]

private theorem position?_cons (name : String) (i : Nat) (c : XmlChild) (children : List XmlChild) :
    position? name i (c :: children) =
      if c.1.localName = name ∧ i = 0 then some 0
      else (position? name (i - if c.1.localName = name then 1 else 0) children).map (· + 1) := by
  by_cases hc : c.1.localName = name <;> cases i <;> simp [position?, hc]

/-- A position is counted among the first children, or on behind them. -/
theorem position?_append (name : String) (i : Nat) (before after : List XmlChild) :
    position? name i (before ++ after) =
      if i < countNamed name before then position? name i before
      else (position? name (i - countNamed name before) after).map (· + before.length) := by
  induction before generalizing i with
  | nil => simp [countNamed]
  | cons c before ih =>
    rw [List.cons_append, position?_cons, position?_cons, countNamed_cons, ih]
    by_cases hc : c.1.localName = name
    · cases i with
      | zero => simp [hc]
      | succ i =>
        simp only [hc, Nat.succ_ne_zero, and_false, if_false, if_true, Nat.add_sub_cancel,
          Nat.add_lt_add_iff_right,
          Nat.add_sub_add_right]
        split
        · rfl
        · rw [Option.map_map]
          rfl
    · simp only [hc, false_and, if_false, Nat.sub_zero, Nat.add_zero]
      split
      · rfl
      · rw [Option.map_map]
        rfl

/-- The child at a position has the name, and as many of the name before it as the index says. -/
theorem position?_eq_some_iff :
    position? name i children = some k ↔
      ∃ before c after, children = before ++ c :: after ∧ before.length = k ∧
      c.1.localName = name ∧ countNamed name before = i := by
  constructor
  · intro h
    obtain ⟨child, tail, hc, hn⟩ := child_of_position? h
    obtain ⟨before, after, rfl, rfl⟩ := exists_cut hc
    refine ⟨before, (child, tail), after, rfl, rfl, hn, ?_⟩
    rw [position?_append] at h
    split at h
    · obtain ⟨_, _, hb, -⟩ := child_of_position? h
      simp at hb
    · next hi =>
      rw [position?_cons] at h
      split at h
      · next hz => omega
      · obtain ⟨_, hm, hk⟩ := Option.map_eq_some_iff.1 h
        obtain ⟨m, -, rfl⟩ := Option.map_eq_some_iff.1 hm
        omega
  · rintro ⟨before, c, after, rfl, rfl, hn, rfl⟩
    simp [position?_append, position?_cons, hn]

/-- A child is reached by one step only: by its name and the number of those of its name before
it. -/
theorem position?_injective {name' : String} (h : position? name i children = some k)
    (h' : position? name' j children = some k) : name = name' ∧ i = j := by
  obtain ⟨before, c, after, rfl, rfl, rfl, rfl⟩ := position?_eq_some_iff.1 h
  obtain ⟨before', c', after', he, hl, rfl, rfl⟩ := position?_eq_some_iff.1 h'
  obtain ⟨rfl, ht⟩ := List.append_inj he hl.symm
  cases ht
  exact ⟨rfl, rfl⟩

theorem step_eq_of_position? {step' : PomStep}
    (h : position? step.name step.index children = some k)
    (h' : position? step'.name step'.index children = some k) : step = step' := by
  obtain ⟨hn, hi⟩ := position?_injective h h'
  cases step
  cases step'
  exact congrArg₂ PomStep.mk hn hi

/-- The index that a child had which is found under this index now that the child before is gone. -/
def indexBefore (gone step : PomStep) : Nat :=
  if step.name = gone.name ∧ gone.index ≤ step.index then step.index + 1 else step.index

/-- The position of a child after the one at `k` is gone. -/
def closeUp (k i : Nat) : Nat := if k < i then i - 1 else i

private theorem getElem?_closeUp (h : i ≠ k) (children : List XmlChild) :
    (children.eraseIdx k)[closeUp k i]? = children[i]? := by
  rw [List.getElem?_eraseIdx, closeUp]
  split
  · next hk =>
    rw [if_neg (by omega)]
    congr 1
    omega
  · rw [if_pos (by omega)]

private theorem map_closeUp_before (name : String) (i : Nat) (before : List XmlChild) :
    (position? name i before).map (closeUp before.length) = position? name i before := by
  cases h : position? name i before with
  | none => rfl
  | some k =>
    obtain ⟨_, _, hc, -⟩ := child_of_position? h
    obtain ⟨hk, -⟩ := List.getElem?_eq_some_iff.1 hc
    rw [Option.map_some, closeUp, if_neg (by omega)]

private theorem closeUp_behind (k i : Nat) : closeUp k (i + 1 + k) = i + k := by
  rw [closeUp, if_pos (by omega)]
  omega

/-- Children that stand behind one that is gone and have its name are counted one less. -/
theorem position?_eraseIdx {gone : PomStep}
    (h : position? gone.name gone.index children = some k) (step : PomStep) :
    position? step.name step.index (children.eraseIdx k) =
      (position? step.name (indexBefore gone step) children).map (closeUp k) := by
  obtain ⟨before, c, after, rfl, rfl, hn, hi⟩ := position?_eq_some_iff.1 h
  rw [eraseIdx_cut, position?_append, position?_append]
  by_cases hj : step.index < countNamed step.name before
  · have hsame : indexBefore gone step = step.index := by
      refine if_neg ?_
      rintro ⟨hs, hle⟩
      rw [← hi, ← hs] at hle
      omega
    rw [hsame, if_pos hj, if_pos hj, map_closeUp_before]
  · have hlater : indexBefore gone step = step.index + if c.1.localName =
        step.name then 1 else 0 := by
      rw [indexBefore, hn]
      by_cases hs : step.name = gone.name
      · rw [if_pos ⟨hs, by rw [← hi, ← hs]; omega⟩, if_pos hs.symm]
      · rw [if_neg fun h => hs h.1, if_neg (Ne.symm hs), Nat.add_zero]
    have hbehind :
      position? step.name (indexBefore gone step - countNamed step.name before) (c :: after) =
        (position? step.name (step.index - countNamed step.name before) after).map (· + 1) := by
      rw [hlater, position?_cons]
      by_cases hs : c.1.localName = step.name
      · rw [if_pos hs, if_neg (by omega)]
        congr 2
        omega
      · rw [if_neg hs, if_neg fun h => hs h.1]
        rfl
    rw [if_neg hj, if_neg (by rw [hlater]; omega), hbehind, Option.map_map, Option.map_map]
    exact congrArg (Option.map · _) (funext fun i => (closeUp_behind before.length i).symm)

end Positions

section Steps

private theorem at?_append (above below : List Nat) (node : XmlNode) :
    node.at? (above ++ below) = (node.at? above).bind (at? below) := by
  induction above generalizing node with
  | nil => rfl
  | cons i above ih =>
    simp only [List.cons_append, at?]
    cases node.children[i]? with
    | none => rfl
    | some child => exact ih child.1

theorem children_modifyAt (f : XmlNode → XmlNode) (i : Nat) (place : List Nat) (node : XmlNode) :
    (node.modifyAt f (i :: place)).children = node.children.modify i fun c =>
      (modifyAt f place c.1, c.2) :=
  children_updateChildren _ node (List.modify_nil _ _)

theorem child_modifyAt (h : node.children[i]? = some c) (f : XmlNode → XmlNode) (place : List Nat) :
    (node.modifyAt f (i :: place)).children[i]? = some (c.1.modifyAt f place, c.2) := by
  rw [children_modifyAt, List.getElem?_modify, h]
  simp

theorem child_modifyAt_of_ne (h : node.children[i]? = some c) (hk : k ≠ i)
    (f : XmlNode → XmlNode) (place : List Nat) :
    (node.modifyAt f (k :: place)).children[i]? = some c := by
  rw [children_modifyAt, List.getElem?_modify, h]
  simp [hk]

private theorem at?_modifyAt_self (f : XmlNode → XmlNode) (place : List Nat) (node : XmlNode) :
    (node.modifyAt f place).at? place = (node.at? place).map f := by
  induction place generalizing node with
  | nil => rfl
  | cons i place ih =>
    rw [at?, at?, children_modifyAt, List.getElem?_modify]
    cases node.children[i]? with
    | none => rfl
    | some child => simp [ih]

theorem locate_cons (step : PomStep) (rest : List PomStep) (node : XmlNode) :
    locate (step :: rest) node = (position? step.name step.index node.children).bind fun k =>
      node.children[k]?.bind fun child => (locate rest child.1).map (k :: ·) := by
  rw [locate]
  congr 1
  funext k
  cases node.children[k]? with
  | none => rfl
  | some child => cases h : locate rest child.1 <;> simp [h]

/-- A step leads to a child, and those behind it to a place below that. -/
theorem locate_cons_eq_some_iff :
    locate (step :: rest) node = some place ↔ ∃ k child below,
      position? step.name step.index node.children = some k ∧ node.children[k]? = some child ∧
        locate rest child.1 = some below ∧ k :: below = place := by
  simp only [locate_cons, Option.bind_eq_some_iff, Option.map_eq_some_iff]
  constructor
  · rintro ⟨k, hk, child, hc, below, hb, hp⟩
    exact ⟨k, child, below, hk, hc, hb, hp⟩
  · rintro ⟨k, child, below, hk, hc, hb, hp⟩
    exact ⟨k, hk, child, hc, below, hb, hp⟩

/-- Steps behind others go on from where those lead to. -/
theorem locate_append (init rest : List PomStep) (node : XmlNode) :
    locate (init ++ rest) node = (locate init node).bind fun above =>
      (node.at? above).bind fun parent => (locate rest parent).map (above ++ ·) := by
  induction init generalizing node with
  | nil => exact Option.map_id'.symm
  | cons step init ih =>
    rw [List.cons_append, locate_cons, locate_cons]
    cases position? step.name step.index node.children with
    | none => rfl
    | some k =>
      cases hc : node.children[k]? with
      | none => simp [hc]
      | some child =>
        simp only [Option.bind_some, hc, ih]
        cases locate init child.1 with
        | none => rfl
        | some below =>
          simp only [Option.bind_some, Option.map_some, at?, hc]
          cases child.1.at? below with
          | none => rfl
          | some parent => simp [Function.comp_def]

/-- The node that steps lead to. -/
def reached (steps : List PomStep) (node : XmlNode) : Option XmlNode :=
  (locate steps node).bind (at? · node)

/-- The last step leads from a node to one of its children. -/
theorem exists_parent (h : locate (init ++ [step]) node = some place) :
    ∃ above parent k child, locate init node = some above ∧ node.at? above = some parent ∧
      position? step.name step.index parent.children = some k ∧ parent.children[k]? = some child ∧
      child.1.localName = step.name ∧ place = above ++ [k] := by
  rw [locate_append] at h
  obtain ⟨above, ha, h⟩ := Option.bind_eq_some_iff.1 h
  obtain ⟨parent, hp, h⟩ := Option.bind_eq_some_iff.1 h
  obtain ⟨last, hl, rfl⟩ := Option.map_eq_some_iff.1 h
  obtain ⟨k, child, below, hk, hc, hb, rfl⟩ := locate_cons_eq_some_iff.1 hl
  cases hb
  obtain ⟨child', tail', hc', hn⟩ := child_of_position? hk
  cases hc.symm.trans hc'
  exact ⟨above, parent, k, _, ha, hp, hk, hc, hn, rfl⟩

/-- Changes of nodes that keep their names. -/
def KeepsName (f : XmlNode → XmlNode) : Prop := ∀ node, (f node).localName = node.localName

theorem KeepsName.modifyAt (hf : KeepsName f) (place : List Nat) :
    KeepsName (XmlNode.modifyAt f place) := by
  cases place with
  | nil => exact hf
  | cons i place => exact localName_updateChildren _

/-- The steps to a node that is changed lead to the changed node, and others go on from there. -/
theorem locate_modifyAt_inside (hf : KeepsName f) (h : locate init node = some above)
    (hp : node.at? above = some parent) (rest : List PomStep) :
    locate (init ++ rest) (node.modifyAt f above) = (locate rest (f parent)).map (above ++ ·) := by
  induction init generalizing node above with
  | nil =>
    cases h
    cases hp
    exact Option.map_id'.symm
  | cons step init ih =>
    obtain ⟨k, child, below, hk, hc, hb, rfl⟩ := locate_cons_eq_some_iff.1 h
    have hp : child.1.at? below = some parent := by simpa [at?, hc] using hp
    have hchild := child_modifyAt hc f below
    have hposition :
        position? step.name step.index (node.modifyAt f (k :: below)).children = some k := by
      rw [children_modifyAt, position?_modify (hf.modifyAt below), hk]
    rw [List.cons_append, locate_cons, hposition, Option.bind_some, hchild, Option.bind_some,
      ih hb hp, Option.map_map]
    rfl

/-- Steps that do not lead below a node that is changed lead to where they led. -/
theorem locate_modifyAt_outside (hf : KeepsName f) (h : locate init node = some above)
    (hs : ∀ step rest, steps ≠ init ++ step :: rest) :
    locate steps (node.modifyAt f above) = locate steps node := by
  induction init generalizing node above steps with
  | nil =>
    cases steps with
    | nil => rfl
    | cons step rest => exact absurd rfl (hs step rest)
  | cons first init ih =>
    obtain ⟨k, child, below, hk, hc, hb, rfl⟩ := locate_cons_eq_some_iff.1 h
    cases steps with
    | nil => rfl
    | cons step rest =>
      rw [locate_cons, locate_cons, children_modifyAt, position?_modify (hf.modifyAt below)]
      cases hi : position? step.name step.index node.children with
      | none => rfl
      | some i =>
        rw [Option.bind_some, Option.bind_some, List.getElem?_modify]
        by_cases hki : k = i
        · -- The step is the first of those that lead to the node.
          subst hki
          obtain rfl := step_eq_of_position? hi hk
          have hrest := ih hb fun next others he => hs next others (congrArg (step :: ·) he)
          simp [hc, hrest]
        · simp [hki]

theorem reached_append (h : locate init node = some above) (hp : node.at? above = some parent)
    (rest : List PomStep) : reached (init ++ rest) node = reached rest parent := by
  rw [reached, locate_append, h, Option.bind_some, hp, Option.bind_some, Option.bind_map, reached]
  congr 1
  funext below
  rw [Function.comp_apply, at?_append, hp, Option.bind_some]

private theorem reached_modifyAt_inside (hf : KeepsName f) (h : locate init node = some above)
    (hp : node.at? above = some parent) (rest : List PomStep) :
    reached (init ++ rest) (node.modifyAt f above) = reached rest (f parent) := by
  rw [reached, locate_modifyAt_inside hf h hp, Option.bind_map, reached]
  congr 1
  funext below
  rw [Function.comp_apply, at?_append, at?_modifyAt_self, hp, Option.map_some, Option.bind_some]

end Steps

section Deletion

variable {gone : PomStep}

/-- The step to a child of the node, as it was before the child of that step was gone. -/
def stepBefore (gone step : PomStep) : PomStep := ⟨step.name, indexBefore gone step⟩

private theorem position_ne (h : position? gone.name gone.index children = some k)
    (hi : position? step.name (indexBefore gone step) children = some i) : i ≠ k := by
  rintro rfl
  obtain ⟨hn, hindex⟩ := position?_injective hi h
  rw [indexBefore] at hindex
  split at hindex
  · omega
  · next hb => exact hb ⟨hn, Nat.le_of_eq hindex.symm⟩

private theorem children_erase (k : Nat) (node : XmlNode) :
    (node.updateChildren (·.eraseIdx k)).children = node.children.eraseIdx k :=
  children_updateChildren _ node List.eraseIdx_nil

/-- The place below a node after its child at `k` is gone. -/
def closeUpFirst (k : Nat) : List Nat → List Nat
  | [] => []
  | i :: below => closeUp k i :: below

private theorem locate_eraseIdx
    (h : position? gone.name gone.index parent.children = some k) (step : PomStep)
    (rest : List PomStep) :
    locate (step :: rest) (parent.updateChildren (·.eraseIdx k)) =
      (locate (stepBefore gone step :: rest) parent).map (closeUpFirst k) := by
  rw [locate_cons, locate_cons, children_erase, position?_eraseIdx h, stepBefore]
  cases hi : position? step.name (indexBefore gone step) parent.children with
  | none => rfl
  | some i =>
    rw [Option.map_some, Option.bind_some, Option.bind_some,
      getElem?_closeUp (position_ne h hi), Option.map_bind]
    congr 1
    funext child
    rw [Function.comp_apply, Option.map_map]
    rfl

private theorem reached_eraseIdx
    (h : position? gone.name gone.index parent.children = some k) (step : PomStep)
    (rest : List PomStep) :
    reached (step :: rest) (parent.updateChildren (·.eraseIdx k)) =
      reached (stepBefore gone step :: rest) parent := by
  rw [reached, locate_eraseIdx h, Option.bind_map, reached]
  cases hp : locate (stepBefore gone step :: rest) parent with
  | none => rfl
  | some place =>
    obtain ⟨i, child, below, hi, -, -, rfl⟩ := locate_cons_eq_some_iff.1 hp
    have hne : i ≠ k :=
      position_ne h (show position? step.name (indexBefore gone step) _ = some i from hi)
    simp only [Option.bind_some, Function.comp_apply, closeUpFirst, at?,
      children_erase, getElem?_closeUp hne]

/-- A place in the tree after the child at `k` of the node at `above` is gone. -/
def closeUpBelow (above : List Nat) (k : Nat) (place : List Nat) : List Nat :=
  above ++ closeUpFirst k (place.drop above.length)

/-- After a child is gone, a step that leads past it takes up an index that was one higher. -/
theorem after_deletion (h : locate init node = some above) (hp : node.at? above = some parent)
    (hk : position? gone.name gone.index parent.children = some k) (step : PomStep)
    (rest : List PomStep) :
    reached (init ++ step :: rest) (node.eraseAt (above ++ [k])) =
        reached (init ++ stepBefore gone step :: rest) node ∧
      locate (init ++ step :: rest) (node.eraseAt (above ++ [k])) =
        (locate (init ++ stepBefore gone step :: rest) node).map (closeUpBelow above k) := by
  have hkeeps : KeepsName (updateChildren (·.eraseIdx k)) := localName_updateChildren _
  rw [eraseAt_append]
  constructor
  · rw [reached_modifyAt_inside hkeeps h hp, reached_append h hp, reached_eraseIdx hk]
  · rw [locate_modifyAt_inside hkeeps h hp, locate_append, h,
      Option.bind_some, hp, Option.bind_some,
      locate_eraseIdx hk, Option.map_map, Option.map_map]
    congr 1
    funext below
    simp [closeUpBelow]

end Deletion

end BuildAlign.XmlNode

namespace BuildAlign.DocumentEdits
open PomPath XmlNode

variable {edit : DocumentEdit} {root edited : XmlNode} {steps : List PomStep}
  {place : List Nat} {value : String}

private theorem parse_ne_nil {path : String} (h : parse path = .ok steps) : steps ≠ [] := by
  unfold parse at h
  split at h
  · cases h
  · next hne =>
    rintro rfl
    have hl := (ListReading.mapM_eq_ok_iff.1 h).length_eq
    exact hne (List.length_eq_zero_iff.1 hl)

private theorem apply_pom (edit : DocumentEdit) (root : XmlNode) :
    pomEditor.apply edit root =
      match parse edit.path with
      | .error e => .error (.pomPath e)
      | .ok steps =>
        match locate steps root with
        | none => .error (.notFound edit.document edit.path)
        | some place => .ok (pomEditor.change place edit.value root) := by
  have hl : pomEditor.locate edit.path root = (find? edit.path root).mapError .pomPath := rfl
  rw [Editor.apply, hl, find?]
  cases parse edit.path with
  | error e => rfl
  | ok steps => cases h : locate steps root <;> simp [h] <;> rfl

private theorem apply_pom_eq_ok_iff :
    pomEditor.apply edit root = .ok edited ↔ ∃ steps place, parse edit.path = .ok steps ∧
      locate steps root = some place ∧ pomEditor.change place edit.value root = edited := by
  rw [apply_pom]
  cases parse edit.path with
  | error e => simp
  | ok steps => cases h : locate steps root <;> simp [h]

private theorem apply_pom_eq_error_iff {cause : EditError} :
    pomEditor.apply edit root = .error cause ↔
      (∃ e, parse edit.path = .error e ∧ cause = .pomPath e) ∨
        (∃ steps, parse edit.path = .ok steps ∧ locate steps root = none) ∧
          cause = .notFound edit.document edit.path := by
  rw [apply_pom]
  cases parse edit.path with
  | error e => simp [eq_comm]
  | ok steps => cases h : locate steps root <;> simp [h, eq_comm]

/-- The last step of a path, and what it leads to. -/
theorem exists_last {path : String} (h : parse path = .ok steps)
    (hl : locate steps root = some place) :
    ∃ init last above parent k child, steps = init ++ [last] ∧ locate init root = some above ∧
      root.at? above = some parent ∧ position? last.name last.index parent.children = some k ∧
      parent.children[k]? = some child ∧ child.1.localName ≠ "" ∧ place = above ++ [k] := by
  obtain he | ⟨init, last, he⟩ := List.eq_nil_or_concat steps
  · exact absurd he (parse_ne_nil h)
  · rw [List.concat_eq_append] at he
    subst he
    obtain ⟨above, parent, k, child, ha, hparent, hk, hc, hn, rfl⟩ := exists_parent hl
    have hname : last.name ≠ "" := names_of_parse h last (by simp)
    exact ⟨init, last, above, parent, k, child, rfl, ha, hparent, hk, hc, hn ▸ hname, rfl⟩

/-- An edit of a POM that fails, because its text is no path or its path leads to nothing, leaves
the tree.  A value becomes the text of the element that the path leads to and changes nothing else:
all steps lead where they led, and what is set next along the path might as well be set alone.  A
deletion takes the child that the path leads to out of its parent, with the text behind it.  Steps
that go on from the parent lead to the elements they led to, those of the same name behind the gap
with an index one less, and all other steps lead where they led. -/
theorem pom_edit_changes_located_element (edit : DocumentEdit) (root : XmlNode) :
    (∀ cause, pomEditor.apply edit root = .error cause →
      ((∃ e, parse edit.path = .error e ∧ cause = .pomPath e) ∨
        (∃ steps, parse edit.path = .ok steps ∧ locate steps root = none) ∧
          cause = .notFound edit.document edit.path) ∧
      (pomEditor.applyAll [edit] root).document = root) ∧
    (∀ value edited, edit.value = some value → pomEditor.apply edit root = .ok edited →
      ∃ steps place, parse edit.path = .ok steps ∧ locate steps root = some place ∧
        DiffersAt (SetsText value) place root edited ∧
        (∀ others, locate others edited = locate others root) ∧
        ∀ again value', again.path = edit.path → again.value = some value' →
          pomEditor.apply again edited = pomEditor.apply again root) ∧
    ∀ edited, edit.value = none → pomEditor.apply edit root = .ok edited →
      ∃ init last above k, parse edit.path = .ok (init ++ [last]) ∧ locate init root = some above ∧
        locate (init ++ [last]) root = some (above ++ [k]) ∧
          DiffersAt (LosesChild k) above root edited ∧
        (∀ step rest, reached (init ++ step :: rest) edited =
          reached (init ++ stepBefore last step :: rest) root ∧
          locate (init ++ step :: rest) edited =
            (locate (init ++ stepBefore last step :: rest) root).map (closeUpBelow above k)) ∧
        ∀ others, (∀ step rest, others ≠ init ++ step :: rest) →
          locate others edited = locate others root := by
  refine ⟨fun cause h => ⟨apply_pom_eq_error_iff.1 h, by simp only [Editor.applyAll, h]⟩,
    fun value edited hv h => ?_, fun edited hv h => ?_⟩
  · obtain ⟨steps, place, hp, hl, he⟩ := apply_pom_eq_ok_iff.1 h
    obtain ⟨init, last, above, parent, k, child, rfl, ha, hparent, -, hc, hn, rfl⟩ :=
      exists_last hp hl
    have hfound : root.at? (above ++ [k]) = some child.1 := by
      rw [at?_append, hparent, Option.bind_some, at?, hc]
      rfl
    rw [hv] at he
    change root.modifyAt (setText value) (above ++ [k]) = edited at he
    subst he
    have hlocate := fun others => locate_modifyAt_setText value others (above ++ [k]) root
    refine ⟨_, _, hp, hl, differsAt_modifyAt hfound (setsText_setText hn value), hlocate,
      fun again value' hpath hv' => ?_⟩
    have hset : ∀ node : XmlNode, (setText value' ∘ setText value) node = setText value' node := by
      rintro (_ | _) <;> rfl
    rw [apply_pom, apply_pom, hpath, hp]
    simp only [hlocate, hl, hv', Editor.change]
    exact congrArg Except.ok
      ((modifyAt_modifyAt _ _ _ root).trans (congrArg (modifyAt · _ root) (funext hset)))
  · obtain ⟨steps, place, hp, hl, he⟩ := apply_pom_eq_ok_iff.1 h
    obtain ⟨init, last, above, parent, k, child, rfl, ha, hparent, hk, hc, -, rfl⟩ :=
      exists_last hp hl
    rw [hv] at he
    change root.eraseAt (above ++ [k]) = edited at he
    subst he
    refine ⟨init, last, above, k, hp, ha, hl, ?_, after_deletion ha hparent hk, fun others ho => ?_⟩
    · rw [eraseAt_append]
      exact differsAt_modifyAt hparent (losesChild_eraseIdx hc)
    · rw [eraseAt_append]
      exact locate_modifyAt_outside (localName_updateChildren _) ha ho

/-- Three items of one name, among comments and an element of another name. -/
def items : XmlNode :=
  let leaf := fun label text => XmlNode.element ⟨none, label⟩ [] text []
  .element ⟨none, "project"⟩ [] ""
    [(.comment "first", " "), (leaf "d" "a", " "), (leaf "e" "x", " "),
    (leaf "d" "b", " "), (.comment "last", " "), (leaf "d" "c", " ")]

theorem exists_of_isOk {ε α : Type} {result : Except ε α} (h : result.isOk = true) :
    ∃ a, result = .ok a := by
  cases result with
  | error e => cases h
  | ok a => exact ⟨a, rfl⟩

/-- The path to the second item leads to the third when the second is gone. -/
theorem pom_edit_changes_located_element_items :
    (pomEditor.applyAll [⟨none, "d[3]", none⟩] items).document = items ∧
    (∃ edited, pomEditor.apply ⟨none, "d[1]", some "z"⟩ items = .ok edited ∧
      (∃ place, DiffersAt (SetsText "z") place items edited) ∧
        ∀ steps, locate steps edited = locate steps items) ∧
    ∃ edited, pomEditor.apply ⟨none, "d[1]", none⟩ items = .ok edited ∧
      reached [⟨"d", 0⟩] edited = reached [⟨"d", 0⟩] items ∧
        reached [⟨"d", 1⟩] edited = reached [⟨"d", 2⟩] items ∧
      reached [⟨"e", 0⟩] edited = reached [⟨"e", 0⟩] items := by
  refine ⟨?_, ?_, ?_⟩
  · have hp : parse "d[3]" = .ok [⟨"d", 3⟩] := by decide
    have hfails : pomEditor.apply ⟨none, "d[3]", none⟩ items = .error (.notFound none "d[3]") :=
      apply_pom_eq_error_iff.2 (.inr ⟨⟨_, hp, by decide⟩, rfl⟩)
    exact ((pom_edit_changes_located_element ⟨none, "d[3]", none⟩ items).1 _ hfails).2
  · obtain ⟨edited, he⟩ := exists_of_isOk
      (show (pomEditor.apply ⟨none, "d[1]", some "z"⟩ items).isOk = true by decide)
    obtain ⟨steps, place, -, -, hd, hl, -⟩ :=
      (pom_edit_changes_located_element _ items).2.1 "z" edited rfl he
    exact ⟨edited, he, ⟨place, hd⟩, hl⟩
  · obtain ⟨edited, he⟩ := exists_of_isOk
      (show (pomEditor.apply ⟨none, "d[1]", none⟩ items).isOk = true by decide)
    obtain ⟨init, last, above, k, hp, -, -, -, hafter, -⟩ :=
      (pom_edit_changes_located_element _ items).2.2 edited rfl he
    have hparse : parse "d[1]" = .ok ([] ++ [⟨"d", 1⟩]) := by decide
    obtain ⟨rfl, hlast⟩ := List.append_inj' (Except.ok.inj (hparse.symm.trans hp)) rfl
    cases hlast
    exact ⟨edited, he, (hafter ⟨"d", 0⟩ []).1, (hafter ⟨"d", 1⟩ []).1, (hafter ⟨"e", 0⟩ []).1⟩

end BuildAlign.DocumentEdits
