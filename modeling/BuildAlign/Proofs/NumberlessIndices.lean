import BuildAlign.Proofs.PathGrammar

/-! # Indices that write no number

A text that is no path fails with a fault of its own, with one exception.  The scan for an index
takes all signs that are drawn like digits, but only some of them have a place value, and a number
may have only so many digits.  An index that writes no number is found out when its number is
wanted, and this is not said as a fault of the path is. -/
namespace BuildAlign.JsonPath
open DecimalDigits

variable {cs rest : List Char} {found : List Segment}

/-- Digits, as they are drawn, that are too many or of which some have no place value. -/
def Numberless (digits : String) : Prop :=
  (∀ c ∈ digits.toList, isDigitLike c = true) ∧
    (longest < digits.toList.length ∨ ∃ c ∈ digits.toList, isDecimal c = false)

theorem Numberless.toList_ne_nil {digits : String} (h : Numberless digits) :
    digits.toList ≠ [] := by
  rcases h.2 with hlong | ⟨c, hc, -⟩
  · exact List.ne_nil_of_length_pos (Nat.zero_lt_of_lt hlong)
  · exact List.ne_nil_of_mem hc

section Faults

variable {ε α β : Type} {fault : PathFault} {digits : String}

private theorem map_eq_error {x : Except ε α} {f : α → β} {e : ε} :
    x.map f = .error e ↔ x = .error e := by
  cases x <;> simp [Except.map]

private theorem bind_eq_error {x : Except ε α} {f : α → Except ε β} {e : ε} :
    x >>= f = .error e ↔ x = .error e ∨ ∃ a, x = .ok a ∧ f a = .error e := by
  cases x <;> simp [bind, Except.bind]

private theorem close_eq_error {fault' : PathFault} (h : close fault cs = .error fault') :
    fault' = fault := by
  unfold close at h
  split at h <;> cases h
  rfl

/-- A quoted key that does not end is a fault of its own. -/
theorem quoted_eq_error {quote : Char} {opened : Nat} (h : quoted quote opened cs = .error fault) :
    fault = .openQuote opened ∨ fault = .pendingEscape := by
  fun_induction quoted quote opened cs with
  | case1 => exact .inl (Except.error.inj h).symm
  | case2 c cs ih => exact ih (map_eq_error.1 h)
  | case3 => exact .inr (Except.error.inj h).symm
  | case4 => cases h
  | case5 c cs _ _ _ ih => exact ih (map_eq_error.1 h)

private theorem bracket_noNumber_iff :
    bracket cs = .error (.noNumber digits) ↔
      Numberless digits ∧ ∃ rest, cs = digits.toList ++ ']' :: rest := by
  constructor
  · intro h
    cases cs with
    | nil => cases h
    | cons c cs =>
      simp only [bracket] at h
      split at h
      · rcases bind_eq_error.1 h with h | ⟨⟨key, behind⟩, -, h⟩
        · rcases quoted_eq_error h with he | he <;> cases he
        · rcases bind_eq_error.1 h with h | ⟨_, -, h⟩
          · cases close_eq_error h
          · cases h
      · split at h
        · rcases bind_eq_error.1 h with h | ⟨_, -, h⟩
          · cases close_eq_error h
          · cases h
        · split at h
          · cases h
          · rcases bind_eq_error.1 h with h | ⟨behind, hc, h⟩
            · cases close_eq_error h
            · have hspan := List.takeWhile_append_dropWhile (p := isDigitLike) (l := c :: cs)
              rw [close_eq_ok.1 hc] at hspan
              split at h
              · cases h
              · next hv =>
                cases h
                rw [Numberless, String.toList_ofList]
                exact ⟨⟨fun d hd => List.mem_takeWhile_imp hd, number?_eq_none_iff.1 hv⟩,
                  behind, hspan.symm⟩
  · rintro ⟨hv, rest, rfl⟩
    rw [bracket_digits hv.toList_ne_nil hv.1, number?_eq_none_iff.2 hv.2, String.ofList_toList]

private theorem dotted_noNumber_iff {recursive : Bool} :
    dotted recursive cs = .error (.noNumber digits) ↔
      recursive = true ∧ ∃ body, cs = '[' :: body ∧ bracket body = .error (.noNumber digits) := by
  constructor
  · intro h
    cases cs with
    | nil => cases h
    | cons c cs =>
      simp only [dotted] at h
      split at h
      · cases h
      · split at h
        · next hb =>
          simp only [Bool.and_eq_true, decide_eq_true_eq] at hb
          exact ⟨hb.2, cs, hb.1 ▸ rfl, h⟩
        · split at h <;> cases h
  · rintro ⟨rfl, body, rfl, h⟩
    exact h

/-- What may stand in front of a bracket. -/
def Leads (lead : List Char) : Prop := lead = [] ∨ lead = ['.', '.']

private theorem segment_noNumber_iff {c : Char} :
    segment c cs = .error (.noNumber digits) ↔
      ∃ lead body, Leads lead ∧ c :: cs = lead ++ '[' :: body ∧
        bracket body = .error (.noNumber digits) := by
  constructor
  · intro h
    unfold segment at h
    split at h
    · next hb => exact ⟨[], cs, .inl rfl, hb ▸ rfl, map_eq_error.1 h⟩
    · split at h
      · next hd =>
        split at h
        · obtain ⟨-, body, rfl, hb⟩ := dotted_noNumber_iff.1 (map_eq_error.1 h)
          exact ⟨['.', '.'], body, .inr rfl, hd ▸ rfl, hb⟩
        · cases (dotted_noNumber_iff.1 (map_eq_error.1 h)).1
      · cases h
  · rintro ⟨lead, body, rfl | rfl, he, h⟩
    · cases he
      unfold segment
      rw [if_pos rfl, h]
      rfl
    · cases he
      have hd := dotted_noNumber_iff.2 ⟨rfl, body, rfl, h⟩
      exact map_eq_error.2 hd

private theorem segments_eq_error {c : Char} (h : segment c cs = .error fault) :
    segments (c :: cs) = .error fault := by
  rw [segments]
  split
  · next he =>
    cases h.symm.trans he
    rfl
  · next he => cases h.symm.trans he

/-- Segments are read up to the first that cannot be read. -/
theorem exists_stop (h : segments cs = .error fault) :
    ∃ before found c rest, cs = before ++ c :: rest ∧ segments before = .ok found ∧
      segment c rest = .error fault := by
  fun_induction segments cs with
  | case1 => cases h
  | case2 c cs fault' hs =>
    cases h
    exact ⟨[], [], c, cs, rfl, segments.eq_1, hs⟩
  | case3 c cs s rest hs _ ih =>
    obtain ⟨before, found, c', rest', rfl, hbefore, hstop⟩ := ih (map_eq_error.1 h)
    obtain ⟨piece, hpiece, hp⟩ := (segment_eq_ok_iff.1 hs).consumed
    refine ⟨piece ++ before, s :: found, c', rest', by rw [hpiece, List.append_assoc], ?_, hstop⟩
    rw [(hp before (opens_of_segments hbefore)).segments_eq, hbefore]
    rfl

theorem Leads.opens {lead : List Char} (h : Leads lead) (body : List Char) :
    Opens (lead ++ '[' :: body) := by
  rcases h with rfl | rfl <;> rintro c ⟨⟩ <;> rfl

private theorem segments_noNumber_iff :
    segments cs = .error (.noNumber digits) ↔ ∃ before found lead rest,
      cs = before ++ (lead ++ '[' :: (digits.toList ++ ']' :: rest)) ∧
        segments before = .ok found ∧ Leads lead ∧
        Numberless digits := by
  constructor
  · intro h
    obtain ⟨before, found, c, rest, rfl, hbefore, hstop⟩ := exists_stop h
    obtain ⟨lead, body, hlead, he, hb⟩ := segment_noNumber_iff.1 hstop
    obtain ⟨hv, rest, rfl⟩ := bracket_noNumber_iff.1 hb
    exact ⟨before, found, lead, rest, by rw [he], hbefore, hlead, hv⟩
  · rintro ⟨before, found, lead, rest, rfl, hbefore, hlead, hv⟩
    have hb := bracket_noNumber_iff.2 ⟨hv, rest, rfl⟩
    obtain ⟨c, cs, hcs⟩ := List.exists_cons_of_ne_nil
      (List.append_ne_nil_of_right_ne_nil lead
        (List.cons_ne_nil '[' (digits.toList ++ ']' :: rest)))
    have hstop := segment_noNumber_iff.2 ⟨lead, _, hlead, hcs.symm, hb⟩
    rw [segments_behind hbefore (hlead.opens _), hcs, segments_eq_error hstop]
    rfl

end Faults

section Paths

/-- A text is a path, or it fails with a fault that is said of this very text. -/
theorem compile_cases (path : String) :
    (∃ found, compile path = .ok found) ∨ ∃ fault, compile path = .error ⟨path, fault⟩ := by
  unfold compile
  split
  · next cs _ =>
    cases segments cs with
    | ok found => exact .inl ⟨found, rfl⟩
    | error fault => exact .inr ⟨fault, rfl⟩
  · exact .inr ⟨.noRoot, rfl⟩

private theorem compile_eq_error_iff {path : String} {fault : PathFault} (hf : fault ≠ .noRoot) :
    compile path = .error ⟨path, fault⟩ ↔
      ∃ cs, path.toList = '$' :: cs ∧ segments cs = .error fault := by
  unfold compile
  split
  · next cs hp =>
    cases hs : segments cs <;> simp [Except.mapError, hp, hs]
  · next hn =>
    refine iff_of_false ?_ ?_
    · intro h
      cases h
      exact hf rfl
    · rintro ⟨cs, hp, -⟩
      exact hn cs hp

/-- The one exception is met at the first index that writes no number. -/
theorem compile_noNumber_iff {path digits : String} :
    compile path = .error ⟨path, .noNumber digits⟩ ↔ ∃ before found lead rest,
      path = "$" ++ before ++ lead ++ "[" ++ digits ++ "]" ++ rest ∧
        compile ("$" ++ before) = .ok found ∧
        (lead = "" ∨ lead = "..") ∧ Numberless digits := by
  have hf : PathFault.noNumber digits ≠ .noRoot := nofun
  rw [compile_eq_error_iff hf]
  constructor
  · rintro ⟨cs, hp, h⟩
    obtain ⟨before, found, lead, rest, rfl, hbefore, hlead, hv⟩ := segments_noNumber_iff.1 h
    refine ⟨String.ofList before, found, String.ofList lead, String.ofList rest, ?_, ?_, ?_, hv⟩
    · rw [← String.toList_inj, hp]
      simp
    · rwa [compile_root, String.toList_ofList]
    · rcases hlead with rfl | rfl
      · exact .inl rfl
      · exact .inr rfl
  · rintro ⟨before, found, lead, rest, rfl, hbefore, hlead, hv⟩
    rw [compile_root] at hbefore
    refine ⟨_, ?_, segments_noNumber_iff.2
      ⟨before.toList, found, lead.toList, rest.toList, rfl, hbefore, ?_, hv⟩⟩
    · simp
    · rcases hlead with rfl | rfl
      · exact .inl rfl
      · exact .inr rfl

end Paths
end BuildAlign.JsonPath
