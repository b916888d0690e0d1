import BuildAlign.CharacterClasses
import Mathlib.Algebra.Group.Nat.Defs
import Mathlib.Data.List.Induction
import Mathlib.Tactic.ByContra

/-! # Numbers and their decimal digits

Digits write a number when they are not too many and each of them has a place value.  A number with
few digits is read back from those it is printed with, so different numbers are printed
differently. -/
namespace BuildAlign.DecimalDigits

/-- A number with no more digits than may be read. -/
def Short (n : Nat) : Prop := (Nat.toDigits 10 n).length ≤ longest

instance (n : Nat) : Decidable (Short n) := by unfold Short; infer_instance

private theorem value?_append (cs : List Char) (c : Char) :
    value? (cs ++ [c]) = (value? cs).bind fun n => (digit? c).map fun d => n * 10 + d := by
  rw [value?, List.foldl_append, List.foldl_cons, List.foldl_nil]
  change (value? cs).bind _ = _
  congr 1
  funext n
  cases digit? c <;> rfl

private theorem value?_eq_none_iff {cs : List Char} :
    value? cs = none ↔ ∃ c ∈ cs, isDecimal c = false := by
  induction cs using List.reverseRecOn with
  | nil => exact iff_of_false nofun nofun
  | append_singleton cs c ih =>
    rw [value?_append, Option.bind_eq_none_iff]
    cases hn : value? cs with
    | none =>
      obtain ⟨d, hd, hv⟩ := ih.1 hn
      exact iff_of_true nofun ⟨d, List.mem_append_left _ hd, hv⟩
    | some n =>
      have hcs : ∀ d ∈ cs, isDecimal d = true := by
        intro d hd
        by_contra hv
        rw [ih.2 ⟨d, hd, by simpa using hv⟩] at hn
        cases hn
      simp only [Option.some.injEq, forall_eq', Option.map_eq_none_iff, List.mem_append,
        List.mem_singleton]
      constructor
      · intro hv
        exact ⟨c, .inr rfl, by rw [isDecimal, hv]; rfl⟩
      · rintro ⟨d, hd | rfl, hv⟩
        · rw [hcs d hd] at hv
          cases hv
        · simpa [isDecimal] using hv

theorem number?_of_length {cs : List Char} (h : cs.length ≤ longest) : number? cs = value? cs :=
  if_neg (Nat.not_lt.2 h)

theorem number?_of_longer {cs : List Char} (h : longest < cs.length) : number? cs = none := if_pos h

/-- What digits are that write no number. -/
theorem number?_eq_none_iff {cs : List Char} :
    number? cs = none ↔ longest < cs.length ∨ ∃ c ∈ cs, isDecimal c = false := by
  by_cases h : longest < cs.length
  · exact iff_of_true (number?_of_longer h) (.inl h)
  · rw [number?_of_length (Nat.not_lt.1 h), value?_eq_none_iff, or_iff_right h]

private theorem digit?_digitChar : ∀ {n : Nat}, n < 10 → digit? n.digitChar = some n
  | 0, _ | 1, _ | 2, _ | 3, _ | 4, _ | 5, _ | 6, _ | 7, _ | 8, _ | 9, _ => by decide
  | _ + 10, h => absurd h (by omega)

private theorem value?_append_digit (cs : List Char) {d : Nat} (h : d < 10) :
    value? (cs ++ [d.digitChar]) = (value? cs).map fun n => n * 10 + d := by
  rw [value?_append, digit?_digitChar h]
  cases value? cs <;> rfl

/-- Every property of numbers goes up from the digits to all numbers. -/
theorem digits_induction {P : Nat → Prop} (digit : ∀ n < 10, P n)
    (longer : ∀ n d, 0 < n → d < 10 → P n → P (n * 10 + d)) (n : Nat) : P n := by
  induction n using Nat.strongRecOn with
  | _ n ih =>
    by_cases h : n < 10
    · exact digit n h
    · have hp := longer (n / 10) (n % 10) (by omega) (by omega) (ih (n / 10) (by omega))
      have he : n / 10 * 10 + n % 10 = n := by omega
      rwa [he] at hp

theorem toDigits_longer {n d : Nat} (hn : 0 < n) (hd : d < 10) :
    Nat.toDigits 10 (n * 10 + d) = Nat.toDigits 10 n ++ [d.digitChar] := by
  have h := Nat.toDigits_append_toDigits (b := 10) (by decide) hn hd
  rw [Nat.toDigits_of_lt_base hd] at h
  rw [h, Nat.mul_comm]

private theorem value?_toDigits (n : Nat) : value? (Nat.toDigits 10 n) = some n := by
  induction n using digits_induction with
  | digit n h =>
    rw [Nat.toDigits_of_lt_base h]
    have hd := value?_append_digit [] h
    simpa [value?] using hd
  | longer n d hn hd ih => rw [toDigits_longer hn hd, value?_append_digit _ hd, ih]; rfl

private theorem isDecimal_of_mem_toDigits {n : Nat} {c : Char} (h : c ∈ Nat.toDigits 10 n) :
    isDecimal c = true := by
  induction n using digits_induction with
  | digit n hn =>
    rw [Nat.toDigits_of_lt_base hn, List.mem_singleton] at h
    rw [h, isDecimal, digit?_digitChar hn]
    rfl
  | longer n d hn hd ih =>
    rw [toDigits_longer hn hd] at h
    rcases List.mem_append.1 h with h | h
    · exact ih h
    · rw [List.mem_singleton.1 h, isDecimal, digit?_digitChar hd]
      rfl

/-- The digits of a number with zeros in front of them. -/
def padded (zeros n : Nat) : List Char := List.replicate zeros '0' ++ Nat.toDigits 10 n

theorem padded_ne_nil (zeros n : Nat) : padded zeros n ≠ [] :=
  List.append_ne_nil_of_right_ne_nil _ Nat.toDigits_ne_nil

theorem length_padded (zeros n : Nat) :
    (padded zeros n).length = zeros + (Nat.toDigits 10 n).length := by
  rw [padded, List.length_append, List.length_replicate]

theorem value?_padded (zeros n : Nat) : value? (padded zeros n) = some n := by
  induction zeros with
  | zero => exact value?_toDigits n
  | succ zeros ih => exact ih

theorem isDecimal_of_mem_padded {zeros n : Nat} {c : Char} (h : c ∈ padded zeros n) :
    isDecimal c = true := by
  rcases List.mem_append.1 h with h | h
  · rw [List.eq_of_mem_replicate h]
    decide
  · exact isDecimal_of_mem_toDigits h

theorem toDigits_injective {n k : Nat} (h : Nat.toDigits 10 n = Nat.toDigits 10 k) : n = k := by
  have hn := value?_toDigits n
  rw [h, value?_toDigits] at hn
  exact (Option.some.inj hn).symm

theorem short_iff {n : Nat} : Short n ↔ n < 10 ^ longest :=
  Nat.length_toDigits_le_iff (by decide) (by decide)

/-- A large number has too many digits, without any zeros in front of it. -/
theorem longest_lt_length_padded {zeros n : Nat} (h : 10 ^ longest ≤ n) :
    longest < (padded zeros n).length := by
  have hn : longest < (Nat.toDigits 10 n).length :=
    Nat.not_le.1 fun hs => Nat.not_lt.2 h (short_iff.1 hs)
  rw [length_padded]
  exact Nat.lt_of_lt_of_le hn (Nat.le_add_left ..)

end BuildAlign.DecimalDigits
