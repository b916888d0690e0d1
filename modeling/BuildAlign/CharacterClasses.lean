/-! # Classes of characters

Classes are given by ranges of code points.  Blank characters stand around texts and are trimmed
away, and decimal digits write numbers. -/
namespace BuildAlign.CharacterRanges

/-- A table of inclusive ranges of code points, in ascending order. -/
abbrev Table := List (Nat × Nat)

def covers (table : Table) (c : Char) : Bool :=
  table.any fun (low, high) => low ≤ c.toNat && c.toNat ≤ high

end BuildAlign.CharacterRanges

/-! ## Blank characters and trimming

Blank are the white space of Unicode and the four information separators U+001C to U+001F. -/
namespace BuildAlign.BlankText
open CharacterRanges

def blanks : Table :=
  [(0x09, 0x0D), (0x1C, 0x20), (0x85, 0x85), (0xA0, 0xA0), (0x1680, 0x1680), (0x2000, 0x200A),
   (0x2028, 0x2029), (0x202F, 0x202F), (0x205F, 0x205F), (0x3000, 0x3000)]

def isBlank (c : Char) : Bool := covers blanks c

def trimLeft (cs : List Char) : List Char := cs.dropWhile isBlank
def trimRight (cs : List Char) : List Char := (trimLeft cs.reverse).reverse
def trim (cs : List Char) : List Char := trimRight (trimLeft cs)

/-- The text without the blanks around it. -/
def trimmed (s : String) : String := String.ofList (trim s.toList)

section Trimming
variable {cs ds : List Char}

theorem trimLeft_of_head (h : ∀ c ∈ cs.head?, isBlank c = false) : trimLeft cs = cs := by
  cases cs with
  | nil => rfl
  | cons c cs => exact List.dropWhile_cons_of_neg (by simp [h c rfl])

theorem trimLeft_of_blank (h : ∀ c ∈ cs, isBlank c = true) : trimLeft cs = [] := by
  induction cs with
  | nil => rfl
  | cons c cs ih =>
    rw [trimLeft, List.dropWhile_cons_of_pos (h c List.mem_cons_self)]
    exact ih fun d hd => h d (List.mem_cons_of_mem c hd)

theorem trimLeft_append (h : ∀ c ∈ cs, isBlank c = true) (ds : List Char) :
    trimLeft (cs ++ ds) = trimLeft ds :=
  List.dropWhile_append_of_pos h

private theorem trimRight_append_of_blank (cs : List Char) (h : ∀ c ∈ ds, isBlank c = true) :
    trimRight (cs ++ ds) = trimRight cs := by
  rw [trimRight, List.reverse_append, trimLeft_append fun c hm => h c (List.mem_reverse.1 hm)]
  rfl

theorem trim_of_blank_append (h : ∀ c ∈ cs, isBlank c = true) (ds : List Char) :
    trim (cs ++ ds) = trim ds :=
  congrArg trimRight (trimLeft_append h ds)

theorem trim_append_of_blank (cs : List Char) (h : ∀ c ∈ ds, isBlank c = true) :
    trim (cs ++ ds) = trim cs := by
  have happ : trimLeft (cs ++ ds) = if (trimLeft cs).isEmpty then trimLeft ds
      else trimLeft cs ++ ds :=
    List.dropWhile_append
  by_cases hn : (trimLeft cs).isEmpty
  · rw [trim, trim, happ, if_pos hn, trimLeft_of_blank h, List.isEmpty_iff.1 hn]
  · rw [trim, trim, happ, if_neg hn, trimRight_append_of_blank _ h]

theorem trim_of_not_blank (h : ∀ c ∈ cs, isBlank c = false) : trim cs = cs := by
  have hr : ∀ c ∈ cs.reverse, isBlank c = false := fun c hc => h c (List.mem_reverse.1 hc)
  have hl : ∀ {ds : List Char}, (∀ c ∈ ds, isBlank c = false) → trimLeft ds = ds := fun h =>
    trimLeft_of_head fun c hc => h c (List.mem_of_mem_head? hc)
  rw [trim, trimRight, hl h, hl hr, List.reverse_reverse]

end Trimming

end BuildAlign.BlankText

/-! ## Decimal digits of every script

Every script that counts in tens has ten consecutive digits, so a digit is known by the zero of its
script.  Superscripts, circled digits and the like look like digits and have no place value. -/
namespace BuildAlign.DecimalDigits
open CharacterRanges

def zeros : List Nat :=
  [0x0030, 0x0660, 0x06F0, 0x07C0, 0x0966, 0x09E6, 0x0A66, 0x0AE6, 0x0B66, 0x0BE6, 0x0C66, 0x0CE6,
   0x0D66, 0x0DE6, 0x0E50, 0x0ED0, 0x0F20, 0x1040, 0x1090, 0x17E0, 0x1810, 0x1946, 0x19D0, 0x1A80,
   0x1A90, 0x1B50, 0x1BB0, 0x1C40, 0x1C50, 0xA620, 0xA8D0, 0xA900, 0xA9D0, 0xA9F0, 0xAA50, 0xABF0,
   0xFF10, 0x104A0, 0x10D30, 0x11066, 0x110F0, 0x11136, 0x111D0, 0x112F0, 0x11450, 0x114D0, 0x11650,
   0x116C0, 0x11730, 0x118E0, 0x11950, 0x11C50, 0x11D50, 0x11DA0, 0x16A60,
     0x16AC0, 0x16B50, 0x1D7CE,
   0x1D7D8, 0x1D7E2, 0x1D7EC, 0x1D7F6, 0x1E140, 0x1E2F0, 0x1E950, 0x1FBF0]

def digitSigns : Table :=
  [(0x00B2, 0x00B3), (0x00B9, 0x00B9), (0x1369, 0x1371), (0x19DA, 0x19DA), (0x2070, 0x2070),
   (0x2074, 0x2079), (0x2080, 0x2089), (0x2460, 0x2468), (0x2474, 0x247C), (0x2488, 0x2490),
   (0x24EA, 0x24EA), (0x24F5, 0x24FD), (0x24FF, 0x24FF), (0x2776, 0x277E), (0x2780, 0x2788),
   (0x278A, 0x2792), (0x10A40, 0x10A43), (0x10E60, 0x10E68), (0x11052, 0x1105A), (0x1F100, 0x1F10A)]

def digit? (c : Char) : Option Nat :=
  (zeros.find? fun z => z ≤ c.toNat && c.toNat < z + 10).map fun z => c.toNat - z

def isDecimal (c : Char) : Bool := (digit? c).isSome

/-- A decimal digit, or a sign drawn like one. -/
def isDigitLike (c : Char) : Bool := isDecimal c || covers digitSigns c

/-- A number may have so many digits at most, zeros in front of it included. -/
def longest : Nat := 4300

/-- The value that the digits add up to; `none` when one of them has no place value. -/
def value? (cs : List Char) : Option Nat :=
  cs.foldl (fun n c => do return (← n) * 10 + (← digit? c)) (some 0)

/-- The number that the digits write.  There is none when they are too many, or when one of them has
no place value. -/
def number? (cs : List Char) : Option Nat := if longest < cs.length then none else value? cs

end BuildAlign.DecimalDigits
