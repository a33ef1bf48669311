/-!
# White space

The characters of the Unicode property White_Space, cutting them off the ends of a text, and the
length of a text in bytes.
-/

namespace EventStore.Text

/-- The Unicode property White_Space. -/
def isBlank (c : Char) : Bool :=
  let n := c.toNat
  (0x09 ≤ n && n ≤ 0x0d) || n == 0x20 || n == 0x85 || n == 0xa0 || n == 0x1680 ||
    (0x2000 ≤ n && n ≤ 0x200a) || n == 0x2028 || n == 0x2029 || n == 0x202f ||
    n == 0x205f || n == 0x3000

def dropBlanks (s : List Char) : List Char := s.dropWhile isBlank

/-- Without the white space at either end. -/
def trim (s : List Char) : List Char := (dropBlanks (dropBlanks s).reverse).reverse

/-- Bytes of the UTF-8 form. -/
def byteLength : List Char → Nat
  | [] => 0
  | c :: r => c.utf8Size + byteLength r

theorem isBlank_of_isWhitespace {c : Char} (h : c.isWhitespace) : isBlank c := by
  simp only [Char.isWhitespace, Bool.or_eq_true, decide_eq_true_eq] at h
  rcases h with ((h | h) | h) | h <;> subst h <;> decide

theorem byteLength_append (s t : List Char) : byteLength (s ++ t) = byteLength s + byteLength t := by
  induction s with
  | nil => simp [byteLength]
  | cons c r ih => simp [byteLength, ih, Nat.add_assoc]

theorem dropBlanks_eq_nil_iff {s : List Char} : dropBlanks s = [] ↔ s.all isBlank := by
  induction s with
  | nil => simp [dropBlanks]
  | cons c r ih =>
    simp only [dropBlanks, List.dropWhile_cons, List.all_cons] at ih ⊢
    by_cases h : isBlank c <;> simp [h, ih]

end EventStore.Text
