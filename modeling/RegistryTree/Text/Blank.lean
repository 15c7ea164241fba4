/-!
# White space

`isBlank` is the white space of Unicode text: the characters whose bidirectional class is a
separator or that count as space separators, together with the ASCII control characters that
separate fields. `trim` cuts it off both ends of a text.
-/

namespace RegistryTree.Text

/-- The white space characters of Unicode text. -/
def isBlank (c : Char) : Bool :=
  let n := c.toNat
  (0x09 ≤ n && n ≤ 0x0D) || (0x1C ≤ n && n ≤ 0x20) || n == 0x85 || n == 0xA0 || n == 0x1680 ||
    (0x2000 ≤ n && n ≤ 0x200A) || n == 0x2028 || n == 0x2029 || n == 0x202F || n == 0x205F ||
    n == 0x3000

/-- The characters of a text without those at its two ends that a test admits. -/
def trimWith (p : Char → Bool) (s : List Char) : List Char :=
  ((s.dropWhile p).reverse.dropWhile p).reverse

/-- The characters of a text without the white space at its two ends. -/
def trimChars (s : List Char) : List Char := trimWith isBlank s

/-- A text without the white space at its two ends. -/
def trim (s : String) : String :=
  String.ofList (trimChars s.toList)

theorem trimWith_of_all {p : Char → Bool} {s : List Char} (h : ∀ c ∈ s, p c = true) :
    trimWith p s = [] := by
  have : s.dropWhile p = [] := by
    induction s with
    | nil => rfl
    | cons c r ih =>
      rw [List.dropWhile_cons, if_pos (h c (List.mem_cons_self ..))]
      exact ih fun d hd => h d (List.mem_cons_of_mem _ hd)
  simp [trimWith, this]

/-- A text is trimmed already when the test admits neither end of it. -/
theorem trimWith_of_ends {p : Char → Bool} {s : List Char}
    (hh : ∀ c, s.head? = some c → p c = false) (hl : ∀ c, s.getLast? = some c → p c = false) :
    trimWith p s = s := by
  have drop : ∀ t : List Char, (∀ c, t.head? = some c → p c = false) → t.dropWhile p = t := by
    intro t ht
    cases t with
    | nil => rfl
    | cons c r => rw [List.dropWhile_cons, if_neg (by simp [ht c rfl])]
  rw [trimWith, drop s hh, drop s.reverse (by simpa using hl), List.reverse_reverse]

theorem trimChars_of_blank {s : List Char} (h : ∀ c ∈ s, isBlank c = true) :
    trimChars s = [] := trimWith_of_all h

end RegistryTree.Text
