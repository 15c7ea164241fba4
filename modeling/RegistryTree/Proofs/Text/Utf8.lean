import RegistryTree.Text.Portion
import RegistryTree.Text.Utf8

/-!
# Text that was stored is read back

A character takes between one and four octets: the first tells how many, the others carry six bits
each. Reading the octets of a character gives the character, and so reading the octets of a text
gives the text.

> `decodeUtf8_encodeUtf8`: the octets of a text are read as the text.
-/

namespace RegistryTree.Text

namespace Utf8

/-- An octet that carries on a character, with six bits. -/
def tail (bits : Nat) : UInt8 := UInt8.ofNat (bits % 64 + 128)

theorem tail_toNat (bits : Nat) : (tail bits).toNat = bits % 64 + 128 := by
  rw [tail, UInt8.toNat_ofNat']
  omega

/-- Reads the first octet of a character of several. -/
theorem read_lead {position : Nat} {b : UInt8} {rest : List UInt8} {l : Lead}
    (h : lead? b = some l) (hb : 0x80 ≤ b.toNat) :
    read position none (b :: rest) =
      read (position + 1) (some ⟨b, position, 1, l.bits, l.owed, l.low, l.high⟩) rest := by
  have hnot : ¬ b < 0x80 := by
    rw [UInt8.lt_iff_toNat_lt]
    exact Nat.not_lt.2 hb
  rw [read, if_neg hnot, h]

/-- Reads an octet that carries on a character and is not its last. -/
theorem read_tail {position bits : Nat} {rest : List UInt8} {p : Pending}
    (hlow : p.low.toNat ≤ bits % 64 + 128) (hhigh : bits % 64 + 128 ≤ p.high.toNat)
    (howed : 1 < p.owed) :
    read position (some p) (tail bits :: rest) =
      read (position + 1) (some { p with
        seen := p.seen + 1, bits := 64 * p.bits + bits % 64, owed := p.owed - 1,
        low := 0x80, high := 0xBF }) rest := by
  have hin : p.low ≤ tail bits ∧ tail bits ≤ p.high := by
    rw [UInt8.le_iff_toNat_le, UInt8.le_iff_toNat_le, tail_toNat]
    exact ⟨hlow, hhigh⟩
  rw [read, if_pos hin, tail_toNat, if_neg (by omega), Nat.add_sub_cancel]

/-- Reads the last octet of a character. -/
theorem read_last {position bits : Nat} {rest : List UInt8} {p : Pending}
    (hlow : p.low.toNat ≤ bits % 64 + 128) (hhigh : bits % 64 + 128 ≤ p.high.toNat)
    (howed : p.owed = 1) :
    read position (some p) (tail bits :: rest) =
      (read (position + 1) none rest).map fun r =>
        (Char.ofNat (64 * p.bits + bits % 64) :: r.1, r.2) := by
  have hin : p.low ≤ tail bits ∧ tail bits ≤ p.high := by
    rw [UInt8.le_iff_toNat_le, UInt8.le_iff_toNat_le, tail_toNat]
    exact ⟨hlow, hhigh⟩
  rw [read, if_pos hin, tail_toNat, if_pos (by omega), Nat.add_sub_cancel]
  cases read (position + 1) none rest <;> rfl

theorem read_ascii {position n : Nat} {rest : List UInt8} (h : n ≤ 127) :
    read position none (UInt8.ofNat n :: rest) =
      (read (position + 1) none rest).map fun r => (Char.ofNat n :: r.1, r.2) := by
  have hn : (UInt8.ofNat n).toNat = n := by
    rw [UInt8.toNat_ofNat']
    omega
  have hlow : UInt8.ofNat n < 0x80 := by
    rw [UInt8.lt_iff_toNat_lt, hn]
    exact Nat.lt_succ_of_le h
  rw [read, if_pos hlow, hn]
  cases read (position + 1) none rest <;> rfl

/-! ## First octets -/

/-- What the first octet of a character tells, by its number. -/
theorem lead?_eq (b : UInt8) :
    lead? b =
      if 0xC2 ≤ b.toNat ∧ b.toNat ≤ 0xDF then some ⟨b.toNat - 0xC0, 1, 0x80, 0xBF⟩
      else if b.toNat = 0xE0 then some ⟨0, 2, 0xA0, 0xBF⟩
      else if b.toNat = 0xED then some ⟨0x0D, 2, 0x80, 0x9F⟩
      else if 0xE1 ≤ b.toNat ∧ b.toNat ≤ 0xEF then some ⟨b.toNat - 0xE0, 2, 0x80, 0xBF⟩
      else if b.toNat = 0xF0 then some ⟨0, 3, 0x90, 0xBF⟩
      else if 0xF1 ≤ b.toNat ∧ b.toNat ≤ 0xF3 then some ⟨b.toNat - 0xF0, 3, 0x80, 0xBF⟩
      else if b.toNat = 0xF4 then some ⟨4, 3, 0x80, 0x8F⟩
      else none := by
  simp only [lead?, UInt8.le_iff_toNat_le, ← UInt8.toNat_inj, UInt8.reduceToNat]

theorem lead?_two {v : Nat} (h : 0x80 ≤ v) (h' : v ≤ 0x7FF) :
    lead? (UInt8.ofNat (v / 64 % 32 + 192)) = some ⟨v / 64, 1, 0x80, 0xBF⟩ := by
  have hn : (UInt8.ofNat (v / 64 % 32 + 192)).toNat = v / 64 + 192 := by
    rw [UInt8.toNat_ofNat']
    omega
  rw [lead?_eq, hn, if_pos (by omega), Nat.add_sub_cancel]

/-- The bounds for the second octet leave out what fewer octets could say, and the numbers that are
set aside for pairs. -/
theorem lead?_three {v : Nat} (h : 0x800 ≤ v) (h' : v ≤ 0xFFFF) (hpairs : v < 0xD800 ∨ 0xDFFF < v) :
    ∃ low high : UInt8, lead? (UInt8.ofNat (v / 4096 % 16 + 224)) = some ⟨v / 4096, 2, low, high⟩ ∧
      low.toNat ≤ v / 64 % 64 + 128 ∧ v / 64 % 64 + 128 ≤ high.toNat := by
  have hn : (UInt8.ofNat (v / 4096 % 16 + 224)).toNat = v / 4096 + 224 := by
    rw [UInt8.toNat_ofNat']
    omega
  rw [lead?_eq, hn, if_neg (by omega)]
  by_cases h0 : v / 4096 = 0
  · rw [if_pos (by omega), h0]
    refine ⟨0xA0, 0xBF, rfl, ?_, ?_⟩ <;> simp only [UInt8.reduceToNat] <;> omega
  · rw [if_neg (by omega)]
    by_cases hd : v / 4096 = 13
    · rw [if_pos (by omega), hd]
      refine ⟨0x80, 0x9F, rfl, ?_, ?_⟩ <;> simp only [UInt8.reduceToNat] <;> omega
    · rw [if_neg (by omega), if_pos (by omega), Nat.add_sub_cancel]
      refine ⟨0x80, 0xBF, rfl, ?_, ?_⟩ <;> simp only [UInt8.reduceToNat] <;> omega

theorem lead?_four {v : Nat} (h : 0x10000 ≤ v) (h' : v ≤ 0x10FFFF) :
    ∃ low high : UInt8, lead? (UInt8.ofNat (v / 262144 % 8 + 240)) =
        some ⟨v / 262144, 3, low, high⟩ ∧
      low.toNat ≤ v / 4096 % 64 + 128 ∧ v / 4096 % 64 + 128 ≤ high.toNat := by
  have hn : (UInt8.ofNat (v / 262144 % 8 + 240)).toNat = v / 262144 + 240 := by
    rw [UInt8.toNat_ofNat']
    omega
  rw [lead?_eq, hn, if_neg (by omega), if_neg (by omega), if_neg (by omega), if_neg (by omega)]
  by_cases h0 : v / 262144 = 0
  · rw [if_pos (by omega), h0]
    refine ⟨0x90, 0xBF, rfl, ?_, ?_⟩ <;> simp only [UInt8.reduceToNat] <;> omega
  · rw [if_neg (by omega)]
    by_cases h4 : v / 262144 = 4
    · rw [if_neg (by omega), if_pos (by omega), h4]
      refine ⟨0x80, 0x8F, rfl, ?_, ?_⟩ <;> simp only [UInt8.reduceToNat] <;> omega
    · rw [if_pos (by omega), Nat.add_sub_cancel]
      refine ⟨0x80, 0xBF, rfl, ?_, ?_⟩ <;> simp only [UInt8.reduceToNat] <;> omega

/-! ## Characters and texts -/

/-- The last octet of a character, when nothing more is known of it. -/
theorem read_end {position bits : Nat} {rest : List UInt8} {p : Pending} {c : Char}
    (hp : p.owed = 1 ∧ p.low = 0x80 ∧ p.high = 0xBF)
    (hc : Char.ofNat (64 * p.bits + bits % 64) = c) :
    read position (some p) (tail bits :: rest) =
      (read (position + 1) none rest).map fun r => (c :: r.1, r.2) := by
  obtain ⟨howed, hlow, hhigh⟩ := hp
  rw [read_last _ _ howed, hc]
  · rw [hlow]
    exact Nat.le_add_left 128 _
  · rw [hhigh]
    show bits % 64 + 128 ≤ 191
    omega

/-- Reading the octets of a character gives the character. -/
theorem read_char (c : Char) (rest : List UInt8) (position : Nat) :
    ∃ position', read position none (String.utf8EncodeChar c ++ rest) =
      (read position' none rest).map fun r => (c :: r.1, r.2) := by
  have hvalid : c.toNat < 0xD800 ∨ 0xDFFF < c.toNat ∧ c.toNat < 0x110000 := c.valid
  have hc : Char.ofNat c.toNat = c := Char.ofNat_toNat c
  rw [String.utf8EncodeChar, show c.val.toNat = c.toNat from rfl]
  generalize c.toNat = v at hvalid hc ⊢
  have hlead : ∀ n, 128 ≤ n → n < 256 → 0x80 ≤ (UInt8.ofNat n).toNat := by
    intro n hn hn'
    rw [UInt8.toNat_ofNat']
    omega
  -- One case for each number of octets: a first octet that says how many follow, and six bits in
  -- each of those.
  by_cases h1 : v ≤ 127
  · rw [if_pos h1]
    exact ⟨_, by rw [List.singleton_append, read_ascii h1, hc]⟩
  rw [if_neg h1]
  by_cases h2 : v ≤ 2047
  · rw [if_pos h2]
    refine ⟨position + 1 + 1, ?_⟩
    show read _ none (_ :: tail v :: rest) = _
    rw [read_lead (lead?_two (by omega) h2) (hlead _ (by omega) (by omega)),
      read_end ⟨rfl, rfl, rfl⟩]
    rw [Nat.div_add_mod, hc]
  rw [if_neg h2]
  by_cases h3 : v ≤ 65535
  · rw [if_pos h3]
    obtain ⟨low, high, hthree, hlow, hhigh⟩ := lead?_three (by omega) h3 (by omega)
    refine ⟨position + 1 + 1 + 1, ?_⟩
    show read _ none (_ :: tail (v / 64) :: tail v :: rest) = _
    have hsum : 64 * (64 * (v / 4096) + v / 64 % 64) + v % 64 = v := by omega
    rw [read_lead hthree (hlead _ (by omega) (by omega)), read_tail hlow hhigh Nat.one_lt_two,
      read_end ⟨rfl, rfl, rfl⟩]
    rw [hsum, hc]
  · rw [if_neg h3]
    obtain ⟨low, high, hfour, hlow, hhigh⟩ := lead?_four (v := v) (by omega) (by omega)
    refine ⟨position + 1 + 1 + 1 + 1, ?_⟩
    show read _ none (_ :: tail (v / 4096) :: tail (v / 64) :: tail v :: rest) = _
    have hsum : 64 * (64 * (64 * (v / 262144) + v / 4096 % 64) + v / 64 % 64) + v % 64 = v := by
      omega
    rw [read_lead hfour (hlead _ (by omega) (by omega)), read_tail hlow hhigh (by simp),
      read_tail (Nat.le_add_left 128 _) _ Nat.one_lt_two, read_end ⟨rfl, rfl, rfl⟩]
    · rw [hsum, hc]
    · show v / 64 % 64 + 128 ≤ 191
      omega

theorem read_encodeUtf8 (s : List Char) (position : Nat) :
    read position none (encodeUtf8 s) = .ok (s, none) := by
  induction s generalizing position with
  | nil => rfl
  | cons c rest ih =>
    obtain ⟨position', hread⟩ := read_char c (encodeUtf8 rest) position
    rw [encodeUtf8, List.flatMap_cons, ← encodeUtf8, hread, ih]
    rfl

end Utf8

/-- The octets of a text are read as the text. -/
theorem decodeUtf8_encodeUtf8 (s : List Char) : decodeUtf8 (encodeUtf8 s) = .ok s := by
  rw [decodeUtf8, Utf8.read_encodeUtf8]
  rfl

/-- Texts with the same octets are the same. -/
theorem encodeUtf8_injective {s t : List Char} (h : encodeUtf8 s = encodeUtf8 t) : s = t := by
  have hread := congrArg decodeUtf8 h
  rw [decodeUtf8_encodeUtf8, decodeUtf8_encodeUtf8] at hread
  exact Except.ok.inj hread

end RegistryTree.Text
