import FoldingProtocol.Text.Utf8

/-!
# UTF-8 reads back what it wrote

The machine is taken through the bytes of one character: the lead byte sets the
number read so far, the bytes owed and the bounds of the next byte, and every
byte that follows keeps to these bounds, for the bounds rule out overlong forms
and surrogates and no character is either. So each character comes back as one
part, with the machine between characters again, and a text comes back by
induction.
-/

namespace FoldingProtocol.Utf8

theorem toNat_ofNat {b : Nat} (h : b < 256) : (UInt8.ofNat b).toNat = b := by
  rw [UInt8.toNat_ofNat']
  exact Nat.mod_eq_of_lt h

/-! ## Steps of the machine -/

theorem parts_cons (state : State) {b : Nat} (hb : b < 256) (rest : Bytes) :
    parts state (.ofNat b :: rest) = (step state b).1 ++ parts (step state b).2 rest := by
  cases state with
  | start => rw [parts, toNat_ofNat hb]
  | within soFar owed low high => rw [parts, toNat_ofNat hb]

theorem parts_last {soFar low high b : Nat} (hlow : low ≤ b) (hhigh : b ≤ high) (hb : b < 256)
    (rest : Bytes) :
    parts (.within soFar 1 low high) (.ofNat b :: rest) =
      some (.ofNat (soFar * 64 + (b - 0x80))) :: parts .start rest := by
  rw [parts_cons _ hb, step, if_pos ⟨hlow, hhigh⟩]
  rfl

theorem parts_next {soFar owed low high b : Nat} (howed : 1 < owed) (hlow : low ≤ b)
    (hhigh : b ≤ high) (hb : b < 256) (rest : Bytes) :
    parts (.within soFar owed low high) (.ofNat b :: rest) =
      parts (.within (soFar * 64 + (b - 0x80)) (owed - 1) 0x80 0xbf) rest := by
  rw [parts_cons _ hb, step, if_pos ⟨hlow, hhigh⟩]
  simp only [if_neg (Nat.not_le.mpr howed), List.nil_append]

/-! ## Lead bytes

What a lead byte of a character promises: the bits it carries, and bounds that
the next byte of the character keeps. -/

theorem startWith_one {n : Nat} (h : n < 0x80) : startWith n = ([some (.ofNat n)], .start) := by
  rw [startWith, if_pos h]

theorem startWith_two {n : Nat} (hlow : 0x80 ≤ n) (hhigh : n < 0x800) :
    startWith (0xc0 + n / 64) = ([], .within (n / 64) 1 0x80 0xbf) := by
  rw [startWith, if_neg (by omega), if_neg (by omega), if_pos (by omega)]
  simp

theorem startWith_three {n : Nat} (hlow : 0x800 ≤ n) (hhigh : n < 0x10000)
    (hscalar : n < 0xd800 ∨ 0xdfff < n) :
    ∃ low high, startWith (0xe0 + n / 4096) = ([], .within (n / 4096) 2 low high) ∧
      low ≤ 0x80 + n / 64 % 64 ∧ 0x80 + n / 64 % 64 ≤ high := by
  rw [startWith, if_neg (by omega), if_neg (by omega), if_neg (by omega)]
  split
  · exact ⟨0xa0, 0xbf, by simp; omega, by omega, by omega⟩
  · split
    · exact ⟨0x80, 0x9f, by simp; omega, by omega, by omega⟩
    · rw [if_pos (by omega)]
      exact ⟨0x80, 0xbf, by simp, by omega, by omega⟩

theorem startWith_four {n : Nat} (hlow : 0x10000 ≤ n) (hhigh : n < 0x110000) :
    ∃ low high, startWith (0xf0 + n / 262144) = ([], .within (n / 262144) 3 low high) ∧
      low ≤ 0x80 + n / 4096 % 64 ∧ 0x80 + n / 4096 % 64 ≤ high := by
  rw [startWith, if_neg (by omega), if_neg (by omega), if_neg (by omega), if_neg (by omega),
    if_neg (by omega), if_neg (by omega)]
  split
  · exact ⟨0x90, 0xbf, by simp; omega, by omega, by omega⟩
  · split
    · exact ⟨0x80, 0xbf, by simp, by omega, by omega⟩
    · rw [if_pos (by omega)]
      exact ⟨0x80, 0x8f, by simp; omega, by omega, by omega⟩

/-! ## Characters and texts -/

theorem toNat_lt (c : Char) : c.toNat < 0x110000 := by
  have hvalid : c.toNat.isValidChar := c.valid
  rcases hvalid with h | ⟨-, h⟩ <;> omega

theorem toNat_not_surrogate (c : Char) : c.toNat < 0xd800 ∨ 0xdfff < c.toNat := by
  have hvalid : c.toNat.isValidChar := c.valid
  rcases hvalid with h | ⟨h, -⟩ <;> omega

theorem parts_encodeChar (c : Char) (rest : Bytes) :
    parts .start (encodeChar c ++ rest) = some c :: parts .start rest := by
  have hback : Char.ofNat c.toNat = c := Char.ofNat_toNat c
  have hlt := toNat_lt c
  have hscalar := toNat_not_surrogate c
  unfold encodeChar
  generalize c.toNat = n at hback hlt hscalar
  subst hback
  simp only []
  split
  · next hone =>
      rw [List.cons_append, parts_cons _ (by omega), step, startWith_one hone]
      rfl
  · next hone =>
      split
      · next htwo =>
          rw [List.cons_append, parts_cons _ (by omega), step,
            startWith_two (by omega) htwo, List.nil_append, List.cons_append,
            parts_last (by omega) (by omega) (by omega)]
          have hnumber : n / 64 * 64 + (0x80 + n % 64 - 0x80) = n := by omega
          rw [hnumber, List.nil_append]
      · next htwo =>
          split
          · next hthree =>
              obtain ⟨low, high, hstart, hle, hge⟩ :=
                startWith_three (by omega) hthree hscalar
              rw [List.cons_append, parts_cons _ (by omega), step, hstart, List.nil_append,
                List.cons_append, parts_next (by omega) hle hge (by omega), List.cons_append,
                parts_last (by omega) (by omega) (by omega)]
              have hnumber : (n / 4096 * 64 + (0x80 + n / 64 % 64 - 0x80)) * 64 +
                  (0x80 + n % 64 - 0x80) = n := by omega
              rw [hnumber, List.nil_append]
          · next hthree =>
              obtain ⟨low, high, hstart, hle, hge⟩ := startWith_four (n := n) (by omega) hlt
              rw [List.cons_append, parts_cons _ (by omega), step, hstart, List.nil_append,
                List.cons_append, parts_next (by omega) hle hge (by omega), List.cons_append,
                parts_next (by omega) (by omega) (by omega) (by omega), List.cons_append,
                parts_last (by omega) (by omega) (by omega)]
              have hnumber : ((n / 262144 * 64 + (0x80 + n / 4096 % 64 - 0x80)) * 64 +
                  (0x80 + n / 64 % 64 - 0x80)) * 64 + (0x80 + n % 64 - 0x80) = n := by omega
              rw [hnumber, List.nil_append]

theorem parts_encode (cs : List Char) : parts .start (encode cs) = cs.map some := by
  induction cs with
  | nil => rfl
  | cons c rest ih =>
      show parts .start (encodeChar c ++ encode rest) = _
      rw [parts_encodeChar, ih]
      rfl

theorem decode?_encode (cs : List Char) : decode? (encode cs) = some cs := by
  rw [decode?, parts_encode]
  induction cs with
  | nil => rfl
  | cons c rest ih =>
      rw [List.map_cons, List.mapM_cons, ih]
      rfl

theorem decodeLossy_encode (cs : List Char) : decodeLossy (encode cs) = cs := by
  rw [decodeLossy, parts_encode, List.map_map]
  exact List.map_id cs

end FoldingProtocol.Utf8
