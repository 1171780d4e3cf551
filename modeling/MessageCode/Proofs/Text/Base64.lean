import MessageCode.Text.Base64

/-!
Base64 texts are canonical: a text that can be decoded is the text of the bytes that it decodes to.
-/

namespace MessageCode.Text.Base64

theorem encodeDigit_of_decodeDigit? {c : Char} {n : Nat} (read : decodeDigit? c = some n) :
    n < 64 ∧ encodeDigit n = c := by
  have same : ∀ k, k = c.toNat → Char.ofNat k = c := by
    rintro k rfl
    exact Char.ofNat_toNat c
  unfold decodeDigit? at read
  by_cases upper : 'A' ≤ c ∧ c ≤ 'Z'
  · rw [if_pos upper] at read
    cases read
    have least : 65 ≤ c.toNat := upper.1
    have most : c.toNat ≤ 90 := upper.2
    have inside : c.toNat - 65 < 26 := by omega
    rw [encodeDigit, if_pos inside]
    exact ⟨by omega, same _ (by omega)⟩
  rw [if_neg upper] at read
  by_cases lower : 'a' ≤ c ∧ c ≤ 'z'
  · rw [if_pos lower] at read
    cases read
    have least : 97 ≤ c.toNat := lower.1
    have most : c.toNat ≤ 122 := lower.2
    have above : ¬c.toNat - 71 < 26 := by omega
    have inside : c.toNat - 71 < 52 := by omega
    rw [encodeDigit, if_neg above, if_pos inside]
    exact ⟨by omega, same _ (by omega)⟩
  rw [if_neg lower] at read
  by_cases digit : '0' ≤ c ∧ c ≤ '9'
  · rw [if_pos digit] at read
    cases read
    have least : 48 ≤ c.toNat := digit.1
    have most : c.toNat ≤ 57 := digit.2
    have above : ¬c.toNat + 4 < 26 := by omega
    have above' : ¬c.toNat + 4 < 52 := by omega
    have inside : c.toNat + 4 < 62 := by omega
    rw [encodeDigit, if_neg above, if_neg above', if_pos inside]
    exact ⟨by omega, same _ (by omega)⟩
  rw [if_neg digit] at read
  by_cases plus : c = '+'
  · subst plus
    cases read
    exact ⟨by decide, rfl⟩
  rw [if_neg plus] at read
  by_cases slash : c = '/'
  · subst slash
    cases read
    exact ⟨by decide, rfl⟩
  · rw [if_neg slash] at read
    cases read

theorem encodeBytes_of_decodeChars? {chars : List Char} {bytes : List UInt8}
    (read : decodeChars? chars = some bytes) : encodeBytes bytes = chars := by
  have byte : ∀ n, n < 256 → (UInt8.ofNat n).toNat = n := by
    intro n small
    rw [UInt8.toNat_ofNat', Nat.mod_eq_of_lt small]
  fun_induction decodeChars? chars generalizing bytes with
  | case1 =>
      cases read
      rfl
  | case2 c d =>
      simp only [Option.bind_eq_bind, Option.bind_eq_some_iff] at read
      obtain ⟨p, first, q, second, read⟩ := read
      obtain ⟨small, rfl⟩ := encodeDigit_of_decodeDigit? first
      obtain ⟨small', rfl⟩ := encodeDigit_of_decodeDigit? second
      by_cases whole : q % 16 = 0
      · rw [if_pos whole] at read
        cases read
        have one : (p * 4 + q / 16) / 4 = p := by omega
        have two : (p * 4 + q / 16) % 4 * 16 = q := by omega
        rw [encodeBytes, byte _ (by omega), one, two]
      · rw [if_neg whole] at read
        cases read
  | case3 c d e =>
      simp only [Option.bind_eq_bind, Option.bind_eq_some_iff] at read
      obtain ⟨p, first, q, second, r, third, read⟩ := read
      obtain ⟨small, rfl⟩ := encodeDigit_of_decodeDigit? first
      obtain ⟨small', rfl⟩ := encodeDigit_of_decodeDigit? second
      obtain ⟨small'', rfl⟩ := encodeDigit_of_decodeDigit? third
      by_cases whole : r % 4 = 0
      · rw [if_pos whole] at read
        cases read
        have one : (p * 4 + q / 16) / 4 = p := by omega
        have two : (p * 4 + q / 16) % 4 * 16 + (q % 16 * 16 + r / 4) / 16 = q := by omega
        have three : (q % 16 * 16 + r / 4) % 16 * 4 = r := by omega
        rw [encodeBytes, byte _ (by omega), byte _ (by omega), one, two, three]
      · rw [if_neg whole] at read
        cases read
  | case4 c d e g rest _ _ ih =>
      simp only [Option.bind_eq_bind, Option.bind_eq_some_iff] at read
      obtain ⟨p, first, q, second, r, third, t, fourth, more, others, read⟩ := read
      cases read
      obtain ⟨small, rfl⟩ := encodeDigit_of_decodeDigit? first
      obtain ⟨small', rfl⟩ := encodeDigit_of_decodeDigit? second
      obtain ⟨small'', rfl⟩ := encodeDigit_of_decodeDigit? third
      obtain ⟨last, rfl⟩ := encodeDigit_of_decodeDigit? fourth
      have one : (p * 4 + q / 16) / 4 = p := by omega
      have two : (p * 4 + q / 16) % 4 * 16 + (q % 16 * 16 + r / 4) / 16 = q := by omega
      have three : (q % 16 * 16 + r / 4) % 16 * 4 + (r % 4 * 64 + t) / 64 = r := by omega
      have four : (r % 4 * 64 + t) % 64 = t := by omega
      rw [encodeBytes, byte _ (by omega), byte _ (by omega), byte _ (by omega), one, two, three, four,
        ih others]
  | case5 => cases read

/-- The text of the bytes that a text decodes to is that text. -/
theorem encode_of_decode? {text : String} {bytes : List UInt8} (read : decode? text = some bytes) :
    encode bytes = text := by
  rw [encode, encodeBytes_of_decodeChars? read, String.ofList_toList]

end MessageCode.Text.Base64
