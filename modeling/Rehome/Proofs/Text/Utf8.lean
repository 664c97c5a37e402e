import Mathlib.Tactic.Lemma
import Rehome.Text.Utf8

/-!
# UTF-8 has one spelling

Overlong forms and surrogates are broken, so that no other bytes read as a text than those that it
is written with. Main statement: `encode_of_decode?`.
-/

namespace Rehome

namespace Utf8

/-- What a first byte announces, by the number of bytes that follow it. -/
lemma lead?_cases {b : UInt8} {lead : Lead} (h : lead? b = some lead) :
    (b.toNat < 0x80 ∧ lead = ⟨0, b.toNat, 0x80, 0xBF⟩) ∨
      (∃ bits, b.toNat = 0xC0 + bits ∧ 2 ≤ bits ∧ bits < 32 ∧ lead = ⟨1, bits, 0x80, 0xBF⟩) ∨
      (∃ bits low high, b.toNat = 0xE0 + bits ∧ bits < 16 ∧ lead = ⟨2, bits, low, high⟩ ∧
        0x80 ≤ low.toNat ∧ high.toNat ≤ 0xBF ∧ (bits = 0 → 0xA0 ≤ low.toNat) ∧
        (bits = 13 → high.toNat ≤ 0x9F)) ∨
      ∃ bits low high, b.toNat = 0xF0 + bits ∧ bits < 5 ∧ lead = ⟨3, bits, low, high⟩ ∧
        0x80 ≤ low.toNat ∧ high.toNat ≤ 0xBF ∧ (bits = 0 → 0x90 ≤ low.toNat) ∧
        (bits = 4 → high.toNat ≤ 0x8F) := by
  rw [lead?] at h
  simp only [UInt8.lt_iff_toNat_lt, UInt8.reduceToNat, ← UInt8.toNat_inj] at h
  split at h
  · cases h
    exact .inl ⟨‹_›, rfl⟩
  split at h
  · cases h
  split at h
  · cases h
    exact .inr (.inl ⟨b.toNat - 0xC0, by omega, by omega, by omega, rfl⟩)
  split at h
  · cases h
    refine .inr (.inr (.inl ⟨0, 0xA0, 0xBF, by omega, by omega, rfl, ?_⟩))
    decide
  split at h
  · cases h
    refine .inr (.inr (.inl ⟨0xD, 0x80, 0x9F, by omega, by omega, rfl, ?_⟩))
    decide
  split at h
  · cases h
    refine .inr (.inr (.inl ⟨b.toNat - 0xE0, 0x80, 0xBF, by omega, by omega, rfl, ?_⟩))
    simp only [UInt8.reduceToNat]
    omega
  split at h
  · cases h
    refine .inr (.inr (.inr ⟨0, 0x90, 0xBF, by omega, by omega, rfl, ?_⟩))
    decide
  split at h
  · cases h
    refine .inr (.inr (.inr ⟨b.toNat - 0xF0, 0x80, 0xBF, by omega, by omega, rfl, ?_⟩))
    simp only [UInt8.reduceToNat]
    omega
  split at h
  · cases h
    refine .inr (.inr (.inr ⟨4, 0x80, 0x8F, by omega, by omega, rfl, ?_⟩))
    decide
  · cases h

/-- A byte that is announced is there and in its range. -/
lemma exists_of_finish_succ {following bits n : Nat} {low high : UInt8} {bytes rest : Bytes}
    (h : finish ⟨following + 1, bits, low, high⟩ bytes = (some n, rest)) :
    ∃ b more, bytes = b :: more ∧ low.toNat ≤ b.toNat ∧ b.toNat ≤ high.toNat ∧
      finish ⟨following, bits * 64 + (b.toNat - 0x80), 0x80, 0xBF⟩ more = (some n, rest) := by
  cases bytes with
  | nil => cases h
  | cons b more =>
    rw [finish] at h
    split at h
    case isTrue range => exact ⟨b, more, rfl, range.1, range.2, h⟩
    case isFalse => cases h

lemma toUInt8_eq {n : Nat} {b : UInt8} (h : n = b.toNat) : n.toUInt8 = b := by
  rw [h]
  exact UInt8.ofNat_toNat

/-- The bytes that were read for one character are those that it is written with. -/
lemma bytesOf_of_finish {b : UInt8} {lead : Lead} {bytes rest : Bytes} {n : Nat}
    (first : lead? b = some lead) (h : finish lead bytes = (some n, rest)) :
    n.isValidChar ∧ b :: bytes = bytesOf n ++ rest := by
  rcases lead?_cases first with ⟨ascii, rfl⟩ | ⟨bits, byte, least, most, rfl⟩ |
    ⟨bits, low, high, byte, most, rfl, least, top, shortest, surrogate⟩ |
    ⟨bits, low, high, byte, most, rfl, least, top, shortest, last⟩
  · rw [finish] at h
    cases h
    rw [bytesOf, if_pos ascii, toUInt8_eq rfl]
    exact ⟨.inl (by omega), rfl⟩
  · obtain ⟨c, more, rfl, lowC, highC, h⟩ := exists_of_finish_succ h
    rw [finish, Prod.mk.injEq, Option.some.injEq] at h
    obtain ⟨rfl, rfl⟩ := h
    simp only [UInt8.reduceToNat] at lowC highC
    rw [bytesOf, if_neg (by omega), if_pos (by omega), toUInt8_eq (b := b) (by omega),
      toUInt8_eq (b := c) (by omega)]
    exact ⟨.inl (by omega), rfl⟩
  · obtain ⟨c, more, rfl, lowC, highC, h⟩ := exists_of_finish_succ h
    obtain ⟨d, more, rfl, lowD, highD, h⟩ := exists_of_finish_succ h
    rw [finish, Prod.mk.injEq, Option.some.injEq] at h
    obtain ⟨rfl, rfl⟩ := h
    simp only [UInt8.reduceToNat] at lowD highD
    rw [bytesOf, if_neg (by omega), if_neg (by omega), if_pos (by omega),
      toUInt8_eq (b := b) (by omega), toUInt8_eq (b := c) (by omega),
      toUInt8_eq (b := d) (by omega)]
    refine ⟨?_, rfl⟩
    rw [Nat.isValidChar]
    omega
  · obtain ⟨c, more, rfl, lowC, highC, h⟩ := exists_of_finish_succ h
    obtain ⟨d, more, rfl, lowD, highD, h⟩ := exists_of_finish_succ h
    obtain ⟨e, more, rfl, lowE, highE, h⟩ := exists_of_finish_succ h
    rw [finish, Prod.mk.injEq, Option.some.injEq] at h
    obtain ⟨rfl, rfl⟩ := h
    simp only [UInt8.reduceToNat] at lowD highD lowE highE
    rw [bytesOf, if_neg (by omega), if_neg (by omega), if_neg (by omega),
      toUInt8_eq (b := b) (by omega), toUInt8_eq (b := c) (by omega),
      toUInt8_eq (b := d) (by omega), toUInt8_eq (b := e) (by omega)]
    refine ⟨?_, rfl⟩
    rw [Nat.isValidChar]
    omega

lemma toNat_ofNat {n : Nat} (valid : n.isValidChar) : (Char.ofNat n).toNat = n := by
  rw [Char.ofNat, dif_pos valid]
  rfl

lemma encode_of_read {bytes : Bytes} {text : Text} (h : read bytes = text.map some) :
    encode text = bytes := by
  fun_induction read bytes generalizing text with
  | case1 =>
    cases text with
    | nil => rfl
    | cons => cases h
  | case2 b rest none ih =>
    cases text with
    | nil => cases h
    | cons => cases h
  | case3 b rest lead first ih =>
    cases text with
    | nil => cases h
    | cons c text =>
      rw [List.map_cons, List.cons.injEq, Option.map_eq_some_iff] at h
      obtain ⟨⟨n, done, rfl⟩, h⟩ := h
      have bytes : finish lead rest = (some n, (finish lead rest).2) := by rw [← done]
      obtain ⟨valid, eq⟩ := bytesOf_of_finish first bytes
      rw [encode, toNat_ofNat valid, ih h, eq]

/-- Bytes that read as a text are those that the text is written with. -/
theorem encode_of_decode? {bytes : Bytes} {text : Text} (h : decode? bytes = some text) :
    encode text = bytes := by
  apply encode_of_read
  rw [decode?] at h
  generalize read bytes = found at h
  induction found generalizing text with
  | nil =>
    cases h
    rfl
  | cons c found ih =>
    simp only [List.mapM_cons, Option.bind_eq_bind, Option.bind_eq_some_iff, Option.pure_def,
      Option.some.injEq, id] at h
    obtain ⟨c, rfl, text, tail, rfl⟩ := h
    rw [List.map_cons, ih tail]

lemma encode_injective : Function.Injective encode := by
  intro a b same
  apply Option.some.inj
  rw [← decode?_encode, ← decode?_encode, same]

end Utf8

end Rehome
