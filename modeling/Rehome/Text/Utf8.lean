import Rehome.Text.Basic

/-!
# UTF-8

Texts as bytes and back. Reading takes one character at a time off the front; a beginning that no
character can continue is broken, and the longest such beginning counts as one fault. Main
statement: bytes written from a text read back as that text (`decode?_encode`).
-/

namespace Rehome

namespace Utf8

/-- The bytes of the code point `n`. -/
def bytesOf (n : Nat) : Bytes :=
  if n < 0x80 then [n.toUInt8]
  else if n < 0x800 then [(0xC0 + n / 64).toUInt8, (0x80 + n % 64).toUInt8]
  else if n < 0x10000 then
    [(0xE0 + n / 4096).toUInt8, (0x80 + n / 64 % 64).toUInt8, (0x80 + n % 64).toUInt8]
  else
    [(0xF0 + n / 262144).toUInt8, (0x80 + n / 4096 % 64).toUInt8, (0x80 + n / 64 % 64).toUInt8,
      (0x80 + n % 64).toUInt8]

/-- The bytes of a text. -/
def encode : Text → Bytes
  | [] => []
  | c :: rest => bytesOf c.toNat ++ encode rest

/-- What a first byte announces: how many bytes follow, the bits that it holds itself, and the
range that the next byte must keep to. -/
structure Lead where
  following : Nat
  bits : Nat
  low : UInt8
  high : UInt8
  deriving DecidableEq

/-- The announcement of a first byte; none for a byte that begins no character. The ranges leave
out overlong forms, surrogates and all above U+10FFFF. -/
def lead? (b : UInt8) : Option Lead :=
  if b < 0x80 then some ⟨0, b.toNat, 0x80, 0xBF⟩
  else if b < 0xC2 then none
  else if b < 0xE0 then some ⟨1, b.toNat - 0xC0, 0x80, 0xBF⟩
  else if b = 0xE0 then some ⟨2, 0, 0xA0, 0xBF⟩
  else if b = 0xED then some ⟨2, 0xD, 0x80, 0x9F⟩
  else if b < 0xF0 then some ⟨2, b.toNat - 0xE0, 0x80, 0xBF⟩
  else if b = 0xF0 then some ⟨3, 0, 0x90, 0xBF⟩
  else if b < 0xF4 then some ⟨3, b.toNat - 0xF0, 0x80, 0xBF⟩
  else if b = 0xF4 then some ⟨3, 4, 0x80, 0x8F⟩
  else none

/-- Takes the announced bytes; none for the code point when one is missing or out of range, and
then that byte is left. -/
def finish : Lead → Bytes → Option Nat × Bytes
  | ⟨0, bits, _, _⟩, rest => (some bits, rest)
  | ⟨_ + 1, _, _, _⟩, [] => (none, [])
  | ⟨following + 1, bits, low, high⟩, b :: rest =>
    if low ≤ b ∧ b ≤ high then
      finish ⟨following, bits * 64 + (b.toNat - 0x80), 0x80, 0xBF⟩ rest
    else (none, b :: rest)

theorem length_finish_le (lead : Lead) (bytes : Bytes) :
    (finish lead bytes).2.length ≤ bytes.length := by
  fun_induction finish lead bytes with
  | case1 => simp
  | case2 => simp
  | case3 following bits low high b rest _ ih => simp only [List.length_cons]; omega
  | case4 => simp

/-- The characters that the bytes spell, none standing for a broken beginning. -/
def read : Bytes → List (Option Char)
  | [] => []
  | b :: rest =>
    match lead? b with
    | none => none :: read rest
    | some lead => (finish lead rest).1.map Char.ofNat :: read (finish lead rest).2
termination_by bytes => bytes.length
decreasing_by
  · simp
  · have := length_finish_le lead rest
    simp only [List.length_cons]
    omega

/-- The text that the bytes spell, if none of them is broken. -/
def decode? (bytes : Bytes) : Option Text :=
  (read bytes).mapM id

/-- The text that the bytes spell, with U+FFFD for each broken beginning. -/
def decodeLossy (bytes : Bytes) : Text :=
  (read bytes).map fun c => c.getD '\uFFFD'

theorem toNat_toUInt8 {n : Nat} (small : n < 256) : n.toUInt8.toNat = n := by
  simp [Nat.toUInt8, UInt8.toNat_ofNat', Nat.mod_eq_of_lt small]

theorem finish_continue {following bits n : Nat} {low high : UInt8} {rest : Bytes}
    (small : n < 64) (above : low.toNat ≤ 0x80 + n) (below : 0x80 + n ≤ high.toNat) :
    finish ⟨following + 1, bits, low, high⟩ ((0x80 + n).toUInt8 :: rest) =
      finish ⟨following, bits * 64 + n, 0x80, 0xBF⟩ rest := by
  have byte : (0x80 + n).toUInt8.toNat = 0x80 + n := toNat_toUInt8 (by omega)
  have range : low ≤ (0x80 + n).toUInt8 ∧ (0x80 + n).toUInt8 ≤ high := by
    simp only [UInt8.le_iff_toNat_le, byte]
    exact ⟨above, below⟩
  rw [finish, if_pos range, byte, Nat.add_sub_cancel_left]

/-- The code points that are characters. -/
theorem toNat_valid (c : Char) : c.toNat < 0xD800 ∨ 0xDFFF < c.toNat ∧ c.toNat < 0x110000 :=
  c.valid

theorem lead?_two : ∀ k < 32, 2 ≤ k → lead? (0xC0 + k).toUInt8 = some ⟨1, k, 0x80, 0xBF⟩ := by
  decide

theorem lead?_three : ∀ k < 16, lead? (0xE0 + k).toUInt8 =
    some ⟨2, k, if k = 0 then 0xA0 else 0x80, if k = 13 then 0x9F else 0xBF⟩ := by
  decide

theorem lead?_four : ∀ k < 5, lead? (0xF0 + k).toUInt8 =
    some ⟨3, k, if k = 0 then 0x90 else 0x80, if k = 4 then 0x8F else 0xBF⟩ := by
  decide

/-- One character reads back from its bytes, whatever follows. -/
theorem read_bytesOf_append (c : Char) (rest : Bytes) :
    read (bytesOf c.toNat ++ rest) = some c :: read rest := by
  have valid := toNat_valid c
  have back : Char.ofNat c.toNat = c := Char.ofNat_toNat c
  generalize c.toNat = n at valid back
  unfold bytesOf
  split
  case isTrue ascii =>
    have byte : n.toUInt8.toNat = n := toNat_toUInt8 (by omega)
    have lead : lead? n.toUInt8 = some ⟨0, n, 0x80, 0xBF⟩ := by
      have : n.toUInt8 < 0x80 := by simp only [UInt8.lt_iff_toNat_lt, byte]; exact ascii
      simp [lead?, this, byte]
    simp [read, lead, finish, back]
  case isFalse =>
  split
  case isTrue =>
    have lead := lead?_two (n / 64) (by omega) (by omega)
    have whole : n / 64 * 64 + n % 64 = n := by omega
    simp only [List.cons_append, List.nil_append, read, lead]
    rw [finish_continue (by omega) (by simp) (by simp; omega)]
    simp [finish, whole, back]
  case isFalse =>
  split
  case isTrue =>
    have lead := lead?_three (n / 4096) (by omega)
    have whole : (n / 4096 * 64 + n / 64 % 64) * 64 + n % 64 = n := by omega
    -- no shorter spelling, and no surrogate
    have above : (if n / 4096 = 0 then 0xA0 else 0x80 : UInt8).toNat ≤ 0x80 + n / 64 % 64 := by
      split
      case isTrue least =>
        change 0xA0 ≤ _
        omega
      case isFalse => exact Nat.le_add_right 0x80 _
    have below : 0x80 + n / 64 % 64 ≤ (if n / 4096 = 13 then 0x9F else 0xBF : UInt8).toNat := by
      split
      case isTrue surrogate =>
        change _ ≤ 0x9F
        omega
      case isFalse =>
        change _ ≤ 0xBF
        omega
    simp only [List.cons_append, List.nil_append, read, lead]
    rw [finish_continue (by omega) above below, finish_continue (by omega) (by simp) (by simp; omega)]
    simp [finish, whole, back]
  case isFalse =>
    have lead := lead?_four (n / 262144) (by omega)
    have whole : ((n / 262144 * 64 + n / 4096 % 64) * 64 + n / 64 % 64) * 64 + n % 64 = n := by
      omega
    -- no shorter spelling, and nothing behind the last character
    have above : (if n / 262144 = 0 then 0x90 else 0x80 : UInt8).toNat ≤ 0x80 + n / 4096 % 64 := by
      split
      case isTrue least =>
        change 0x90 ≤ _
        omega
      case isFalse => exact Nat.le_add_right 0x80 _
    have below : 0x80 + n / 4096 % 64 ≤ (if n / 262144 = 4 then 0x8F else 0xBF : UInt8).toNat := by
      split
      case isTrue last =>
        change _ ≤ 0x8F
        omega
      case isFalse =>
        change _ ≤ 0xBF
        omega
    simp only [List.cons_append, List.nil_append, read, lead]
    rw [finish_continue (by omega) above below,
      finish_continue (by omega) (by simp) (by simp; omega),
      finish_continue (by omega) (by simp) (by simp; omega)]
    simp [finish, whole, back]

theorem read_encode (text : Text) : read (encode text) = text.map some := by
  induction text with
  | nil => simp [encode, read]
  | cons c rest ih => simp [encode, read_bytesOf_append, ih]

/-- Bytes written from a text read back as that text. -/
theorem decode?_encode (text : Text) : decode? (encode text) = some text := by
  rw [decode?, read_encode]
  induction text with
  | nil => rfl
  | cons c rest ih => simp [ih]

end Utf8

end Rehome
