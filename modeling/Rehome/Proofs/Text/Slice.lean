import Mathlib.Data.List.Basic
import Rehome.Proofs.Text.Utf8

/-!
# Slices of UTF-8

The bytes of a text may be cut only between its characters, and the bytes themselves tell where that
is. Main statements: `Utf8.isBoundary_encode_iff`, and that a slice between two boundaries holds
what the text has there (`Utf8.slice?_encode`).
-/

namespace Rehome

namespace Utf8

/-- The byte goes on a character that began before it. -/
def Continues (b : UInt8) : Prop :=
  0x80 ≤ b ∧ b ≤ 0xBF

instance : DecidablePred Continues :=
  fun _ => inferInstanceAs (Decidable (_ ∧ _))

/-- A position where bytes may be cut: at either end, or in front of a byte that begins a
character. -/
def IsBoundary (bytes : Bytes) (n : Nat) : Prop :=
  n = 0 ∨ n = bytes.length ∨ ∃ b ∈ bytes[n]?, ¬ Continues b

instance (bytes : Bytes) (n : Nat) : Decidable (IsBoundary bytes n) :=
  inferInstanceAs (Decidable (_ ∨ _ ∨ ∃ b ∈ bytes[n]?, _))

/-- The bytes from `start` to `stop`, if both are boundaries and in order. -/
def slice? (bytes : Bytes) (start stop : Nat) : Option Bytes :=
  if start ≤ stop ∧ IsBoundary bytes start ∧ IsBoundary bytes stop then
    some ((bytes.take stop).drop start)
  else none

/-- The byte of a character below 0x80. -/
def ascii (c : Char) : UInt8 :=
  c.toNat.toUInt8

variable {text : Text} {bytes : Bytes} {n : Nat} {b : UInt8} {c : Char}

/-! ### Bytes of characters -/

/-- A character is one byte below 0x80, or a byte that begins it and others that go on. -/
lemma bytesOf_cases (c : Char) :
    (c.toNat < 0x80 ∧ bytesOf c.toNat = [ascii c]) ∨
      0x80 ≤ c.toNat ∧ ∃ first more, bytesOf c.toNat = first :: more ∧ 0xBF < first ∧
        ∀ b ∈ more, Continues b := by
  have valid := toNat_valid c
  rw [ascii]
  generalize c.toNat = n at valid
  have continues : ∀ m < 64, Continues (0x80 + m).toUInt8 := by
    decide
  have begins : ∀ m, 0xC0 ≤ m → m < 0x100 → 0xBF < m.toUInt8 := by
    intro m least most
    rw [UInt8.lt_iff_toNat_lt, toNat_toUInt8 most]
    exact least
  rw [bytesOf]
  split
  case isTrue ascii => exact .inl ⟨ascii, rfl⟩
  case isFalse high =>
    refine .inr ⟨Nat.not_lt.1 high, ?_⟩
    split
    case isTrue => exact ⟨_, _, rfl, begins _ (by omega) (by omega),
      List.forall_mem_singleton.2 (continues _ (by omega))⟩
    case isFalse =>
    split
    case isTrue =>
      refine ⟨_, _, rfl, begins _ (by omega) (by omega), ?_⟩
      simp only [List.forall_mem_cons, List.not_mem_nil, false_implies, implies_true, and_true]
      exact ⟨continues _ (by omega), continues _ (by omega)⟩
    case isFalse =>
      refine ⟨_, _, rfl, begins _ (by omega) (by omega), ?_⟩
      simp only [List.forall_mem_cons, List.not_mem_nil, false_implies, implies_true, and_true]
      exact ⟨continues _ (by omega), continues _ (by omega), continues _ (by omega)⟩

lemma toNat_ascii (low : c.toNat < 0x80) : (ascii c).toNat = c.toNat :=
  toNat_toUInt8 (by omega)

/-- A byte below 0x80 stands for its character and occurs in no other. -/
lemma ascii_mem_bytesOf_iff (low : c.toNat < 0x80) (d : Char) :
    ascii c ∈ bytesOf d.toNat ↔ d = c := by
  have own := toNat_ascii low
  constructor
  · intro mem
    rcases bytesOf_cases d with ⟨low', eq⟩ | ⟨-, first, more, eq, high, others⟩
    · rw [eq, List.mem_singleton] at mem
      apply Char.toNat_inj.1
      rw [← own, mem, toNat_ascii low']
    · exfalso
      rw [eq, List.mem_cons] at mem
      rcases mem with rfl | mem
      · have := UInt8.lt_iff_toNat_lt.1 high
        simp only [UInt8.reduceToNat] at this
        omega
      · have := UInt8.le_iff_toNat_le.1 (others _ mem).1
        simp only [UInt8.reduceToNat] at this
        omega
  · rintro rfl
    rcases bytesOf_cases d with ⟨-, eq⟩ | ⟨high, -⟩
    · rw [eq]
      exact List.mem_singleton_self _
    · omega

lemma bytesOf_of_lt (low : c.toNat < 0x80) : bytesOf c.toNat = [ascii c] := by
  rcases bytesOf_cases c with ⟨-, eq⟩ | ⟨high, -⟩
  · exact eq
  · omega

lemma bytesOf_ne_nil (c : Char) : bytesOf c.toNat ≠ [] := by
  rcases bytesOf_cases c with ⟨-, eq⟩ | ⟨-, first, more, eq, -⟩
  · rw [eq]
    exact List.cons_ne_nil _ _
  · rw [eq]
    exact List.cons_ne_nil _ _

lemma length_bytesOf (c : Char) : (bytesOf c.toNat).length = c.utf8Size := by
  have size : c.utf8Size = if c.toNat ≤ 127 then 1 else if c.toNat ≤ 2047 then 2 else
      if c.toNat ≤ 65535 then 3 else 4 := rfl
  rw [size, bytesOf]
  split
  · rw [if_pos (by omega)]; rfl
  split
  · rw [if_neg (by omega), if_pos (by omega)]; rfl
  split
  · rw [if_neg (by omega), if_neg (by omega), if_pos (by omega)]; rfl
  · rw [if_neg (by omega), if_neg (by omega), if_neg (by omega)]; rfl

@[simp] lemma encode_append (front back : Text) :
    encode (front ++ back) = encode front ++ encode back := by
  induction front with
  | nil => rfl
  | cons c front ih => rw [List.cons_append, encode, encode, ih, List.append_assoc]

@[simp] lemma length_encode (text : Text) : (encode text).length = text.byteSize := by
  induction text with
  | nil => rfl
  | cons c rest ih => rw [encode, List.length_append, length_bytesOf, ih, Text.byteSize]

lemma ascii_mem_encode_iff (low : c.toNat < 0x80) : ascii c ∈ encode text ↔ c ∈ text := by
  induction text with
  | nil => exact iff_of_false List.not_mem_nil List.not_mem_nil
  | cons d rest ih =>
    rw [encode, List.mem_append, ascii_mem_bytesOf_iff low, ih, List.mem_cons, eq_comm]

lemma head?_encode_iff (low : c.toNat < 0x80) :
    (encode text).head? = some (ascii c) ↔ text.head? = some c := by
  cases text with
  | nil => exact iff_of_false nofun nofun
  | cons d rest =>
    obtain ⟨first, more, eq⟩ := List.exists_cons_of_ne_nil (bytesOf_ne_nil d)
    rw [encode, eq, List.cons_append, List.head?_cons, List.head?_cons, Option.some.injEq,
      Option.some.injEq]
    constructor
    · rintro rfl
      exact (ascii_mem_bytesOf_iff low d).1 (eq ▸ List.mem_cons_self)
    · rintro rfl
      rw [bytesOf_of_lt low] at eq
      exact (List.cons.inj eq).1.symm

lemma getLast?_encode_iff (low : c.toNat < 0x80) :
    (encode text).getLast? = some (ascii c) ↔ text.getLast? = some c := by
  rcases List.eq_nil_or_concat' text with rfl | ⟨init, d, rfl⟩
  · exact iff_of_false nofun nofun
  · obtain ⟨more, last, eq⟩ := (List.eq_nil_or_concat' (bytesOf d.toNat)).resolve_left
      (bytesOf_ne_nil d)
    have whole : encode (init ++ [d]) = encode init ++ more ++ [last] := by
      rw [encode_append, encode, encode, List.append_nil, eq, List.append_assoc]
    rw [whole, List.getLast?_concat, List.getLast?_concat, Option.some.injEq, Option.some.injEq]
    constructor
    · rintro rfl
      exact (ascii_mem_bytesOf_iff low d).1 (eq ▸ List.mem_append_right _ List.mem_cons_self)
    · rintro rfl
      rw [bytesOf_of_lt low] at eq
      have ends := congrArg List.getLast? eq
      rw [List.getLast?_singleton, List.getLast?_concat] at ends
      exact (Option.some.inj ends).symm

/-! ### Boundaries -/

lemma IsBoundary.le (h : IsBoundary bytes n) : n ≤ bytes.length := by
  rcases h with rfl | rfl | ⟨b, found, -⟩
  · exact Nat.zero_le _
  · exact Nat.le_refl _
  · exact Nat.le_of_lt (List.getElem?_eq_some_iff.1 found).1

/-- A byte that begins a character stands between two characters. -/
lemma isBoundary_of_getElem? (found : (encode text)[n]? = some b) (begins : ¬ Continues b) :
    text.IsBoundary n := by
  induction text generalizing n with
  | nil => cases found
  | cons c rest ih =>
    rw [encode] at found
    by_cases behind : (bytesOf c.toNat).length ≤ n
    · rw [List.getElem?_append_right behind] at found
      obtain ⟨before, after, rfl, size⟩ := ih found
      refine ⟨c :: before, after, rfl, ?_⟩
      rw [length_bytesOf] at behind size
      rw [Text.byteSize, size, Nat.add_sub_cancel' behind]
    · rw [List.getElem?_append_left (Nat.lt_of_not_le behind)] at found
      cases n with
      | zero => exact ⟨[], c :: rest, rfl, rfl⟩
      | succ n =>
        exfalso
        rcases bytesOf_cases c with ⟨-, eq⟩ | ⟨-, first, more, eq, -, others⟩
        · rw [eq] at found
          cases found
        · rw [eq, List.getElem?_cons_succ] at found
          exact begins (others b (List.mem_of_getElem? found))

/-- The bytes of a text tell where its characters part. -/
theorem isBoundary_encode_iff : IsBoundary (encode text) n ↔ text.IsBoundary n := by
  constructor
  · rintro (rfl | rfl | ⟨b, found, begins⟩)
    · exact ⟨[], text, rfl, rfl⟩
    · exact ⟨text, [], (List.append_nil text).symm, (length_encode text).symm⟩
    · exact isBoundary_of_getElem? found begins
  · rintro ⟨before, after, rfl, rfl⟩
    cases after with
    | nil => exact .inr (.inl (by simp))
    | cons c rest =>
      refine .inr (.inr ?_)
      rw [encode_append, encode, List.getElem?_append_right (Nat.le_of_eq (length_encode before)),
        length_encode, Nat.sub_self]
      rcases bytesOf_cases c with ⟨low, eq⟩ | ⟨-, first, more, eq, high, -⟩
      · refine ⟨ascii c, by rw [eq]; rfl, fun continues => ?_⟩
        exact Nat.not_le.2 (toNat_ascii low ▸ low) (UInt8.le_iff_toNat_le.1 continues.1)
      · exact ⟨first, by rw [eq]; rfl, fun continues => UInt8.not_le.2 high continues.2⟩

/-- A slice between two boundaries holds what the text has there. -/
theorem slice?_encode (front middle back : Text) :
    slice? (encode (front ++ middle ++ back)) front.byteSize
      (front.byteSize + middle.byteSize) = some (encode middle) := by
  have start : IsBoundary (encode (front ++ middle ++ back)) front.byteSize :=
    isBoundary_encode_iff.2 ⟨front, middle ++ back, List.append_assoc .., rfl⟩
  have stop : IsBoundary (encode (front ++ middle ++ back)) (front.byteSize + middle.byteSize) :=
    isBoundary_encode_iff.2 ⟨front ++ middle, back, rfl, Text.byteSize_append ..⟩
  have upto : (encode (front ++ middle ++ back)).take (front.byteSize + middle.byteSize) =
      encode front ++ encode middle := by
    rw [← Text.byteSize_append, ← length_encode, encode_append (front ++ middle), List.take_left,
      encode_append]
  rw [slice?, if_pos ⟨Nat.le_add_right _ _, start, stop⟩, upto, ← length_encode, List.drop_left]

end Utf8

end Rehome
