import Mathlib.Data.List.TakeWhile
import Rehome.Proofs.Json.Written

/-!
# The grammar of JSON

All of JSON, with any whitespace between its tokens, apart from every reader. Main statement: a text
spells one value at most (`Json.SpellsDocument.unique`).
-/

namespace Rehome

namespace Json

/-- What a JSON text can stand for. A number is kept as it is spelt. -/
inductive Data where
  | null
  | boolean (value : Bool)
  | number (spelling : Text)
  | string (value : Text)
  | array (items : List Data)
  | object (members : List (Text × Data))

/-! ### Numbers -/

/-- One or more digits. -/
def Digits (text : Text) : Prop :=
  text ≠ [] ∧ ∀ c ∈ text, c.isDigit = true

/-- The spellings of numbers: a sign, digits that begin with a zero only if there is no other, and a
fraction and an exponent that may be missing. -/
inductive SpellsNumber : Text → Prop where
  | intro {sign whole fraction exponent : Text} (signed : sign = [] ∨ sign = ['-'])
      (counted : whole = ['0'] ∨ Digits whole ∧ whole.head? ≠ some '0')
      (parted : fraction = [] ∨ ∃ digits, Digits digits ∧ fraction = '.' :: digits)
      (raised : exponent = [] ∨ ∃ e ∈ ['e', 'E'], ∃ sign ∈ [[], ['+'], ['-']], ∃ digits,
        Digits digits ∧ exponent = e :: (sign ++ digits)) :
      SpellsNumber (sign ++ whole ++ fraction ++ exponent)

/-- The ten digits. -/
def decimals : List Char :=
  "0123456789".toList

/-- The characters that numbers consist of. -/
def numerals : List Char :=
  "-+.eE".toList ++ decimals

/-- What may stand behind a number: nothing that would go on with it. -/
def Delimited (text : Text) : Prop :=
  ∀ c ∈ text.head?, c ∉ numerals

/-! ### Values -/

/-- An item of an array, or a member of an object. -/
inductive Entry where
  | item (value : Data)
  | member (key : Text) (value : Data)

namespace Entry

/-- Whether the entry has a key, so that it belongs into an object. -/
def keyed : Entry → Bool
  | item _ => false
  | member _ _ => true

/-- A member of an object. -/
def ofMember (member : Text × Data) : Entry :=
  .member member.1 member.2

end Entry

/-- The closing bracket of arrays, and that of objects. -/
def closing (keyed : Bool) : Char :=
  if keyed then '}' else ']'

/-- A part of a JSON text. -/
inductive Part where
  | value (data : Data)
  | entry (entry : Entry)
  /-- What is left up to a closing bracket. The entries may be the first behind the opening one. -/
  | entries (keyed first : Bool) (list : List Entry)

/-- A structural character with whitespace on both sides. -/
def Marked (c : Char) (text : Text) : Prop :=
  ∃ front back, Spacing front ∧ Spacing back ∧ text = front ++ c :: back

/-- What stands in front of an entry: a comma, if it is not the first one. -/
def Leads (first : Bool) (text : Text) : Prop :=
  if first then Spacing text else Marked ',' text

/-- The spellings of the parts. -/
inductive Spells : Part → Text → Prop where
  | null : Spells (.value .null) "null".toList
  | boolean (value : Bool) :
    Spells (.value (.boolean value)) (if value then "true" else "false").toList
  | number {spelling : Text} (spelled : SpellsNumber spelling) :
    Spells (.value (.number spelling)) spelling
  | string {value text : Text} (spelled : SpellsString value text) :
    Spells (.value (.string value)) text
  | array {items : List Data} {inner : Text}
      (entries : Spells (.entries false true (items.map .item)) inner) :
    Spells (.value (.array items)) ('[' :: inner)
  | object {members : List (Text × Data)} {inner : Text}
      (entries : Spells (.entries true true (members.map .ofMember)) inner) :
    Spells (.value (.object members)) ('{' :: inner)
  | item {data : Data} {text : Text} (spelled : Spells (.value data) text) :
    Spells (.entry (.item data)) text
  | member {key name between text : Text} {data : Data} (named : SpellsString key name)
      (colon : Marked ':' between) (spelled : Spells (.value data) text) :
    Spells (.entry (.member key data)) (name ++ (between ++ text))
  | close {keyed first : Bool} {gap : Text} (spacing : Spacing gap) :
    Spells (.entries keyed first []) (gap ++ [closing keyed])
  | next {keyed first : Bool} {entry : Entry} {list : List Entry} {lead front back : Text}
      (fits : entry.keyed = keyed) (leads : Leads first lead) (head : Spells (.entry entry) front)
      (tail : Spells (.entries keyed false list) back) :
    Spells (.entries keyed first (entry :: list)) (lead ++ (front ++ back))

/-- The spellings of a whole document. -/
inductive SpellsDocument (data : Data) : Text → Prop where
  | intro {front text back : Text} (before : Spacing front) (spelled : Spells (.value data) text)
      (behind : Spacing back) : SpellsDocument data (front ++ (text ++ back))

variable {text front back front' back' gap gap' rest rest' : Text} {c d : Char} {data data' : Data}
  {keyed first : Bool} {list : List Entry} {entry : Entry} {part part' : Part}

/-! ### First characters -/

/-- The characters that values and entries begin with. -/
def starts : List Char :=
  "ntf\"[\x7b-".toList ++ decimals

/-- What a value can be. -/
inductive Form where
  | null | boolean | number | string | array | object
  deriving DecidableEq

/-- The form of the values that begin with a character. -/
def formOf (c : Char) : Form :=
  match c with
  | 'n' => .null
  | 't' | 'f' => .boolean
  | '"' => .string
  | '[' => .array
  | '\x7b' => .object
  | _ => .number

/-- The form of a value. -/
def Data.form : Data → Form
  | null => .null
  | boolean _ => .boolean
  | number _ => .number
  | string _ => .string
  | array _ => .array
  | object _ => .object

lemma mem_decimals (digit : c.isDigit = true) : c ∈ decimals := by
  have small : c.toNat < 58 := by
    rw [Char.isDigit, Bool.and_eq_true, decide_eq_true_eq, decide_eq_true_eq] at digit
    exact Nat.lt_succ_of_le (UInt32.le_iff_toNat_le.1 digit.2)
  have table : ∀ n < 58, (Char.ofNat n).isDigit = true → Char.ofNat n ∈ decimals := by
    decide
  have found := table c.toNat small
  rw [Char.ofNat_toNat] at found
  exact found digit

lemma Digits.mem_numerals (h : Digits text) : ∀ c ∈ text, c ∈ numerals := fun c mem =>
  List.mem_append_right _ (mem_decimals (h.2 c mem))

lemma SpellsNumber.mem_numerals (h : SpellsNumber text) : ∀ c ∈ text, c ∈ numerals := by
  cases h with
  | @intro sign whole fraction exponent signed counted parted raised =>
    simp only [List.forall_mem_append]
    refine ⟨⟨⟨?_, ?_⟩, ?_⟩, ?_⟩
    · rcases signed with rfl | rfl
      · exact List.forall_mem_nil _
      · exact List.forall_mem_singleton.2 (by decide)
    · rcases counted with rfl | ⟨digits, -⟩
      · exact List.forall_mem_singleton.2 (by decide)
      · exact digits.mem_numerals
    · rcases parted with rfl | ⟨digits, own, rfl⟩
      · exact List.forall_mem_nil _
      · exact List.forall_mem_cons.2 ⟨by decide, own.mem_numerals⟩
    · rcases raised with rfl | ⟨e, letter, sign, listed, digits, own, rfl⟩
      · exact List.forall_mem_nil _
      · have letters : (['e', 'E'].all fun e => e ∈ numerals) = true := by decide
        have signs : ([[], ['+'], ['-']].all fun sign => sign.all fun c => c ∈ numerals) = true := by
          decide
        have own' : ∀ c ∈ sign, c ∈ numerals := fun c mem =>
          of_decide_eq_true (List.all_eq_true.1 (List.all_eq_true.1 signs sign listed) c mem)
        exact List.forall_mem_cons.2 ⟨of_decide_eq_true (List.all_eq_true.1 letters e letter),
          List.forall_mem_append.2 ⟨own', own.mem_numerals⟩⟩

lemma SpellsNumber.exists_head (h : SpellsNumber text) :
    ∃ c rest, text = c :: rest ∧ c ∈ '-' :: decimals := by
  cases h with
  | @intro sign whole fraction exponent signed counted parted raised =>
    have begun : ∃ c more, whole = c :: more ∧ c ∈ decimals := by
      rcases counted with rfl | ⟨⟨solid, digits⟩, -⟩
      · exact ⟨'0', [], rfl, by decide⟩
      · obtain ⟨c, more, rfl⟩ := List.exists_cons_of_ne_nil solid
        exact ⟨c, more, rfl, mem_decimals (digits c List.mem_cons_self)⟩
    obtain ⟨c, more, rfl, digit⟩ := begun
    rcases signed with rfl | rfl
    · exact ⟨c, _, rfl, List.mem_cons_of_mem _ digit⟩
    · exact ⟨'-', _, rfl, List.mem_cons_self⟩

/-- A value begins with a character that tells its form. -/
lemma Spells.exists_head (h : Spells (.value data) text) :
    ∃ c rest, text = c :: rest ∧ c ∈ starts ∧ formOf c = data.form := by
  cases h with
  | null => exact ⟨'n', _, rfl, by decide, rfl⟩
  | boolean value =>
    cases value with
    | false => exact ⟨'f', _, rfl, by decide, rfl⟩
    | true => exact ⟨'t', _, rfl, by decide, rfl⟩
  | number spelled =>
    obtain ⟨c, rest, rfl, mem⟩ := spelled.exists_head
    have table : (('-' :: decimals).all fun c => c ∈ starts ∧ formOf c = .number) = true := by
      decide
    exact ⟨c, rest, rfl, of_decide_eq_true (List.all_eq_true.1 table c mem)⟩
  | string spelled =>
    cases spelled with
    | intro chars => exact ⟨'"', _, rfl, by decide, rfl⟩
  | array entries => exact ⟨'[', _, rfl, by decide, rfl⟩
  | object entries => exact ⟨'\x7b', _, rfl, by decide, rfl⟩

lemma Spells.exists_head_entry (h : Spells (.entry entry) text) :
    ∃ c rest, text = c :: rest ∧ c ∈ starts := by
  cases h with
  | item spelled =>
    obtain ⟨c, rest, eq, mem, -⟩ := spelled.exists_head
    exact ⟨c, rest, eq, mem⟩
  | member named colon spelled =>
    cases named with
    | intro chars => exact ⟨'"', _, rfl, by decide⟩

/-! ### Whitespace -/

/-- The text begins with something else than whitespace. -/
def Solid (text : Text) : Prop :=
  ∃ c rest, text = c :: rest ∧ ¬ Spacing [c]

lemma solid_cons (apart : c ∉ [' ', '\t', '\n', '\r']) (rest : Text) : Solid (c :: rest) := by
  refine ⟨c, rest, rfl, ?_⟩
  simpa [Spacing] using apart

lemma solid_of_mem_starts (mem : c ∈ starts) (rest : Text) : Solid (c :: rest) := by
  have table : (starts.all fun c => c ∉ [' ', '\t', '\n', '\r']) = true := by decide
  exact solid_cons (of_decide_eq_true (List.all_eq_true.1 table c mem)) rest

lemma solid_closing (keyed : Bool) (rest : Text) : Solid (closing keyed :: rest) := by
  cases keyed with
  | false => exact solid_cons (by decide) rest
  | true => exact solid_cons (by decide) rest

lemma Solid.append (h : Solid text) (back : Text) : Solid (text ++ back) := by
  obtain ⟨c, rest, rfl, solid⟩ := h
  exact ⟨c, rest ++ back, rfl, solid⟩

/-- Whitespace in front of a solid text is told by the whole. -/
lemma Spacing.unique (h : Spacing gap) (h' : Spacing gap') (solid : Solid rest)
    (solid' : Solid rest') (same : gap ++ rest = gap' ++ rest') : rest = rest' := by
  obtain ⟨c, more, rfl, shown⟩ := solid
  obtain ⟨d, more', rfl, shown'⟩ := solid'
  have skipped := congrArg skipBlanks same
  rwa [skipBlanks_append h, skipBlanks_append h', skipBlanks_cons shown, skipBlanks_cons shown']
    at skipped

lemma Marked.unique (h : Marked c gap) (h' : Marked c gap') (mark : ∀ rest, Solid (c :: rest))
    (solid : Solid rest) (solid' : Solid rest') (same : gap ++ rest = gap' ++ rest') :
    rest = rest' := by
  obtain ⟨front, back, spacing, behind, rfl⟩ := h
  obtain ⟨front', back', spacing', behind', rfl⟩ := h'
  rw [List.append_assoc, List.append_assoc] at same
  have tail := spacing.unique spacing' (mark _) (mark _) same
  exact behind.unique behind' solid solid' (List.cons.inj tail).2

lemma Leads.unique (h : Leads first gap) (h' : Leads first gap') (solid : Solid rest)
    (solid' : Solid rest') (same : gap ++ rest = gap' ++ rest') : rest = rest' := by
  cases first with
  | true => exact Spacing.unique h h' solid solid' same
  | false => exact Marked.unique h h' (solid_cons (by decide)) solid solid' same

/-- What leads to an entry is not what leads to the closing bracket. -/
lemma Leads.ne_closing (h : Leads first gap) (spacing : Spacing gap') (mem : c ∈ starts) :
    gap ++ c :: rest ≠ gap' ++ closing keyed :: rest' := by
  intro same
  cases first with
  | true =>
    have heads := Spacing.unique h spacing (solid_of_mem_starts mem rest) (solid_closing ..) same
    have table : (starts.all fun c => ∀ keyed, c ≠ closing keyed) = true := by decide
    exact of_decide_eq_true (List.all_eq_true.1 table c mem) keyed (List.cons.inj heads).1
  | false =>
    obtain ⟨front, back, spacing', -, rfl⟩ := h
    rw [List.append_assoc] at same
    have heads := spacing'.unique spacing (solid_cons (by decide) _) (solid_closing ..) same
    have table : ∀ keyed, ',' ≠ closing keyed := by decide
    exact table keyed (List.cons.inj heads).1

/-! ### What stands behind a value -/

lemma delimited_nil : Delimited [] :=
  nofun

lemma delimited_cons (other : c ∉ numerals) (rest : Text) : Delimited (c :: rest) := by
  rintro _ ⟨⟩
  exact other

lemma Spacing.delimited (h : Spacing gap) (delimited : Delimited rest) :
    Delimited (gap ++ rest) := by
  cases gap with
  | nil => exact delimited
  | cons c gap =>
    have blanks : ∀ c, (c = ' ' ∨ c = '\t' ∨ c = '\n' ∨ c = '\r') → c ∉ numerals := by
      rintro c (rfl | rfl | rfl | rfl) <;> decide
    exact delimited_cons (blanks c (h c List.mem_cons_self)) _

lemma delimited_closing (keyed : Bool) (rest : Text) : Delimited (closing keyed :: rest) := by
  cases keyed with
  | false => exact delimited_cons (by decide) rest
  | true => exact delimited_cons (by decide) rest

/-- Behind an entry no number goes on. -/
lemma Spells.delimited (h : Spells (.entries keyed false list) text) (rest : Text) :
    Delimited (text ++ rest) := by
  cases h with
  | close spacing =>
    rw [List.append_assoc]
    exact spacing.delimited (delimited_closing keyed rest)
  | next fits leads head tail =>
    obtain ⟨front, back, spacing, -, rfl⟩ := leads
    rw [List.append_assoc, List.append_assoc]
    exact spacing.delimited (delimited_cons (by decide) _)

/-! ### Texts spell one value -/

lemma SpellsNumber.unique (h : SpellsNumber front) (h' : SpellsNumber front')
    (ends : Delimited rest) (ends' : Delimited rest') (same : front ++ rest = front' ++ rest') :
    front = front' := by
  have taken : ∀ {front rest : Text}, SpellsNumber front → Delimited rest →
      (front ++ rest).takeWhile (fun c => decide (c ∈ numerals)) = front := by
    intro front rest own ends
    rw [List.takeWhile_append_of_pos fun c mem => decide_eq_true (own.mem_numerals c mem)]
    cases rest with
    | nil => rw [List.takeWhile_nil, List.append_nil]
    | cons c rest =>
      rw [List.takeWhile_cons_of_neg (by simpa using ends c rfl), List.append_nil]
  rw [← taken h ends, same, taken h' ends']

lemma SpellsString.unique {key key' : Text} (h : SpellsString key front)
    (h' : SpellsString key' front') (same : front ++ rest = front' ++ rest') :
    key = key' ∧ rest = rest' := by
  cases h with
  | @intro inner chars =>
    cases h' with
    | @intro inner' chars' =>
      have bodies : inner ++ '"' :: rest = inner' ++ '"' :: rest' := by
        simpa using same
      have read : readString (inner ++ '"' :: rest) = .ok (key, rest) :=
        readString_eq_ok_iff.2 ⟨inner, chars, rfl⟩
      have read' : readString (inner' ++ '"' :: rest') = .ok (key', rest') :=
        readString_eq_ok_iff.2 ⟨inner', chars', rfl⟩
      rw [bodies] at read
      exact Prod.mk.inj (Except.ok.inj (read.symm.trans read'))

namespace Part

/-- The parts can stand at one point of a text: both are values, or both are entries between
brackets of one kind. -/
def Alike : Part → Part → Prop
  | .value _, .value _ => True
  | .entry own, .entry other => own.keyed = other.keyed
  | .entries keyed first _, .entries keyed' first' _ => keyed = keyed' ∧ first = first'
  | _, _ => False

lemma Alike.exists_value (h : Alike (.value data) part) : ∃ other, part = .value other := by
  cases part with
  | value other => exact ⟨other, rfl⟩
  | entry | entries => cases h

lemma Alike.exists_entry (h : Alike (.entry entry) part) :
    ∃ other, part = .entry other ∧ entry.keyed = other.keyed := by
  cases part with
  | entry other => exact ⟨other, rfl, h⟩
  | value | entries => cases h

lemma Alike.exists_entries (h : Alike (.entries keyed first list) part) :
    ∃ others, part = .entries keyed first others := by
  cases part with
  | entries keyed' first' others =>
    obtain ⟨rfl, rfl⟩ := h
    exact ⟨others, rfl⟩
  | value | entry => cases h

end Part

/-- Values that are spelt at one point of a text are of one form. -/
lemma Spells.form_eq (h : Spells (.value data) front) (h' : Spells (.value data') front')
    (same : front ++ rest = front' ++ rest') : data.form = data'.form := by
  obtain ⟨c, more, rfl, -, form⟩ := h.exists_head
  obtain ⟨d, more', rfl, -, form'⟩ := h'.exists_head
  rw [← form, ← form', (List.cons.inj same).1]

lemma Entry.ofMember_injective : Function.Injective ofMember := by
  rintro ⟨key, value⟩ ⟨key', value'⟩ same
  cases same
  rfl

lemma Entry.item_injective : Function.Injective item := by
  rintro value value' same
  cases same
  rfl

/-- What stands at one point of a text is told by the text from there on, and so is what follows. -/
lemma Spells.unique (h : Spells part front) (h' : Spells part' front') (alike : part.Alike part')
    (ends : Delimited rest) (ends' : Delimited rest') (same : front ++ rest = front' ++ rest') :
    part = part' ∧ rest = rest' := by
  -- the other part is of the same form, for it begins with the same character
  induction h generalizing part' front' rest rest' with
  | null =>
    obtain ⟨data', rfl⟩ := alike.exists_value
    have form := Spells.null.form_eq h' same
    cases h' <;> cases form
    case null => exact ⟨rfl, by simpa using same⟩
  | boolean value =>
    obtain ⟨data', rfl⟩ := alike.exists_value
    have form := (Spells.boolean value).form_eq h' same
    cases h' <;> cases form
    case boolean value' =>
      cases value <;> cases value'
      all_goals simp at same
      all_goals exact ⟨rfl, same⟩
  | number spelled =>
    obtain ⟨data', rfl⟩ := alike.exists_value
    have form := (Spells.number spelled).form_eq h' same
    cases h' <;> cases form
    case number spelled' =>
      obtain rfl := spelled.unique spelled' ends ends' same
      exact ⟨rfl, List.append_cancel_left same⟩
  | string spelled =>
    obtain ⟨data', rfl⟩ := alike.exists_value
    have form := (Spells.string spelled).form_eq h' same
    cases h' <;> cases form
    case string spelled' =>
      obtain ⟨rfl, tail⟩ := spelled.unique spelled' same
      exact ⟨rfl, tail⟩
  | array entries ih =>
    obtain ⟨data', rfl⟩ := alike.exists_value
    have form := (Spells.array entries).form_eq h' same
    cases h' <;> cases form
    case array entries' =>
      obtain ⟨eq, tail⟩ := ih entries' ⟨rfl, rfl⟩ ends ends' (List.cons.inj same).2
      rw [Part.entries.injEq] at eq
      rw [Entry.item_injective.list_map eq.2.2]
      exact ⟨rfl, tail⟩
  | object entries ih =>
    obtain ⟨data', rfl⟩ := alike.exists_value
    have form := (Spells.object entries).form_eq h' same
    cases h' <;> cases form
    case object entries' =>
      obtain ⟨eq, tail⟩ := ih entries' ⟨rfl, rfl⟩ ends ends' (List.cons.inj same).2
      rw [Part.entries.injEq] at eq
      rw [Entry.ofMember_injective.list_map eq.2.2]
      exact ⟨rfl, tail⟩
  | item spelled ih =>
    obtain ⟨other, rfl, keyed⟩ := alike.exists_entry
    cases h' with
    | member => cases keyed
    | item spelled' =>
      obtain ⟨eq, tail⟩ := ih spelled' trivial ends ends' same
      cases eq
      exact ⟨rfl, tail⟩
  | member named colon spelled ih =>
    obtain ⟨other, rfl, keyed⟩ := alike.exists_entry
    cases h' with
    | item => cases keyed
    | member named' colon' spelled' =>
      obtain ⟨c, more, eq, mem, -⟩ := spelled.exists_head
      obtain ⟨d, more', eq', mem', -⟩ := spelled'.exists_head
      simp only [List.append_assoc] at same
      obtain ⟨rfl, same⟩ := named.unique named' same
      have values := colon.unique colon' (solid_cons (by decide))
        (eq ▸ (solid_of_mem_starts mem more).append _)
        (eq' ▸ (solid_of_mem_starts mem' more').append _) same
      obtain ⟨eq, tail⟩ := ih spelled' trivial ends ends' values
      cases eq
      exact ⟨rfl, tail⟩
  | @close keyed first gap spacing =>
    obtain ⟨others, rfl⟩ := alike.exists_entries
    cases h' with
    | close spacing' =>
      rw [List.append_assoc, List.append_assoc] at same
      have tail := spacing.unique spacing' (solid_closing keyed _) (solid_closing keyed _) same
      exact ⟨rfl, (List.cons.inj tail).2⟩
    | next fits leads head tail =>
      obtain ⟨c, more, rfl, mem⟩ := head.exists_head_entry
      rw [List.append_assoc, List.append_assoc] at same
      exact absurd same.symm (leads.ne_closing spacing mem)
  | @next keyed first entry list lead front back fits leads head tail ihHead ihTail =>
    obtain ⟨others, rfl⟩ := alike.exists_entries
    obtain ⟨c, more, eq, mem⟩ := head.exists_head_entry
    cases h' with
    | close spacing' =>
      simp only [eq, List.append_assoc] at same
      exact absurd same (leads.ne_closing spacing' mem)
    | next fits' leads' head' tail' =>
      obtain ⟨d, more', eq', mem'⟩ := head'.exists_head_entry
      simp only [List.append_assoc] at same
      have entries := leads.unique leads' (eq ▸ (solid_of_mem_starts mem more).append _)
        (eq' ▸ (solid_of_mem_starts mem' more').append _) same
      obtain ⟨own, behind⟩ := ihHead head' (fits.trans fits'.symm) (tail.delimited _)
        (tail'.delimited _) entries
      obtain ⟨others, behind⟩ := ihTail tail' ⟨rfl, rfl⟩ ends ends' behind
      cases own
      cases others
      exact ⟨rfl, behind⟩

/-- A text spells one value at most. -/
theorem SpellsDocument.unique (h : SpellsDocument data text) (h' : SpellsDocument data' text) :
    data = data' := by
  generalize whole : text = text' at h'
  obtain ⟨before, spelled, behind⟩ := h
  obtain ⟨before', spelled', behind'⟩ := h'
  obtain ⟨c, more, eq, mem, -⟩ := spelled.exists_head
  obtain ⟨d, more', eq', mem', -⟩ := spelled'.exists_head
  have values := before.unique before' (eq ▸ (solid_of_mem_starts mem more).append _)
    (eq' ▸ (solid_of_mem_starts mem' more').append _) whole
  have ends : ∀ {gap : Text}, Spacing gap → Delimited gap := by
    intro gap spacing
    rw [← List.append_nil gap]
    exact spacing.delimited delimited_nil
  exact Part.value.inj (spelled.unique spelled' trivial (ends behind) (ends behind') values).1

end Json

end Rehome
