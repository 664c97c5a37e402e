import Rehome.Fault
import Rehome.Proofs.Json.Written

/-!
# What a document of rules says

A document is read to the destination and the rules that it spells, in order and with all that is
repeated. Main statements: the texts that are documents (`Document.ofText_eq_ok_iff`), and what the
rules of a document come to (`Rules.ofJson_of_spells`).
-/

namespace Rehome

open Json

namespace Json

/-- A reader goes on where another one has read well. -/
lemma bind_eq_ok_iff {α β : Type} {first : Except Problem α} {next : α → Except Problem β} {b : β} :
    (first >>= next) = .ok b ↔ ∃ a, first = .ok a ∧ next a = .ok b := by
  cases first with
  | error problem =>
    constructor
    · rintro ⟨⟩
    · rintro ⟨_, ⟨⟩, _⟩
  | ok a =>
    constructor
    · exact fun h => ⟨a, rfl, h⟩
    · rintro ⟨_, ⟨⟩, h⟩
      exact h

/-- Members or elements with commas between them. -/
def separated (parts : List (List Token)) : List Token :=
  [Token.mark ','].intercalate parts

/-- An object of some members. -/
def object (members : List (List Token)) : List Token :=
  .mark '{' :: separated members ++ [.mark '}']

/-- An array of some elements. -/
def array (elements : List (List Token)) : List Token :=
  .mark '[' :: separated elements ++ [.mark ']']

/-- Members or elements from the first on or from a later one on, as the readers meet them. -/
def listed (first : Bool) : List (List Token) → List Token
  | [] => []
  | part :: parts => lead first ++ part ++ listed false parts

lemma separated_eq (parts : List (List Token)) : separated parts = listed true parts := by
  have later : ∀ part parts, [Token.mark ','].intercalate (part :: parts) =
      part ++ listed false parts := by
    intro part parts
    induction parts generalizing part with
    | nil => simp [listed, List.intercalate]
    | cons next parts ih =>
      have step := ih next
      simp only [List.intercalate, List.intersperse_cons_cons, List.flatten_cons] at step ⊢
      rw [step, listed, lead, if_neg Bool.false_ne_true, List.append_assoc]
  cases parts with
  | nil => rfl
  | cons part parts => exact later part parts

lemma written_object_iff {members : List (List Token)} {tokens : List Token} {text : Text} :
    Written (object members ++ tokens) text ↔
      ∃ rest, skipBlanks text = '{' :: rest ∧
        Written (listed true members ++ .mark '}' :: tokens) rest := by
  rw [object, separated_eq, List.cons_append, List.cons_append, List.append_assoc,
    List.singleton_append, written_mark_iff (by decide)]

lemma written_array_iff {elements : List (List Token)} {tokens : List Token} {text : Text} :
    Written (array elements ++ tokens) text ↔
      ∃ rest, skipBlanks text = '[' :: rest ∧
        Written (listed true elements ++ .mark ']' :: tokens) rest := by
  rw [array, separated_eq, List.cons_append, List.cons_append, List.append_assoc,
    List.singleton_append, written_mark_iff (by decide)]

end Json

/-- A rule as a member of an object. -/
def Rule.member (rule : Rule) : List Token :=
  [.string rule.typeName, .mark ':', .string rule.home]

namespace Document

/-- A field of a document. -/
inductive Field where
  | destination (value : Text)
  | types (list : List Rule)

namespace Field

/-- The key of a field. -/
def key : Field → Text
  | destination _ => "destination".toList
  | types _ => "types".toList

/-- The value of a field. -/
def value : Field → List Token
  | destination value => [.string value]
  | types list => object (list.map Rule.member)

/-- A field as a member of an object. -/
def member (field : Field) : List Token :=
  .string field.key :: .mark ':' :: field.value

end Field

/-- The shapes of a document: an object of the two fields in either order, of which the destination
can be left out, or an array of their values. -/
inductive Shape : Document → List Token → Prop
  | object (destination : Text) (list : List Rule) :
    Shape ⟨destination, list⟩ (Json.object [Field.member (.destination destination),
      Field.member (.types list)])
  | reversed (destination : Text) (list : List Rule) :
    Shape ⟨destination, list⟩ (Json.object [Field.member (.types list),
      Field.member (.destination destination)])
  | undirected (list : List Rule) :
    Shape ⟨"@/types".toList, list⟩ (Json.object [Field.member (.types list)])
  | array (destination : Text) (list : List Rule) :
    Shape ⟨destination, list⟩ (Json.array [Field.value (.destination destination),
      Field.value (.types list)])

/-- The text spells the document, with any whitespace between the tokens and any spelling of the
characters. -/
def Spells (document : Document) (text : Text) : Prop :=
  ∃ tokens, Shape document tokens ∧ Written tokens text

variable {tokens : List Token} {first : Bool} {text rest key : Text} {rule : Rule}
  {list : List Rule} {fields result : Fields} {field : Field} {document : Document}

/-! ### The types -/

lemma readRules_eq_ok_nil_iff :
    readRules first text = .ok ([], rest) ↔ readKey first text = .ok (none, rest) := by
  rw [readRules]
  split
  case h_1 _ failed => simp [failed]
  case h_2 after none => simp [none, eq_comm]
  case h_3 typeName after some =>
    rw [some]
    refine ⟨fun h => ?_, fun h => by cases h⟩
    split at h
    case h_1 => cases h
    case h_2 =>
      split at h
      case h_1 => cases h
      case h_2 =>
        split at h
        case h_1 => cases h
        case h_2 => cases h

lemma readRules_eq_ok_cons_iff :
    readRules first text = .ok (rule :: list, rest) ↔
      ∃ keyed, readKey first text = .ok (some rule.typeName, keyed) ∧
        ∃ turned, readColon keyed = .ok turned ∧
          ∃ valued, readStringValue turned = .ok (rule.home, valued) ∧
            readRules false valued = .ok (list, rest) := by
  constructor
  · intro h
    rw [readRules] at h
    split at h
    case h_1 => cases h
    case h_2 => cases h
    case h_3 typeName keyed some =>
      split at h
      case h_1 => cases h
      case h_2 turned colon =>
        split at h
        case h_1 => cases h
        case h_2 home valued value =>
          split at h
          case h_1 => cases h
          case h_2 more after others =>
            cases h
            exact ⟨keyed, some, turned, colon, valued, value, others⟩
  · rintro ⟨keyed, some, turned, colon, valued, value, others⟩
    rw [readRules]
    split
    case h_1 failed => cases some.symm.trans failed
    case h_2 none => cases some.symm.trans none
    case h_3 some' =>
      cases some.symm.trans some'
      split
      case h_1 failed => cases colon.symm.trans failed
      case h_2 colon' =>
        cases colon.symm.trans colon'
        split
        case h_1 failed => cases value.symm.trans failed
        case h_2 value' =>
          cases value.symm.trans value'
          rw [others]

/-- The rules of an object are what the reader of rules takes, up to the closing brace. -/
lemma written_rules_iff :
    Written (listed first (list.map Rule.member) ++ .mark '}' :: tokens) text ↔
      ∃ rest, readRules first text = .ok (list, rest) ∧ Written tokens rest := by
  induction list generalizing first text with
  | nil =>
    simp only [readRules_eq_ok_nil_iff]
    exact written_close_iff
  | cons rule list ih =>
    have parts : listed first ((rule :: list).map Rule.member) ++ .mark '}' :: tokens =
        lead first ++ .string rule.typeName :: .mark ':' :: .string rule.home ::
          (listed false (list.map Rule.member) ++ .mark '}' :: tokens) := by
      simp [listed, Rule.member]
    rw [parts, written_key_iff]
    simp only [readRules_eq_ok_cons_iff, written_colon_iff, written_string_iff, ih]
    grind

lemma readTypes_eq_ok_iff :
    readTypes text = .ok (list, rest) ↔
      ∃ more, skipBlanks text = '{' :: more ∧ readRules true more = .ok (list, rest) := by
  rw [readTypes]
  cases skipBlanks text with
  | nil => simp
  | cons c more =>
    by_cases brace : c = '{'
    · simp [brace]
    · simp [brace]

lemma written_types_iff :
    Written (Field.value (.types list) ++ tokens) text ↔
      ∃ rest, readTypes text = .ok (list, rest) ∧ Written tokens rest := by
  rw [Field.value, written_object_iff]
  simp only [readTypes_eq_ok_iff, written_rules_iff]
  grind

/-! ### The fields -/

/-- The fields with one more, unless it is there already. -/
def Fields.add? (fields : Fields) : Field → Option Fields
  | .destination value =>
    match fields.destination with
    | none => some { fields with destination := some value }
    | some _ => none
  | .types list =>
    match fields.list with
    | none => some { fields with list := some list }
    | some _ => none

/-- The fields with more of them, unless one is there already. -/
def Fields.addAll? (fields : Fields) : List Field → Option Fields
  | [] => some fields
  | field :: rest => (fields.add? field).bind fun fields => fields.addAll? rest

lemma readField_destination_eq_ok_iff :
    readField fields destinationField text = .ok (result, rest) ↔
      ∃ more, readColon text = .ok more ∧
        ∃ value, readStringValue more = .ok (value, rest) ∧
          fields.add? (.destination value) = some result := by
  rw [readField, if_pos rfl]
  simp only [Fields.add?]
  cases fields.destination with
  | some old => simp
  | none =>
    simp only [bind_eq_ok_iff, Prod.exists, pure, Except.pure, Except.ok.injEq, Prod.mk.injEq,
      Option.some.injEq]
    grind

lemma readField_types_eq_ok_iff :
    readField fields typesField text = .ok (result, rest) ↔
      ∃ more, readColon text = .ok more ∧
        ∃ list, readTypes more = .ok (list, rest) ∧ fields.add? (.types list) = some result := by
  rw [readField, if_neg (by decide), if_pos rfl]
  simp only [Fields.add?]
  cases fields.list with
  | some old => simp
  | none =>
    simp only [bind_eq_ok_iff, Prod.exists, pure, Except.pure, Except.ok.injEq, Prod.mk.injEq,
      Option.some.injEq]
    grind

/-- A field is read to where one with its key ends that may be added to those before it. -/
lemma exists_readField_iff :
    (∃ rest, readField fields key text = .ok (result, rest) ∧ Written tokens rest) ↔
      ∃ field : Field, field.key = key ∧ fields.add? field = some result ∧
        Written (.mark ':' :: (field.value ++ tokens)) text := by
  constructor
  · rintro ⟨rest, read, written⟩
    by_cases toDestination : key = destinationField
    · subst toDestination
      obtain ⟨more, colon, value, valued, added⟩ := readField_destination_eq_ok_iff.1 read
      refine ⟨.destination value, rfl, added, written_colon_iff.2 ⟨more, colon, ?_⟩⟩
      exact written_string_iff.2 ⟨rest, valued, written⟩
    by_cases toTypes : key = typesField
    · subst toTypes
      obtain ⟨more, colon, list, valued, added⟩ := readField_types_eq_ok_iff.1 read
      refine ⟨.types list, rfl, added, written_colon_iff.2 ⟨more, colon, ?_⟩⟩
      exact written_types_iff.2 ⟨rest, valued, written⟩
    rw [readField, if_neg toDestination, if_neg toTypes] at read
    cases read
  · rintro ⟨field, rfl, added, written⟩
    obtain ⟨more, colon, written⟩ := written_colon_iff.1 written
    cases field with
    | destination value =>
      obtain ⟨rest, valued, written⟩ := written_string_iff.1 written
      exact ⟨rest, readField_destination_eq_ok_iff.2 ⟨more, colon, value, valued, added⟩, written⟩
    | types list =>
      obtain ⟨rest, valued, written⟩ := written_types_iff.1 written
      exact ⟨rest, readField_types_eq_ok_iff.2 ⟨more, colon, list, valued, added⟩, written⟩

lemma listed_member_cons (first : Bool) (field : Field) (more : List Field) (tokens : List Token) :
    listed first ((field :: more).map Field.member) ++ tokens =
      lead first ++ .string field.key :: .mark ':' ::
        (field.value ++ (listed false (more.map Field.member) ++ tokens)) := by
  simp [listed, Field.member]

/-- The fields of an object are read to where some of them end that may stand together. -/
lemma exists_readFields_iff {rounds : Nat} :
    (∃ rest, readFields fields first text rounds = .ok (result, rest) ∧ Written tokens rest) ↔
      ∃ more : List Field, more.length < rounds ∧ fields.addAll? more = some result ∧
        Written (listed first (more.map Field.member) ++ .mark '}' :: tokens) text := by
  induction rounds generalizing fields first text with
  | zero =>
    constructor
    · rintro ⟨rest, read, -⟩
      cases read
    · rintro ⟨more, short, -⟩
      cases short
  | succ rounds ih =>
    constructor
    · rintro ⟨rest, read, written⟩
      rw [readFields] at read
      split at read
      case h_1 => cases read
      case h_2 none =>
        cases read
        exact ⟨[], Nat.succ_pos _, rfl, written_close_iff.2 ⟨rest, none, written⟩⟩
      case h_3 key after some =>
        split at read
        case h_1 => cases read
        case h_2 mid valued valid =>
          obtain ⟨more, short, joined, written⟩ := ih.1 ⟨rest, read, written⟩
          obtain ⟨field, rfl, joins, written⟩ := exists_readField_iff.1 ⟨valued, valid, written⟩
          refine ⟨field :: more, Nat.succ_lt_succ short, ?_, ?_⟩
          · rw [Fields.addAll?, joins]
            exact joined
          · rw [listed_member_cons]
            exact written_key_iff.2 ⟨after, some, written⟩
    · rintro ⟨_ | ⟨field, more⟩, short, joined, written⟩
      · obtain ⟨rest, none, written⟩ := written_close_iff.1 written
        cases joined
        exact ⟨rest, by rw [readFields, none], written⟩
      · rw [listed_member_cons] at written
        obtain ⟨after, some, written⟩ := written_key_iff.1 written
        rw [Fields.addAll?, Option.bind_eq_some_iff] at joined
        obtain ⟨mid, joins, joined⟩ := joined
        obtain ⟨valued, valid, written⟩ := exists_readField_iff.2 ⟨field, rfl, joins, written⟩
        obtain ⟨rest, read, written⟩ :=
          ih.2 ⟨more, Nat.lt_of_succ_lt_succ short, joined, written⟩
        refine ⟨rest, ?_, written⟩
        rw [readFields, some]
        dsimp only
        rw [valid]
        exact read

/-! ### The whole document -/

/-- The document that some fields make up. -/
def ofFields? (fields : List Field) : Option Document :=
  (Fields.addAll? ⟨none, none⟩ fields).bind fun fields =>
    fields.list.map fun list => ⟨fields.destination.getD Rules.defaultDestination, list⟩

/-- Fields make up a document in three ways. -/
lemma ofFields?_eq_some_iff {more : List Field} :
    ofFields? more = some document ↔
      more = [.destination document.destination, .types document.list] ∨
        more = [.types document.list, .destination document.destination] ∨
          more = [.types document.list] ∧ document.destination = Rules.defaultDestination := by
  constructor
  · intro h
    match more with
    | [] => cases h
    | [.destination _] => cases h
    | [.types list] =>
      cases h
      exact .inr (.inr ⟨rfl, rfl⟩)
    | .destination _ :: .destination _ :: _ => cases h
    | .types _ :: .types _ :: _ => cases h
    | [.destination value, .types list] =>
      cases h
      exact .inl rfl
    | [.types list, .destination value] =>
      cases h
      exact .inr (.inl rfl)
    | .destination _ :: .types _ :: .destination _ :: _ => cases h
    | .destination _ :: .types _ :: .types _ :: _ => cases h
    | .types _ :: .destination _ :: .destination _ :: _ => cases h
    | .types _ :: .destination _ :: .types _ :: _ => cases h
  · obtain ⟨destination, list⟩ := document
    rintro (rfl | rfl | ⟨rfl, rfl⟩)
    · rfl
    · rfl
    · rfl

lemma readObject_eq_ok_iff :
    readObject text = .ok (document, rest) ↔
      ∃ fields, readFields ⟨none, none⟩ true text 3 = .ok (fields, rest) ∧
        fields.list.map (Document.mk (fields.destination.getD Rules.defaultDestination)) =
          some document := by
  simp only [readObject, bind_eq_ok_iff, Prod.exists]
  constructor
  · rintro ⟨fields, after, read, h⟩
    cases found : fields.list with
    | none =>
      rw [found] at h
      cases h
    | some list =>
      rw [found] at h
      cases h
      exact ⟨fields, read, by rw [found, Option.map_some]⟩
  · rintro ⟨fields, read, h⟩
    refine ⟨fields, rest, read, ?_⟩
    obtain ⟨list, found, rfl⟩ := Option.map_eq_some_iff.1 h
    rw [found]
    rfl

lemma exists_readObject_iff :
    (∃ rest, readObject text = .ok (document, rest) ∧ Written tokens rest) ↔
      ∃ more : List Field, ofFields? more = some document ∧
        Written (listed true (more.map Field.member) ++ .mark '}' :: tokens) text := by
  constructor
  · rintro ⟨rest, read, written⟩
    obtain ⟨fields, read, found⟩ := readObject_eq_ok_iff.1 read
    obtain ⟨more, -, joined, written⟩ := exists_readFields_iff.1 ⟨rest, read, written⟩
    refine ⟨more, ?_, written⟩
    rw [ofFields?, joined]
    exact found
  · rintro ⟨more, h, written⟩
    have short : more.length < 3 := by
      rcases ofFields?_eq_some_iff.1 h with rfl | rfl | ⟨rfl, -⟩
      · exact Nat.lt_succ_self 2
      · exact Nat.lt_succ_self 2
      · exact Nat.lt_succ_of_lt (Nat.lt_succ_self 1)
    obtain ⟨fields, joined, found⟩ := Option.bind_eq_some_iff.1 h
    obtain ⟨rest, read, written⟩ := exists_readFields_iff.2 ⟨more, short, joined, written⟩
    exact ⟨rest, readObject_eq_ok_iff.2 ⟨fields, read, found⟩, written⟩

lemma readArray_eq_ok_iff :
    readArray text = .ok (document, rest) ↔
      ∃ first, readItem true text = .ok (true, first) ∧
        ∃ more, readStringValue first = .ok (document.destination, more) ∧
          ∃ second, readItem false more = .ok (true, second) ∧
            ∃ last, readTypes second = .ok (document.list, last) ∧
              skipBlanks last = ']' :: rest := by
  simp only [readArray, bind_eq_ok_iff, Prod.exists]
  constructor
  · rintro ⟨_ | _, first, item, h⟩
    · cases h
    rw [if_neg (by decide)] at h
    simp only [bind_eq_ok_iff, Prod.exists] at h
    obtain ⟨destination, more, valued, _ | _, second, item', h⟩ := h
    · cases h
    rw [if_neg (by decide)] at h
    simp only [bind_eq_ok_iff, Prod.exists] at h
    obtain ⟨list, last, types, h⟩ := h
    split at h
    case h_1 => cases h
    case h_3 => cases h
    case h_2 after bracket =>
      cases h
      exact ⟨first, item, more, valued, second, item', last, types, bracket⟩
  · rintro ⟨first, item, more, valued, second, item', last, types, bracket⟩
    refine ⟨true, first, item, ?_⟩
    rw [if_neg (by decide)]
    simp only [bind_eq_ok_iff, Prod.exists]
    refine ⟨_, more, valued, true, second, item', ?_⟩
    rw [if_neg (by decide)]
    simp only [bind_eq_ok_iff, Prod.exists]
    refine ⟨_, last, types, ?_⟩
    rw [bracket]
    rfl

lemma exists_readArray_iff :
    (∃ rest, readArray text = .ok (document, rest) ∧ Written tokens rest) ↔
      Written (listed true [Field.value (.destination document.destination),
        Field.value (.types document.list)] ++ .mark ']' :: tokens) text := by
  have parts : listed true [Field.value (.destination document.destination),
        Field.value (.types document.list)] ++ .mark ']' :: tokens =
      lead true ++ .string document.destination :: (lead false ++ .mark '{' ::
        (separated (document.list.map Rule.member) ++ .mark '}' :: .mark ']' :: tokens)) := by
    simp [listed, Field.value, object]
  have types : ∀ text, Written (.mark '{' :: (separated (document.list.map Rule.member) ++
      .mark '}' :: .mark ']' :: tokens)) text ↔ ∃ rest, readTypes text = .ok (document.list, rest) ∧
        Written (.mark ']' :: tokens) rest := by
    intro text
    rw [← written_types_iff, Field.value, object]
    simp
  have string : Token.string document.destination ≠ .mark ']' := by simp
  have brace : Token.mark '{' ≠ .mark ']' := by simp
  have bracket : ']' ∈ marks := by decide
  rw [parts, written_item_iff string]
  simp only [written_string_iff, written_item_iff brace, types, written_mark_iff bracket,
    readArray_eq_ok_iff]
  grind

lemma ofText_cases :
    ofText text = .ok document ↔
      (∃ more, skipBlanks text = '{' :: more ∧
        ∃ rest, readObject more = .ok (document, rest) ∧ readEnd rest = .ok ()) ∨
      ∃ more, skipBlanks text = '[' :: more ∧
        ∃ rest, readArray more = .ok (document, rest) ∧ readEnd rest = .ok () := by
  have ends : ∀ read : Except Problem (Document × Text),
      (read >>= fun found => readEnd found.2 >>= fun _ => pure found.1) = .ok document ↔
        ∃ rest, read = .ok (document, rest) ∧ readEnd rest = .ok () := by
    intro read
    simp only [bind_eq_ok_iff, Prod.exists, pure, Except.pure, Except.ok.injEq]
    grind
  rw [ofText]
  cases skipBlanks text with
  | nil =>
    refine ⟨fun h => (by cases h), ?_⟩
    rintro (⟨_, same, -⟩ | ⟨_, same, -⟩)
    · cases same
    · cases same
  | cons c more =>
    dsimp only
    by_cases brace : c = '{'
    · rw [if_pos brace, ends]
      simp [brace]
    · rw [if_neg brace]
      by_cases bracket : c = '['
      · rw [if_pos bracket, ends]
        simp [bracket]
      · rw [if_neg bracket]
        simp [brace, bracket, bind, Except.bind, throw, throwThe, MonadExceptOf.throw]

/-- A document has the shape of an object of fields that make it up, or that of an array. -/
lemma shape_iff :
    Shape document tokens ↔
      (∃ more, ofFields? more = some document ∧ tokens = object (more.map Field.member)) ∨
      tokens = array [Field.value (.destination document.destination),
        Field.value (.types document.list)] := by
  constructor
  · rintro (⟨destination, list⟩ | ⟨destination, list⟩ | ⟨list⟩ | ⟨destination, list⟩)
    · exact .inl ⟨_, ofFields?_eq_some_iff.2 (.inl rfl), rfl⟩
    · exact .inl ⟨_, ofFields?_eq_some_iff.2 (.inr (.inl rfl)), rfl⟩
    · exact .inl ⟨_, ofFields?_eq_some_iff.2 (.inr (.inr ⟨rfl, rfl⟩)), rfl⟩
    · exact .inr rfl
  · obtain ⟨destination, list⟩ := document
    rintro (⟨more, made, rfl⟩ | rfl)
    · rcases ofFields?_eq_some_iff.1 made with rfl | rfl | ⟨rfl, rfl⟩
      · exact .object destination list
      · exact .reversed destination list
      · exact .undirected list
    · exact .array destination list

/-- The texts that are read as a document are those that spell it. -/
theorem ofText_eq_ok_iff : ofText text = .ok document ↔ document.Spells text := by
  simp only [ofText_cases, ← written_end_iff, exists_readObject_iff, exists_readArray_iff]
  have object : ∀ members, Written (Json.object members) text ↔
      ∃ rest, skipBlanks text = '{' :: rest ∧
        Written (listed true members ++ [.mark '}']) rest := by
    intro members
    rw [← List.append_nil (Json.object members), written_object_iff]
  have array : ∀ elements, Written (Json.array elements) text ↔
      ∃ rest, skipBlanks text = '[' :: rest ∧
        Written (listed true elements ++ [.mark ']']) rest := by
    intro elements
    rw [← List.append_nil (Json.array elements), written_array_iff]
  simp only [Spells, shape_iff]
  grind

/-! ### Every document can be spelled -/

lemma structural_listed {parts : List (List Token)} (all : ∀ part ∈ parts, Structural part) :
    Structural (listed first parts) := by
  induction parts generalizing first with
  | nil => exact structural_nil
  | cons part parts ih =>
    rw [List.forall_mem_cons] at all
    have comma : Structural (lead first) := by
      cases first with
      | true => exact structural_nil
      | false => exact structural_mark (by decide)
    exact (comma.append all.1).append (ih all.2)

lemma structural_object {members : List (List Token)} (all : ∀ part ∈ members, Structural part) :
    Structural (object members) := by
  rw [object, separated_eq]
  exact ((structural_mark (by decide)).append (structural_listed all)).append
    (structural_mark (by decide))

lemma structural_array {elements : List (List Token)} (all : ∀ part ∈ elements, Structural part) :
    Structural (array elements) := by
  rw [array, separated_eq]
  exact ((structural_mark (by decide)).append (structural_listed all)).append
    (structural_mark (by decide))

lemma Field.structural_value (field : Field) : Structural field.value := by
  cases field with
  | destination value => exact structural_string value
  | types list =>
    apply structural_object
    rw [List.forall_mem_map]
    intro rule _
    exact (structural_string rule.typeName).append
      ((structural_mark (by decide)).append (structural_string rule.home))

lemma Field.structural_member (field : Field) : Structural field.member :=
  (structural_string field.key).append
    ((structural_mark (by decide)).append field.structural_value)

lemma Shape.structural (shape : Shape document tokens) : Structural tokens := by
  cases shape with
  | object destination list =>
    apply structural_object
    simp [Field.structural_member]
  | reversed destination list =>
    apply structural_object
    simp [Field.structural_member]
  | undirected list =>
    apply structural_object
    simp [Field.structural_member]
  | array destination list =>
    apply structural_array
    simp [Field.structural_value]

/-- Every document has a spelling in each of its shapes. -/
theorem Shape.exists_written (shape : Shape document tokens) : ∃ text, Written tokens text :=
  shape.structural.exists_written

end Document

namespace Rules

/-- Any spelling of a destination and some rules, in any shape of a document, is read to what the
two come to: no rule is lost, repeated names are told, and the destination that is left out is the
default one. -/
theorem ofJson_of_spells (destination : Text) (list : List Rule) (text : Text) (path : Path)
    (spelled : Document.Spells ⟨destination, list⟩ text) :
    ofJson path text = (ofList destination list).mapError .rules := by
  rw [ofJson, Document.ofText_eq_ok_iff.2 spelled]
  rfl

/-- The destination is left out, and the rule that has its home there is spelled with a surrogate
pair and a slash behind a backslash. -/
theorem ofJson_of_spells_undirected :
    let face := "\"\\ud83d\\uDE00\"".toList
    let text := "\x7b \"types\":\n\x7b".toList ++ face ++ " : \"@\\/types\"\x7d\x7d\t".toList
    let list : List Rule := [⟨"😀".toList, "@/types".toList⟩]
    Document.Spells ⟨"@/types".toList, list⟩ text ∧
      ofJson (.ofText "map.json".toList) text =
        .error (.rules (.atDestination "😀".toList "@/types".toList)) := by
  intro face text list
  have key : SpellsString "types".toList "\"types\"".toList :=
    .intro (spellsChars_self (by decide))
  have name : SpellsString "😀".toList face := by
    have lead : SpellsUnit 0xD83D "d83d".toList :=
      @SpellsUnit.intro 0xD 8 3 0xD 'd' '8' '3' 'd' (.inl rfl) (.inl rfl) (.inl rfl) (.inl rfl)
    have trail : SpellsUnit 0xDE00 "DE00".toList :=
      @SpellsUnit.intro 0xD 0xE 0 0 'D' 'E' '0' '0' (.inr rfl) (.inr rfl) (.inl rfl) (.inl rfl)
    have pair := @SpellsChar.pair '😀' 0x3D 0x200 _ _ (by decide) (by decide) rfl lead trail
    exact .intro (.cons pair .nil)
  have home : SpellsString "@/types".toList "\"@\\/types\"".toList :=
    .intro (.cons (.plain (by decide) (by decide) (by decide))
      (.cons (.short (by decide)) (spellsChars_self (by decide))))
  have spelled : Document.Spells ⟨"@/types".toList, list⟩ text := by
    refine ⟨_, .undirected list, ?_⟩
    refine written_cons_iff.2 ⟨['{'], _, rfl, .mark (by decide), ?_⟩
    refine written_cons_iff.2 ⟨_, _, rfl, .string key, ?_⟩
    refine written_cons_iff.2 ⟨[':'], _, rfl, .mark (by decide), ?_⟩
    refine written_cons_iff.2 ⟨['{'], _, rfl, .mark (by decide), ?_⟩
    refine written_cons_iff.2 ⟨_, _, rfl, .string name, ?_⟩
    refine written_cons_iff.2 ⟨[':'], _, rfl, .mark (by decide), ?_⟩
    refine written_cons_iff.2 ⟨_, _, rfl, .string home, ?_⟩
    refine written_cons_iff.2 ⟨['}'], _, rfl, .mark (by decide), ?_⟩
    refine written_cons_iff.2 ⟨['}'], _, rfl, .mark (by decide), ?_⟩
    exact written_nil_iff.2 rfl
  exact ⟨spelled, ofJson_of_spells _ list text _ spelled⟩

end Rules

end Rehome
