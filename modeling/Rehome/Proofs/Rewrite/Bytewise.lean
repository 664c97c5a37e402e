import Rehome.Proofs.Import.Insertion
import Rehome.Proofs.Rewrite.Step
import Rehome.Proofs.Text.Slice

/-!
# Rewriting byte by byte

The edits of a text can be made on its bytes. Here every cut is checked, and a cut that falls out of
the bytes, inside a character or in front of where it should begin fails, as do bytes that are no
UTF-8 when they are searched again. Main statement: no cut of any edit fails, and the bytes that
come out are the text that the edit makes (`Bytes.rewrite?_decodes`).
-/

namespace Rehome

namespace Bytes

open Utf8

/-- The first line break, known by what stands in front of the first line feed. -/
def lineBreak? (bytes : Bytes) : Option Bytes :=
  match bytes.findIdx? (· = ascii '\n') with
  | some n => do
    let front ← slice? bytes 0 n
    return if front.getLast? = some (ascii '\r') then [ascii '\r', ascii '\n'] else [ascii '\n']
  | none => some [ascii '\n']

/-- The bytes with those from `start` to `stop` replaced. -/
def splice? (bytes : Bytes) (start stop : Nat) (new : Bytes) : Option Bytes := do
  let front ← slice? bytes 0 start
  let _ ← slice? bytes start stop
  let back ← slice? bytes stop bytes.length
  return front ++ new ++ back

/-- The place behind a directive that ends at `stop`, and behind the semicolon if one closes it. -/
def point? (bytes : Bytes) (stop : Nat) : Option Nat := do
  let rest ← slice? bytes stop bytes.length
  let spaces := (rest.takeWhile fun b => b = ascii ' ' || b = ascii '\t').length
  let behind ← slice? rest spaces rest.length
  return if behind.head? = some (ascii ';') then stop + spaces + 1 else stop

/-- The bytes with a new line behind the directive, or in front of everything if there is none. -/
def insert? (bytes line : Bytes) : Option Bytes := do
  let text ← decode? bytes
  match Placement.directive? text with
  | some (_, stop) =>
    let point ← point? bytes stop
    let front ← slice? bytes 0 point
    let back ← slice? bytes point bytes.length
    let lineBreak ← lineBreak? back
    return front ++ lineBreak ++ line ++ back
  | none =>
    let lineBreak ← lineBreak? bytes
    return line ++ lineBreak ++ bytes

/-- The bytes with a type taken out of a statement. -/
def withdraw? (bytes : Bytes) (statement : Statement) (typeName : Text) : Option Bytes :=
  let new :=
    match statement.names.erase typeName with
    | [] => []
    | names => Import.render ⟨names, statement.module⟩
  splice? bytes statement.start statement.stop (encode new)

/-- The bytes with a type imported from `destination`. -/
def enlist? (bytes : Bytes) (typeName destination : Text) : Option Bytes := do
  let text ← decode? bytes
  match text.importOf? destination with
  | some statement =>
    if typeName ∈ statement.names then return bytes
    else
      splice? bytes statement.start statement.stop
        (encode (Import.render ⟨statement.names ++ [typeName], statement.module⟩))
  | none => insert? bytes (encode (Import.render ⟨[typeName], destination⟩))

/-- The bytes after a rule, and what it did. -/
def perform? (rule : Rule) (destination : Text) (bytes : Bytes) : Option (Bytes × Effect) := do
  let text ← decode? bytes
  match text.importOf? rule.home with
  | none => return (bytes, .untouched)
  | some statement =>
    if rule.typeName ∉ statement.names then return (bytes, .untouched)
    else
      match rule.rival? destination text with
      | some other => return (bytes, .clash other)
      | none =>
        let left ← withdraw? bytes statement rule.typeName
        let listed ← enlist? left rule.typeName destination
        return (listed, .moved)

/-- The bytes after a pass of all the rules. -/
def rewrite? (rules : Rules) (bytes : Bytes) : Option Bytes :=
  rules.list.foldlM (fun bytes rule => (perform? rule rules.destination bytes).map Prod.fst) bytes

/-! ### Cuts -/

lemma slice?_front (front back : Text) :
    slice? (encode (front ++ back)) 0 front.byteSize = some (encode front) := by
  have cut := slice?_encode [] front back
  rwa [List.nil_append, Text.byteSize_nil, Nat.zero_add] at cut

lemma slice?_back (front back : Text) :
    slice? (encode (front ++ back)) front.byteSize (encode (front ++ back)).length =
      some (encode back) := by
  have cut := slice?_encode front back []
  rw [List.append_nil, ← Text.byteSize_append] at cut
  rw [length_encode, cut]

lemma splice?_encode (front own back new : Text) :
    splice? (encode (front ++ own ++ back)) front.byteSize (front.byteSize + own.byteSize)
      (encode new) = some (encode (front ++ new ++ back)) := by
  have first := slice?_front front (own ++ back)
  have last := slice?_back (front ++ own) back
  rw [← List.append_assoc] at first
  rw [Text.byteSize_append] at last
  rw [splice?, first, slice?_encode, last, encode_append (front ++ new), encode_append front new]
  rfl

/-! ### Line breaks -/

lemma lineBreak_cons {c : Char} {rest : Text} (other : c ≠ '\n') (apart : rest.head? ≠ some '\n') :
    Text.lineBreak (c :: rest) = rest.lineBreak := by
  rw [Text.lineBreak]
  · rintro more - rfl
    exact apart rfl
  · exact other

lemma lineBreak_of_notMem {text : Text} (free : '\n' ∉ text) : text.lineBreak = ['\n'] := by
  induction text with
  | nil => rfl
  | cons c rest ih =>
    rw [List.mem_cons, not_or] at free
    rw [lineBreak_cons (Ne.symm free.1) fun feed => free.2 (List.mem_of_head? feed), ih free.2]

/-- The first line break is told by what stands in front of its line feed. -/
lemma lineBreak_append {run : Text} (free : '\n' ∉ run) (rest : Text) :
    (run ++ '\n' :: rest).lineBreak =
      if run.getLast? = some '\r' then ['\r', '\n'] else ['\n'] := by
  induction run with
  | nil => rfl
  | cons c run ih =>
    rw [List.mem_cons, not_or] at free
    cases run with
    | nil =>
      by_cases carriage : c = '\r'
      · rw [carriage]
        rfl
      · rw [List.getLast?_singleton, if_neg (by simpa using carriage), List.singleton_append,
          Text.lineBreak]
        · rfl
        · exact fun _ same _ => carriage same
        · exact Ne.symm free.1
    | cons d run =>
      have apart : (d :: run ++ '\n' :: rest).head? ≠ some '\n' := by
        rintro ⟨⟩
        exact free.2 List.mem_cons_self
      rw [List.cons_append, lineBreak_cons (Ne.symm free.1) apart, ih free.2,
        List.getLast?_cons_cons]

/-- The first line feed of a text is found by its byte. -/
lemma findIdx?_encode (text : Text) :
    '\n' ∉ text ∧ (encode text).findIdx? (· = ascii '\n') = none ∨
      ∃ run rest, text = run ++ '\n' :: rest ∧ '\n' ∉ run ∧
        (encode text).findIdx? (· = ascii '\n') = some run.byteSize := by
  have low : '\n'.toNat < 0x80 := by decide
  have absent : ∀ {run : Text}, '\n' ∉ run →
      (encode run).findIdx? (· = ascii '\n') = none := by
    intro run free
    rw [List.findIdx?_eq_none_iff]
    intro b mem
    exact decide_eq_false fun same => free ((ascii_mem_encode_iff low).1 (same ▸ mem))
  by_cases feed : '\n' ∈ text
  · obtain ⟨run, rest, rfl, free⟩ := List.eq_append_cons_of_mem feed
    refine .inr ⟨run, rest, rfl, free, ?_⟩
    rw [encode_append, encode, bytesOf_of_lt low, List.findIdx?_append, absent free,
      List.singleton_append, List.findIdx?_cons, if_pos (decide_eq_true rfl), Option.map_some,
      Option.none_or, Nat.zero_add, length_encode]
  · exact .inl ⟨feed, absent feed⟩

lemma lineBreak?_encode (text : Text) : lineBreak? (encode text) = some (encode text.lineBreak) := by
  rw [lineBreak?]
  rcases findIdx?_encode text with ⟨free, found⟩ | ⟨run, rest, rfl, free, found⟩
  · rw [found, lineBreak_of_notMem free]
    rfl
  · rw [found, lineBreak_append free]
    dsimp only
    rw [slice?_front, Option.bind_eq_bind, Option.bind_some]
    by_cases carriage : run.getLast? = some '\r'
    · rw [if_pos carriage, if_pos ((getLast?_encode_iff (by decide)).2 carriage)]
      rfl
    · rw [if_neg carriage, if_neg (mt (getLast?_encode_iff (by decide)).1 carriage)]
      rfl

/-! ### Insertion -/

/-- The spaces and tabs that bytes begin with are those of the text. -/
lemma takeWhile_encode (text : Text) :
    (encode text).takeWhile (fun b => b = ascii ' ' || b = ascii '\t') = encode text.spaces := by
  induction text with
  | nil => rfl
  | cons c rest ih =>
    rw [Text.spaces] at ih ⊢
    rw [encode]
    by_cases space : Text.isSpace c
    · have own : bytesOf c.toNat = [ascii c] ∧ (ascii c = ascii ' ' ∨ ascii c = ascii '\t') := by
        simp only [Text.isSpace, Bool.or_eq_true, decide_eq_true_eq] at space
        rcases space with rfl | rfl
        · exact ⟨rfl, .inl rfl⟩
        · exact ⟨rfl, .inr rfl⟩
      rw [own.1, List.takeWhile_cons_of_pos space, encode, own.1, List.singleton_append,
        List.takeWhile_cons_of_pos (by simpa using own.2), ih, List.singleton_append]
    · rw [List.takeWhile_cons_of_neg space]
      obtain ⟨first, more, eq⟩ := List.exists_cons_of_ne_nil (bytesOf_ne_nil c)
      have other : ∀ d : Char, d.toNat < 0x80 → Text.isSpace d → first ≠ ascii d := by
        rintro d low space' rfl
        have same := (ascii_mem_bytesOf_iff low c).1 (eq ▸ List.mem_cons_self)
        exact space (same ▸ space')
      rw [eq, List.cons_append, List.takeWhile_cons_of_neg]
      · rfl
      · simpa using ⟨other ' ' (by decide) rfl, other '\t' (by decide) rfl⟩

lemma point?_encode (front rest : Text) :
    point? (encode (front ++ rest)) front.byteSize =
      some (front.byteSize + rest.closing.1.byteSize) := by
  have cut := slice?_back rest.spaces rest.afterSpaces
  rw [Text.spaces_append_afterSpaces] at cut
  simp only [point?, Option.bind_eq_bind, slice?_back, Option.bind_some, takeWhile_encode,
    length_encode rest.spaces, cut]
  by_cases semicolon : rest.afterSpaces.head? = some ';'
  · obtain ⟨more, eq⟩ := List.head?_eq_some_iff.1 semicolon
    have closes : rest.closing = (rest.spaces ++ [';'], more) := by
      simp only [Text.closing, eq]
    rw [if_pos ((head?_encode_iff (by decide)).2 semicolon), closes, Text.byteSize_append]
    rfl
  · have closes : rest.closing = ([], rest) := by
      rw [Text.closing]
      split
      case h_1 more eq => exact absurd (congrArg List.head? eq) semicolon
      case h_2 => rfl
    rw [if_neg (mt (head?_encode_iff (by decide)).1 semicolon), closes]
    rfl

/-- The directive ends inside the text. -/
lemma exists_of_directive? {text : Text} {start stop : Nat}
    (found : Placement.directive? text = some (start, stop)) :
    start ≤ stop ∧ ∃ front rest : Text, text = front ++ rest ∧ stop = front.byteSize := by
  obtain ⟨spelling, -, eq⟩ := List.exists_of_findSome?_eq_some found
  obtain ⟨n, at₀, eq⟩ := Option.map_eq_some_iff.1 eq
  obtain ⟨rfl, rfl⟩ := Prod.mk.inj eq
  obtain ⟨front, rest, rfl, rfl⟩ := Text.find?_eq_some at₀
  exact ⟨Nat.le_add_right _ _, front ++ spelling, rest, rfl, (Text.byteSize_append ..).symm⟩

lemma insert?_encode (text line : Text) :
    insert? (encode text) (encode line) = some (encode (Placement.insert text line)) := by
  rw [insert?, decode?_encode, Option.bind_eq_bind, Option.bind_some, Placement.insert,
    Placement.point?]
  cases found : Placement.directive? text with
  | none =>
    dsimp only [Option.map_none]
    rw [lineBreak?_encode, encode_append, encode_append]
    rfl
  | some place =>
    obtain ⟨start, stop⟩ := place
    obtain ⟨-, front, rest, rfl, rfl⟩ := exists_of_directive? found
    dsimp only [Option.map_some]
    have whole : front ++ rest = front ++ rest.closing.1 ++ rest.closing.2 := by
      rw [List.append_assoc, ← Text.closing_append]
    rw [point?_encode, Text.dropBytes_byteSize_append, Placement.closingSize_eq,
      ← Text.byteSize_append, whole, Text.takeBytes_byteSize_append,
      Text.dropBytes_byteSize_append]
    simp only [Option.bind_eq_bind, Option.bind_some, slice?_front, slice?_back, lineBreak?_encode]
    simp only [encode_append]
    rfl

/-! ### Rules -/

lemma withdraw?_encode {text module : Text} {statement : Statement}
    (first : text.importOf? module = some statement) (typeName : Text) :
    withdraw? (encode text) statement typeName =
      some (encode (text.withdraw statement typeName)) := by
  obtain ⟨before, own, after, pieces, start, stop, -, -⟩ := Text.exists_of_importOf?_eq_some first
  rw [withdraw?, Text.withdraw, stop, start, Text.eq_of_pieces_eq pieces, Text.splice_append]
  exact splice?_encode ..

lemma enlist?_encode (text typeName destination : Text) :
    enlist? (encode text) typeName destination =
      some (encode (text.enlist typeName destination)) := by
  rw [enlist?, decode?_encode, Option.bind_eq_bind, Option.bind_some, Text.enlist]
  cases first : text.importOf? destination with
  | none => exact insert?_encode text _
  | some statement =>
    dsimp only
    split
    case isTrue => rfl
    case isFalse =>
      obtain ⟨before, own, after, pieces, start, stop, -, -⟩ :=
        Text.exists_of_importOf?_eq_some first
      rw [stop, start, Text.eq_of_pieces_eq pieces, splice?_encode, Text.splice_append]

lemma perform?_encode (rule : Rule) (destination text : Text) :
    perform? rule destination (encode text) =
      some (encode (rule.apply destination text).text, (rule.apply destination text).effect) := by
  rw [perform?, decode?_encode, Option.bind_eq_bind, Option.bind_some, Rule.apply]
  cases first : text.importOf? rule.home with
  | none => rfl
  | some statement =>
    dsimp only
    split
    case isTrue => rfl
    case isFalse =>
      cases rule.rival? destination text with
      | some other => rfl
      | none =>
        dsimp only
        rw [withdraw?_encode first, Option.bind_eq_bind, Option.bind_some, enlist?_encode]
        rfl

/-- A rule that does not move its type leaves the text alone. -/
lemma step_text (destination : Text) (pass : Pass) (rule : Rule) :
    (Pass.step destination pass rule).text = (rule.apply destination pass.text).text := by
  rw [Pass.step]
  rcases rule.apply_cases destination pass.text with
    ⟨eq, -⟩ | ⟨statement, -, -, ⟨other, -, eq⟩ | ⟨-, eq⟩⟩
  all_goals rw [eq]

lemma foldlM_perform?_encode (destination : Text) (list : List Rule) (pass : Pass) :
    list.foldlM (fun bytes rule => (perform? rule destination bytes).map Prod.fst)
      (encode pass.text) = some (encode (list.foldl (Pass.step destination) pass).text) := by
  induction list generalizing pass with
  | nil => rfl
  | cons rule list ih =>
    rw [List.foldlM_cons, perform?_encode, Option.map_some, Option.bind_eq_bind, Option.bind_some,
      ← step_text, ih, List.foldl_cons]

lemma rewrite?_encode (rules : Rules) (text : Text) :
    rewrite? rules (encode text) = some (encode (rules.rewrite text).text) :=
  foldlM_perform?_encode rules.destination rules.list ⟨text, [], []⟩

/-! ### No cut fails -/

lemma isBoundary_byteSize (front back : Text) :
    IsBoundary (encode (front ++ back)) front.byteSize :=
  isBoundary_encode_iff.2 ⟨front, back, rfl, rfl⟩

/-- A statement begins and ends between characters. -/
lemma isBoundary_of_mem_statements {text : Text} {statement : Statement}
    (mem : statement ∈ text.statements) :
    statement.start ≤ statement.stop ∧ IsBoundary (encode text) statement.start ∧
      IsBoundary (encode text) statement.stop := by
  obtain ⟨before, own, after, pieces, start, stop⟩ := Text.exists_of_mem_statementsFrom mem
  rw [Nat.zero_add] at start
  rw [stop, start, Text.eq_of_pieces_eq pieces, ← Text.byteSize_append]
  refine ⟨?_, ?_, isBoundary_byteSize _ _⟩
  · rw [Text.byteSize_append]
    exact Nat.le_add_right _ _
  · rw [List.append_assoc]
    exact isBoundary_byteSize _ _

/-- A new import goes between characters, behind the directive. -/
lemma exists_point?_of_directive? {text : Text} {start stop : Nat}
    (found : Placement.directive? text = some (start, stop)) :
    start ≤ stop ∧ IsBoundary (encode text) stop ∧
      ∃ point, point? (encode text) stop = some point ∧ stop ≤ point ∧
        IsBoundary (encode text) point := by
  obtain ⟨forwards, front, rest, rfl, rfl⟩ := exists_of_directive? found
  refine ⟨forwards, isBoundary_byteSize _ _, _, point?_encode front rest, Nat.le_add_right _ _, ?_⟩
  have whole : front ++ rest = front ++ rest.closing.1 ++ rest.closing.2 := by
    rw [List.append_assoc, ← Text.closing_append]
  rw [whole, ← Text.byteSize_append]
  exact isBoundary_byteSize _ _

lemma isBoundary_lineFeed {text : Text} {n : Nat}
    (found : (encode text).findIdx? (· = ascii '\n') = some n) : IsBoundary (encode text) n := by
  rcases findIdx?_encode text with ⟨-, none⟩ | ⟨run, rest, rfl, -, at₀⟩
  · cases none.symm.trans found
  · cases at₀.symm.trans found
    exact isBoundary_byteSize _ _

/-- Every place where an edit cuts lies in the bytes and between characters, and every edit of bytes
succeeds, with the bytes of the text that the edit makes. -/
theorem rewrite?_decodes {bytes : Bytes} {text : Text} (valid : decode? bytes = some text) :
    (∀ statement ∈ text.statements, statement.start ≤ statement.stop ∧
        statement.stop ≤ bytes.length ∧ IsBoundary bytes statement.start ∧
        IsBoundary bytes statement.stop) ∧
      (∀ start stop, Placement.directive? text = some (start, stop) →
        start ≤ stop ∧ stop ≤ bytes.length ∧ IsBoundary bytes stop ∧
          ∃ point, point? bytes stop = some point ∧ stop ≤ point ∧ point ≤ bytes.length ∧
            IsBoundary bytes point) ∧
      (∀ n, bytes.findIdx? (· = ascii '\n') = some n → n ≤ bytes.length ∧ IsBoundary bytes n) ∧
      (∀ line, ∃ result, insert? bytes (encode line) = some result ∧
        decode? result = some (Placement.insert text line)) ∧
      (∀ (rule : Rule) (destination : Text), ∃ result,
        perform? rule destination bytes = some (result, (rule.apply destination text).effect) ∧
          decode? result = some (rule.apply destination text).text) ∧
      ∀ rules : Rules, ∃ result, rewrite? rules bytes = some result ∧
        decode? result = some (rules.rewrite text).text := by
  obtain rfl := encode_of_decode? valid
  refine ⟨?statements, ?directive, ?lineFeed, ?insert, ?apply, ?rewrite⟩
  case statements =>
    intro statement mem
    obtain ⟨forwards, start, stop⟩ := isBoundary_of_mem_statements mem
    exact ⟨forwards, stop.le, start, stop⟩
  case directive =>
    intro start stop found
    obtain ⟨forwards, ends, point, eq, behind, place⟩ := exists_point?_of_directive? found
    exact ⟨forwards, ends.le, ends, point, eq, behind, place.le, place⟩
  case lineFeed =>
    intro n found
    exact ⟨(isBoundary_lineFeed found).le, isBoundary_lineFeed found⟩
  case insert => exact fun line => ⟨_, insert?_encode text line, decode?_encode _⟩
  case apply =>
    exact fun rule destination => ⟨_, perform?_encode rule destination text, decode?_encode _⟩
  case rewrite => exact fun rules => ⟨_, rewrite?_encode rules text, decode?_encode _⟩

/-- Characters of several bytes in the names, the blanks and the modules, and a directive with a
semicolon behind spaces. -/
theorem rewrite?_decodes_wide :
    let rule : Rule := ⟨"Größe".toList, "ä".toList⟩
    let rules : Rules := ⟨"型".toList, [rule], by decide, by decide⟩
    let text : Text := "/*é*/\"use client\" \t;\r\nimport\u2003\x7bGröße\u00a0\x7d from 'ä' ;ü".toList
    let bytes : Bytes := encode text
    decode? bytes = some text ∧ Placement.directive? text = some (6, 18) ∧
      point? bytes 18 = some 21 ∧ ¬ IsBoundary bytes 3 ∧
      ∃ result, rewrite? rules bytes = some result ∧ decode? result =
        some "/*é*/\"use client\" \t;\r\nimport \x7b Größe \x7d from \"型\";\r\nü".toList := by
  intro rule rules text bytes
  have valid : decode? bytes = some text := decode?_encode text
  obtain ⟨result, done, reads⟩ := (rewrite?_decodes valid).2.2.2.2.2 rules
  exact ⟨valid, by decide +kernel, by decide +kernel, by decide +kernel, result, done,
    reads.trans (by decide +kernel)⟩

end Bytes

end Rehome
