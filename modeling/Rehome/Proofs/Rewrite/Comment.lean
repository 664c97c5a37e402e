import Mathlib.Data.List.Infix
import Rehome.Proofs.Rewrite.Names

/-!
# Comments among names

Two slashes open a comment that goes on to the end of its line. The names that stay when a type is
taken out are written on one line, and the line breaks around them go. Main statement: the closing
brace behind the names that stay is behind no comment exactly if every comment in a name that stays
ends in that name or in a later one (`Rule.comments_apply`).
-/

namespace Rehome

namespace Text

/-- A character that ends a line, and a comment with it. -/
def breaksLine (c : Char) : Bool :=
  c = '\n' || c = '\r' || c = '\u2028' || c = '\u2029'

/-- Every `//` in the text has a line break behind it, in the text or in `rest`. -/
def CommentsEnd (text rest : Text) : Prop :=
  ∀ lead tail, text = lead ++ '/' :: '/' :: tail → ∃ c ∈ tail ++ rest, breaksLine c

/-- Every `//` in a name has a line break behind it, in that name or in a later one. -/
def CommentsEndIn : List Text → Prop
  | [] => True
  | name :: later => name.CommentsEnd later.flatten ∧ CommentsEndIn later

/-- What stands between the first opening brace and the next closing one. -/
def inBraces (text : Text) : Text :=
  ((text.dropWhile (· ≠ '{')).drop 1).takeWhile (· ≠ '}')

/-- The imports of `module` among pieces, as they are spelt. -/
def spellingsIn (module : Text) (pieces : List Piece) : List Text :=
  pieces.filterMap fun
    | .statement own found => if found.module = module then some own else none
    | .gap _ => none

/-- The imports of `module` in the text, as they are spelt. -/
def spellings (text module : Text) : List Text :=
  spellingsIn module text.pieces

lemma commentsEnd_iff {text rest : Text} : text.CommentsEnd rest ↔
    ∀ back ∈ text.tails, ['/', '/'] <+: back → (back.drop 2 ++ rest).any breaksLine := by
  simp only [List.any_eq_true]
  constructor
  · intro h back mem
    obtain ⟨lead, rfl⟩ := (List.mem_tails ..).1 mem
    rintro ⟨tail, rfl⟩
    exact h lead tail rfl
  · rintro h lead tail rfl
    have mem := (List.mem_tails ..).2 (List.suffix_append lead ('/' :: '/' :: tail))
    exact h _ mem (List.prefix_append ['/', '/'] tail)

instance (text rest : Text) : Decidable (text.CommentsEnd rest) :=
  decidable_of_iff _ commentsEnd_iff.symm

instance : (names : List Text) → Decidable (CommentsEndIn names)
  | [] => .isTrue trivial
  | _ :: later =>
    have := instDecidableCommentsEndIn later
    inferInstanceAs (Decidable (_ ∧ _))

/-! ### Comments in a text that is put together -/

/-- What the rest holds besides line breaks does not count. -/
lemma CommentsEnd.congr {text rest rest' : Text} (h : text.CommentsEnd rest)
    (same : ∀ c, breaksLine c → c ∈ rest → c ∈ rest') : text.CommentsEnd rest' := by
  intro lead tail eq
  obtain ⟨c, mem, breaks⟩ := h lead tail eq
  refine ⟨c, ?_, breaks⟩
  rw [List.mem_append] at mem ⊢
  exact mem.imp_right (same c breaks)

/-- No comment begins across a separator without slashes, or ends in one without line breaks. -/
lemma commentsEnd_append_iff {front separator back rest : Text} (solid : separator ≠ [])
    (slash : '/' ∉ separator) (flat : separator.any breaksLine = false) :
    CommentsEnd (front ++ separator ++ back) rest ↔
      front.CommentsEnd (back ++ rest) ∧ back.CommentsEnd rest := by
  constructor
  · intro h
    constructor
    · rintro lead tail rfl
      obtain ⟨c, mem, breaks⟩ := h lead (tail ++ separator ++ back) (by simp)
      refine ⟨c, ?_, breaks⟩
      have other : c ∉ separator := fun mem => List.any_eq_false.1 flat c mem breaks
      simpa [other] using mem
    · rintro lead tail rfl
      exact h (front ++ separator ++ lead) tail (by simp)
  · rintro ⟨first, second⟩ lead tail whole
    rcases append_eq_append_cons whole with ⟨more, eq⟩ | ⟨gone, rfl, eq⟩
    · rcases append_eq_append_cons eq with ⟨more', rfl⟩ | ⟨gone, -, eq'⟩
      · have eq' : more' ++ (separator ++ back) = '/' :: tail := by simpa using whole
        cases more' with
        | nil =>
          obtain ⟨c, separator, rfl⟩ := List.exists_cons_of_ne_nil solid
          obtain ⟨rfl, -⟩ := List.cons.inj eq'
          exact absurd List.mem_cons_self slash
        | cons c more' =>
          obtain ⟨rfl, behind⟩ := List.cons.inj eq'
          obtain ⟨c, mem, breaks⟩ := first lead more' rfl
          refine ⟨c, ?_, breaks⟩
          rw [← behind]
          simp only [List.append_eq, List.mem_append] at mem ⊢
          tauto
      · exact absurd (eq' ▸ by simp) slash
    · obtain ⟨c, mem, breaks⟩ := second gone tail eq
      exact ⟨c, mem, breaks⟩

lemma mem_joinWith_iff {separator : Text} {parts : List Text} {c : Char} (apart : c ∉ separator) :
    c ∈ joinWith separator parts ↔ c ∈ parts.flatten := by
  induction parts with
  | nil => rfl
  | cons part parts ih =>
    cases parts with
    | nil => simp [joinWith]
    | cons next parts =>
      rw [joinWith_cons_cons, List.mem_append, List.mem_append, ih, List.flatten_cons (l := part),
        List.mem_append]
      tauto

lemma notMem_comma_of_breaksLine {c : Char} (h : breaksLine c) : c ∉ ", ".toList := by
  simp only [breaksLine, Bool.or_eq_true, decide_eq_true_eq] at h
  rcases h with ((rfl | rfl) | rfl) | rfl <;> decide

lemma commentsEnd_nil (rest : Text) : CommentsEnd [] rest :=
  fun _ _ eq => absurd eq (by simp)

/-- The comments of a list end where those of its names do. -/
lemma commentsEnd_joinWith_iff {names : List Text} :
    (joinWith ", ".toList names).CommentsEnd [] ↔ CommentsEndIn names := by
  induction names with
  | nil => exact iff_of_true (commentsEnd_nil []) trivial
  | cons name names ih =>
    cases names with
    | nil => exact (and_iff_left trivial).symm
    | cons next names =>
      have mem : ∀ c, breaksLine c →
          (c ∈ joinWith ", ".toList (next :: names) ↔ c ∈ (next :: names).flatten) :=
        fun c breaks => mem_joinWith_iff (notMem_comma_of_breaksLine breaks)
      rw [joinWith_cons_cons, commentsEnd_append_iff (by decide) (by decide) rfl, ih,
        List.append_nil, CommentsEndIn]
      refine and_congr_left fun _ => ⟨fun h => ?_, fun h => ?_⟩
      · exact h.congr fun c breaks => (mem c breaks).1
      · exact h.congr fun c breaks => (mem c breaks).2

end Text

/-! ### Between the braces -/

namespace Import

open Text

lemma Form.inBraces_text (form : Form) (tail : Text) : inBraces (form.text ++ tail) = form.list := by
  have lead : ∀ c ∈ keyword ++ form.blanks, decide (c ≠ '{') = true := by
    intro c mem
    refine decide_eq_true ?_
    rintro rfl
    rcases List.mem_append.1 mem with mem | mem
    · exact absurd mem (by decide)
    · exact absurd (form.isBlanks.2 _ mem) (by decide)
  have free : ∀ c ∈ form.list, decide (c ≠ '}') = true :=
    fun c mem => decide_eq_true fun same => form.brace_notMem (same ▸ mem)
  have whole : form.text ++ tail = (keyword ++ form.blanks) ++ '{' :: (form.list ++ '}' ::
      (form.before ++ "from".toList ++ form.behind ++ form.opening :: form.module ++
        form.quote :: tail)) := by
    simp [text, head, middle]
  rw [inBraces, whole, List.dropWhile_append_of_pos lead, List.dropWhile_cons_of_neg (by simp),
    List.drop_one, List.tail_cons, List.takeWhile_append_of_pos free,
    List.takeWhile_cons_of_neg (by simp), List.append_nil]

lemma namesIn_inBraces {text : Text} {spelt : Spelt} (h : read? text = some spelt) :
    namesIn spelt.text.inBraces = spelt.found.names := by
  obtain ⟨form, rest, -, rfl⟩ := exists_form_of_read? h
  rw [form.inBraces_text]
  rfl

lemma namesIn_inBraces_render {found : Import} (writable : found.Writable) :
    namesIn found.render.inBraces = found.names :=
  namesIn_inBraces (read?_render_append writable [])

/-- The closing brace of a written import is behind no comment exactly if the names let none run
on. -/
lemma commentsEnd_render_iff {found : Import} (writable : found.Writable) :
    found.render.inBraces.CommentsEnd [] ↔ CommentsEndIn found.names := by
  obtain ⟨form, -, spelt, list⟩ := exists_form_of_writable writable
  have padded : form.list = [] ++ [' '] ++ (joinWith ", ".toList found.names ++ [' '] ++ []) := by
    rw [list]
    simp
  rw [spelt, form.inBraces_text, padded, commentsEnd_append_iff (by decide) (by decide) rfl,
    commentsEnd_append_iff (by decide) (by decide) rfl, List.nil_append,
    commentsEnd_joinWith_iff]
  simp only [commentsEnd_nil, true_and, and_true]

end Import

/-! ### Imports as they are spelt -/

namespace Text

variable {text module typeName destination : Text}

lemma spellingsIn_append (front back : List Piece) :
    spellingsIn module (front ++ back) = spellingsIn module front ++ spellingsIn module back :=
  List.filterMap_append

lemma spellingsIn_map_gap (gap : Text) : spellingsIn module (gap.map .gap) = [] := by
  rw [spellingsIn, List.filterMap_map]
  exact List.filterMap_eq_nil_iff.2 fun _ _ => rfl

lemma spellingsIn_statement_self (own : Text) (found : Import) (rest : List Piece) :
    spellingsIn found.module (.statement own found :: rest) =
      own :: spellingsIn found.module rest := by
  simp [spellingsIn]

lemma spellingsIn_statement_of_ne {found : Import} (other : found.module ≠ module) (own : Text)
    (rest : List Piece) :
    spellingsIn module (.statement own found :: rest) = spellingsIn module rest := by
  simp [spellingsIn, other]

lemma spellingsIn_eq_nil {pieces : List Piece}
    (others : ∀ found ∈ importsIn pieces, found.module ≠ module) :
    spellingsIn module pieces = [] := by
  refine List.filterMap_eq_nil_iff.2 fun piece mem => ?_
  cases piece with
  | gap c => rfl
  | statement own found =>
    have listed : found ∈ importsIn pieces := List.mem_filterMap.2 ⟨_, mem, rfl⟩
    exact if_neg (others found listed)

/-- The first import of a module as it is spelt, and what it says. -/
lemma exists_of_spellings_eq_cons {own : Text} {others : List Text} {statement : Statement}
    (spelt : text.spellings module = own :: others)
    (first : text.importOf? module = some statement) :
    ∃ before after, text.pieces = before ++ .statement own statement.toImport :: after ∧
      statement.start = byteSize (ofPieces before) ∧
      statement.stop = statement.start + byteSize own ∧ statement.module = module ∧
      spellingsIn module before = [] ∧ spellingsIn module after = others := by
  obtain ⟨before, own', after, pieces, start, stop, rfl, none⟩ := exists_of_importOf?_eq_some first
  have empty := spellingsIn_eq_nil none
  rw [spellings, pieces, spellingsIn_append, empty, List.nil_append,
    spellingsIn_statement_self] at spelt
  obtain ⟨rfl, rfl⟩ := List.cons.inj spelt
  exact ⟨before, after, pieces, start, stop, rfl, empty, rfl⟩

lemma namesIn_of_spellings_eq_cons {own : Text} {others : List Text} {statement : Statement}
    (spelt : text.spellings module = own :: others)
    (first : text.importOf? module = some statement) :
    Import.namesIn own.inBraces = statement.names := by
  obtain ⟨before, after, pieces, -⟩ := exists_of_spellings_eq_cons spelt first
  exact Import.namesIn_inBraces (read?_of_pieces_eq pieces)

lemma exists_importOf?_of_spellings {own : Text} {others : List Text}
    (spelt : text.spellings module = own :: others) :
    ∃ statement, text.importOf? module = some statement := by
  refine Option.ne_none_iff_exists'.1 fun none => ?_
  have empty := spellingsIn_eq_nil (table_eq text ▸ importOf?_eq_none_iff.1 none)
  exact nomatch spelt.symm.trans empty

/-- Listing a type in one module leaves the imports of the others as they are spelt. -/
lemma spellings_enlist_of_ne (isName : Import.IsName typeName)
    (isModule : Import.IsModule destination)
    (unbroken : text.importOf? destination = none → Placement.Unbroken text)
    (other : destination ≠ module) :
    (text.enlist typeName destination).spellings module = text.spellings module := by
  cases found : text.importOf? destination with
  | some statement =>
    obtain ⟨before, own, after, pieces, same, -, edit⟩ := pieces_enlist_of_some isName found
    have apart : statement.module ≠ module := same ▸ other
    rcases edit with ⟨-, kept⟩ | ⟨-, edited⟩
    · rw [kept]
    · have apart' : (statement.toImport.including typeName).module ≠ module := by
        rw [Import.including]
        split <;> exact apart
      rw [spellings, spellings, edited, pieces, spellingsIn_append, spellingsIn_append,
        Piece.written, spellingsIn_statement_of_ne apart', spellingsIn_statement_of_ne apart]
  | none =>
    have apart : (⟨[typeName], destination⟩ : Import).module ≠ module := other
    rcases pieces_enlist_of_none isName isModule (unbroken found) found with
      ⟨-, inserted⟩ | ⟨front, back, pieces, -, -, inserted⟩
    · rw [spellings, inserted, Piece.written, spellingsIn_statement_of_ne apart,
        spellingsIn_append, spellingsIn_map_gap, List.nil_append, spellings]
    · rw [spellings, spellings, inserted, pieces, spellingsIn_append, spellingsIn_append,
        spellingsIn_append, spellingsIn_map_gap, List.nil_append, Piece.written,
        spellingsIn_statement_of_ne apart]

/-- Listing a type in a module writes its first import anew, unless that lists the type. -/
lemma spellings_enlist_self {own : Text} {others : List Text} {statement : Statement}
    (isName : Import.IsName typeName) (spelt : text.spellings module = own :: others)
    (first : text.importOf? module = some statement) :
    (text.enlist typeName module).spellings module =
      (if typeName ∈ statement.names then own
        else Import.render ⟨statement.names ++ [typeName], module⟩) :: others := by
  obtain ⟨before, own', after, pieces, rfl, none, edit⟩ := pieces_enlist_of_some isName first
  have empty := spellingsIn_eq_nil none
  have split : own' :: spellingsIn statement.module after = own :: others := by
    rw [← spelt, spellings, pieces, spellingsIn_append, empty, List.nil_append,
      spellingsIn_statement_self]
  obtain ⟨rfl, rfl⟩ := List.cons.inj split
  rcases edit with ⟨listed, kept⟩ | ⟨listed, edited⟩
  · rw [kept, if_pos listed, spelt]
  · rw [Import.including, if_neg listed] at edited
    rw [if_neg listed, spellings, edited, spellingsIn_append, empty, List.nil_append]
    exact spellingsIn_statement_self _ ⟨_, statement.module⟩ after

end Text

namespace Rule

variable {rule : Rule} {destination text own : Text} {others : List Text}

/-- The names in the import of the home when the rule has moved its type: those that stay, and the
type again, last, if the home is the destination. -/
def kept (rule : Rule) (destination : Text) (names : List Text) : List Text :=
  let left := names.erase rule.typeName
  if rule.home = destination ∧ rule.typeName ∉ left then left ++ [rule.typeName] else left

/-- What is left of an import that keeps a name is written in its place. -/
lemma spellings_left {statement : Statement} (first : text.importOf? rule.home = some statement)
    (spelt : text.spellings rule.home = own :: others)
    (more : statement.names.erase rule.typeName ≠ []) :
    (rule.left text).spellings rule.home =
      Import.render ⟨statement.names.erase rule.typeName, rule.home⟩ :: others := by
  obtain ⟨before, after, pieces, start, stop, same, empty, rest⟩ :=
    Text.exists_of_spellings_eq_cons spelt first
  have left := Text.pieces_withdraw pieces start stop fun none => absurd none more
  have without : statement.toImport.without rule.typeName =
      [⟨statement.names.erase rule.typeName, rule.home⟩] := by
    rw [Import.without, same]
    split
    case h_1 none => exact absurd none more
    case h_2 => rfl
  rw [left_of_some first, Text.spellings, left, without, Text.spellingsIn_append,
    Text.spellingsIn_append, empty, rest]
  exact congrArg (· ++ others) (Text.spellingsIn_statement_self _ ⟨_, rule.home⟩ [])

lemma writable_kept {names : List Text} (isName : Import.IsName rule.typeName)
    (h : Import.Writable ⟨names.erase rule.typeName, rule.home⟩) (destination : Text) :
    Import.Writable ⟨rule.kept destination names, rule.home⟩ := by
  rw [kept]
  split
  · refine ⟨fun name mem => ?_, h.module⟩
    rcases List.mem_append.1 mem with mem | mem
    · exact h.names name mem
    · exact List.mem_singleton.1 mem ▸ isName
  · exact h

/-- Where the type is listed again, the import of the home is as it was left, or lists the type
last. -/
lemma spellings_moved {names : List Text}
    (left : (rule.left text).spellings rule.home =
      Import.render ⟨names.erase rule.typeName, rule.home⟩ :: others)
    (stays : Import.Writable ⟨names.erase rule.typeName, rule.home⟩)
    (isName : Import.IsName rule.typeName) (isModule : Import.IsModule destination)
    (clean : rule.Clean destination text) :
    ((rule.left text).enlist rule.typeName destination).spellings rule.home =
      Import.render ⟨rule.kept destination names, rule.home⟩ :: others := by
  rw [kept]
  by_cases home : rule.home = destination
  · subst home
    obtain ⟨new, found⟩ := Text.exists_importOf?_of_spellings left
    have reads := Text.namesIn_of_spellings_eq_cons left found
    rw [Import.namesIn_inBraces_render stays] at reads
    rw [Text.spellings_enlist_self isName left found, ← reads]
    by_cases twice : rule.typeName ∈ names.erase rule.typeName
    · simp [twice]
    · simp [twice]
  · rw [Text.spellings_enlist_of_ne isName isModule clean.insertion (Ne.symm home), left]
    simp [home]

/-- When a rule takes its type out of an import that keeps other names, the closing brace of what is
written instead is behind no comment exactly if the names that stay let none run on. So it is still
when the type is listed, unless that breaks an import. -/
theorem comments_apply (spelt : text.spellings rule.home = own :: others)
    (moved : (rule.apply destination text).effect = .moved)
    (more : (Import.namesIn own.inBraces).erase rule.typeName ≠ []) :
    (∃ new, (rule.left text).spellings rule.home = new :: others ∧
      Import.namesIn new.inBraces = (Import.namesIn own.inBraces).erase rule.typeName ∧
      (new.inBraces.CommentsEnd [] ↔
        Text.CommentsEndIn ((Import.namesIn own.inBraces).erase rule.typeName))) ∧
    (Import.IsModule destination → rule.Clean destination text →
      ∃ new, (rule.apply destination text).text.spellings rule.home = new :: others ∧
        Import.namesIn new.inBraces = rule.kept destination (Import.namesIn own.inBraces) ∧
        (new.inBraces.CommentsEnd [] ↔
          Text.CommentsEndIn (rule.kept destination (Import.namesIn own.inBraces)))) := by
  obtain ⟨statement, first, listed, apply⟩ := rule.exists_of_apply_moved moved
  have same : statement.module = rule.home := by simpa using List.find?_some first
  have writable := Text.writable_of_importOf? first
  have isName := writable.names _ listed
  rw [Text.namesIn_of_spellings_eq_cons spelt first] at more ⊢
  have left := spellings_left first spelt more
  have stays : Import.Writable ⟨statement.names.erase rule.typeName, rule.home⟩ :=
    ⟨fun name mem => writable.names name (List.mem_of_mem_erase mem), same ▸ writable.module⟩
  constructor
  · exact ⟨_, left, Import.namesIn_inBraces_render stays, Import.commentsEnd_render_iff stays⟩
  · intro isModule clean
    have result := spellings_moved left stays isName isModule clean
    have stays' := writable_kept isName stays destination
    rw [apply]
    exact ⟨_, result, Import.namesIn_inBraces_render stays', Import.commentsEnd_render_iff stays'⟩

/-- The comment before a name goes with it, and ends where it did. -/
theorem comments_apply_leading :
    let text : Text := "import \x7b\n  Order,\n  // kept here\n  saveOrder,\n\x7d ".toList ++
      "from '@/utils/orderStorage';\n".toList
    let rule : Rule := ⟨"Order".toList, "@/utils/orderStorage".toList⟩
    let own : Text := text.dropLast
    let name : Text := "// kept here\n  saveOrder".toList
    text.spellings rule.home = [own] ∧ (rule.apply "@/types".toList text).effect = .moved ∧
      (Import.namesIn own.inBraces).erase rule.typeName = [name] ∧ Text.CommentsEndIn [name] ∧
      Import.IsModule "@/types".toList ∧ rule.Clean "@/types".toList text ∧
      ∃ new, (rule.apply "@/types".toList text).text.spellings rule.home = [new] ∧
        new.inBraces.CommentsEnd [] := by
  intro text rule own name
  have spelt : text.spellings rule.home = [own] := by decide +kernel
  have moved : (rule.apply "@/types".toList text).effect = .moved := by decide +kernel
  have names : (Import.namesIn own.inBraces).erase rule.typeName = [name] := by decide +kernel
  have ends : Text.CommentsEndIn (rule.kept "@/types".toList (Import.namesIn own.inBraces)) := by
    decide +kernel
  have isModule : Import.IsModule "@/types".toList := by decide
  have tidy : Tidy [rule.home] text.pieces := by decide +kernel
  have home : rule.home ∈ [rule.home] := List.mem_singleton_self _
  have clean : rule.Clean "@/types".toList text :=
    tidy.orderly.clean home fun _ => (tidy.left home).1.unbroken
  have more : (Import.namesIn own.inBraces).erase rule.typeName ≠ [] := by
    rw [names]
    exact List.cons_ne_nil _ _
  obtain ⟨new, result, -, closed⟩ := (comments_apply spelt moved more).2 isModule clean
  exact ⟨spelt, moved, names, by decide +kernel, isModule, clean, new, result, closed.2 ends⟩

/-- The line break behind the last name goes, and the comment before it goes on. -/
theorem comments_apply_trailing :
    let text : Text := "import \x7b\n  Order,\n  saveOrder // local copy\n\x7d ".toList ++
      "from '@/utils/orderStorage';\n".toList
    let rule : Rule := ⟨"Order".toList, "@/utils/orderStorage".toList⟩
    let own : Text := text.dropLast
    let new : Text := "import \x7b saveOrder // local copy \x7d from ".toList ++
      "\"@/utils/orderStorage\";".toList
    text.spellings rule.home = [own] ∧ (rule.apply "@/types".toList text).effect = .moved ∧
      (Import.namesIn own.inBraces).erase rule.typeName ≠ [] ∧ own.inBraces.CommentsEnd [] ∧
      (rule.left text).spellings rule.home = [new] ∧
      (rule.apply "@/types".toList text).text.spellings rule.home = [new] ∧
      ¬ new.inBraces.CommentsEnd [] := by
  decide +kernel

end Rule

end Rehome
