import Rehome.Command.Basic
import Rehome.Proofs.Json.Printed
import Rehome.Proofs.Run.Tour

/-!
# Reading a summary back

A summary is read back from its JSON by the keys of the members. Main statement: the JSON that is
printed for a summary spells one value only, from which the summary is read back as it was; if a
path is not UTF-8, nothing is printed and the run fails (`Arguments.report?_reads_back`).
-/

namespace Rehome

open Json

namespace Json

namespace Data

/-- The value of the member with a key, if there is exactly one. -/
def member? (data : Data) (key : Text) : Option Data :=
  match data with
  | object members =>
    match members.filter fun member => member.1 = key with
    | [(_, value)] => some value
    | _ => none
  | _ => none

/-- The items of an array. -/
def items? : Data → Option (List Data)
  | array items => some items
  | _ => none

/-- The value of a string. -/
def string? : Data → Option Text
  | string value => some value
  | _ => none

/-- The value of a boolean. -/
def boolean? : Data → Option Bool
  | boolean value => some value
  | _ => none

/-- The value of a number that is spelt with digits only. -/
def natural? : Data → Option Nat
  | number spelling =>
    if spelling.all Char.isDigit then some (Nat.ofDigitChars 10 spelling 0) else none
  | _ => none

/-- The value of a number that fits a machine word. -/
def word? (data : Data) : Option UInt64 :=
  match data.natural? with
  | some n => if n < UInt64.size then some (.ofNat n) else none
  | none => none

end Data

end Json

/-- A changed file from its JSON object. -/
def Change.ofData? (data : Data) : Option Change := do
  let path ← (← data.member? "path".toList).string?
  let moved ← (← (← data.member? "moved".toList).items?).mapM Data.string?
  return ⟨Path.ofText path, moved⟩

/-- A clash and its file from their JSON object. -/
def FileClash.ofData? (data : Data) : Option FileClash := do
  let path ← (← data.member? "path".toList).string?
  let typeName ← (← data.member? "type_name".toList).string?
  let home ← (← data.member? "source_module".toList).string?
  let other ← (← data.member? "other_module".toList).string?
  return ⟨Path.ofText path, ⟨typeName, home, other⟩⟩

namespace Summary

/-- A summary from its JSON object. Without a list of clashes there are none. -/
def ofData? (data : Data) : Option Summary := do
  let dryRun ← (← data.member? "dry_run".toList).boolean?
  let scanned ← (← data.member? "scanned".toList).word?
  let changed ← (← (← data.member? "modified".toList).items?).mapM Change.ofData?
  let clashes ←
    match data.member? "conflicts".toList with
    | some found => (← found.items?).mapM FileClash.ofData?
    | none => some []
  return ⟨dryRun, scanned, changed, clashes⟩

/-- The paths in a summary. -/
def paths (summary : Summary) : List Path :=
  summary.changed.map Change.path ++ summary.clashes.map FileClash.path

end Summary

variable {α : Type} {summary : Summary} {value : Value}

/-! ### Lists -/

/-- What is read back one by one is read back in a list. -/
lemma mapM_dataItems {print : α → Option Value} {read : Data → Option α}
    (back : ∀ a value, print a = some value → read value.data = some a) {list : List α}
    {values : List Value} (printed : list.mapM print = some values) :
    (dataItems values).mapM read = some list := by
  induction list generalizing values with
  | nil =>
    cases printed
    rfl
  | cons a list ih =>
    rw [List.mapM_cons] at printed
    simp only [Option.bind_eq_bind, Option.bind_eq_some_iff, Option.pure_def,
      Option.some.injEq] at printed
    obtain ⟨value, own, values, others, rfl⟩ := printed
    rw [dataItems, List.mapM_cons, back a value own, ih others]
    rfl

lemma mapM_string (texts : List Text) :
    (dataItems (texts.map .string)).mapM Data.string? = some texts := by
  induction texts with
  | nil => rfl
  | cons text texts ih =>
    rw [List.map_cons, dataItems, List.mapM_cons, ih]
    rfl

lemma isSome_mapM_iff {print : α → Option Value} {list : List α} :
    (list.mapM print).isSome = true ↔ ∀ a ∈ list, (print a).isSome = true := by
  induction list with
  | nil => simp
  | cons a list ih =>
    rw [List.mapM_cons, List.forall_mem_cons, ← ih]
    cases print a with
    | none => simp
    | some value =>
      cases list.mapM print with
      | none => simp
      | some values => simp

/-! ### Records -/

lemma natural?_ofNat (n : Nat) : (Data.number (Text.ofNat n)).natural? = some n := by
  have digits : (Nat.toDigits 10 n).all Char.isDigit = true :=
    List.all_eq_true.2 fun c mem => Nat.isDigit_of_mem_toDigits (by decide) (by decide) mem
  rw [ofNat_eq, Data.natural?, if_pos digits, Nat.ofDigitChars_ten_toDigits]

lemma word?_ofNat (n : UInt64) : (Data.number (Text.ofNat n.toNat)).word? = some n := by
  rw [Data.word?, natural?_ofNat]
  dsimp only
  rw [if_pos n.toNat_lt, UInt64.ofNat_toNat]

lemma Change.ofData?_data {file : Change} (printed : file.toJson? = some value) :
    Change.ofData? value.data = some file := by
  obtain ⟨place, moved⟩ := file
  simp only [toJson?, Option.bind_eq_bind, Option.bind_eq_some_iff, Option.pure_def,
    Option.some.injEq] at printed
  obtain ⟨path, reads, rfl⟩ := printed
  obtain rfl := Utf8.encode_of_decode? reads
  change (do
    let texts ← (dataItems (moved.map .string)).mapM Data.string?
    return (⟨Path.ofText path, texts⟩ : Change)) = _
  rw [mapM_string]
  rfl

lemma FileClash.ofData?_data {found : FileClash} (printed : found.toJson? = some value) :
    FileClash.ofData? value.data = some found := by
  obtain ⟨place, clash⟩ := found
  simp only [toJson?, Option.bind_eq_bind, Option.bind_eq_some_iff, Option.pure_def,
    Option.some.injEq] at printed
  obtain ⟨path, reads, rfl⟩ := printed
  obtain rfl := Utf8.encode_of_decode? reads
  rfl

namespace Summary

/-- What the program writes of a summary, the fields and the list of clashes if there is one. -/
lemma exists_of_toJson?_eq_some (printed : summary.toJson? = some value) :
    ∃ changed clashes, summary.changed.mapM Change.toJson? = some changed ∧
      summary.clashes.mapM FileClash.toJson? = some clashes ∧
      value = .object ([("dry_run".toList, .boolean summary.dryRun),
        ("scanned".toList, .number summary.scanned.toNat), ("modified".toList, .array changed)] ++
          if clashes.isEmpty then [] else [("conflicts".toList, .array clashes)]) := by
  simp only [toJson?, Option.bind_eq_bind, Option.bind_eq_some_iff, Option.pure_def,
    Option.some.injEq] at printed
  obtain ⟨changed, first, clashes, second, rfl⟩ := printed
  exact ⟨changed, clashes, first, second, rfl⟩

/-- The object of a summary lists clashes only if there are some, and the summary is read back from
it. -/
lemma ofData?_data (printed : summary.toJson? = some value) :
    (∃ members, value.data = .object members ∧
      ("conflicts".toList ∉ members.map Prod.fst ↔ summary.clashes = [])) ∧
      ofData? value.data = some summary := by
  obtain ⟨dryRun, scanned, files, found⟩ := summary
  obtain ⟨changed, clashes, first, second, rfl⟩ := exists_of_toJson?_eq_some printed
  have changed' := mapM_dataItems (fun _ _ => Change.ofData?_data) first
  have clashes' := mapM_dataItems (fun _ _ => FileClash.ofData?_data) second
  dsimp only at first second changed' clashes' ⊢
  cases clashes with
  | nil =>
    obtain rfl : [] = found := Option.some.inj clashes'
    have absent : "conflicts".toList ∉ ["dry_run".toList, "scanned".toList, "modified".toList] := by
      decide
    refine ⟨⟨_, rfl, iff_of_true absent rfl⟩, ?_⟩
    change (do
      let scanned ← (Data.number (Text.ofNat scanned.toNat)).word?
      let files ← (dataItems changed).mapM Change.ofData?
      return (⟨dryRun, scanned, files, []⟩ : Summary)) = _
    rw [word?_ofNat, changed']
    rfl
  | cons clash clashes =>
    have some : found ≠ [] := by
      rintro rfl
      cases second
    have present : "conflicts".toList ∈
        ["dry_run".toList, "scanned".toList, "modified".toList, "conflicts".toList] := by
      decide
    refine ⟨⟨_, rfl, iff_of_false (not_not_intro present) some⟩, ?_⟩
    change (do
      let scanned ← (Data.number (Text.ofNat scanned.toNat)).word?
      let files ← (dataItems changed).mapM Change.ofData?
      let found ← (dataItems (clash :: clashes)).mapM FileClash.ofData?
      return (⟨dryRun, scanned, files, found⟩ : Summary)) = _
    rw [word?_ofNat, changed', clashes']
    rfl

/-- A summary has JSON exactly if all its paths are UTF-8. -/
lemma isSome_toJson?_iff : summary.toJson?.isSome = true ↔
    ∀ path ∈ summary.paths, Utf8.decode? path ≠ none := by
  have file : ∀ file : Change, file.toJson?.isSome = true ↔ Utf8.decode? file.path ≠ none := by
    intro file
    rw [Change.toJson?]
    cases Utf8.decode? file.path with
    | none => exact iff_of_false Bool.false_ne_true fun some => some rfl
    | some path => exact iff_of_true rfl (Option.some_ne_none _)
  have clash : ∀ found : FileClash,
      found.toJson?.isSome = true ↔ Utf8.decode? found.path ≠ none := by
    intro found
    rw [FileClash.toJson?]
    cases Utf8.decode? found.path with
    | none => exact iff_of_false Bool.false_ne_true fun some => some rfl
    | some path => exact iff_of_true rfl (Option.some_ne_none _)
  have parts : summary.toJson?.isSome = true ↔
      (summary.changed.mapM Change.toJson?).isSome = true ∧
        (summary.clashes.mapM FileClash.toJson?).isSome = true := by
    rw [toJson?]
    cases summary.changed.mapM Change.toJson? with
    | none => exact iff_of_false Bool.false_ne_true fun both => Bool.false_ne_true both.1
    | some changed =>
      cases summary.clashes.mapM FileClash.toJson? with
      | none => exact iff_of_false Bool.false_ne_true fun both => Bool.false_ne_true both.2
      | some clashes => exact iff_of_true rfl ⟨rfl, rfl⟩
  rw [parts, isSome_mapM_iff, isSome_mapM_iff, paths, List.forall_mem_append, List.forall_mem_map,
    List.forall_mem_map]
  simp only [file, clash]

end Summary

namespace Arguments

variable {arguments : Arguments} {around : Surroundings}

/-- What is printed as JSON is the text of the summary's object, and a line break. -/
lemma report?_of_json (json : arguments.json = true) :
    arguments.report? around summary =
      summary.toJson?.map fun value => value.print 0 ++ ['\n'] := by
  rw [report?, if_pos json, Summary.json?, Option.map_map]
  rfl

/-- In the tree the rules can be had, and the run that the arguments ask for ends well. -/
def EndsWell (arguments : Arguments) (tree : Tree) (run : Run) : Prop :=
  ∃ rules, arguments.rules tree = .ok rules ∧
    Job.process ⟨rules, arguments.dryRun⟩ tree
      ((if arguments.roots.isEmpty then defaultRoots else arguments.roots).map Path.ofText) =
        (run, .ok ())

/-- A run prints its report and nothing else. -/
lemma run_of_report?_eq_some {tree : Tree} {run : Run} {text : Text}
    (ends : arguments.EndsWell tree run)
    (told : arguments.report? around run.summary = some text) :
    (arguments.run around tree).output = text ∧ (arguments.run around tree).exitCode = 0 ∧
      (arguments.run around tree).tree = run.tree := by
  obtain ⟨rules, loaded, done⟩ := ends
  rw [Arguments.run, loaded]
  dsimp only
  rw [done]
  dsimp only
  rw [told]
  exact ⟨rfl, rfl, rfl⟩

/-- A run without a report prints nothing and fails. -/
lemma run_of_report?_eq_none {tree : Tree} {run : Run} (ends : arguments.EndsWell tree run)
    (none : arguments.report? around run.summary = none) :
    (arguments.run around tree).output = [] ∧ (arguments.run around tree).exitCode = 1 ∧
      (arguments.run around tree).messages.getLast? = some (complaint
        "error writing output: path contains invalid UTF-8 characters".toList) := by
  obtain ⟨rules, loaded, done⟩ := ends
  rw [Arguments.run, loaded]
  dsimp only
  rw [done]
  dsimp only
  rw [none]
  exact ⟨rfl, rfl, List.getLast?_concat ..⟩

/-- The JSON of a summary spells one value, an object from which the summary is read back as it was,
so that no other summary has the same text, and a run that ends with this summary prints that. If a
path is not UTF-8 there is no JSON, and a run that ends with this summary prints nothing and
fails. -/
theorem report?_reads_back (around : Surroundings) (summary : Summary)
    (json : arguments.json = true) :
    ((∀ path ∈ summary.paths, Utf8.decode? path ≠ none) →
      ∃ text data, arguments.report? around summary = some text ∧
        (∀ other, SpellsDocument other text ↔ other = data) ∧
        (∃ members, data = .object members ∧
          ("conflicts".toList ∉ members.map Prod.fst ↔ summary.clashes = [])) ∧
        Summary.ofData? data = some summary ∧
        (∀ other, arguments.report? around other = some text → other = summary) ∧
        ∀ tree run, arguments.EndsWell tree run → run.summary = summary →
          (arguments.run around tree).output = text ∧ (arguments.run around tree).exitCode = 0 ∧
            (arguments.run around tree).tree = run.tree) ∧
      ((∃ path ∈ summary.paths, Utf8.decode? path = none) →
        arguments.report? around summary = none ∧
          ∀ tree run, arguments.EndsWell tree run → run.summary = summary →
            (arguments.run around tree).output = [] ∧ (arguments.run around tree).exitCode = 1 ∧
              (arguments.run around tree).messages.getLast? = some (complaint
                "error writing output: path contains invalid UTF-8 characters".toList)) := by
  constructor
  · intro utf8
    obtain ⟨value, printed⟩ := Option.isSome_iff_exists.1 (Summary.isSome_toJson?_iff.2 utf8)
    obtain ⟨fields, back⟩ := Summary.ofData?_data printed
    have document := spellsDocument_print value
    have told : arguments.report? around summary = some (value.print 0 ++ ['\n']) := by
      rw [report?_of_json json, printed, Option.map_some]
    refine ⟨value.print 0 ++ ['\n'], value.data, told, fun other => ⟨fun spelled => ?_, ?_⟩, fields,
      back, ?_, ?_⟩
    · exact spelled.unique document
    · rintro rfl
      exact document
    · intro other same
      rw [report?_of_json json, Option.map_eq_some_iff] at same
      obtain ⟨value', printed', text⟩ := same
      obtain ⟨-, back'⟩ := Summary.ofData?_data printed'
      have one := (text ▸ spellsDocument_print value').unique document
      rw [one, back] at back'
      exact (Option.some.inj back').symm
    · rintro tree run ends rfl
      exact run_of_report?_eq_some ends told
  · rintro ⟨path, mem, broken⟩
    have none : arguments.report? around summary = none := by
      rw [report?_of_json json, Option.map_eq_none_iff, ← Option.not_isSome_iff_eq_none,
        Summary.isSome_toJson?_iff]
      exact fun utf8 => utf8 path mem broken
    refine ⟨none, ?_⟩
    rintro tree run ends rfl
    exact run_of_report?_eq_none ends none

/-- A path, names and modules with quotes, backslashes, control and other characters; a run that
meets a file whose name is not UTF-8; and one that does not. -/
theorem report?_reads_back_escaped :
    let arguments : Arguments := ⟨["s".toList], none, none, none, true, false, true, false, false⟩
    let around : Surroundings := ⟨none, none, none, none, false⟩
    let path : Text := "s/\"ä\\\n.ts".toList
    let summary : Summary := ⟨true, 10, [⟨Path.ofText path, ["\t😀".toList, []]⟩],
      [⟨Path.ofText path, ⟨"A,\x7b".toList, "\x1f'".toList, "\x7f/".toList⟩⟩]⟩
    let printed : Text :=
      "\x7b\n  \"dry_run\": true,\n  \"scanned\": 10,\n  \"modified\": [\n    \x7b\n".toList ++
        "      \"path\": \"s/\\\"ä\\\\\\n.ts\",\n      \"moved\": [\n".toList ++
        "        \"\\t😀\",\n        \"\"\n      ]\n    \x7d\n  ],\n".toList ++
        "  \"conflicts\": [\n    \x7b\n      \"path\": \"s/\\\"ä\\\\\\n.ts\",\n".toList ++
        "      \"type_name\": \"A,\x7b\",\n      \"source_module\": \"\\u001f'\",\n".toList ++
        "      \"other_module\": \"\x7f/\"\n    \x7d\n  ]\n\x7d\n".toList
    let job : Job := ⟨.standard, true⟩
    let roots := [Path.ofText "s".toList]
    let source := Utf8.encode "import \x7b FAQ \x7d from '@/utils/boardStorage'".toList
    let plain := Tree.empty.makeFile (Path.ofText "s/a.ts".toList) source
    let tree := plain.makeFile (Path.ofText "s/".toList ++ 0xFF :: Path.ofText ".ts".toList) source
    let run := (job.process tree roots).1
    let good := (job.process plain roots).1
    arguments.json = true ∧ (∀ path ∈ summary.paths, Utf8.decode? path ≠ none) ∧
      arguments.report? around summary = some printed ∧
      (∃ data, SpellsDocument data printed ∧ Summary.ofData? data = some summary) ∧
      job.process tree roots = (run, .ok ()) ∧
      (∃ path ∈ run.summary.paths, Utf8.decode? path = none) ∧
      (arguments.run around tree).output = [] ∧ (arguments.run around tree).exitCode = 1 ∧
      job.process plain roots = (good, .ok ()) ∧ (arguments.run around plain).exitCode = 0 ∧
      arguments.report? around good.summary = some (arguments.run around plain).output := by
  intro arguments around path summary printed job roots source plain tree run good
  have json : arguments.json = true := rfl
  have utf8 : ∀ path ∈ summary.paths, Utf8.decode? path ≠ none := by decide +kernel
  have shown : arguments.report? around summary = some printed := by decide +kernel
  obtain ⟨text, data, same, spelled, -, back, -⟩ := (report?_reads_back around summary json).1 utf8
  obtain rfl := Option.some.inj (shown.symm.trans same)
  have done : job.process tree roots = (run, .ok ()) := Job.process_eq_of_isOk (by decide +kernel)
  have broken : ∃ path ∈ run.summary.paths, Utf8.decode? path = none := by decide +kernel
  obtain ⟨-, silent⟩ := (report?_reads_back around run.summary json).2 broken
  obtain ⟨output, exitCode, -⟩ := silent tree run ⟨.standard, rfl, done⟩ rfl
  have done' : job.process plain roots = (good, .ok ()) :=
    Job.process_eq_of_isOk (by decide +kernel)
  have utf8' : ∀ path ∈ good.summary.paths, Utf8.decode? path ≠ none := by decide +kernel
  obtain ⟨text', data', told, -, -, -, -, prints⟩ :=
    (report?_reads_back around good.summary json).1 utf8'
  obtain ⟨output', exitCode', -⟩ := prints plain good ⟨.standard, rfl, done'⟩ rfl
  rw [← output'] at told
  exact ⟨json, utf8, shown, ⟨data, (spelled data).2 rfl, back⟩, done, broken, output, exitCode,
    done', exitCode', told⟩

end Arguments

end Rehome
