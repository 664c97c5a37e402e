import Rehome.Fault
import Rehome.Proofs.Files.Walk
import Rehome.Proofs.Text.Utf8

/-!
# Reading and writing where a path leads

A path that leads to a file reads what the file holds, and writing there touches no other location.
Main statements: when a text is read or written there (`LeadsTo.readText_eq_ok_iff`,
`LeadsTo.writeText_eq_ok_iff`), and what a written tree holds (`LeadsTo.node?_of_writeText`).
-/

namespace Rehome

namespace Tree

variable {tree a b new : Tree} {path : Path} {location : Location} {content : Bytes}
  {access : Access} {text : Text}

lemma LeadsTo.ne_nil (h : tree.LeadsTo path location) : location ≠ [] := by
  rintro rfl
  obtain ⟨content, access, held⟩ := h.file
  cases held

/-- The path can be used, for reading and for writing. -/
def Admits (tree : Tree) (path : Path) : Prop :=
  ∀ writing, ∃ target, tree.resolve writing path = .ok target

lemma Alike.admits_iff (h : Alike a b) : a.Admits path ↔ b.Admits path := by
  simp only [Admits, h.resolve_eq]

/-- A path that can be used for one purpose can be used for the other. -/
lemma LeadsTo.admits_iff (h : tree.LeadsTo path location) (writing : Bool) :
    tree.Admits path ↔ tree.resolve writing path = .ok ⟨location, false⟩ := by
  rcases h.resolved with leads | ⟨error, bad⟩
  · exact iff_of_true (fun writing => ⟨_, leads writing⟩) (leads writing)
  · refine iff_of_false (fun admits => ?_) fun leads => ?_
    · obtain ⟨target, leads⟩ := admits writing
      cases (bad writing).symm.trans leads
    · cases (bad writing).symm.trans leads

lemma LeadsTo.read_eq (h : tree.LeadsTo path location)
    (held : tree.node? location = some (.file content access)) :
    tree.read path = (tree.resolve false path).bind fun _ =>
      if access.readable then .ok content else .error .denied := by
  rw [read]
  rcases h.resolved with leads | ⟨error, bad⟩
  · rw [leads]
    dsimp only [bind, Except.bind]
    rw [held]
    rfl
  · rw [bad]
    rfl

lemma LeadsTo.write_eq (h : tree.LeadsTo path location)
    (held : tree.node? location = some (.file content access)) (bytes : Bytes) :
    tree.write path bytes = (tree.resolve true path).bind fun _ =>
      if access.writable then .ok (tree.insert location (.file bytes access))
      else .error .denied := by
  rw [write]
  rcases h.resolved with leads | ⟨error, bad⟩
  · rw [leads]
    dsimp only [bind, Except.bind]
    rw [held]
    rfl
  · rw [bad]
    rfl

lemma LeadsTo.readText_eq_ok_iff (h : tree.LeadsTo path location)
    (held : tree.node? location = some (.file content access)) :
    tree.readText path = .ok text ↔
      tree.Admits path ∧ access.readable = true ∧ Utf8.decode? content = some text := by
  rw [readText, h.read_eq held, h.admits_iff false]
  rcases h.resolved with leads | ⟨error, bad⟩
  · rw [leads]
    dsimp only [Except.bind]
    cases access.readable with
    | false => simp
    | true => cases decoded : Utf8.decode? content <;> simp [decoded]
  · simp [bad, Except.bind]

lemma LeadsTo.writeText_eq_ok_iff (h : tree.LeadsTo path location)
    (held : tree.node? location = some (.file content access)) :
    tree.writeText path text = .ok new ↔ tree.Admits path ∧ access.writable = true ∧
      tree.insert location (.file (Utf8.encode text) access) = new := by
  rw [writeText, h.write_eq held, h.admits_iff true]
  rcases h.resolved with leads | ⟨error, bad⟩
  · rw [leads]
    dsimp only [Except.bind]
    cases access.writable with
    | false => simp [Except.mapError]
    | true => simp [Except.mapError]
  · simp [bad, Except.bind, Except.mapError]

/-- A text is read from the file that the path leads to. -/
lemma LeadsTo.exists_of_readText (h : tree.LeadsTo path location)
    (read : tree.readText path = .ok text) :
    ∃ access, tree.node? location = some (.file (Utf8.encode text) access) := by
  obtain ⟨content, access, held⟩ := h.file
  obtain ⟨-, -, decoded⟩ := (h.readText_eq_ok_iff held).1 read
  rw [Utf8.encode_of_decode? decoded]
  exact ⟨access, held⟩

/-- What the tree holds with something else in the place of the file. -/
lemma LeadsTo.node?_insert (h : tree.LeadsTo path location) (node : Node) (other : Location) :
    (tree.insert location node).node? other =
      if other = location then some node else tree.node? other := by
  obtain ⟨content, access, held⟩ := h.file
  apply Tree.node?_insert h.ne_nil
  rw [held]
  exact Option.some_ne_none _

/-- Another file in the place of the file leaves the outline. -/
lemma LeadsTo.alike_insert (h : tree.LeadsTo path location) (content : Bytes) (access : Access) :
    Alike tree (tree.insert location (.file content access)) := by
  obtain ⟨old, rights, held⟩ := h.file
  rw [alike_iff]
  refine ⟨(tree.workingDirectory_insert _ _).symm, fun other => ?_⟩
  rw [h.node?_insert]
  split
  case isTrue same =>
    rw [same, held]
    rfl
  case isFalse => rfl

/-- What a written tree holds. -/
lemma LeadsTo.node?_of_writeText (h : tree.LeadsTo path location)
    (held : tree.node? location = some (.file content access))
    (written : tree.writeText path text = .ok new) (other : Location) :
    new.node? other =
      if other = location then some (.file (Utf8.encode text) access) else tree.node? other := by
  obtain ⟨-, -, rfl⟩ := (h.writeText_eq_ok_iff held).1 written
  exact h.node?_insert _ other

/-! ### Trees that hold the same in one place -/

lemma LeadsTo.readText_congr (h : a.LeadsTo path location) (alike : Alike a b)
    (same : a.node? location = b.node? location) : a.readText path = b.readText path := by
  obtain ⟨content, access, held⟩ := h.file
  rw [readText, readText, h.read_eq held, (h.alike alike).read_eq (same.symm.trans held),
    alike.resolve_eq]

end Tree

end Rehome
