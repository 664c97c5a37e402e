import Rehome.Proofs.Rewrite.Repeat
import Rehome.Proofs.Rewrite.Settle

/-!
# Texts that rules fit

Where a text is tidy, has one import of each home at most and repeats no name in it, one pass does
all there is to do. Main statements: a second pass moves nothing (`Rules.Fits.moved_rewrite`), and a
pass that moves a type leaves another text (`Rules.text_rewrite_ne`).
-/

namespace Rehome

namespace Rules

/-- The text is tidy for the homes of the rules, each of them is imported by one statement at most,
and no name is repeated there. -/
structure Fits (rules : Rules) (text : Text) : Prop where
  tidy : Tidy rules.homes text.pieces
  single : ∀ home ∈ rules.homes, (Table.lists home text.table).length ≤ 1
  nodup : ∀ home ∈ rules.homes, ∀ names ∈ Table.lists home text.table, names.Nodup

instance (rules : Rules) (text : Text) : Decidable (rules.Fits text) :=
  decidable_of_iff
    (Tidy rules.homes text.pieces ∧
      (∀ home ∈ rules.homes, (Table.lists home text.table).length ≤ 1) ∧
      ∀ home ∈ rules.homes, ∀ names ∈ Table.lists home text.table, names.Nodup)
    ⟨fun ⟨tidy, single, nodup⟩ => ⟨tidy, single, nodup⟩,
      fun ⟨tidy, single, nodup⟩ => ⟨tidy, single, nodup⟩⟩

variable {rules : Rules} {text : Text}

/-- One pass does all there is to do. -/
lemma Fits.moved_rewrite (h : rules.Fits text) (isModule : Import.IsModule rules.destination) :
    (rules.rewrite (rules.rewrite text).text).moved = [] := by
  apply And.left
  apply (rewrite_rewrite_iff_of_single isModule h.tidy h.single).2
  intro home mem names listed name _
  exact List.nodup_iff_count_le_one.1 (h.nodup home mem names listed) name

lemma Fits.text_rewrite (h : rules.Fits text) (isModule : Import.IsModule rules.destination) :
    (rules.rewrite (rules.rewrite text).text).text = (rules.rewrite text).text :=
  text_rewrite_of_moved_eq_nil (h.moved_rewrite isModule)

/-- A type that moves leaves its home, which tells the texts apart. -/
lemma text_rewrite_ne (isModule : Import.IsModule rules.destination)
    (tidy : Tidy rules.homes text.pieces) (some : (rules.rewrite text).moved ≠ []) :
    (rules.rewrite text).text ≠ text := by
  intro same
  have balance := (pays_rewrite isModule tidy).balance
  have positive := List.length_pos_iff.2 some
  rw [same] at balance
  omega

end Rules

end Rehome
