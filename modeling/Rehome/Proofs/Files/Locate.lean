import Rehome.Proofs.Files.Outline
import Rehome.Proofs.Files.Path
import Rehome.Proofs.Files.Sight

/-!
# The place that a path names

A path names a place also where it may not be used, because it is too long or leads through a
directory that may not be entered. Main statements: a path that leads to a place names it
(`Tree.follow_unlocked`), and where a path leads and what it names if real directories lead on from
a directory (`Tree.resolve_below`, `Tree.locate?_below`).
-/

namespace Rehome

/-- The rights, with the way through the directory open. -/
def Rights.unlock (rights : Rights) : Rights :=
  { rights with enterable := true }

/-- The node, with the way through it open if it is a directory. -/
def Node.unlock : Node → Node
  | file content access => file content access
  | directory rights => directory rights.unlock
  | link target => link target
  | device content access => device content access

namespace Tree

/-- The tree with the ways through all directories open. -/
def unlocked (tree : Tree) : Tree where
  rights := tree.rights.unlock
  listing := tree.listing.map Node.unlock
  workingDirectory := tree.workingDirectory
  ordered := tree.ordered.map _
  named := tree.named.map _

/-- The location that a path names. How long the path is and which directories may be entered does
not matter. -/
def locate? (tree : Tree) (path : Path) : Option Location :=
  match tree.unlocked.follow false maxLinks (path.start tree.workingDirectory) path.endsInSlash
    path.steps with
  | .ok target => some target.location
  | .error _ => none

end Tree

namespace Listing

variable {listing : Listing} {names : List Bytes} {node : Node}

lemma map_map (f g : Node → Node) (listing : Listing) :
    (listing.map f).map g = listing.map (g ∘ f) := by
  induction listing with
  | nil => rfl
  | entry name node inside rest ihInside ihRest => rw [map, map, map, ihInside, ihRest]; rfl

lemma Reaches.unlock (h : listing.Reaches names node) :
    (listing.map Node.unlock).Reaches names node.unlock := by
  induction h with
  | here found => exact .here (by rw [find?_map, found]; rfl)
  | deeper found _ ih => exact .deeper (by rw [find?_map, found]; rfl) ih

lemma Reaches.passes_unlock (h : listing.Reaches names node) :
    (listing.map Node.unlock).passes names = true := by
  induction h with
  | here => rfl
  | @deeper listing inside name names node rights found way ih =>
    obtain ⟨next, more, rfl⟩ := List.exists_cons_of_ne_nil way.ne_nil
    rw [passes, find?_map, found]
    exact ih

lemma under_append (front back : Location) :
    listing.under (front ++ back) = (listing.under front).under back := by
  induction front generalizing listing with
  | nil => rfl
  | cons name front ih =>
    rw [List.cons_append, under, under]
    cases listing.find? name with
    | none =>
      cases back with
      | nil => rfl
      | cons => rfl
    | some entry => exact ih

end Listing

/-- A path to what lies below a directory starts where the path of the directory does. -/
lemma Path.start_below {path : Path} (solid : path ≠ []) (names : List Bytes) (here : Location) :
    (path.below names).start here = path.start here := by
  rw [start, start, isAbsolute_below solid]

namespace Tree

variable {tree a b : Tree} {root path : Path} {location base here : Location}
  {names : List Bytes} {node : Node} {rights : Rights} {writing slashed slashed' : Bool}
  {links : Nat} {steps : List Step} {step : Step} {barred last : Bool}

lemma node?_unlocked (location : Location) :
    tree.unlocked.node? location = (tree.node? location).map Node.unlock := by
  rw [node?, node?]
  split
  · rfl
  · exact Listing.node?_map location

/-! ### Ways that lead on -/

/-- What a step to a location can lead to. -/
inductive Lands (tree : Tree) (last : Bool) (location : Location) : Stride → Prop
  | link {target : Path} (found : tree.node? location = some (.link target)) :
    Lands tree last location (.link target)
  | place (real : ∀ target, tree.node? location ≠ some (.link target))
      (held : last = false → tree.node? location ≠ none) :
    Lands tree last location (.place location)

/-- What a step in a directory that may be entered can lead to. -/
inductive Strides (tree : Tree) (barred last : Bool) (here : Location) : Step → Stride → Prop
  | stay : Strides tree barred last here .stay (.place here)
  | parent : Strides tree barred last here .parent (.place here.dropLast)
  | name {name : Bytes} {stride : Stride} (free : barred = false)
      (short : name.length ≤ Path.maxName) (lands : tree.Lands last (here ++ [name]) stride) :
    Strides tree barred last here (.name name) stride

lemma land_eq_ok_iff {stride : Stride} :
    tree.land last location = .ok stride ↔ tree.Lands last location stride := by
  constructor
  · intro h
    rw [land] at h
    split at h
    case h_1 none =>
      split at h
      case isFalse => cases h
      case isTrue final =>
        cases h
        refine .place (fun target found => ?_) fun more => ?_
        · cases none.symm.trans found
        · cases more.symm.trans final
    case h_2 target found =>
      cases h
      exact .link found
    case h_3 node real found =>
      cases h
      refine .place (fun target link => ?_) fun _ => ?_
      · exact real target (Option.some.inj (found.symm.trans link))
      · rw [found]
        exact Option.some_ne_none _
  · rintro (found | ⟨real, held⟩)
    · rw [land, found]
    · rw [land]
      split
      case h_1 none => exact if_pos (eq_true_of_ne_false fun more => held more none)
      case h_2 target found => exact absurd found (real target)
      case h_3 => rfl

lemma stride_eq_ok_iff {stride : Stride} : tree.stride barred last here step = .ok stride ↔
    (∃ rights, tree.node? here = some (.directory rights) ∧ rights.enterable = true) ∧
      tree.Strides barred last here step stride := by
  constructor
  · intro h
    unfold Tree.stride at h
    split at h
    case h_2 => cases h
    case h_3 => cases h
    case h_4 => cases h
    case h_1 rights held =>
      split at h
      case isFalse => cases h
      case isTrue enterable =>
        refine ⟨⟨rights, held, enterable⟩, ?_⟩
        cases step with
        | stay =>
          cases h
          exact .stay
        | parent =>
          cases h
          exact .parent
        | name name =>
          dsimp only at h
          split at h
          case isTrue => cases h
          case isFalse free =>
            split at h
            case isTrue => cases h
            case isFalse short =>
              exact .name (eq_false_of_ne_true free) (Nat.not_lt.1 short) (land_eq_ok_iff.1 h)
  · rintro ⟨⟨rights, directory, enterable⟩, strides⟩
    unfold Tree.stride
    rw [directory]
    dsimp only
    rw [if_pos enterable]
    cases strides with
    | stay => rfl
    | parent => rfl
    | name free short lands =>
      dsimp only
      rw [free, if_neg Bool.false_ne_true, if_neg (Nat.not_lt.2 short), land_eq_ok_iff.2 lands]

lemma Lands.unlocked {stride : Stride} (h : tree.Lands last location stride) :
    tree.unlocked.Lands last location stride := by
  cases h with
  | link found => exact .link (by rw [node?_unlocked, found]; rfl)
  | place real held =>
    refine .place (fun target link => ?_) fun more => ?_
    · rw [node?_unlocked, Option.map_eq_some_iff] at link
      obtain ⟨node, there, same⟩ := link
      cases node with
      | link target => exact real target there
      | file content access => cases same
      | directory rights => cases same
      | device content access => cases same
    · rw [node?_unlocked, Ne, Option.map_eq_none_iff]
      exact held more

/-- What is open to a way is open to it in the unlocked tree. -/
lemma stride_unlocked {stride : Stride} (h : tree.stride barred last here step = .ok stride) :
    tree.unlocked.stride barred last here step = .ok stride := by
  rw [stride_eq_ok_iff] at h ⊢
  obtain ⟨⟨rights, directory, -⟩, strides⟩ := h
  refine ⟨⟨rights.unlock, by rw [node?_unlocked, directory]; rfl, rfl⟩, ?_⟩
  cases strides with
  | stay => exact .stay
  | parent => exact .parent
  | name free short lands => exact .name free short lands.unlocked

lemma leg_unlocked {leg : Leg} (h : tree.leg writing slashed here steps = .ok leg) :
    tree.unlocked.leg writing slashed here steps = .ok leg := by
  induction steps generalizing here with
  | nil => exact h
  | cons step rest ih =>
    rw [Tree.leg] at h ⊢
    split at h
    case h_1 => cases h
    case h_2 location taken =>
      rw [stride_unlocked taken]
      exact ih h
    case h_3 target taken =>
      rw [stride_unlocked taken]
      exact h

/-- A way leads to where its first leg arrives, or on from the link that its first leg comes to. -/
lemma follow_cases {target : Target}
    (h : tree.follow writing links here slashed steps = .ok target) :
    (tree.leg writing slashed here steps = .ok (.arrived target.location) ∧
        target.slashed = slashed) ∨
      ∃ left from' link rest, links = left + 1 ∧
        tree.leg writing slashed here steps = .ok (.link from' link rest) ∧
        tree.follow writing left (link.start from')
          (slashed || rest.isEmpty && link.endsInSlash) (link.steps ++ rest) = .ok target := by
  rw [follow] at h
  split at h
  · cases h
  · cases h
    exact .inl ⟨‹_›, rfl⟩
  · cases links with
    | zero => cases h
    | succ left => exact .inr ⟨left, _, _, _, rfl, ‹_›, h⟩

lemma follow_unlocked {target : Target}
    (h : tree.follow writing links here slashed steps = .ok target) :
    tree.unlocked.follow writing links here slashed steps = .ok target := by
  induction links using Nat.strongRecOn generalizing here slashed steps with
  | ind links ih =>
    rcases follow_cases h with ⟨arrives, rfl⟩ | ⟨left, from', link, rest, rfl, first, h⟩
    · rw [follow, leg_unlocked arrives]
    · rw [follow, leg_unlocked first]
      exact ih left (Nat.lt_succ_self left) h

/-- How far a way leads when more steps are set behind one that led so far. -/
def extend (tree : Tree) (writing : Bool) (more : List Step) : Leg → Except AccessError Leg
  | .arrived location => tree.leg writing false location more
  | .link here target rest => .ok (.link here target (rest ++ more))

/-- A step to a place that holds something can be followed by others. -/
lemma stride_of_ok {stride : Stride} (h : tree.stride barred last here step = .ok stride)
    (held : last = true → ∀ location, stride = .place location → tree.node? location ≠ none)
    (final : Bool) : tree.stride false final here step = .ok stride := by
  rw [stride_eq_ok_iff] at h ⊢
  refine ⟨h.1, ?_⟩
  cases h.2 with
  | stay => exact .stay
  | parent => exact .parent
  | name free short lands =>
    refine .name rfl short ?_
    cases lands with
    | link found => exact .link found
    | place real found =>
      refine .place real fun _ => ?_
      cases last with
      | false => exact found rfl
      | true => exact held rfl _ rfl

/-- A way that goes on goes on from where it led. -/
lemma leg_append {more : List Step} {leg : Leg}
    (h : tree.leg false slashed here steps = .ok leg)
    (held : ∀ location, leg = .arrived location → tree.node? location ≠ none) :
    tree.leg writing false here (steps ++ more) = tree.extend writing more leg := by
  induction steps generalizing here with
  | nil =>
    cases h
    rfl
  | cons step rest ih =>
    rw [Tree.leg] at h
    rw [List.cons_append, Tree.leg, Bool.and_false, Bool.false_and]
    split at h
    case h_1 => cases h
    case h_2 location taken =>
      have goes := stride_of_ok taken ?_ (rest ++ more).isEmpty
      · rw [goes]
        exact ih h
      · rintro final _ ⟨⟩
        rw [List.isEmpty_iff.1 final, Tree.leg] at h
        cases h
        exact held _ rfl
    case h_3 target taken =>
      cases h
      rw [stride_of_ok taken (by rintro _ _ ⟨⟩) (rest ++ more).isEmpty]
      rfl

lemma follow_append {more : List Step}
    (h : tree.follow false links here slashed steps = .ok ⟨location, slashed'⟩)
    (held : tree.node? location ≠ none) (further : more ≠ []) :
    ∃ left, tree.follow writing links here false (steps ++ more) =
      tree.follow writing left location false more := by
  induction links using Nat.strongRecOn generalizing here slashed steps with
  | ind links ih =>
    rcases follow_cases h with ⟨arrives, -⟩ | ⟨left, from', link, rest, rfl, first, h⟩
    · have on := @leg_append tree here writing slashed steps more _ arrives
        (by rintro _ ⟨⟩; exact held)
      refine ⟨links, ?_⟩
      rw [follow, follow, on]
      rfl
    · have on := @leg_append tree here writing slashed steps more _ first (by rintro _ ⟨⟩)
      obtain ⟨left, same⟩ := ih left (Nat.lt_succ_self left) h
      refine ⟨left, ?_⟩
      -- the steps behind the link are not at their end, so that its slash does not count
      have inner : (rest ++ more).isEmpty = false := by
        rw [List.isEmpty_eq_false_iff]
        exact List.append_ne_nil_of_right_ne_nil rest further
      rw [follow, on, extend]
      dsimp only
      rw [inner, Bool.false_and, Bool.or_false, ← List.append_assoc, same]

/-! ### Ways by names -/

lemma node?_below (tree : Tree) (base : Location) (below : names ≠ []) :
    tree.node? (base ++ names) = (tree.listing.under base).node? names := by
  rw [node?_of_ne_nil tree (List.append_ne_nil_of_right_ne_nil base below),
    Listing.node?_append base below]

lemma stride_name {name : Bytes} (held : tree.node? here = some (.directory rights))
    (there : tree.node? (here ++ [name]) = some node) (real : ∀ target, node ≠ .link target)
    (short : name.length ≤ Path.maxName) : tree.stride false last here (.name name) =
      if rights.enterable then .ok (.place (here ++ [name])) else .error .denied := by
  cases enterable : rights.enterable with
  | false =>
    unfold stride
    rw [held]
    dsimp only
    rw [enterable]
    rfl
  | true =>
    refine stride_eq_ok_iff.2
      ⟨⟨rights, held, enterable⟩, .name rfl short (.place (fun target link => ?_) fun _ => ?_)⟩
    · exact real target (Option.some.inj (there.symm.trans link))
    · rw [there]
      exact Option.some_ne_none _

/-- A way by names leads to where real directories do, if all of them may be entered. -/
lemma leg_names (writing : Bool) (held : tree.node? base = some (.directory rights))
    (way : (tree.listing.under base).Reaches names node) (real : ∀ target, node ≠ .link target) :
    tree.leg writing false base (names.map .name) =
      if rights.enterable && (tree.listing.under base).passes names then
        .ok (.arrived (base ++ names))
      else .error .denied := by
  induction names generalizing base rights with
  | nil => exact absurd rfl way.ne_nil
  | cons name more ih =>
    obtain ⟨⟨-, -, -, short⟩, -⟩ := List.forall_mem_cons.1 (way.isName (tree.named.under base))
    have next := tree.node?_below base (List.cons_ne_nil name [])
    rw [List.map_cons, leg, Bool.and_false, Bool.false_and]
    cases way with
    | here found =>
      rw [Listing.node?, found] at next
      rw [stride_name held next real short, Listing.passes, Bool.and_true]
      cases rights.enterable with
      | false => rfl
      | true => rfl
    | @deeper _ inside _ _ _ inner found way =>
      have deeper : tree.node? (base ++ [name]) = some (.directory inner) := by
        rw [next, Listing.node?, found]
        rfl
      have below : tree.listing.under (base ++ [name]) = inside := by
        rw [Listing.under_append, Listing.under, found]
        rfl
      obtain ⟨second, more, rfl⟩ := List.exists_cons_of_ne_nil way.ne_nil
      subst inside
      rw [stride_name held deeper (by rintro _ ⟨⟩) short, Listing.passes, found]
      cases rights.enterable with
      | false => rfl
      | true =>
        rw [List.append_cons base name (second :: more)]
        exact ih deeper way

lemma follow_below (h : tree.follow false links here slashed steps = .ok ⟨base, slashed'⟩)
    (held : tree.node? base = some (.directory rights))
    (way : (tree.listing.under base).Reaches names node) (real : ∀ target, node ≠ .link target)
    (writing : Bool) : tree.follow writing links here false (steps ++ names.map .name) =
      if rights.enterable && (tree.listing.under base).passes names then .ok ⟨base ++ names, false⟩
      else .error .denied := by
  have some : tree.node? base ≠ none := by rw [held]; exact Option.some_ne_none _
  have further : names.map Step.name ≠ [] := by simpa using way.ne_nil
  obtain ⟨left, same⟩ := @follow_append _ _ _ writing _ _ _ _ _ h some further
  rw [same, follow, leg_names writing held way real]
  cases rights.enterable && (tree.listing.under base).passes names with
  | true => rfl
  | false => rfl

/-- A way that leads to a place, from the directory that its path starts in. -/
lemma resolve_eq_ok {target : Target} (h : tree.resolve writing path = .ok target) :
    0 ∉ path ∧ path.length ≤ maxPath ∧ path ≠ [] ∧
      tree.follow writing maxLinks (path.start tree.workingDirectory) path.endsInSlash path.steps =
        .ok target := by
  rw [resolve] at h
  split at h
  case isTrue => cases h
  split at h
  case isTrue => cases h
  split at h
  case isTrue => cases h
  case isFalse clean short solid => exact ⟨clean, Nat.not_lt.1 short, solid, h⟩

/-- Where the path of a place below a directory leads. -/
lemma resolve_below (resolved : tree.resolve false root = .ok ⟨base, slashed⟩)
    (held : tree.node? base = some (.directory rights))
    (way : (tree.listing.under base).Reaches names node) (real : ∀ target, node ≠ .link target)
    (writing : Bool) : tree.resolve writing (root.below names) =
      if maxPath < (root.below names).length then .error .nameTooLong
      else if rights.enterable && (tree.listing.under base).passes names then
        .ok ⟨base ++ names, false⟩
      else .error .denied := by
  obtain ⟨clean, -, given, h⟩ := resolve_eq_ok resolved
  have proper := way.isName (tree.named.under base)
  rw [resolve, if_neg (Path.nul_notMem_below clean proper), if_neg (Path.below_ne_nil given names),
    Path.start_below given, Path.endsInSlash_below root way.ne_nil proper,
    Path.steps_below root proper, follow_below h held way real]

/-- What the path of a place below a directory names. -/
lemma locate?_below (resolved : tree.resolve false root = .ok ⟨base, slashed⟩)
    (held : tree.node? base = some (.directory rights))
    (way : (tree.listing.under base).Reaches names node) (real : ∀ target, node ≠ .link target) :
    tree.locate? (root.below names) = some (base ++ names) := by
  obtain ⟨-, -, given, h⟩ := resolve_eq_ok resolved
  have proper := way.isName (tree.named.under base)
  have held' : tree.unlocked.node? base = some (.directory rights.unlock) := by
    rw [node?_unlocked, held]
    rfl
  have inner : tree.unlocked.listing.under base = (tree.listing.under base).map Node.unlock :=
    Listing.under_map base
  have real' : ∀ target, node.unlock ≠ .link target := by
    rintro target same
    cases node with
    | link target => exact real target rfl
    | file content access => cases same
    | directory rights => cases same
    | device content access => cases same
  have way' : (tree.unlocked.listing.under base).Reaches names node.unlock := by
    rw [inner]
    exact way.unlock
  have open' := follow_below (follow_unlocked h) held' way' real' false
  rw [inner, way.passes_unlock] at open'
  rw [locate?, Path.start_below given, Path.endsInSlash_below root way.ne_nil proper,
    Path.steps_below root proper, open']
  rfl

/-! ### Other trees of the same outline -/

lemma Alike.unlocked (h : Alike a b) : Alike a.unlocked b.unlocked := by
  have both : Node.outline ∘ Node.unlock = Node.unlock ∘ Node.outline := by
    funext node
    cases node <;> rfl
  have swap : ∀ tree : Tree, tree.unlocked.outline = tree.outline.unlocked := by
    intro tree
    simp only [Tree.unlocked, outline, Listing.map_map, both]
  rw [Alike, swap, swap, h]

lemma Alike.locate?_eq (h : Alike a b) (path : Path) : a.locate? path = b.locate? path := by
  have same : a.unlocked.outline = b.unlocked.outline := h.unlocked
  rw [locate?, locate?, ← follow_outline, same, follow_outline, h.workingDirectory_eq]

end Tree

end Rehome
