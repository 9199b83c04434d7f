import Mathlib.Tactic
import WebApp.Proofs.Routing.Entries

/-!
# The values in a tree of patterns

No pattern is added, and no path is matched, with an eye on the values.  A tree whose values are
replaced is the tree that the other values would have made, and it selects the same pattern for
every path.
-/

namespace WebApp

variable {α β : Type}

/-- The leaf with another value. -/
def Leaf.map (f : α → β) (l : Leaf α) : Leaf β :=
  ⟨f l.value, l.names⟩

namespace Node

mutual

/-- The tree with other values. -/
def map (f : α → β) (n : Node α) : Node β :=
  match n with
  | .node kind priority label leaf statics suffixes wild =>
    .node kind priority label (leaf.map (Leaf.map f)) (mapStatics f statics)
      (mapSuffixes f suffixes) (mapWild f wild)

def mapStatics (f : α → β) (statics : List (UInt8 × Node α)) : List (UInt8 × Node β) :=
  match statics with
  | [] => []
  | (byte, n) :: others => (byte, n.map f) :: mapStatics f others

def mapSuffixes (f : α → β) (suffixes : List (Node α)) : List (Node β) :=
  match suffixes with
  | [] => []
  | n :: others => n.map f :: mapSuffixes f others

def mapWild (f : α → β) (wild : Option (Node α)) : Option (Node β) :=
  match wild with
  | none => none
  | some n => some (n.map f)

end

section Parts

variable (f : α → β)

@[simp] theorem mapStatics_eq (statics : List (UInt8 × Node α)) :
    mapStatics f statics = statics.map fun entry => (entry.1, entry.2.map f) := by
  induction statics with
  | nil => rfl
  | cons entry others ih => rw [mapStatics, ih, List.map_cons]

@[simp] theorem mapSuffixes_eq (suffixes : List (Node α)) :
    mapSuffixes f suffixes = suffixes.map (map f) := by
  induction suffixes with
  | nil => rfl
  | cons n others ih => rw [mapSuffixes, ih, List.map_cons]

@[simp] theorem mapWild_eq (wild : Option (Node α)) : mapWild f wild = Option.map (map f) wild := by
  cases wild <;> rfl

variable (n : Node α)

@[simp] theorem kind_map : (n.map f).kind = n.kind := by
  cases n
  rfl

@[simp] theorem priority_map : (n.map f).priority = n.priority := by
  cases n
  rfl

@[simp] theorem label_map : (n.map f).label = n.label := by
  cases n
  rfl

@[simp] theorem leaf_map : (n.map f).leaf = n.leaf.map (Leaf.map f) := by
  cases n
  rfl

@[simp] theorem statics_map :
    (n.map f).statics = n.statics.map fun entry => (entry.1, entry.2.map f) := by
  cases n
  exact mapStatics_eq f _

@[simp] theorem suffixes_map : (n.map f).suffixes = n.suffixes.map (map f) := by
  cases n
  exact mapSuffixes_eq f _

@[simp] theorem wild_map : (n.map f).wild = n.wild.map (map f) := by
  cases n
  exact mapWild_eq f _

@[simp] theorem map_bare (kind : NodeKind) (priority : Nat) (label : List Mark) :
    (bare kind priority label : Node α).map f = bare kind priority label := rfl

@[simp] theorem map_withLabel (label : List Mark) :
    (n.withLabel label).map f = (n.map f).withLabel label := by
  cases n
  rfl

@[simp] theorem map_withLeaf (leaf : Leaf α) :
    (n.withLeaf leaf).map f = (n.map f).withLeaf (leaf.map f) := by
  cases n
  rfl

@[simp] theorem map_withStatics (statics : List (UInt8 × Node α)) :
    (n.withStatics statics).map f =
      (n.map f).withStatics (statics.map fun entry => (entry.1, entry.2.map f)) := by
  rw [← mapStatics_eq]
  cases n
  rfl

@[simp] theorem map_withSuffixes (suffixes : List (Node α)) :
    (n.withSuffixes suffixes).map f = (n.map f).withSuffixes (suffixes.map (map f)) := by
  rw [← mapSuffixes_eq]
  cases n
  rfl

@[simp] theorem map_withWild (wild : Node α) :
    (n.withWild wild).map f = (n.map f).withWild (wild.map f) := by
  cases n
  rfl

@[simp] theorem map_bump : n.bump.map f = (n.map f).bump := by
  cases n
  rfl

@[simp] theorem map_cut (length : Nat) : (n.cut length).map f = (n.map f).cut length := by
  cases n with
  | node kind priority label leaf statics suffixes wild =>
      simp only [cut, label_map]
      split
      next => rfl
      next => rfl

end Parts

mutual

theorem firstPath_map (f : α → β) (n : Node α) : (n.map f).firstPath = n.firstPath := by
  match n with
  | .node kind priority label leaf statics suffixes wild =>
      rw [map, firstPath, firstPath, firstStatic_map f statics, firstSuffix_map f suffixes,
        firstWild_map f wild]
      cases leaf <;> rfl
termination_by structural n

theorem firstStatic_map (f : α → β) (statics : List (UInt8 × Node α)) :
    firstStatic (mapStatics f statics) = firstStatic statics := by
  match statics with
  | [] => rfl
  | (_, n) :: _ => rw [mapStatics, firstStatic, firstStatic, firstPath_map f n]
termination_by structural statics

theorem firstSuffix_map (f : α → β) (suffixes : List (Node α)) :
    firstSuffix (mapSuffixes f suffixes) = firstSuffix suffixes := by
  match suffixes with
  | [] => rfl
  | n :: _ => rw [mapSuffixes, firstSuffix, firstSuffix, firstPath_map f n]
termination_by structural suffixes

theorem firstWild_map (f : α → β) (wild : Option (Node α)) :
    firstWild (mapWild f wild) = firstWild wild := by
  match wild with
  | none => rfl
  | some n => rw [mapWild, firstWild, firstWild, firstPath_map f n]
termination_by structural wild

end

theorem conflicting_map (f : α → β) (route : Pattern) (rest : List Mark) (n : Node α) :
    conflicting route rest (n.map f) = conflicting route rest n := by
  have hnames : ((n.map f).leaf.map Leaf.names).getD [] = (n.leaf.map Leaf.names).getD [] := by
    rw [leaf_map]
    cases n.leaf <;> rfl
  unfold conflicting
  rw [label_map, hnames, firstPath_map]

/-- The attempt with other values. -/
def mapAttempt (f : α → β) (attempt : Attempt α) : Attempt β :=
  (attempt.1, attempt.2.map f)

mutual

theorem plant_map (f : α → β) (leaf : Leaf α) (rest : List Mark) (n : Node α) :
    plant (leaf.map f) rest (n.map f) = mapAttempt f (plant leaf rest n) := by
  unfold plant
  split
  next => rfl
  next => simp [mapAttempt]
  next start stop hfind =>
    have hless := length_drop_segment_lt (ne_nil_of_findParam hfind) start
    have hlabelled : (if start = 0 then n else n.withLabel (rest.take start)).map f =
        if start = 0 then n.map f else (n.map f).withLabel (rest.take start) := by
      rw [apply_ite (map f), map_withLabel]
    have hbelow : ∀ kind label,
        plantBelow (leaf.map f) ((rest.drop start).drop (segment (rest.drop start)))
          (bare kind 1 label) = mapAttempt f (plantBelow leaf
            ((rest.drop start).drop (segment (rest.drop start))) (bare kind 1 label)) :=
      fun kind label => plantBelow_map f leaf _ (bare kind 1 label)
    dsimp only
    split
    · split
      next => simp [mapAttempt, hlabelled]
      next => rfl
    · split
      next => simp only [mapAttempt, hlabelled]
      next =>
        rw [hbelow, hbelow]
        split
        next => simp only [mapAttempt, map_withWild, hlabelled]
        next =>
          simp only [mapAttempt, map_withWild, map_withSuffixes, map_bare, List.map_cons,
            List.map_nil, hlabelled]
termination_by 2 * rest.length
decreasing_by all_goals omega

theorem plantBelow_map (f : α → β) (leaf : Leaf α) (rest : List Mark) (n : Node α) :
    plantBelow (leaf.map f) rest (n.map f) = mapAttempt f (plantBelow leaf rest n) := by
  match rest with
  | [] => simp [plantBelow, mapAttempt]
  | m :: behind =>
      rw [plantBelow, plantBelow]
      split
      next => exact plant_map f leaf (m :: behind) n
      next =>
        have hchild := plant_map f leaf (m :: behind) (bare .static 1 [])
        rw [map_bare] at hchild
        rw [hchild]
        simp [mapAttempt]
termination_by 2 * rest.length + 1

end

theorem halvingPlace_map {γ δ : Type} (g : γ → δ) (p : δ → Bool) (items : List γ)
    (base size : Nat) :
    halvingPlace p (items.map g) base size = halvingPlace (p ∘ g) items base size := by
  have hany : ∀ place : Nat, (items.map g)[place]?.any p = items[place]?.any (p ∘ g) := by
    intro place
    rw [List.getElem?_map, Option.any_map]
    rfl
  fun_induction halvingPlace (p ∘ g) items base size with
  | case1 base size hsize htaken => rw [halvingPlace, if_pos hsize, hany, if_pos htaken]
  | case2 base size hsize htaken => rw [halvingPlace, if_pos hsize, hany, if_neg htaken]
  | case3 base size hsize middle ih =>
      rw [halvingPlace, if_neg hsize]
      dsimp only
      rw [hany]
      exact ih

theorem placeSuffix_map (f : α → β) (n : Node α) (suffixes : List (Node α)) :
    placeSuffix (n.map f) (suffixes.map (map f)) = (placeSuffix n suffixes).map (map f) := by
  have hbefore : (fun other : Node β => decide ((n.map f).label.length ≤ other.label.length)) ∘
      map f = fun other : Node α => decide (n.label.length ≤ other.label.length) := by
    funext other
    simp
  unfold placeSuffix
  simp only [halvingPlace_map, hbefore, List.length_map, List.map_append, List.map_cons,
    List.map_take, List.map_drop]

theorem plantSuffix_map (f : α → β) (leaf : Leaf α) (rest : List Mark) (n : Node α) :
    plantSuffix (leaf.map f) rest (n.map f) = mapAttempt f (plantSuffix leaf rest n) := by
  have hbelow := plantBelow_map f leaf (rest.drop (segment rest))
    (bare .static 1 (rest.take (segment rest)))
  rw [map_bare] at hbelow
  unfold plantSuffix
  dsimp only
  split
  next => rfl
  next =>
    rw [hbelow]
    simp only [mapAttempt, map_withSuffixes, suffixes_map, placeSuffix_map]

theorem advance_map (f : α → β) (before : List (UInt8 × Node α)) (entry : UInt8 × Node α)
    (after : List (UInt8 × Node α)) :
    advance (mapStatics f before) (entry.1, entry.2.map f) (mapStatics f after) =
      mapStatics f (advance before entry after) := by
  simp [advance, List.takeWhile_map, List.dropWhile_map, Function.comp_def]

mutual

theorem insertAt_map (f : α → β) (route : Pattern) (leaf : Leaf α) (rest : List Mark)
    (n : Node α) :
    (n.map f).insertAt route (leaf.map f) rest = mapAttempt f (n.insertAt route leaf rest) := by
  match n with
  | .node kind priority label held statics suffixes wild =>
      have hbumped : node kind (priority + 1) label (held.map (Leaf.map f)) (mapStatics f statics)
          (mapSuffixes f suffixes) (mapWild f wild) =
          (node kind (priority + 1) label held statics suffixes wild).map f := by
        rw [map]
      rw [map, insertAt, insertAt, hbumped]
      generalize node kind (priority + 1) label held statics suffixes wild = n
      split
      next =>
        rw [← map_cut]
        exact plantBelow_map f leaf _ _
      next =>
        split
        next =>
          rw [Option.isSome_map, conflicting_map]
          split
          next => rfl
          next => simp only [mapAttempt, map_withLeaf]
        next next behind _ =>
          split
          next =>
            rw [insertSuffixes_map f route leaf (next :: behind) suffixes]
            cases insertSuffixes route leaf (next :: behind) suffixes with
            | some attempt => simp [mapAttempt]
            | none => exact plantSuffix_map f leaf (next :: behind) n
          next =>
            split
            next =>
              rw [insertWild_map f route leaf (next :: behind) wild]
              cases insertWild route leaf (next :: behind) wild with
              | some attempt => simp [mapAttempt]
              | none => exact plantBelow_map f leaf (next :: behind) n
            next =>
              have hstatics := insertStatics_map f route leaf (next :: behind) next.byte [] statics
              rw [mapStatics] at hstatics
              rw [hstatics]
              cases insertStatics route leaf (next :: behind) next.byte [] statics with
              | some attempt => simp [mapAttempt]
              | none => exact plantBelow_map f leaf (next :: behind) n
termination_by structural n

theorem insertSuffixes_map (f : α → β) (route : Pattern) (leaf : Leaf α) (rest : List Mark)
    (suffixes : List (Node α)) :
    insertSuffixes route (leaf.map f) rest (mapSuffixes f suffixes) =
      (insertSuffixes route leaf rest suffixes).map fun (e, suffixes) =>
        (e, mapSuffixes f suffixes) := by
  match suffixes with
  | [] => rfl
  | n :: others =>
      rw [mapSuffixes, insertSuffixes, insertSuffixes, label_map]
      split
      next =>
        rw [insertAt_map f route leaf rest n]
        rfl
      next =>
        rw [insertSuffixes_map f route leaf rest others, Option.map_map, Option.map_map]
        rfl
termination_by structural suffixes

theorem insertWild_map (f : α → β) (route : Pattern) (leaf : Leaf α) (rest : List Mark)
    (wild : Option (Node α)) :
    insertWild route (leaf.map f) rest (mapWild f wild) =
      (insertWild route leaf rest wild).map (mapAttempt f) := by
  match wild with
  | none => rfl
  | some n =>
      rw [mapWild, insertWild, insertWild, label_map, kind_map, conflicting_map]
      split
      next => simp [mapAttempt]
      next => rw [insertAt_map f route leaf rest n, Option.map_some]
termination_by structural wild

theorem insertStatics_map (f : α → β) (route : Pattern) (leaf : Leaf α) (rest : List Mark)
    (byte : UInt8) (before statics : List (UInt8 × Node α)) :
    insertStatics route (leaf.map f) rest byte (mapStatics f before) (mapStatics f statics) =
      (insertStatics route leaf rest byte before statics).map fun (e, statics) =>
        (e, mapStatics f statics) := by
  match statics with
  | [] => rfl
  | (other, n) :: after =>
      rw [mapStatics, insertStatics, insertStatics]
      split
      next =>
        rw [insertAt_map f route leaf rest n]
        simp only [mapAttempt, Option.map_some]
        rw [advance_map f before (byte, _) after]
      next => exact insertStatics_map f route leaf rest byte ((other, n) :: before) after
termination_by structural statics

end

/-- A pattern is added alike to trees that differ in their values. -/
theorem insert_map (f : α → β) (n : Node α) (pattern : String) (value : α) :
    (n.map f).insert pattern (f value) = mapAttempt f (n.insert pattern value) := by
  have hbare : (n.map f).isBare = n.isBare := by
    cases n
    simp [isBare]
  unfold insert
  split
  next => rfl
  next route names _ =>
    dsimp only
    rw [label_map, hbare]
    split
    next =>
      rw [← map_bump]
      exact plant_map f ⟨value, names⟩ route.marks n.bump
    next => exact insertAt_map f route ⟨value, names⟩ route.marks n

/-- Only the values that the tree holds matter. -/
def SameOn (f g : α → β) (held : List Mark → Leaf α → Prop) : Prop :=
  ∀ marks l, held marks l → f l.value = g l.value

mutual

theorem map_congr {f g : α → β} (n : Node α) (hsame : SameOn f g n.Holds) :
    n.map f = n.map g := by
  match n with
  | .node kind priority label leaf statics suffixes wild =>
      have hleaf : leaf.map (Leaf.map f) = leaf.map (Leaf.map g) := by
        cases leaf with
        | none => rfl
        | some l => simp [Leaf.map, hsame label l (.here rfl)]
      rw [map, map, hleaf,
        mapStatics_congr statics (fun entry hentry marks l hholds =>
          hsame _ l (.static hentry hholds)),
        mapSuffixes_congr suffixes (fun child hchild marks l hholds =>
          hsame _ l (.suffix hchild hholds)),
        mapWild_congr wild (fun child hchild marks l hholds => hsame _ l (.wild hchild hholds))]
termination_by structural n

theorem mapStatics_congr {f g : α → β} (statics : List (UInt8 × Node α))
    (hsame : ∀ entry ∈ statics, SameOn f g entry.2.Holds) :
    mapStatics f statics = mapStatics g statics := by
  match statics with
  | [] => rfl
  | (byte, n) :: others =>
      rw [List.forall_mem_cons] at hsame
      rw [mapStatics, mapStatics, map_congr n hsame.1, mapStatics_congr others hsame.2]
termination_by structural statics

theorem mapSuffixes_congr {f g : α → β} (suffixes : List (Node α))
    (hsame : ∀ child ∈ suffixes, SameOn f g child.Holds) :
    mapSuffixes f suffixes = mapSuffixes g suffixes := by
  match suffixes with
  | [] => rfl
  | n :: others =>
      rw [List.forall_mem_cons] at hsame
      rw [mapSuffixes, mapSuffixes, map_congr n hsame.1, mapSuffixes_congr others hsame.2]
termination_by structural suffixes

theorem mapWild_congr {f g : α → β} (wild : Option (Node α))
    (hsame : ∀ child, wild = some child → SameOn f g child.Holds) :
    mapWild f wild = mapWild g wild := by
  match wild with
  | none => rfl
  | some n => rw [mapWild, mapWild, map_congr n (hsame n rfl)]
termination_by structural wild

end

/-- What a tree holds whose values are replaced. -/
theorem exists_holds_of_map {f : α → β} {n : Node α} {marks : List Mark} {l : Leaf β}
    (hholds : (n.map f).Holds marks l) : ∃ l', n.Holds marks l' ∧ l = l'.map f := by
  generalize hmapped : n.map f = mapped at hholds
  induction hholds generalizing n with
  | here hleaf =>
      rw [← hmapped, leaf_map, Option.map_eq_some_iff] at hleaf
      obtain ⟨l', hleaf, rfl⟩ := hleaf
      rw [← hmapped, label_map]
      exact ⟨l', .here hleaf, rfl⟩
  | static hentry _ ih =>
      rw [← hmapped, statics_map, List.mem_map] at hentry
      obtain ⟨entry, hentry, rfl⟩ := hentry
      obtain ⟨l', hholds, rfl⟩ := ih rfl
      rw [← hmapped, label_map]
      exact ⟨l', .static hentry hholds, rfl⟩
  | suffix hchild _ ih =>
      rw [← hmapped, suffixes_map, List.mem_map] at hchild
      obtain ⟨child, hchild, rfl⟩ := hchild
      obtain ⟨l', hholds, rfl⟩ := ih rfl
      rw [← hmapped, label_map]
      exact ⟨l', .suffix hchild hholds, rfl⟩
  | wild hwild _ ih =>
      rw [← hmapped, wild_map, Option.map_eq_some_iff] at hwild
      obtain ⟨child, hwild, rfl⟩ := hwild
      obtain ⟨l', hholds, rfl⟩ := ih rfl
      rw [← hmapped, label_map]
      exact ⟨l', .wild hwild hholds, rfl⟩

/-- What is found with another value. -/
def mapFound (f : α → β) (found : Found α) : Found β :=
  (f found.1, found.2)

mutual

theorem search_map (f : α → β) (n : Node α) (path : Bytes) (taken : List Bytes) :
    (n.map f).search path taken = (n.search path taken).map (mapFound f) := by
  match n with
  | .node kind priority label leaf statics suffixes wild =>
      rw [map, search, search]
      dsimp only
      split
      · split
        · cases leaf <;> rfl
        · rfl
      · split
        · rw [searchStatics_map f statics]
          cases searchStatics statics (path.drop label.length) taken with
          | some found => rfl
          | none => exact searchWild_map f wild _ _
        · rfl
termination_by structural n

theorem searchStatics_map (f : α → β) (statics : List (UInt8 × Node α)) (path : Bytes)
    (taken : List Bytes) :
    searchStatics (mapStatics f statics) path taken =
      (searchStatics statics path taken).map (mapFound f) := by
  match statics with
  | [] => rfl
  | (byte, n) :: others =>
      rw [mapStatics, searchStatics, searchStatics]
      split
      · exact search_map f n path taken
      · exact searchStatics_map f others path taken
termination_by structural statics

theorem searchWild_map (f : α → β) (wild : Option (Node α)) (path : Bytes)
    (taken : List Bytes) :
    searchWild (mapWild f wild) path taken = (searchWild wild path taken).map (mapFound f) := by
  match wild with
  | none => rfl
  | some (.node kind _ label leaf _ suffixes _) =>
      rw [mapWild, map]
      simp only [searchWild]
      split
      next => cases leaf <;> rfl
      next =>
        split
        next => rfl
        next =>
          rw [searchSuffixes_map f suffixes path (pathSegment path).1 taken]
          cases searchSuffixes suffixes path (pathSegment path).1 taken with
          | some answer => rfl
          | none =>
              dsimp only [Option.map_none]
              split
              · rfl
              · cases leaf <;> rfl
termination_by structural wild

theorem searchSuffixes_map (f : α → β) (suffixes : List (Node α)) (path : Bytes) (width : Nat)
    (taken : List Bytes) :
    searchSuffixes (mapSuffixes f suffixes) path width taken =
      (searchSuffixes suffixes path width taken).map (Option.map (mapFound f)) := by
  match suffixes with
  | [] => rfl
  | n :: others =>
      rw [mapSuffixes, searchSuffixes, searchSuffixes, label_map]
      split
      · rw [search_map f n, Option.map_some]
      · exact searchSuffixes_map f others path width taken
termination_by structural suffixes

end

/-- What is found is the value of a leaf that the tree holds. -/
def Finds (held : List Mark → Leaf α → Prop) (found : Found α) : Prop :=
  ∃ marks l, held marks l ∧ found.1 = l.value

mutual

theorem search_finds (n : Node α) (path : Bytes) (taken : List Bytes) {found : Found α}
    (hfound : n.search path taken = some found) : Finds n.Holds found := by
  match n with
  | .node kind priority label leaf statics suffixes wild =>
      rw [search] at hfound
      dsimp only at hfound
      split at hfound
      · split at hfound
        · obtain ⟨l, hleaf, rfl⟩ := Option.map_eq_some_iff.mp hfound
          exact ⟨label, l, .here hleaf, rfl⟩
        · simp at hfound
      · split at hfound
        · split at hfound
          next hstatics =>
            obtain ⟨entry, hentry, marks, l, hholds, hvalue⟩ :=
              searchStatics_finds statics _ taken hstatics
            rw [Option.some.injEq] at hfound
            exact ⟨_, l, .static hentry hholds, hfound ▸ hvalue⟩
          next =>
            obtain ⟨child, hwild, marks, l, hholds, hvalue⟩ :=
              searchWild_finds wild _ taken hfound
            exact ⟨_, l, .wild hwild hholds, hvalue⟩
        · simp at hfound
termination_by structural n

theorem searchStatics_finds (statics : List (UInt8 × Node α)) (path : Bytes)
    (taken : List Bytes) {found : Found α}
    (hfound : searchStatics statics path taken = some found) :
    ∃ entry ∈ statics, Finds entry.2.Holds found := by
  match statics with
  | [] => simp [searchStatics] at hfound
  | (byte, n) :: others =>
      rw [searchStatics] at hfound
      split at hfound
      · exact ⟨(byte, n), List.mem_cons_self .., search_finds n path taken hfound⟩
      · obtain ⟨entry, hentry, hfinds⟩ := searchStatics_finds others path taken hfound
        exact ⟨entry, List.mem_cons_of_mem _ hentry, hfinds⟩
termination_by structural statics

theorem searchWild_finds (wild : Option (Node α)) (path : Bytes) (taken : List Bytes)
    {found : Found α} (hfound : searchWild wild path taken = some found) :
    ∃ child, wild = some child ∧ Finds child.Holds found := by
  match wild with
  | none => simp [searchWild] at hfound
  | some (.node kind priority label leaf statics suffixes below) =>
      refine ⟨_, rfl, ?_⟩
      simp only [searchWild] at hfound
      split at hfound
      · obtain ⟨l, hleaf, rfl⟩ := Option.map_eq_some_iff.mp hfound
        exact ⟨label, l, .here hleaf, rfl⟩
      · split at hfound
        · simp at hfound
        · split at hfound
          next answer hanswer =>
            obtain ⟨child, hchild, marks, l, hholds, hvalue⟩ :=
              searchSuffixes_finds suffixes path _ taken (hfound ▸ hanswer)
            exact ⟨_, l, .suffix hchild hholds, hvalue⟩
          next =>
            split at hfound
            · simp at hfound
            · obtain ⟨l, hleaf, rfl⟩ := Option.map_eq_some_iff.mp hfound
              exact ⟨label, l, .here hleaf, rfl⟩
termination_by structural wild

theorem searchSuffixes_finds (suffixes : List (Node α)) (path : Bytes) (width : Nat)
    (taken : List Bytes) {found : Found α}
    (hfound : searchSuffixes suffixes path width taken = some (some found)) :
    ∃ child ∈ suffixes, Finds child.Holds found := by
  match suffixes with
  | [] => simp [searchSuffixes] at hfound
  | n :: others =>
      rw [searchSuffixes] at hfound
      split at hfound
      · rw [Option.some.injEq] at hfound
        exact ⟨n, List.mem_cons_self .., search_finds n _ _ hfound⟩
      · obtain ⟨child, hchild, hfinds⟩ := searchSuffixes_finds others path width taken hfound
        exact ⟨child, List.mem_cons_of_mem _ hchild, hfinds⟩
termination_by structural suffixes

end

/-- A path is matched alike in trees that differ in their values. -/
theorem lookup_map (f : α → β) (n : Node α) (path : String) :
    (n.map f).lookup path = (n.lookup path).map fun found => (f found.1, found.2) := by
  rw [lookup, lookup, search_map, Option.map_map, Option.map_map]
  rfl

end Node
end WebApp
