import WebApp.Routing.Pattern

/-!
# Trees of patterns

Patterns that begin alike share their beginnings.  A node has children that go on with
different bytes, the ones that more patterns go through first, and at most one child that
begins with a parameter.  A parameter is followed by one of several ends of its segment, the
longest first.
-/

namespace WebApp

/-- What a pattern leads to: a value, and the names of the parameters on the way. -/
structure Leaf (α : Type) where
  value : α
  names : List Bytes
deriving Inhabited, Repr

/-- What the label of a node stands for. -/
inductive NodeKind where
  | static
  | param
  | catchAll
deriving DecidableEq, Inhabited, Repr

/-- A node: the rest of the patterns that go through it begins with its label. -/
inductive Node (α : Type) where
  | node (kind : NodeKind) (priority : Nat) (label : List Mark) (leaf : Option (Leaf α))
      (statics : List (UInt8 × Node α)) (suffixes : List (Node α)) (wild : Option (Node α))

namespace Node

variable {α : Type}

def kind : Node α → NodeKind
  | .node kind _ _ _ _ _ _ => kind

def priority : Node α → Nat
  | .node _ priority _ _ _ _ _ => priority

def label : Node α → List Mark
  | .node _ _ label _ _ _ _ => label

def leaf : Node α → Option (Leaf α)
  | .node _ _ _ leaf _ _ _ => leaf

def statics : Node α → List (UInt8 × Node α)
  | .node _ _ _ _ statics _ _ => statics

def suffixes : Node α → List (Node α)
  | .node _ _ _ _ _ suffixes _ => suffixes

def wild : Node α → Option (Node α)
  | .node _ _ _ _ _ _ wild => wild

/-- A node without anything below it. -/
def bare (kind : NodeKind) (priority : Nat) (label : List Mark) : Node α :=
  .node kind priority label none [] [] none

def empty : Node α := bare .static 0 []

instance : Inhabited (Node α) := ⟨empty⟩

def withLabel (n : Node α) (label : List Mark) : Node α :=
  .node n.kind n.priority label n.leaf n.statics n.suffixes n.wild

def withLeaf (n : Node α) (leaf : Leaf α) : Node α :=
  .node n.kind n.priority n.label (some leaf) n.statics n.suffixes n.wild

def withStatics (n : Node α) (statics : List (UInt8 × Node α)) : Node α :=
  .node n.kind n.priority n.label n.leaf statics n.suffixes n.wild

def withSuffixes (n : Node α) (suffixes : List (Node α)) : Node α :=
  .node n.kind n.priority n.label n.leaf n.statics suffixes n.wild

def withWild (n : Node α) (wild : Node α) : Node α :=
  .node n.kind n.priority n.label n.leaf n.statics n.suffixes (some wild)

/-- One more pattern goes through the node. -/
def bump (n : Node α) : Node α :=
  .node n.kind (n.priority + 1) n.label n.leaf n.statics n.suffixes n.wild

/-- Whether there is nothing below the node. -/
def isBare (n : Node α) : Bool :=
  n.statics.isEmpty && n.suffixes.isEmpty && n.wild.isNone

/-- Cuts the label; what was below the node is then below the second part. -/
def cut (n : Node α) (length : Nat) : Node α :=
  match n.label.drop length with
  | [] => n
  | m :: rest =>
    let lower := .node .static (n.priority - 1) (m :: rest) n.leaf n.statics n.suffixes n.wild
    .node n.kind n.priority (n.label.take length) none [(m.byte, lower)] [] none

/-- How many marks two lists have in common at their beginning. -/
def common : List Mark → List Mark → Nat
  | a :: as, b :: bs => if a = b then common as bs + 1 else 0
  | _, _ => 0

/-- The length of the first segment with the slash that ends it. -/
def segment (marks : List Mark) : Nat :=
  min marks.length ((marks.takeWhile fun m => m.byte != 47).length + 1)

mutual

/-- The labels from a node down along first children, and the names at the last. -/
def firstPath (n : Node α) : List Mark × List Bytes :=
  match n with
  | .node _ _ label leaf statics suffixes wild =>
    let below :=
      match firstStatic statics with
      | some found => some found
      | none =>
        match firstSuffix suffixes with
        | some found => some found
        | none => firstWild wild
    match below with
    | some (labels, names) => (label ++ labels, names)
    | none => (label, (leaf.map Leaf.names).getD [])

def firstStatic (statics : List (UInt8 × Node α)) : Option (List Mark × List Bytes) :=
  match statics with
  | [] => none
  | (_, n) :: _ => some n.firstPath

def firstSuffix (suffixes : List (Node α)) : Option (List Mark × List Bytes) :=
  match suffixes with
  | [] => none
  | n :: _ => some n.firstPath

def firstWild (wild : Option (Node α)) : Option (List Mark × List Bytes) :=
  match wild with
  | none => none
  | some n => some n.firstPath

end

/-- The pattern that a new one conflicts with at a node, where `rest` is left of the new one. -/
def conflicting (route : Pattern) (rest : List Mark) (n : Node α) : InsertError :=
  if Mark.bytes rest = Mark.bytes n.label then
    route.conflict ((n.leaf.map Leaf.names).getD [])
  else
    let kept := route.marks.take (route.bytes.length - rest.length)
    let (labels, names) := n.firstPath
    let below := labels.drop n.label.length
    let upper :=
      if (Mark.bytes n.label).isSuffixOf (Mark.bytes kept) then kept else kept ++ n.label
    (Pattern.ofMarks (upper ++ below)).conflict names

/-- A node after an attempt to add a pattern, which may have failed. -/
abbrev Attempt (α : Type) := Option InsertError × Node α

theorem segment_pos {marks : List Mark} (h : marks ≠ []) : 0 < segment marks := by
  have := List.length_pos_iff.mpr h
  simp only [segment]
  omega

/-- What lies behind the first segment after some marks is shorter than the whole. -/
theorem length_drop_segment_lt {marks : List Mark} (h : marks ≠ []) (start : Nat) :
    ((marks.drop start).drop (segment (marks.drop start))).length < marks.length := by
  have hm := List.length_pos_iff.mpr h
  by_cases hd : marks.drop start = []
  · simpa [hd] using hm
  · have := segment_pos hd
    simp only [List.length_drop]
    omega

theorem ne_nil_of_findParam {rest : List Mark} {places : Nat × Nat}
    (h : findParam 0 rest = .ok (some places)) : rest ≠ [] := by
  rintro rfl
  simp [findParam] at h

mutual

/-- Puts the rest of a pattern into a node.  What comes before the first parameter is its label,
unless the parameter comes first. -/
def plant (leaf : Leaf α) (rest : List Mark) (n : Node α) : Attempt α :=
  match h : findParam 0 rest with
  | .error e => (some e, n)
  | .ok none => (none, (n.withLabel rest).withLeaf leaf)
  | .ok (some (start, stop)) =>
    let labelled := if start = 0 then n else n.withLabel (rest.take start)
    if rest[start + 1]?.map Mark.byte = some 42 then
      if stop = rest.length then
        (none, labelled.withWild ((bare .catchAll 1 (rest.drop start)).withLeaf leaf))
      else
        (some .catchAllInside, n)
    else
      let marks := rest.drop start
      let behind := marks.drop (segment marks)
      have := length_drop_segment_lt (ne_nil_of_findParam h) start
      let param := bare .param 1 (marks.take (stop - start))
      let suffix := (marks.take (segment marks)).drop (stop - start)
      match findParam 0 suffix with
      | .ok (some _) => (some .severalParams, labelled)
      | _ =>
        if suffix.isEmpty then
          let (e, param) := plantBelow leaf behind param
          (e, labelled.withWild param)
        else
          let (e, lower) := plantBelow leaf behind (bare .static 1 suffix)
          (e, labelled.withWild (param.withSuffixes [lower]))
termination_by 2 * rest.length
decreasing_by all_goals omega

/-- Puts the rest of a pattern below a node that has nothing below it that the rest could go
through. -/
def plantBelow (leaf : Leaf α) (rest : List Mark) (n : Node α) : Attempt α :=
  match rest with
  | [] => (none, n.withLeaf leaf)
  | m :: behind =>
    if m.opens then
      plant leaf (m :: behind) n
    else
      let (e, child) := plant leaf (m :: behind) (bare .static 1 [])
      (e, n.withStatics (n.statics ++ [(m.byte, child)]))
termination_by 2 * rest.length + 1

end

/-- Gives a child its place among those before it, of which the nearest comes first: in front of
the last ones that fewer patterns go through. -/
def advance (before : List (UInt8 × Node α)) (entry : UInt8 × Node α)
    (after : List (UInt8 × Node α)) : List (UInt8 × Node α) :=
  let isBehind := fun (other : UInt8 × Node α) => other.2.priority < entry.2.priority
  (before.dropWhile isBehind).reverse ++ entry :: ((before.takeWhile isBehind).reverse ++ after)

/-- The place behind the items that `p` holds of, where these come before all others.  It is found
by halving the `size` items from `base` on, and this decides between the places that there are when
the items are mixed. -/
def halvingPlace {β : Type} (p : β → Bool) (items : List β) (base size : Nat) : Nat :=
  if size ≤ 1 then
    if items[base]?.any p then base + 1 else base
  else
    let middle := base + size / 2
    halvingPlace p items (if items[middle]?.any p then middle else base) (size - size / 2)
termination_by size

/-- Gives a new end of a segment its place: behind those that are at least as long.  A label that
was cut leaves the ends out of order. -/
def placeSuffix (n : Node α) (suffixes : List (Node α)) : List (Node α) :=
  let isBefore := fun (other : Node α) => decide (n.label.length ≤ other.label.length)
  let place := halvingPlace isBefore suffixes 0 suffixes.length
  suffixes.take place ++ n :: suffixes.drop place

/-- Puts the rest of a pattern behind a parameter, where no end of a segment is its own. -/
def plantSuffix (leaf : Leaf α) (rest : List Mark) (n : Node α) : Attempt α :=
  let suffix := rest.take (segment rest)
  match findParam 0 suffix with
  | .ok (some _) => (some .severalParams, n)
  | _ =>
    let (e, child) := plantBelow leaf (rest.drop (segment rest)) (bare .static 1 suffix)
    (e, n.withSuffixes (placeSuffix child n.suffixes))

mutual

/-- Adds the rest of a pattern at a node, which one more pattern then goes through. -/
def insertAt (route : Pattern) (leaf : Leaf α) (rest : List Mark) (n : Node α) : Attempt α :=
  match n with
  | .node kind priority label held statics suffixes wild =>
    let n : Node α := .node kind (priority + 1) label held statics suffixes wild
    let shared := common rest label
    if shared < label.length then
      plantBelow leaf (rest.drop shared) (n.cut shared)
    else
      match rest.drop shared with
      | [] =>
        if held.isSome then (some (conflicting route rest n), n) else (none, n.withLeaf leaf)
      | next :: behind =>
        if kind = .param then
          match insertSuffixes route leaf (next :: behind) suffixes with
          | some (e, suffixes) => (e, n.withSuffixes suffixes)
          | none => plantSuffix leaf (next :: behind) n
        else if next.opens then
          match insertWild route leaf (next :: behind) wild with
          | some (e, wild) => (e, n.withWild wild)
          | none => plantBelow leaf (next :: behind) n
        else
          match insertStatics route leaf (next :: behind) next.byte [] statics with
          | some (e, statics) => (e, n.withStatics statics)
          | none => plantBelow leaf (next :: behind) n

/-- Adds the rest of a pattern at the end of a segment that it begins with. -/
def insertSuffixes (route : Pattern) (leaf : Leaf α) (rest : List Mark)
    (suffixes : List (Node α)) : Option (Option InsertError × List (Node α)) :=
  match suffixes with
  | [] => none
  | n :: others =>
    if Mark.bytes n.label = Mark.bytes (rest.take (segment rest)) then
      let (e, n) := n.insertAt route leaf rest
      some (e, n :: others)
    else
      (insertSuffixes route leaf rest others).map fun (e, others) => (e, n :: others)

/-- Adds the rest of a pattern at a parameter, which has to be the one that it begins with. -/
def insertWild (route : Pattern) (leaf : Leaf α) (rest : List Mark)
    (wild : Option (Node α)) : Option (Attempt α) :=
  match wild with
  | none => none
  | some n =>
    let width := n.label.length
    let differs := width ≤ rest.length ∧ Mark.bytes (rest.take width) ≠ Mark.bytes n.label
    if differs ∨ n.kind = .catchAll then
      some (some (conflicting route rest n), n.bump)
    else
      some (n.insertAt route leaf rest)

/-- Adds the rest of a pattern at the child that goes on with a byte.  `before` holds the children
that do not, the last first. -/
def insertStatics (route : Pattern) (leaf : Leaf α) (rest : List Mark) (byte : UInt8)
    (before statics : List (UInt8 × Node α)) :
    Option (Option InsertError × List (UInt8 × Node α)) :=
  match statics with
  | [] => none
  | (other, n) :: after =>
    if other = byte then
      let (e, n) := n.insertAt route leaf rest
      some (e, advance before (byte, n) after)
    else
      insertStatics route leaf rest byte ((other, n) :: before) after

end

/-- Adds a pattern.  An attempt that fails may leave cut labels behind. -/
def insert (n : Node α) (pattern : String) (value : α) : Attempt α :=
  match (Pattern.ofString pattern).normalize with
  | .error e => (some e, n)
  | .ok (route, names) =>
    let leaf : Leaf α := ⟨value, names⟩
    if n.label.isEmpty && n.isBare then
      plant leaf route.marks n.bump
    else
      n.insertAt route leaf route.marks

/-- The length of the first segment of a path with the slash that ends it, and whether there
is one. -/
def pathSegment (path : Bytes) : Nat × Bool :=
  let before := (path.takeWhile (· != 47)).length
  if before = path.length then (before, false) else (before + 1, true)

/-- The captures of a match by the names of the parameters. -/
def Found (α : Type) := α × List (Bytes × Bytes)

mutual

/-- Matches the rest of a path at a node.  `taken` holds what the parameters before have
taken, the last first. -/
def search (n : Node α) (path : Bytes) (taken : List Bytes) : Option (Found α) :=
  match n with
  | .node _ _ label leaf statics _ wild =>
    let width := label.length
    if path.length ≤ width then
      if path = Mark.bytes label then
        leaf.map fun l => (l.value, l.names.zip taken.reverse)
      else
        none
    else if path.take width = Mark.bytes label then
      let rest := path.drop width
      match searchStatics statics rest taken with
      | some found => some found
      | none => searchWild wild rest taken
    else
      none

/-- Matches the rest of a path at the child that goes on with its first byte. -/
def searchStatics (statics : List (UInt8 × Node α)) (path : Bytes) (taken : List Bytes) :
    Option (Found α) :=
  match statics with
  | [] => none
  | (byte, n) :: others =>
    if path.head? = some byte then n.search path taken else searchStatics others path taken

/-- Matches the rest of a path at a parameter. -/
def searchWild (wild : Option (Node α)) (path : Bytes) (taken : List Bytes) :
    Option (Found α) :=
  match wild with
  | none => none
  | some (.node kind _ label leaf _ suffixes _) =>
    match kind with
    | .catchAll =>
      leaf.map fun l =>
        (l.value, l.names.zip taken.reverse ++
          [(((Mark.bytes label).take (label.length - 1)).drop 2, path)])
    | _ =>
      let (width, ends) := pathSegment path
      if ends && width = 1 then none
      else
        match searchSuffixes suffixes path width taken with
        | some answer => answer
        | none =>
          if ends then none
          else leaf.map fun l => (l.value, l.names.zip (path :: taken).reverse)

/-- Matches the rest of a path behind a parameter: at the first end that its segment has.
No answer means that none fits. -/
def searchSuffixes (suffixes : List (Node α)) (path : Bytes) (width : Nat)
    (taken : List Bytes) : Option (Option (Found α)) :=
  match suffixes with
  | [] => none
  | n :: others =>
    let length := n.label.length
    if length < width ∧ (path.take width).drop (width - length) = Mark.bytes n.label then
      some (n.search (path.drop (width - length)) (path.take (width - length) :: taken))
    else
      searchSuffixes others path width taken

end

/-- Matches a path: the value of the pattern, and what its parameters have taken. -/
def lookup (n : Node α) (path : String) : Option (α × List (String × String)) :=
  (n.search (Utf8.encode path) []).map fun (value, captures) =>
    (value, captures.map fun (name, taken) =>
      (Utf8.decodeLenient name, Utf8.decodeLenient taken))

end Node

end WebApp
