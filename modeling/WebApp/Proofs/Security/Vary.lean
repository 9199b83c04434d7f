import Mathlib.Data.List.DropRight
import Mathlib.Tactic
import WebApp.Proofs.Http.Overlay
import WebApp.Security.Cors

/-!
# What caches are told

The fields named Vary list, separated by commas, what a response depends on besides its path.  A
response that echoes the origin of its request has to list the origin, or everything, and has to go
on listing what it did.  It is only the first of the fields that is looked at for the letters of
the name; a longer name that has them in it is taken for the origin, and when a name is added the
fields behind the first one are lost.
-/

namespace WebApp

theorem Text.occursIn_append {part : List Char} (before : List Char) {cs : List Char}
    (hoccurs : occursIn part cs = true) : occursIn part (before ++ cs) = true := by
  induction before with
  | nil => exact hoccurs
  | cons c before ih => rw [List.cons_append, occursIn, ih, Bool.or_true]

namespace Vary

/-- What may stand around a name in a list. -/
def isPad (c : Char) : Bool :=
  c = ' ' || c = '\t'

/-- The name in a piece of a list, in lower case. -/
def bare (piece : String) : String :=
  Text.fold (String.ofList ((piece.toList.dropWhile isPad).rdropWhile isPad))

/-- The names that a value lists. -/
def members (value : String) : List String :=
  ((Text.pieces ',' value).map bare).filter (· ≠ "")

/-- The names that the values of all fields list. -/
def listed (values : List String) : List String :=
  values.flatMap members

/-- Caches are told that the response depends on the origin, or on everything. -/
def Tells (values : List String) : Prop :=
  "origin" ∈ listed values ∨ "*" ∈ listed values

instance (values : List String) : Decidable (Tells values) :=
  inferInstanceAs (Decidable (_ ∨ _))

/-- The values after the origin of a request was echoed. -/
def varied : List String → List String
  | [] => ["Origin"]
  | first :: rest =>
    if Text.contains (Text.fold first) "origin" then first :: rest else [first ++ ", Origin"]

/-- Values with which an origin can be echoed: where the first one has the letters of the name in
it, the name itself is listed, or all names are; elsewhere the other values list nothing of their
own. -/
def Fits : List String → Prop
  | [] => True
  | first :: rest =>
    if Text.contains (Text.fold first) "origin" then
      Tells (first :: rest)
    else
      ∀ name ∈ listed rest, name = "origin" ∨ name ∈ members first

theorem listed_cons (first : String) (rest : List String) :
    listed (first :: rest) = members first ++ listed rest :=
  List.flatMap_cons

theorem members_origin : members "Origin" = ["origin"] := by
  decide

/-- The name that is added is listed behind those that were. -/
theorem members_append_origin (value : String) :
    members (value ++ ", Origin") = members value ++ ["origin"] := by
  have hchars : (value ++ ", Origin").toList = value.toList ++ ',' :: " Origin".toList := by
    rw [String.toList_append]
    rfl
  have hlast : (" Origin".toList.splitOn ',').map (bare ∘ String.ofList) = ["origin"] := by
    decide
  simp only [members, Text.pieces, hchars, List.splitOn_append_cons_self, List.map_append,
    List.map_map, List.filter_append, hlast]
  rfl

/-- The names that were listed still are, and the origin is, just with values that fit. -/
theorem varied_iff (values : List String) :
    (listed values ⊆ listed (varied values) ∧ Tells (varied values)) ↔ Fits values := by
  cases values with
  | nil => simp [varied, Fits, Tells, listed, members_origin]
  | cons first rest =>
      rw [varied, Fits]
      split
      next => exact and_iff_right (List.Subset.refl _)
      next =>
        have hnew : listed [first ++ ", Origin"] = members first ++ ["origin"] := by
          rw [listed_cons, members_append_origin, listed, List.flatMap_nil, List.append_nil]
        have htells : Tells [first ++ ", Origin"] := by
          left
          rw [hnew]
          exact List.mem_append_right _ (List.mem_singleton_self _)
        rw [and_iff_left htells, listed_cons, hnew, List.append_subset]
        constructor
        · intro hsubset name hname
          simpa [or_comm] using hsubset.2 hname
        · intro hrest
          refine ⟨List.subset_append_left _ _, fun name hname => ?_⟩
          simpa [or_comm] using hrest name hname

/-- After an origin was echoed the letters of the name are in the first value. -/
theorem exists_varied_eq_cons (values : List String) :
    ∃ first rest, varied values = first :: rest ∧
      Text.contains (Text.fold first) "origin" = true := by
  cases values with
  | nil => exact ⟨"Origin", [], rfl, by decide⟩
  | cons first rest =>
      rw [varied]
      split
      next hcontains => exact ⟨first, rest, rfl, hcontains⟩
      next =>
        have hlast : Text.occursIn "origin".toList (", Origin".toList.map Char.toLower) = true := by
          decide
        have hfold : (Text.fold (first ++ ", Origin")).toList =
            first.toList.map Char.toLower ++ ", Origin".toList.map Char.toLower := by
          rw [Text.fold, String.toList_append, List.map_append]
          exact String.toList_ofList
        refine ⟨first ++ ", Origin", [], rfl, ?_⟩
        rw [Text.contains, hfold]
        exact Text.occursIn_append _ hlast

theorem exists_mem_varied (values : List String) :
    ∃ value ∈ varied values, Text.contains (Text.fold value) "origin" = true := by
  obtain ⟨first, rest, hvaried, hcontains⟩ := exists_varied_eq_cons values
  exact ⟨first, hvaried ▸ List.mem_cons_self, hcontains⟩

end Vary

namespace Cors

/-- The fields that every response gets. -/
def controlled (c : Cors) (allowed : String) (h : Headers) : Headers :=
  let h := h.set "access-control-allow-origin" allowed
  let h := h.set "access-control-allow-methods" (String.intercalate ", " c.effectiveMethods)
  let h := h.set "access-control-allow-headers" (String.intercalate ", " c.effectiveHeaders)
  let h := if c.credentials then h.set "access-control-allow-credentials" "true" else h
  h.set "access-control-max-age" (toString c.maxAge)

/-- The names of these fields. -/
def controlledNames : List String :=
  ["access-control-allow-origin", "access-control-allow-methods", "access-control-allow-headers",
    "access-control-allow-credentials", "access-control-max-age"]

theorem decorate_eq (c : Cors) (origin : Option String) (h : Headers) :
    c.decorate origin h =
      if (c.grant origin).2 then varyByOrigin (c.controlled (c.grant origin).1 h)
      else c.controlled (c.grant origin).1 h :=
  rfl

/-- These fields with their values, in the order in which they are set. -/
def controlledFields (c : Cors) (allowed : String) : List (String × String) :=
  [("access-control-allow-origin", allowed),
    ("access-control-allow-methods", String.intercalate ", " c.effectiveMethods),
    ("access-control-allow-headers", String.intercalate ", " c.effectiveHeaders)] ++
  (if c.credentials then [("access-control-allow-credentials", "true")] else []) ++
  [("access-control-max-age", toString c.maxAge)]

theorem controlled_eq_setEach (c : Cors) (allowed : String) (h : Headers) :
    c.controlled allowed h = h.setEach (c.controlledFields allowed) := by
  unfold controlled controlledFields
  split <;> rfl

theorem names_controlledFields (c : Cors) (allowed : String) :
    ((c.controlledFields allowed).map Prod.fst).Sublist controlledNames := by
  unfold controlledFields controlledNames
  split
  next => exact List.Sublist.refl _
  next => simp

/-- Fields of some of these names, and one named Vary, differ in their names. -/
theorem pairwise_of_names {fields : List (String × String)}
    (hnames : (fields.map Prod.fst).Sublist (controlledNames ++ ["vary"])) :
    fields.Pairwise fun first second => Text.fold first.1 ≠ Text.fold second.1 := by
  have hdistinct : (controlledNames ++ ["vary"]).Pairwise fun first second =>
      Text.fold first ≠ Text.fold second := by decide
  have hfields := hdistinct.sublist hnames
  rwa [List.pairwise_map] at hfields

/-- The fields of other names are what they were. -/
theorem getAll_controlled (c : Cors) (allowed : String) (h : Headers) {name : String}
    (hname : ∀ other ∈ controlledNames, Text.fold name ≠ Text.fold other) :
    (c.controlled allowed h).getAll name = h.getAll name := by
  rw [controlled_eq_setEach]
  apply Headers.getAll_setEach_of_forall_ne
  intro field hfield
  exact hname field.1 ((c.names_controlledFields allowed).subset (List.mem_map_of_mem hfield))

theorem getAll_varyByOrigin (h : Headers) :
    (varyByOrigin h).getAll "vary" = Vary.varied (h.getAll "vary") := by
  rw [varyByOrigin, Headers.get?_eq_head?]
  cases hvalues : h.getAll "vary" with
  | nil => rw [List.head?_nil, Vary.varied, Headers.getAll_set, if_pos rfl]
  | cons first rest =>
      rw [List.head?_cons, Vary.varied]
      dsimp only
      split
      next => exact hvalues
      next => rw [Headers.getAll_set, if_pos rfl]

/-- The fields named Vary are what they were, unless an origin is echoed. -/
theorem getAll_vary_decorate (c : Cors) (origin : Option String) (h : Headers) :
    (c.decorate origin h).getAll "vary" =
      if (c.grant origin).2 then Vary.varied (h.getAll "vary") else h.getAll "vary" := by
  have hvary : ∀ other ∈ controlledNames, Text.fold "vary" ≠ Text.fold other := by decide
  rw [decorate_eq]
  split
  next => rw [getAll_varyByOrigin, getAll_controlled _ _ _ hvary]
  next => exact getAll_controlled _ _ _ hvary

/-! ## The property -/

/-- All that was listed before still is, and where the origin is echoed caches are told so, exactly
when the values fit or no origin is echoed. -/
theorem after_tells_iff (c : Cors) (request : Request) (response : Response) :
    let echoed := (c.grant (request.headers.get? "origin")).2 = true
    let before := response.headers.getAll "vary"
    let after := (c.after request response).headers.getAll "vary"
    (Vary.listed before ⊆ Vary.listed after ∧ (echoed → Vary.Tells after)) ↔
      (echoed → Vary.Fits before) := by
  intro echoed before after
  have hafter : after = if echoed then Vary.varied before else before :=
    getAll_vary_decorate c _ response.headers
  by_cases hechoed : echoed
  · rw [if_pos hechoed] at hafter
    simp only [hafter, hechoed, forall_const]
    exact Vary.varied_iff before
  · rw [if_neg hechoed] at hafter
    simp [hafter, hechoed]

/-- One site is allowed. -/
def allowingOne : Cors :=
  Cors.allowOrigin {} "https://a.example"

/-- A request from there. -/
def requestFromThere : Request :=
  { method := .get, path := "/", headers := .ofList [("Origin", "https://a.example")] }

/-- A response with these fields named Vary. -/
def varying (values : List String) : Response :=
  { Response.new .ok with headers := .ofList (values.map fun value => ("Vary", value)) }

/-- The second of two fields is lost; and a name with the letters in it hides the origin. -/
theorem after_loses_and_hides :
    (allowingOne.grant (requestFromThere.headers.get? "origin")).2 = true ∧
      ¬ Vary.listed ["Accept", "Accept-Language"] ⊆
        Vary.listed ((allowingOne.after requestFromThere
          (varying ["Accept", "Accept-Language"])).headers.getAll "vary") ∧
      ¬ Vary.Tells ((allowingOne.after requestFromThere
          (varying ["X-Origin-Id"])).headers.getAll "vary") := by
  decide

end Cors
end WebApp
