import Mathlib.Tactic
import Mathlib.Data.List.TakeWhile
import WebApp.Routing.Router

/-!
# How routers are made

A router is made by calls that give it a tag, add a route, or nest another router, in any order and
to any depth.  A route gets the tags that its router has when it is added.  So it has all the tags
of its router, those of the routers on the way inside, and its own, unless a tag is given to a
router that has routes already.  Routers that are nested in one another add to the paths of the
innermost one what a single router would, whose base is theirs joined.
-/

namespace WebApp
namespace Router

universe u

variable {ε : Type u}

/-- The calls that make a router, with those that make the routers inside. -/
inductive Plan (ε : Type u) where
  | new (base : String)
  | tag (plan : Plan ε) (label : String)
  | route (plan : Plan ε) (method : Method) (path : String) (endpoint : ε) (tags : List String)
  | nest (plan inner : Plan ε)

namespace Plan

def router : Plan ε → Router ε
  | .new base => .new base
  | .tag plan label => plan.router.tag label
  | .route plan method path endpoint tags => plan.router.route method path endpoint tags
  | .nest plan inner => plan.router.nest inner.router

/-- The tags that are ever given to the router itself. -/
def given : Plan ε → List String
  | .new _ => []
  | .tag plan label => plan.given ++ [label]
  | .route plan _ _ _ _ => plan.given
  | .nest plan _ => plan.given

/-- For each route the tags ever given to the routers inside, from the outer to the inner one, and
then its own. -/
def inward : Plan ε → List (List String)
  | .new _ => []
  | .tag plan _ => plan.inward
  | .route plan _ _ _ tags => plan.inward ++ [tags]
  | .nest plan inner => plan.inward ++ inner.inward.map (inner.given ++ ·)

/-- For each route the tags ever given to the router, then those inside. -/
def owed (plan : Plan ε) : List (List String) :=
  plan.inward.map (plan.given ++ ·)

/-- The same, with only those tags of each router that were given before the route was added. -/
def earlier : Plan ε → List (List String)
  | .new _ => []
  | .tag plan _ => plan.earlier
  | .route plan _ _ _ tags => plan.earlier ++ [plan.given ++ tags]
  | .nest plan inner => plan.earlier ++ inner.earlier.map (plan.given ++ ·)

/-- Tags are given only to routers without routes. -/
def TagsFirst : Plan ε → Prop
  | .new _ => True
  | .tag plan _ => plan.TagsFirst ∧ plan.router.routes = []
  | .route plan _ _ _ _ => plan.TagsFirst
  | .nest plan inner => plan.TagsFirst ∧ inner.TagsFirst

end Plan

/-! ## Nesting -/

/-- A route as it is below the base of a router. -/
def adopt (r : Router ε) (route : Route ε) : Route ε :=
  { route with path := join r.base route.path, tags := r.tags ++ route.tags }

theorem foldl_add (r : Router ε) (routes : List (Route ε)) :
    routes.foldl add r = { r with routes := r.routes ++ routes.map r.adopt } := by
  induction routes generalizing r with
  | nil => simp
  | cons route rest ih =>
      rw [List.foldl_cons, ih, List.map_cons]
      simp [add, adopt]

theorem nest_eq (r other : Router ε) :
    r.nest other = { r with routes := r.routes ++ other.routes.map r.adopt } :=
  foldl_add r other.routes

namespace Plan

theorem tags_router (plan : Plan ε) : plan.router.tags = plan.given := by
  induction plan with
  | new base => rfl
  | tag plan label ih => simp [router, given, Router.tag, ih]
  | route plan method path endpoint tags ih => exact ih
  | nest plan inner ih _ =>
      rw [router, nest_eq]
      exact ih

/-! ## What the routes carry -/

theorem map_tags_router (plan : Plan ε) : plan.router.routes.map Route.tags = plan.earlier := by
  induction plan with
  | new base => rfl
  | tag plan label ih => exact ih
  | route plan method path endpoint tags ih =>
      simp [router, earlier, Router.route, add, ih, tags_router]
  | nest plan inner ih ihinner =>
      have hadopt : (inner.router.routes.map plan.router.adopt).map Route.tags =
          inner.earlier.map (plan.given ++ ·) := by
        rw [← ihinner, List.map_map, List.map_map]
        simp only [Function.comp_def, adopt, tags_router]
      rw [router, nest_eq, List.map_append, ih, hadopt, earlier]

theorem length_inward (plan : Plan ε) : plan.inward.length = plan.earlier.length := by
  induction plan with
  | new base => rfl
  | tag plan label ih => exact ih
  | route plan method path endpoint tags ih => simp [inward, earlier, ih]
  | nest plan inner ih ihinner => simp [inward, earlier, ih, ihinner]

theorem earlier_eq_nil_iff (plan : Plan ε) :
    plan.earlier = [] ↔ plan.router.routes = [] := by
  rw [← map_tags_router, List.map_eq_nil_iff]

/-! ## What they miss -/

/-- Tags that come late are all that a route misses. -/
theorem earlier_sublist_owed (plan : Plan ε) :
    List.Forall₂ List.Sublist plan.earlier plan.owed := by
  unfold owed
  induction plan with
  | new base => exact .nil
  | tag plan label ih =>
      rw [List.forall₂_map_right_iff] at ih ⊢
      refine ih.imp ?_
      intro tags inside hsublist
      rw [given, List.append_assoc]
      exact hsublist.trans ((List.sublist_append_right [label] inside).append_left plan.given)
  | route plan method path endpoint tags ih =>
      rw [earlier, inward, given, List.map_append]
      exact List.rel_append ih (.cons (List.Sublist.refl _) .nil)
  | nest plan inner ih ihinner =>
      rw [earlier, inward, given, List.map_append, List.map_map]
      refine List.rel_append ih ?_
      rw [List.forall₂_map_right_iff] at ihinner
      rw [List.forall₂_map_left_iff, List.forall₂_map_right_iff]
      exact ihinner.imp fun tags inside hsublist => hsublist.append_left plan.given

/-- A route misses a tag that comes after it. -/
theorem earlier_ne_owed_tag (plan : Plan ε) (label : String) (hroutes : plan.earlier ≠ []) :
    (plan.tag label).earlier ≠ (plan.tag label).owed := by
  intro heq
  have hsublist := plan.earlier_sublist_owed
  rw [earlier, owed, inward, given] at heq
  rw [owed] at hsublist
  cases hinward : plan.inward with
  | nil =>
      apply hroutes
      rw [← List.length_eq_zero_iff, ← length_inward, hinward, List.length_nil]
  | cons inside rest =>
      rw [hinward, List.map_cons] at heq hsublist
      rw [heq] at hsublist
      have hlength := (List.forall₂_cons.mp hsublist).1.length_le
      simp only [List.length_append, List.length_singleton] at hlength
      omega

theorem earlier_eq_owed_iff (plan : Plan ε) : plan.earlier = plan.owed ↔ plan.TagsFirst := by
  induction plan with
  | new base => simp [earlier, owed, inward, TagsFirst]
  | tag plan label ih =>
      rw [TagsFirst, ← ih, ← earlier_eq_nil_iff]
      by_cases hroutes : plan.earlier = []
      · have hinward : plan.inward = [] := by
          rw [← List.length_eq_zero_iff, length_inward, hroutes, List.length_nil]
        simp [earlier, owed, inward, hroutes, hinward]
      · simp [plan.earlier_ne_owed_tag label hroutes, hroutes]
  | route plan method path endpoint tags ih =>
      rw [TagsFirst, ← ih, earlier, owed, inward, given, List.map_append, owed]
      exact List.append_left_inj _
  | nest plan inner ih ihinner =>
      have hlength : plan.earlier.length = plan.owed.length := by
        rw [owed, List.length_map, length_inward]
      have howed : (plan.nest inner).owed = plan.owed ++ inner.owed.map (plan.given ++ ·) := by
        simp [owed, inward, given]
      rw [TagsFirst, ← ih, ← ihinner, howed, earlier]
      have hinjective : Function.Injective (List.map (plan.given ++ ·)) :=
        List.map_injective_iff.mpr (List.append_right_injective _)
      constructor
      · intro heq
        obtain ⟨hplan, hinside⟩ := List.append_inj heq hlength
        exact ⟨hplan, hinjective hinside⟩
      · rintro ⟨hplan, hinside⟩
        rw [hplan, hinside]

/-- Each route has the tags that its routers were given before it was added, in their order and the
outer ones first, and then its own.  So it lacks at most tags that came late; and all routes have
all tags exactly when no tag was given to a router that had routes. -/
theorem routes_tagged_iff (plan : Plan ε) :
    plan.router.routes.map Route.tags = plan.earlier ∧
    List.Forall₂ List.Sublist (plan.router.routes.map Route.tags) plan.owed ∧
    (plan.router.routes.map Route.tags = plan.owed ↔ plan.TagsFirst) := by
  rw [map_tags_router]
  exact ⟨rfl, plan.earlier_sublist_owed, plan.earlier_eq_owed_iff⟩

/-- A route that is there before the tag does not get it. -/
theorem routes_tagged_late :
    let plan : Plan Unit := .tag (.route (.new "/users") .get "/{id}" () ["read"]) "users"
    plan.router.routes.map Route.tags = [["read"]] ∧ plan.owed = [["users", "read"]] := by
  exact ⟨rfl, rfl⟩

end Plan

/-! ## Bases -/

theorem getLast?_trimSlashes (s : String) : (trimSlashes s).toList.getLast? ≠ some '/' := by
  rw [trimSlashes, String.toList_ofList, List.getLast?_reverse]
  intro hhead
  have := List.head?_dropWhile_not (· == '/') s.toList.reverse
  rw [hhead] at this
  simp at this

theorem trimSlashes_eq_self {s : String} (hlast : s.toList.getLast? ≠ some '/') :
    trimSlashes s = s := by
  have hdrop : s.toList.reverse.dropWhile (· == '/') = s.toList.reverse := by
    rw [List.dropWhile_eq_self_iff]
    intro hlength hslash
    apply hlast
    rw [← List.head?_reverse, List.head?_eq_getElem?, List.getElem?_eq_getElem hlength,
      beq_iff_eq.mp hslash]
  rw [trimSlashes, hdrop, List.reverse_reverse, String.ofList_toList]

/-- What a path adds to a base that is not empty. -/
def below (path : String) : String :=
  if path = "" ∨ path = "/" then ""
  else if path.toList.head? = some '/' then path
  else "/" ++ path

theorem join_empty (path : String) : join "" path = path := rfl

theorem join_of_ne_empty {base : String} (hbase : base ≠ "") (path : String) :
    join base path = base ++ below path := by
  simp only [join, below, String.isEmpty_iff, if_neg hbase, Bool.or_eq_true, beq_iff_eq]
  split
  next => exact String.append_empty.symm
  next =>
    split
    next => rfl
    next => exact String.append_assoc

theorem ne_slash_of_append {base : String} (hempty : base ≠ "") (hslash : base ≠ "/")
    (tail : String) : base ++ tail ≠ "/" := by
  intro heq
  have hlist : base.toList ++ tail.toList = ['/'] := by
    rw [← String.toList_append, heq]
    rfl
  rcases List.append_eq_singleton_iff.mp hlist with ⟨hnil, -⟩ | ⟨hone, -⟩
  · exact hempty (String.toList_inj.mp hnil)
  · exact hslash (String.toList_inj.mp hone)

theorem below_append {base : String} (hempty : base ≠ "") (hslash : base ≠ "/") (tail : String) :
    below (base ++ tail) = below base ++ tail := by
  have hwhole : ¬ (base ++ tail = "" ∨ base ++ tail = "/") := by
    rintro (hnil | hone)
    · exact hempty (String.append_eq_empty_iff.mp hnil).1
    · exact ne_slash_of_append hempty hslash tail hone
  have hhead : (base ++ tail).toList.head? = base.toList.head? := by
    rw [String.toList_append]
    exact List.head?_append_of_ne_nil _ (fun hnil => hempty (String.toList_inj.mp hnil))
  have hbase : ¬ (base = "" ∨ base = "/") := by
    rintro (hnil | hone)
    · exact hempty hnil
    · exact hslash hone
  rw [below, below, if_neg hwhole, if_neg hbase, hhead]
  split
  next => rfl
  next => exact String.append_assoc.symm

/-- A path that is joined to one base and then to another is joined to the two of them, joined. -/
theorem join_join {base : String} (hbase : base ≠ "/") (outer path : String) :
    join outer (join base path) = join (join outer base) path := by
  by_cases hempty : base = ""
  · subst hempty
    rw [join_empty]
    by_cases houter : outer = ""
    · rw [houter, join_empty, join_empty, join_empty]
    · rw [join_of_ne_empty houter "", below, if_pos (.inl rfl), String.append_empty]
  by_cases houter : outer = ""
  · rw [houter, join_empty, join_empty]
  have hjoined : outer ++ below base ≠ "" :=
    fun hnil => houter (String.append_eq_empty_iff.mp hnil).1
  calc join outer (join base path)
      = outer ++ below (base ++ below path) := by
        rw [join_of_ne_empty houter, join_of_ne_empty hempty]
    _ = outer ++ below base ++ below path := by
        rw [below_append hempty hbase, String.append_assoc]
    _ = join (join outer base) path := by
        rw [join_of_ne_empty houter base, join_of_ne_empty hjoined]

/-- Bases without slashes at their ends are joined to one without. -/
theorem getLast?_join {outer base : String} (houter : outer.toList.getLast? ≠ some '/')
    (hbase : base.toList.getLast? ≠ some '/') : (join outer base).toList.getLast? ≠ some '/' := by
  by_cases hempty : outer = ""
  · rwa [hempty, join_empty]
  rw [join_of_ne_empty hempty, below]
  split
  next => rwa [String.append_empty]
  next hne =>
    have hlast : ∀ front : List Char, (front ++ base.toList).getLast? = base.toList.getLast? := by
      intro front
      exact List.getLast?_append_of_ne_nil _
        (fun hnil => hne (.inl (String.toList_inj.mp hnil)))
    split
    next => rwa [String.toList_append, hlast]
    next => rwa [String.toList_append, String.toList_append, ← List.append_assoc, hlast]

/-- A route below a base and with tags before its own. -/
def placed (base : String) (tags : List String) (route : Route ε) : Route ε :=
  { route with
    path := if base = "" then route.path else base ++ below route.path
    tags := tags ++ route.tags }

theorem adopt_eq_placed (r : Router ε) : r.adopt = placed r.base r.tags := by
  funext route
  by_cases hempty : r.base = ""
  · rw [adopt, placed, if_pos hempty, hempty, join_empty]
  · rw [adopt, placed, if_neg hempty, join_of_ne_empty hempty]

/-! ## Nesting twice -/

/-- A router with this base and these tags. -/
def tagged (base : String) (tags : List String) : Router ε :=
  tags.foldl tag (.new base)

theorem foldl_tag (r : Router ε) (tags : List String) :
    tags.foldl tag r = { r with tags := r.tags ++ tags } := by
  induction tags generalizing r with
  | nil => simp
  | cons label rest ih =>
      rw [List.foldl_cons, ih]
      simp [tag]

theorem tagged_eq (base : String) (tags : List String) :
    (tagged base tags : Router ε) = { base := trimSlashes base, tags := tags } := by
  rw [tagged, foldl_tag]
  rfl

namespace Plan

theorem getLast?_base (plan : Plan ε) : plan.router.base.toList.getLast? ≠ some '/' := by
  induction plan with
  | new base => exact getLast?_trimSlashes base
  | tag plan label ih => exact ih
  | route plan method path endpoint tags ih => exact ih
  | nest plan inner ih _ =>
      rw [router, nest_eq]
      exact ih

/-- What a single router adds, whose base is those of two routers joined. -/
theorem routes_nest_tagged_join (outer inner : Plan ε) (tags : List String) (r : Router ε) :
    ((tagged (join outer.router.base inner.router.base) tags).nest r).routes =
      r.routes.map (placed (join outer.router.base inner.router.base) tags) := by
  have hbase := trimSlashes_eq_self (getLast?_join outer.getLast?_base inner.getLast?_base)
  rw [nest_eq, adopt_eq_placed, tagged_eq, hbase, List.nil_append]

/-- A router inside a router inside a router adds its routes to the outermost one as if it was
inside a single router instead, whose base is theirs joined and whose tags are theirs in a row. -/
theorem nest_nest (outer inner : Plan ε) (r : Router ε) :
    let single := tagged (join outer.router.base inner.router.base)
      (outer.router.tags ++ inner.router.tags)
    (outer.router.nest (inner.router.nest r)).routes =
      (outer.router.nest inner.router).routes ++ (single.nest r).routes := by
  intro single
  have hbase : inner.router.base ≠ "/" := by
    intro hslash
    apply inner.getLast?_base
    rw [hslash]
    rfl
  have hsingle : single = {
      base := join outer.router.base inner.router.base
      tags := outer.router.tags ++ inner.router.tags } := by
    rw [← trimSlashes_eq_self (getLast?_join outer.getLast?_base inner.getLast?_base)]
    exact tagged_eq _ _
  have hadopt : outer.router.adopt ∘ inner.router.adopt = single.adopt := by
    funext route
    simp only [Function.comp_apply, adopt, hsingle, join_join hbase, List.append_assoc]
  simp only [nest_eq, List.map_append, List.map_map, hadopt, List.append_assoc]
  rw [hsingle, List.nil_append]

end Plan

end Router
end WebApp
