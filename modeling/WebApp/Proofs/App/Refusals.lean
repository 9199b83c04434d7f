import Mathlib.Tactic
import WebApp.Proofs.App.ImplicitOptions
import WebApp.Proofs.Routing.Layouts

/-!
# Refused registrations

A registration that is refused leaves the routes and their places as they are, and touches no tree
but the one of its method.  What else can be seen of it later depends on why it was refused.  If the
route is there already, or its path is malformed, nothing can be seen.  If it conflicts with another
route, it counts as one more pattern that went through the tree, and a later conflict may be told
with the name of another pattern.  A path that is refused only when a part of it has been added
leaves this part behind, and a later path may not be accepted, or not be found, because of it.
-/

namespace WebApp

universe u

/-- The error with another account of its reason. -/
def RegistryError.retold (tell : InsertError → InsertError) : RegistryError → RegistryError
  | .duplicate method path => .duplicate method path
  | .invalidPath method path reason => .invalidPath method path (tell reason)

theorem RegistryError.retold_id (e : RegistryError) : e.retold id = e := by
  cases e <;> rfl

/-- Whether another route is in the way. -/
def RegistryError.isConflict : RegistryError → Bool
  | .duplicate _ _ => false
  | .invalidPath _ _ reason => reason.isConflict

/-- A way to look at trees that tells apart all that match paths in different ways, and all that can
be told apart after patterns are added. -/
structure View (β : Type) where
  see : Node Nat → β
  tell : InsertError → InsertError
  insert : ∀ {n n'}, see n = see n' → ∀ pattern place,
    (n.insert pattern place).1.map tell = (n'.insert pattern place).1.map tell ∧
      see (n.insert pattern place).2 = see (n'.insert pattern place).2
  lookup : ∀ {n n'}, see n = see n' → ∀ path, n.lookup path = n'.lookup path

namespace View

/-- All of the tree, and the whole of its errors. -/
def whole : View (Node Nat) where
  see := id
  tell := id
  insert := by
    rintro n n' rfl pattern place
    exact ⟨rfl, rfl⟩
  lookup := by
    rintro n n' rfl path
    rfl

/-- The layout of the tree, and its errors but for the pattern that is named in a conflict. -/
def layout : View (Layout Nat) where
  see := Node.layout
  tell := InsertError.unnamed
  insert hlayout pattern place := Node.outline_eq_iff.mp (Node.insert_alike hlayout pattern place)
  lookup hlayout path := Node.lookup_alike hlayout path

end View

namespace App

variable {m : Type → Type u} {β : Type} {view : View β}

/-- Two applications that differ at most in their trees, and in these not to the view. -/
structure Twins (view : View β) (app other : App m) : Prop where
  eq_with_table : other = { app with table := other.table }
  see_tree : ∀ method, view.see (app.table.tree method) = view.see (other.table.tree method)

theorem twins_self (app : App m) : Twins view app app where
  eq_with_table := rfl
  see_tree _ := rfl

/-- Why the route was not added: it was there, or the tree refused its path. -/
theorem insert_some {app : App m} {entry : RouteEntry m} {e : RegistryError}
    (he : (app.insert entry).1 = some e) :
    (e = .duplicate entry.method entry.path ∧ (app.insert entry).2 = app) ∨
    ∃ reason, e = .invalidPath entry.method entry.path reason ∧
      ((app.table.tree entry.method).insert entry.path app.routes.length).1 = some reason ∧
      (app.insert entry).2 =
        { app with table := (app.table.insert entry.method entry.path app.routes.length).2 } := by
  unfold App.insert at he ⊢
  split at he
  next =>
    split at he
    next htaken =>
      rw [if_pos htaken]
      exact .inl ⟨(Option.some.inj he).symm, rfl⟩
    next => simp at he
  next =>
    dsimp only at he ⊢
    split at he
    next reason table hinsert =>
      rw [hinsert]
      refine .inr ⟨reason, (Option.some.inj he).symm, ?_, rfl⟩
      rw [← RouteTable.insert_fst, hinsert]
    next => simp at he

/-- Two outcomes that differ at most in the pattern that is named in a conflict.  Where a call would
succeed otherwise, it may end because a conflict of the implicit route cannot be told. -/
def Agree (e e' : Option RegistryError) : Prop :=
  e.map (RegistryError.retold .unnamed) = e'.map (RegistryError.retold .unnamed) ∨
    e.all RegistryError.isFatal = true ∧ e'.all RegistryError.isFatal = true

section Step

variable {app other : App m}

theorem Twins.place?_eq (htwins : Twins view app other) (method : Method) (path : String) :
    other.place? method path = app.place? method path := by
  rw [htwins.eq_with_table]
  rfl

theorem Twins.routes_eq (htwins : Twins view app other) : other.routes = app.routes := by
  rw [htwins.eq_with_table]

theorem Twins.lookup_eq (htwins : Twins view app other) (method : Method) (path : String) :
    app.table.lookup method path = other.table.lookup method path := by
  rw [RouteTable.lookup_eq, RouteTable.lookup_eq, view.lookup (htwins.see_tree method)]

/-- An attempt to add a pattern to the tables of two twins. -/
theorem Twins.insert_table (htwins : Twins view app other) (method : Method) (path : String)
    (place : Nat) :
    (app.table.insert method path place).1.map view.tell =
        (other.table.insert method path place).1.map view.tell ∧
      ∀ method', view.see ((app.table.insert method path place).2.tree method') =
        view.see ((other.table.insert method path place).2.tree method') := by
  obtain ⟨he, hsee⟩ := view.insert (htwins.see_tree method) path place
  refine ⟨he, fun method' => ?_⟩
  rw [RouteTable.tree_insert, RouteTable.tree_insert]
  split
  next => exact hsee
  next => exact htwins.see_tree method'

theorem twins_of_insert {method : Method} {path : String} {place : Nat}
    (hsee : view.see (app.table.tree method) =
      view.see ((app.table.tree method).insert path place).2) :
    Twins view app { app with table := (app.table.insert method path place).2 } where
  eq_with_table := rfl
  see_tree method' := by
    rw [RouteTable.tree_insert]
    split
    next hmethod => rw [hmethod, hsee]
    next => rfl

theorem Twins.insert (htwins : Twins view app other) (entry : RouteEntry m) :
    (app.insert entry).1.map (RegistryError.retold view.tell) =
        (other.insert entry).1.map (RegistryError.retold view.tell) ∧
      Twins view (app.insert entry).2 (other.insert entry).2 := by
  obtain ⟨he, hsee⟩ := htwins.insert_table entry.method entry.path app.routes.length
  unfold App.insert
  rw [htwins.place?_eq, htwins.routes_eq]
  split
  next =>
    split
    next => exact ⟨rfl, htwins⟩
    next => exact ⟨rfl, by rw [htwins.eq_with_table], htwins.see_tree⟩
  next =>
    dsimp only
    generalize app.table.insert entry.method entry.path app.routes.length = attempt at he hsee ⊢
    generalize other.table.insert entry.method entry.path app.routes.length = attempt' at he hsee ⊢
    obtain ⟨e, table⟩ := attempt
    obtain ⟨e', table'⟩ := attempt'
    cases e with
    | none =>
        cases e' with
        | none => exact ⟨rfl, by rw [htwins.eq_with_table], hsee⟩
        | some reason' => simp at he
    | some reason =>
        cases e' with
        | none => simp at he
        | some reason' =>
            rw [Option.map_some, Option.map_some, Option.some.injEq] at he
            refine ⟨?_, by rw [htwins.eq_with_table], hsee⟩
            rw [Option.map_some, Option.map_some, RegistryError.retold, RegistryError.retold, he]

theorem Twins.insertOptions [Monad m] (htwins : Twins view app other) (method : Method)
    (path : String) :
    (app.insertOptions method path).1.map (RegistryError.retold view.tell) =
        (other.insertOptions method path).1.map (RegistryError.retold view.tell) ∧
      Twins view (app.insertOptions method path).2 (other.insertOptions method path).2 := by
  unfold App.insertOptions
  rw [htwins.place?_eq]
  split
  next => exact htwins.insert _
  next => exact ⟨rfl, htwins⟩

/-- A call fails when the route cannot be added, or when it cannot go on behind the attempt to add
the implicit one. -/
theorem register_fst [Monad m] (route : Route (Endpoint m)) :
    (app.register route).1 = (app.insert (entryOf route)).1.or
      (((app.insert (entryOf route)).2.insertOptions route.method route.path).1.filter
        RegistryError.isFatal) := by
  unfold App.register
  dsimp only
  split
  next e failed heq =>
    rw [entryOf, heq]
    rfl
  next added heq =>
    rw [entryOf, heq]
    dsimp only
    split
    next hfatal => rw [hfatal]; rfl
    next hfatal => rw [hfatal]; rfl

theorem Twins.register [Monad m] (htwins : Twins view app other) (route : Route (Endpoint m)) :
    Twins view (app.register route).2.1 (other.register route).2.1 := by
  obtain ⟨he, hinsert⟩ := htwins.insert (entryOf route)
  by_cases hnone : (app.insert (entryOf route)).1 = none
  · have hnone' : (other.insert (entryOf route)).1 = none := by
      rwa [hnone, Option.map_none, eq_comm, Option.map_eq_none_iff] at he
    rw [register_of_accepted hnone, register_of_accepted hnone']
    exact (hinsert.insertOptions _ _).2
  · have hsome : (other.insert (entryOf route)).1 ≠ none := by
      intro hnone'
      rw [hnone', Option.map_none, Option.map_eq_none_iff] at he
      exact hnone he
    rw [(register_of_refused hnone).2, (register_of_refused hsome).2]
    exact hinsert

theorem Twins.registerEach [Monad m] (htwins : Twins view app other)
    (later : List (Route (Endpoint m))) :
    Twins view (app.registerEach later) (other.registerEach later) := by
  induction later generalizing app other with
  | nil => exact htwins
  | cons route later ih => exact ih (htwins.register route)

theorem Twins.register_eq [Monad m] (htwins : Twins View.whole app other)
    (route : Route (Endpoint m)) : (app.register route).1 = (other.register route).1 := by
  have hretold : RegistryError.retold View.whole.tell = id := funext RegistryError.retold_id
  obtain ⟨he, hinsert⟩ := htwins.insert (entryOf route)
  obtain ⟨hskipped, -⟩ := hinsert.insertOptions route.method route.path
  rw [hretold, Option.map_id, id, id] at he hskipped
  rw [register_fst, register_fst, he, hskipped]

theorem Twins.agree [Monad m] (htwins : Twins View.layout app other)
    (route : Route (Endpoint m)) : Agree (app.register route).1 (other.register route).1 := by
  obtain ⟨he, -⟩ := htwins.insert (entryOf route)
  rw [register_fst, register_fst]
  cases hadded : (app.insert (entryOf route)).1 with
  | some e =>
      rw [hadded, Option.map_some, eq_comm, Option.map_eq_some_iff] at he
      obtain ⟨e', hadded', hsame⟩ := he
      rw [hadded', Option.some_or, Option.some_or]
      exact .inl (congrArg some hsame.symm)
  | none =>
      rw [hadded, Option.map_none, eq_comm, Option.map_eq_none_iff] at he
      rw [he, Option.none_or, Option.none_or]
      have hfatal : ∀ skipped : Option RegistryError,
          (skipped.filter RegistryError.isFatal).all RegistryError.isFatal = true := by
        intro skipped
        rw [Option.all_eq_true]
        exact fun e he => (Option.filter_eq_some_iff.mp he).2
      exact .inr ⟨hfatal _, hfatal _⟩

end Step

/-! ## What can be seen of two applications -/

section Seen

variable [Monad m] [Reports m] [Tasks m]

/-- Side by side, two applications have the same routes, run requests in the same way, and decide
alike on the next route. -/
structure SeenAlike (agree : Option RegistryError → Option RegistryError → Prop)
    (app other : App m) : Prop where
  routes : app.routes = other.routes
  dispatcher? : ∀ method path, app.dispatcher? method path = other.dispatcher? method path
  lookup : ∀ method path, app.table.lookup method path = other.table.lookup method path
  handle : ∀ request, app.handle request = other.handle request
  register : ∀ route, agree (app.register route).1 (other.register route).1

/-- Two applications that cannot be told apart, whatever is registered later. -/
def Indistinct (agree : Option RegistryError → Option RegistryError → Prop)
    (app other : App m) : Prop :=
  ∀ later, SeenAlike agree (app.registerEach later) (other.registerEach later)

variable {app other : App m}

theorem Twins.indistinct {agree : Option RegistryError → Option RegistryError → Prop}
    (htwins : Twins view app other)
    (hagree : ∀ {app other : App m}, Twins view app other →
      ∀ route, agree (app.register route).1 (other.register route).1) :
    Indistinct agree app other := by
  intro later
  have hlater := htwins.registerEach later
  exact {
    routes := hlater.routes_eq.symm
    dispatcher? := fun method path => by
      rw [dispatcher?, dispatcher?, find?, find?, hlater.place?_eq, hlater.routes_eq,
        hlater.eq_with_table]
    lookup := hlater.lookup_eq
    handle := fun request => by
      rw [App.handle, App.handle, hlater.lookup_eq, hlater.routes_eq, App.notFound, App.notFound,
        hlater.eq_with_table]
    register := hagree hlater }

/-- What can be seen of a registration that is refused.  The routes, their places and the trees of
other methods stay as they are.  If the route is there already, or its path is malformed, nothing
can be seen of it later.  If it conflicts with another route, or leaves the layout of the tree as it
was for another reason, nothing but the pattern that a later conflict is told with.  In any case the
trees hold what they held, unless the only route of the method is the one of the empty path. -/
theorem register_refused_indistinct {route : Route (Endpoint m)} {e : RegistryError}
    (hrefused : (app.register route).1 = some e) (hgoes : e.isFatal = false) :
    (app.register route).2.1 = { app with table := (app.register route).2.1.table } ∧
    (∀ method ≠ route.method,
      (app.register route).2.1.table.tree method = app.table.tree method) ∧
    (e = .duplicate route.method route.path ∨
        (∃ reason, (Pattern.ofString route.path).normalize = .error reason) →
      Indistinct (· = ·) app (app.register route).2.1) ∧
    (e.isConflict = true ∨ ((app.register route).2.1.table.tree route.method).layout =
        (app.table.tree route.method).layout →
      Indistinct Agree app (app.register route).2.1) ∧
    (((app.table.tree route.method).label = [] → (app.table.tree route.method).isBare = true →
        (app.table.tree route.method).leaf = none) →
      ∀ marks l, ((app.register route).2.1.table.tree route.method).Holds marks l ↔
        (app.table.tree route.method).Holds marks l) := by
  have hadded : (app.insert (entryOf route)).1 = some e := by
    rw [register_fst, Option.or_eq_some_iff] at hrefused
    rcases hrefused with hadded | ⟨-, hskipped⟩
    · exact hadded
    · rw [(Option.filter_eq_some_iff.mp hskipped).2] at hgoes
      exact absurd hgoes (by simp)
  rw [(register_of_refused (by rw [hadded]; simp)).2]
  rcases insert_some hadded with ⟨rfl, hafter⟩ | ⟨reason, rfl, hreason, hafter⟩
  · rw [hafter]
    exact ⟨rfl, fun _ _ => rfl, fun _ => app.twins_self.indistinct Twins.register_eq,
      fun _ => app.twins_self.indistinct Twins.agree, fun _ _ _ => Iff.rfl⟩
  · rw [hafter]
    dsimp only [entryOf] at hreason ⊢
    have htree := fun method => RouteTable.tree_insert app.table route.method method route.path
      app.routes.length
    refine ⟨rfl, fun method hmethod => ?_, ?_, ?_, ?_⟩
    · rw [htree, if_neg hmethod]
    · rintro (hduplicate | ⟨malformed, hmalformed⟩)
      · exact absurd hduplicate (by simp)
      · apply Twins.indistinct _ Twins.register_eq
        apply twins_of_insert
        rw [Node.insert_of_malformed hmalformed]
    · rw [htree, if_pos rfl]
      intro hcause
      apply Twins.indistinct _ Twins.agree
      apply twins_of_insert
      rcases hcause with hconflict | hsame
      · exact (Node.layout_insert_of_conflict hreason hconflict).symm
      · exact hsame.symm
    · rw [htree, if_pos rfl]
      exact Node.holds_insert_of_refused (by rw [hreason]; simp)

end Seen

/-! ## Routes that are refused -/

/-- Two routes behind one parameter. -/
def forkedRoutes : App (Routine String) :=
  (App.new {}).registerEach [plainRoute .get "/{a}/x", plainRoute .get "/{a}/y"]

theorem register_refused_indistinct_forkedRoutes :
    (forkedRoutes.register (plainRoute .get "/{b}/y")).1 =
        some (.invalidPath .get "/{b}/y" (.conflict "/{a}/y")) ∧
      Indistinct Agree forkedRoutes (forkedRoutes.register (plainRoute .get "/{b}/y")).2.1 := by
  have hrefused : (forkedRoutes.register (plainRoute .get "/{b}/y")).1 =
      some (.invalidPath .get "/{b}/y" (.conflict "/{a}/y")) := by
    decide +kernel
  obtain ⟨-, -, -, hindistinct, -⟩ := register_refused_indistinct hrefused rfl
  exact ⟨hrefused, hindistinct (.inl rfl)⟩

/-- The outcomes of registrations, one after another. -/
def outcomes [Monad m] : App m → List (Route (Endpoint m)) → List (Option RegistryError)
  | _, [] => []
  | app, route :: rest => (app.register route).1 :: outcomes (app.register route).2.1 rest

/-- Refused registrations that can be seen.  A path with two parameters in a segment, and one with a
catch-all inside, leave a parameter behind, which another path then conflicts with.  One that is
refused behind the end of a segment leaves this end behind, and a path is not found.  One that is
refused where only the route of the empty path is gives that route another path.  One that conflicts
gets another pattern named in a later conflict. -/
theorem register_refused_seen :
    let app : App (Routine String) := App.new {}
    let get := plainRoute .get
    (outcomes app [get "/{*rest}"] = [none] ∧
      outcomes app [get "/{a}/{b}{c}", get "/{*rest}"] =
        [some (.invalidPath .get "/{a}/{b}{c}" .severalParams),
          some (.invalidPath .get "/{*rest}" (.conflict "/{a}/"))] ∧
      outcomes app [get "/{a}/{*b}/c", get "/{*rest}"] =
        [some (.invalidPath .get "/{a}/{*b}/c" .catchAllInside),
          some (.invalidPath .get "/{*rest}" (.conflict "/{a}/"))]) ∧
    ((app.registerEach [get "/{a}/foo"]).table.lookup .get "/x.js/foo" =
        some (0, [("a", "x.js")]) ∧
      (app.registerEach [get "/{a}/foo", get "/{a}.js/{b}{c}"]).table.lookup .get "/x.js/foo" =
        none) ∧
    ((app.registerEach [get ""]).table.lookup .get "/" = none ∧
      (app.registerEach [get "", get "/{a}{b}"]).table.lookup .get "/" = some (0, [])) ∧
    outcomes forkedRoutes [get "/{*z}"] =
      [some (.invalidPath .get "/{*z}" (.conflict "/{a}/x"))] ∧
    outcomes forkedRoutes [get "/{b}/y", get "/{*z}"] =
      [some (.invalidPath .get "/{b}/y" (.conflict "/{a}/y")),
        some (.invalidPath .get "/{*z}" (.conflict "/{a}/y"))] := by
  decide +kernel

end App
end WebApp
