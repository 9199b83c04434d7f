import Mathlib.Tactic
import WebApp.Proofs.App.Registry
import WebApp.Task.Routine

/-!
# Implicit routes beside explicit ones

A registry that adds implicit routes is compared, step by step, with one that never does.  The two
accept the same routes exactly as long as no implicit route is in the way: an application's own
route takes the place of the implicit one of the same path, but one that differs from it in the
names of its parameters only, or conflicts with it otherwise, is refused.
-/

namespace WebApp
namespace App

universe u

variable {m : Type → Type u}

/-- What the registration of a route adds. -/
def entryOf (route : Route (Endpoint m)) : RouteEntry m :=
  { method := route.method, path := route.path, endpoint := route.endpoint, tags := route.tags }

/-- Registers a route and adds no implicit one. -/
def registerPlain (app : App m) (route : Route (Endpoint m)) : Option RegistryError × App m :=
  app.insert (entryOf route)

/-- Registers a route as an application does. -/
def registerBeside [Monad m] (app : App m) (route : Route (Endpoint m)) :
    Option RegistryError × App m :=
  ((app.register route).1, (app.register route).2.1)

/-- Tries to register routes in order, and tells which are accepted. -/
def verdicts (step : App m → Route (Endpoint m) → Option RegistryError × App m) :
    App m → List (Route (Endpoint m)) → List Bool
  | _, [] => []
  | app, route :: rest => (step app route).1.isNone :: verdicts step (step app route).2 rest

/-- An implicit route is in the way of a route for what a path allows, and no explicit one is. -/
def Hinders (app : App m) (route : Route (Endpoint m)) : Prop :=
  WellFormed route.path ∧ route.method = .options ∧
    (∃ other ∈ app.routes, other.isImplicit = true ∧ other.path ≠ route.path ∧
      Clash other.path route.path) ∧
    ∀ other ∈ app.routes, other.isImplicit = false → other.method = .options →
      ¬ Clash other.path route.path

/-- A route is accepted, but the call cannot go on after the attempt to add the implicit one. -/
def Stops [Monad m] (app : App m) (route : Route (Endpoint m)) : Prop :=
  (app.insert (entryOf route)).1 = none ∧ (app.register route).1 ≠ none

/-- No implicit route is in the way of any of these routes. -/
def Unhindered [Monad m] : App m → List (Route (Endpoint m)) → Prop
  | _, [] => True
  | app, route :: rest =>
    ¬ app.Hinders route ∧ ¬ app.Stops route ∧ Unhindered (app.register route).2.1 rest

/-- The application after these registrations, accepted or not. -/
def registerEach [Monad m] (app : App m) (routes : List (Route (Endpoint m))) : App m :=
  routes.foldl (fun app route => (app.register route).2.1) app

/-- Two routes that a registry can hold at once. -/
def Compatible (route other : Route (Endpoint m)) : Prop :=
  route.method = other.method → ¬ Clash route.path other.path

/-! ## One registration -/

section Register

variable {app plain : App m} {route : Route (Endpoint m)} {other : RouteEntry m}

theorem Tidy.insertOptions [Monad m] (htidy : app.Tidy) (method : Method) {path : String}
    (hpath : Admissible path) : (app.insertOptions method path).2.Tidy := by
  unfold App.insertOptions
  split
  next => exact htidy.insert hpath fun _ => rfl
  next => exact htidy

/-- An implicit route comes beside the explicit ones. -/
theorem Tidy.explicit_insertOptions [Monad m] (htidy : app.Tidy) (method : Method) (path : String)
    (hexplicit : other.isImplicit = false) :
    other ∈ (app.insertOptions method path).2.routes ↔ other ∈ app.routes := by
  unfold App.insertOptions
  split
  next hnew =>
    let entry : RouteEntry m :=
      { method := .options, path := path, endpoint := .options, isImplicit := true }
    change other ∈ (app.insert entry).2.routes ↔ _
    by_cases hnone : (app.insert entry).1 = none
    · rw [htidy.mem_insert hnone]
      constructor
      · rintro (rfl | ⟨hold, -⟩)
        · simp [entry] at hexplicit
        · exact hold
      · intro hold
        refine .inr ⟨hold, ?_⟩
        intro hsame
        rw [Prod.mk.injEq] at hsame
        exact htidy.not_mem_of_place (Option.isNone_iff_eq_none.mp hnew.2) hold hsame.1 hsame.2
    · rw [insert_routes_of_some hnone]
  next => exact Iff.rfl

theorem register_of_refused [Monad m] (hsome : (app.insert (entryOf route)).1 ≠ none) :
    (app.register route).1 ≠ none ∧
      (app.register route).2.1 = (app.insert (entryOf route)).2 := by
  unfold App.register
  dsimp only
  split
  next e failed heq =>
    rw [entryOf, heq]
    exact ⟨by simp, rfl⟩
  next heq =>
    rw [entryOf, heq] at hsome
    exact absurd rfl hsome

theorem register_of_accepted [Monad m] (hnone : (app.insert (entryOf route)).1 = none) :
    (app.register route).2.1 =
      ((app.insert (entryOf route)).2.insertOptions route.method route.path).2 := by
  unfold App.register
  dsimp only
  split
  next heq =>
    rw [entryOf, heq] at hnone
    exact absurd hnone (by simp)
  next heq =>
    rw [entryOf, heq]
    split <;> rfl

theorem Tidy.register [Monad m] (htidy : app.Tidy) (hpath : Admissible route.path) :
    (app.register route).2.1.Tidy := by
  have hinsert : (app.insert (entryOf route)).2.Tidy :=
    htidy.insert hpath (by simp [entryOf])
  by_cases hnone : (app.insert (entryOf route)).1 = none
  · rw [register_of_accepted hnone]
    exact hinsert.insertOptions route.method hpath
  · rw [(register_of_refused hnone).2]
    exact hinsert

/-- The explicit routes of a registry after a registration. -/
theorem Tidy.explicit_register [Monad m] (htidy : app.Tidy) (hpath : Admissible route.path)
    (hexplicit : other.isImplicit = false) :
    other ∈ (app.register route).2.1.routes ↔
      other ∈ (app.insert (entryOf route)).2.routes := by
  by_cases hnone : (app.insert (entryOf route)).1 = none
  · have hinsert : (app.insert (entryOf route)).2.Tidy :=
      htidy.insert hpath (by simp [entryOf])
    rw [register_of_accepted hnone]
    exact hinsert.explicit_insertOptions route.method route.path hexplicit
  · rw [(register_of_refused hnone).2]

end Register

/-! ## Two registries side by side -/

/-- A registry with implicit routes, and one with the same explicit routes and no others. -/
structure Beside (app plain : App m) : Prop where
  tidy : app.Tidy
  plain_tidy : plain.Tidy
  mem_iff : ∀ entry, entry ∈ plain.routes ↔ entry ∈ app.routes ∧ entry.isImplicit = false

section Beside

variable {app plain : App m} {route : Route (Endpoint m)}

/-- A registry without implicit routes accepts a route that conflicts with none of its method. -/
theorem Beside.plain_welcomes_iff (hbeside : Beside app plain) :
    plain.Welcomes (entryOf route) ↔ WellFormed route.path ∧ ∀ other ∈ app.routes,
      other.isImplicit = false → other.method = route.method → ¬ Clash other.path route.path := by
  refine and_congr_right fun _ => ⟨?_, ?_⟩
  · intro hwelcome other hother hexplicit hmethod hclash
    have hplain := (hbeside.mem_iff other).mpr ⟨hother, hexplicit⟩
    have himplicit := (hwelcome other hplain hmethod hclash).2.1
    rw [hexplicit] at himplicit
    exact absurd himplicit (by simp)
  · intro hnone other hother hmethod hclash
    obtain ⟨hother, hexplicit⟩ := (hbeside.mem_iff other).mp hother
    exact absurd hclash (hnone other hother hexplicit hmethod)

/-- What the registry without implicit routes accepts, the other one accepts as well, unless an
implicit route is in the way. -/
theorem Beside.welcomes_iff (hbeside : Beside app plain) :
    app.Welcomes (entryOf route) ↔ plain.Welcomes (entryOf route) ∧ ¬ app.Hinders route := by
  rw [hbeside.plain_welcomes_iff]
  constructor
  · rintro ⟨hpath, hwelcome⟩
    refine ⟨⟨hpath, ?_⟩, ?_⟩
    · intro other hother hexplicit hmethod hclash
      have himplicit := (hwelcome other hother hmethod hclash).2.1
      rw [hexplicit] at himplicit
      exact absurd himplicit (by simp)
    · rintro ⟨-, hmethod, ⟨other, hother, himplicit, hne, hclash⟩, -⟩
      have hoptions := hbeside.tidy.options_of_isImplicit hother himplicit
      exact hne (hwelcome other hother (hoptions.trans hmethod.symm) hclash).1
  · rintro ⟨⟨hpath, hnone⟩, hfree⟩
    refine ⟨hpath, ?_⟩
    intro other hother hmethod hclash
    change other.method = route.method at hmethod
    cases himplicit : other.isImplicit with
    | false => exact absurd hclash (hnone other hother himplicit hmethod)
    | true =>
        have hoptions := hbeside.tidy.options_of_isImplicit hother himplicit
        refine ⟨?_, rfl, rfl⟩
        by_contra hne
        exact hfree ⟨hpath, hmethod.symm.trans hoptions, ⟨other, hother, himplicit, hne, hclash⟩,
          fun other hother hexplicit hmethod' =>
            hnone other hother hexplicit (hmethod'.trans (hoptions.symm.trans hmethod))⟩

/-- The two registries agree on a route just when no implicit route is in its way. -/
theorem Beside.agree_iff [Monad m] (hbeside : Beside app plain) (hpath : Admissible route.path) :
    (app.register route).1.isNone = (plain.registerPlain route).1.isNone ↔
      ¬ app.Hinders route ∧ ¬ app.Stops route := by
  have happ : (app.insert (entryOf route)).1 = none ↔ app.Welcomes (entryOf route) :=
    hbeside.tidy.insert_eq_none_iff hpath
  have hplain : (plain.insert (entryOf route)).1 = none ↔ plain.Welcomes (entryOf route) :=
    hbeside.plain_tidy.insert_eq_none_iff hpath
  have haccepted : (app.register route).1 = none → app.Welcomes (entryOf route) := by
    intro hnone
    rw [← happ]
    by_contra hrefused
    exact (register_of_refused hrefused).1 hnone
  have hwelcome : app.Welcomes (entryOf route) ↔ _ := hbeside.welcomes_iff
  rw [registerPlain, Bool.eq_iff_iff, Option.isNone_iff_eq_none, Option.isNone_iff_eq_none, hplain,
    Stops, happ]
  constructor
  · intro hagree
    constructor
    · intro hhinders
      have hplainWelcome : plain.Welcomes (entryOf route) := by
        rw [hbeside.plain_welcomes_iff, hhinders.2.1]
        exact ⟨hhinders.1, hhinders.2.2.2⟩
      exact (hwelcome.mp (haccepted (hagree.mpr hplainWelcome))).2 hhinders
    · intro hstops
      exact hstops.2 (hagree.mpr (hwelcome.mp hstops.1).1)
  · rintro ⟨hfree, hgoes⟩
    constructor
    · intro hnone
      exact (hwelcome.mp (haccepted hnone)).1
    · intro hplainWelcome
      by_contra hrefused
      exact hgoes ⟨hwelcome.mpr ⟨hplainWelcome, hfree⟩, hrefused⟩

/-- After a registration that both decide alike, the two hold the same explicit routes. -/
theorem Beside.register [Monad m] (hbeside : Beside app plain) (hpath : Admissible route.path)
    (hfree : ¬ app.Hinders route) :
    Beside (app.register route).2.1 (plain.registerPlain route).2 where
  tidy := hbeside.tidy.register hpath
  plain_tidy := hbeside.plain_tidy.insert hpath (by simp [entryOf])
  mem_iff entry := by
    have hsame : (app.insert (entryOf route)).1 = none ↔ (plain.insert (entryOf route)).1 = none := by
      rw [hbeside.tidy.insert_eq_none_iff hpath, hbeside.plain_tidy.insert_eq_none_iff hpath,
        hbeside.welcomes_iff]
      exact and_iff_left hfree
    have hregister : entry ∈ (app.register route).2.1.routes ∧ entry.isImplicit = false ↔
        entry ∈ (app.insert (entryOf route)).2.routes ∧ entry.isImplicit = false :=
      and_congr_left fun hexplicit => hbeside.tidy.explicit_register hpath hexplicit
    rw [hregister, registerPlain]
    by_cases hnone : (plain.insert (entryOf route)).1 = none
    · rw [hbeside.plain_tidy.mem_insert hnone, hbeside.tidy.mem_insert (hsame.mpr hnone),
        hbeside.mem_iff, or_and_right]
      have hown : entry = entryOf route → entry.isImplicit = false := by
        rintro rfl
        rfl
      tauto
    · rw [insert_routes_of_some hnone, insert_routes_of_some (mt hsame.mp hnone)]
      exact hbeside.mem_iff entry

end Beside

/-! ## Many registrations -/

section Runs

variable {app plain : App m} {routes : List (Route (Endpoint m))}

theorem beside_new [Monad m] [Reports m] (config : Config) :
    Beside (App.new config : App m) (App.new config) where
  tidy := tidy_new config
  plain_tidy := tidy_new config
  mem_iff entry := by simp [App.new]

/-- The two registries agree throughout just when no implicit route is ever in the way. -/
theorem Beside.verdicts_eq_iff [Monad m] (hbeside : Beside app plain)
    (hpaths : ∀ route ∈ routes, Admissible route.path) :
    verdicts registerBeside app routes = verdicts registerPlain plain routes ↔
      Unhindered app routes := by
  induction routes generalizing app plain with
  | nil => exact iff_of_true rfl trivial
  | cons route rest ih =>
      rw [List.forall_mem_cons] at hpaths
      rw [verdicts, verdicts, List.cons.injEq, Unhindered, ← and_assoc]
      refine (and_congr_left' (hbeside.agree_iff hpaths.1)).trans (and_congr_right ?_)
      rintro ⟨hfree, -⟩
      exact ih (hbeside.register hpaths.1 hfree) hpaths.2

/-- A registry without implicit routes accepts all routes just when any two of them, and each of
them and what is there, can be held at once. -/
theorem Tidy.verdicts_plain_iff (htidy : plain.Tidy)
    (hexplicit : ∀ entry ∈ plain.routes, entry.isImplicit = false)
    (hpaths : ∀ route ∈ routes, Admissible route.path) :
    (∀ verdict ∈ verdicts registerPlain plain routes, verdict = true) ↔
      (∀ route ∈ routes, WellFormed route.path ∧ ∀ entry ∈ plain.routes,
        entry.method = route.method → ¬ Clash entry.path route.path) ∧
      routes.Pairwise Compatible := by
  induction routes generalizing plain with
  | nil => simp [verdicts]
  | cons route rest ih =>
      rw [List.forall_mem_cons] at hpaths
      have hwelcome : plain.Welcomes (entryOf route) ↔ WellFormed route.path ∧
          ∀ entry ∈ plain.routes, entry.method = route.method →
            ¬ Clash entry.path route.path := by
        refine and_congr_right fun _ => ⟨?_, ?_⟩
        · intro hwelcome entry hentry hmethod hclash
          have himplicit := (hwelcome entry hentry hmethod hclash).2.1
          rw [hexplicit entry hentry] at himplicit
          exact absurd himplicit (by simp)
        · intro hnone entry hentry hmethod hclash
          exact absurd hclash (hnone entry hentry hmethod)
      have hnone : (plain.insert (entryOf route)).1 = none ↔ plain.Welcomes (entryOf route) :=
        htidy.insert_eq_none_iff hpaths.1
      rw [verdicts, List.forall_mem_cons, Option.isNone_iff_eq_none, registerPlain, hnone, hwelcome,
        List.forall_mem_cons, List.pairwise_cons]
      refine (and_congr_right ?_).trans and_assoc.symm
      intro hhead
      have haccepted := hnone.mpr (hwelcome.mpr hhead)
      have hmem : ∀ entry, entry ∈ (plain.insert (entryOf route)).2.routes ↔
          entry = entryOf route ∨ entry ∈ plain.routes := by
        intro entry
        rw [htidy.mem_insert haccepted]
        refine or_congr_right (and_iff_left_of_imp ?_)
        intro hentry hsame
        rw [Prod.mk.injEq] at hsame
        exact hhead.2 entry hentry hsame.1 (hsame.2 ▸ hhead.1.clash_self)
      have hexplicit' : ∀ entry ∈ (plain.insert (entryOf route)).2.routes,
          entry.isImplicit = false := by
        intro entry hentry
        rcases (hmem entry).mp hentry with rfl | hold
        · rfl
        · exact hexplicit entry hold
      rw [ih (htidy.insert hpaths.1 (by simp [entryOf])) hexplicit' hpaths.2, ← and_assoc]
      refine and_congr_left' ?_
      simp only [hmem, forall_eq_or_imp, Compatible, ← forall_and]
      refine forall₂_congr fun other _ => ?_
      rw [and_assoc]
      exact and_congr_right fun _ => and_comm

/-- As long as no implicit route is in the way, a registry without implicit routes comes along. -/
theorem Beside.registerEach [Monad m] {before rest : List (Route (Endpoint m))}
    (hbeside : Beside app plain) (hpaths : ∀ route ∈ before, Admissible route.path)
    (hfree : Unhindered app (before ++ rest)) :
    ∃ plain, Beside (app.registerEach before) plain ∧
      Unhindered (app.registerEach before) rest := by
  induction before generalizing app plain with
  | nil => exact ⟨plain, hbeside, hfree⟩
  | cons route before ih =>
      rw [List.forall_mem_cons] at hpaths
      rw [List.cons_append, Unhindered] at hfree
      exact ih (hbeside.register hpaths.1 hfree.1) hpaths.2 hfree.2.2

/-- A route that is refused is malformed or conflicts with an explicit one of its method. -/
theorem Beside.reason [Monad m] {route : Route (Endpoint m)} (hbeside : Beside app plain)
    (hpath : Admissible route.path) (hfree : ¬ app.Hinders route ∧ ¬ app.Stops route)
    (hrefused : (app.register route).1 ≠ none) :
    ¬ WellFormed route.path ∨ ∃ other ∈ app.routes, other.isImplicit = false ∧
      other.method = route.method ∧ Clash other.path route.path := by
  have hagree := (hbeside.agree_iff hpath).mpr hfree
  have hplain : ¬ plain.Welcomes (entryOf route) := by
    intro hwelcome
    rw [registerPlain, (hbeside.plain_tidy.insert_eq_none_iff hpath).mpr hwelcome,
      Option.isNone_none, Option.isNone_iff_eq_none] at hagree
    exact hrefused hagree
  rw [hbeside.plain_welcomes_iff] at hplain
  by_contra hnot
  rw [not_or, not_not] at hnot
  refine hplain ⟨hnot.1, ?_⟩
  intro other hother hexplicit hmethod hclash
  exact hnot.2 ⟨other, hother, hexplicit, hmethod, hclash⟩

theorem Compatible.symm {route other : Route (Endpoint m)} (hcompatible : Compatible route other) :
    Compatible other route :=
  fun hmethod hclash => hcompatible hmethod.symm hclash.symm

/-- Registrations are decided as in a registry that never adds implicit routes exactly when no
implicit route is ever in the way: none conflicts with a route of the application of another path,
and no call ends because one cannot be added.  Then a route is refused only if it is malformed or
conflicts with an explicit route of its method, and all routes are accepted just when they are
well-formed and any two of them can be held at once, in whatever order they come. -/
theorem register_transparent_iff [Monad m] [Reports m] (config : Config)
    (routes : List (Route (Endpoint m))) (hpaths : ∀ route ∈ routes, Admissible route.path) :
    (verdicts registerBeside (App.new config) routes =
      verdicts registerPlain (App.new config) routes ↔ Unhindered (App.new config) routes) ∧
    (Unhindered (App.new config) routes →
      ∀ before route rest, routes = before ++ route :: rest →
        (((App.new config).registerEach before).register route).1 ≠ none →
        ¬ WellFormed route.path ∨
          ∃ other ∈ ((App.new config).registerEach before).routes, other.isImplicit = false ∧
            other.method = route.method ∧ Clash other.path route.path) ∧
    ∀ order : List (Route (Endpoint m)), order.Perm routes → Unhindered (App.new config) order →
      ((∀ verdict ∈ verdicts registerBeside (App.new config) order, verdict = true) ↔
        (∀ route ∈ routes, WellFormed route.path) ∧ routes.Pairwise Compatible) := by
  refine ⟨(beside_new config).verdicts_eq_iff hpaths, ?_, ?_⟩
  · rintro hfree before route rest rfl hrefused
    have hbefore : ∀ route ∈ before, Admissible route.path :=
      fun route hmem => hpaths route (List.mem_append_left _ hmem)
    obtain ⟨plain, hbeside, hfree⟩ := (beside_new config).registerEach hbefore hfree
    rw [Unhindered] at hfree
    exact hbeside.reason (hpaths route (by simp)) ⟨hfree.1, hfree.2.1⟩ hrefused
  · intro order hperm hfree
    have horder : ∀ route ∈ order, Admissible route.path :=
      fun route hmem => hpaths route (hperm.mem_iff.mp hmem)
    have hsame := ((beside_new config).verdicts_eq_iff horder).mpr hfree
    have hplain := (tidy_new config : (App.new config : App m).Tidy).verdicts_plain_iff
      (by simp [App.new]) horder
    rw [hsame, hplain, hperm.pairwise_iff Compatible.symm]
    simp [App.new, hperm.mem_iff]

end Runs

/-! ## Routes of their own for what a path allows -/

/-- A route whose endpoint does nothing of interest. -/
def plainRoute (method : Method) (path : String) : Route (Endpoint (Routine String)) where
  method := method
  path := path
  endpoint := .options

/-- The attempt to add an implicit route can end the call: the message about its conflict names the
parameters of another pattern. -/
example :
    let routes := [plainRoute .get "/\x7b\x7ba\x7d\x7d\x7bid\x7d/\x7bx\x7d\x7b\x7by",
      plainRoute .post "/\x7b\x7ba\x7d\x7d\x7b*p\x7d"]
    verdicts registerBeside (App.new {}) routes = [true, false] ∧
      verdicts registerPlain (App.new {}) routes = [true, true] := by
  decide +kernel

/-- A path that is refused only when a part of it is in the tree leaves this part behind, so that
paths have to be admissible.  Here an implicit route keeps the part out. -/
example :
    let routes := [plainRoute .get "/{*x}", plainRoute .options "/{a}/{b}{c}",
      plainRoute .options "/{*x}"]
    verdicts registerBeside (App.new {}) routes = [true, false, true] ∧
      verdicts registerPlain (App.new {}) routes = [true, false, false] := by
  decide +kernel

/-- The shape of a path with a parameter at its end. -/
def userShape : List Mark :=
  [⟨47, false⟩, ⟨117, false⟩, ⟨47, false⟩, ⟨123, false⟩, ⟨97, false⟩, ⟨125, false⟩]

theorem wellFormed_of_userShape {path : String} (hshape : shapeOf path = userShape) :
    WellFormed path := by
  refine ⟨by simp [hshape, userShape], ?_⟩
  rw [hshape]
  refine .text (by decide) (.text (by decide) (.text (by decide) ?_))
  exact .param (by decide) (.nil _ _)

/-- A path with a route, and one of the application's own for what the path allows. -/
def ownRoutes : List (Route (Endpoint (Routine String))) :=
  [plainRoute .get "/u/{id}", plainRoute .options "/u/{id}"]

theorem register_transparent_ownRoutes :
    Unhindered (App.new {}) ownRoutes ∧
      verdicts registerBeside (App.new {}) ownRoutes = [true, true] ∧
      (∀ route ∈ ownRoutes, WellFormed route.path) ∧ ownRoutes.Pairwise Compatible := by
  have hwell : WellFormed "/u/{id}" := wellFormed_of_userShape (by decide +kernel)
  have hpaths : ∀ route ∈ ownRoutes, Admissible route.path := by
    simp [ownRoutes, plainRoute, Admissible, hwell]
  have hverdicts : verdicts registerBeside (App.new {}) ownRoutes = [true, true] := by
    decide +kernel
  have hplain : verdicts registerPlain (App.new {}) ownRoutes = [true, true] := by
    decide +kernel
  obtain ⟨hsame, -, horder⟩ := register_transparent_iff {} ownRoutes hpaths
  have hfree : Unhindered (App.new {}) ownRoutes := hsame.mp (hverdicts.trans hplain.symm)
  exact ⟨hfree, hverdicts, (horder ownRoutes (.refl _) hfree).mp (by simp [hverdicts])⟩

/-- The implicit route next to one with another name for its parameter is in the way. -/
theorem register_refused_by_implicit :
    let own := plainRoute .options "/users/{name}"
    let other := plainRoute .get "/users/{id}"
    verdicts registerBeside (App.new {}) [other, own] = [true, false] ∧
      verdicts registerPlain (App.new {}) [other, own] = [true, true] ∧
      verdicts registerBeside (App.new {}) [own, other] = [true, true] := by
  decide +kernel

end App
end WebApp
