import Mathlib.Tactic
import WebApp.Proofs.App.ImplicitOptions

/-!
# What a path allows

Next to each route there is one for what its path allows, or else one that conflicts with it.  The
latter answers for all paths of the route, unless it has a parameter where the route has a
catch-all.
-/

namespace WebApp

/-- A pattern that has a parameter where another, alike so far, has a catch-all. -/
inductive Blocks : List Mark → List Mark → Prop where
  | text {m : Mark} {p q : List Mark} : m.IsText → Blocks p q → Blocks (m :: p) (m :: q)
  | param {letter : UInt8} {p q : List Mark} :
      letter ∈ Pattern.letters → Blocks p q →
      Blocks (⟨123, false⟩ :: ⟨letter, false⟩ :: ⟨125, false⟩ :: p)
        (⟨123, false⟩ :: ⟨letter, false⟩ :: ⟨125, false⟩ :: q)
  | catchAll {letter : UInt8} {p name : List Mark} :
      letter ∈ Pattern.letters →
      Blocks (⟨123, false⟩ :: ⟨letter, false⟩ :: ⟨125, false⟩ :: p)
        (⟨123, false⟩ :: ⟨42, false⟩ :: name)

theorem Blocks.ne {p q : List Mark} (hblocks : Blocks p q) : p ≠ q := by
  induction hblocks with
  | text _ _ ih | param _ _ ih => simpa using ih
  | catchAll hletter => simp [ne_of_mem_letters hletter]

/-- Of two patterns in conflict the first describes all paths of the second, unless it has a
parameter where the second has a catch-all. -/
theorem Conflicts.covers_or_blocks {p q : List Mark} (hconflicts : Conflicts p q)
    {letters : List UInt8} {taken : Bool} (hregular : Regular letters taken p) :
    (∀ path, Fits q path → Fits p path) ∨ Blocks p q := by
  induction hconflicts generalizing letters taken with
  | same => exact .inl fun _ hfits => hfits
  | @text m p q htext _ ih =>
      have hsplit : Regular letters taken ([m] ++ p) := hregular
      obtain ⟨taken', hrest⟩ := hsplit.drop_front (by simpa using htext)
      refine (ih hrest).imp ?_ (.text htext)
      intro hcovers path hfits
      obtain ⟨behind, rfl, hbehind⟩ := (fits_text_iff htext).mp hfits
      exact .text htext (hcovers behind hbehind)
  | @param letter p q hletter _ ih =>
      obtain ⟨others, -, hrest⟩ := hregular.behind_param hletter
      refine (ih hrest).imp ?_ (.param hletter)
      intro hcovers path hfits
      obtain ⟨taken, behind, rfl, htaken, hslash, hbehind⟩ := (fits_param_iff hletter).mp hfits
      exact .param hletter htaken hslash (hcovers behind hbehind)
  | left p q =>
      refine .inl fun path hfits => .catchAll ?_
      rintro rfl
      exact absurd (eq_nil_of_fits_nil hfits) (by simp)
  | right p q =>
      rcases hregular.of_opening ⟨_, _, rfl, rfl⟩ with
        ⟨letter, others, tail, -, hletter, hsame⟩ | ⟨name, -, hsame⟩
      · rw [hsame]
        exact .inr (.catchAll hletter)
      · rw [hsame]
        refine .inl fun path hfits => .catchAll ?_
        rintro rfl
        exact absurd (eq_nil_of_fits_nil hfits) (by simp)

namespace App

universe u

variable {m : Type → Type u}

/-- Every route has one for what a path allows that conflicts with it. -/
def Followed (app : App m) : Prop :=
  ∀ entry ∈ app.routes, entry.method ≠ .options →
    ∃ other ∈ app.routes, other.method = .options ∧ Clash other.path entry.path

section Followed

variable {app : App m}

/-- Methods and paths stay registered. -/
theorem Tidy.exists_of_insert (htidy : app.Tidy) (entry : RouteEntry m) {other : RouteEntry m}
    (hother : other ∈ app.routes) :
    ∃ other' ∈ (app.insert entry).2.routes, other'.method = other.method ∧
      other'.path = other.path := by
  by_cases hnone : (app.insert entry).1 = none
  · by_cases hkey : (other.method, other.path) = (entry.method, entry.path)
    · rw [Prod.mk.injEq] at hkey
      exact ⟨entry, (htidy.mem_insert hnone).mpr (.inl rfl), hkey.1.symm, hkey.2.symm⟩
    · exact ⟨other, (htidy.mem_insert hnone).mpr (.inr ⟨hother, hkey⟩), rfl, rfl⟩
  · rw [insert_routes_of_some hnone]
    exact ⟨other, hother, rfl, rfl⟩

/-- The implicit route is added next to a route, or another one is in its place. -/
theorem Tidy.exists_insertOptions [Monad m] (htidy : app.Tidy) {method : Method} {path : String}
    (hmethod : method ≠ .options) (hpath : WellFormed path) :
    ∃ other ∈ (app.insertOptions method path).2.routes, other.method = .options ∧
      Clash other.path path := by
  let implicit : RouteEntry m :=
    { method := .options, path := path, endpoint := .options, isImplicit := true }
  unfold App.insertOptions
  split
  next =>
    change ∃ other ∈ (app.insert implicit).2.routes, _
    by_cases hnone : (app.insert implicit).1 = none
    · exact ⟨implicit, (htidy.mem_insert hnone).mpr (.inl rfl), rfl, hpath.clash_self⟩
    · rw [insert_routes_of_some hnone]
      rw [htidy.insert_eq_none_iff (.inl hpath)] at hnone
      by_contra hno
      refine hnone ⟨hpath, ?_⟩
      intro other hother hoptions hclash
      exact absurd ⟨other, hother, hoptions, hclash⟩ hno
  next hplace =>
    rw [not_and, Option.isNone_iff_eq_none] at hplace
    obtain ⟨place, hplace⟩ := Option.ne_none_iff_exists'.mp (hplace hmethod)
    obtain ⟨other, -, hother, hoptions, rfl⟩ := htidy.exists_of_place hplace
    exact ⟨other, hother, hoptions, hpath.clash_self⟩

theorem Tidy.exists_of_insertOptions [Monad m] (htidy : app.Tidy) (method : Method)
    (path : String) {other : RouteEntry m} (hother : other ∈ app.routes) :
    ∃ other' ∈ (app.insertOptions method path).2.routes, other'.method = other.method ∧
      other'.path = other.path := by
  unfold App.insertOptions
  split
  next => exact htidy.exists_of_insert _ hother
  next => exact ⟨other, hother, rfl, rfl⟩

/-- A successful registration keeps every route followed. -/
theorem Followed.register [Monad m] (hfollowed : app.Followed) (htidy : app.Tidy)
    {route : Route (Endpoint m)} (hpath : WellFormed route.path)
    (hnone : (app.register route).1 = none) : (app.register route).2.1.Followed := by
  have haccepted : (app.insert (entryOf route)).1 = none := by
    by_contra hsome
    exact (register_of_refused hsome).1 hnone
  have hinsert : (app.insert (entryOf route)).2.Tidy :=
    htidy.insert (.inl hpath) (by simp [entryOf])
  have hregister := htidy.register (.inl hpath : Admissible route.path)
  intro entry hentry hmethod
  have hexplicit : entry.isImplicit = false := by
    by_contra himplicit
    exact hmethod (hregister.options_of_isImplicit hentry (by simpa using himplicit))
  rw [htidy.explicit_register (.inl hpath) hexplicit, htidy.mem_insert haccepted] at hentry
  rw [register_of_accepted haccepted]
  rcases hentry with rfl | ⟨hold, -⟩
  · exact hinsert.exists_insertOptions hmethod hpath
  · obtain ⟨other, hother, hoptions, hclash⟩ := hfollowed entry hold hmethod
    obtain ⟨other', hother', hmethod', hpath'⟩ := htidy.exists_of_insert (entryOf route) hother
    obtain ⟨kept, hkept, hkeptMethod, hkeptPath⟩ :=
      hinsert.exists_of_insertOptions route.method route.path hother'
    refine ⟨kept, hkept, hkeptMethod.trans (hmethod'.trans hoptions), ?_⟩
    rw [hkeptPath, hpath']
    exact hclash

/-- Successful registrations keep a registry tidy and every route followed. -/
theorem followed_registerAll [Monad m] {routes : List (Route (Endpoint m))} (htidy : app.Tidy)
    (hfollowed : app.Followed) (hpaths : ∀ route ∈ routes, WellFormed route.path)
    (hnone : (app.registerAll routes).1 = none) :
    (app.registerAll routes).2.1.Tidy ∧ (app.registerAll routes).2.1.Followed := by
  induction routes generalizing app with
  | nil => exact ⟨htidy, hfollowed⟩
  | cons route rest ih =>
      rw [List.forall_mem_cons] at hpaths
      unfold App.registerAll at hnone ⊢
      split
      next e failed events heq =>
        rw [heq] at hnone
        exact absurd hnone (by simp)
      next registered events heq =>
        rw [heq] at hnone
        have hregistered := htidy.register (.inl hpaths.1 : Admissible route.path)
        have hstep := hfollowed.register htidy hpaths.1 (congrArg Prod.fst heq)
        rw [heq] at hregistered hstep
        exact ih hregistered hstep hpaths.2 hnone

end Followed

/-! ## Paths and their methods -/

section Lookup

variable {app : App m}

/-- A path that is answered fits a route of its method. -/
theorem Tidy.fits_of_lookup (htidy : app.Tidy) {method : Method} {path : String}
    (hlookup : (app.table.lookup method path).isSome = true) :
    ∃ entry ∈ app.routes, entry.method = method ∧
      Fits (shapeOf entry.path) (Utf8.encode path) := by
  obtain ⟨patterns, htables, horderly⟩ := htidy
  rw [htables.lookup_eq, Option.isSome_map] at hlookup
  obtain ⟨pattern, hpattern, hfits⟩ := (horderly method).fits_of_lookup hlookup
  obtain ⟨entry, hentry, hmethod, rfl⟩ := mem_paths.mp hpattern
  exact ⟨entry, hentry, hmethod, hfits⟩

/-- No route hides paths of another one of its method. -/
def Overt (app : App m) : Prop :=
  ∀ entry ∈ app.routes, ∀ other ∈ app.routes, entry.method = other.method →
    ¬ Hides (shapeOf entry.path) (shapeOf other.path)

/-- A path that fits a route is answered with its method, where no route hides another. -/
theorem Tidy.lookup_of_fits (htidy : app.Tidy) (hovert : app.Overt) {entry : RouteEntry m}
    {path : String} (hentry : entry ∈ app.routes)
    (hfits : Fits (shapeOf entry.path) (Utf8.encode path)) :
    (app.table.lookup entry.method path).isSome = true := by
  obtain ⟨patterns, htables, horderly⟩ := htidy
  rw [htables.lookup_eq, Option.isSome_map]
  refine (horderly entry.method).lookup_of_fits ?_ (mem_paths.mpr ⟨entry, hentry, rfl, rfl⟩) hfits
  intro p hp q hq
  obtain ⟨first, hfirst, hfirstMethod, rfl⟩ := mem_paths.mp hp
  obtain ⟨second, hsecond, hsecondMethod, rfl⟩ := mem_paths.mp hq
  exact hovert first hfirst second hsecond (hfirstMethod.trans hsecondMethod.symm)

/-- What asks what the path allows reaches a route for it. -/
def ReachesOptions [Monad m] [Reports m] [Tasks m] (app : App m) (path : String) : Prop :=
  ∃ place captures entry, app.table.lookup .options path = some (place, captures) ∧
    app.routes[place]? = some entry ∧ entry.method = .options ∧
    ∀ request : Request, request.method = .options → request.path = path →
      app.handle request =
        app.core.dispatch (some entry.endpoint) (request.withPathParams captures)

theorem Tidy.reachesOptions_iff [Monad m] [Reports m] [Tasks m] (htidy : app.Tidy)
    {path : String} :
    app.ReachesOptions path ↔ (app.table.lookup .options path).isSome = true := by
  constructor
  · rintro ⟨place, captures, entry, hlookup, -⟩
    rw [hlookup]
    rfl
  · intro hsome
    obtain ⟨⟨place, captures⟩, hlookup⟩ := Option.isSome_iff_exists.mp hsome
    obtain ⟨patterns, htables, -⟩ := htidy
    have hselected := hlookup
    rw [htables.lookup_eq, Option.map_eq_some_iff] at hselected
    obtain ⟨⟨pattern, found⟩, hfound, hsame⟩ := hselected
    obtain ⟨rfl, rfl⟩ := Prod.mk.inj hsame
    obtain ⟨entry, hentry, hmethod, -⟩ := htables.exists_entry (htables.placed_of_lookup hfound)
    refine ⟨_, _, entry, hlookup, hentry, hmethod, ?_⟩
    rintro request hoptions rfl
    rw [handle, hoptions, hlookup]
    dsimp only
    rw [hentry, Option.map_some]

end Lookup

/-- After any successful registrations, where no route hides another, every path that is answered
with some method is answered as well when a request asks what it allows, exactly when this can be
said of the routes that have a catch-all where a route for what a path allows has a parameter: each
path of theirs has to fit some route for what a path allows.  Where there are no such routes, it
holds. -/
theorem options_cover_iff [Monad m] [Reports m] [Tasks m] {config : Config}
    {routes : List (Route (Endpoint m))} {app : App m} {events : List Event}
    (hpaths : ∀ route ∈ routes, WellFormed route.path)
    (hok : (App.new config).registerAll routes = (none, app, events)) (hovert : app.Overt) :
    (∀ request : Request, request.method ≠ .options →
      (app.table.lookup request.method request.path).isSome = true →
      app.ReachesOptions request.path) ↔
    ∀ entry ∈ app.routes, entry.method ≠ .options →
      (∃ other ∈ app.routes, other.method = .options ∧
        Blocks (shapeOf other.path) (shapeOf entry.path)) →
      ∀ path, Fits (shapeOf entry.path) (Utf8.encode path) →
        ∃ other ∈ app.routes, other.method = .options ∧
          Fits (shapeOf other.path) (Utf8.encode path) := by
  have hnew : (App.new config : App m).Followed := by
    simp [Followed, App.new]
  obtain ⟨htidy, hfollowed⟩ := followed_registerAll (tidy_new config) hnew hpaths
    (congrArg Prod.fst hok)
  rw [hok] at htidy hfollowed
  change app.Tidy at htidy
  change app.Followed at hfollowed
  constructor
  · intro hcover entry hentry hmethod _ path hfits
    have hlookup := htidy.lookup_of_fits hovert hentry hfits
    have hreaches := hcover { method := entry.method, path := path } hmethod hlookup
    obtain ⟨other, hother, hoptions, hfits⟩ :=
      htidy.fits_of_lookup (htidy.reachesOptions_iff.mp hreaches)
    exact ⟨other, hother, hoptions, hfits⟩
  · intro hblocked request hmethod hlookup
    obtain ⟨entry, hentry, hentryMethod, hfits⟩ := htidy.fits_of_lookup hlookup
    rw [← hentryMethod] at hmethod
    have hcovered : ∃ other ∈ app.routes, other.method = .options ∧
        Fits (shapeOf other.path) (Utf8.encode request.path) := by
      obtain ⟨other, hother, hoptions, hclash⟩ := hfollowed entry hentry hmethod
      rcases hclash.covers_or_blocks (htidy.wellFormed hother).regular with hcovers | hblocks
      · exact ⟨other, hother, hoptions, hcovers _ hfits⟩
      · exact hblocked entry hentry hmethod ⟨other, hother, hoptions, hblocks⟩ _ hfits
    obtain ⟨other, hother, hoptions, hfits⟩ := hcovered
    rw [htidy.reachesOptions_iff, ← hoptions]
    exact htidy.lookup_of_fits hovert hother hfits

/-- Where one route hides paths of the other, these are not found when a request asks what they
allow. -/
example :
    let app : App (Routine String) := ((App.new {}).registerAll
      [plainRoute .get "/{x}.js/b", plainRoute .post "/{x}/c"]).2.1
    (app.table.lookup .post "/a.js/c").isSome = true ∧
      app.table.lookup .options "/a.js/c" = none := by
  decide +kernel

/-! ## Routes that are followed by one of another name, and routes that are not -/

/-- Two routes whose paths differ in the name of a parameter. -/
def userRoutes : List (Route (Endpoint (Routine String))) :=
  [plainRoute .get "/u/{id}", plainRoute .post "/u/{name}"]

def userApp : App (Routine String) :=
  ((App.new {}).registerAll userRoutes).2.1

theorem options_cover_userRoutes :
    ((App.new {}).registerAll userRoutes).1 = none ∧
      (userApp.table.lookup .post "/u/7").isSome = true ∧
      ∀ request : Request, request.method ≠ .options →
        (userApp.table.lookup request.method request.path).isSome = true →
        userApp.ReachesOptions request.path := by
  have hshapes : userApp.routes.map (fun entry => shapeOf entry.path) =
      [userShape, userShape, userShape] := by
    decide +kernel
  have hshape : ∀ entry ∈ userApp.routes, shapeOf entry.path = userShape := by
    intro entry hentry
    have hmem : shapeOf entry.path ∈ userApp.routes.map (fun entry => shapeOf entry.path) :=
      List.mem_map.mpr ⟨entry, hentry, rfl⟩
    rw [hshapes] at hmem
    simpa using hmem
  have hpaths : ∀ route ∈ userRoutes, WellFormed route.path := by
    have hshapes : ∀ route ∈ userRoutes, shapeOf route.path = userShape := by
      decide +kernel
    exact fun route hroute => wellFormed_of_userShape (hshapes route hroute)
  have hnone : ((App.new {}).registerAll userRoutes).1 = none := by
    decide +kernel
  have hovert : userApp.Overt := by
    intro entry hentry other hother _ hhides
    exact hhides.ne ((hshape entry hentry).trans (hshape other hother).symm)
  refine ⟨hnone, by decide +kernel, ?_⟩
  apply (options_cover_iff hpaths (Prod.ext hnone rfl) hovert).mpr
  intro entry hentry _ hblocked
  obtain ⟨other, hother, -, hblocks⟩ := hblocked
  exact absurd ((hshape other hother).trans (hshape entry hentry).symm) hblocks.ne

/-- Routes of which the second has a catch-all where the first has a parameter. -/
def fileRoutes : List (Route (Endpoint (Routine String))) :=
  [plainRoute .get "/files/{id}", plainRoute .post "/files/{*path}"]

def fileApp : App (Routine String) :=
  ((App.new {}).registerAll fileRoutes).2.1

/-- A path of the second route is not found when a request asks what it allows. -/
theorem options_not_found_fileRoutes :
    ((App.new {}).registerAll fileRoutes).1 = none ∧
      (fileApp.table.lookup .post "/files/a/b").isSome = true ∧
      ¬ fileApp.ReachesOptions "/files/a/b" ∧
      fileApp.handle { method := .options, path := "/files/a/b" } =
        fileApp.notFound { method := .options, path := "/files/a/b" } := by
  have hlookup : fileApp.table.lookup .options "/files/a/b" = none := by
    decide +kernel
  refine ⟨by decide +kernel, by decide +kernel, ?_, ?_⟩
  · rintro ⟨_, _, _, hsome, -⟩
    rw [hlookup] at hsome
    exact absurd hsome (by simp)
  · rw [handle]
    dsimp only
    rw [hlookup]

end App
end WebApp
