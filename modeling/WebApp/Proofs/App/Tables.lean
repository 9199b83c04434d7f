import Mathlib.Tactic
import WebApp.Proofs.App.Made
import WebApp.Proofs.Assoc
import WebApp.Proofs.Routing.Values
import WebApp.Task.Routine

/-!
# The tables of an application

An application keeps its routes in a list, their places in an index, and the places once more in
the trees of patterns.  The three agree after any registrations, be they accepted or refused.  The
trees of the application are those in which each pattern leads to itself, with the places of the
patterns as values; so where such a tree selects a pattern for a path, the route of that pattern is
run.
-/

namespace WebApp

/-- The tree in which each pattern that was tried leads to itself, and those that were accepted. -/
inductive Grows : List String → Node String → Prop where
  | empty : Grows [] .empty
  | accepted {paths : List String} {n : Node String} (path : String) :
      Grows paths n → (n.insert path path).1 = none →
      Grows (paths ++ [path]) (n.insert path path).2
  | refused {paths : List String} {n : Node String} (path : String) :
      Grows paths n → (n.insert path path).1 ≠ none → Grows paths (n.insert path path).2

namespace RouteTable

/-- The tree of a method. -/
def tree (t : RouteTable) (method : Method) : Node Nat :=
  (Assoc.get? method t.trees).getD .empty

theorem insert_fst (t : RouteTable) (method : Method) (pattern : String) (place : Nat) :
    (t.insert method pattern place).1 = ((t.tree method).insert pattern place).1 := rfl

theorem tree_insert (t : RouteTable) (method other : Method) (pattern : String) (place : Nat) :
    (t.insert method pattern place).2.tree other =
      if other = method then ((t.tree method).insert pattern place).2 else t.tree other := by
  unfold tree insert
  dsimp only
  split
  next hsame => rw [hsame, Assoc.get?_insert_self, Option.getD_some]
  next hother => rw [Assoc.get?_insert_of_ne hother]

theorem lookup_eq (t : RouteTable) (method : Method) (path : String) :
    t.lookup method path =
      ((t.tree method).lookup path).map fun found => (found.1, Assoc.ofList found.2) := by
  have hempty : (Node.empty : Node Nat).lookup path = none := by
    rw [Node.lookup, Node.empty, Node.bare, Node.search]
    split
    · split <;> rfl
    · split <;> rfl
  unfold lookup tree
  cases Assoc.get? method t.trees with
  | some tree => rfl
  | none => simp [hempty]

end RouteTable

namespace App

universe u

variable {m : Type → Type u}

/-- The methods and paths of the routes. -/
def keys (app : App m) : List (Method × String) :=
  app.routes.map fun entry => (entry.method, entry.path)

/-- The place of a pattern in the list of routes. -/
def placeOf (app : App m) (method : Method) (path : String) : Nat :=
  (app.place? method path).getD 0

/-- The tables of the application agree, and these are its patterns. -/
structure Tabulated (app : App m) (patterns : Method → Node String) : Prop where
  distinct : app.keys.Nodup
  place_iff : ∀ method path place,
    app.place? method path = some place ↔ app.keys[place]? = some (method, path)
  grows : ∀ method,
    Grows ((app.keys.filter fun key => key.1 = method).map Prod.snd) (patterns method)
  placed : ∀ method marks l, (patterns method).Holds marks l →
    ∃ place, app.place? method l.value = some place
  tree_eq : ∀ method, app.table.tree method = (patterns method).map (app.placeOf method)
  implicit : ∀ entry ∈ app.routes, entry.isImplicit = true → entry.method = .options

theorem tabulated_new [Monad m] [Reports m] (config : Config) :
    (App.new config : App m).Tabulated fun _ => .empty where
  distinct := List.nodup_nil
  place_iff method path place := by simp [App.new, place?, Assoc.get?, keys]
  grows _ := .empty
  placed method marks l hholds := by
    obtain ⟨below, -, hbelow⟩ := Node.holds_iff.mp hholds
    exact absurd hbelow Node.not_holdsBelow_bare
  tree_eq _ := rfl
  implicit := by simp [App.new]

section Insert

variable {app : App m} {patterns : Method → Node String} {entry : RouteEntry m} {place : Nat}

theorem Tabulated.notMem_keys (htables : app.Tabulated patterns) {method : Method}
    {path : String} (hplace : app.place? method path = none) : (method, path) ∉ app.keys := by
  intro hmem
  obtain ⟨place, hkey⟩ := List.getElem?_of_mem hmem
  rw [← htables.place_iff, hplace] at hkey
  exact absurd hkey (by simp)

/-- A pattern without a place is added to the tree of the application as it is added to the tree of
patterns. -/
theorem Tabulated.insert_tree (htables : app.Tabulated patterns) {method : Method} {path : String}
    (hplace : app.place? method path = none) (place : Nat) :
    (app.table.tree method).insert path place =
      Node.mapAttempt (Function.update (app.placeOf method) path place)
        ((patterns method).insert path path) := by
  have hsame : (patterns method).map (app.placeOf method) =
      (patterns method).map (Function.update (app.placeOf method) path place) := by
    apply Node.map_congr
    intro marks l hholds
    obtain ⟨other, hother⟩ := htables.placed method marks l hholds
    have hne : l.value ≠ path := by
      intro hvalue
      rw [hvalue, hplace] at hother
      exact absurd hother (by simp)
    rw [Function.update_of_ne hne]
  have hinsert := Node.insert_map (Function.update (app.placeOf method) path place)
    (patterns method) path path
  rw [Function.update_self] at hinsert
  rw [htables.tree_eq method, hsame, hinsert]

theorem Tabulated.insert_fst_eq (htables : app.Tabulated patterns)
    (hplace : app.place? entry.method entry.path = none) (place : Nat) :
    (app.table.insert entry.method entry.path place).1 =
      ((patterns entry.method).insert entry.path entry.path).1 := by
  rw [RouteTable.insert_fst, htables.insert_tree hplace]
  rfl

theorem Tabulated.keys_set (htables : app.Tabulated patterns)
    (hplace : app.place? entry.method entry.path = some place) :
    ({ app with routes := app.routes.set place entry } : App m).keys = app.keys := by
  obtain ⟨hlength, hkey⟩ := List.getElem?_eq_some_iff.mp ((htables.place_iff _ _ _).mp hplace)
  change (app.routes.set place entry).map _ = app.keys
  rw [List.map_set, ← hkey]
  exact List.set_getElem_self hlength

/-- An application's own route takes the place of an implicit one. -/
theorem Tabulated.takeOver (htables : app.Tabulated patterns)
    (hplace : app.place? entry.method entry.path = some place)
    (hown : entry.isImplicit = false) :
    ({ app with routes := app.routes.set place entry } : App m).Tabulated patterns := by
  have hkeys := htables.keys_set hplace
  refine ⟨?_, ?_, ?_, htables.placed, htables.tree_eq, ?_⟩
  · rw [hkeys]
    exact htables.distinct
  · rw [hkeys]
    exact htables.place_iff
  · rw [hkeys]
    exact htables.grows
  · intro other hmem himplicit
    rcases List.mem_or_eq_of_mem_set hmem with hold | rfl
    · exact htables.implicit other hold himplicit
    · rw [hown] at himplicit
      exact absurd himplicit (by simp)

/-- The trees of an application to which a pattern was added, with the places that its patterns
have then. -/
theorem Tabulated.tree_eq_of_insert (htables : app.Tabulated patterns) {after : App m}
    (hplace : app.place? entry.method entry.path = none)
    (htable : (app.table.insert entry.method entry.path app.routes.length).2 = after.table)
    (hsame : Node.SameOn
      (Function.update (app.placeOf entry.method) entry.path app.routes.length)
      (after.placeOf entry.method)
      ((patterns entry.method).insert entry.path entry.path).2.Holds)
    (hothers : ∀ method ≠ entry.method, after.placeOf method = app.placeOf method)
    (method : Method) :
    after.table.tree method =
      (Function.update patterns entry.method
        ((patterns entry.method).insert entry.path entry.path).2 method).map
          (after.placeOf method) := by
  rw [← htable, RouteTable.tree_insert]
  by_cases hmethod : method = entry.method
  · subst hmethod
    rw [if_pos rfl, Function.update_self, htables.insert_tree hplace]
    exact Node.map_congr _ hsame
  · rw [if_neg hmethod, Function.update_of_ne hmethod, hothers method hmethod]
    exact htables.tree_eq method

/-- What the trees of patterns lead to after an attempt to add one. -/
theorem Tabulated.placed_or_new (htables : app.Tabulated patterns) {method : Method}
    {marks : List Mark} {l : Leaf String}
    (hholds : (Function.update patterns entry.method
      ((patterns entry.method).insert entry.path entry.path).2 method).Holds marks l) :
    (∃ place, app.place? method l.value = some place) ∨
      ((patterns entry.method).insert entry.path entry.path).1 = none ∧
        (method, l.value) = (entry.method, entry.path) := by
  by_cases hmethod : method = entry.method
  · subst hmethod
    rw [Function.update_self] at hholds
    rcases Node.old_or_new_of_insert hholds with ⟨marks', hold⟩ | ⟨hnone, hvalue⟩
    · exact .inl (htables.placed _ marks' l hold)
    · exact .inr ⟨hnone, by rw [hvalue]⟩
  · rw [Function.update_of_ne hmethod] at hholds
    exact .inl (htables.placed method marks l hholds)

/-- A pattern is refused. -/
theorem Tabulated.refuse (htables : app.Tabulated patterns)
    (hplace : app.place? entry.method entry.path = none) {reason : InsertError} {table : RouteTable}
    (hinsert : app.table.insert entry.method entry.path app.routes.length =
      (some reason, table)) :
    ({ app with table := table } : App m).Tabulated
      (Function.update patterns entry.method
        ((patterns entry.method).insert entry.path entry.path).2) := by
  have hrefused : ((patterns entry.method).insert entry.path entry.path).1 = some reason := by
    rw [← htables.insert_fst_eq hplace, hinsert]
  have hplaced : ∀ method marks l, (Function.update patterns entry.method
      ((patterns entry.method).insert entry.path entry.path).2 method).Holds marks l →
      ∃ place, app.place? method l.value = some place := by
    intro method marks l hholds
    refine (htables.placed_or_new hholds).resolve_right ?_
    rw [hrefused]
    simp
  refine ⟨htables.distinct, htables.place_iff, ?_, hplaced, ?_, htables.implicit⟩
  · intro method
    by_cases hmethod : method = entry.method
    · subst hmethod
      rw [Function.update_self]
      exact .refused _ (htables.grows _) (by simp [hrefused])
    · rw [Function.update_of_ne hmethod]
      exact htables.grows method
  · apply htables.tree_eq_of_insert hplace (congrArg Prod.snd hinsert)
    · intro marks l hholds
      rw [← Function.update_self entry.method
        ((patterns entry.method).insert entry.path entry.path).2 patterns] at hholds
      obtain ⟨place, hl⟩ := hplaced entry.method marks l hholds
      have hne : l.value ≠ entry.path := by
        intro hvalue
        rw [hvalue, hplace] at hl
        exact absurd hl (by simp)
      rw [Function.update_of_ne hne]
      rfl
    · intro method _
      rfl

/-- The places after one more route. -/
theorem Tabulated.place_iff_append (htables : app.Tabulated patterns)
    (hplace : app.place? entry.method entry.path = none) (method : Method) (path : String)
    (place : Nat) :
    Assoc.get? (method, path)
        (Assoc.insert (entry.method, entry.path) app.routes.length app.index) = some place ↔
      (app.keys ++ [(entry.method, entry.path)])[place]? = some (method, path) := by
  have hfresh := htables.notMem_keys hplace
  have hlength : app.keys.length = app.routes.length := List.length_map _
  rw [List.getElem?_append, List.getElem?_singleton, hlength]
  by_cases hkey : (method, path) = (entry.method, entry.path)
  · rw [hkey, Assoc.get?_insert_self, Option.some.injEq]
    split
    next hlt =>
      have hgone : app.keys[place]? ≠ some (entry.method, entry.path) :=
        fun hget => hfresh (List.mem_of_getElem? hget)
      simp only [hgone, iff_false]
      omega
    next hle =>
      split
      next => simp only [iff_true]; omega
      next => simp only [reduceCtorEq, iff_false]; omega
  · rw [Assoc.get?_insert_of_ne hkey]
    refine (htables.place_iff method path place).trans ?_
    split
    next => exact Iff.rfl
    next hle =>
      have hnone : app.keys[place]? = none := by
        rw [List.getElem?_eq_none_iff]
        omega
      rw [hnone]
      split
      next => simp [Ne.symm hkey]
      next => exact Iff.rfl

/-- A route is added. -/
theorem Tabulated.accept (htables : app.Tabulated patterns)
    (hplace : app.place? entry.method entry.path = none) {table : RouteTable}
    (himplicit : entry.isImplicit = true → entry.method = .options)
    (hinsert : app.table.insert entry.method entry.path app.routes.length = (none, table)) :
    ({ app with
      table := table
      routes := app.routes ++ [entry]
      index := Assoc.insert (entry.method, entry.path) app.routes.length app.index } :
        App m).Tabulated
      (Function.update patterns entry.method
        ((patterns entry.method).insert entry.path entry.path).2) := by
  have haccepted : ((patterns entry.method).insert entry.path entry.path).1 = none := by
    rw [← htables.insert_fst_eq hplace, hinsert]
  have hfresh := htables.notMem_keys hplace
  have hkeys : (app.routes ++ [entry]).map (fun entry => (entry.method, entry.path)) =
      app.keys ++ [(entry.method, entry.path)] := by
    rw [List.map_append]
    rfl
  have hself : Assoc.get? (entry.method, entry.path)
      (Assoc.insert (entry.method, entry.path) app.routes.length app.index) =
        some app.routes.length := Assoc.get?_insert_self ..
  have hother : ∀ key ≠ (entry.method, entry.path),
      Assoc.get? key (Assoc.insert (entry.method, entry.path) app.routes.length app.index) =
        Assoc.get? key app.index :=
    fun key hkey => Assoc.get?_insert_of_ne hkey ..
  refine ⟨?_, ?_, ?_, ?_, ?_, ?_⟩
  · change ((app.routes ++ [entry]).map _).Nodup
    rw [hkeys, List.nodup_append]
    refine ⟨htables.distinct, List.nodup_singleton _, ?_⟩
    intro key hkey other hother hsame
    rw [List.mem_singleton.mp hother] at hsame
    exact hfresh (hsame ▸ hkey)
  · intro method path place
    change Assoc.get? _ _ = _ ↔ ((app.routes ++ [entry]).map _)[place]? = _
    rw [hkeys]
    exact htables.place_iff_append hplace method path place
  · intro method
    change Grows ((((app.routes ++ [entry]).map _).filter _).map _) _
    rw [hkeys, List.filter_append, List.map_append]
    by_cases hmethod : method = entry.method
    · subst hmethod
      rw [Function.update_self, List.filter_singleton, decide_eq_true rfl]
      exact .accepted _ (htables.grows _) haccepted
    · rw [Function.update_of_ne hmethod, List.filter_singleton,
        decide_eq_false (Ne.symm hmethod)]
      simpa using htables.grows method
  · intro method marks l hholds
    change ∃ place, Assoc.get? _ _ = some place
    by_cases hkey : (method, l.value) = (entry.method, entry.path)
    · rw [hkey]
      exact ⟨_, hself⟩
    · rw [hother _ hkey]
      exact (htables.placed_or_new hholds).resolve_right fun hnew => hkey hnew.2
  · apply htables.tree_eq_of_insert hplace (congrArg Prod.snd hinsert)
    · intro marks l _
      by_cases hvalue : l.value = entry.path
      · rw [hvalue, Function.update_self]
        exact (congrArg (·.getD 0) hself).symm
      · rw [Function.update_of_ne hvalue]
        have hne : (entry.method, l.value) ≠ (entry.method, entry.path) :=
          fun hsame => hvalue (Prod.mk.inj hsame).2
        exact (congrArg (·.getD 0) (hother _ hne)).symm
    · intro method hmethod
      funext path
      have hne : (method, path) ≠ (entry.method, entry.path) :=
        fun hsame => hmethod (Prod.mk.inj hsame).1
      exact congrArg (·.getD 0) (hother _ hne)
  · intro other hmem
    rw [List.mem_append, List.mem_singleton] at hmem
    rcases hmem with hold | rfl
    · exact htables.implicit other hold
    · exact himplicit

theorem Tabulated.insert (htables : app.Tabulated patterns)
    (himplicit : entry.isImplicit = true → entry.method = .options) :
    ∃ patterns, (app.insert entry).2.Tabulated patterns := by
  unfold App.insert
  split
  next place hplace =>
    split
    next => exact ⟨patterns, htables⟩
    next htaken =>
      have hown : entry.isImplicit = false := by
        rw [Bool.or_eq_true, not_or] at htaken
        exact Bool.eq_false_iff.mpr htaken.1
      exact ⟨patterns, htables.takeOver hplace hown⟩
  next hplace =>
    dsimp only
    split
    next hinsert => exact ⟨_, htables.refuse hplace hinsert⟩
    next hinsert => exact ⟨_, htables.accept hplace himplicit hinsert⟩

end Insert

section Registration

variable [Monad m] {app : App m} {patterns : Method → Node String}

theorem Tabulated.insertOptions (htables : app.Tabulated patterns) (method : Method)
    (path : String) : ∃ patterns, (app.insertOptions method path).2.Tabulated patterns := by
  unfold App.insertOptions
  split
  next => exact htables.insert fun _ => rfl
  next => exact ⟨patterns, htables⟩

theorem Tabulated.register (htables : app.Tabulated patterns) (route : Route (Endpoint m)) :
    ∃ patterns, (app.register route).2.1.Tabulated patterns := by
  let entry : RouteEntry m :=
    { method := route.method, path := route.path, endpoint := route.endpoint, tags := route.tags }
  have hinsert : ∃ patterns, (app.insert entry).2.Tabulated patterns := htables.insert (by simp [entry])
  obtain ⟨inserted, htables⟩ := hinsert
  unfold App.register
  dsimp only
  split
  next heq =>
    rw [heq] at htables
    exact ⟨inserted, htables⟩
  next heq =>
    rw [heq] at htables
    obtain ⟨patterns, hoptions⟩ := htables.insertOptions route.method route.path
    split <;> exact ⟨patterns, hoptions⟩

theorem Tabulated.registerAll (htables : app.Tabulated patterns)
    (routes : List (Route (Endpoint m))) :
    ∃ patterns, (app.registerAll routes).2.1.Tabulated patterns := by
  induction routes generalizing app patterns with
  | nil => exact ⟨patterns, htables⟩
  | cons route rest ih =>
      obtain ⟨patterns, hregister⟩ := htables.register route
      unfold App.registerAll
      split
      next heq =>
        rw [heq] at hregister
        exact ⟨patterns, hregister⟩
      next heq =>
        rw [heq] at hregister
        exact ih hregister

end Registration

/-- The tables of an application agree, however it was made. -/
theorem Made.tabulated [Monad m] [Reports m] {config : Config} {app : App m}
    (hmade : Made config app) : ∃ patterns, app.Tabulated patterns := by
  induction hmade with
  | new => exact ⟨_, tabulated_new config⟩
  | register route _ ih =>
      obtain ⟨patterns, htables⟩ := ih
      exact htables.register route
  | registerAll routes _ ih =>
      obtain ⟨patterns, htables⟩ := ih
      exact htables.registerAll routes
  | addLayer _ _ ih | onStatus _ _ _ ih | onType _ _ _ ih | override _ _ _ ih
  | removeOverride _ _ ih | clearOverrides _ ih | withState _ _ ih | onStartup _ _ ih
  | onShutdown _ _ ih =>
      obtain ⟨patterns, htables⟩ := ih
      exact ⟨patterns, htables.distinct, htables.place_iff, htables.grows, htables.placed,
        htables.tree_eq, htables.implicit⟩

section Tabulated

variable {app : App m} {patterns : Method → Node String}

theorem Tabulated.exists_entry (htables : app.Tabulated patterns) {method : Method} {path : String}
    {place : Nat} (hplace : app.place? method path = some place) :
    ∃ entry, app.routes[place]? = some entry ∧ entry.method = method ∧ entry.path = path := by
  have hkey := (htables.place_iff method path place).mp hplace
  rw [keys, List.getElem?_map, Option.map_eq_some_iff] at hkey
  obtain ⟨entry, hentry, hsame⟩ := hkey
  rw [Prod.mk.injEq] at hsame
  exact ⟨entry, hentry, hsame⟩

/-- A path leads to the place of the pattern that is selected for it. -/
theorem Tabulated.lookup_eq (htables : app.Tabulated patterns) (method : Method) (path : String) :
    app.table.lookup method path = ((patterns method).lookup path).map fun found =>
      (app.placeOf method found.1, Assoc.ofList found.2) := by
  rw [RouteTable.lookup_eq, htables.tree_eq, Node.lookup_map, Option.map_map]
  rfl

theorem Tabulated.placed_of_lookup (htables : app.Tabulated patterns) {method : Method}
    {path pattern : String} {captures : List (String × String)}
    (hlookup : (patterns method).lookup path = some (pattern, captures)) :
    app.place? method pattern = some (app.placeOf method pattern) := by
  obtain ⟨found, hfound, hsame⟩ := Option.map_eq_some_iff.mp hlookup
  obtain ⟨marks, l, hholds, hvalue⟩ := Node.search_finds _ _ _ hfound
  obtain ⟨place, hplace⟩ := htables.placed method marks l hholds
  have hpattern : l.value = pattern := by
    rw [← hvalue]
    exact (Prod.mk.inj hsame).1
  rw [placeOf, ← hpattern, hplace, Option.getD_some]

/-- What the trees of the application lead to are the places of routes of their patterns. -/
theorem Tabulated.held (htables : app.Tabulated patterns) {method : Method} {marks : List Mark}
    {l : Leaf Nat} (hholds : (app.table.tree method).Holds marks l) :
    ∃ entry, app.routes[l.value]? = some entry ∧ entry.method = method ∧
      (patterns method).Holds marks ⟨entry.path, l.names⟩ := by
  rw [htables.tree_eq] at hholds
  obtain ⟨l, hheld, rfl⟩ := Node.exists_holds_of_map hholds
  obtain ⟨place, hplace⟩ := htables.placed method marks l hheld
  obtain ⟨entry, hentry, hmethod, hpath⟩ := htables.exists_entry hplace
  refine ⟨entry, ?_, hmethod, ?_⟩
  · rw [← hentry, Leaf.map, placeOf, hplace, Option.getD_some]
  · rw [hpath]
    exact hheld

end Tabulated

/-- However an application was made, its tables agree: routes are told apart by method and path, the
index has the places of all of them and of nothing else, only routes that answer what a path allows
are implicit, and the trees lead to the places of the routes of their patterns.  A request is
answered by the route of the pattern that is selected for it, with what this pattern captures. -/
theorem Made.tables_agree [Monad m] [Reports m] [Tasks m] {config : Config} {app : App m}
    (hmade : Made config app) :
    ∃ patterns, app.Tabulated patterns ∧
      (∀ method marks l, (app.table.tree method).Holds marks l →
        ∃ entry, app.routes[l.value]? = some entry ∧ entry.method = method ∧
          (patterns method).Holds marks ⟨entry.path, l.names⟩) ∧
      (∀ request, (patterns request.method).lookup request.path = none →
        app.table.lookup request.method request.path = none ∧
        app.handle request = app.notFound request) ∧
      ∀ request pattern captures,
        (patterns request.method).lookup request.path = some (pattern, captures) →
        ∃ place entry,
          app.table.lookup request.method request.path = some (place, Assoc.ofList captures) ∧
          app.routes[place]? = some entry ∧ entry.method = request.method ∧
          entry.path = pattern ∧
          app.dispatcher? request.method pattern =
            some (app.core.dispatch (some entry.endpoint)) ∧
          app.handle request =
            app.core.dispatch (some entry.endpoint)
              (request.withPathParams (Assoc.ofList captures)) := by
  obtain ⟨patterns, htables⟩ := hmade.tabulated
  refine ⟨patterns, htables, ?_, ?_, ?_⟩
  · intro method marks l hholds
    exact htables.held hholds
  · intro request hnone
    have hlookup := htables.lookup_eq request.method request.path
    rw [hnone, Option.map_none] at hlookup
    refine ⟨hlookup, ?_⟩
    rw [handle, hlookup]
  · intro request pattern captures hsome
    have hlookup := htables.lookup_eq request.method request.path
    rw [hsome, Option.map_some] at hlookup
    have hplace := htables.placed_of_lookup hsome
    obtain ⟨entry, hentry, hmethod, hpath⟩ := htables.exists_entry hplace
    refine ⟨app.placeOf request.method pattern, entry, hlookup, hentry, hmethod, hpath, ?_, ?_⟩
    · rw [dispatcher?, find?, hplace, Option.bind_some, hentry, Option.map_some]
    · rw [handle, hlookup]
      dsimp only
      rw [hentry, Option.map_some]

/-! ## A route that is taken over -/

/-- An application with one path, and a route of its own for what the path allows. -/
def pingApp : App (Routine String) :=
  ((App.new {}).registerAll
    [⟨.get, "/ping/{id}", .options, []⟩,
      ⟨.options, "/ping/{id}", { Endpoint.options with name := "own" }, []⟩]).2.1

theorem tables_agree_pingApp :
    Made {} pingApp ∧ pingApp.keys = [(.get, "/ping/{id}"), (.options, "/ping/{id}")] ∧
    ∃ entry, pingApp.find? .options "/ping/{id}" = some entry ∧ entry.isImplicit = false ∧
      pingApp.handle { method := .options, path := "/ping/3" } =
        pingApp.core.dispatch (some entry.endpoint)
          { method := .options, path := "/ping/3", pathParams := [("id", "3")] } := by
  have hmade : Made {} pingApp := .registerAll _ .new
  have hlookup : pingApp.table.lookup .options "/ping/3" = some (1, [("id", "3")]) := by
    decide +kernel
  have hroute : (pingApp.routes[1]?.map fun entry => (entry.path, entry.isImplicit)) =
      some ("/ping/{id}", false) := by
    decide +kernel
  obtain ⟨patterns, htables, -, hunmatched, hmatched⟩ := hmade.tables_agree
  refine ⟨hmade, by decide +kernel, ?_⟩
  cases hselected : (patterns .options).lookup "/ping/3" with
  | none =>
      have hnone := (hunmatched { method := .options, path := "/ping/3" } hselected).1
      rw [hlookup] at hnone
      exact absurd hnone (by simp)
  | some found =>
      obtain ⟨place, entry, hplace, hentry, hmethod, hpath, -, hhandle⟩ :=
        hmatched { method := .options, path := "/ping/3" } found.1 found.2 hselected
      rw [hlookup, Option.some.injEq, Prod.mk.injEq] at hplace
      obtain ⟨rfl, hcaptures⟩ := hplace
      rw [hentry, Option.map_some, Option.some.injEq, Prod.mk.injEq] at hroute
      have hindex : pingApp.place? .options "/ping/{id}" = some 1 := by decide +kernel
      refine ⟨entry, ?_, hroute.2, ?_⟩
      · rw [find?, hindex, Option.bind_some, hentry]
      · rw [hhandle, ← hcaptures]
        rfl

end App
end WebApp
