import Mathlib.Tactic
import WebApp.Proofs.Dependency.PlainRecursion

/-!
# Where the values come from

Before a resolution begins it can be told not only which providers it calls, but also which of
these calls gives each value that a provider gets.  The value comes from an earlier call: the one
that was made for the reference itself, or the last one that was made for a cached reference to the
same thing.  So calls draw only on calls before them, however long the chain is.
-/

namespace WebApp
namespace Resolver

universe u

/-! ## The flow -/

/-- A reference, and the place of the call that its value comes from.  It has none where it is
overridden. -/
structure Input (m : Type → Type u) : Type u where
  reference : Reference (Dependency m)
  source : Option Nat

/-- A place where a provider is called, whether for a cached reference, and with what. -/
structure Stop (m : Type → Type u) : Type u where
  dependency : Dependency m
  isCached : Bool
  inputs : List (Input m)

section Flow

variable {m : Type → Type u}

/-- The calls that cached references share the values of, after more stops. -/
def learn (known : List (DependencyId × Nat)) (place : Nat) :
    List (Stop m) → List (DependencyId × Nat)
  | [] => known
  | stop :: rest =>
    learn (if stop.isCached then Assoc.insert stop.dependency.id place known else known)
      (place + 1) rest

theorem learn_append (known : List (DependencyId × Nat)) (place : Nat)
    (first second : List (Stop m)) :
    learn known place (first ++ second) =
      learn (learn known place first) (place + first.length) second := by
  induction first generalizing known place with
  | nil => rfl
  | cons stop rest ih =>
      simp only [List.cons_append, learn, List.length_cons, ih]
      congr 1
      omega

/-- The call that gives the value of a cached reference. -/
def shared? (known : List (DependencyId × Nat)) (id : DependencyId) (isCached : Bool) :
    Option Nat :=
  if isCached then Assoc.get? id known else none

mutual

/-- The calls that one reference leads to when so many were made before, and the source of its
value. -/
def flowOne (overrides : Overrides) (known : List (DependencyId × Nat)) (place : Nat)
    (d : Dependency m) (isCached : Bool) : List (Stop m) × Option Nat :=
  match d with
  | .node id name provider params =>
    if Assoc.contains id overrides then
      ([], none)
    else
      match shared? known id isCached with
      | some source => ([], some source)
      | none =>
        let flow := flowEach overrides known place params
        (flow.1 ++ [⟨.node id name provider params, isCached, flow.2⟩],
          some (place + flow.1.length))

def flowEach (overrides : Overrides) (known : List (DependencyId × Nat)) (place : Nat)
    (references : List (Reference (Dependency m))) : List (Stop m) × List (Input m) :=
  match references with
  | [] => ([], [])
  | ⟨name, target, isCached⟩ :: rest =>
    let first := flowOne overrides known place target isCached
    let later := flowEach overrides (learn known place first.1) (place + first.1.length) rest
    (first.1 ++ later.1, ⟨⟨name, target, isCached⟩, first.2⟩ :: later.2)

end

theorem flowOne_eq (overrides : Overrides) (known : List (DependencyId × Nat)) (place : Nat)
    (d : Dependency m) (isCached : Bool) :
    flowOne overrides known place d isCached =
      if Assoc.contains d.id overrides then ([], none)
      else
        match shared? known d.id isCached with
        | some source => ([], some source)
        | none =>
          ((flowEach overrides known place d.params).1 ++
              [⟨d, isCached, (flowEach overrides known place d.params).2⟩],
            some (place + (flowEach overrides known place d.params).1.length)) := by
  cases d
  rw [flowOne]
  rfl

/-- All calls of a resolution, in order. -/
def flow (overrides : Overrides) (references : List (Reference (Dependency m))) : List (Stop m) :=
  (flowEach overrides [] 0 references).1

/-- The call at the second place is made with the value of the call at the first. -/
def Feeds (stops : List (Stop m)) (source place : Nat) : Prop :=
  ∃ stop, stops[place]? = some stop ∧ ∃ input ∈ stop.inputs, input.source = some source

/-- The value of the call at the first place has gone into the call at the second, by itself or
through calls in between. -/
def DrawnOn (stops : List (Stop m)) : Nat → Nat → Prop :=
  Relation.TransGen (Feeds stops)

end Flow

/-! ## Calls along the flow -/

variable {σ : Type}

/-- The call at a place was one of this dependency, and has given this value. -/
def Gave (calls : List (Provision σ)) (place : Nat) (id : DependencyId) (value : Datum) : Prop :=
  ∃ call, calls[place]? = some call ∧ call.dependency.id = id ∧
    call.outcome = .finished (.ok value)

/-- The value is the one that stands in for the dependency, or was given by the call at the
source. -/
def Comes (overrides : Overrides) (calls : List (Provision σ)) (id : DependencyId) :
    Option Nat → Datum → Prop
  | none, value => Assoc.get? id overrides = some value
  | some place, value => Assoc.get? id overrides = none ∧ Gave calls place id value

/-- The values by name are those of the inputs. -/
def Filled (overrides : Overrides) (calls : List (Provision σ)) (inputs : List (Input (Routine σ)))
    (entries : List (String × Datum)) : Prop :=
  List.Forall₂ (fun input entry => entry.1 = input.reference.name ∧
    Comes overrides calls input.reference.target.id input.source entry.2) inputs entries

/-- The call of a stop, made with what the calls before it have given. -/
structure Receives (overrides : Overrides) (before : List (Provision σ)) (stop : Stop (Routine σ))
    (call : Provision σ) : Prop where
  same : call.dependency = stop.dependency
  params : stop.inputs.map Input.reference = stop.dependency.params
  filled : ∃ entries, call.call.resolved = .ofList entries ∧
    Filled overrides before stop.inputs entries

/-- Behind some calls, more are made at these stops one after another, at least up to a place. -/
inductive Along (overrides : Overrides) :
    List (Provision σ) → List (Stop (Routine σ)) → List (Provision σ) → Prop where
  | upTo (before : List (Provision σ)) (stops : List (Stop (Routine σ))) :
      Along overrides before stops []
  | call {before calls : List (Provision σ)} {stop : Stop (Routine σ)}
      {stops : List (Stop (Routine σ))} {call : Provision σ} :
      Receives overrides before stop call → Along overrides (before ++ [call]) stops calls →
      Along overrides before (stop :: stops) (call :: calls)

section Calls

variable {overrides : Overrides} {before earlier later calls : List (Provision σ)}
variable {stops first second : List (Stop (Routine σ))}

theorem Gave.append {place : Nat} {id : DependencyId} {value : Datum}
    (hgave : Gave calls place id value) (more : List (Provision σ)) :
    Gave (calls ++ more) place id value := by
  obtain ⟨call, hplace, hid, hended⟩ := hgave
  have hlt : place < calls.length := (List.getElem?_eq_some_iff.mp hplace).1
  exact ⟨call, by rw [List.getElem?_append_left hlt, hplace], hid, hended⟩

theorem Comes.append {id : DependencyId} {source : Option Nat} {value : Datum}
    (hcomes : Comes overrides calls id source value) (more : List (Provision σ)) :
    Comes overrides (calls ++ more) id source value := by
  cases source with
  | none => exact hcomes
  | some place => exact ⟨hcomes.1, hcomes.2.append more⟩

theorem Along.append_of_cut (halong : Along overrides before first calls)
    (second : List (Stop (Routine σ))) : Along overrides before (first ++ second) calls := by
  induction halong with
  | upTo before stops => exact .upTo before _
  | call hreceives _ ih => exact .call hreceives ih

/-- Where all of the first stops were made the others follow. -/
theorem Along.append (hearlier : Along overrides before first earlier)
    (hwhole : earlier.length = first.length)
    (hlater : Along overrides (before ++ earlier) second later) :
    Along overrides before (first ++ second) (earlier ++ later) := by
  induction hearlier with
  | upTo before stops =>
      have hnone : stops = [] := List.length_eq_zero_iff.mp hwhole.symm
      subst hnone
      rwa [List.append_nil] at hlater
  | call hreceives _ ih =>
      rw [List.length_cons, List.length_cons, Nat.add_right_cancel_iff] at hwhole
      rw [← List.singleton_append, ← List.append_assoc] at hlater
      exact .call hreceives (ih hwhole hlater)

theorem Along.exists_receives (halong : Along overrides before stops calls) {place : Nat}
    {call : Provision σ} (hcall : calls[place]? = some call) :
    ∃ stop, stops[place]? = some stop ∧
      Receives overrides (before ++ calls.take place) stop call := by
  induction halong generalizing place with
  | upTo => simp at hcall
  | @call before calls stop stops head hreceives _ ih =>
      cases place with
      | zero =>
          rw [List.getElem?_cons_zero, Option.some.injEq] at hcall
          subst hcall
          exact ⟨stop, rfl, by simpa using hreceives⟩
      | succ place =>
          rw [List.getElem?_cons_succ] at hcall
          obtain ⟨other, hother, hreceived⟩ := ih hcall
          refine ⟨other, by rw [List.getElem?_cons_succ, hother], ?_⟩
          rwa [List.append_assoc, List.singleton_append] at hreceived

/-- A call is only made with values of calls before it. -/
theorem Along.lt_of_feeds (halong : Along overrides [] stops calls) {source place : Nat}
    (hplace : place < calls.length) (hfeeds : Feeds stops source place) : source < place := by
  obtain ⟨stop, hstop, hreceives⟩ :=
    halong.exists_receives (List.getElem?_eq_getElem hplace)
  obtain ⟨other, hother, input, hinput, hsource⟩ := hfeeds
  rw [hstop, Option.some.injEq] at hother
  subst hother
  obtain ⟨entries, -, hfilled⟩ := hreceives.filled
  obtain ⟨index, hindex, rfl⟩ := List.getElem_of_mem hinput
  rw [Filled, List.forall₂_iff_get] at hfilled
  obtain ⟨hlength, hall⟩ := hfilled
  have hcomes := (hall index hindex (hlength ▸ hindex)).2
  rw [List.get_eq_getElem, hsource] at hcomes
  obtain ⟨-, call, hcall, -⟩ := hcomes
  have hlt := (List.getElem?_eq_some_iff.mp hcall).1
  rw [List.nil_append, List.length_take] at hlt
  exact lt_of_lt_of_le hlt (Nat.min_le_left _ _)

/-- However long the chain is, what a call draws on lies before it. -/
theorem Along.lt_of_drawnOn (halong : Along overrides [] stops calls) {source place : Nat}
    (hplace : place < calls.length) (hdrawn : DrawnOn stops source place) : source < place := by
  unfold DrawnOn at hdrawn
  -- From the last link on: what it draws on was called, so that the others lie before that call.
  induction hdrawn with
  | single hfeeds => exact halong.lt_of_feeds hplace hfeeds
  | tail _ hfeeds ih =>
      have hlast := halong.lt_of_feeds hplace hfeeds
      exact (ih (hlast.trans hplace)).trans hlast

end Calls

/-! ## Every resolution goes along its flow -/

/-- The cache of a ledger holds the values of the calls that are known to be shared. -/
def Knows (known : List (DependencyId × Nat)) (calls : List (Provision σ)) (ledger : Ledger) :
    Prop :=
  ∀ id, Option.Rel (fun place value => Gave calls place id value) (Assoc.get? id known)
    (Assoc.get? id ledger.cache)

theorem Knows.append {known : List (DependencyId × Nat)} {calls : List (Provision σ)}
    {ledger : Ledger} (hknows : Knows known calls ledger) (more : List (Provision σ)) :
    Knows known (calls ++ more) ledger := by
  intro id
  have hsame := hknows id
  generalize Assoc.get? id known = place at hsame ⊢
  generalize Assoc.get? id ledger.cache = value at hsame ⊢
  cases hsame with
  | none => exact .none
  | some hgave => exact .some (hgave.append more)

/-- A call that has succeeded is known for what its value is recorded. -/
theorem Knows.recorded {known : List (DependencyId × Nat)} {calls : List (Provision σ)}
    {ledger : Ledger} (hknows : Knows known calls ledger) (call : Provision σ) (isCached : Bool)
    {value : Datum} (hended : call.outcome = .finished (.ok value)) :
    Knows (if isCached then Assoc.insert call.dependency.id calls.length known else known)
      (calls ++ [call]) (recorded call.dependency isCached value ledger) := by
  intro id
  rw [cache_recorded]
  cases isCached with
  | false => exact hknows.append [call] id
  | true =>
      by_cases hid : id = call.dependency.id
      · subst hid
        simp only [if_true, Assoc.get?_insert_self]
        exact .some ⟨call, by simp, rfl, hended⟩
      · simp only [if_true, Assoc.get?_insert_of_ne hid]
        exact hknows.append [call] id

/-- A resolution along its flow.  Where it has succeeded all calls were made, what they have shared
is known, and so is where the result comes from. -/
structure Flows {α : Type} (overrides : Overrides) (known : List (DependencyId × Nat))
    (before : List (Provision σ)) (stops : List (Stop (Routine σ)))
    (comes : List (Provision σ) → α → Prop) (calls : List (Provision σ)) (result : Except Halt α)
    (after : Ledger) : Prop where
  along : Along overrides before stops calls
  whole : ∀ value, result = .ok value → calls.length = stops.length ∧
    Knows (learn known before.length stops) (before ++ calls) after ∧ comes (before ++ calls) value

section Flowing

variable {setting : Setting}

/-- What is known without a call is known to the flow. -/
theorem flowOne_of_known {known : List (DependencyId × Nat)} {before : List (Provision σ)}
    {d : Dependency (Routine σ)} {isCached : Bool} {ledger : Ledger} {value : Datum}
    (hknows : Knows known before ledger)
    (hknown : known? setting d.id isCached ledger = some value) :
    (flowOne setting.overrides known before.length d isCached).1 = [] ∧
      Comes setting.overrides before d.id
        (flowOne setting.overrides known before.length d isCached).2 value := by
  rw [flowOne_eq]
  unfold known? at hknown
  cases hoverride : Assoc.get? d.id setting.overrides with
  | some substitute =>
      rw [hoverride, Option.some.injEq] at hknown
      subst hknown
      rw [if_pos (by rw [Assoc.contains, hoverride, Option.isSome_some])]
      exact ⟨rfl, hoverride⟩
  | none =>
      rw [hoverride] at hknown
      rw [if_neg (by rw [Assoc.contains, hoverride]; simp)]
      cases isCached with
      | false => simp at hknown
      | true =>
          have hcached : Assoc.get? d.id ledger.cache = some value := by simpa using hknown
          have hsame := hknows d.id
          rw [hcached] at hsame
          rw [shared?, if_pos rfl]
          cases hplace : Assoc.get? d.id known with
          | none =>
              rw [hplace] at hsame
              cases hsame
          | some place =>
              rw [hplace] at hsame
              cases hsame with
              | some hgave => exact ⟨rfl, hoverride, hgave⟩

/-- What is not known takes a call, behind those for its parameters. -/
theorem flowOne_of_unknown {known : List (DependencyId × Nat)} {before : List (Provision σ)}
    {d : Dependency (Routine σ)} {isCached : Bool} {ledger : Ledger}
    (hknows : Knows known before ledger)
    (hknown : known? setting d.id isCached ledger = none) :
    flowOne setting.overrides known before.length d isCached =
      ((flowEach setting.overrides known before.length d.params).1 ++
          [⟨d, isCached, (flowEach setting.overrides known before.length d.params).2⟩],
        some (before.length +
          (flowEach setting.overrides known before.length d.params).1.length)) := by
  have hoverride := override_eq_none hknown
  have hunshared : shared? known d.id isCached = none := by
    cases isCached with
    | false => rfl
    | true =>
        have hcached : Assoc.get? d.id ledger.cache = none := by
          simpa [known?, hoverride] using hknown
        have hsame := hknows d.id
        rw [hcached] at hsame
        rw [shared?, if_pos rfl]
        generalize Assoc.get? d.id known = place at hsame
        cases hsame
        rfl
  rw [flowOne_eq, if_neg (by rw [Assoc.contains, hoverride]; simp), hunshared]

theorem map_reference_flowEach {m : Type → Type u} (overrides : Overrides)
    (known : List (DependencyId × Nat)) (place : Nat)
    (references : List (Reference (Dependency m))) :
    (flowEach overrides known place references).2.map Input.reference = references := by
  induction references generalizing known place with
  | nil =>
      rw [flowEach]
      rfl
  | cons reference rest ih =>
      rw [flowEach, List.map_cons, ih]

mutual

theorem ResolvesOne.flows {known : List (DependencyId × Nat)} {resolving : List DependencyId}
    {d : Dependency (Routine σ)} {isCached : Bool} {ledger after : Ledger}
    {before calls : List (Provision σ)} {result : Except Halt Datum}
    (hresolves : ResolvesOne setting resolving d isCached ledger calls result after)
    (hknows : Knows known before ledger) :
    Flows setting.overrides known before
      (flowOne setting.overrides known before.length d isCached).1
      (fun made value => Comes setting.overrides made d.id
        (flowOne setting.overrides known before.length d isCached).2 value)
      calls result after := by
  match hresolves with
  | .known hknown =>
      -- A cache hit makes no call, and its value is that of the call that the flow names.
      obtain ⟨hnone, hcomes⟩ := flowOne_of_known hknows hknown
      rw [hnone]
      refine ⟨.upTo before [], ?_⟩
      rintro _ ⟨⟩
      rw [List.append_nil]
      exact ⟨rfl, hknows, hcomes⟩
  | .cycle _ _ => exact ⟨.upTo before _, by simp⟩
  | .params hknown _ hparams =>
      have hflows := ResolvesEach.flows hparams hknows
      rw [flowOne_of_unknown hknows hknown]
      exact ⟨hflows.along.append_of_cut _, by simp⟩
  | .called provision hknown _ hparams hdependency hcall =>
      rename_i middle earlier entries hfresh
      obtain ⟨halong, hwhole⟩ := ResolvesEach.flows hparams hknows
      obtain ⟨hlength, hknowsMiddle, hfilled⟩ := hwhole entries rfl
      rw [flowOne_of_unknown hknows hknown]
      subst hdependency
      have hreceives : Receives setting.overrides (before ++ earlier) ⟨provision.dependency,
          isCached, (flowEach setting.overrides known before.length
            provision.dependency.params).2⟩ provision :=
        ⟨rfl, map_reference_flowEach _ _ _ _, entries, by rw [hcall], hfilled⟩
      refine ⟨halong.append hlength (.call hreceives (.upTo _ _)), ?_⟩
      intro value hvalue
      rw [concluded_fst] at hvalue
      have hended := eq_of_resultOf_ok hvalue
      have hplace : before.length + (flowEach setting.overrides known before.length
          provision.dependency.params).1.length = (before ++ earlier).length := by
        rw [List.length_append, hlength]
      rw [← List.append_assoc]
      refine ⟨by simp [hlength], ?_, ?_⟩
      · -- What the parameters have shared stays, and the call adds its own value.
        rw [learn_append, hplace, hended, concluded]
        exact hknowsMiddle.recorded provision isCached hended
      · dsimp only
        rw [hplace]
        exact ⟨override_eq_none hknown, provision, by simp, rfl, hended⟩

theorem ResolvesEach.flows {known : List (DependencyId × Nat)} {resolving : List DependencyId}
    {references : List (Reference (Dependency (Routine σ)))} {ledger after : Ledger}
    {before calls : List (Provision σ)} {result : Except Halt (List (String × Datum))}
    (hresolves : ResolvesEach setting resolving references ledger calls result after)
    (hknows : Knows known before ledger) :
    Flows setting.overrides known before
      (flowEach setting.overrides known before.length references).1
      (fun made entries => Filled setting.overrides made
        (flowEach setting.overrides known before.length references).2 entries)
      calls result after := by
  match hresolves with
  | .nil _ _ =>
      rw [flowEach]
      refine ⟨.upTo before [], ?_⟩
      rintro _ ⟨⟩
      rw [List.append_nil]
      exact ⟨rfl, hknows, .nil⟩
  | .stop _ hone =>
      have hflows := ResolvesOne.flows hone hknows
      rw [flowEach]
      exact ⟨hflows.along.append_of_cut _, by simp⟩
  | .next hone heach =>
      rename_i middle earlier later value last
      obtain ⟨halong, hwhole⟩ := ResolvesOne.flows hone hknows
      obtain ⟨hlength, hknowsMiddle, hcomes⟩ := hwhole value rfl
      obtain ⟨halongRest, hwholeRest⟩ := ResolvesEach.flows heach hknowsMiddle
      rw [List.length_append, hlength] at halongRest hwholeRest
      rw [flowEach]
      refine ⟨halong.append hlength halongRest, ?_⟩
      intro entries hentries
      cases last with
      | error halt => simp [Except.map] at hentries
      | ok others =>
          simp only [Except.map, Except.ok.injEq] at hentries
          subst hentries
          obtain ⟨hlengthRest, hknowsLast, hfilled⟩ := hwholeRest others rfl
          rw [List.append_assoc] at hknowsLast hfilled
          refine ⟨by rw [List.length_append, List.length_append, hlength, hlengthRest], ?_, ?_⟩
          · rw [learn_append]
            exact hknowsLast
          · refine .cons ⟨rfl, ?_⟩ hfilled
            rw [← List.append_assoc]
            exact hcomes.append later

end

end Flowing

/-- The calls of a resolution are those of its flow, up to the last that was made. -/
theorem ResolvesEach.along_flow {setting : Setting} {resolving : List DependencyId}
    {references : List (Reference (Dependency (Routine σ)))} {after : Ledger}
    {calls : List (Provision σ)} {result : Except Halt (List (String × Datum))}
    (hresolves : ResolvesEach setting resolving references {} calls result after) :
    Along setting.overrides [] (flow setting.overrides references) calls := by
  have hknows : Knows [] ([] : List (Provision σ)) {} := fun _ => .none
  exact (hresolves.flows hknows).along

end Resolver
end WebApp
