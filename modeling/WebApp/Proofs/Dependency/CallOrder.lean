import Mathlib.Tactic
import WebApp.Proofs.Dependency.PlainRecursion

/-!
# The order of the calls

Which providers a resolution calls, and in which order, can be told before it begins: it is the
walk through the references in depth and in order, the parameters before the dependency itself.
The walk passes over what is overridden, and over a cached reference to what a cached reference
has come to before.  Whatever the providers do, the calls follow the walk up to the first that
fails.
-/

namespace WebApp
namespace Resolver

universe u

/-! ## The walk -/

/-- A place where a walk stops to call a provider, and whether a cached reference led to it. -/
structure Visit (m : Type → Type u) : Type u where
  dependency : Dependency m
  isCached : Bool

section Walk

variable {m : Type → Type u}

def cachedIds (visits : List (Visit m)) : List DependencyId :=
  (visits.filter Visit.isCached).map fun visit => visit.dependency.id

@[simp] theorem cachedIds_nil : cachedIds ([] : List (Visit m)) = [] := rfl

@[simp] theorem cachedIds_append (first second : List (Visit m)) :
    cachedIds (first ++ second) = cachedIds first ++ cachedIds second := by
  simp [cachedIds]

theorem cachedIds_singleton (visit : Visit m) :
    cachedIds [visit] = if visit.isCached then [visit.dependency.id] else [] := by
  cases hcached : visit.isCached <;> simp [cachedIds, hcached]

mutual

/-- The walk from one reference on.  `settled` holds what cached references have come to. -/
def walkOne (overrides : Overrides) (settled : List DependencyId) (d : Dependency m)
    (isCached : Bool) : List (Visit m) :=
  match d with
  | .node id name provider params =>
    if Assoc.contains id overrides || (isCached && settled.contains id) then
      []
    else
      walkEach overrides settled params ++ [⟨.node id name provider params, isCached⟩]

def walkEach (overrides : Overrides) (settled : List DependencyId)
    (references : List (Reference (Dependency m))) : List (Visit m) :=
  match references with
  | [] => []
  | ⟨_, target, isCached⟩ :: rest =>
    let first := walkOne overrides settled target isCached
    first ++ walkEach overrides (settled ++ cachedIds first) rest

end

theorem walkOne_eq (overrides : Overrides) (settled : List DependencyId) (d : Dependency m)
    (isCached : Bool) :
    walkOne overrides settled d isCached =
      if Assoc.contains d.id overrides || (isCached && settled.contains d.id) then []
      else walkEach overrides settled d.params ++ [⟨d, isCached⟩] := by
  cases d
  rw [walkOne]
  rfl

theorem walkEach_cons (overrides : Overrides) (settled : List DependencyId)
    (reference : Reference (Dependency m)) (rest : List (Reference (Dependency m))) :
    walkEach overrides settled (reference :: rest) =
      walkOne overrides settled reference.target reference.isCached ++
        walkEach overrides (settled ++
          cachedIds (walkOne overrides settled reference.target reference.isCached)) rest := by
  rw [walkEach]

/-- A reference among some, or among the parameters of what these refer to. -/
inductive Refers (references : List (Reference (Dependency m))) :
    Reference (Dependency m) → Prop where
  | direct {reference : Reference (Dependency m)} :
      reference ∈ references → Refers references reference
  | param {other reference : Reference (Dependency m)} :
      Refers references other → reference ∈ other.target.params → Refers references reference

theorem Refers.trans {references others : List (Reference (Dependency m))}
    {reference : Reference (Dependency m)}
    (hothers : ∀ other ∈ others, Refers references other) (hrefers : Refers others reference) :
    Refers references reference := by
  induction hrefers with
  | direct hmem => exact hothers _ hmem
  | param _ hmem ih => exact ih.param hmem

theorem Refers.mem {taken : Nat} {ds : List (Dependency m)} (sound : Dependency.Sound taken ds)
    {references : List (Reference (Dependency m))} {reference : Reference (Dependency m)}
    (hmem : ∀ reference ∈ references, reference.target ∈ ds)
    (hrefers : Refers references reference) : reference.target ∈ ds := by
  induction hrefers with
  | direct hdirect => exact hmem _ hdirect
  | param _ hparam ih => exact sound.closed _ ih _ hparam

theorem Refers.head {first : Reference (Dependency m)} {rest : List (Reference (Dependency m))}
    {reference : Reference (Dependency m)} (hrefers : Refers [first] reference) :
    Refers (first :: rest) reference := by
  apply hrefers.trans
  intro other hother
  rw [List.mem_singleton.mp hother]
  exact .direct List.mem_cons_self

theorem Refers.tail {rest : List (Reference (Dependency m))} {reference : Reference (Dependency m)}
    (first : Reference (Dependency m)) (hrefers : Refers rest reference) :
    Refers (first :: rest) reference :=
  hrefers.trans fun _ hother => .direct (List.mem_cons_of_mem _ hother)

mutual

theorem exists_refers_of_mem_walkOne {overrides : Overrides} {settled : List DependencyId}
    {d : Dependency m} {isCached : Bool} {visit : Visit m}
    (hvisit : visit ∈ walkOne overrides settled d isCached) (referrer : String) :
    ∃ reference, Refers [⟨referrer, d, isCached⟩] reference ∧
      visit = ⟨reference.target, reference.isCached⟩ := by
  match d with
  | .node id name provider params =>
      rw [walkOne] at hvisit
      split at hvisit
      · simp at hvisit
      rw [List.mem_append, List.mem_singleton] at hvisit
      rcases hvisit with hvisit | rfl
      · obtain ⟨reference, hrefers, hsame⟩ := exists_refers_of_mem_walkEach hvisit
        refine ⟨reference, ?_, hsame⟩
        apply hrefers.trans
        intro other hother
        exact .param (.direct (List.mem_singleton_self _)) hother
      · exact ⟨_, .direct (List.mem_singleton_self _), rfl⟩

theorem exists_refers_of_mem_walkEach {overrides : Overrides} {settled : List DependencyId}
    {references : List (Reference (Dependency m))} {visit : Visit m}
    (hvisit : visit ∈ walkEach overrides settled references) :
    ∃ reference, Refers references reference ∧
      visit = ⟨reference.target, reference.isCached⟩ := by
  match references with
  | [] => simp [walkEach] at hvisit
  | ⟨name, target, isCached⟩ :: rest =>
      rw [walkEach, List.mem_append] at hvisit
      rcases hvisit with hvisit | hvisit
      · obtain ⟨reference, hrefers, hsame⟩ := exists_refers_of_mem_walkOne hvisit name
        exact ⟨reference, hrefers.head, hsame⟩
      · obtain ⟨reference, hrefers, hsame⟩ := exists_refers_of_mem_walkEach hvisit
        exact ⟨reference, hrefers.tail _, hsame⟩

end

section Distinct

variable {taken : Nat} {ds : List (Dependency m)}

theorem Refers.target_lt (sound : Dependency.Sound taken ds) {d : Dependency m} (hd : d ∈ ds)
    {reference : Reference (Dependency m)} (hrefers : Refers d.params reference) :
    reference.target.id.number < d.id.number := by
  induction hrefers with
  | direct hmem => exact sound.descending d hd _ hmem
  | param hother hmem ih =>
      have htarget := hother.mem sound (sound.closed d hd)
      exact (sound.descending _ htarget _ hmem).trans ih

theorem mem_cachedIds {visits : List (Visit m)} {id : DependencyId} :
    id ∈ cachedIds visits ↔ ∃ visit ∈ visits, visit.isCached ∧ visit.dependency.id = id := by
  simp [cachedIds, and_assoc]

theorem id_notMem_cachedIds_params (sound : Dependency.Sound taken ds) {d : Dependency m}
    (hd : d ∈ ds) (overrides : Overrides) (settled : List DependencyId) :
    d.id ∉ cachedIds (walkEach overrides settled d.params) := by
  intro hmem
  obtain ⟨visit, hvisit, -, hid⟩ := mem_cachedIds.mp hmem
  obtain ⟨reference, hrefers, rfl⟩ := exists_refers_of_mem_walkEach hvisit
  have hlt := hrefers.target_lt sound hd
  simp only at hid
  rw [hid] at hlt
  exact lt_irrefl _ hlt

/-- Whatever cached references come to on a walk is new, and they come to it once. -/
def ComesToNew (settled : List DependencyId) (visits : List (Visit m)) : Prop :=
  (cachedIds visits).Nodup ∧ ∀ id ∈ cachedIds visits, id ∉ settled

theorem ComesToNew.append {settled : List DependencyId} {first second : List (Visit m)}
    (hfirst : ComesToNew settled first)
    (hsecond : ComesToNew (settled ++ cachedIds first) second) :
    ComesToNew settled (first ++ second) := by
  constructor
  · rw [cachedIds_append, List.nodup_append]
    refine ⟨hfirst.1, hsecond.1, ?_⟩
    rintro id hid _ hid' rfl
    exact hsecond.2 id hid' (List.mem_append_right _ hid)
  · intro id hid
    rw [cachedIds_append, List.mem_append] at hid
    rcases hid with hid | hid
    · exact hfirst.2 id hid
    · intro hsettled
      exact hsecond.2 id hid (List.mem_append_left _ hsettled)

mutual

theorem walkOne_comesToNew (sound : Dependency.Sound taken ds) (overrides : Overrides)
    (settled : List DependencyId) (d : Dependency m) (hd : d ∈ ds) (isCached : Bool) :
    ComesToNew settled (walkOne overrides settled d isCached) := by
  match d with
  | .node id name provider params =>
      rw [walkOne]
      split
      · exact ⟨List.nodup_nil, by simp⟩
      next hunknown =>
        apply (walkEach_comesToNew sound overrides settled params (sound.closed _ hd)).append
        -- The parameters may settle more, but never the dependency itself: numbers descend.
        have hnew := id_notMem_cachedIds_params sound hd overrides settled
        simp only [Bool.or_eq_true, Bool.and_eq_true, List.contains_iff_mem, not_or,
          not_and] at hunknown
        rw [ComesToNew, cachedIds_singleton]
        split
        next hcached =>
          refine ⟨List.nodup_singleton _, ?_⟩
          intro other hother
          rw [List.mem_singleton.mp hother, List.mem_append, not_or]
          exact ⟨hunknown.2 hcached, hnew⟩
        next => exact ⟨List.nodup_nil, by simp⟩

theorem walkEach_comesToNew (sound : Dependency.Sound taken ds) (overrides : Overrides)
    (settled : List DependencyId) (references : List (Reference (Dependency m)))
    (hmem : ∀ reference ∈ references, reference.target ∈ ds) :
    ComesToNew settled (walkEach overrides settled references) := by
  match references with
  | [] => exact ⟨List.nodup_nil, by simp [walkEach]⟩
  | ⟨name, target, isCached⟩ :: rest =>
      rw [walkEach]
      apply (walkOne_comesToNew sound overrides settled target (hmem _ List.mem_cons_self)
        isCached).append
      apply walkEach_comesToNew sound
      intro reference hreference
      exact hmem _ (List.mem_cons_of_mem _ hreference)

end

theorem countP_walkEach_le_one (sound : Dependency.Sound taken ds) (overrides : Overrides)
    (settled : List DependencyId) {references : List (Reference (Dependency m))}
    (hmem : ∀ reference ∈ references, reference.target ∈ ds) {id : DependencyId}
    (hcached : ∀ reference, Refers references reference → reference.target.id = id →
      reference.isCached) :
    (walkEach overrides settled references).countP (fun visit => visit.dependency.id = id) ≤ 1 := by
  have hcount : (walkEach overrides settled references).countP
        (fun visit => visit.dependency.id = id) =
      (cachedIds (walkEach overrides settled references)).count id := by
    rw [cachedIds, List.count, List.countP_map, List.countP_filter]
    apply List.countP_congr
    intro visit hvisit
    obtain ⟨reference, hrefers, rfl⟩ := exists_refers_of_mem_walkEach hvisit
    have himp := hcached reference hrefers
    simpa using himp
  rw [hcount]
  exact List.nodup_iff_count_le_one.mp (walkEach_comesToNew sound overrides settled references
    hmem).1 id

end Distinct

end Walk

/-! ## Calls along the walk -/

variable {σ : Type}

/-- The calls are those of the dependencies in order, up to the first that fails. -/
inductive Follows : List (Dependency (Routine σ)) → List (Provision σ) → Option Halt → Prop where
  | done : Follows [] [] none
  | call {ds : List (Dependency (Routine σ))} {calls : List (Provision σ)} {halt : Option Halt}
      {value : Datum} (provision : Provision σ) :
      provision.outcome = .finished (.ok value) → Follows ds calls halt →
      Follows (provision.dependency :: ds) (provision :: calls) halt
  | fail {halt : Halt} (ds : List (Dependency (Routine σ))) (provision : Provision σ) :
      resultOf provision.outcome = .error halt →
      Follows (provision.dependency :: ds) [provision] (some halt)

def halt? {α : Type} : Except Halt α → Option Halt
  | .ok _ => none
  | .error halt => some halt

theorem Follows.append {ds others : List (Dependency (Routine σ))}
    {earlier later : List (Provision σ)} {halt : Option Halt} (hearlier : Follows ds earlier none)
    (hlater : Follows others later halt) : Follows (ds ++ others) (earlier ++ later) halt := by
  generalize hnone : (none : Option Halt) = ended at hearlier
  induction hearlier with
  | done => exact hlater
  | call provision hok _ ih => exact .call provision hok (ih hnone)
  | fail => simp at hnone

theorem Follows.append_of_fail {ds : List (Dependency (Routine σ))} {calls : List (Provision σ)}
    {halt : Halt} (hcalls : Follows ds calls (some halt))
    (others : List (Dependency (Routine σ))) : Follows (ds ++ others) calls (some halt) := by
  generalize hsome : some halt = ended at hcalls
  induction hcalls with
  | done => simp at hsome
  | call provision hok _ ih => exact .call provision hok (ih hsome)
  | fail ds provision hfail => exact .fail (ds ++ others) provision hfail

theorem Follows.exists_rest {ds : List (Dependency (Routine σ))} {calls : List (Provision σ)}
    {halt : Option Halt} (hcalls : Follows ds calls halt) :
    ∃ rest, ds = calls.map Provision.dependency ++ rest := by
  induction hcalls with
  | done => exact ⟨[], rfl⟩
  | call provision _ _ ih =>
      obtain ⟨rest, hrest⟩ := ih
      exact ⟨rest, by simp [hrest]⟩
  | fail ds provision _ => exact ⟨ds, rfl⟩

/-- What cached references have come to is what the ledger keeps. -/
def Settles (settled : List DependencyId) (ledger : Ledger) : Prop :=
  ∀ id, id ∈ settled ↔ (Assoc.get? id ledger.cache).isSome

theorem settles_cache (ledger : Ledger) : Settles (ledger.cache.map Prod.fst) ledger := by
  intro id
  induction ledger.cache with
  | nil => simp [Assoc.get?]
  | cons entry rest ih =>
      by_cases hid : entry.1 = id
      · simp [Assoc.get?, hid]
      · simp only [List.map_cons, List.mem_cons, Assoc.get?, if_neg hid, ih]
        simp [Ne.symm hid]

theorem isSome_known?_iff {setting : Setting} {settled : List DependencyId} {ledger : Ledger}
    (hsettles : Settles settled ledger) (id : DependencyId) (isCached : Bool) :
    (known? setting id isCached ledger).isSome =
      (Assoc.contains id setting.overrides || (isCached && settled.contains id)) := by
  unfold known? Assoc.contains
  cases Assoc.get? id setting.overrides with
  | some value => rfl
  | none =>
      cases isCached with
      | false => rfl
      | true =>
          rw [Bool.eq_iff_iff]
          simp [← hsettles id]

theorem Settles.recorded {settled : List DependencyId} {ledger : Ledger}
    (hsettles : Settles settled ledger) (d : Dependency (Routine σ)) (isCached : Bool)
    (value : Datum) :
    Settles (settled ++ cachedIds [(⟨d, isCached⟩ : Visit (Routine σ))])
      (recorded d isCached value ledger) := by
  intro id
  rw [cachedIds_singleton, cache_recorded]
  cases isCached with
  | false => simpa using hsettles id
  | true =>
      by_cases hid : id = d.id
      · simp [hid]
      · simp [hid, Assoc.get?_insert_of_ne hid, hsettles id]

section Walking

variable {setting : Setting} {taken : Nat} {ds : List (Dependency (Routine σ))}

/-- What a resolution from a ledger comes to, when `visits` is its walk. -/
def Walks {α : Type} (settled : List DependencyId) (visits : List (Visit (Routine σ)))
    (calls : List (Provision σ)) (result : Except Halt α) (after : Ledger) : Prop :=
  Follows (visits.map Visit.dependency) calls (halt? result) ∧
    (halt? result = none → Settles (settled ++ cachedIds visits) after)

mutual

theorem ResolvesOne.walks (sound : Dependency.Sound taken ds) {resolving : List DependencyId}
    {d : Dependency (Routine σ)} {isCached : Bool} {ledger after : Ledger}
    {calls : List (Provision σ)} {result : Except Halt Datum}
    (hresolves : ResolvesOne setting resolving d isCached ledger calls result after)
    (hd : d ∈ ds) (habove : ∀ id ∈ resolving, d.id.number < id.number)
    {settled : List DependencyId} (hsettles : Settles settled ledger) :
    Walks settled (walkOne setting.overrides settled d isCached) calls result after := by
  rw [walkOne_eq, ← isSome_known?_iff hsettles]
  match hresolves with
  | .known hknown =>
      rw [hknown]
      exact ⟨.done, fun _ => by simpa using hsettles⟩
  | .cycle _ hmem =>
      -- What is being resolved lies above, so no built graph comes round to it.
      exact absurd (habove d.id hmem) (lt_irrefl _)
  | .params hknown _ hparams =>
      rw [hknown]
      have hwalks := ResolvesEach.walks sound hparams (sound.closed d hd)
        (above_params sound hd habove) hsettles
      refine ⟨?_, by simp [halt?]⟩
      simpa [halt?] using hwalks.1.append_of_fail [d]
  | .called provision hknown _ hparams hdependency _ =>
      rw [hknown]
      obtain ⟨hfollows, hafter⟩ := ResolvesEach.walks sound hparams (sound.closed d hd)
        (above_params sound hd habove) hsettles
      subst hdependency
      rw [concluded_fst]
      constructor
      · have hcall : Follows [provision.dependency] [provision]
            (halt? (resultOf provision.outcome)) := by
          rcases hended : provision.outcome with ⟨e | value⟩ | text
          · exact .fail [] provision (by rw [hended]; rfl)
          · exact .call provision hended .done
          · exact .fail [] provision (by rw [hended]; rfl)
        simpa using hfollows.append hcall
      · -- Only after a success is the ledger asked for more.
        intro hnone
        rcases hended : provision.outcome with ⟨e | value⟩ | text <;>
          simp only [hended, resultOf, halt?, reduceCtorEq] at hnone
        have hrecorded := (hafter rfl).recorded provision.dependency isCached value
        simpa [concluded] using hrecorded

theorem ResolvesEach.walks (sound : Dependency.Sound taken ds) {resolving : List DependencyId}
    {references : List (Reference (Dependency (Routine σ)))} {ledger after : Ledger}
    {calls : List (Provision σ)} {result : Except Halt (List (String × Datum))}
    (hresolves : ResolvesEach setting resolving references ledger calls result after)
    (hmem : ∀ reference ∈ references, reference.target ∈ ds)
    (habove : ∀ reference ∈ references, ∀ id ∈ resolving,
      reference.target.id.number < id.number)
    {settled : List DependencyId} (hsettles : Settles settled ledger) :
    Walks settled (walkEach setting.overrides settled references) calls result after := by
  match hresolves with
  | .nil _ _ =>
      rw [walkEach]
      exact ⟨.done, fun _ => by simpa using hsettles⟩
  | .stop _ hone =>
      rw [walkEach_cons]
      have hwalks := ResolvesOne.walks sound hone (hmem _ List.mem_cons_self)
        (habove _ List.mem_cons_self) hsettles
      refine ⟨?_, by simp [halt?]⟩
      rw [List.map_append]
      exact hwalks.1.append_of_fail _
  | .next hone heach =>
      rename_i last
      rw [walkEach_cons]
      obtain ⟨hfollows, hmiddle⟩ := ResolvesOne.walks sound hone (hmem _ List.mem_cons_self)
        (habove _ List.mem_cons_self) hsettles
      obtain ⟨hrest, hafter⟩ := ResolvesEach.walks sound heach
        (fun reference hreference => hmem reference (List.mem_cons_of_mem _ hreference))
        (fun reference hreference => habove reference (List.mem_cons_of_mem _ hreference))
        (hmiddle rfl)
      have hhalt : ∀ entry, halt? (last.map (entry :: ·)) = halt? last := by
        intro entry
        cases last <;> rfl
      rw [Walks, hhalt, List.map_append, cachedIds_append, ← List.append_assoc]
      exact ⟨hfollows.append hrest, hafter⟩

end

/-! ## The values of references -/

/-- The value of a reference is what stands in for its target; else, for a cached one, what all
cached references to the target share, and for any other what a call of the target gave. -/
def Gets (overrides : Overrides) (shared : DependencyId → Option Datum)
    (calls : List (Provision σ)) (reference : Reference (Dependency (Routine σ)))
    (value : Datum) : Prop :=
  match Assoc.get? reference.target.id overrides with
  | some substitute => value = substitute
  | none =>
    if reference.isCached then shared reference.target.id = some value
    else ∃ call ∈ calls, call.dependency = reference.target ∧ call.outcome = .finished (.ok value)

def Binds (overrides : Overrides) (shared : DependencyId → Option Datum)
    (calls : List (Provision σ)) (references : List (Reference (Dependency (Routine σ))))
    (entries : List (String × Datum)) : Prop :=
  List.Forall₂ (fun reference entry => entry.1 = reference.name ∧
    Gets overrides shared calls reference entry.2) references entries

/-- Each call is made with the values of its parameters. -/
def CalledWith (setting : Setting) (shared : DependencyId → Option Datum)
    (calls : List (Provision σ)) (call : Provision σ) : Prop :=
  ∃ entries, call.call = ⟨setting.request, .ofList entries⟩ ∧
    Binds setting.overrides shared calls call.dependency.params entries

section Monotone

variable {overrides : Overrides} {shared more : DependencyId → Option Datum}
variable {calls others : List (Provision σ)}

theorem Gets.mono (hshared : ∀ id value, shared id = some value → more id = some value)
    (hcalls : calls ⊆ others) {reference : Reference (Dependency (Routine σ))} {value : Datum}
    (hgets : Gets overrides shared calls reference value) :
    Gets overrides more others reference value := by
  unfold Gets at hgets ⊢
  split at hgets
  · exact hgets
  · split at hgets
    next hcached =>
      rw [if_pos hcached]
      exact hshared _ _ hgets
    next hcached =>
      rw [if_neg hcached]
      obtain ⟨call, hcall, hgave⟩ := hgets
      exact ⟨call, hcalls hcall, hgave⟩

theorem Binds.mono (hshared : ∀ id value, shared id = some value → more id = some value)
    (hcalls : calls ⊆ others) {references : List (Reference (Dependency (Routine σ)))}
    {entries : List (String × Datum)} (hbinds : Binds overrides shared calls references entries) :
    Binds overrides more others references entries :=
  List.Forall₂.imp (fun _ _ h => ⟨h.1, h.2.mono hshared hcalls⟩) hbinds

theorem CalledWith.mono (hshared : ∀ id value, shared id = some value → more id = some value)
    (hcalls : calls ⊆ others) {call : Provision σ}
    (hcalled : CalledWith setting shared calls call) :
    CalledWith setting more others call := by
  obtain ⟨entries, hcall, hbinds⟩ := hcalled
  exact ⟨entries, hcall, hbinds.mono hshared hcalls⟩

end Monotone

def sharedIn (ledger : Ledger) (id : DependencyId) : Option Datum :=
  Assoc.get? id ledger.cache

/-- What becomes of the values that a ledger keeps: none is lost or changed, and each new one
is what a call gave. -/
structure Keeps (before : Ledger) (calls : List (Provision σ)) (after : Ledger) : Prop where
  kept : ∀ id value, sharedIn before id = some value → sharedIn after id = some value
  given : ∀ id value, sharedIn after id = some value → sharedIn before id = some value ∨
    ∃ call ∈ calls, call.dependency.id = id ∧ call.outcome = .finished (.ok value)

theorem Keeps.refl (ledger : Ledger) : Keeps ledger ([] : List (Provision σ)) ledger :=
  ⟨fun _ _ h => h, fun _ _ h => .inl h⟩

theorem Keeps.trans {before middle after : Ledger} {earlier later : List (Provision σ)}
    (hearlier : Keeps before earlier middle) (hlater : Keeps middle later after) :
    Keeps before (earlier ++ later) after where
  kept id value hbefore := hlater.kept id value (hearlier.kept id value hbefore)
  given id value hafter := by
    rcases hlater.given id value hafter with hmiddle | ⟨call, hcall, hgave⟩
    · rcases hearlier.given id value hmiddle with hbefore | ⟨call, hcall, hgave⟩
      · exact .inl hbefore
      · exact .inr ⟨call, List.mem_append_left _ hcall, hgave⟩
    · exact .inr ⟨call, List.mem_append_right _ hcall, hgave⟩

theorem Keeps.concluded {isCached : Bool} {ledger : Ledger} (provision : Provision σ)
    (hnew : isCached → sharedIn ledger provision.dependency.id = none) :
    Keeps ledger [provision]
      (concluded provision.dependency isCached ledger provision.outcome).2 := by
  rcases hended : provision.outcome with ⟨e | value⟩ | text
  · exact ⟨fun _ _ h => h, fun _ _ h => .inl h⟩
  · cases isCached with
    | false =>
        have hsame : ∀ id, sharedIn (Resolver.concluded provision.dependency false ledger
            (.finished (.ok value))).2 id = sharedIn ledger id := by
          intro id
          simp [sharedIn, Resolver.concluded, cache_recorded]
        exact ⟨fun _ _ h => by rwa [hsame], fun _ _ h => .inl (by rwa [hsame] at h)⟩
    | true =>
        have hcache : (Resolver.concluded provision.dependency true ledger
            (.finished (.ok value))).2.cache =
              Assoc.insert provision.dependency.id value ledger.cache := by
          simp [Resolver.concluded, cache_recorded]
        constructor
        · intro id other hkept
          have hid : id ≠ provision.dependency.id := by
            rintro rfl
            rw [hnew rfl] at hkept
            simp at hkept
          rw [sharedIn, hcache, Assoc.get?_insert_of_ne hid]
          exact hkept
        · intro id other hfound
          by_cases hid : id = provision.dependency.id
          · rw [sharedIn, hcache, hid, Assoc.get?_insert_self] at hfound
            rw [Option.some.injEq] at hfound
            subst hfound
            exact .inr ⟨provision, List.mem_singleton_self _, hid.symm, hended⟩
          · rw [sharedIn, hcache, Assoc.get?_insert_of_ne hid] at hfound
            exact .inl hfound
  · exact ⟨fun _ _ h => h, fun _ _ h => .inl h⟩

/-- What calls and a result are made with: the values that cached references share stay as they
are, and each call has the values of its parameters. -/
structure Shares (setting : Setting) (before : Ledger) (calls : List (Provision σ))
    (after : Ledger) : Prop where
  keeps : Keeps before calls after
  called : ∀ call ∈ calls, CalledWith setting (sharedIn after) calls call

theorem Shares.refl (setting : Setting) (ledger : Ledger) :
    Shares setting ledger ([] : List (Provision σ)) ledger :=
  ⟨.refl ledger, by simp⟩

theorem Shares.append {before middle after : Ledger} {earlier later : List (Provision σ)}
    (hearlier : Shares setting before earlier middle) (hlater : Shares setting middle later after) :
    Shares setting before (earlier ++ later) after where
  keeps := hearlier.keeps.trans hlater.keeps
  called call hcall := by
    rcases List.mem_append.mp hcall with hcall | hcall
    · exact (hearlier.called call hcall).mono hlater.keeps.kept (List.subset_append_left _ _)
    · exact (hlater.called call hcall).mono (fun _ _ h => h) (List.subset_append_right _ _)

theorem sharedIn_params_eq_none (sound : Dependency.Sound taken ds) {d : Dependency (Routine σ)}
    (hd : d ∈ ds) {ledger middle : Ledger} {resolving : List DependencyId}
    {calls : List (Provision σ)} {result : Except Halt (List (String × Datum))}
    (hknown : known? setting d.id true ledger = none)
    (hparams : ResolvesEach setting resolving d.params ledger calls result middle)
    (hkeeps : Keeps ledger calls middle) : sharedIn middle d.id = none := by
  have hbefore : sharedIn ledger d.id = none := by
    rw [known?, override_eq_none hknown] at hknown
    exact hknown
  rw [Option.eq_none_iff_forall_ne_some]
  intro value hvalue
  rcases hkeeps.given d.id value hvalue with hknew | ⟨call, hcall, hid, -⟩
  · rw [hbefore] at hknew
    simp at hknew
  · obtain ⟨reference, hreference, hneeds⟩ := hparams.accounts.needed call hcall
    have hle := sound.id_le_of_needs (sound.closed d hd reference hreference) hneeds
    have hlt := sound.descending d hd reference hreference
    rw [hid] at hle
    omega

theorem gets_of_known {d : Dependency (Routine σ)} {isCached : Bool} {ledger : Ledger}
    {value : Datum} (hknown : known? setting d.id isCached ledger = some value) (name : String) :
    Gets setting.overrides (sharedIn ledger) ([] : List (Provision σ)) ⟨name, d, isCached⟩
      value := by
  unfold known? at hknown
  unfold Gets
  dsimp only
  cases hoverride : Assoc.get? d.id setting.overrides with
  | some substitute =>
      rw [hoverride] at hknown
      exact (Option.some.inj hknown).symm
  | none =>
      rw [hoverride] at hknown
      dsimp only at hknown ⊢
      cases isCached with
      | true => simpa [sharedIn] using hknown
      | false => simp at hknown

mutual

theorem ResolvesOne.shares (sound : Dependency.Sound taken ds) {resolving : List DependencyId}
    {d : Dependency (Routine σ)} {isCached : Bool} {ledger after : Ledger}
    {calls : List (Provision σ)} {result : Except Halt Datum}
    (hresolves : ResolvesOne setting resolving d isCached ledger calls result after)
    (hd : d ∈ ds) :
    Shares setting ledger calls after ∧ ∀ value, result = .ok value → ∀ name,
      Gets setting.overrides (sharedIn after) calls ⟨name, d, isCached⟩ value := by
  match hresolves with
  | .known hknown =>
      refine ⟨.refl setting ledger, ?_⟩
      rintro value ⟨⟩ name
      exact gets_of_known hknown name
  | .cycle _ _ => exact ⟨.refl setting ledger, by simp⟩
  | .params _ _ hparams =>
      exact ⟨(ResolvesEach.shares sound hparams (sound.closed d hd)).1, by simp⟩
  | .called provision hknown _ hparams hdependency hcall =>
      rename_i middle earlier entries hfresh
      -- The values of the parameters were given before the call, and recording the value of the
      -- call changes none of them.
      obtain ⟨hshares, hbinds⟩ := ResolvesEach.shares sound hparams (sound.closed d hd)
      subst hdependency
      have hkeeps : Keeps middle [provision]
          (concluded provision.dependency isCached middle provision.outcome).2 := by
        apply Keeps.concluded
        rintro rfl
        exact sharedIn_params_eq_none sound hd hknown hparams hshares.keeps
      have hcalled : CalledWith setting (sharedIn
          (concluded provision.dependency isCached middle provision.outcome).2)
          (earlier ++ [provision]) provision :=
        ⟨entries, hcall, (hbinds entries rfl).mono hkeeps.kept (List.subset_append_left _ _)⟩
      constructor
      · refine ⟨hshares.keeps.trans hkeeps, ?_⟩
        intro call hmem
        rcases List.mem_append.mp hmem with hmem | hmem
        · exact (hshares.called call hmem).mono hkeeps.kept (List.subset_append_left _ _)
        · rw [List.mem_singleton.mp hmem]
          exact hcalled
      · intro value hvalue name
        rw [concluded_fst] at hvalue
        have hended := eq_of_resultOf_ok hvalue
        unfold Gets
        dsimp only
        rw [override_eq_none hknown]
        dsimp only
        split
        next hcached =>
          rw [hended, sharedIn, concluded, cache_recorded, if_pos hcached]
          exact Assoc.get?_insert_self _ _ _
        next => exact ⟨provision, by simp, rfl, hended⟩

theorem ResolvesEach.shares (sound : Dependency.Sound taken ds) {resolving : List DependencyId}
    {references : List (Reference (Dependency (Routine σ)))} {ledger after : Ledger}
    {calls : List (Provision σ)} {result : Except Halt (List (String × Datum))}
    (hresolves : ResolvesEach setting resolving references ledger calls result after)
    (hmem : ∀ reference ∈ references, reference.target ∈ ds) :
    Shares setting ledger calls after ∧ ∀ entries, result = .ok entries →
      Binds setting.overrides (sharedIn after) calls references entries := by
  match hresolves with
  | .nil _ _ =>
      refine ⟨.refl setting ledger, ?_⟩
      rintro _ ⟨⟩
      exact .nil
  | .stop _ hone =>
      exact ⟨(ResolvesOne.shares sound hone (hmem _ List.mem_cons_self)).1, by simp⟩
  | .next hone heach =>
      rename_i value last
      obtain ⟨hfirst, hgets⟩ := ResolvesOne.shares sound hone (hmem _ List.mem_cons_self)
      obtain ⟨hrest, hbinds⟩ := ResolvesEach.shares sound heach
        (fun reference hreference => hmem reference (List.mem_cons_of_mem _ hreference))
      refine ⟨hfirst.append hrest, ?_⟩
      intro entries hentries
      cases last with
      | error halt => simp [Except.map] at hentries
      | ok others =>
          simp only [Except.map, Except.ok.injEq] at hentries
          subst hentries
          refine .cons ⟨rfl, ?_⟩ ?_
          · exact (hgets value rfl _).mono hrest.keeps.kept (List.subset_append_left _ _)
          · exact (hbinds others rfl).mono (fun _ _ h => h) (List.subset_append_right _ _)

end

end Walking

/-- Whatever the providers do, a resolution makes the calls of its walk, in order and up to the
first that fails, and ends with that failure.  What only cached references lead to is called
once at most, and they all share one value.  The scope gets an entry for each scoped call that
succeeded, the last one first. -/
theorem resolve_follows_walk {taken : Nat} {ds : List (Dependency (Routine σ))}
    (built : Dependency.Built taken ds) (setting : Setting) (ledger : Ledger)
    (references : List (Reference (Dependency (Routine σ))))
    (hmem : ∀ reference ∈ references, reference.target ∈ ds) {steps : List (Step σ)}
    {outcome : Outcome (Except Halt Resolved × Ledger)}
    (hruns : ((resolve setting references).run.run ledger).Runs steps outcome) :
    ∃ calls result after, outcome = .finished (result, after) ∧
      steps = calls.flatMap Provision.steps ∧
      Follows ((walkEach setting.overrides (ledger.cache.map Prod.fst) references).map
        Visit.dependency) calls (halt? result) ∧
      (∀ id, (∀ reference, Refers references reference → reference.target.id = id →
          reference.isCached) →
        calls.countP (fun call => call.dependency.id = id) ≤ 1) ∧
      (∃ shared : DependencyId → Option Datum,
        (∀ id value, shared id = some value → Assoc.get? id ledger.cache = some value ∨
          ∃ call ∈ calls, call.dependency.id = id ∧ call.outcome = .finished (.ok value)) ∧
        (∀ call ∈ calls, CalledWith setting shared calls call) ∧
        ∀ resolved, result = .ok resolved → ∃ entries, resolved = .ofList entries ∧
          Binds setting.overrides shared calls references entries) ∧
      after.scope.entries = (calls.filterMap Provision.held?).reverse ++ ledger.scope.entries ∧
      (calls.filterMap Provision.held?).map
          (fun entry => (entry.1, Dependency.teardownAmong references entry.2)) =
        calls.filterMap Provision.teardown? := by
  obtain ⟨calls, _, after, houtcome, hsteps, result, hresolves, rfl⟩ :=
    resolve_comesTo setting references ledger steps outcome hruns
  have sound := built.sound
  have hhalt : halt? (result.map Resolved.ofList) = halt? result := by
    cases result <;> rfl
  have hfollows := (hresolves.walks sound hmem (fun _ _ id hid => absurd hid (by simp))
    (settles_cache ledger)).1
  obtain ⟨hshares, hbinds⟩ := hresolves.shares sound hmem
  refine ⟨calls, _, after, houtcome, hsteps, ?_, ?_, ?_, hresolves.accounts.entries, ?_⟩
  · rw [hhalt]
    exact hfollows
  · intro id hcached
    have hwalk := countP_walkEach_le_one sound setting.overrides (ledger.cache.map Prod.fst) hmem
      hcached
    obtain ⟨rest, hrest⟩ := hfollows.exists_rest
    have hcount := congrArg (List.countP fun d => decide (d.id = id)) hrest
    simp only [List.countP_append, List.countP_map] at hcount
    calc
      calls.countP (fun call => call.dependency.id = id) ≤
          calls.countP (fun call => call.dependency.id = id) +
            rest.countP (fun d => decide (d.id = id)) := Nat.le_add_right _ _
      _ = _ := hcount.symm
      _ ≤ 1 := hwalk
  · refine ⟨sharedIn after, hshares.keeps.given, hshares.called, ?_⟩
    intro resolved hresolved
    cases result with
    | error halt => simp [Except.map] at hresolved
    | ok entries =>
        simp only [Except.map, Except.ok.injEq] at hresolved
        exact ⟨entries, hresolved.symm, hbinds entries rfl⟩
  · exact teardowns_of_entries sound hmem hresolves.accounts.needed

/-! ## A graph with all kinds of references -/

/-- A provider that notes its name when it is called. -/
def notingProvider (name : String) (given : Except Error Datum)
    (release : Option (Datum → Teardown (Routine (List String))) := none) :
    Provider (Routine (List String)) where
  provide _ := .act (Act.update fun names => (given, names ++ [name])) .done
  release := release

def pool : Dependency (Routine (List String)) :=
  .node ⟨0⟩ "pool" (notingProvider "pool" (.ok (.int64 4)) (some fun _ => ⟨pure (), pure ()⟩)) []

def bareUsers : Dependency (Routine (List String)) :=
  .node ⟨1⟩ "users" (notingProvider "users" (.ok (.text "users"))) []

def users : Dependency (Routine (List String)) := bareUsers.param ⟨2⟩ ⟨"pool", pool, true⟩

def quota : Dependency (Routine (List String)) :=
  .node ⟨3⟩ "quota" (notingProvider "quota" (.error (.ofMessage "no quota"))) []

theorem built_quota : Dependency.Built 4 [quota, users, bareUsers, pool] :=
  .make "quota" _ (.param (.make "users" _ (.make "pool" _ .none le_rfl) le_rfl)
    (by simp [bareUsers]) (by simp [pool]) le_rfl) le_rfl

/-- Shared and unshared references; the resolution fails before the last one. -/
def quotaReferences : List (Reference (Dependency (Routine (List String)))) :=
  [⟨"users", users, true⟩, ⟨"own", pool, false⟩, ⟨"again", users, true⟩, ⟨"shared", pool, true⟩,
    ⟨"quota", quota, false⟩, ⟨"late", pool, false⟩]

example : (walkEach [] [] quotaReferences).map (fun visit => visit.dependency.name) =
    ["pool", "users", "pool", "quota", "pool"] := by
  decide

theorem resolve_quotaReferences :
    Dependency.Built 4 [quota, users, bareUsers, pool] ∧
    (∀ reference ∈ quotaReferences, reference.target ∈ [quota, users, bareUsers, pool]) ∧
    ∃ steps outcome, ((resolve ⟨{ method := .get, path := "/" }, []⟩
        quotaReferences).run.run {}).Runs steps outcome ∧
      ∃ calls result after, outcome = .finished (result, after) ∧
        steps = calls.flatMap Provision.steps ∧
        Follows [pool, users, pool, quota, pool] calls (halt? result) ∧
        after.scope.entries = (calls.filterMap Provision.held?).reverse := by
  have hmem : ∀ reference ∈ quotaReferences,
      reference.target ∈ [quota, users, bareUsers, pool] := by
    simp [quotaReferences]
  obtain ⟨steps, outcome, hruns⟩ := Routine.exists_runs ({ state := [] } : Journal (List String))
    ((resolve ⟨{ method := .get, path := "/" }, []⟩ quotaReferences).run.run {})
  obtain ⟨calls, result, after, houtcome, hsteps, hfollows, -, -, hentries, -⟩ :=
    resolve_follows_walk built_quota _ _ _ hmem hruns
  exact ⟨built_quota, hmem, steps, outcome, hruns, calls, result, after, houtcome, hsteps,
    hfollows, by simpa using hentries⟩

end Resolver
end WebApp
