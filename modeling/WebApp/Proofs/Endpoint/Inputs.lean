import Mathlib.Tactic
import WebApp.Endpoint.Param
import WebApp.Proofs.Assoc
import WebApp.Proofs.Number.Decimal

/-!
# What the inputs of an endpoint are

The text of a path or query parameter stands for a value of the declared kind, or there is a reason
why it does not.  An input is taken from where it is declared to come from, or there is a reason why
it cannot be.  Here this is said without the functions that do it, for each kind and for each
source; then taking all inputs of an endpoint is shown to give all of their values or all of the
reasons.
-/

namespace WebApp

/-! ## What a text stands for -/

/-- The text stands for this value. -/
inductive Coercion.Denotes : Coercion → String → Json → Prop where
  | text (raw : String) : Denotes .text raw (.string raw)
  | integer {raw : String} {n : Int} :
      Text.integer? raw = some n → Integer.least64 ≤ n → n ≤ Integer.greatest64 →
      Denotes .integer raw (.ofInt n)
  | number {raw : String} {x : Binary64} :
      Binary64.readFinite? raw = some x → Denotes .number raw (.number (.float x))
  | yes {raw : String} :
      Text.fold raw ∈ ["true", "1", "yes", "on"] → Denotes .flag raw (.bool true)
  | no {raw : String} :
      Text.fold raw ∈ ["false", "0", "no", "off"] → Denotes .flag raw (.bool false)
  | json {raw : String} {value : Json} :
      Json.read (Utf8.encode raw) = .ok value → Denotes .json raw value

/-- The text stands for no value, for this reason. -/
inductive Coercion.Refuses : Coercion → String → String → Prop where
  | integer {raw : String} :
      (∀ n, Text.integer? raw = some n → n < Integer.least64 ∨ Integer.greatest64 < n) →
      Refuses .integer raw ("expected an integer, got " ++ Text.quoted raw)
  | number {raw : String} :
      Binary64.readFinite? raw = none →
      Refuses .number raw ("expected a number, got " ++ Text.quoted raw)
  | flag {raw : String} :
      Text.fold raw ∉ ["true", "1", "yes", "on"] → Text.fold raw ∉ ["false", "0", "no", "off"] →
      Refuses .flag raw ("expected a boolean, got " ++ Text.quoted raw)
  | json {raw : String} {fault : Json.Fault} :
      Json.read (Utf8.encode raw) = .error fault →
      Refuses .json raw ("invalid JSON: " ++ fault.message (Utf8.encode raw))

namespace Coercion

variable {c : Coercion} {raw reason : String} {value : Json}

theorem coerce_of_denotes (hdenotes : c.Denotes raw value) : c.coerce raw = .ok value := by
  cases hdenotes with
  | text => rfl
  | integer hwrites hleast hgreatest =>
      rw [coerce, Integer.read64_eq_ok_iff.mpr ⟨hwrites, hleast, hgreatest⟩]
  | number hread => rw [coerce, hread]
  | yes hyes =>
      have hflag : flag? raw = some true := if_pos (List.contains_iff_mem.mpr hyes)
      rw [coerce, hflag]
  | no hno =>
      have hapart : ∀ word ∈ ["false", "0", "no", "off"], word ∉ ["true", "1", "yes", "on"] := by
        decide
      have hyes := hapart _ hno
      have hflag : flag? raw = some false := by
        rw [flag?, if_neg (by simpa using hyes), if_pos (List.contains_iff_mem.mpr hno)]
      rw [coerce, hflag]
  | json hread => simp only [coerce, hread]

theorem coerce_of_refuses (hrefuses : c.Refuses raw reason) : c.coerce raw = .error reason := by
  cases hrefuses with
  | integer hnone =>
      rw [coerce]
      cases hread : Integer.read64 raw with
      | error cause => rfl
      | ok n =>
          obtain ⟨hwrites, hleast, hgreatest⟩ := Integer.read64_eq_ok_iff.mp hread
          have hbound := hnone n hwrites
          omega
  | number hread => rw [coerce, hread]
  | flag hyes hno =>
      have hflag : flag? raw = none := by
        rw [flag?, if_neg (by simpa using hyes), if_neg (by simpa using hno)]
      rw [coerce, hflag]
  | json hread => simp only [coerce, hread]

theorem denotes_or_refuses (c : Coercion) (raw : String) :
    (∃ value, c.Denotes raw value) ∨ ∃ reason, c.Refuses raw reason := by
  cases c with
  | text => exact .inl ⟨_, .text raw⟩
  | integer =>
      cases hread : Integer.read64 raw with
      | ok n =>
          obtain ⟨hwrites, hleast, hgreatest⟩ := Integer.read64_eq_ok_iff.mp hread
          exact .inl ⟨_, .integer hwrites hleast hgreatest⟩
      | error cause =>
          refine .inr ⟨_, .integer ?_⟩
          intro n hwrites
          by_contra hinside
          have hread' : Integer.read64 raw = .ok n :=
            Integer.read64_eq_ok_iff.mpr ⟨hwrites, by omega, by omega⟩
          rw [hread] at hread'
          exact absurd hread' (by simp)
  | number =>
      cases hread : Binary64.readFinite? raw with
      | some x => exact .inl ⟨_, .number hread⟩
      | none => exact .inr ⟨_, .number hread⟩
  | flag =>
      by_cases hyes : Text.fold raw ∈ ["true", "1", "yes", "on"]
      · exact .inl ⟨_, .yes hyes⟩
      by_cases hno : Text.fold raw ∈ ["false", "0", "no", "off"]
      · exact .inl ⟨_, .no hno⟩
      · exact .inr ⟨_, .flag hyes hno⟩
  | json =>
      cases hread : Json.read (Utf8.encode raw) with
      | ok value => exact .inl ⟨_, .json hread⟩
      | error fault => exact .inr ⟨_, .json hread⟩

end Coercion

/-! ## What is taken from a request -/

/-- The input can be taken from the request, and this is its value. -/
inductive Param.Takes (r : Request) (p : Param) : Json → Prop where
  | path {c : Coercion} {raw : String} {value : Json} :
      p.source = .path c → r.pathParam? p.name = some raw → c.Denotes raw value → Takes r p value
  | query {c : Coercion} {absent : Option Json} {raw : String} {value : Json} :
      p.source = .query c absent → r.queryParam? p.name = some raw → c.Denotes raw value →
      Takes r p value
  | absent {c : Coercion} {value : Json} :
      p.source = .query c (some value) → r.queryParam? p.name = none → Takes r p value
  | body {value : Json} :
      p.source = .body → r.body ≠ [] → Json.read r.body = .ok value → Takes r p value

/-- The input cannot be taken from the request, for this reason. -/
inductive Param.Fails (r : Request) (p : Param) : String → Prop where
  | noPath {c : Coercion} :
      p.source = .path c → r.pathParam? p.name = none → Fails r p "missing path parameter"
  | path {c : Coercion} {raw reason : String} :
      p.source = .path c → r.pathParam? p.name = some raw → c.Refuses raw reason →
      Fails r p reason
  | noQuery {c : Coercion} :
      p.source = .query c none → r.queryParam? p.name = none →
      Fails r p "missing query parameter"
  | query {c : Coercion} {absent : Option Json} {raw reason : String} :
      p.source = .query c absent → r.queryParam? p.name = some raw → c.Refuses raw reason →
      Fails r p reason
  | noBody : p.source = .body → r.body = [] → Fails r p "missing request body"
  | body {fault : Json.Fault} :
      p.source = .body → r.body ≠ [] → Json.read r.body = .error fault →
      Fails r p ("invalid JSON body: " ++ fault.message r.body)

namespace Param

variable {r : Request} {p : Param} {value : Json} {reason : String}

theorem json_any (r : Request) : r.json .any = Json.read r.body :=
  rfl

theorem bind_of_takes (htakes : p.Takes r value) : p.bind r = .ok value := by
  cases htakes with
  | path hsource hraw hdenotes =>
      simp only [bind, hsource, hraw, Coercion.coerce_of_denotes hdenotes]
  | query hsource hraw hdenotes =>
      simp only [bind, hsource, hraw, Coercion.coerce_of_denotes hdenotes]
  | absent hsource hnone => simp only [bind, hsource, hnone]
  | body hsource hbody hread =>
      have hsome : r.body.isEmpty = false := List.isEmpty_eq_false_iff.mpr hbody
      simp [bind, hsource, hsome, json_any, hread]

theorem bind_of_fails (hfails : p.Fails r reason) : p.bind r = .error reason := by
  cases hfails with
  | noPath hsource hnone => simp only [bind, hsource, hnone]
  | path hsource hraw hrefuses =>
      simp only [bind, hsource, hraw, Coercion.coerce_of_refuses hrefuses]
  | noQuery hsource hnone => simp only [bind, hsource, hnone]
  | query hsource hraw hrefuses =>
      simp only [bind, hsource, hraw, Coercion.coerce_of_refuses hrefuses]
  | noBody hsource hbody => simp [bind, hsource, hbody]
  | body hsource hbody hread =>
      have hsome : r.body.isEmpty = false := List.isEmpty_eq_false_iff.mpr hbody
      simp [bind, hsource, hsome, json_any, hread]

theorem takes_or_fails (p : Param) (r : Request) :
    (∃ value, p.Takes r value) ∨ ∃ reason, p.Fails r reason := by
  cases hsource : p.source with
  | path c =>
      cases hraw : r.pathParam? p.name with
      | none => exact .inr ⟨_, .noPath hsource hraw⟩
      | some raw =>
          rcases c.denotes_or_refuses raw with ⟨value, hdenotes⟩ | ⟨reason, hrefuses⟩
          · exact .inl ⟨value, .path hsource hraw hdenotes⟩
          · exact .inr ⟨reason, .path hsource hraw hrefuses⟩
  | query c absent =>
      cases hraw : r.queryParam? p.name with
      | none =>
          cases absent with
          | none => exact .inr ⟨_, .noQuery hsource hraw⟩
          | some value => exact .inl ⟨value, .absent hsource hraw⟩
      | some raw =>
          rcases c.denotes_or_refuses raw with ⟨value, hdenotes⟩ | ⟨reason, hrefuses⟩
          · exact .inl ⟨value, .query hsource hraw hdenotes⟩
          · exact .inr ⟨reason, .query hsource hraw hrefuses⟩
  | body =>
      by_cases hbody : r.body = []
      · exact .inr ⟨_, .noBody hsource hbody⟩
      · cases hread : Json.read r.body with
        | ok value => exact .inl ⟨value, .body hsource hbody hread⟩
        | error fault => exact .inr ⟨_, .body hsource hbody hread⟩

/-- The value is determined by the declaration and the request. -/
theorem Takes.unique {other : Json} (htakes : p.Takes r value) (hother : p.Takes r other) :
    value = other := by
  have hbind := bind_of_takes htakes
  rw [bind_of_takes hother, Except.ok.injEq] at hbind
  exact hbind.symm

/-- What stands for an absent query parameter counts for nothing when it is there. -/
theorem takes_iff_of_query {c : Coercion} {absent : Option Json} {raw : String}
    (hsource : p.source = .query c absent) (hraw : r.queryParam? p.name = some raw) :
    p.Takes r value ↔ c.Denotes raw value := by
  constructor
  · intro htakes
    cases htakes with
    | path hother => simp [hsource] at hother
    | query hsame hsome hdenotes =>
        rw [hsource, Source.query.injEq] at hsame
        rw [hraw, Option.some.injEq] at hsome
        rw [hsame.1, hsome]
        exact hdenotes
    | absent _ hnone => simp [hraw] at hnone
    | body hother => simp [hsource] at hother
  · exact .query hsource hraw

end Param

/-! ## All inputs of an endpoint -/

namespace Arguments

/-- A value for each declared name and for nothing else, namely that of the last declaration. -/
structure Fills (params : List Param) (r : Request) (a : Arguments) : Prop where
  isSome_iff : ∀ name, (a.get? name).isSome ↔ name ∈ params.map Param.name
  get?_last : ∀ front p back, params = front ++ p :: back → (∀ q ∈ back, q.name ≠ p.name) →
    ∃ value, p.Takes r value ∧ a.get? p.name = some value

/-- The reasons of just the inputs that cannot be taken, each behind the name of the input and in
the order in which they are declared. -/
inductive Refusals (r : Request) : List Param → List String → Prop where
  | nil : Refusals r [] []
  | taken {p : Param} {rest : List Param} {reasons : List String} {value : Json} :
      p.Takes r value → Refusals r rest reasons → Refusals r (p :: rest) reasons
  | refused {p : Param} {rest : List Param} {reasons : List String} {reason : String} :
      p.Fails r reason → Refusals r rest reasons →
      Refusals r (p :: rest) ((p.name ++ ": " ++ reason) :: reasons)

variable {r : Request} {params : List Param} {reasons : List String}

theorem exists_refusals (r : Request) (params : List Param) :
    ∃ reasons, Refusals r params reasons := by
  induction params with
  | nil => exact ⟨[], .nil⟩
  | cons p rest ih =>
      obtain ⟨reasons, hreasons⟩ := ih
      rcases p.takes_or_fails r with ⟨value, htakes⟩ | ⟨reason, hfails⟩
      · exact ⟨reasons, .taken htakes hreasons⟩
      · exact ⟨_, .refused hfails hreasons⟩

theorem Refusals.eq_nil_iff (hreasons : Refusals r params reasons) :
    reasons = [] ↔ ∀ p ∈ params, ∃ value, p.Takes r value := by
  induction hreasons with
  | nil => simp
  | taken htakes _ ih =>
      rw [ih, List.forall_mem_cons]
      exact ⟨fun h => ⟨⟨_, htakes⟩, h⟩, fun h => h.2⟩
  | refused hfails _ _ =>
      constructor
      · exact fun h => absurd h (by simp)
      · intro hall
        obtain ⟨value, htakes⟩ := (List.forall_mem_cons.mp hall).1
        have hbind := Param.bind_of_takes htakes
        rw [Param.bind_of_fails hfails] at hbind
        exact absurd hbind (by simp)

theorem collect_append (first second : List Param) (taken : Arguments) (failures : List String) :
    collect r (first ++ second) taken failures =
      collect r second (collect r first taken failures).1 (collect r first taken failures).2 := by
  induction first generalizing taken failures with
  | nil => rfl
  | cons p rest ih =>
      rw [List.cons_append, collect, collect]
      split
      next => exact ih _ _
      next => exact ih _ _

theorem Refusals.collect_snd (hreasons : Refusals r params reasons) (taken : Arguments)
    (failures : List String) : (collect r params taken failures).2 = failures ++ reasons := by
  induction hreasons generalizing taken failures with
  | nil => rw [collect, List.append_nil]
  | taken htakes _ ih =>
      rw [collect, Param.bind_of_takes htakes]
      exact ih _ _
  | refused hfails _ ih =>
      rw [collect, Param.bind_of_fails hfails]
      dsimp only
      rw [ih, List.append_assoc, List.singleton_append]

/-- The reasons are determined by the declarations and the request. -/
theorem Refusals.unique {others : List String} (hreasons : Refusals r params reasons)
    (hothers : Refusals r params others) : reasons = others := by
  have hsame := hreasons.collect_snd {} []
  rw [hothers.collect_snd, List.nil_append, List.nil_append] at hsame
  exact hsame.symm

/-- One more input that can be taken. -/
theorem Fills.insert {a : Arguments} (hfills : Fills params r a) {p : Param} {value : Json}
    (htakes : p.Takes r value) : Fills (params ++ [p]) r (a.insert p.name value) where
  isSome_iff name := by
    by_cases hname : name = p.name
    · subst hname
      simp [Arguments.get?, Arguments.insert]
    · have hother : (a.insert p.name value).get? name = a.get? name :=
        Assoc.get?_insert_of_ne hname value a.entries
      rw [hother, hfills.isSome_iff]
      simp [hname]
  get?_last front q back hparams hlast := by
    rcases List.eq_nil_or_concat back with rfl | ⟨back, last, rfl⟩
    · -- The new input is the last one of its name.
      obtain ⟨-, hq⟩ := List.append_inj' hparams rfl
      rw [List.cons.injEq] at hq
      rw [← hq.1]
      exact ⟨value, htakes, Assoc.get?_insert_self _ _ _⟩
    · rw [List.concat_eq_append] at hparams hlast
      rw [← List.cons_append, ← List.append_assoc] at hparams
      obtain ⟨hfront, hp⟩ := List.append_inj' hparams rfl
      rw [List.cons.injEq] at hp
      have hne : q.name ≠ p.name := by
        rw [hp.1]
        exact (hlast last (by simp)).symm
      have hsame : (a.insert p.name value).get? q.name = a.get? q.name :=
        Assoc.get?_insert_of_ne hne value a.entries
      rw [hsame]
      exact hfills.get?_last front q back hfront fun q hq => hlast q (by simp [hq])

/-- The value that is there is the one that is taken. -/
theorem Fills.get?_of_takes {a : Arguments} (hfills : Fills params r a) (front back : List Param)
    {p : Param} {value : Json} (htakes : p.Takes r value) (hparams : params = front ++ p :: back)
    (hlast : ∀ q ∈ back, q.name ≠ p.name) : a.get? p.name = some value := by
  obtain ⟨taken, htaken, hget⟩ := hfills.get?_last front p back hparams hlast
  rw [hget, htaken.unique htakes]

theorem fills_nil : Fills [] r {} where
  isSome_iff name := by simp [Arguments.get?, Assoc.get?]
  get?_last front p back hparams := by simp at hparams

/-- What is taken of inputs that all can be. -/
theorem fills_collect (htaken : ∀ p ∈ params, ∃ value, p.Takes r value) :
    Fills params r (collect r params {} []).1 := by
  induction params using List.reverseRecOn with
  | nil => exact fills_nil
  | append_singleton params p ih =>
      obtain ⟨value, htakes⟩ := htaken p (by simp)
      have hfills := ih fun q hq => htaken q (by simp [hq])
      rw [collect_append, collect, Param.bind_of_takes htakes]
      exact hfills.insert htakes

theorem bind_of_taken (htaken : ∀ p ∈ params, ∃ value, p.Takes r value) :
    ∃ a, bind params r = .ok a ∧ Fills params r a := by
  obtain ⟨reasons, hreasons⟩ := exists_refusals r params
  have hnone : (collect r params {} []).2 = [] := by
    rw [hreasons.collect_snd, hreasons.eq_nil_iff.mpr htaken, List.append_nil]
  refine ⟨(collect r params {} []).1, ?_, fills_collect htaken⟩
  rw [bind]
  split
  next taken hcollect => rw [hcollect]
  next failures hsome hcollect =>
    rw [hcollect] at hnone
    exact absurd hnone hsome

theorem bind_of_refused (hreasons : Refusals r params reasons) (hsome : reasons ≠ []) :
    bind params r = .error (.new .unprocessableEntity
      ("validation failed: " ++ String.intercalate "; " reasons)) := by
  have hfailures : (collect r params {} []).2 = reasons := by
    rw [hreasons.collect_snd, List.nil_append]
  rw [bind]
  split
  next taken hcollect =>
    rw [hcollect] at hfailures
    exact absurd hfailures.symm hsome
  next failures _ hcollect =>
    rw [hcollect] at hfailures
    rw [← hfailures]

end Arguments
end WebApp
