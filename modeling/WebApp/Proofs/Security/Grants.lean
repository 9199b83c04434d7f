import Mathlib.Tactic
import WebApp.Proofs.Security.Vary

/-!
# Which origins are let in

An origin is let in when the response names it, or names all origins.  Whether it is depends on
the calls that have configured the layer and on nothing else.  A response to a site that is not
let in names those that are, separated by commas; such a list is never taken for the origin of a
request, as long as an origin holds no comma.
-/

namespace WebApp
namespace Cors

/-- A call that configures the layer. -/
inductive Setting where
  | origin (origin : String)
  | method (method : String)
  | header (header : String)
  | credentials (allow : Bool)
  | maxAge (seconds : Nat)

namespace Setting

def apply (c : Cors) : Setting → Cors
  | origin o => c.allowOrigin o
  | method name => c.allowMethod name
  | header name => c.allowHeader name
  | credentials allow => { c with credentials := allow }
  | maxAge seconds => { c with maxAge := seconds }

def origin? : Setting → Option String
  | origin o => some o
  | _ => none

def credentials? : Setting → Option Bool
  | credentials allow => some allow
  | _ => none

end Setting

/-- What a new layer has become by these calls. -/
def configured (settings : List Setting) : Cors :=
  settings.foldl Setting.apply {}

/-- No origin was configured, or all were, or this one was. -/
def LetsIn (settings : List Setting) (origin : String) : Prop :=
  (∀ o, Setting.origin o ∉ settings) ∨ .origin "*" ∈ settings ∨ .origin origin ∈ settings

/-- The last call about credentials allows them. -/
def AllowsCredentials (settings : List Setting) : Prop :=
  (settings.filterMap Setting.credentials?).getLast? = some true

/-! ## What the calls come to -/

theorem Setting.origins_apply (setting : Setting) (c : Cors) :
    (setting.apply c).origins = c.origins ++ setting.origin?.toList := by
  cases setting <;> simp [Setting.apply, Setting.origin?, allowOrigin, allowMethod, allowHeader]

theorem Setting.credentials_apply (setting : Setting) (c : Cors) :
    (setting.apply c).credentials = setting.credentials?.getD c.credentials := by
  cases setting <;> rfl

theorem configured_append (settings : List Setting) (setting : Setting) :
    configured (settings ++ [setting]) = setting.apply (configured settings) := by
  rw [configured, List.foldl_append]
  rfl

theorem origins_configured (settings : List Setting) :
    (configured settings).origins = settings.filterMap Setting.origin? := by
  induction settings using List.reverseRecOn with
  | nil => rfl
  | append_singleton settings setting ih =>
      rw [configured_append, Setting.origins_apply, ih, List.filterMap_append]
      cases horigin : setting.origin? <;> simp [horigin]

theorem credentials_configured (settings : List Setting) :
    (configured settings).credentials = true ↔ AllowsCredentials settings := by
  induction settings using List.reverseRecOn with
  | nil => simp [configured, AllowsCredentials]
  | append_singleton settings setting ih =>
      rw [configured_append, Setting.credentials_apply, AllowsCredentials, List.filterMap_append,
        List.getLast?_append]
      rw [AllowsCredentials] at ih
      cases hcredentials : setting.credentials? with
      | none =>
          rw [Option.getD_none, ih]
          simp [hcredentials]
      | some allow => simp [hcredentials]

theorem mem_origins_iff (settings : List Setting) (origin : String) :
    origin ∈ (configured settings).origins ↔ .origin origin ∈ settings := by
  rw [origins_configured, List.mem_filterMap]
  constructor
  · rintro ⟨setting, hsetting, horigin⟩
    cases setting <;> simp_all [Setting.origin?]
  · exact fun hsetting => ⟨_, hsetting, rfl⟩

/-- The origins that count are those configured, or the wildcard where there are none. -/
theorem mem_effectiveOrigins_iff (settings : List Setting) (origin : String) :
    ("*" ∈ (configured settings).effectiveOrigins ∨
      origin ∈ (configured settings).effectiveOrigins) ↔ LetsIn settings origin := by
  have hnone : (configured settings).origins = [] ↔ ∀ o, Setting.origin o ∉ settings := by
    simp only [← mem_origins_iff, List.eq_nil_iff_forall_not_mem]
  unfold effectiveOrigins effective LetsIn
  rw [← hnone, ← mem_origins_iff, ← mem_origins_iff]
  cases (configured settings).origins with
  | nil => simp
  | cons first rest => simp

/-! ## What the response names -/

theorem getAll_varyByOrigin_of_ne {h : Headers} {name : String}
    (hname : Text.fold name ≠ Text.fold "vary") : (varyByOrigin h).getAll name = h.getAll name := by
  unfold varyByOrigin
  split
  next =>
    split
    next => rfl
    next => rw [Headers.getAll_set, if_neg hname]
  next => rw [Headers.getAll_set, if_neg hname]

/-- A list of several names holds a comma. -/
theorem comma_mem_intercalate (first second : String) (rest : List String) :
    ',' ∈ (String.intercalate ", " (first :: second :: rest)).toList := by
  rw [String.intercalate_cons_cons, String.toList_append, String.toList_append]
  simp

/-- What names all configured origins is no other one without a comma. -/
theorem mem_of_intercalate_eq {origins : List String} {origin : String} (hsome : origins ≠ [])
    (hcomma : ',' ∉ origin.toList) (hsame : String.intercalate ", " origins = origin) :
    origin ∈ origins := by
  match origins with
  | [] => exact absurd rfl hsome
  | [only] => rw [← hsame, String.intercalate_singleton, List.mem_singleton]
  | first :: second :: rest =>
      rw [← hsame] at hcomma
      exact absurd (comma_mem_intercalate first second rest) hcomma

theorem effectiveOrigins_ne_nil (c : Cors) : c.effectiveOrigins ≠ [] := by
  unfold effectiveOrigins effective
  split
  next => simp
  next hsome => simpa using hsome

/-- The origin that is granted to a request, and whether it is the one of the request. -/
theorem grant_some (c : Cors) {origin : String} (hstar : origin ≠ "*")
    (hcomma : ',' ∉ origin.toList) :
    (((c.grant (some origin)).1 = "*" ∨ (c.grant (some origin)).1 = origin) ↔
      ("*" ∈ c.effectiveOrigins ∨ origin ∈ c.effectiveOrigins)) ∧
    (c.credentials = true → (c.grant (some origin)).1 ≠ "*") ∧
    ((c.grant (some origin)).2 = true ↔
      ("*" ∈ c.effectiveOrigins ∨ origin ∈ c.effectiveOrigins) ∧
        (c.grant (some origin)).1 ≠ "*") := by
  have hnostar : ',' ∉ "*".toList := by decide
  by_cases hwildcard : "*" ∈ c.effectiveOrigins
  · by_cases hcredentials : c.credentials = true <;> simp [grant, hwildcard, hcredentials, hstar]
  · by_cases hlisted : origin ∈ c.effectiveOrigins
    · simp [grant, hwildcard, hlisted, hstar]
    · -- The names of all that are let in: neither the wildcard nor the origin.
      have hother : ∀ name, ',' ∉ name.toList → name ∉ c.effectiveOrigins →
          String.intercalate ", " c.effectiveOrigins ≠ name := fun name hname hmem hsame =>
        hmem (mem_of_intercalate_eq c.effectiveOrigins_ne_nil hname hsame)
      simp [grant, hwildcard, hlisted, hother _ hnostar hwildcard, hother _ hcomma hlisted]

theorem getAll_origin_controlled (c : Cors) (allowed : String) (h : Headers) :
    (c.controlled allowed h).getAll "access-control-allow-origin" = [allowed] := by
  have hnames := (c.names_controlledFields allowed).trans (List.sublist_append_left _ ["vary"])
  have hfield : ("access-control-allow-origin", allowed) ∈ c.controlledFields allowed := by
    simp [controlledFields]
  rw [controlled_eq_setEach]
  exact h.getAll_setEach (pairwise_of_names hnames) ("access-control-allow-origin", allowed) hfield

/-- The response names just the origin that was granted. -/
theorem getAll_origin_decorate (c : Cors) (origin : Option String) (h : Headers) :
    (c.decorate origin h).getAll "access-control-allow-origin" = [(c.grant origin).1] := by
  have hvary : Text.fold "access-control-allow-origin" ≠ Text.fold "vary" := by decide
  rw [decorate_eq]
  split
  next => rw [getAll_varyByOrigin_of_ne hvary, getAll_origin_controlled]
  next => exact getAll_origin_controlled _ _ _

/-! ## The property -/

/-- Whatever calls have configured the layer: the response names the origin of the request, or all
origins, just when the calls let it in; with credentials it does not name all; and the origin counts
as echoed, so that caches are told, just when the response names it and not all. -/
theorem after_grants (settings : List Setting) (request : Request) (response : Response)
    {origin : String} (horigin : request.headers.get? "origin" = some origin)
    (hstar : origin ≠ "*") (hcomma : ',' ∉ origin.toList) :
    let c := configured settings
    let echoed := (c.grant (request.headers.get? "origin")).2 = true
    let before := response.headers.getAll "vary"
    let headers := (c.after request response).headers
    ∃ allowed, headers.getAll "access-control-allow-origin" = [allowed] ∧
      ((allowed = "*" ∨ allowed = origin) ↔ LetsIn settings origin) ∧
      (AllowsCredentials settings → allowed ≠ "*") ∧
      (echoed ↔ (allowed = "*" ∨ allowed = origin) ∧ allowed ≠ "*") ∧
      (echoed → ∃ value ∈ headers.getAll "vary", Text.contains (Text.fold value) "origin") ∧
      (¬ echoed → headers.getAll "vary" = before) := by
  intro c echoed before headers
  obtain ⟨hgrants, hcredentials, hechoes⟩ := c.grant_some hstar hcomma
  have hvary := c.getAll_vary_decorate (request.headers.get? "origin") response.headers
  refine ⟨(c.grant (some origin)).1, ?_, ?_, ?_, ?_, ?_, ?_⟩
  · rw [← horigin]
    exact c.getAll_origin_decorate _ response.headers
  · rw [hgrants]
    exact mem_effectiveOrigins_iff settings origin
  · rw [← credentials_configured]
    exact hcredentials
  · rw [hgrants, ← hechoes, ← horigin]
  · intro hechoed
    rw [if_pos hechoed] at hvary
    obtain ⟨value, hvalue, hcontains⟩ := Vary.exists_mem_varied before
    exact ⟨value, hvary ▸ hvalue, hcontains⟩
  · intro hechoed
    rw [if_neg hechoed] at hvary
    exact hvary

/-- Calls that let one site in, with credentials. -/
def trusting : List Setting :=
  [.credentials false, .origin "https://a.example", .method "PATCH", .credentials true]

/-- A site that is let in with credentials is named. -/
theorem after_grants_trusted :
    requestFromThere.headers.get? "origin" = some "https://a.example" ∧
      "https://a.example" ≠ "*" ∧ ',' ∉ "https://a.example".toList ∧
      LetsIn trusting "https://a.example" ∧ AllowsCredentials trusting ∧
      ((configured trusting).after requestFromThere (Response.new .ok)).headers.getAll
        "access-control-allow-origin" = ["https://a.example"] := by
  have horigin : requestFromThere.headers.get? "origin" = some "https://a.example" := by decide
  have hstar : "https://a.example" ≠ "*" := by decide
  have hcomma : ',' ∉ "https://a.example".toList := by decide
  have hletsIn : LetsIn trusting "https://a.example" := .inr (.inr (by simp [trusting]))
  have hcredentials : AllowsCredentials trusting := rfl
  obtain ⟨allowed, hnamed, hgranted, hnever, -⟩ :=
    after_grants trusting requestFromThere (Response.new .ok) horigin hstar hcomma
  have hallowed : allowed = "https://a.example" :=
    (hgranted.mpr hletsIn).resolve_left (hnever hcredentials)
  exact ⟨horigin, hstar, hcomma, hletsIn, hcredentials, hallowed ▸ hnamed⟩

end Cors
end WebApp
