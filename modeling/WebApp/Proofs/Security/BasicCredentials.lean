import Mathlib.Tactic
import WebApp.Proofs.Dependency.ResolverRuns
import WebApp.Proofs.Encoding.Base64
import WebApp.Proofs.Text.Trimming
import WebApp.Proofs.Text.Utf8
import WebApp.Security.Credentials

/-!
# Credentials of the basic scheme

A client joins its name and its password with a colon, writes the text as bytes and the bytes as
base64, and puts the name of the scheme before them.  Each of these steps is undone by its own
reader, which takes nothing that the step does not write.  So the dependency gives the credentials
that a request carries, and refuses every request that carries none.
-/

namespace WebApp
namespace Security

/-! ## The field -/

/-- A text in the form that the basic scheme has for it.  The blanks around it are spare. -/
structure BasicValue where
  scheme : String
  before : Text.Blanks
  text : String
  after : Text.Blanks
  isBasic : Text.sameFolded scheme "Basic" = true

def BasicValue.encoded (value : BasicValue) : String :=
  String.ofList (Base64.encode (Utf8.encode value.text))

def BasicValue.written (value : BasicValue) : String :=
  value.scheme ++ " " ++ (value.before.val ++ value.encoded ++ value.after.val)

theorem isBlank_of_mem_encode {bytes : Bytes} {c : Char} (hc : c ∈ Base64.encode bytes) :
    Text.isBlank c = false := by
  have hsymbols : ∀ n < 64, Text.isBlank (Base64.symbol n) = false := by decide
  rcases Base64.mem_encode hc with rfl | ⟨n, hn, rfl⟩
  · rfl
  · exact hsymbols n hn

theorem BasicValue.trim_encoded (value : BasicValue) :
    Text.trim (value.before.val ++ value.encoded ++ value.after.val) = value.encoded := by
  apply Text.trim_between
  apply Text.trimmed_of_forall
  intro c hc
  rw [encoded, String.toList_ofList] at hc
  exact isBlank_of_mem_encode hc

theorem space_notMem_of_sameFolded {found : String}
    (hfound : Text.sameFolded found "Basic" = true) : ' ' ∉ found.toList := by
  intro hspace
  exact absurd (Text.toLower_mem_of_sameFolded hfound hspace) (by decide)

theorem BasicValue.splitOnce_written (value : BasicValue) :
    Text.splitOnce ' ' value.written =
      some (value.scheme, value.before.val ++ value.encoded ++ value.after.val) := by
  rw [Text.splitOnce_eq_some_iff, written]
  refine ⟨?_, space_notMem_of_sameFolded value.isBasic⟩
  rw [String.toList_append, String.toList_append, List.append_assoc]
  rfl

theorem authorization?_eq_some_iff {r : Request} {scheme credentials : String} :
    authorization? r scheme = some credentials ↔
      ∃ value found rest, r.headers.get? "authorization" = some value ∧
        Text.splitOnce ' ' value = some (found, rest) ∧
        Text.sameFolded found scheme = true ∧ Text.trim rest = credentials := by
  simp only [authorization?, Option.bind_eq_some_iff, Option.ite_none_right_eq_some,
    Option.some.injEq, Prod.exists]
  constructor
  · rintro ⟨found, rest, ⟨value, hvalue, hsplit⟩, hfound, hrest⟩
    exact ⟨value, found, rest, hvalue, hsplit, hfound, hrest⟩
  · rintro ⟨value, found, rest, hvalue, hsplit, hfound, hrest⟩
    exact ⟨found, rest, ⟨value, hvalue, hsplit⟩, hfound, hrest⟩

/-! ## The credentials -/

/-- The credentials that a text stands for: its name ends at the first colon, and without a colon
there is no password. -/
structure ReadAs (text : String) (credentials : Credentials) : Prop where
  plain : ':' ∉ credentials.username.toList
  parts : text = credentials.username ++ ":" ++ credentials.password ∨
    credentials.password = "" ∧ text = credentials.username

theorem readAs_iff (text : String) (credentials : Credentials) :
    ReadAs text credentials ↔
      (match Text.splitOnce ':' text with
        | some (username, password) => some (Credentials.mk username password)
        | none => some ⟨text, ""⟩) = some credentials := by
  obtain ⟨username, password⟩ := credentials
  constructor
  · rintro ⟨hplain, rfl | ⟨rfl, rfl⟩⟩
    · have hsplit : Text.splitOnce ':' (username ++ ":" ++ password) =
          some (username, password) := by
        rw [Text.splitOnce_eq_some_iff]
        exact ⟨by simp, hplain⟩
      rw [hsplit]
    · rw [Text.splitOnce_eq_none_iff.mpr hplain]
  · intro hparts
    cases hsplit : Text.splitOnce ':' text with
    | none =>
        simp only [hsplit, Option.some.injEq, Credentials.mk.injEq] at hparts
        obtain ⟨rfl, rfl⟩ := hparts
        exact ⟨Text.splitOnce_eq_none_iff.mp hsplit, .inr ⟨rfl, rfl⟩⟩
    | some found =>
        simp only [hsplit, Option.some.injEq, Credentials.mk.injEq] at hparts
        obtain ⟨rfl, rfl⟩ := hparts
        obtain ⟨htext, hplain⟩ := Text.splitOnce_eq_some_iff.mp hsplit
        refine ⟨hplain, .inl (String.toList_injective ?_)⟩
        simpa using htext

theorem decodeBasic?_eq_some_iff {encoded : String} {credentials : Credentials} :
    decodeBasic? encoded = some credentials ↔
      ∃ text, encoded = String.ofList (Base64.encode (Utf8.encode text)) ∧
        ReadAs text credentials := by
  have hencoded : ∀ text : String, encoded = String.ofList (Base64.encode (Utf8.encode text)) ↔
      ∃ bytes, Base64.decode? encoded.toList = some bytes ∧ Utf8.decode? bytes = some text := by
    intro text
    simp only [Base64.decode?_eq_some_iff, Utf8.decode?_eq_some_iff]
    constructor
    · rintro rfl
      exact ⟨_, String.toList_ofList, rfl⟩
    · rintro ⟨bytes, hbytes, rfl⟩
      rw [← hbytes, String.ofList_toList]
  simp only [hencoded, readAs_iff, decodeBasic?, Option.bind_eq_bind, Option.bind_eq_some_iff]
  constructor
  · rintro ⟨bytes, hbytes, text, htext, hread⟩
    exact ⟨text, ⟨bytes, hbytes, htext⟩, hread⟩
  · rintro ⟨text, ⟨bytes, hbytes, htext⟩, hread⟩
    exact ⟨bytes, hbytes, text, htext, hread⟩

/-- A request carries credentials in the first authorization field and nowhere else. -/
theorem basic_eq_ok_iff {r : Request} {credentials : Credentials} :
    basic r = .ok credentials ↔
      ∃ value : BasicValue, r.headers.get? "authorization" = some value.written ∧
        ReadAs value.text credentials := by
  constructor
  · intro hbasic
    unfold basic at hbasic
    split at hbasic
    next => simp at hbasic
    next encoded hauthorization =>
      split at hbasic
      next decoded hdecode =>
        obtain rfl := Except.ok.inj hbasic
        obtain ⟨field, found, rest, hfield, hsplit, hfound, rfl⟩ :=
          authorization?_eq_some_iff.mp hauthorization
        obtain ⟨text, hencoded, hread⟩ := decodeBasic?_eq_some_iff.mp hdecode
        obtain ⟨before, after, hrest⟩ := Text.exists_between_trim rest
        refine ⟨⟨found, before, text, after, hfound⟩, ?_, hread⟩
        rw [hfield, BasicValue.written, BasicValue.encoded, ← hencoded, ← hrest]
        congr 1
        apply String.toList_injective
        rw [(Text.splitOnce_eq_some_iff.mp hsplit).1]
        simp
      next => simp at hbasic
  · rintro ⟨value, hvalue, hread⟩
    have hauthorization : authorization? r "Basic" = some value.encoded :=
      authorization?_eq_some_iff.mpr
        ⟨_, _, _, hvalue, value.splitOnce_written, value.isBasic, value.trim_encoded⟩
    have hdecode : decodeBasic? value.encoded = some credentials :=
      decodeBasic?_eq_some_iff.mpr ⟨value.text, rfl, hread⟩
    simp only [basic, hauthorization, hdecode]

theorem unauthorized_of_basic {r : Request} {e : Error} (hbasic : basic r = .error e) :
    ∃ declared, e = .declared declared ∧ declared.status = .unauthorized := by
  unfold basic at hbasic
  split at hbasic
  next =>
    obtain rfl := Except.error.inj hbasic
    exact ⟨_, rfl, rfl⟩
  next =>
    split at hbasic
    next => simp at hbasic
    next =>
      obtain rfl := Except.error.inj hbasic
      exact ⟨_, rfl, rfl⟩

/-! ## The dependency -/

/-- A resolution has come to credentials for a parameter. -/
def Yields (param : String) (credentials : Credentials) (result : Except Halt Resolved) : Prop :=
  ∃ resolved, result = .ok resolved ∧ resolved.get .credentials param = .ok credentials

/-- A resolution has come to a declared error of status 401. -/
def Unauthorized (result : Except Halt Resolved) : Prop :=
  ∃ declared, result = .error (.error (.declared declared)) ∧ declared.status = .unauthorized

theorem yields_singleton_iff {param : String} {given credentials : Credentials} :
    Yields param credentials (.ok (.ofList [(param, .credentials given)])) ↔
      given = credentials := by
  have hget : Resolved.get (.ofList [(param, .credentials given)]) .credentials param =
      .ok given := by
    simp [Resolved.get, Resolved.ofList, Assoc.ofList, Assoc.insert, Assoc.get?, Datum.as?,
      Datum.credentials]
  constructor
  · rintro ⟨_, hresolved, hyields⟩
    obtain rfl := Except.ok.inj hresolved
    exact Except.ok.inj (hget.symm.trans hyields)
  · rintro rfl
    exact ⟨_, rfl, hget⟩

/-- Where its value is not known already, the dependency only looks at the request.  It yields
credentials exactly if the first authorization field is a text that stands for them, in the form of
the scheme; for any other value, and without the field, the request is refused. -/
theorem resolve_httpBasic {σ : Type} {setting : Resolver.Setting} {fresh : DependencyId}
    {isCached : Bool} {ledger : Ledger} (param : String)
    (hknown : Resolver.known? setting fresh isCached ledger = none) :
    ∃ result after,
      Routine.Gives
        ((Resolver.resolve (m := Routine σ) setting
          [⟨param, httpBasic fresh, isCached⟩]).run.run ledger) (result, after) ∧
      ((∃ credentials, Yields param credentials result) ∨ Unauthorized result) ∧
      ∀ credentials, Yields param credentials result ↔
        ∃ value : BasicValue,
          setting.request.headers.get? "authorization" = some value.written ∧
            ReadAs value.text credentials := by
  have hgives := Resolver.resolve_ofFunction_gives (σ := σ) hknown param "http_basic"
    fun call => (basic call.request).map Datum.credentials
  cases hbasic : basic setting.request with
  | ok given =>
      rw [hbasic] at hgives
      refine ⟨_, _, hgives, .inl ⟨given, yields_singleton_iff.mpr rfl⟩, fun credentials => ?_⟩
      rw [← basic_eq_ok_iff, hbasic, Except.ok.injEq]
      exact yields_singleton_iff
  | error e =>
      rw [hbasic] at hgives
      obtain ⟨declared, rfl, hstatus⟩ := unauthorized_of_basic hbasic
      refine ⟨_, _, hgives, .inr ⟨declared, rfl, hstatus⟩, fun credentials => ?_⟩
      rw [← basic_eq_ok_iff, hbasic]
      simp [Yields]

def aliceValue : BasicValue where
  scheme := "bASIC"
  before := ⟨"\t", by simp [Text.isBlank]⟩
  text := "alice:s3cret:x"
  after := ⟨" ", by simp [Text.isBlank]⟩
  isBasic := by decide

theorem resolve_httpBasic_alice :
    ∃ result after,
      Routine.Gives
        ((Resolver.resolve (m := Routine Unit)
          ⟨(Request.new .get "/").withHeader "Authorization" "bASIC \tYWxpY2U6czNjcmV0Ong= ", []⟩
          [⟨"user", httpBasic ⟨0⟩, true⟩]).run.run {}) (result, after) ∧
      Yields "user" ⟨"alice", "s3cret:x"⟩ result := by
  obtain ⟨result, after, hgives, -, hyields⟩ := resolve_httpBasic (σ := Unit) "user"
    (show Resolver.known?
      ⟨(Request.new .get "/").withHeader "Authorization" "bASIC \tYWxpY2U6czNjcmV0Ong= ", []⟩
      ⟨0⟩ true {} = none from rfl)
  refine ⟨result, after, hgives, (hyields _).mpr ⟨aliceValue, ?_, ?_⟩⟩
  · decide +kernel
  · exact ⟨by decide, .inl rfl⟩

end Security
end WebApp
