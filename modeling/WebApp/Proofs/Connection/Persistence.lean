import Mathlib.Tactic
import WebApp.Proofs.Connection.Arrival
import WebApp.Proofs.Http.WireFormat
import WebApp.Proofs.Security.Vary
import WebApp.Proofs.Text.Trimming

/-!
# Connections that persist

The connection fields of a request list options: a connection of version 1.1 persists unless it is
to close, and one of version 1.0 only if it is to be kept alive.  What is looked at is the value of
the first field as a whole, so that a list, another option, or a second field is not read as it is
meant.  Whatever a request is taken to ask for, the response to it says, and the connection does as
its last response said.
-/

namespace WebApp

namespace Request

/-- The options that all connection fields list, in lower case. -/
def options (r : Request) : List String :=
  Vary.listed (r.headers.getAll "connection")

/-- The connection is to stay open behind the request. -/
def Persists (r : Request) : Prop :=
  "close" ∉ r.options ∧ (r.version = 1 ∨ "keep-alive" ∈ r.options)

instance (r : Request) : Decidable r.Persists :=
  inferInstanceAs (Decidable (_ ∧ _))

/-- Connection values that are read as they are meant: no values at all; the one option by itself,
and none to close behind it; or others that do ask for the end of the connection. -/
def Heeded (version : Nat) : List String → Prop
  | [] => True
  | first :: rest =>
    if Text.sameFolded first "keep-alive" then
      "close" ∉ Vary.listed rest
    else
      "close" ∈ Vary.listed (first :: rest) ∨
        version ≠ 1 ∧ "keep-alive" ∉ Vary.listed (first :: rest)

instance (version : Nat) : (values : List String) → Decidable (Heeded version values)
  | [] => inferInstanceAs (Decidable True)
  | first :: rest =>
    inferInstanceAs (Decidable
      (if Text.sameFolded first "keep-alive" then "close" ∉ Vary.listed rest
      else "close" ∈ Vary.listed (first :: rest) ∨
        version ≠ 1 ∧ "keep-alive" ∉ Vary.listed (first :: rest)))

end Request

theorem Vary.members_of_sameFolded {value : String}
    (hvalue : Text.sameFolded value "keep-alive" = true) : members value = ["keep-alive"] := by
  have hchars : ∀ c ∈ value.toList, c ≠ ',' ∧ isPad c = false := by
    intro c hc
    have hlower := Text.toLower_mem_of_sameFolded hvalue hc
    refine ⟨?_, Bool.eq_false_iff.mpr fun hpad => ?_⟩
    · rintro rfl
      exact absurd hlower (by decide)
    · rcases (by simpa [isPad] using hpad : c = ' ' ∨ c = '\t') with rfl | rfl
      · exact absurd hlower (by decide)
      · exact absurd hlower (by decide)
  have hpieces : Text.pieces ',' value = [value] := by
    have hplain : ∀ part ∈ [value], ',' ∉ part.toList :=
      List.forall_mem_singleton.mpr fun hcomma => (hchars ',' hcomma).1 rfl
    have hone := Text.pieces_intercalate hplain (by simp)
    rwa [String.intercalate_singleton] at hone
  have hbare : bare value = "keep-alive" := by
    have hfold : Text.fold value = Text.fold "keep-alive" := by
      simpa [Text.sameFolded] using hvalue
    rw [bare, Text.dropWhile_of_head? fun c hc => (hchars c (List.mem_of_mem_head? hc)).2,
      Text.rdropWhile_of_getLast? fun c hc => (hchars c (List.mem_of_mem_getLast? hc)).2,
      String.ofList_toList, hfold]
    decide
  rw [members, hpieces, List.map_singleton, hbare]
  decide

namespace Request

/-- A request is taken for what it asks just if its connection fields are read as they are meant. -/
theorem isKeepAlive_iff_persists_iff (r : Request) :
    (r.isKeepAlive = true ↔ r.Persists) ↔ Heeded r.version (r.headers.getAll "connection") := by
  rw [isKeepAlive, Headers.get?_eq_head?, Persists, options]
  cases r.headers.getAll "connection" with
  | nil => simp [Heeded, Vary.listed]
  | cons first rest =>
      rw [Heeded, List.head?_cons]
      dsimp only
      split
      next hkeep =>
        have hlisted : Vary.listed (first :: rest) = "keep-alive" :: Vary.listed rest := by
          rw [Vary.listed_cons, Vary.members_of_sameFolded hkeep, List.singleton_append]
        simp [hkeep, hlisted]
      next hother =>
        -- The connection is to end, so the two agree where the options do not let it persist.
        simp only [hother]
        tauto

def asking (version : Nat) (values : List String) : Request :=
  { (Request.new .get "/").withHeaders (values.map fun value => ("Connection", value)) with
    version := version }

/-- A connection of version 1.1 ends for want of an option that it does not need; and another one
stays open although it is to close. -/
theorem isKeepAlive_against_options :
    ((asking 1 ["upgrade"]).Persists ∧ (asking 1 ["upgrade"]).isKeepAlive = false) ∧
      ¬ (asking 1 ["keep-alive", "close"]).Persists ∧
      (asking 1 ["keep-alive", "close"]).isKeepAlive = true := by
  decide

end Request

namespace Response

/-- The values of all connection fields that the response has on the wire. -/
def connectionValues (r : Response) : List String :=
  (r.sentFields.filter (Headers.named "connection")).map Prod.snd

theorem connectionValues_eq (r : Response) : r.connectionValues = [r.connection] :=
  r.sends_sentFields.connection

theorem connectionValues_eq_keepAlive_iff (r : Response) :
    r.connectionValues = ["keep-alive"] ↔ r.keepAlive = true := by
  rw [connectionValues_eq, connection]
  cases r.keepAlive <;> decide

theorem connectionValues_cases (r : Response) :
    r.connectionValues = ["keep-alive"] ∨ r.connectionValues = ["close"] := by
  rw [connectionValues_eq, connection]
  cases r.keepAlive <;> decide

end Response

namespace Connection

universe u

variable {m : Type → Type u} [Monad m]

/-- What a connection answers: what the handler gives, marked with what the request is taken to
ask for, or a refusal. -/
inductive Answers (handle : Request → m Response) : m Response → Prop
  | handled (request : Request) :
      Answers handle ((fun response => { response with keepAlive := request.isKeepAlive }) <$>
        handle request)
  | refused (status : Status) (text : String) :
      status = .badRequest ∨ status = .payloadTooLarge → Answers handle (pure (refusal status text))

/-- A round of an open connection: its stream ends, or it waits for more, or it answers; and then
it goes on to read just if its answer says so. -/
inductive Round (handle : Request → m Response) (kept bytes : Bytes) (reads : List Bytes) :
    m Bytes → Prop
  | ended : bytes = [] → Round handle kept bytes reads (pure [])
  | waits : Round handle kept bytes reads (run handle ⟨some (kept ++ bytes)⟩ reads)
  | answers (answer : m Response) (rest : Bytes) : Answers handle answer →
      Round handle kept bytes reads (do
        let response ← answer
        if response.connectionValues = ["keep-alive"] then
          return response.wire ++ (← run handle ⟨some rest⟩ reads)
        else
          return response.wire)

theorem demand_cases (buffer : Bytes) :
    demand buffer = .wait ∨
      (∃ status text, (status = .badRequest ∨ status = .payloadTooLarge) ∧
        demand buffer = .refuse (refusal status text)) ∨
      ∃ request length, demand buffer = .answer request length := by
  unfold demand
  split
  next => exact .inr (.inl ⟨_, _, .inr rfl, rfl⟩)
  next =>
    split
    next => exact .inl rfl
    next => exact .inr (.inl ⟨_, _, .inl rfl, rfl⟩)
    next =>
      dsimp only
      split
      next => exact .inl rfl
      next => exact .inr (.inr ⟨_, _, rfl⟩)

variable [LawfulMonad m]

theorem round_run (handle : Request → m Response) (kept bytes : Bytes) (reads : List Bytes) :
    Round handle kept bytes reads (run handle ⟨some kept⟩ (bytes :: reads)) := by
  by_cases hbytes : bytes = []
  · have hrun : run handle ⟨some kept⟩ (bytes :: reads) = pure [] := by
      simp [run, receive, hbytes, run_closed]
    rw [hrun]
    exact .ended hbytes
  · rcases demand_cases (kept ++ bytes) with hwait | ⟨status, text, hstatus, hrefuse⟩ |
      ⟨request, length, hanswer⟩
    · have hrun : run handle ⟨some kept⟩ (bytes :: reads) =
          run handle ⟨some (kept ++ bytes)⟩ reads := by
        simp [run, receive_of_wait handle hbytes hwait]
      rw [hrun]
      exact .waits
    · -- A refusal says that the connection ends, so what is read behind it does not matter.
      have hvalues : (refusal status text).connectionValues ≠ ["keep-alive"] := by
        rw [ne_eq, Response.connectionValues_eq_keepAlive_iff]
        exact Bool.false_ne_true
      have hrun : run handle ⟨some kept⟩ (bytes :: reads) = (do
          let response ← (pure (refusal status text) : m Response)
          if response.connectionValues = ["keep-alive"] then
            return response.wire ++ (← run handle ⟨some []⟩ reads)
          else
            return response.wire) := by
        rw [pure_bind, if_neg hvalues]
        simp [run, receive_of_refuse handle hbytes hrefuse, run_closed]
      rw [hrun]
      exact .answers _ [] (.refused status text hstatus)
    · have hrun : run handle ⟨some kept⟩ (bytes :: reads) = (do
          let response ← (fun response : Response =>
            { response with keepAlive := request.isKeepAlive }) <$> handle request
          if response.connectionValues = ["keep-alive"] then
            return response.wire ++ (← run handle ⟨some ((kept ++ bytes).drop length)⟩ reads)
          else
            return response.wire) := by
        rw [bind_map_left, run, receive_of_answer handle hbytes hanswer]
        simp only [bind_assoc, pure_bind, Response.connectionValues_eq_keepAlive_iff]
        cases request.isKeepAlive with
        | true => rfl
        | false => simp [run_closed]
      rw [hrun]
      exact .answers _ _ (.handled request)

/-- What a request asks for is what its connection does, just if its connection fields are read as
they are meant; and in any case every response has one connection field, and the connection goes
on behind it just if this field says so. -/
theorem persistence (handle : Request → m Response) :
    (∀ r : Request, (r.isKeepAlive = true ↔ r.Persists) ↔
      Request.Heeded r.version (r.headers.getAll "connection")) ∧
    (∀ response : Response,
      response.connectionValues = ["keep-alive"] ∨ response.connectionValues = ["close"]) ∧
    ∀ kept bytes reads,
      Round handle kept bytes reads (run handle ⟨some kept⟩ (bytes :: reads)) :=
  ⟨Request.isKeepAlive_iff_persists_iff, Response.connectionValues_cases, round_run handle⟩

theorem persistence_old :
    ((Request.asking 0 ["Keep-Alive"]).isKeepAlive = true ↔
      (Request.asking 0 ["Keep-Alive"]).Persists) ∧
    Round (m := Id) (fun _ => Response.new .ok) []
      (Utf8.encode "GET / HTTP/1.0\r\nConnection: Keep-Alive\r\n\r\n") [[]]
      (run (fun _ => Response.new .ok) ⟨some []⟩
        [Utf8.encode "GET / HTTP/1.0\r\nConnection: Keep-Alive\r\n\r\n", []]) := by
  obtain ⟨hrule, -, hround⟩ := persistence (m := Id) fun _ => Response.new .ok
  exact ⟨(hrule _).mpr (by decide), hround _ _ _⟩

end Connection

end WebApp
