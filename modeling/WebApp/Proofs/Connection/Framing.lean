import Mathlib.Tactic
import WebApp.Proofs.Connection.Pace
import WebApp.Proofs.Http.WireFormat

/-!
# Responses on one connection

A client that waits for each response before it sends the next request takes the bytes apart by
the methods of its requests: a response to HEAD, or with a status that allows no body, ends with
its head.  The connection writes the body of every response behind its head.  So the client
finds its responses exactly when those that end with their heads have no bodies, and no value
of a field ends a line.
-/

namespace WebApp
namespace Client

/-- Whether a response has a body, by the method of the request and the status code. -/
def expectsBody (method : Method) (code : Nat) : Bool :=
  method != .head && !(100 ≤ code && code < 200) && code != 204 && code != 304

/-- One response for each request, and the bytes behind them. -/
def splits? (ending : LineEnd) : List Method → Bytes → Option (List Answer × Bytes)
  | [], bytes => some ([], bytes)
  | method :: methods, bytes =>
    (answer? ending (expectsBody method) bytes).bind fun found =>
      (splits? ending methods found.2).map fun others => (found.1 :: others.1, others.2)

/-- How many bytes write the response. -/
def Answer.size (answer : Answer) : Nat :=
  answer.heading.bytes.length + answer.body.length

theorem length_le_of_splits? {ending : LineEnd} {methods : List Method} {bytes rest : Bytes}
    {answers : List Answer} (hsplits : splits? ending methods bytes = some (answers, rest)) :
    bytes.length ≤ (answers.map Answer.size).sum + rest.length := by
  induction methods generalizing bytes answers with
  | nil =>
      simp only [splits?, Option.some.injEq, Prod.mk.injEq] at hsplits
      obtain ⟨rfl, rfl⟩ := hsplits
      simp
  | cons method methods ih =>
      simp only [splits?, Option.bind_eq_some_iff, Option.map_eq_some_iff, Prod.mk.injEq] at hsplits
      obtain ⟨⟨answer, left⟩, hanswer, ⟨others, rest'⟩, hothers, rfl, rfl⟩ := hsplits
      have hfirst := (of_answer? hanswer).2
      have hrest := ih hothers
      simp only [List.map_cons, List.sum_cons, Answer.size] at hrest ⊢
      omega

end Client

namespace Response

variable {ending : Client.LineEnd} {method : Method} {r : Response}

/-- The response as the client is to find it. -/
def expected (method : Method) (r : Response) : Client.Answer :=
  ⟨r.heading, if Client.expectsBody method r.status.code then r.body else []⟩

/-- A response that ends where its client takes it to end. -/
structure Delimited (ending : Client.LineEnd) (method : Method) (r : Response) : Prop where
  readable : r.Readable ending
  body : Client.expectsBody method r.status.code = true ∨ r.body = []

theorem size_expected_le (method : Method) (r : Response) :
    (r.expected method).size ≤ r.wire.length := by
  rw [r.wire_eq, List.length_append, expected, Client.Answer.size]
  split
  · exact le_rfl
  · simp

theorem size_expected_sum_le (methods : List Method) (responses : List Response) :
    ((List.zipWith expected methods responses).map Client.Answer.size).sum ≤
      (responses.flatMap wire).length := by
  induction responses generalizing methods with
  | nil => simp
  | cons r responses ih =>
      cases methods with
      | nil => simp
      | cons method methods =>
          have hfirst := r.size_expected_le method
          have hrest := ih methods
          simp only [List.zipWith_cons_cons, List.map_cons, List.sum_cons, List.flatMap_cons,
            List.length_append]
          omega

theorem Delimited.answer?_wire (hdelimited : r.Delimited ending method) (rest : Bytes) :
    Client.answer? ending (Client.expectsBody method) (r.wire ++ rest) =
      some (r.expected method, rest) := by
  have hanswer := Response.answer?_wire hdelimited.readable hdelimited.body rest
  rw [hanswer, expected, answer]
  rcases hdelimited.body with hexpects | hempty
  · rw [if_pos hexpects]
  · simp [hempty]

/-- A response that was found as it should be, and what its client takes to follow it. -/
theorem of_answer?_expected {rest left : Bytes}
    (hanswer : Client.answer? ending (Client.expectsBody method) (r.wire ++ rest) =
      some (r.expected method, left)) :
    r.Readable ending ∧ (r.expected method).body ++ left = r.body ++ rest := by
  have hreadable : r.heading.Readable ending := (Client.of_answer? hanswer).1
  obtain ⟨_, hheading, rfl⟩ := Client.heading?_of_answer? hanswer
  rw [r.wire_eq, List.append_assoc, Client.heading?_bytes hreadable] at hheading
  exact ⟨readable_heading_iff.mp hreadable, (Prod.mk.inj (Option.some.inj hheading)).2.symm⟩

/-- A client finds its responses in what was written exactly when each of them is delimited. -/
theorem splits?_wires_iff {methods : List Method} {responses : List Response}
    (hlength : responses.length = methods.length) :
    Client.splits? ending methods (responses.flatMap wire) =
      some (List.zipWith expected methods responses, []) ↔
    List.Forall₂ (Delimited ending) methods responses := by
  induction responses generalizing methods with
  | nil =>
      obtain rfl : methods = [] := List.eq_nil_of_length_eq_zero hlength.symm
      simp [Client.splits?]
  | cons r responses ih =>
      cases methods with
      | nil => simp at hlength
      | cons method methods =>
          have hrest := ih (Nat.succ.inj hlength)
          rw [List.forall₂_cons, List.flatMap_cons, List.zipWith_cons_cons, Client.splits?]
          constructor
          · intro hsplits
            simp only [Option.bind_eq_some_iff, Option.map_eq_some_iff, Prod.mk.injEq,
              List.cons.injEq] at hsplits
            obtain ⟨⟨answer, left⟩, hanswer, ⟨others, _⟩, hothers, ⟨rfl, rfl⟩, rfl⟩ := hsplits
            obtain ⟨hreadable, hleft⟩ := of_answer?_expected hanswer
            have hdelimited : r.Delimited ending method := by
              refine ⟨hreadable, ?_⟩
              by_cases hexpects : Client.expectsBody method r.status.code = true
              · exact .inl hexpects
              · -- The body would be left over at the end.
                right
                have hle := Client.length_le_of_splits? hothers
                have hsum := size_expected_sum_le methods responses
                rw [expected, if_neg hexpects, List.nil_append] at hleft
                rw [hleft, List.length_append, List.length_nil] at hle
                apply List.eq_nil_of_length_eq_zero
                omega
            refine ⟨hdelimited, hrest.mp ?_⟩
            rw [hdelimited.answer?_wire] at hanswer
            obtain ⟨-, rfl⟩ := Prod.mk.inj (Option.some.inj hanswer)
            exact hothers
          · rintro ⟨hdelimited, hall⟩
            rw [hdelimited.answer?_wire, Option.bind_some, hrest.mpr hall]
            rfl

end Response

namespace Connection

universe u

/-- A request that is sent when all that was written before it has come. -/
structure Exchange where
  /-- The reads that bring the request. -/
  reads : List Bytes
  /-- The request as its head describes it. -/
  bare : Request
  body : Bytes
  head_read : Head.request reads.flatten = .ok (bare, body)
  framed : body.length = bare.contentLength?.getD 0
  fits : reads.flatten.length ≤ sizeLimit
  full : ∀ read ∈ reads, read ≠ []

namespace Exchange

def request (exchange : Exchange) : Request := exchange.bare.withBody exchange.body

variable {m : Type → Type u} [Monad m]

/-- The response that is written. -/
def answer (handle : Request → m Response) (exchange : Exchange) : m Response := do
  let response ← handle exchange.request
  return { response with keepAlive := exchange.request.isKeepAlive }

theorem announced (exchange : Exchange) :
    Announced exchange.reads.flatten exchange.reads.flatten.length (fun _ => exchange.request)
      exchange.reads.flatten.length := by
  have hle := (Head.exact_request.suffix _ _ _ exchange.head_read).length_le
  have htotal := Nat.sub_add_cancel hle
  have hannounced := announced_of_fits exchange.head_read rfl exchange.framed.symm
    (htotal.trans_lt (lt_two_pow_of_le exchange.fits))
  rwa [htotal, List.take_length] at hannounced

variable [LawfulMonad m]

/-- The last of its reads settles the request. -/
theorem run_reads (handle : Request → m Response) (exchange : Exchange) (after : List Bytes) :
    run handle {} (exchange.reads ++ after) = (do
      let response ← exchange.answer handle
      let more ← run handle ⟨if response.keepAlive then some [] else none⟩ after
      return response.wire ++ more) := by
  rcases List.eq_nil_or_concat exchange.reads with hempty | ⟨before, read, hreads⟩
  · have hhead := exchange.head_read
    rw [hempty, List.flatten_nil, Head.request_nil] at hhead
    simp at hhead
  · rw [List.concat_eq_append] at hreads
    have hread : read ≠ [] := exchange.full read (by simp [hreads])
    have hfits := exchange.fits
    have hsettles : Settles exchange.reads.flatten.length [] before read := by
      constructor
      · intro _
        have hpos := List.length_pos_iff.mpr hread
        have hflat : exchange.reads.flatten = before.flatten ++ read := by simp [hreads]
        rw [hflat, List.length_append] at hfits
        rw [List.nil_append, hflat, List.length_append]
        omega
      · intro hwaits
        exact absurd (hwaits (by simp)).1 (by simp [hreads])
    have hrun := run_of_settles handle exchange.announced (by rw [← hreads, List.nil_append])
      (hreads ▸ exchange.full) hsettles after
    rw [List.nil_append, ← hreads, if_neg (Nat.not_lt.mpr hfits), List.drop_length] at hrun
    simpa [hreads, answer] using hrun

end Exchange

variable {m : Type → Type u} [Monad m] [LawfulMonad m]

/-- Where all but the last request keep the connection open, each of them has its response. -/
theorem run_exchanges (handle : Request → m Response) (exchanges : List Exchange)
    (hopen : ∀ exchange ∈ exchanges.dropLast, exchange.request.isKeepAlive = true) :
    run handle {} (exchanges.flatMap Exchange.reads ++ [[]]) = (do
      let responses ← exchanges.mapM (Exchange.answer handle)
      return responses.flatMap Response.wire) := by
  induction exchanges with
  | nil => simp [run, receive]
  | cons exchange exchanges ih =>
      rw [List.flatMap_cons, List.append_assoc, exchange.run_reads]
      cases exchanges with
      | nil =>
          have hend : ∀ buffer : Option Bytes, run handle ⟨buffer⟩ [[]] = pure [] := by
            intro buffer
            cases buffer <;> simp [run, receive]
          simp [hend]
      | cons next exchanges =>
          have hkeep : exchange.request.isKeepAlive = true := hopen exchange (by simp)
          have hrest := ih fun other hother => hopen other (by simp [hother])
          generalize next :: exchanges = rest at hrest ⊢
          simp [Exchange.answer, hkeep, hrest]

variable [Reports m] [Tasks m]

/-- What a connection writes for requests that are sent one after the other, and when the client
finds one response for each of them in it. -/
theorem run_splits_iff_delimited (app : App m) (exchanges : List Exchange)
    (hopen : ∀ exchange ∈ exchanges.dropLast, exchange.request.isKeepAlive = true) :
    (run app.handle {} (exchanges.flatMap Exchange.reads ++ [[]]) = do
      let responses ← exchanges.mapM (Exchange.answer app.handle)
      return responses.flatMap Response.wire) ∧
    ∀ (ending : Client.LineEnd) (responses : List Response),
      responses.length = exchanges.length →
      (Client.splits? ending (exchanges.map fun exchange => exchange.request.method)
          (responses.flatMap Response.wire) =
        some (List.zipWith (fun exchange => Response.expected exchange.request.method)
          exchanges responses, []) ↔
        List.Forall₂ (fun exchange => Response.Delimited ending exchange.request.method)
          exchanges responses) := by
  refine ⟨run_exchanges app.handle exchanges hopen, ?_⟩
  intro ending responses hlength
  have hcount : responses.length =
      (exchanges.map fun exchange => exchange.request.method).length := by
    rw [hlength, List.length_map]
  have hsplits : Client.splits? ending _ _ = _ ↔ _ := Response.splits?_wires_iff hcount
  rwa [List.zipWith_map_left, List.forall₂_map_left_iff] at hsplits

/-- A request for the root that comes in two reads. -/
def rootExchange : Exchange where
  reads := [Utf8.encode "GET / HT", Utf8.encode "TP/1.1\r\n\r\n"]
  bare := { method := .get, path := "/" }
  body := []
  head_read := request_rootRequest
  framed := rfl
  fits := by decide +kernel
  full := by decide +kernel

/-- Responses to two requests for the root are found, with their bodies. -/
theorem splits?_two_exchanges :
    (∀ exchange ∈ [rootExchange, rootExchange].dropLast, exchange.request.isKeepAlive = true) ∧
    Client.splits? .strict [.get, .get]
        ([(Response.new .notFound).withText "HTTP/1.1 ", Response.new .noContent].flatMap
          Response.wire) =
      some ([((Response.new .notFound).withText "HTTP/1.1 ").answer,
        (Response.new .noContent).answer], []) := by
  have hopen : ∀ exchange ∈ [rootExchange, rootExchange].dropLast,
      exchange.request.isKeepAlive = true := by
    intro exchange hexchange
    obtain rfl : exchange = rootExchange := by simpa using hexchange
    decide +kernel
  have hreadable : ∀ r : Response, r.headers = {} → r.Readable .strict := by
    intro r hheaders field hfield
    simp [hheaders] at hfield
  obtain ⟨-, hsplits⟩ := run_splits_iff_delimited (App.new {} : App (Routine Unit))
    [rootExchange, rootExchange] hopen
  have hfound := (hsplits .strict
    [(Response.new .notFound).withText "HTTP/1.1 ", Response.new .noContent] rfl).mpr
    (.cons ⟨hreadable _ rfl, .inl rfl⟩ (.cons ⟨hreadable _ rfl, .inr rfl⟩ .nil))
  exact ⟨hopen, hfound⟩

/-- The fallback writes a body behind the head of its response to HEAD, and the client takes this
body for the beginning of the next response. -/
theorem splits?_head_without_route :
    ((World.new ()).perform (run (App.new {} : App (Routine Unit)).handle {}
      [Utf8.encode "HEAD / HTTP/1.1\r\n\r\n", Utf8.encode "GET / HTTP/1.1\r\n\r\n", []])).1.map
        (Client.splits? .strict [.head, .get]) = some none := by
  decide +kernel

end Connection
end WebApp
