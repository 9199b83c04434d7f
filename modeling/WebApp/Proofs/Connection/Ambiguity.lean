import Mathlib.Tactic
import WebApp.Proofs.Connection.Arrival
import WebApp.Proofs.Http.Client

/-!
# Heads that say more than one length

The length of a body is the number that the first length field with a text for a value writes,
and none at all when it writes no number.  So a head whose length fields do not agree, or say no
number, is a head like any other: the request is answered when the bytes are there that the
length asks for, and what stands behind them is taken for the next request.  Only a read that
goes over the limit before this is refused.  A length for which the end of the request is no number
of sixty-four bits makes things worse: a part of the head itself is taken for the next request.
-/

namespace WebApp
namespace Head.Raw

/-- The values of the length fields, as they stand on the wire. -/
def lengths (head : Raw) : List Bytes :=
  (head.fields.filter fun field => Text.sameFolded field.1 "content-length").map Prod.snd

/-- A length field that writes no plain number, or two that write different texts. -/
def Ambiguous (head : Raw) : Prop :=
  (∃ value ∈ head.lengths, (Utf8.decode? value).bind Text.decimal? = none) ∨
    ∃ first ∈ head.lengths, ∃ second ∈ head.lengths, first ≠ second

instance (head : Raw) : Decidable head.Ambiguous :=
  inferInstanceAs (Decidable (_ ∨ _))

/-- The length that the head is taken to say. -/
def length (head : Raw) : Nat :=
  ((head.lengths.filterMap Utf8.decode?).head?.bind Integer.readCount?).getD 0

theorem get?_textFields (name : String) (fields : List (String × Bytes)) :
    Headers.get? ⟨fields.filterMap textField?⟩ name =
      (((fields.filter fun field => Text.sameFolded field.1 name).map Prod.snd).filterMap
        Utf8.decode?).head? := by
  induction fields with
  | nil => rfl
  | cons field fields ih =>
      simp only [Headers.get?] at ih ⊢
      by_cases hnamed : Text.sameFolded field.1 name = true
      · cases htext : Utf8.decode? field.2 with
        | none => simpa [textField?, htext, hnamed] using ih
        | some value => simp [textField?, htext, hnamed, Headers.named]
      · cases htext : Utf8.decode? field.2 with
        | none => simpa [textField?, htext, hnamed] using ih
        | some value => simpa [textField?, htext, hnamed, Headers.named] using ih

theorem contentLength?_request (head : Raw) :
    head.request.contentLength?.getD 0 = head.length := by
  simp only [Request.contentLength?, request, get?_textFields, length, lengths]

theorem length_lt (head : Raw) : head.length < Nat.pow 2 64 := by
  rw [length]
  cases hcount : (head.lengths.filterMap Utf8.decode?).head?.bind Integer.readCount? with
  | none => exact Nat.two_pow_pos 64
  | some n =>
      obtain ⟨value, -, hread⟩ := Option.bind_eq_some_iff.mp hcount
      exact Integer.lt_of_readCount? hread

/-- No length is what all length fields of an ambiguous head say. -/
theorem Ambiguous.exists_ne {head : Raw} (hambiguous : head.Ambiguous) (length : Nat) :
    ∃ value ∈ head.lengths, value ≠ Utf8.encode (toString length) := by
  by_contra hall
  push Not at hall
  rcases hambiguous with ⟨value, hvalue, hnone⟩ | ⟨first, hfirst, second, hsecond, hne⟩
  · rw [hall value hvalue, Utf8.decode?_encode, Nat.toString_eq_repr, Option.bind_some,
      Text.decimal?_repr] at hnone
    simp at hnone
  · exact hne ((hall first hfirst).trans (hall second hsecond).symm)

end Head.Raw

namespace Connection

universe u

/-- The last answer of the connection is that the request is at fault, whatever the handler. -/
def Refuses (kept : Bytes) (reads : List Bytes) : Prop :=
  ∃ response : Response, 400 ≤ response.status.code ∧ response.status.code < 500 ∧
    response.keepAlive = false ∧
    ∀ handle : Request → Id Response, run handle ⟨some kept⟩ (reads ++ [[]]) = response.wire

/-- The limit is passed by a read that settles the request. -/
def Overflows (total : Nat) (kept : Bytes) (reads : List Bytes) : Prop :=
  ∃ before read after, reads = before ++ read :: after ∧ Settles total kept before read ∧
    sizeLimit < (kept ++ (before ++ [read]).flatten).length

variable {kept rest : Bytes} {reads : List Bytes} {head : Head.Raw}

theorem Overflows.sizeLimit_lt {total : Nat} (hoverflows : Overflows total kept reads) :
    sizeLimit < (kept ++ reads.flatten).length := by
  obtain ⟨before, read, after, rfl, -, hlong⟩ := hoverflows
  simp only [List.length_append, List.flatten_append, List.flatten_cons] at hlong ⊢
  simp only [List.flatten_nil, List.length_nil] at hlong
  omega

theorem announced_of_raw {stream : Bytes} {start : Nat}
    (hhead : Head.raw stream = .ok (head, rest)) (hstart : stream.length - rest.length = start) :
    Announced stream (needed start head.length)
      (fun buffer => head.request.withBody ((buffer.drop start).take head.length))
      (extent start head.length) := by
  have hrequest : Head.request stream = .ok (head.request, rest) := by
    rw [Head.request_eq_map_raw, hhead]
    rfl
  exact announced_of_request hrequest hstart head.contentLength?_request

section Turn

variable {request : Bytes → Request} {enough total : Nat} {before after : List Bytes}
  {read : Bytes} {m : Type → Type u} [Monad m] [LawfulMonad m] (handle : Request → m Response)

/-- Nothing is written before the request is settled. -/
theorem run_unsettled (hannounced : Announced (kept ++ reads.flatten) enough request total)
    (hfull : ∀ read ∈ reads, read ≠ []) (hwaits : Waits enough kept reads) :
    run handle ⟨some kept⟩ (reads ++ [[]]) = pure [] := by
  rw [run_of_waits handle hannounced List.prefix_rfl hfull hwaits]
  simp [run, receive]

theorem run_settled (hannounced : Announced (kept ++ reads.flatten) enough request total)
    (hfull : ∀ read ∈ reads, read ≠ []) (hreads : reads = before ++ read :: after)
    (hsettles : Settles enough kept before read) :
    run handle ⟨some kept⟩ (reads ++ [[]]) =
      if sizeLimit < (kept ++ (before ++ [read]).flatten).length then pure tooLarge.wire
      else do
        let request := request (kept ++ (before ++ [read]).flatten)
        let response ← handle request
        let more ← run handle ⟨if request.isKeepAlive then
          some ((kept ++ (before ++ [read]).flatten).drop total) else none⟩ (after ++ [[]])
        return { response with keepAlive := request.isKeepAlive }.wire ++ more := by
  have hstream : kept ++ (before ++ [read]).flatten <+: kept ++ reads.flatten :=
    ⟨after.flatten, by simp [hreads]⟩
  have hothers : ∀ other ∈ before ++ [read], other ≠ [] := by
    intro other hother
    apply hfull other
    rw [hreads, List.append_cons]
    exact List.mem_append_left _ hother
  have hrun := run_of_settles handle hannounced hstream hothers hsettles (after ++ [[]])
  simpa [hreads] using hrun

end Turn

/-- Only the limit makes the connection refuse a request that is announced. -/
theorem refuses_iff_overflows {request : Bytes → Request} {enough total : Nat}
    (hannounced : Announced (kept ++ reads.flatten) enough request total)
    (hfull : ∀ read ∈ reads, read ≠ []) :
    Refuses kept reads ↔ Overflows enough kept reads := by
  constructor
  · rintro ⟨refused, -, -, -, hrefused⟩
    rcases waits_or_settles enough kept reads with
      hwaits | ⟨before, read, after, hreads, hsettles⟩
    · have hnothing := hrefused fun _ => Response.new .ok
      rw [run_unsettled _ hannounced hfull hwaits] at hnothing
      exact absurd hnothing.symm refused.wire_ne_nil
    · refine ⟨before, read, after, hreads, hsettles, ?_⟩
      by_contra hfits
      -- Answers with different codes do not begin the same bytes.
      have hstart : ∀ status : Status,
          { Response.new status with
            keepAlive := (request (kept ++ (before ++ [read]).flatten)).isKeepAlive }.wire <+:
              refused.wire := by
        intro status
        have hrun := hrefused fun _ => Response.new status
        rw [run_settled _ hannounced hfull hreads hsettles, if_neg hfits] at hrun
        exact ⟨_, hrun⟩
      rcases List.prefix_or_prefix_of_prefix (hstart .ok) (hstart .created) with hsame | hsame
      all_goals
        generalize Request.isKeepAlive _ = keep at hsame
        cases keep <;> exact absurd hsame (by decide +kernel)
  · rintro ⟨before, read, after, hreads, hsettles, hlong⟩
    refine ⟨tooLarge, by decide, by decide, rfl, fun handle => ?_⟩
    rw [run_settled handle hannounced hfull hreads hsettles, if_pos hlong]
    rfl

/-! ## Where the next request begins -/

section Extent

variable {buffer stream : Bytes} {start length : Nat}

/-- Where the sum fits, what is kept is what follows the body. -/
theorem drop_extent_of_fits {after : Bytes} (hsuffix : rest <:+ stream)
    (hstart : stream.length - rest.length = start) (hbuffer : buffer ++ after = stream)
    (henough : needed start length ≤ buffer.length) (hsum : start + length < Nat.pow 2 64) :
    (buffer.drop start).take length = rest.take length ∧
      buffer.drop (extent start length) ++ after = rest.drop length := by
  rw [needed_of_lt hsum] at henough
  subst hstart
  refine ⟨take_drop_of_begins hsuffix ⟨after, hbuffer⟩ henough, ?_⟩
  rw [extent_of_lt hsum, ← List.drop_append_of_le_length henough, hbuffer, ← List.drop_drop,
    ← List.suffix_iff_eq_drop.mp hsuffix]

/-- Where the sum wraps, the body is all that is at hand, and what is kept begins inside the
head. -/
theorem drop_extent_of_wraps (hlength : length < Nat.pow 2 64) (hstart : start ≤ buffer.length)
    (hfits : buffer.length ≤ sizeLimit) (hsum : Nat.pow 2 64 ≤ start + length) :
    (buffer.drop start).take length = buffer.drop start ∧ extent start length < start := by
  have hlimit : sizeLimit + sizeLimit < Nat.pow 2 64 := by decide
  constructor
  · apply List.take_of_length_le
    rw [List.length_drop]
    omega
  · have hwrapped : (start + length) % Nat.pow 2 64 = start + length - Nat.pow 2 64 := by
      rw [Nat.mod_eq_sub_mod hsum, Nat.mod_eq_of_lt (by omega)]
    rw [extent, hwrapped]
    omega

end Extent

/-- A head that says more than one length, or none, is refused exactly when a read goes over the
limit before the request is complete.  Otherwise nothing is written before the request is
complete; then the handler answers a request of the length that the head is taken to say, and the
next request begins behind it, whatever else the head says.  If that length is so great that the
end of the request is no number of sixty-four bits, the head alone is complete, and the next
request begins inside it. -/
theorem run_ambiguous_head {start : Nat}
    (hhead : Head.raw (kept ++ reads.flatten) = .ok (head, rest))
    (hstart : (kept ++ reads.flatten).length - rest.length = start)
    (hfull : ∀ read ∈ reads, read ≠ []) (hambiguous : head.Ambiguous) :
    (∃ value ∈ head.lengths, value ≠ Utf8.encode (toString head.length)) ∧
    (Refuses kept reads ↔ Overflows (needed start head.length) kept reads) ∧
    ∀ (m : Type → Type u) [Monad m] [LawfulMonad m] (handle : Request → m Response),
      (Waits (needed start head.length) kept reads →
        run handle ⟨some kept⟩ (reads ++ [[]]) = pure []) ∧
      ∀ before read after buffer, reads = before ++ read :: after →
        Settles (needed start head.length) kept before read →
        kept ++ (before ++ [read]).flatten = buffer → buffer.length ≤ sizeLimit →
        run handle ⟨some kept⟩ (reads ++ [[]]) = (do
          let request := head.request.withBody ((buffer.drop start).take head.length)
          let response ← handle request
          let more ← run handle ⟨if request.isKeepAlive then
            some (buffer.drop (extent start head.length)) else none⟩ (after ++ [[]])
          return { response with keepAlive := request.isKeepAlive }.wire ++ more) ∧
        (start + head.length < Nat.pow 2 64 →
          (buffer.drop start).take head.length = rest.take head.length ∧
            buffer.drop (extent start head.length) ++ after.flatten = rest.drop head.length) ∧
        (Nat.pow 2 64 ≤ start + head.length →
          (buffer.drop start).take head.length = buffer.drop start ∧
            extent start head.length < start) := by
  have hannounced := announced_of_raw hhead hstart
  refine ⟨hambiguous.exists_ne head.length, refuses_iff_overflows hannounced hfull, ?_⟩
  intro m _ _ handle
  refine ⟨run_unsettled handle hannounced hfull, ?_⟩
  rintro before read after _ hreads hsettles rfl hfits
  have henough := hsettles.le hfits
  refine ⟨?_, ?_, ?_⟩
  · rw [run_settled handle hannounced hfull hreads hsettles, if_neg (Nat.not_lt.mpr hfits)]
  · exact drop_extent_of_fits (Head.exact_raw.suffix _ _ _ hhead) hstart (by simp [hreads]) henough
  · exact drop_extent_of_wraps head.length_lt ((Nat.le_max_left _ _).trans henough) hfits

/-- With the greatest length the request ends before the last byte of its head. -/
example :
    let head := Utf8.encode
      "POST / HTTP/1.1\r\nContent-Length: 18446744073709551615\r\nContent-Length: 5\r\n\r\n"
    (receive (m := Id) (fun _ => pure (Response.new .ok)) {} head).run =
      (⟨some (Utf8.encode "\n")⟩, (Response.new .ok).wire) := by
  decide +kernel

/-- A head with two length fields that do not agree. -/
def disputed : Head.Raw :=
  ⟨.post, "/", 1, [("Content-Length", Utf8.encode "3"), ("Content-Length", Utf8.encode "21")]⟩

def disputedBytes : Bytes :=
  Utf8.encode "POST / HTTP/1.1\r\nContent-Length: 3\r\nContent-Length: 21\r\n\r\n"

/-- Three bytes, and a request behind them. -/
def followUp : Bytes := Utf8.encode "abcGET / HTTP/1.1\r\n\r\n"

/-- The first length counts, and what the second asks for as well is the next request. -/
theorem run_disputed :
    Head.raw ([] ++ [disputedBytes, followUp].flatten) = .ok (disputed, followUp) ∧
    disputed.Ambiguous ∧
    ¬ Refuses [] [disputedBytes, followUp] ∧
    ∀ handle : Request → Id Response,
      run handle ⟨some []⟩ [disputedBytes, followUp, []] = (do
        let response ← handle (disputed.request.withBody (Utf8.encode "abc"))
        let more ← run handle ⟨some (Utf8.encode "GET / HTTP/1.1\r\n\r\n")⟩ [[]]
        return { response with keepAlive := true }.wire ++ more) := by
  have hhead : Head.raw ([] ++ [disputedBytes, followUp].flatten) = .ok (disputed, followUp) := by
    decide +kernel
  have hstart : ([] ++ [disputedBytes, followUp].flatten).length - followUp.length = 58 := by
    decide +kernel
  have hambiguous : disputed.Ambiguous := by decide +kernel
  have hsettles : Settles (needed 58 disputed.length) [] [disputedBytes] followUp :=
    ⟨fun _ => by decide +kernel, fun hwaits => absurd (hwaits (by simp)).1 (by decide +kernel)⟩
  obtain ⟨-, hrefuses, hruns⟩ := run_ambiguous_head hhead hstart (by decide +kernel) hambiguous
  refine ⟨hhead, hambiguous, fun hrefused => ?_, fun handle => ?_⟩
  · exact absurd (hrefuses.mp hrefused).sizeLimit_lt (by decide +kernel)
  · obtain ⟨hrun, hfollows, -⟩ := (hruns Id handle).2 [disputedBytes] followUp []
      (disputedBytes ++ followUp) rfl hsettles (by simp) (by decide +kernel)
    obtain ⟨hbody, hnext⟩ := hfollows (by decide +kernel)
    have htake : followUp.take disputed.length = Utf8.encode "abc" := by decide +kernel
    have hdrop : followUp.drop disputed.length = Utf8.encode "GET / HTTP/1.1\r\n\r\n" := by
      decide +kernel
    have hkeep : (disputed.request.withBody (Utf8.encode "abc")).isKeepAlive = true := by
      decide +kernel
    rw [List.flatten_nil, List.append_nil, hdrop] at hnext
    simpa only [hbody, htake, hnext, hkeep, if_true, List.cons_append, List.nil_append] using hrun

/-- A length that is no number counts as none, so the body is taken for the next request. -/
theorem run_unnumbered :
    Head.raw (Utf8.encode "POST / HTTP/1.1\r\nContent-Length: five\r\n\r\n") =
      .ok (⟨.post, "/", 1, [("Content-Length", Utf8.encode "five")]⟩, []) ∧
    (Head.Raw.mk .post "/" 1 [("Content-Length", Utf8.encode "five")]).Ambiguous ∧
    Id.run (run (fun _ => pure (Response.new .ok)) {}
        [Utf8.encode "POST / HTTP/1.1\r\nContent-Length: five\r\n\r\n",
          Utf8.encode "GET / HTTP/1.1\r\n\r\n", []]) =
      (Response.new .ok).wire ++ (Response.new .ok).wire := by
  decide +kernel

end Connection
end WebApp
