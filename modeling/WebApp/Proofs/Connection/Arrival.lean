import Mathlib.Tactic
import WebApp.Connection
import WebApp.Proofs.Http.HeadStream

/-!
# How the bytes of a request arrive

The reads of a connection cut the bytes of a request anywhere.  What is at hand is waited upon
until it holds the whole request, which is then answered, or is more than the limit.  So the
read that settles a request is the first one behind which there are enough bytes or too many.
Only a length that the sum of sixty-four bits does not hold makes the end of a request lie inside
its own head; then the head is enough.
-/

namespace WebApp
namespace Connection

universe u

/-! ## What the bytes at hand call for -/

theorem demand_of_sizeLimit_lt {buffer : Bytes} (hlong : sizeLimit < buffer.length) :
    demand buffer = .refuse (refusal .payloadTooLarge "Request entity too large") := by
  simp [demand, hlong]

/-- What the first bytes of a stream call for that begins with a request.  So many bytes are
enough; the request is then made of those at hand, of which so many are done with. -/
structure Announced (stream : Bytes) (enough : Nat) (request : Bytes → Request) (total : Nat) :
    Prop where
  wait : ∀ buffer, buffer <+: stream → buffer.length < enough → buffer.length ≤ sizeLimit →
    demand buffer = .wait
  answer : ∀ buffer, buffer <+: stream → enough ≤ buffer.length → buffer.length ≤ sizeLimit →
    demand buffer = .answer (request buffer) total

/-- How many bytes are enough for a request whose body starts here. -/
def needed (start length : Nat) : Nat :=
  max start (extent start length)

/-- Sixty-four bits hold whatever the limit allows. -/
theorem lt_two_pow_of_le {length : Nat} (hfits : length ≤ sizeLimit) : length < Nat.pow 2 64 :=
  Nat.lt_of_le_of_lt hfits (by decide)

theorem extent_of_lt {start length : Nat} (hsum : start + length < Nat.pow 2 64) :
    extent start length = start + length :=
  Nat.mod_eq_of_lt hsum

theorem needed_of_lt {start length : Nat} (hsum : start + length < Nat.pow 2 64) :
    needed start length = start + length := by
  rw [needed, extent_of_lt hsum]
  exact Nat.max_eq_right (Nat.le_add_right start length)

/-- A head announces a request with as many bytes behind it as its length says, if they are at
hand when the request is answered. -/
theorem announced_of_request {stream rest : Bytes} {bare : Request} {start length : Nat}
    (hhead : Head.request stream = .ok (bare, rest)) (hstart : stream.length - rest.length = start)
    (hlength : bare.contentLength?.getD 0 = length) :
    Announced stream (needed start length)
      (fun buffer => bare.withBody ((buffer.drop start).take length)) (extent start length) := by
  obtain ⟨head, rfl⟩ := Head.exact_request.suffix _ _ _ hhead
  have halone := Head.exact_request.alone _ _ _ hhead
  obtain rfl : head.length = start := by simpa using hstart
  have hdemand : ∀ part, (head ++ part).length ≤ sizeLimit → demand (head ++ part) =
      if (head ++ part).length < extent head.length length then .wait
      else .answer (bare.withBody (part.take length)) (extent head.length length) := by
    intro part hfits
    have hsettled := Head.exact_request.settled head part (by simp [halone])
    rw [halone] at hsettled
    have hread : Head.read (head ++ part) = .ok (bare.withBody part, head.length) :=
      Head.read_eq_ok_iff.mpr ⟨bare, part, hsettled, rfl, by simp⟩
    rw [demand, if_neg (Nat.not_lt.mpr hfits), hread, ← hlength]
    rfl
  constructor
  · intro buffer hbuffer hless hfits
    rcases le_or_gt head.length buffer.length with hlong | hshort
    · obtain ⟨part, rfl⟩ := List.prefix_of_prefix_length_le (List.prefix_append head rest) hbuffer
        hlong
      have hsum := (lt_max_iff.mp hless).resolve_left (Nat.not_lt.mpr hlong)
      rw [hdemand part hfits, if_pos hsum]
    · -- The buffer ends inside the head.
      have hprefix := List.prefix_of_prefix_length_le hbuffer (List.prefix_append head rest)
        hshort.le
      have hincomplete := Head.exact_request.incomplete_of_prefix halone hprefix fun heq =>
        absurd (congrArg List.length heq) hshort.ne
      rw [demand, if_neg (Nat.not_lt.mpr hfits), Head.read_eq_incomplete_iff.mpr hincomplete]
  · intro buffer hbuffer hle hfits
    obtain ⟨hlong, hsum⟩ := max_le_iff.mp hle
    obtain ⟨part, rfl⟩ := List.prefix_of_prefix_length_le (List.prefix_append head rest) hbuffer
      hlong
    rw [hdemand part hfits, if_neg (Nat.not_lt.mpr hsum), List.drop_left]

/-- Where the sum fits, the bytes at hand hold the whole body. -/
theorem take_drop_of_begins {buffer stream rest : Bytes} {length : Nat}
    (hsuffix : rest <:+ stream) (hbuffer : buffer <+: stream)
    (hle : stream.length - rest.length + length ≤ buffer.length) :
    (buffer.drop (stream.length - rest.length)).take length = rest.take length := by
  obtain ⟨more, rfl⟩ := hbuffer
  have hbody : length ≤ (buffer.drop ((buffer ++ more).length - rest.length)).length := by
    rw [List.length_drop]
    omega
  conv_rhs => rw [List.suffix_iff_eq_drop.mp hsuffix]
  rw [List.drop_append_of_le_length (by omega), List.take_append_of_le_length hbody]

/-- A head announces a request with as many bytes behind it as its length says. -/
theorem announced_of_fits {stream rest : Bytes} {bare : Request} {start length : Nat}
    (hhead : Head.request stream = .ok (bare, rest)) (hstart : stream.length - rest.length = start)
    (hlength : bare.contentLength?.getD 0 = length) (hsum : start + length < Nat.pow 2 64) :
    Announced stream (start + length) (fun _ => bare.withBody (rest.take length))
      (start + length) := by
  have hannounced := announced_of_request hhead hstart hlength
  rw [needed_of_lt hsum, extent_of_lt hsum] at hannounced
  refine ⟨hannounced.wait, fun buffer hbuffer hle hfits => ?_⟩
  subst hstart
  rw [hannounced.answer buffer hbuffer hle hfits,
    take_drop_of_begins (Head.exact_request.suffix _ _ _ hhead) hbuffer hle]

/-! ## Steps -/

/-- The last answer to a peer that sends too much at once. -/
def tooLarge : Response := refusal .payloadTooLarge "Request entity too large"

variable {m : Type → Type u} [Monad m]

section Steps

variable (handle : Request → m Response) {kept bytes : Bytes}

theorem receive_of_wait (hbytes : bytes ≠ []) (hdemand : demand (kept ++ bytes) = .wait) :
    receive handle ⟨some kept⟩ bytes = pure (⟨some (kept ++ bytes)⟩, []) := by
  simp [receive, hbytes, hdemand]

theorem receive_of_refuse {response : Response} (hbytes : bytes ≠ [])
    (hdemand : demand (kept ++ bytes) = .refuse response) :
    receive handle ⟨some kept⟩ bytes = pure (⟨none⟩, response.wire) := by
  simp [receive, hbytes, hdemand]

variable [LawfulMonad m]

theorem receive_of_answer {request : Request} {length : Nat} (hbytes : bytes ≠ [])
    (hdemand : demand (kept ++ bytes) = .answer request length) :
    receive handle ⟨some kept⟩ bytes = (do
      let response ← handle request
      return (⟨if request.isKeepAlive then some ((kept ++ bytes).drop length) else none⟩,
        { response with keepAlive := request.isKeepAlive }.wire)) := by
  simp [receive, hbytes, hdemand]

theorem run_closed (reads : List Bytes) :
    run handle ⟨none⟩ reads = pure [] := by
  induction reads with
  | nil => rfl
  | cons bytes reads ih => simp [run, receive, ih]

end Steps

/-! ## The read that settles a request -/

/-- Behind these reads, if there are any, the bytes are neither enough nor too many. -/
def Waits (enough : Nat) (kept : Bytes) (before : List Bytes) : Prop :=
  before ≠ [] → (kept ++ before.flatten).length < enough ∧
    (kept ++ before.flatten).length ≤ sizeLimit

/-- The first read behind which the bytes are enough for the request, or too many. -/
structure Settles (enough : Nat) (kept : Bytes) (before : List Bytes) (read : Bytes) : Prop where
  waits : Waits enough kept before
  settled : ¬ Waits enough kept (before ++ [read])

/-- If the bytes behind the read are not too many, they are enough. -/
theorem Settles.le {enough : Nat} {kept read : Bytes} {before : List Bytes}
    (hsettles : Settles enough kept before read)
    (hfits : (kept ++ (before ++ [read]).flatten).length ≤ sizeLimit) :
    enough ≤ (kept ++ (before ++ [read]).flatten).length := by
  by_contra hless
  exact hsettles.settled fun _ => ⟨Nat.not_le.mp hless, hfits⟩

theorem waits_or_settles (enough : Nat) (kept : Bytes) (reads : List Bytes) :
    Waits enough kept reads ∨
      ∃ before read after, reads = before ++ read :: after ∧ Settles enough kept before read := by
  induction reads using List.reverseRecOn with
  | nil => exact .inl fun hne => absurd rfl hne
  | append_singleton reads last ih =>
      rcases ih with hwaits | ⟨before, read, after, rfl, hsettles⟩
      · by_cases hall : Waits enough kept (reads ++ [last])
        · exact .inl hall
        · exact .inr ⟨reads, last, [], by simp, hwaits, hall⟩
      · exact .inr ⟨before, read, after ++ [last], by simp, hsettles⟩

section Runs

variable [LawfulMonad m] (handle : Request → m Response) {stream kept read : Bytes}
  {request : Bytes → Request} {enough total : Nat} {before : List Bytes}

/-- Bytes that are neither enough nor too many are kept. -/
theorem run_of_waits (hannounced : Announced stream enough request total)
    (hstream : kept ++ before.flatten <+: stream) (hfull : ∀ read ∈ before, read ≠ [])
    (hwaits : Waits enough kept before) (after : List Bytes) :
    run handle ⟨some kept⟩ (before ++ after) =
      run handle ⟨some (kept ++ before.flatten)⟩ after := by
  induction before generalizing kept with
  | nil => simp
  | cons first before ih =>
      obtain ⟨hfirst, hrest⟩ := List.forall_mem_cons.mp hfull
      obtain ⟨hless, hfits⟩ := hwaits (by simp)
      rw [List.flatten_cons, ← List.append_assoc] at hstream hless hfits ⊢
      have hle := (List.prefix_append (kept ++ first) before.flatten).length_le
      have hstep := receive_of_wait handle hfirst (hannounced.wait (kept ++ first)
        ((List.prefix_append _ _).trans hstream) (by omega) (by omega))
      have hnext := ih hstream hrest fun _ => ⟨hless, hfits⟩
      simp [run, hstep, hnext]

/-- The read that settles a request is answered, or is the last one. -/
theorem run_of_settles (hannounced : Announced stream enough request total)
    (hstream : kept ++ (before ++ [read]).flatten <+: stream)
    (hfull : ∀ other ∈ before ++ [read], other ≠ []) (hsettles : Settles enough kept before read)
    (after : List Bytes) :
    run handle ⟨some kept⟩ (before ++ read :: after) =
      if sizeLimit < (kept ++ (before ++ [read]).flatten).length then pure tooLarge.wire
      else do
        let request := request (kept ++ (before ++ [read]).flatten)
        let response ← handle request
        let more ← run handle ⟨if request.isKeepAlive then
          some ((kept ++ (before ++ [read]).flatten).drop total) else none⟩ after
        return { response with keepAlive := request.isKeepAlive }.wire ++ more := by
  have hread : read ≠ [] := hfull read (by simp)
  have hflat : kept ++ (before ++ [read]).flatten = kept ++ before.flatten ++ read := by simp
  rw [hflat] at hstream ⊢
  have hbefore : kept ++ before.flatten <+: stream := (List.prefix_append _ _).trans hstream
  rw [run_of_waits handle hannounced hbefore (fun other hother => hfull other (by simp [hother]))
    hsettles.waits]
  split
  · next hlong =>
      have hstep := receive_of_refuse handle hread (demand_of_sizeLimit_lt hlong)
      simp [run, hstep, run_closed, tooLarge]
  · next hfits =>
      have henough := hsettles.le (by rw [hflat]; exact Nat.not_lt.mp hfits)
      rw [hflat] at henough
      have hstep := receive_of_answer handle hread
        (hannounced.answer _ hstream henough (Nat.not_lt.mp hfits))
      simp [run, hstep]

end Runs

end Connection
end WebApp
