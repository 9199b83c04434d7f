import Mathlib.Tactic
import WebApp.Proofs.Connection.Arrival

/-!
# Requests on one connection

A peer that keeps its connection open sends requests one behind the other, and the reads of the
connection may cut their bytes anywhere.  What a run writes is settled by how many of the
requests it answers: one read answers at most one of them, however many it completes, and a
read that leaves more bytes than the limit is the last one.  So all requests are answered
exactly when the reads keep up with them.
-/

namespace WebApp
namespace Connection

universe u

/-- A complete request of a peer that keeps its connection open, as it stands on the wire. -/
structure Message where
  bytes : Bytes
  request : Request
  start : Nat
  read_bytes : Head.read bytes = .ok (request, start)
  framed : start + request.contentLength?.getD 0 = bytes.length
  fits : bytes.length ≤ sizeLimit
  keepsAlive : request.isKeepAlive = true

theorem Message.length_body (message : Message) :
    message.request.body.length = message.request.contentLength?.getD 0 := by
  have hlength := Head.start_add_length_body message.read_bytes
  have hframed := message.framed
  omega

theorem Message.length_pos (message : Message) : 0 < message.bytes.length := by
  rw [List.length_pos_iff]
  intro hempty
  have hread := message.read_bytes
  rw [hempty, Head.read_nil] at hread
  simp at hread

/-- A message is announced by its head, whatever stands behind it. -/
theorem Message.announced (message : Message) (more : Bytes) :
    Announced (message.bytes ++ more) message.bytes.length (fun _ => message.request)
      message.bytes.length := by
  obtain ⟨bare, body, hhead, hbody, -⟩ := Head.read_eq_ok_iff.mp message.read_bytes
  have hsettled := Head.exact_request.settled message.bytes more (by simp [hhead])
  rw [hhead] at hsettled
  have hlength : bare.contentLength?.getD 0 = body.length := by
    simpa [← hbody, Request.withBody, Request.contentLength?] using message.length_body.symm
  have hle := (Head.exact_request.suffix _ _ _ hhead).length_le
  have hstart : (message.bytes ++ more).length - (body ++ more).length =
      message.bytes.length - body.length := by
    simp only [List.length_append]
    omega
  have htotal := Nat.sub_add_cancel hle
  have hannounced := announced_of_fits hsettled hstart hlength
    (htotal.trans_lt (lt_two_pow_of_le message.fits))
  rwa [htotal, List.take_left, hbody] at hannounced

/-! ## Runs -/

/-- A response on a connection that stays open. -/
def keptWire (response : Response) : Bytes :=
  { response with keepAlive := true }.wire

/-- What a run writes that gives these responses, and a refusal behind them. -/
def written (responses : List Response) (refused : Bool) : Bytes :=
  responses.flatMap keptWire ++ if refused then tooLarge.wire else []

/-- How many of the messages a run answers when so many bytes are kept from earlier reads, and
whether it ends with a refusal. -/
def served (kept : Nat) (messages : List Message) : List Bytes → Nat × Bool
  | [] => (0, false)
  | read :: reads =>
    let held := kept + read.length
    if sizeLimit < held then (0, true)
    else
      match messages with
      | [] => (0, false)
      | message :: rest =>
        if held < message.bytes.length then served held (message :: rest) reads
        else
          let (count, refused) := served (held - message.bytes.length) rest reads
          (count + 1, refused)

section NextRead

variable {kept : Nat} {read : Bytes} {message : Message} {rest : List Message}

theorem served_of_sizeLimit_lt (hlong : sizeLimit < kept + read.length)
    (messages : List Message) (reads : List Bytes) :
    served kept messages (read :: reads) = (0, true) := by
  simp [served, hlong]

theorem served_of_lt (hfits : kept + read.length ≤ sizeLimit)
    (hlt : kept + read.length < message.bytes.length) (reads : List Bytes) :
    served kept (message :: rest) (read :: reads) =
      served (kept + read.length) (message :: rest) reads := by
  simp [served, Nat.not_lt.mpr hfits, hlt]

theorem served_of_le (hfits : kept + read.length ≤ sizeLimit)
    (hle : message.bytes.length ≤ kept + read.length) (reads : List Bytes) :
    served kept (message :: rest) (read :: reads) =
      ((served (kept + read.length - message.bytes.length) rest reads).1 + 1,
        (served (kept + read.length - message.bytes.length) rest reads).2) := by
  simp [served, Nat.not_lt.mpr hfits, Nat.not_lt.mpr hle]

end NextRead

variable {m : Type → Type u} [Monad m]

variable [LawfulMonad m]

/-- Where the bytes kept and those still to come make up messages, a run answers as many of
them as it serves, in order. -/
theorem run_eq_written (handle : Request → m Response) (messages : List Message)
    (reads : List Bytes) (kept : Bytes)
    (hcut : kept ++ reads.flatten = messages.flatMap Message.bytes)
    (hne : ∀ read ∈ reads, read ≠ []) :
    run handle ⟨some kept⟩ (reads ++ [[]]) = (do
      let responses ← (messages.take (served kept.length messages reads).1).mapM
        fun message => handle message.request
      return written responses (served kept.length messages reads).2) := by
  induction reads generalizing kept messages with
  | nil => simp [run, receive, served, written]
  | cons read reads ih =>
      have hread : read ≠ [] := hne read (by simp)
      have hrest : ∀ other ∈ reads, other ≠ [] := fun other hother =>
        hne other (by simp [hother])
      have hflat : kept ++ read ++ reads.flatten = messages.flatMap Message.bytes := by
        simpa [List.append_assoc] using hcut
      by_cases hlong : sizeLimit < (kept ++ read).length
      · have hserved := served_of_sizeLimit_lt (by simpa using hlong) messages reads
        have hstep := receive_of_refuse handle hread (demand_of_sizeLimit_lt hlong)
        simp [run, hstep, run_closed, hserved, written, tooLarge]
      · have hfits : kept.length + read.length ≤ sizeLimit := by simpa using hlong
        cases messages with
        | nil =>
            simp [hread] at hflat
        | cons message rest =>
            simp only [List.flatMap_cons] at hflat
            by_cases hlt : (kept ++ read).length < message.bytes.length
            · -- The read ends inside the next message.
              obtain ⟨more, hmore⟩ : kept ++ read <+: message.bytes :=
                List.prefix_of_prefix_length_le ⟨_, hflat⟩ ⟨_, rfl⟩ hlt.le
              have hstep := receive_of_wait handle hread
                ((message.announced []).wait (kept ++ read) ⟨more, by simpa using hmore⟩ hlt
                  (not_lt.mp hlong))
              rw [List.length_append] at hlt
              simpa [run, hstep, served_of_lt hfits hlt] using
                ih (message :: rest) (kept ++ read) (by simpa using hflat) hrest
            · -- The read completes the next message, and perhaps others behind it.
              have hle := not_lt.mp hlt
              obtain ⟨more, hmore⟩ : message.bytes <+: kept ++ read :=
                List.prefix_of_prefix_length_le ⟨_, rfl⟩ ⟨_, hflat⟩ hle
              have hstep := receive_of_answer handle hread
                ((message.announced more).answer (kept ++ read) (hmore ▸ List.prefix_rfl) hle
                  (not_lt.mp hlong))
              have hdrop : (kept ++ read).drop message.bytes.length = more := by
                simp [← hmore]
              have hheld : kept.length + read.length - message.bytes.length = more.length := by
                have := congrArg List.length hmore
                simp only [List.length_append] at this
                omega
              have htail : more ++ reads.flatten = rest.flatMap Message.bytes := by
                rw [← hmore, List.append_assoc] at hflat
                exact List.append_cancel_left hflat
              rw [List.length_append] at hle
              have hserved : served kept.length (message :: rest) (read :: reads) = _ :=
                served_of_le hfits hle reads
              rw [hheld] at hserved
              have hih := ih rest more htail hrest
              simp [run, hstep, hdrop, hserved, hih, written, message.keepsAlive, keptWire]

end Connection
end WebApp
