import Mathlib.Tactic
import WebApp.Proofs.Connection.Pipelining
import WebApp.Proofs.Http.Wire
import WebApp.Task.World

/-!
# Reads that keep up with the requests

All requests of a peer are answered exactly when its reads keep up with them: from every point
on there are as many reads as requests that are not complete at that point, and no read finds
more bytes kept than the limit allows.
-/

namespace WebApp
namespace Connection

universe u

/-- How many of the messages are complete after so many bytes. -/
def completed : List Message → Nat → Nat
  | [], _ => 0
  | message :: rest, received =>
    if received < message.bytes.length then 0
    else completed rest (received - message.bytes.length) + 1

/-- How many of the messages the reads answer when no limit holds. -/
def answered (kept : Nat) : List Message → List Bytes → Nat
  | [], _ => 0
  | _, [] => 0
  | message :: rest, read :: reads =>
    let held := kept + read.length
    if held < message.bytes.length then answered held (message :: rest) reads
    else answered (held - message.bytes.length) rest reads + 1

def size (messages : List Message) : Nat :=
  (messages.flatMap Message.bytes).length

structure KeepsUp (messages : List Message) (reads : List Bytes) : Prop where
  /-- Behind each point there is a read for each message that is not complete there. -/
  paced : ∀ before after, reads = before ++ after →
    messages.length ≤ completed messages before.flatten.length + after.length
  /-- The messages that had their turn leave no more than the limit at each read. -/
  roomy : ∀ before between read after, reads = before ++ between ++ read :: after →
    (before ++ between ++ [read]).flatten.length ≤ sizeLimit +
      size (messages.take (completed messages before.flatten.length + between.length))

/-! ## How many messages are answered -/

theorem forall_split_cons {α : Type} {first : α} {rest : List α}
    {holds : List α → α → List α → Prop} :
    (∀ before at' after, first :: rest = before ++ at' :: after → holds before at' after) ↔
      holds [] first rest ∧
        ∀ before at' after, rest = before ++ at' :: after → holds (first :: before) at' after := by
  constructor
  · intro hall
    refine ⟨hall [] first rest rfl, ?_⟩
    intro before at' after hsplit
    exact hall (first :: before) at' after (by simp [hsplit])
  · rintro ⟨hfirst, hrest⟩ before at' after hsplit
    cases before with
    | nil =>
        simp only [List.nil_append, List.cons.injEq] at hsplit
        obtain ⟨rfl, rfl⟩ := hsplit
        exact hfirst
    | cons other before =>
        simp only [List.cons_append, List.cons.injEq] at hsplit
        obtain ⟨rfl, hsplit⟩ := hsplit
        exact hrest before at' after hsplit

theorem add_length_flatten_cons (kept : Nat) (read : Bytes) (before : List Bytes) (other : Bytes) :
    kept + (read :: before ++ [other]).flatten.length =
      kept + read.length + (before ++ [other]).flatten.length := by
  simp [Nat.add_assoc]

section FirstMessage

variable {message : Message} {rest : List Message} {kept received : Nat} {read : Bytes}

theorem completed_of_lt (hlt : received < message.bytes.length) :
    completed (message :: rest) received = 0 := by
  simp [completed, hlt]

theorem completed_of_le (hle : message.bytes.length ≤ received) :
    completed (message :: rest) received =
      completed rest (received - message.bytes.length) + 1 := by
  simp [completed, Nat.not_lt.mpr hle]

/-- A read that completes nothing is no turn for any message. -/
theorem answered_of_lt (hlt : kept + read.length < message.bytes.length) (reads : List Bytes) :
    answered kept (message :: rest) (read :: reads) =
      answered (kept + read.length) (message :: rest) reads := by
  simp [answered, hlt]

/-- Any other read is the turn of the first message. -/
theorem answered_of_le (hle : message.bytes.length ≤ kept + read.length) (reads : List Bytes) :
    answered kept (message :: rest) (read :: reads) =
      answered (kept + read.length - message.bytes.length) rest reads + 1 := by
  simp [answered, Nat.not_lt.mpr hle]

end FirstMessage

theorem le_answered_iff (count kept : Nat) (messages : List Message) (reads : List Bytes) :
    count ≤ answered kept messages reads ↔
      count ≤ reads.length ∧ ∀ before read after, reads = before ++ read :: after →
        count ≤ completed messages (kept + (before ++ [read]).flatten.length) + after.length := by
  induction reads generalizing count kept messages with
  | nil => cases messages <;> simp [answered]
  | cons read reads ih =>
      rw [forall_split_cons]
      simp only [add_length_flatten_cons, List.nil_append, List.flatten_singleton,
        List.length_cons]
      cases messages with
      | nil =>
          have hrest := ih count (kept + read.length) []
          simp only [answered, completed, Nat.zero_add] at hrest ⊢
          rw [hrest]
          constructor
          · rintro ⟨hcount, hall⟩
            exact ⟨by omega, hcount, hall⟩
          · rintro ⟨-, hcount, hall⟩
            exact ⟨hcount, hall⟩
      | cons message rest =>
          by_cases hlt : kept + read.length < message.bytes.length
          · rw [answered_of_lt hlt, completed_of_lt hlt, Nat.zero_add, ih]
            constructor
            · rintro ⟨hcount, hall⟩
              exact ⟨by omega, hcount, hall⟩
            · rintro ⟨-, hcount, hall⟩
              exact ⟨hcount, hall⟩
          · have hle := Nat.not_lt.mp hlt
            have hlater : ∀ more, completed (message :: rest) (kept + read.length + more) =
                completed rest (kept + read.length - message.bytes.length + more) + 1 := by
              intro more
              rw [completed_of_le (Nat.le_add_right_of_le hle), Nat.sub_add_comm hle]
            rw [answered_of_le hle, completed_of_le hle]
            simp only [hlater]
            cases count with
            | zero => simp
            | succ count =>
                simp only [Nat.add_right_comm _ 1, Nat.succ_le_succ_iff]
                rw [ih]
                constructor
                · rintro ⟨hcount, hall⟩
                  exact ⟨hcount, by omega, hall⟩
                · rintro ⟨hcount, -, hall⟩
                  exact ⟨hcount, hall⟩

theorem answered_le_length (kept : Nat) (messages : List Message) (reads : List Bytes) :
    answered kept messages reads ≤ messages.length := by
  induction reads generalizing kept messages with
  | nil => cases messages <;> simp [answered]
  | cons read reads ih =>
      cases messages with
      | nil => simp [answered]
      | cons message rest =>
          by_cases hlt : kept + read.length < message.bytes.length
          · rw [answered_of_lt hlt]
            exact ih (kept + read.length) (message :: rest)
          · rw [answered_of_le (Nat.not_lt.mp hlt)]
            exact Nat.succ_le_succ (ih (kept + read.length - message.bytes.length) rest)

theorem served_le_length (kept : Nat) (messages : List Message) (reads : List Bytes) :
    (served kept messages reads).1 ≤ messages.length := by
  induction reads generalizing kept messages with
  | nil => simp [served]
  | cons read reads ih =>
      by_cases hlong : sizeLimit < kept + read.length
      · simp [served_of_sizeLimit_lt hlong]
      · have hfits := Nat.not_lt.mp hlong
        cases messages with
        | nil => simp [served, hlong]
        | cons message rest =>
            by_cases hlt : kept + read.length < message.bytes.length
            · rw [served_of_lt hfits hlt]
              exact ih (kept + read.length) (message :: rest)
            · rw [served_of_le hfits (Nat.not_lt.mp hlt)]
              exact Nat.succ_le_succ (ih (kept + read.length - message.bytes.length) rest)

/-! ## Refusals -/

/-- No read finds more than the limit, where every read answers what it can. -/
def Roomy (kept : Nat) (messages : List Message) (reads : List Bytes) : Prop :=
  ∀ before read after, reads = before ++ read :: after →
    kept + (before ++ [read]).flatten.length ≤
      sizeLimit + size (messages.take (answered kept messages before))

theorem size_nil : size [] = 0 := rfl

theorem size_cons (message : Message) (rest : List Message) :
    size (message :: rest) = message.bytes.length + size rest := by
  simp [size]

theorem served_eq_iff (kept : Nat) (messages : List Message) (reads : List Bytes)
    (hcut : kept + reads.flatten.length = size messages) (hne : ∀ read ∈ reads, read ≠ []) :
    served kept messages reads = (messages.length, false) ↔
      answered kept messages reads = messages.length ∧ Roomy kept messages reads := by
  induction reads generalizing kept messages with
  | nil =>
      cases messages with
      | nil => simp [served, answered, Roomy]
      | cons message rest => simp [served, answered]
  | cons read reads ih =>
      have hread : 0 < read.length := List.length_pos_iff.mpr (hne read (by simp))
      have hrest : ∀ other ∈ reads, other ≠ [] := fun other hother =>
        hne other (by simp [hother])
      have hflat : kept + read.length + reads.flatten.length = size messages := by
        simpa [Nat.add_assoc] using hcut
      unfold Roomy
      rw [forall_split_cons]
      simp only [add_length_flatten_cons, List.nil_append, List.flatten_singleton]
      cases messages with
      | nil =>
          rw [size_nil] at hflat
          omega
      | cons message rest =>
          have hnone : answered kept (message :: rest) [] = 0 := rfl
          simp only [hnone, List.take_zero, size_nil, Nat.add_zero]
          by_cases hlong : sizeLimit < kept + read.length
          · have hroom : ¬ kept + read.length ≤ sizeLimit := by omega
            simp [served_of_sizeLimit_lt hlong, hroom]
          · have hroom : kept + read.length ≤ sizeLimit := by omega
            by_cases hlt : kept + read.length < message.bytes.length
            · have hnext := ih (kept + read.length) (message :: rest) hflat hrest
              simpa [served_of_lt hroom hlt, answered_of_lt hlt, hroom, Roomy] using hnext
            · have hle := Nat.not_lt.mp hlt
              rw [size_cons] at hflat
              have hnext := ih (kept + read.length - message.bytes.length) rest
                (by omega) hrest
              have hshift : ∀ (before : List Bytes) (more : Nat),
                  kept + read.length + more ≤ sizeLimit + size
                    ((message :: rest).take (answered kept (message :: rest) (read :: before))) ↔
                  kept + read.length - message.bytes.length + more ≤ sizeLimit + size
                    (rest.take (answered (kept + read.length - message.bytes.length) rest
                      before)) := by
                intro before more
                rw [answered_of_le hle, List.take_succ_cons, size_cons]
                omega
              rw [Prod.ext_iff] at hnext ⊢
              simp only [hshift]
              simp only [served_of_le hroom hle, answered_of_le hle, List.length_cons,
                Nat.add_right_cancel_iff] at hnext ⊢
              rw [hnext]
              constructor
              · rintro ⟨hcount, hrooms⟩
                exact ⟨hcount, hroom, hrooms⟩
              · rintro ⟨hcount, -, hrooms⟩
                exact ⟨hcount, hrooms⟩

theorem completed_zero (messages : List Message) : completed messages 0 = 0 := by
  cases messages with
  | nil => rfl
  | cons message rest => simp [completed, message.length_pos]

/-- The count of answered messages is one of the bounds on it. -/
theorem answered_attained (messages : List Message) (reads : List Bytes) :
    ∃ before after, reads = before ++ after ∧
      completed messages before.flatten.length + after.length ≤ answered 0 messages reads := by
  by_contra hnone
  push Not at hnone
  have hmore : answered 0 messages reads + 1 ≤ answered 0 messages reads := by
    rw [le_answered_iff]
    constructor
    · have hfirst := hnone [] reads rfl
      rw [List.flatten_nil, List.length_nil, completed_zero] at hfirst
      omega
    · intro before read after hsplit
      have hlater := hnone (before ++ [read]) after (by simp [hsplit])
      simp only [Nat.zero_add]
      omega
  omega

theorem answered_le (messages : List Message) (before after : List Bytes) :
    answered 0 messages (before ++ after) ≤
      completed messages before.flatten.length + after.length := by
  have hbounds := (le_answered_iff _ 0 messages (before ++ after)).mp le_rfl
  rcases List.eq_nil_or_concat before with rfl | ⟨front, read, rfl⟩
  · simpa [completed_zero] using hbounds.1
  · simpa using hbounds.2 front read after (by simp)

theorem size_take_mono (messages : List Message) {few many : Nat} (hle : few ≤ many) :
    size (messages.take few) ≤ size (messages.take many) := by
  obtain ⟨more, hmore⟩ : messages.take few <+: messages.take many :=
    List.take_prefix_take_left hle
  rw [← hmore]
  simp [size]

theorem keepsUp_iff (messages : List Message) (reads : List Bytes) :
    KeepsUp messages reads ↔
      answered 0 messages reads = messages.length ∧ Roomy 0 messages reads := by
  constructor
  · rintro ⟨hpaced, hroomy⟩
    constructor
    · obtain ⟨before, after, hsplit, hattained⟩ := answered_attained messages reads
      have hpace := hpaced before after hsplit
      have hle := answered_le_length 0 messages reads
      omega
    · intro front read after hsplit
      obtain ⟨before, between, hfront, hattained⟩ := answered_attained messages front
      have hroom := hroomy before between read after (by rw [hsplit, hfront])
      rw [← hfront] at hroom
      have hsize := size_take_mono messages hattained
      omega
  · rintro ⟨hall, hroomy⟩
    constructor
    · intro before after hsplit
      rw [← hall, hsplit]
      exact answered_le messages before after
    · intro before between read after hsplit
      have hroom := hroomy (before ++ between) read after hsplit
      have hsize := size_take_mono messages (answered_le messages before between)
      omega

/-! ## What is written -/

theorem keepAlive_infix_keptWire (response : Response) :
    Utf8.encode ": keep-alive\r\n" <:+: keptWire response :=
  { response with keepAlive := true }.connection_infix_wire

/-- The refusal does not begin as the answer to a request that was kept open. -/
theorem tooLarge_wire_ne (response : Response) (more : Bytes) :
    tooLarge.wire ≠ keptWire response ++ more := by
  intro hwire
  have hinfix : Utf8.encode ": keep-alive\r\n" <:+: tooLarge.wire := by
    rw [hwire]
    exact (keepAlive_infix_keptWire response).trans (List.prefix_append _ _).isInfix
  exact absurd hinfix (by decide +kernel)

/-- Only a run that answers all requests, and refuses none, writes all responses. -/
theorem written_take_eq_iff {responses : List Response} {count : Nat} (refused : Bool)
    (hcount : count ≤ responses.length) :
    written (responses.take count) refused = responses.flatMap keptWire ↔
      count = responses.length ∧ refused = false := by
  have hsplit : responses.flatMap keptWire =
      (responses.take count).flatMap keptWire ++ (responses.drop count).flatMap keptWire := by
    rw [← List.flatMap_append, List.take_append_drop]
  rw [written, hsplit, List.append_cancel_left_eq]
  cases hdrop : responses.drop count with
  | nil =>
      have hlength : count = responses.length := by
        rw [List.drop_eq_nil_iff] at hdrop
        omega
      have hwire : tooLarge.wire ≠ [] := tooLarge.wire_ne_nil
      cases refused with
      | false => simp only [hlength, List.flatMap_nil, Bool.false_eq_true, if_false, and_self]
      | true => simpa only [List.flatMap_nil, if_true, Bool.true_eq_false, and_false,
          iff_false] using hwire
  | cons response rest =>
      have hlength : count ≠ responses.length := by
        rintro rfl
        simp at hdrop
      have hfirst : (response :: rest).flatMap keptWire ≠ [] := by
        simp [keptWire, Response.wire_ne_nil]
      cases refused with
      | false =>
          simp only [Bool.false_eq_true, if_false, hlength, false_and, iff_false]
          exact hfirst.symm
      | true =>
          simp only [if_true, List.flatMap_cons, hlength, false_and, iff_false]
          exact tooLarge_wire_ne response (rest.flatMap keptWire)

variable {m : Type → Type u} [Monad m] [LawfulMonad m] [Reports m] [Tasks m]

/-- What a connection writes to a peer that keeps it open, and when that is an answer to every
request. -/
theorem run_answers_all_iff_keepsUp (app : App m) (messages : List Message)
    (reads : List Bytes) (hcut : reads.flatten = messages.flatMap Message.bytes)
    (hne : ∀ read ∈ reads, read ≠ []) :
    (∀ message ∈ messages, message.request.body = message.bytes.drop message.start ∧
      message.request.body.length = message.request.contentLength?.getD 0) ∧
    (run app.handle {} (reads ++ [[]]) = do
      let responses ← (messages.take (served 0 messages reads).1).mapM
        fun message => app.handle message.request
      return written responses (served 0 messages reads).2) ∧
    (KeepsUp messages reads →
      run app.handle {} (reads ++ [[]]) = do
        let responses ← messages.mapM fun message => app.handle message.request
        return responses.flatMap keptWire) ∧
    ∀ responses : List Response, responses.length = messages.length →
      (written (responses.take (served 0 messages reads).1) (served 0 messages reads).2 =
        responses.flatMap keptWire ↔ KeepsUp messages reads) := by
  have hserved : served 0 messages reads = (messages.length, false) ↔
      KeepsUp messages reads := by
    rw [keepsUp_iff]
    exact served_eq_iff 0 messages reads (by rw [Nat.zero_add, hcut, size]) hne
  have hrun := run_eq_written app.handle messages reads [] (by simpa using hcut) hne
  refine ⟨?_, hrun, ?_, ?_⟩
  · intro message _
    exact ⟨Head.body_eq_drop message.read_bytes, message.length_body⟩
  · intro hkeeps
    rw [List.length_nil, hserved.mpr hkeeps] at hrun
    simpa [written] using hrun
  · intro responses hlength
    rw [written_take_eq_iff _ (hlength ▸ served_le_length 0 messages reads), ← hserved,
      Prod.ext_iff, hlength]

theorem request_rootRequest :
    Head.request (Utf8.encode "GET / HTTP/1.1\r\n\r\n") =
      .ok ({ method := .get, path := "/" }, []) := by
  have hraw : Head.raw (Utf8.encode "GET / HTTP/1.1\r\n\r\n") = .ok (⟨.get, "/", 1, []⟩, []) := by
    decide +kernel
  have hsplit : Text.splitOnce '?' "/" = none := by decide +kernel
  simp [Head.request_eq_map_raw, hraw, Functor.map, Except.map, Head.Raw.request, Request.new,
    hsplit]

theorem read_rootRequest :
    Head.read (Utf8.encode "GET / HTTP/1.1\r\n\r\n") =
      .ok ({ method := .get, path := "/" }, 18) :=
  Head.read_eq_ok_iff.mpr ⟨_, _, request_rootRequest, rfl, by decide +kernel⟩

/-- A request for the root, with nothing but its first line. -/
def rootRequest : Message where
  bytes := Utf8.encode "GET / HTTP/1.1\r\n\r\n"
  request := { method := .get, path := "/" }
  start := 18
  read_bytes := read_rootRequest
  framed := by decide +kernel
  fits := by decide +kernel
  keepsAlive := by decide +kernel

/-- A peer that sends each request with a read of its own is answered. -/
theorem run_two_reads_of_two_requests :
    [rootRequest.bytes, rootRequest.bytes].flatten =
      [rootRequest, rootRequest].flatMap Message.bytes ∧
    (∀ read ∈ [rootRequest.bytes, rootRequest.bytes], read ≠ []) ∧
    KeepsUp [rootRequest, rootRequest] [rootRequest.bytes, rootRequest.bytes] ∧
    run (App.new {} : App (Routine Unit)).handle {}
        [rootRequest.bytes, rootRequest.bytes, []] = do
      let responses ← [rootRequest, rootRequest].mapM fun message =>
        (App.new {} : App (Routine Unit)).handle message.request
      return responses.flatMap keptWire := by
  have hcut : [rootRequest.bytes, rootRequest.bytes].flatten =
      [rootRequest, rootRequest].flatMap Message.bytes := rfl
  have hne : ∀ read ∈ [rootRequest.bytes, rootRequest.bytes], read ≠ [] := by
    intro read hread
    have hsame : read = rootRequest.bytes := by simpa using hread
    rw [hsame]
    exact List.length_pos_iff.mp rootRequest.length_pos
  obtain ⟨-, -, hall, hexact⟩ := run_answers_all_iff_keepsUp
    (App.new {} : App (Routine Unit)) [rootRequest, rootRequest]
    [rootRequest.bytes, rootRequest.bytes] hcut hne
  have hkeeps := (hexact [tooLarge, tooLarge] rfl).mp (by decide +kernel)
  exact ⟨hcut, hne, hkeeps, hall hkeeps⟩

/-- Of two requests that come with one read the second has no answer. -/
theorem run_one_read_of_two_requests :
    ((World.new ()).perform (run (App.new {} : App (Routine Unit)).handle {}
      [rootRequest.bytes ++ rootRequest.bytes, []])).1 ≠
    ((World.new ()).perform (do
      let responses ← [rootRequest, rootRequest].mapM fun message =>
        (App.new {} : App (Routine Unit)).handle message.request
      return responses.flatMap keptWire)).1 := by
  decide +kernel

end Connection
end WebApp
