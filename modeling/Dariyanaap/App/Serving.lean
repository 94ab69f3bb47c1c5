import Dariyanaap.App.Null
import Dariyanaap.Library.Transition
import Dariyanaap.Load.SystemCalls

/-!
# A connection of the null target

`serve` (`apps/dariyanaap_null.cpp`) in its system calls, with the failures that `App/Null.lean`
leaves out: a `read_some` or `write_all` that throws ends the connection. The steps are executable,
so that a client can be put at the other end.

What the calls amount to is the `serve` of the bytes that were read (`serve_refined`): the replies
it lists are the ones that `write_all` was called with, and what the kernel accepted are their
bytes.
-/

namespace Dariyanaap

namespace Null

open WriteAll (Errno Send)

/-- Where `serve` stands. -/
inductive Stage where
  /-- It reads a request, of which the buffer holds some bytes. -/
  | reading (filled : Text)
  /-- The request is whole, and held by a stall, a latency or a hang. -/
  | holding (request : Text)
  | answering (reply : Text) (w : WriteAll.Write)
  | returned
  deriving DecidableEq

/-- A connection, with what became of it. -/
structure Service where
  stage : Stage := .reading []
  /-- How many requests were taken. -/
  request : ℕ := 0
  /-- The calls of `write_all`. -/
  replies : List Reply := []
  /-- What the kernel accepted. -/
  sent : Text := []
  deriving DecidableEq

/-- A step of `serve`. -/
inductive Turn where
  | recv (result : Recv)
  /-- The end of what holds a reply. -/
  | respond
  | send (result : Send)
  deriving DecidableEq

/-- After a turn of `write_all`, or at its entry. -/
def afterWrite (reply : Text) (w : WriteAll.Write) : Stage :=
  match w.ended with
  | none => .answering reply w
  | some .returned => .reading []
  -- the client vanished in the middle of an exchange
  | some (.timedOut _) | some (.ioError _) => .returned

/-- After a `recv`. -/
def afterRecv (payload : ℕ) (filled : Text) : Recv → Stage
  | .got bytes =>
      if bytes = [] then .returned
      else if (filled ++ bytes).length < payload then .reading (filled ++ bytes)
      else .holding (filled ++ bytes)
  | .failed .eintr => .reading filled
  | .failed .eagain | .failed .ewouldblock | .failed (.other _) => .returned

/-- The replies to a whole request: one, or none if it is dropped. -/
def answer (interlude : ℕ → Interlude) (payload request : ℕ) (filled : Text) : List Reply :=
  let now := interlude request
  if now.knobs.shouldDrop now.draw then []
  else [⟨now.stall, now.knobs.beforeResponse now.jitter, filled.take payload⟩]

/-- One step. -/
def turn (interlude : ℕ → Interlude) (payload : ℕ) (s : Service) : Turn → Option Service
  | .recv result =>
      match s.stage with
      | .reading filled => some { s with stage := afterRecv payload filled result }
      | _ => none
  | .respond =>
      match s.stage with
      | .holding filled =>
          match answer interlude payload s.request filled with
          | [] => some { s with stage := .reading [], request := s.request + 1 }
          | reply :: _ =>
              some
                { s with
                  stage := afterWrite reply.bytes (WriteAll.enter reply.bytes)
                  request := s.request + 1
                  replies := s.replies ++ [reply] }
      | _ => none
  | .send result =>
      match s.stage with
      | .answering reply w =>
          if WriteAll.Permitted reply w result then
            some
              { s with
                stage := afterWrite reply (w.turn reply result)
                sent := s.sent ++ w.handed reply result }
          else none
      | _ => none

/-- The bytes of a read. -/
def Turn.got : Turn → Option Text
  | .recv (.got bytes) => some bytes
  | _ => none

/-! ## The replies that the steps amount to -/

section Refinement

variable {interlude : ℕ → Interlude} {payload : ℕ} {turns : List Turn} {s s' : Service}
  {t : Turn} {filled reply : Text} {w : WriteAll.Write} {result : Recv}

/-- A read that completes a request is followed by its answer. -/
theorem serve_cons_of_le {got : Text} {reads : List Text} {request : ℕ} (hgot : got ≠ [])
    (hle : payload ≤ (filled ++ got).length) :
    serve interlude payload (got :: reads) request filled =
      answer interlude payload request (filled ++ got) ++
        serve interlude payload reads (request + 1) [] := by
  rw [serve, if_neg hgot, if_neg (not_lt.mpr hle), answer]
  dsimp only
  split <;> rfl

/-- What some steps amount to: the reads so far have brought the listed replies, and the stage says
what a further read would bring. -/
inductive Stands (interlude : ℕ → Interlude) (payload : ℕ) (reads : List Text) (s : Service) :
    Prop
  | reading (filled : Text) (hstage : s.stage = .reading filled)
      (hserve : ∀ more, serve interlude payload (reads ++ more) 0 [] =
        s.replies ++ serve interlude payload more s.request filled)
      (hsent : s.sent = echoed s.replies)
  | holding (filled : Text) (hstage : s.stage = .holding filled)
      (hserve : ∀ more, serve interlude payload (reads ++ more) 0 [] =
        s.replies ++ (answer interlude payload s.request filled ++
          serve interlude payload more (s.request + 1) []))
      (hsent : s.sent = echoed s.replies)
  | answering (reply : Text) (w : WriteAll.Write) (hstage : s.stage = .answering reply w)
      (hserve : ∀ more, serve interlude payload (reads ++ more) 0 [] =
        s.replies ++ serve interlude payload more s.request [])
      (hgoing : w.ended = none) (hwrite : WriteAll.InStep reply w)
      (hsent : s.sent ++ reply.drop w.sent = echoed s.replies)
  | returned (hstage : s.stage = .returned)
      (hserve : serve interlude payload reads 0 [] = s.replies)
      (hsent : s.sent <+: echoed s.replies)

/-- What stands at the entry of `write_all` and after its turns. -/
theorem stands_afterWrite {reads : List Text}
    (hstage : s.stage = afterWrite reply w)
    (hserve : ∀ more, serve interlude payload (reads ++ more) 0 [] =
      s.replies ++ serve interlude payload more s.request [])
    (hwrite : WriteAll.InStep reply w)
    (hsent : s.sent ++ reply.drop w.sent = echoed s.replies) :
    Stands interlude payload reads s := by
  rw [afterWrite] at hstage
  have hnow := hserve []
  rw [List.append_nil] at hnow
  split at hstage
  · next hgoing => exact .answering reply w hstage hserve hgoing hwrite hsent
  · next hreturned =>
    rw [hwrite.returned.mp hreturned, List.drop_length, List.append_nil] at hsent
    exact .reading [] hstage hserve hsent
  all_goals
    refine .returned hstage ?_ ⟨_, hsent⟩
    rw [hnow]
    exact List.append_nil _

/-- What stands after a `recv`. -/
theorem stands_recv {reads : List Text}
    (hserve : ∀ more, serve interlude payload (reads ++ more) 0 [] =
      s.replies ++ serve interlude payload more s.request filled)
    (hsent : s.sent = echoed s.replies) :
    Stands interlude payload (reads ++ (Turn.got (.recv result)).toList)
      { s with stage := afterRecv payload filled result } := by
  have hnow := hserve []
  rw [List.append_nil] at hnow
  have hall : s.sent <+: echoed s.replies := hsent ▸ List.prefix_rfl
  cases result with
  | got bytes =>
    have hnext : ∀ more, serve interlude payload (reads ++ [bytes] ++ more) 0 [] =
        s.replies ++ serve interlude payload (bytes :: more) s.request filled := fun more => by
      rw [List.append_assoc, List.singleton_append, hserve]
    change Stands interlude payload (reads ++ [bytes]) _
    by_cases hbytes : bytes = []
    · -- a clean hang-up
      refine .returned (if_pos hbytes) ?_ hall
      rw [hserve, serve, if_pos hbytes]
      exact List.append_nil _
    by_cases hlt : (filled ++ bytes).length < payload
    · refine .reading (filled ++ bytes) ((if_neg hbytes).trans (if_pos hlt)) (fun more => ?_) hsent
      rw [hnext, serve_cons_of_lt hbytes hlt]
    · refine .holding (filled ++ bytes) ((if_neg hbytes).trans (if_neg hlt)) (fun more => ?_) hsent
      rw [hnext, serve_cons_of_le hbytes (not_lt.mp hlt)]
  | failed errno =>
    change Stands interlude payload (reads ++ []) _
    rw [List.append_nil]
    have hgone : serve interlude payload reads 0 [] = s.replies :=
      hnow.trans (List.append_nil _)
    cases errno with
    | eintr => exact .reading filled rfl hserve hsent
    | eagain | ewouldblock | other strerror => exact .returned rfl hgone hall

/-- What stands after the end of what held a reply. -/
theorem stands_respond {reads : List Text} {s' : Service}
    (hserve : ∀ more, serve interlude payload (reads ++ more) 0 [] =
      s.replies ++ (answer interlude payload s.request filled ++
        serve interlude payload more (s.request + 1) []))
    (hsent : s.sent = echoed s.replies) (hstage : s.stage = .holding filled)
    (hturn : turn interlude payload s .respond = some s') :
    Stands interlude payload reads s' := by
  rw [turn, hstage] at hturn
  dsimp only at hturn
  split at hturn
  · next hdropped =>
    obtain rfl := Option.some.inj hturn
    refine .reading [] rfl (fun more => ?_) hsent
    rw [hserve, hdropped, List.nil_append]
  · next reply rest hanswer =>
    obtain rfl := Option.some.inj hturn
    obtain rfl : rest = [] := by
      rw [answer] at hanswer
      split at hanswer
      · cases hanswer
      · exact (List.cons.inj hanswer).2.symm
    refine stands_afterWrite rfl (fun more => ?_) (WriteAll.InStep.enter _) ?_
    · rw [hserve, hanswer, List.append_assoc]
    · simp [echoed, hsent, WriteAll.enter]

/-- What stands after a step. -/
theorem Stands.turn {reads : List Text} (h : Stands interlude payload reads s)
    (hturn : turn interlude payload s t = some s') :
    Stands interlude payload (reads ++ t.got.toList) s' := by
  cases t with
  | recv result =>
    cases h with
    | reading filled hstage hserve hsent =>
      rw [Null.turn, hstage] at hturn
      obtain rfl := Option.some.inj hturn
      exact stands_recv hserve hsent
    | holding filled hstage | answering reply w hstage | returned hstage =>
      rw [Null.turn, hstage] at hturn
      cases hturn
  | respond =>
    change Stands interlude payload (reads ++ []) s'
    rw [List.append_nil]
    cases h with
    | holding filled hstage hserve hsent => exact stands_respond hserve hsent hstage hturn
    | reading filled hstage | answering reply w hstage | returned hstage =>
      rw [Null.turn, hstage] at hturn
      cases hturn
  | send result =>
    change Stands interlude payload (reads ++ []) s'
    rw [List.append_nil]
    cases h with
    | answering reply w hstage hserve hgoing hwrite hsent =>
      rw [Null.turn, hstage] at hturn
      dsimp only at hturn
      split at hturn
      · next hpermitted =>
        obtain rfl := Option.some.inj hturn
        refine stands_afterWrite rfl hserve (hwrite.turn hgoing hpermitted) ?_
        rw [← hsent, List.append_assoc]
        congr 1
        exact WriteAll.handed_append_drop hpermitted
      · cases hturn
    | reading filled hstage | holding filled hstage | returned hstage =>
      rw [Null.turn, hstage] at hturn
      cases hturn

/-- No write has failed at the entry of `write_all`. -/
theorem afterWrite_enter_ne (reply : Text) :
    afterWrite reply (WriteAll.enter reply) ≠ .returned := by
  rw [afterWrite, WriteAll.enter, WriteAll.test]
  split_ifs <;> simp

/-- A connection that ends has sent every reply, unless a `send` ended it. -/
theorem Stands.sent_of_returned {reads : List Text} (h : Stands interlude payload reads s)
    (hturn : Null.turn interlude payload s t = some s') (hreturned : s'.stage = .returned) :
    s'.sent = echoed s'.replies ∨ ∃ result, t = .send result := by
  cases t with
  | send result => exact .inr ⟨result, rfl⟩
  | recv result =>
    cases h with
    | reading filled hstage hserve hsent =>
      rw [Null.turn, hstage] at hturn
      obtain rfl := Option.some.inj hturn
      exact .inl hsent
    | holding filled hstage | answering reply w hstage | returned hstage =>
      rw [Null.turn, hstage] at hturn
      cases hturn
  | respond =>
    cases h with
    | holding filled hstage hserve hsent =>
      rw [Null.turn, hstage] at hturn
      dsimp only at hturn
      split at hturn
      · obtain rfl := Option.some.inj hturn
        cases hreturned
      · obtain rfl := Option.some.inj hturn
        exact absurd hreturned (afterWrite_enter_ne _)
    | reading filled hstage | answering reply w hstage | returned hstage =>
      rw [Null.turn, hstage] at hturn
      cases hturn

/-- The bytes that were read. -/
def readsOf (turns : List Turn) : List Text := turns.filterMap Turn.got

theorem readsOf_append_singleton (turns : List Turn) (t : Turn) :
    readsOf (turns ++ [t]) = readsOf turns ++ t.got.toList := by
  rw [readsOf, List.filterMap_append, readsOf]
  cases hgot : t.got <;> simp [hgot]

/-- What a connection did, after any steps from its start. -/
structure Serves (interlude : ℕ → Interlude) (payload : ℕ) (turns : List Turn) (s : Service) :
    Prop where
  /-- The calls of `write_all` are the replies to what was read, in order. -/
  replies : s.replies <+: serve interlude payload (readsOf turns) 0 []
  /-- Only the one that is held is still to come. -/
  none_missing : (∀ request, s.stage ≠ .holding request) →
    s.replies = serve interlude payload (readsOf turns) 0 []
  /-- The kernel accepted their bytes. -/
  sent : s.sent <+: echoed s.replies
  /-- Only a reply under way is cut short, or one whose `send` was the end of the connection. -/
  none_cut : (∀ reply w, s.stage ≠ .answering reply w) →
    (s.stage = .returned → ∀ result, turns.getLast? ≠ some (.send result)) →
    s.sent = echoed s.replies

theorem Stands.serves (h : Stands interlude payload (readsOf turns) s)
    (hended : s.stage = .returned →
      s.sent = echoed s.replies ∨ ∃ result, turns.getLast? = some (.send result)) :
    Serves interlude payload turns s := by
  cases h with
  | reading filled hstage hserve hsent =>
    have hnow := hserve []
    rw [List.append_nil, serve, List.append_nil] at hnow
    exact ⟨hnow ▸ List.prefix_rfl, fun _ => hnow.symm, hsent ▸ List.prefix_rfl, fun _ _ => hsent⟩
  | holding filled hstage hserve hsent =>
    have hnow := hserve []
    rw [List.append_nil] at hnow
    exact ⟨⟨_, hnow.symm⟩, fun hheld => absurd hstage (hheld filled), hsent ▸ List.prefix_rfl,
      fun _ _ => hsent⟩
  | answering reply w hstage hserve hgoing hwrite hsent =>
    have hnow := hserve []
    rw [List.append_nil, serve, List.append_nil] at hnow
    exact ⟨hnow ▸ List.prefix_rfl, fun _ => hnow.symm, ⟨_, hsent⟩,
      fun hwriting => absurd hstage (hwriting reply w)⟩
  | returned hstage hserve hsent =>
    refine ⟨hserve ▸ List.prefix_rfl, fun _ => hserve.symm, hsent, fun _ hlast => ?_⟩
    rcases hended hstage with hall | ⟨result, hresult⟩
    · exact hall
    · exact absurd hresult (hlast hstage result)

/-- Whatever the system calls of a connection return, its replies are those of the bytes that were
read, and the kernel accepts them in order, all of them but for one whose write has failed or is
under way. -/
theorem serve_refined (hrun : Transition.run (turn interlude payload) {} turns = some s) :
    Serves interlude payload turns s := by
  have hstands : Stands interlude payload (readsOf turns) s ∧ (s.stage = .returned →
      s.sent = echoed s.replies ∨ ∃ result, turns.getLast? = some (.send result)) := by
    refine Transition.run_history
      (P := fun past s => Stands interlude payload (readsOf past) s ∧ (s.stage = .returned →
        s.sent = echoed s.replies ∨ ∃ result, past.getLast? = some (.send result)))
      (fun past s t s' h hturn => ⟨?_, fun hreturned => ?_⟩) ?_ hrun
    · rw [readsOf_append_singleton]
      exact h.1.turn hturn
    · rw [List.getLast?_concat]
      exact (h.1.sent_of_returned hturn hreturned).imp_right fun ⟨result, hsend⟩ =>
        ⟨result, congrArg some hsend⟩
    · exact ⟨.reading [] rfl (fun more => rfl) rfl, nofun⟩
  exact hstands.1.serves hstands.2

/-- A payload of two bytes in two reads, its echo in two sends, and a read that fails. -/
def inParts : List Turn :=
  [.recv (.got "a".toList), .recv (.failed .eintr), .recv (.got "b".toList), .respond,
    .send (.wrote 1), .send (.failed .eintr), .send (.wrote 1), .recv (.failed .eagain)]

theorem serve_refined_in_parts :
    Serves (fun _ => {}) 2 inParts
      { stage := .returned, request := 1, replies := [⟨0, {}, "ab".toList⟩],
        sent := "ab".toList } := by
  have hrun : Transition.run (turn (fun _ => {}) 2) {} inParts =
      some
        { stage := .returned, request := 1, replies := [⟨0, {}, "ab".toList⟩],
          sent := "ab".toList } := by
    decide
  exact serve_refined hrun

end Refinement

/-! ## The replies to a stream -/

section Replies

variable {interlude : ℕ → Interlude} {payload request : ℕ} {filled stream first rest : Text}
  {reads : List Text}

/-- The replies to the payloads of a stream, of which the first one is a given request. -/
def repliesTo (interlude : ℕ → Interlude) (payload request : ℕ) (stream : Text) : List Reply :=
  (List.range (stream.length / payload)).flatMap fun i =>
    answer interlude payload (request + i) (stream.drop (i * payload))

/-- There is no reply to less than a payload. -/
theorem repliesTo_of_lt (h : stream.length < payload) :
    repliesTo interlude payload request stream = [] := by
  rw [repliesTo, Nat.div_eq_of_lt h]
  rfl

/-- A payload at the front of a stream is answered before the others. -/
theorem repliesTo_append (hpos : 0 < payload) (hfirst : first.length = payload) :
    repliesTo interlude payload request (first ++ rest) =
      answer interlude payload request first ++ repliesTo interlude payload (request + 1) rest := by
  have hnext (i : ℕ) : (first ++ rest).drop ((i + 1) * payload) = rest.drop (i * payload) := by
    rw [Nat.succ_mul, Nat.add_comm, ← hfirst, List.drop_length_add_append]
  have hanswer : answer interlude payload request (first ++ rest) =
      answer interlude payload request first := by
    rw [answer, answer, List.take_append_of_le_length hfirst.ge]
  rw [repliesTo, List.length_append, hfirst, Nat.add_div_left _ hpos, List.range_succ_eq_map,
    List.flatMap_cons, List.flatMap_map, repliesTo]
  simp only [hnext, Nat.zero_mul, List.drop_zero, Nat.add_zero, hanswer, Nat.succ_eq_add_one,
    Nat.add_assoc, Nat.add_comm 1]

/-- A stream of less than two payloads has one answer. -/
theorem repliesTo_of_lt_two (hlow : payload ≤ stream.length) (hhigh : stream.length < 2 * payload) :
    repliesTo interlude payload request stream = answer interlude payload request stream := by
  have hone : stream.length / payload = 1 := Nat.div_eq_of_lt_le (by omega) (by omega)
  rw [repliesTo, hone]
  simp

/-- Reads in step are answered payload by payload, whatever happens between a request and its
reply: each payload by itself, and held for as long as its own interlude says, but for those that
are dropped. -/
theorem serve_of_inStep (hpos : 1 ≤ payload) (hreads : ∀ got ∈ reads, got ≠ [])
    (hfilled : filled.length < payload)
    (hstep : InStep payload filled.length (reads.map List.length)) :
    serve interlude payload reads request filled =
      repliesTo interlude payload request (filled ++ reads.flatten) := by
  induction reads generalizing request filled with
  | nil =>
    rw [List.flatten_nil, List.append_nil, repliesTo_of_lt hfilled]
    rfl
  | cons got reads ih =>
    obtain ⟨hgot, hreads⟩ := List.forall_mem_cons.mp hreads
    rw [List.map_cons, InStep, ← List.length_append] at hstep
    rw [List.flatten_cons, ← List.append_assoc]
    split at hstep
    · next hshort =>
      rw [serve_cons_of_lt hgot hshort]
      exact ih hreads hshort hstep
    · next hfull =>
      obtain ⟨hends, hstep⟩ := hstep
      have hrest : serve interlude payload reads (request + 1) [] =
          repliesTo interlude payload (request + 1) reads.flatten := ih hreads hpos hstep
      rw [serve_cons_of_le hgot (not_lt.mp hfull), hrest]
      rcases hends with hends | hends
      · -- the read ends with the payload
        rw [repliesTo_append hpos hends]
      · -- no further payload follows
        rw [← List.length_flatten] at hends
        have hlong : payload ≤ (filled ++ got ++ reads.flatten).length := by
          rw [List.length_append]
          omega
        have hanswer : answer interlude payload request (filled ++ got ++ reads.flatten) =
            answer interlude payload request (filled ++ got) := by
          rw [answer, answer, List.take_append_of_le_length (not_lt.mp hfull)]
        rw [repliesTo_of_lt (by omega), List.append_nil,
          repliesTo_of_lt_two hlong (by rw [List.length_append]; exact hends), hanswer]

/-- Three payloads of two bytes, the second of which is dropped. -/
theorem serve_of_inStep_dropped :
    serve (fun i => if i = 1 then { knobs := { any := true, dropPpm := 1_000_000 } } else {}) 2
        ["a".toList, "b".toList, "cd".toList, "ef".toList] 0 [] =
      [⟨0, {}, "ab".toList⟩, ⟨0, {}, "ef".toList⟩] :=
  (serve_of_inStep (by decide) (by decide) (by decide) (by simp [InStep])).trans (by decide)

end Replies

end Null

end Dariyanaap
