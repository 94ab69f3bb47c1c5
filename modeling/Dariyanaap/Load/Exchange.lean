import Dariyanaap.Core.Units
import Dariyanaap.Load.Http

/-!
# One exchange

`perform_request` (`load/exchange.cpp`): write one request, read until the protocol calls the
buffer a whole reply, and classify what happened. The environment is a script: what the write
did, and what each `read_some` returned, with the clock at that moment. Reads the call did not
consume are handed on, because on one connection they are what the next call reads.

`performRequest_of_stop` is the specification the rest of the development uses: the call ends
at the first read boundary where the protocol's verdict is not `needMore`.
-/

namespace Dariyanaap

/-- What one exchange did. -/
inductive Outcome where
  | succeeded
  | rejected
  | timedOut
  | protocolError
  | readFailed
  | writeFailed
  deriving DecidableEq

namespace Outcome

/-- A whole reply arrived, whatever it said. -/
def replied : Outcome → Bool
  | .succeeded | .rejected => true
  | _ => false

/-- The outcomes that produce a duration. -/
def timed : Outcome → Bool
  | .succeeded | .rejected | .timedOut => true
  | _ => false

end Outcome

/-- The result of one exchange, with the defaults of the source. -/
structure Exchange where
  outcome : Outcome := .writeFailed
  elapsed : Nanos := 0
  connectionUsable : Bool := false
  deriving DecidableEq

/-- What `write_all` did. -/
inductive Write where
  | done
  | timedOut (now : Instant)
  | failed
  deriving DecidableEq

/-- What one `read_some` did, with the clock when it returned. No bytes means a clean close. -/
inductive Read where
  | bytes (chunk : Text) (now : Instant)
  | timedOut (now : Instant)
  | failed
  deriving DecidableEq

/-- What the environment does during one exchange. -/
structure Script where
  /-- The reading taken before the request is written. -/
  sent : Instant
  write : Write
  reads : List Read

/-- The clock readings of a read. -/
def Read.instants : Read → List Instant
  | .bytes _ now => [now]
  | .timedOut now => [now]
  | .failed => []

/-- The clock readings of a write. -/
def Write.instants : Write → List Instant
  | .timedOut now => [now]
  | _ => []

/-- The clock readings of an exchange, in order. -/
def Script.instants (s : Script) : List Instant :=
  s.sent :: (s.write.instants ++ s.reads.flatMap Read.instants)

/-- The read loop of `perform_request`. `none`: the script ends while the call still reads. -/
def readLoop (protocol : Protocol) (sent : Instant) :
    (received : Text) → List Read → Option (Exchange × List Read)
  | _, [] => none
  -- a timeout is timed: it says how long the request was waited for
  | _, .timedOut now :: rest =>
      some ({ outcome := .timedOut, elapsed := between sent now }, rest)
  | _, .failed :: rest => some ({ outcome := .readFailed }, rest)
  | received, .bytes chunk now :: rest =>
      -- the target closed the connection before its reply was whole
      if chunk = [] then some ({ outcome := .readFailed }, rest)
      else
        match protocol.consume (received ++ chunk) with
        | .needMore => readLoop protocol sent (received ++ chunk) rest
        | .malformed => some ({ outcome := .protocolError }, rest)
        | .complete =>
            some
              ({ outcome :=
                  if protocol.succeeded (received ++ chunk) then .succeeded else .rejected
                 elapsed := between sent now
                 connectionUsable := true }, rest)

/-- `perform_request`, with the reads it leaves unread. -/
def performRequest (protocol : Protocol) (script : Script) : Option (Exchange × List Read) :=
  match script.write with
  | .timedOut now =>
      some ({ outcome := .timedOut, elapsed := between script.sent now }, script.reads)
  | .failed => some ({ outcome := .writeFailed }, script.reads)
  | .done => readLoop protocol script.sent [] script.reads

/-! ## What an exchange can return -/

section Results

variable {protocol : Protocol} {sent : Instant} {received : Text} {reads rest : List Read}
  {script : Script} {e : Exchange}

theorem readLoop_usable (h : readLoop protocol sent received reads = some (e, rest)) :
    e.connectionUsable = e.outcome.replied := by
  induction reads generalizing received with
  | nil => cases h
  | cons read reads ih =>
    cases read with
    | timedOut now => cases h; rfl
    | failed => cases h; rfl
    | bytes chunk now =>
      simp only [readLoop] at h
      split at h
      · cases h; rfl
      · split at h
        · exact ih h
        · cases h; rfl
        · cases h
          dsimp only
          split <;> rfl

/-- The connection is usable exactly after a whole reply. -/
theorem performRequest_usable (h : performRequest protocol script = some (e, rest)) :
    e.connectionUsable = e.outcome.replied := by
  unfold performRequest at h
  split at h
  · cases h; rfl
  · cases h; rfl
  · exact readLoop_usable h

theorem readLoop_elapsed (h : readLoop protocol sent received reads = some (e, rest)) :
    e.elapsed = 0 ∨ ∃ now ∈ reads.flatMap Read.instants, e.elapsed = between sent now := by
  induction reads generalizing received with
  | nil => cases h
  | cons read reads ih =>
    cases read with
    | timedOut now =>
      cases h
      exact .inr ⟨now, by simp [Read.instants], rfl⟩
    | failed => cases h; exact .inl rfl
    | bytes chunk now =>
      simp only [readLoop] at h
      split at h
      · cases h; exact .inl rfl
      · split at h
        · rcases ih h with hzero | ⟨later, hmem, heq⟩
          · exact .inl hzero
          · exact .inr ⟨later, List.mem_append_right _ hmem, heq⟩
        · cases h; exact .inl rfl
        · cases h
          exact .inr ⟨now, by simp [Read.instants], rfl⟩

/-- Under a clock that never goes back, no exchange takes negative time. -/
theorem performRequest_elapsed_nonneg (h : performRequest protocol script = some (e, rest))
    (hclock : script.instants.Pairwise (· ≤ ·)) : 0 ≤ e.elapsed := by
  have hsent : ∀ now ∈ script.write.instants ++ script.reads.flatMap Read.instants,
      0 ≤ between script.sent now := fun now hnow =>
    sub_nonneg.mpr ((List.pairwise_cons.mp hclock).1 now hnow)
  unfold performRequest at h
  split at h
  · next now hwrite =>
    cases h
    exact hsent now (by simp [hwrite, Write.instants])
  · cases h; exact le_rfl
  · rcases readLoop_elapsed h with hzero | ⟨now, hmem, heq⟩
    · exact hzero.ge
    · exact heq ▸ hsent now (List.mem_append_right _ hmem)

end Results

/-! ## Where the read loop ends -/

/-- Data as it arrives: each chunk with the clock when the read that returned it did. -/
abbrev Arrivals : Type := List (Text × Instant)

namespace Arrivals

/-- The bytes of some arrivals. -/
def text (arrivals : Arrivals) : Text := arrivals.flatMap Prod.fst

/-- The reads that return some arrivals. -/
def reads (arrivals : Arrivals) : List Read := arrivals.map fun (chunk, now) => .bytes chunk now

@[simp]
theorem text_cons (c : Text × Instant) (cs : Arrivals) : text (c :: cs) = c.1 ++ text cs := rfl

@[simp]
theorem text_append (cs ds : Arrivals) : text (cs ++ ds) = text cs ++ text ds :=
  List.flatMap_append

/-- No read of data is empty: an empty read is a clean close. -/
def Nonempty (arrivals : Arrivals) : Prop := ∀ c ∈ arrivals, c.1 ≠ []

instance (arrivals : Arrivals) : Decidable arrivals.Nonempty :=
  inferInstanceAs (Decidable (∀ c ∈ arrivals, c.1 ≠ []))

end Arrivals

/-- What the read loop returns once the verdict on `buffer` is no longer `needMore`. -/
def judged (protocol : Protocol) (sent now : Instant) (buffer : Text) : Exchange :=
  if protocol.consume buffer = .complete then
    { outcome := if protocol.succeeded buffer then .succeeded else .rejected
      elapsed := between sent now
      connectionUsable := true }
  else { outcome := .protocolError }

section Stop

variable {protocol : Protocol} {sent : Instant} {received : Text} {before : Arrivals}
  {c : Text × Instant} {rest : List Read}

/-- While every boundary is asked to read on, the loop only accumulates. -/
theorem readLoop_advance (hne : before.Nonempty)
    (hmore : ∀ u v : Arrivals, u ++ v = before → u ≠ [] →
      protocol.consume (received ++ u.text) = .needMore) :
    readLoop protocol sent received (before.reads ++ rest) =
      readLoop protocol sent (received ++ before.text) rest := by
  induction before generalizing received with
  | nil => simp [Arrivals.reads, Arrivals.text]
  | cons d before ih =>
    have hd : d.1 ≠ [] := hne d List.mem_cons_self
    have hfirst := hmore [d] before rfl (List.cons_ne_nil d [])
    have hdtext : Arrivals.text [d] = d.1 := List.append_nil d.1
    rw [hdtext] at hfirst
    simp only [Arrivals.reads, List.cons_append, List.map_cons, readLoop, if_neg hd, hfirst,
      Arrivals.text_cons, ← List.append_assoc]
    refine ih (fun e he => hne e (List.mem_cons_of_mem _ he)) fun u v huv hu => ?_
    have := hmore (d :: u) v (by rw [List.cons_append, huv]) (List.cons_ne_nil d u)
    rwa [Arrivals.text_cons, ← List.append_assoc] at this

/-- The read loop ends at the first boundary whose buffer is judged, and leaves what arrived
later unread. -/
theorem readLoop_of_stop (hne : Arrivals.Nonempty (before ++ [c]))
    (hmore : ∀ u v : Arrivals, u ++ v = before → u ≠ [] →
      protocol.consume (received ++ u.text) = .needMore)
    (hstop : protocol.consume (received ++ (before ++ [c]).text) ≠ .needMore) :
    readLoop protocol sent received (Arrivals.reads (before ++ [c]) ++ rest) =
      some (judged protocol sent c.2 (received ++ (before ++ [c]).text), rest) := by
  have hc : c.1 ≠ [] := hne c (List.mem_append_right _ List.mem_cons_self)
  have hreads : Arrivals.reads (before ++ [c]) ++ rest =
      before.reads ++ .bytes c.1 c.2 :: rest := by
    simp [Arrivals.reads]
  have htext : (before ++ [c]).text = before.text ++ c.1 := by
    simp [Arrivals.text]
  rw [htext, ← List.append_assoc] at hstop ⊢
  -- up to `before` the loop only accumulates, and `c` ends it
  rw [hreads, readLoop_advance (fun d hd => hne d (List.mem_append_left _ hd)) hmore, readLoop,
    if_neg hc, judged]
  cases hverdict : protocol.consume (received ++ before.text ++ c.1) with
  | needMore => exact absurd hverdict hstop
  | complete => simp only [if_true]
  | malformed => simp only [reduceCtorEq, if_false]

/-- A boundary before the last one is one of the data before the last chunk. -/
theorem Arrivals.exists_rest {before u v : Arrivals} {c : Text × Instant}
    (huv : u ++ v = before ++ [c]) (hv : v ≠ []) : ∃ t, u ++ t = before := by
  rcases List.eq_nil_or_concat' v with rfl | ⟨t, d, rfl⟩
  · exact absurd rfl hv
  · rw [← List.append_assoc] at huv
    exact ⟨t, (List.append_inj' huv rfl).1⟩

/-- A boundary behind a first chunk that leaves more to read is the first one or lies in the rest
of the data. -/
theorem needMore_cons {d : Text × Instant} {arrivals u v : Arrivals}
    (hfirst : protocol.consume (received ++ d.1) = .needMore) (huv : u ++ v = d :: arrivals)
    (hu : u ≠ []) (hrest : ∀ t : Arrivals, t ++ v = arrivals → t ≠ [] →
      protocol.consume (received ++ d.1 ++ t.text) = .needMore) :
    protocol.consume (received ++ u.text) = .needMore := by
  rcases u with _ | ⟨d', u⟩
  · exact absurd rfl hu
  obtain ⟨rfl, hrest'⟩ := List.cons.inj huv
  rw [Arrivals.text_cons, ← List.append_assoc]
  rcases eq_or_ne u [] with rfl | hne
  · rw [Arrivals.text, List.flatMap_nil, List.append_nil]
    exact hfirst
  · exact hrest u hrest' hne

/-- Data whose last boundary is judged has a first such boundary. -/
theorem exists_stop {arrivals : Arrivals} (hne : arrivals ≠ [])
    (hend : protocol.consume (received ++ arrivals.text) ≠ .needMore) :
    ∃ (before : Arrivals) (c : Text × Instant) (after : Arrivals),
      before ++ c :: after = arrivals ∧
        (∀ u v : Arrivals, u ++ v = before → u ≠ [] →
          protocol.consume (received ++ u.text) = .needMore) ∧
        protocol.consume (received ++ Arrivals.text (before ++ [c])) ≠ .needMore := by
  induction arrivals generalizing received with
  | nil => exact absurd rfl hne
  | cons d arrivals ih =>
    have hdtext : Arrivals.text [d] = d.1 := List.append_nil d.1
    by_cases hfirst : protocol.consume (received ++ d.1) = .needMore
    · have hrest : arrivals ≠ [] := by
        rintro rfl
        exact hend (by rw [hdtext]; exact hfirst)
      rw [Arrivals.text_cons, ← List.append_assoc] at hend
      -- the rest is judged with the first chunk in the buffer
      obtain ⟨before, c, after, rfl, hmore, hstop⟩ := ih hrest hend
      refine ⟨d :: before, c, after, rfl, ?_, ?_⟩
      · intro u v huv hu
        exact needMore_cons hfirst huv hu fun t ht hne' => hmore t v ht hne'
      · rw [List.cons_append, Arrivals.text_cons, ← List.append_assoc]
        exact hstop
    -- the first chunk is judged already
    · refine ⟨[], d, arrivals, rfl, ?_, ?_⟩
      · intro u v huv hu
        exact absurd (List.append_eq_nil_iff.mp huv).1 hu
      · rw [List.nil_append, hdtext]
        exact hfirst

/-- A whole reply is a run of reads that ends at the first judged boundary, which is judged
complete. -/
theorem readLoop_replied {reads : List Read} {e : Exchange}
    (h : readLoop protocol sent received reads = some (e, rest)) (hreplied : e.outcome.replied) :
    ∃ arrivals : Arrivals, reads = arrivals.reads ++ rest ∧ arrivals.Nonempty ∧
      protocol.consume (received ++ arrivals.text) = .complete ∧
      (e.outcome = .succeeded ↔ protocol.succeeded (received ++ arrivals.text) = true) ∧
      ∀ u v : Arrivals, u ++ v = arrivals → u ≠ [] → v ≠ [] →
        protocol.consume (received ++ u.text) = .needMore := by
  induction reads generalizing received with
  | nil => cases h
  | cons read reads ih =>
    rcases read with ⟨chunk, now⟩ | now | _
    · rw [readLoop] at h
      by_cases hchunk : chunk = []
      · -- a clean close is no reply
        rw [if_pos hchunk] at h
        cases h
        cases hreplied
      rw [if_neg hchunk] at h
      split at h
      · next hmore =>
        -- what the loop goes on to read, with this chunk in front
        obtain ⟨arrivals, hreads, hne, hcomplete, hverdict, hinside⟩ := ih h
        refine ⟨(chunk, now) :: arrivals, by rw [hreads]; rfl, ?_, ?_, ?_, ?_⟩
        · exact List.forall_mem_cons.mpr ⟨hchunk, hne⟩
        · rwa [Arrivals.text_cons, ← List.append_assoc]
        · rwa [Arrivals.text_cons, ← List.append_assoc]
        · intro u v huv hu hv
          exact needMore_cons hmore huv hu fun t ht hne' => hinside t v ht hne' hv
      · cases h
        cases hreplied
      · next hcomplete =>
        -- the loop ends on this chunk, so there is no boundary inside
        obtain ⟨rfl, rfl⟩ := Prod.mk.inj (Option.some.inj h)
        have htext : Arrivals.text [(chunk, now)] = chunk := List.append_nil chunk
        refine ⟨[(chunk, now)], rfl, ?_, by rwa [htext], ?_, ?_⟩
        · exact List.forall_mem_singleton.mpr hchunk
        · rw [htext]
          cases protocol.succeeded (received ++ chunk) <;> simp
        · intro u v huv hu hv
          rcases List.append_eq_singleton_iff.mp huv with ⟨rfl, -⟩ | ⟨-, rfl⟩
          · exact absurd rfl hu
          · exact absurd rfl hv
    · cases h
      cases hreplied
    · cases h
      cases hreplied

end Stop

end Dariyanaap
