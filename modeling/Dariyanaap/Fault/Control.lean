import Dariyanaap.Fault.Command
import Dariyanaap.Library.Records

/-!
# The control socket

`serve` (`fault/control.cpp`): one connection of the control socket. The bytes of a read are
appended to a buffer, every whole line in the buffer is applied and answered, and what is left
waits for the next read. A command that throws is answered with its error.

What a session means is a relation between the lines of a stream and their replies, `Answered`,
which knows nothing of reads or buffers. `serve_segmentation` says that a connection answers the
ended lines of its stream, however the stream arrives.
-/

namespace Dariyanaap

namespace Fault

/-! ## One connection -/

/-- What `read_some` does: it returns bytes, none at the end of the stream, or it throws. -/
inductive Read where
  | got (bytes : Text)
  | failed
  deriving DecidableEq

/-- The locals of `serve`, the knobs it works on and what it has sent. -/
structure Connection where
  pending : Text := []
  knobs : Knobs
  /-- The replies, one for each `write_all` that returned. -/
  replies : List Text := []
  /-- Whether `serve` has returned. -/
  returned : Bool := false
  deriving DecidableEq

/-- A line without the carriage return at its end, if there is one. -/
def dropReturn (line : Text) : Text :=
  if line.getLast? = some '\r' then line.dropLast else line

/-- The reply to a line. The text of an error is read as a C string. -/
def answer (fl : Rounding) (line : Text) (k : Knobs) : Text × Knobs :=
  match (applyCommand fl line).run.run k with
  | (.ok reply, k) => (reply, k)
  | (.error e, k) => ("error: ".toList ++ e.what.takeWhile (· ≠ '\x00'), k)

variable (fl : Rounding) (writable : ℕ → Bool)

/-- The inner loop of `serve`. Every line takes its newline with it, so that the length of the
buffer is turns enough; the write of reply `n` returns if `writable n`. -/
def answerLines : (turns : ℕ) → Connection → Connection
  | 0, c => c
  | turns + 1, c =>
      match Text.find ['\n'] c.pending with
      | none => c
      | some newline =>
          let line := c.pending.take newline
          let (reply, knobs) := answer fl (dropReturn line) c.knobs
          let c := { c with pending := c.pending.drop (newline + 1), knobs := knobs }
          -- what was applied stays applied when its reply cannot be written
          if writable c.replies.length then
            answerLines turns { c with replies := c.replies ++ [reply ++ ['\n']] }
          else { c with returned := true }

/-- `serve`, as far as the reads go. -/
def serve : List Read → Connection → Connection
  | [], c => c
  | .failed :: _, c => { c with returned := true }
  | .got bytes :: reads, c =>
      if bytes = [] then { c with returned := true }
      else
        let c := { c with pending := c.pending ++ bytes }
        let c := answerLines fl writable c.pending.length c
        if c.returned then c else serve reads c

/-! ## What a session means -/

/-- The lines of a session, their replies, and the knobs before and after it. -/
inductive Answered (fl : Rounding) : Knobs → List Text → List Text → Knobs → Prop
  | nil (k : Knobs) : Answered fl k [] [] k
  | applied {k k' k'' : Knobs} {line reply : Text} {lines replies : List Text}
      (happlied : (applyCommand fl (dropReturn line)).run.run k = (.ok reply, k'))
      (hreply : '\n' ∉ reply) (hlater : Answered fl k' lines replies k'') :
      Answered fl k (line :: lines) ((reply ++ ['\n']) :: replies) k''
  /-- A line that fails is answered, and the session goes on. -/
  | failed {k k' k'' : Knobs} {line message : Text} {lines replies : List Text} {e : UsageError}
      (hfailed : (applyCommand fl (dropReturn line)).run.run k = (.error e, k'))
      (hmessage : message = e.what.takeWhile (· ≠ '\x00')) (hline : '\n' ∉ message)
      (hlater : Answered fl k' lines replies k'') :
      Answered fl k (line :: lines) (("error: ".toList ++ message ++ ['\n']) :: replies) k''

/-- The replies to some lines, and the knobs after them. -/
def answerAll : List Text → Knobs → List Text × Knobs
  | [], k => ([], k)
  | line :: lines, k =>
      let (reply, k) := answer fl (dropReturn line) k
      let (replies, k) := answerAll lines k
      ((reply ++ ['\n']) :: replies, k)

variable {fl writable}

theorem answerAll_cons (line : Text) (lines : List Text) (k : Knobs) :
    answerAll fl (line :: lines) k =
      (((answer fl (dropReturn line) k).1 ++ ['\n']) ::
          (answerAll fl lines (answer fl (dropReturn line) k).2).1,
        (answerAll fl lines (answer fl (dropReturn line) k).2).2) := rfl

theorem answerAll_append (lines later : List Text) (k : Knobs) :
    answerAll fl (lines ++ later) k =
      ((answerAll fl lines k).1 ++ (answerAll fl later (answerAll fl lines k).2).1,
        (answerAll fl later (answerAll fl lines k).2).2) := by
  induction lines generalizing k with
  | nil => rfl
  | cons line lines ih =>
    rw [List.cons_append, answerAll_cons, ih, answerAll_cons, List.cons_append]

/-! ## One line each -/

/-- No error of a computation is longer than a line, and its result satisfies `P`. -/
def Says {α : Type} (P : α → Prop) (m : Effect α) : Prop :=
  ∀ k, match (m.run.run k).1 with
    | .ok a => P a
    | .error e => '\n' ∉ e.what

namespace Says

variable {α β : Type} {P : α → Prop} {Q : β → Prop} {m : Effect α}

theorem pure {a : α} (h : P a) : Says P (Pure.pure a) := fun _ => h

theorem throw {e : UsageError} (h : '\n' ∉ e.what) : Says P (throw e) := fun _ => h

theorem bind {next : α → Effect β} (hm : Says P m) (hnext : ∀ a, P a → Says Q (next a)) :
    Says Q (m >>= next) := by
  intro k
  have hfirst := hm k
  rw [ExceptT.run_bind, StateT.run_bind]
  rcases hrun : m.run.run k with ⟨e | a, k'⟩
  · rw [hrun] at hfirst
    exact hfirst
  · rw [hrun] at hfirst
    exact hnext a hfirst k'

/-- The texts of a refusal do not depend on the arguments of the setter. -/
theorem notMem_refusal {s : Setter} {e : UsageError} (he : s.refusal = some e) :
    '\n' ∉ e.what := by
  cases s with
  | setLatency mean jitter =>
    simp only [Setter.refusal] at he
    split_ifs at he
    · obtain rfl := Option.some.inj he
      decide +kernel
    · obtain rfl := Option.some.inj he
      decide +kernel
  | setDropProbability probability =>
    simp only [Setter.refusal] at he
    split_ifs at he
    obtain rfl := Option.some.inj he
    decide +kernel
  | setHangForever hanging => cases he
  | partition a b =>
    simp only [Setter.refusal] at he
    split_ifs at he
    · obtain rfl := Option.some.inj he
      decide +kernel
    · obtain rfl := Option.some.inj he
      decide +kernel
  | heal a b => cases he
  | clear => cases he

theorem setter (fl : Rounding) (s : Setter) : Says (fun _ => True) (s.call fl) := by
  intro k
  rw [s.call_eq fl k]
  rcases h : s.refusal with _ | e
  · trivial
  · exact notMem_refusal h

theorem get : Says (fun _ => True) (MonadState.get : Effect Knobs) := fun _ => trivial

theorem setIdentity (name : Text) : Says (fun _ => True) (Fault.setIdentity name) :=
  fun _ => trivial

theorem branch {p : Prop} [Decidable p] {yes no : Effect α} (hyes : Says P yes)
    (hno : Says P no) : Says P (if p then yes else no) := by
  by_cases hp : p
  · rwa [if_pos hp]
  · rwa [if_neg hp]

theorem expect {verb : Text} (hverb : '\n' ∉ verb) (words : List Text) {count : ℕ}
    (hcount : '\n' ∉ (toString count).toList) :
    Says (fun _ => True) (Fault.expect verb words count) := by
  unfold Fault.expect
  refine branch (pure trivial) (throw ?_)
  simp only [List.mem_append, not_or]
  exact ⟨⟨⟨hverb, by decide⟩, hcount⟩, by decide⟩

theorem asMillis {text what : Text} (htext : '\n' ∉ text) (hwhat : '\n' ∉ what) :
    Says (fun _ => True) (Fault.asMillis text what) := by
  unfold Fault.asMillis
  split
  · exact pure trivial
  · refine throw ?_
    simp only [List.mem_append, not_or]
    exact ⟨⟨⟨hwhat, by decide⟩, htext⟩, by decide⟩

theorem asProbability (fl : Rounding) {text what : Text} (htext : '\n' ∉ text)
    (hwhat : '\n' ∉ what) : Says (fun _ => True) (Fault.asProbability fl text what) := by
  unfold Fault.asProbability
  split
  · exact pure trivial
  · refine throw ?_
    simp only [List.mem_append, not_or]
    exact ⟨⟨⟨hwhat, by decide⟩, htext⟩, by decide⟩

end Says

/-- The words of a text are made of its characters. -/
theorem notMem_splitOn {separator c : Char} {text : Text} (h : c ∉ text) :
    ∀ word ∈ splitOn text separator, c ∉ word := by
  intro word hword hc
  rw [splitOn_eq_filter] at hword
  exact h (mem_of_mem_splitOn (List.mem_of_mem_filter hword) c hc).1

/-- The answer and the error of a command are one line if the command is. -/
theorem says_applyCommand (fl : Rounding) {line : Text} (hline : '\n' ∉ line) :
    Says (fun reply => '\n' ∉ reply) (applyCommand fl line) := by
  have hwords : ∀ word ∈ splitOn line ' ', '\n' ∉ word := notMem_splitOn hline
  unfold applyCommand
  generalize splitOn line ' ' = words at hwords ⊢
  rcases words with _ | ⟨verb, args⟩
  · exact .throw (by decide)
  have hverb : '\n' ∉ verb := hwords verb List.mem_cons_self
  have harg : ∀ i, '\n' ∉ args.getD i [] := by
    intro i
    rw [List.getD_eq_getElem?_getD]
    rcases h : args[i]? with _ | arg
    · exact List.not_mem_nil
    · exact hwords arg (List.mem_cons_of_mem _ (List.mem_of_getElem? h))
  have hok : ∀ s : Setter, Says (fun reply => '\n' ∉ reply)
      (s.call fl >>= fun _ => pure "ok".toList) := fun s =>
    .bind (.setter fl s) fun _ _ => .pure (by decide)
  -- the verbs in the order of the source
  refine .branch ?latency <| .branch ?drop <| .branch ?hang <| .branch ?identity <|
    .branch ?partition <| .branch ?heal <| .branch ?clear <| .branch ?status ?unknown
  case latency =>
    refine .bind (.expect hverb _ (by decide)) fun _ _ => ?_
    refine .bind (.asMillis (harg 0) (by decide)) fun mean _ => ?_
    refine .bind (.asMillis (harg 1) (by decide)) fun jitter _ => ?_
    exact hok (.setLatency mean jitter)
  case drop =>
    refine .bind (.expect hverb _ (by decide)) fun _ _ => ?_
    refine .bind (.asProbability fl (harg 0) (by decide)) fun probability _ => ?_
    exact hok (.setDropProbability probability)
  case hang =>
    exact .bind (.expect hverb _ (by decide)) fun _ _ => hok (.setHangForever _)
  case identity =>
    refine .bind (.expect hverb _ (by decide)) fun _ _ => ?_
    exact .bind (.setIdentity _) fun _ _ => .pure (by decide)
  case partition =>
    exact .bind (.expect hverb _ (by decide)) fun _ _ => hok (.partition _ _)
  case heal =>
    exact .bind (.expect hverb _ (by decide)) fun _ _ => hok (.heal _ _)
  case clear =>
    exact .bind (.expect hverb _ (by decide)) fun _ _ => hok .clear
  case status =>
    refine .bind (.expect hverb _ (by decide)) fun _ _ => .bind .get fun k _ => .pure ?_
    split
    · decide
    · decide
  case unknown =>
    -- the message quotes the verb between two texts of its own
    refine .throw ?_
    simp only [List.mem_append, not_or]
    exact ⟨⟨by decide, hverb⟩, by decide +kernel⟩

theorem notMem_dropReturn {c : Char} {line : Text} (h : c ∉ line) : c ∉ dropReturn line := by
  rw [dropReturn]
  split
  · exact fun hc => h (List.mem_of_mem_dropLast hc)
  · exact h

/-- The replies to some lines answer them. -/
theorem answered_answerAll {lines : List Text} (hlines : ∀ line ∈ lines, '\n' ∉ line) (k : Knobs) :
    Answered fl k lines (answerAll fl lines k).1 (answerAll fl lines k).2 := by
  induction lines generalizing k with
  | nil => exact .nil k
  | cons line lines ih =>
    obtain ⟨hline, hlater⟩ := List.forall_mem_cons.mp hlines
    have hsays := says_applyCommand fl (notMem_dropReturn (c := '\n') hline) k
    rw [answerAll_cons]
    rcases hrun : (applyCommand fl (dropReturn line)).run.run k with ⟨e | reply, k'⟩
    · rw [hrun] at hsays
      have hanswer : answer fl (dropReturn line) k =
          ("error: ".toList ++ e.what.takeWhile (· ≠ '\x00'), k') := by
        rw [answer, hrun]
      rw [hanswer]
      refine .failed hrun rfl (fun hmem => ?_) (ih hlater k')
      exact hsays (List.takeWhile_subset _ hmem)
    · rw [hrun] at hsays
      have hanswer : answer fl (dropReturn line) k = (reply, k') := by
        rw [answer, hrun]
      rw [hanswer]
      exact .applied hrun hsays (ih hlater k')

/-- A reply is one line. -/
theorem Answered.oneLine {k k' : Knobs} {lines replies : List Text}
    (h : Answered fl k lines replies k') :
    ∀ reply ∈ replies, ∃ text, reply = text ++ ['\n'] ∧ '\n' ∉ text := by
  induction h with
  | nil k => exact List.forall_mem_nil _
  | applied happlied hreply hlater ih =>
    exact List.forall_mem_cons.mpr ⟨⟨_, rfl, hreply⟩, ih⟩
  | failed hfailed hmessage hline hlater ih =>
    refine List.forall_mem_cons.mpr ⟨⟨_, rfl, ?_⟩, ih⟩
    rw [List.mem_append, not_or]
    exact ⟨by decide, hline⟩

/-! ## A connection and its stream -/

section Stream

variable (fl) (hwrites : ∀ n, writable n = true)

include hwrites

/-- The inner loop answers the lines that have ended and keeps the rest. -/
theorem answerLines_eq (turns : ℕ) (c : Connection) (hturns : c.pending.length ≤ turns) :
    answerLines fl writable turns c =
      { c with
        pending := Records.unended '\n' c.pending
        knobs := (answerAll fl (Records.ended '\n' c.pending) c.knobs).2
        replies := c.replies ++ (answerAll fl (Records.ended '\n' c.pending) c.knobs).1 } := by
  obtain ⟨pending, knobs, replies, returned⟩ := c
  induction pending using Records.record_induction '\n' generalizing turns knobs replies with
  | rest pending hrest =>
    have hidle : answerLines fl writable turns ⟨pending, knobs, replies, returned⟩ =
        ⟨pending, knobs, replies, returned⟩ := by
      cases turns with
      | zero => rfl
      | succ turns =>
        rw [answerLines]
        simp only [Text.find_eq_none_of_notMem hrest]
    rw [hidle]
    simp only [Records.ended_of_notMem hrest, Records.unended_of_notMem hrest, answerAll,
      List.append_nil]
  | record u w hu ih =>
    dsimp only at hturns ⊢
    rw [List.length_append, List.length_cons] at hturns
    -- the newline of this line pays for its turn
    obtain ⟨turns, rfl⟩ : ∃ n, turns = n + 1 := ⟨turns - 1, by omega⟩
    have hfind : Text.find ['\n'] (u ++ '\n' :: w) = some u.length := by
      have hfirst : Text.find ['\n'] ('\n' :: w) = some 0 := Text.find_self_append ['\n'] w
      rw [Text.find_append_of_notMem hu, hfirst, Option.map_some, Nat.zero_add]
    rw [answerLines]
    simp only [hfind, hwrites, if_true]
    have hdrop : (u ++ '\n' :: w).drop (u.length + 1) = w := by
      rw [← List.drop_drop, List.drop_left]
      rfl
    rw [List.take_left, hdrop, ih turns _ _ (by lia), Records.ended_append_cons hu,
      Records.unended_append_cons hu, answerAll_cons, List.append_assoc]
    rfl

/-- A connection answers the lines its stream has ended so far. -/
theorem serve_got (reads : List Text) (hreads : ∀ bytes ∈ reads, bytes ≠ []) (later : List Read)
    (c : Connection) (hopen : c.returned = false) (hpending : '\n' ∉ c.pending) :
    serve fl writable (reads.map .got ++ later) c =
      serve fl writable later
        { c with
          pending := Records.unended '\n' (c.pending ++ reads.flatten)
          knobs := (answerAll fl (Records.ended '\n' (c.pending ++ reads.flatten)) c.knobs).2
          replies := c.replies ++
            (answerAll fl (Records.ended '\n' (c.pending ++ reads.flatten)) c.knobs).1 } := by
  induction reads generalizing c with
  | nil =>
    rw [List.flatten_nil, List.append_nil, Records.ended_of_notMem hpending,
      Records.unended_of_notMem hpending, answerAll, List.append_nil]
    rfl
  | cons bytes reads ih =>
    obtain ⟨hbytes, hrest⟩ := List.forall_mem_cons.mp hreads
    rw [List.map_cons, List.cons_append, serve, if_neg hbytes]
    dsimp only
    have hlines :=
      answerLines_eq fl hwrites _ { c with pending := c.pending ++ bytes } le_rfl
    -- no write failed, so the connection reads on
    rw [hlines, if_neg (by simp [hopen])]
    refine (ih hrest _ ?_ ?_).trans ?_
    · exact hopen
    · exact Records.notMem_unended _
    -- what was left of the first read begins the rest of the stream
    rw [List.flatten_cons, ← List.append_assoc, Records.ended_append (c.pending ++ bytes),
      Records.unended_append (c.pending ++ bytes), answerAll_append, List.append_assoc]

end Stream

/-- A connection whose writes return answers the ended lines of its stream in order and applies
nothing else, however the stream is split into reads and however it ends. -/
theorem serve_segmentation (fl : Rounding) (writable : ℕ → Bool)
    (hwrites : ∀ n, writable n = true) (k : Knobs) (stream : Text) :
    ∃ replies k', Answered fl k (Records.ended '\n' stream) replies k' ∧
      (∀ reply ∈ replies, ∃ text, reply = text ++ ['\n'] ∧ '\n' ∉ text) ∧
      ∀ reads : List Text, (∀ bytes ∈ reads, bytes ≠ []) → reads.flatten = stream →
        serve fl writable (reads.map .got) { knobs := k } =
            ⟨Records.unended '\n' stream, k', replies, false⟩ ∧
          ∀ last, last = .got [] ∨ last = .failed →
            serve fl writable (reads.map .got ++ [last]) { knobs := k } =
              ⟨Records.unended '\n' stream, k', replies, true⟩ := by
  have hanswered : Answered fl k (Records.ended '\n' stream) _ _ :=
    answered_answerAll (Records.notMem_of_mem_ended stream) k
  refine ⟨_, _, hanswered, hanswered.oneLine, fun reads hreads hstream => ?_⟩
  have hserve := fun later => serve_got fl hwrites reads hreads later { knobs := k } rfl
    List.not_mem_nil
  subst hstream
  constructor
  · rw [← List.append_nil (reads.map Read.got), hserve]
    rfl
  · -- the end of the stream and a read that throws leave the same behind
    rintro last (rfl | rfl)
    · rw [hserve]
      rfl
    · rw [hserve]
      rfl

/-- Lines that begin in one read and end in another, one that fails, and one that never ends. -/
theorem serve_segmentation_four_reads :
    ∃ replies k',
      Answered .exact {} ["drop 1.0\r".toList, "nonsense".toList, "status".toList] replies k' ∧
      serve .exact (fun _ => true)
          (["drop 1".toList, ".0\r".toList, "\nnonsense\nsta".toList, "tus\nclear".toList].map .got)
          { knobs := {} } = ⟨"clear".toList, k', replies, false⟩ ∧
      k'.dropPpm = 1_000_000 ∧ replies = ["ok\n".toList,
        ("error: unknown command \"nonsense\"; try latency, drop, hang, identity, partition, " ++
          "heal, clear, status\n").toList, "faults active\n".toList] := by
  obtain ⟨replies, k', hanswered, -, hserve⟩ := serve_segmentation .exact (fun _ => true)
    (fun _ => rfl) {} "drop 1.0\r\nnonsense\nstatus\nclear".toList
  obtain ⟨hopen, -⟩ := hserve
    ["drop 1".toList, ".0\r".toList, "\nnonsense\nsta".toList, "tus\nclear".toList] (by decide) rfl
  refine ⟨replies, k', hanswered, hopen, ?_, ?_⟩
  · rw [show k' = _ from (congrArg Connection.knobs hopen).symm]
    decide +kernel
  · rw [show replies = _ from (congrArg Connection.replies hopen).symm]
    decide +kernel

end Fault

end Dariyanaap
