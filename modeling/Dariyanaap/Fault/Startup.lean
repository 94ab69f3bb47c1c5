import Dariyanaap.Fault.Control
import Dariyanaap.Fault.Environment

/-!
# Faults at startup

`load_from_env` and `apply_command` (`fault/knobs.cpp`) are two ways to set the same knobs, each
with a reader of its own. They agree: an environment says the same as the lines of a control
session (`script`), and leaves the knobs as a session of these lines does that is broken off at
the first refusal (`loadFromEnv_session`). Only the texts of the errors differ, since they name
what was read.
-/

namespace Dariyanaap

namespace Fault

open AllOrNothing

/-- A line of a control session. -/
def commandLine (verb : Text) (args : List Text) : Text := [' '].intercalate (verb :: args)

/-- The lines that say the same as an environment. -/
def script (env : Environment) : List Text :=
  (fromEnv env.identity).toList.flatMap (fun name => [commandLine "identity".toList [name]]) ++
    ((if (fromEnv env.latencyMs).isSome ∨ (fromEnv env.jitterMs).isSome then
        [commandLine "latency".toList
          [(fromEnv env.latencyMs).getD "0".toList, (fromEnv env.jitterMs).getD "0".toList]]
      else []) ++
      ((fromEnv env.drop).toList.flatMap (fun drop => [commandLine "drop".toList [drop]]) ++
        ((fromEnv env.hang).toList.flatMap (fun hang => [commandLine "hang".toList [hang]]) ++
          (fromEnv env.partition).toList.flatMap fun cuts =>
            (splitOn cuts ',').map fun cut => commandLine "partition".toList (splitOn cut ':'))))

/-! ## The same but for the errors -/

/-- Two computations leave the same knobs, and either return the same or throw both. -/
def Agrees {α : Type} (m n : Effect α) : Prop :=
  ∀ k, (m.run.run k).2 = (n.run.run k).2 ∧ (m.run.run k).1.toOption = (n.run.run k).1.toOption

namespace Agrees

variable {α β : Type} {m n : Effect α} {next next' : α → Effect β}

theorem refl (m : Effect α) : Agrees m m := fun _ => ⟨rfl, rfl⟩

theorem throw (e e' : UsageError) : Agrees (throw e : Effect α) (throw e') := fun _ => ⟨rfl, rfl⟩

theorem bind (hm : Agrees m n) (hnext : ∀ a, Agrees (next a) (next' a)) :
    Agrees (m >>= next) (n >>= next') := by
  intro k
  obtain ⟨hknobs, hresult⟩ := hm k
  rw [run_bind, run_bind]
  rcases hrun : m.run.run k with ⟨e | a, k'⟩
  · rcases hrun' : n.run.run k with ⟨e' | a', k''⟩
    · rw [hrun, hrun'] at hknobs
      exact ⟨hknobs, rfl⟩
    · rw [hrun, hrun'] at hresult
      cases hresult
  · rcases hrun' : n.run.run k with ⟨e' | a', k''⟩
    · rw [hrun, hrun'] at hresult
      cases hresult
    · rw [hrun, hrun'] at hknobs hresult
      obtain rfl : k' = k'' := hknobs
      obtain rfl : a = a' := Option.some.inj hresult
      exact hnext a k'

theorem asMillis (text what what' : Text) :
    Agrees (Fault.asMillis text what) (Fault.asMillis text what') := by
  rw [Fault.asMillis, Fault.asMillis]
  split
  · exact .refl _
  · exact .throw _ _

theorem asProbability (fl : Rounding) (text what what' : Text) :
    Agrees (Fault.asProbability fl text what) (Fault.asProbability fl text what') := by
  rw [Fault.asProbability, Fault.asProbability]
  split
  · exact .refl _
  · exact .throw _ _

end Agrees

/-! ## Lines and what they do -/

section Lines

variable (fl : Rounding) {verb : Text} {args : List Text}

/-- A word that a line can carry. -/
def Word (word : Text) : Prop := word ≠ [] ∧ ∀ c ∈ word, c ≠ ' ' ∧ c ≠ '\n' ∧ c ≠ '\r'

-- by the characters of the word: the instance that is found otherwise goes through all there are
instance (word : Text) : Decidable (Word word) :=
  @instDecidableAnd _ _ _ (List.decidableBAll _ word)

/-- A line is split into its words. -/
theorem splitOn_commandLine (hverb : Word verb) (hargs : ∀ arg ∈ args, Word arg) :
    splitOn (commandLine verb args) ' ' = verb :: args := by
  have hwords : ∀ word ∈ verb :: args, Word word := List.forall_mem_cons.mpr ⟨hverb, hargs⟩
  have hsplit : (commandLine verb args).splitOn ' ' = verb :: args :=
    List.splitOn_intercalate ' ' (fun word hword hspace => ((hwords word hword).2 _ hspace).1 rfl)
      (List.cons_ne_nil _ _)
  rw [splitOn_eq_of_notMem, hsplit]
  rw [hsplit]
  exact fun hmem => (hwords [] hmem).1 rfl

/-- A line holds what its words hold, and spaces. -/
theorem notMem_commandLine {c : Char} (hc : c ≠ ' ') (hverb : c ∉ verb)
    (hargs : ∀ arg ∈ args, c ∉ arg) : c ∉ commandLine verb args := by
  rw [commandLine]
  induction args generalizing verb with
  | nil => rwa [List.intercalate_singleton]
  | cons arg args ih =>
    obtain ⟨harg, hlater⟩ := List.forall_mem_cons.mp hargs
    rw [List.intercalate_cons_cons, List.mem_append, List.mem_append, List.mem_singleton, not_or,
      not_or]
    exact ⟨⟨hverb, hc⟩, ih harg hlater⟩

/-- A command with the right number of arguments goes on. -/
theorem expect_eq {words : List Text} {count : ℕ} (hcount : words.length = count + 1) :
    expect verb words count = pure () := if_pos hcount

/-- A line that does what `m` does, and says so. -/
def Does (line : Text) (m : Effect Unit) : Prop :=
  Agrees (applyCommand fl line) (m >>= fun _ => pure "ok".toList)

theorem does_identity {name : Text} (hname : Word name) :
    Does fl (commandLine "identity".toList [name]) (setIdentity name) := by
  rw [Does, applyCommand,
    splitOn_commandLine (by decide) (List.forall_mem_singleton.mpr hname)]
  dsimp only
  rw [if_neg (by decide), if_neg (by decide), if_neg (by decide), if_pos rfl, expect_eq rfl]
  exact .refl _

/-- A latency, with another way to read its durations. -/
theorem does_latency {mean jitter : Text} (hmean : Word mean) (hjitter : Word jitter)
    {m n : Effect Millis} (hm : Agrees (asMillis mean "latency".toList) m)
    (hn : Agrees (asMillis jitter "jitter".toList) n) :
    Does fl (commandLine "latency".toList [mean, jitter]) (do
      let mean ← m
      let jitter ← n
      setLatency mean jitter) := by
  rw [Does, applyCommand, splitOn_commandLine (by decide)
    (List.forall_mem_cons.mpr ⟨hmean, List.forall_mem_singleton.mpr hjitter⟩)]
  dsimp only
  rw [if_pos rfl, expect_eq rfl, pure_bind, bind_assoc]
  refine .bind hm fun mean => ?_
  rw [bind_assoc]
  exact .bind hn fun jitter => .refl _

theorem does_drop {drop : Text} (hdrop : Word drop) (what : Text) :
    Does fl (commandLine "drop".toList [drop]) (do
      let probability ← asProbability fl drop what
      setDropProbability fl probability) := by
  rw [Does, applyCommand,
    splitOn_commandLine (by decide) (List.forall_mem_singleton.mpr hdrop)]
  dsimp only
  rw [if_neg (by decide), if_pos rfl, expect_eq rfl, pure_bind, bind_assoc]
  exact .bind (.asProbability fl _ _ _) fun probability => .refl _

theorem does_hang {hang : Text} (hhang : Word hang) :
    Does fl (commandLine "hang".toList [hang]) (setHangForever (saysYes hang)) := by
  rw [Does, applyCommand,
    splitOn_commandLine (by decide) (List.forall_mem_singleton.mpr hhang)]
  dsimp only
  rw [if_neg (by decide), if_neg (by decide), if_pos rfl, expect_eq rfl]
  exact .refl _

/-- A partition is refused where `load_from_env` refuses it: unless it has two names. -/
theorem does_partition {cut : Text} (hnames : ∀ name ∈ splitOn cut ':', Word name) :
    Does fl (commandLine "partition".toList (splitOn cut ':')) (applyCut cut) := by
  rw [Does, applyCommand, splitOn_commandLine (by decide) hnames, applyCut]
  dsimp only
  rw [if_neg (by decide), if_neg (by decide), if_neg (by decide), if_neg (by decide), if_pos rfl]
  rcases splitOn cut ':' with _ | ⟨a, _ | ⟨b, _ | ⟨extra, rest⟩⟩⟩
  · exact fun _ => ⟨rfl, rfl⟩
  · exact fun _ => ⟨rfl, rfl⟩
  · rw [expect_eq rfl]
    exact .refl _
  · rw [expect, if_neg (by simp)]
    exact fun _ => ⟨rfl, rfl⟩

end Lines

/-! ## Sessions that break off -/

section Sessions

variable (fl : Rounding)

/-- A line that `serve` reads as it was sent. -/
def OneLine (line : Text) : Prop := '\n' ∉ line ∧ '\r' ∉ line

/-- A session of some lines, however they arrive, and what it leaves. -/
def Session (lines : List Text) (k : Knobs) (replies : List Text) (k' : Knobs) : Prop :=
  ∀ reads : List Text, (∀ bytes ∈ reads, bytes ≠ []) →
    reads.flatten = lines.flatMap (· ++ ['\n']) →
    serve fl (fun _ => true) (reads.map .got) { knobs := k } = ⟨[], k', replies, false⟩

/-- The lines before the first that `m` refuses, and from it on. -/
structure BrokenOff (lines done rest : List Text) (k k' : Knobs) (result : Except UsageError Unit) :
    Prop where
  lines : lines = done ++ rest
  /-- What was done was answered so, -/
  done : answerAll fl done k = (done.map fun _ => "ok\n".toList, k')
  /-- all was done if nothing was refused, -/
  ok (h : result = .ok ()) : rest = []
  /-- and what was refused is answered with an error and changes nothing. -/
  error {e : UsageError} (h : result = .error e) : ∃ line later message, rest = line :: later ∧
    answerAll fl [line] k' = (["error: ".toList ++ message ++ ['\n']], k')

/-- A computation that does what some lines do, up to the first that is refused. -/
structure Follows (lines : List Text) (m : Effect Unit) : Prop where
  oneLine : ∀ line ∈ lines, OneLine line
  brokenOff (k : Knobs) :
    ∃ done rest, BrokenOff fl lines done rest k (m.run.run k).2 (m.run.run k).1

variable {fl} {lines lines' : List Text} {m m' : Effect Unit}

namespace Follows

theorem nil : Follows fl [] (pure ()) :=
  ⟨List.forall_mem_nil _, fun _ => ⟨[], [], rfl, rfl, fun _ => rfl, nofun⟩⟩

/-- One line. -/
theorem one {line : Text} (hline : OneLine line) (h : Does fl line m) : Follows fl [line] m := by
  refine ⟨List.forall_mem_singleton.mpr hline, fun k => ?_⟩
  have hreturn : dropReturn line = line :=
    if_neg fun hlast => hline.2 (List.mem_of_getLast? hlast)
  obtain ⟨hknobs, hresult⟩ := h k
  rw [run_bind] at hknobs hresult
  have hends := applyCommand_ends fl line k
  rcases hrun : (applyCommand fl line).run.run k with ⟨e | reply, k'⟩
  · -- the command is refused, and so is `m`
    rw [hrun] at hknobs hresult hends
    obtain rfl : k' = k := hends
    rcases hm : m.run.run k' with ⟨e' | u, k''⟩
    · rw [hm] at hknobs
      obtain rfl : k' = k'' := hknobs
      refine ⟨[], [line], rfl, rfl, (fun hok => by cases hok), fun _ =>
        ⟨line, [], e.what.takeWhile (· ≠ '\x00'), rfl, ?_⟩⟩
      rw [answerAll_cons, hreturn, answer, hrun]
      rfl
    · rw [hm] at hresult
      cases hresult
  · rw [hrun] at hknobs hresult
    rcases hm : m.run.run k with ⟨e' | u, k''⟩
    · rw [hm] at hresult
      cases hresult
    · rw [hm] at hknobs hresult
      obtain rfl : k' = k'' := hknobs
      obtain rfl : reply = "ok".toList := Option.some.inj hresult
      refine ⟨[line], [], rfl, ?_, fun _ => rfl, fun hthrew => by cases hthrew⟩
      rw [answerAll_cons, hreturn, answer, hrun]
      rfl

/-- Some lines, and others behind them. -/
theorem append (h : Follows fl lines m) (h' : Follows fl lines' m') :
    Follows fl (lines ++ lines') (do m; m') := by
  refine ⟨List.forall_mem_append.mpr ⟨h.oneLine, h'.oneLine⟩, fun k => ?_⟩
  obtain ⟨done, rest, hfirst⟩ := h.brokenOff k
  rw [run_bind]
  rcases hm : m.run.run k with ⟨e | u, k'⟩
  · -- the first lines break off, and nothing behind them is done
    rw [hm] at hfirst
    refine ⟨done, rest ++ lines', ?_, hfirst.done, nofun, fun _ => ?_⟩
    · rw [hfirst.lines, List.append_assoc]
    · obtain ⟨line, later, message, rfl, hanswer⟩ := hfirst.error rfl
      exact ⟨line, later ++ lines', message, rfl, hanswer⟩
  · rw [hm] at hfirst
    obtain ⟨done', rest', hlater⟩ := h'.brokenOff k'
    refine ⟨done ++ done', rest', ?_, ?_, hlater.ok, hlater.error⟩
    · rw [hfirst.lines, hfirst.ok rfl, hlater.lines, List.append_nil, List.append_assoc]
    · rw [answerAll_append, hfirst.done, hlater.done, List.map_append]

/-- The line of a variable that may be set. -/
theorem ifSet {value : Option Text} {use : Text → Effect Unit} {line : Text → List Text}
    (h : ∀ text, fromEnv value = some text → Follows fl (line text) (use text)) :
    Follows fl ((fromEnv value).toList.flatMap line) (Fault.ifSet value use) := by
  rw [Fault.ifSet]
  cases hvalue : fromEnv value with
  | none => exact .nil
  | some text =>
    rw [Option.toList_some, List.flatMap_singleton]
    exact h text hvalue

end Follows

/-- What `answerAll` says of lines is what a session of them does. -/
theorem Session.of_answerAll {k k' : Knobs} {replies : List Text}
    (hlines : ∀ line ∈ lines, '\n' ∉ line) (h : answerAll fl lines k = (replies, k')) :
    Session fl lines k replies k' := by
  intro reads hreads hstream
  have hwrites : ∀ n, (fun _ : ℕ => true) n = true := fun _ => rfl
  have hserve := serve_got fl hwrites reads hreads [] { knobs := k } rfl List.not_mem_nil
  rw [List.append_nil] at hserve
  rw [hserve, hstream]
  simp only [List.nil_append, Records.ended_flatMap hlines, Records.unended_flatMap hlines, h]
  rfl

end Sessions

/-! ## An environment and its script -/

section Scripts

variable {fl : Rounding} {verb : Text} {args : List Text}

/-- The words of a line make one line. -/
theorem oneLine_commandLine (hverb : Word verb) (hargs : ∀ arg ∈ args, Word arg) :
    OneLine (commandLine verb args) :=
  ⟨notMem_commandLine (by decide) (fun h => (hverb.2 _ h).2.1 rfl)
      fun arg harg h => ((hargs arg harg).2 _ h).2.1 rfl,
    notMem_commandLine (by decide) (fun h => (hverb.2 _ h).2.2 rfl)
      fun arg harg h => ((hargs arg harg).2 _ h).2.2 rfl⟩

/-- What stands between separators can be carried by a line if the text can. -/
theorem word_of_mem_splitOn {text piece : Text} {separator : Char}
    (htext : ∀ c ∈ text, c ≠ ' ' ∧ c ≠ '\n' ∧ c ≠ '\r') (h : piece ∈ splitOn text separator) :
    Word piece := by
  rw [splitOn_eq_filter, List.mem_filter] at h
  exact ⟨of_decide_eq_true h.2, fun c hc => htext c (mem_of_mem_splitOn h.1 c hc).1⟩

/-- The partitions, one line each. -/
theorem follows_applyCuts {cuts : List Text}
    (hcuts : ∀ cut ∈ cuts, ∀ name ∈ splitOn cut ':', Word name) :
    Follows fl (cuts.map fun cut => commandLine "partition".toList (splitOn cut ':'))
      (applyCuts cuts) := by
  induction cuts with
  | nil => exact .nil
  | cons cut cuts ih =>
    obtain ⟨hcut, hlater⟩ := List.forall_mem_cons.mp hcuts
    have hone : OneLine (commandLine "partition".toList (splitOn cut ':')) :=
      oneLine_commandLine (by decide) hcut
    exact (Follows.one hone (does_partition fl hcut)).append (ih hlater)

/-- A duration that is not set is read as a zero. -/
theorem agrees_millisOrZero (value : Option Text) (what what' : Text) :
    Agrees (asMillis (value.getD "0".toList) what) (millisOrZero value what') := by
  cases value with
  | none => exact fun _ => ⟨rfl, rfl⟩
  | some text => exact .asMillis text what what'

/-- The latency is one line, with a zero for what is not set. -/
theorem follows_loadLatency {latency jitter : Option Text} (hlatency : ∀ text ∈ latency, Word text)
    (hjitter : ∀ text ∈ jitter, Word text) :
    Follows fl
      (if latency.isSome ∨ jitter.isSome then
        [commandLine "latency".toList [latency.getD "0".toList, jitter.getD "0".toList]]
      else [])
      (loadLatency latency jitter) := by
  have hword : ∀ value : Option Text, (∀ text ∈ value, Word text) →
      Word (value.getD "0".toList) := by
    rintro (_ | text) hvalue
    · decide
    · exact hvalue text rfl
  rw [loadLatency]
  split
  · refine .one (oneLine_commandLine (by decide) (List.forall_mem_cons.mpr
      ⟨hword _ hlatency, List.forall_mem_singleton.mpr (hword _ hjitter)⟩)) ?_
    exact does_latency fl (hword _ hlatency) (hword _ hjitter) (agrees_millisOrZero _ _ _)
      (agrees_millisOrZero _ _ _)
  · exact .nil

/-- What an environment does is what its script does. -/
theorem follows_loadFromEnv (fl : Rounding) {env : Environment}
    (hvalues : ∀ value ∈ env.values, ∀ text ∈ value, ∀ c ∈ text, c ≠ ' ' ∧ c ≠ '\n' ∧ c ≠ '\r') :
    Follows fl (script env) (loadFromEnv fl env) := by
  have hword : ∀ {value : Option Text} {text : Text}, value ∈ env.values →
      fromEnv value = some text → Word text := by
    intro value text hvalue htext
    obtain ⟨rfl, hne⟩ := Option.filter_eq_some_iff.mp htext
    exact ⟨of_decide_eq_true hne, hvalues _ hvalue text rfl⟩
  have hone : ∀ {verb text : Text}, Word verb → Word text → OneLine (commandLine verb [text]) :=
    fun hverb htext => oneLine_commandLine hverb (List.forall_mem_singleton.mpr htext)
  refine .append ?identity (.append ?latency (.append ?drop (.append ?hang ?partition)))
  case identity =>
    refine .ifSet fun name hname => ?_
    have hname := hword (by simp [Environment.values]) hname
    exact .one (hone (by decide) hname) (does_identity fl hname)
  case latency =>
    exact follows_loadLatency (fun text => hword (by simp [Environment.values]))
      fun text => hword (by simp [Environment.values])
  case drop =>
    refine .ifSet fun drop hdrop => ?_
    have hdrop := hword (by simp [Environment.values]) hdrop
    exact .one (hone (by decide) hdrop) (does_drop fl hdrop _)
  case hang =>
    refine .ifSet fun hang hhang => ?_
    have hhang := hword (by simp [Environment.values]) hhang
    exact .one (hone (by decide) hhang) (does_hang fl hhang)
  case partition =>
    refine .ifSet fun cuts hcuts => follows_applyCuts fun cut hcut => ?_
    have hcut := word_of_mem_splitOn (hword (by simp [Environment.values]) hcuts).2 hcut
    exact fun name => word_of_mem_splitOn hcut.2

/-- An environment leaves the knobs as a session of its script does that is broken off at the
first refusal. It is refused if one of the lines is, whose reply is an error and which changes
nothing; the lines before it, all lines if it is not refused, are answered with an `ok` each. -/
theorem loadFromEnv_session (fl : Rounding) (env : Environment)
    (hvalues : ∀ value ∈ env.values, ∀ text ∈ value, ∀ c ∈ text, c ≠ ' ' ∧ c ≠ '\n' ∧ c ≠ '\r')
    (k : Knobs) :
    ∃ done rest, script env = done ++ rest ∧
      Session fl done k (done.map fun _ => "ok\n".toList)
        ((loadFromEnv fl env).run.run k).2 ∧
      match ((loadFromEnv fl env).run.run k).1 with
      | .ok _ => rest = []
      | .error _ => ∃ line later message, rest = line :: later ∧
          Session fl (done ++ [line]) k
            ((done.map fun _ => "ok\n".toList) ++ ["error: ".toList ++ message ++ ['\n']])
            ((loadFromEnv fl env).run.run k).2 := by
  have hfollows := follows_loadFromEnv fl hvalues
  obtain ⟨done, rest, hlines, hdone, hok, herror⟩ := hfollows.brokenOff k
  have hone : ∀ line ∈ done ++ rest, '\n' ∉ line := fun line hline =>
    (hfollows.oneLine line (hlines ▸ hline)).1
  obtain ⟨honeDone, honeRest⟩ := List.forall_mem_append.mp hone
  refine ⟨done, rest, hlines, .of_answerAll honeDone hdone, ?_⟩
  split
  next hresult => exact hok hresult
  next hresult =>
    obtain ⟨line, later, message, rfl, hanswer⟩ := herror hresult
    refine ⟨line, later, message, rfl, .of_answerAll ?_ ?_⟩
    · exact List.forall_mem_append.mpr ⟨honeDone,
        List.forall_mem_singleton.mpr (honeRest line List.mem_cons_self)⟩
    · rw [answerAll_append, hdone, hanswer]

/-- An environment with a latency, no jitter and a cut. -/
def slowAndCut : Environment :=
  { latencyMs := some "5".toList, partition := some "b:a,".toList }

theorem loadFromEnv_session_slowAndCut :
    ∃ k' : Knobs, k'.latencyNs = 5_000_000 ∧ ("a".toList, "b".toList) ∈ k'.partitions ∧
      Session .exact ["latency 5 0".toList, "partition b a".toList] {}
        ["ok\n".toList, "ok\n".toList] k' := by
  have hscript : script slowAndCut = ["latency 5 0".toList, "partition b a".toList] := by decide
  have hok : ((loadFromEnv .exact slowAndCut).run.run {}).1 = .ok () := by decide +kernel
  obtain ⟨done, rest, hlines, hdone, hresult⟩ :=
    loadFromEnv_session .exact slowAndCut (by simp [slowAndCut, Environment.values]) {}
  rw [hok] at hresult
  obtain rfl : rest = [] := hresult
  rw [hscript, List.append_nil] at hlines
  rw [← hlines] at hdone
  exact ⟨_, by decide +kernel, by decide +kernel, hdone⟩

end Scripts

end Fault

end Dariyanaap
