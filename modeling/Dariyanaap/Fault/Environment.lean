import Dariyanaap.Fault.Meaning
import Dariyanaap.Fault.Numerals

/-!
# What knobs are set by

The two ways to set the knobs from text: the environment, which `load_from_env` reads once, and
the lines of the control socket. `Documented` and `DocumentedEnv` are the grammar their comments
promise: whole milliseconds, a fraction, a hang of `0`, `1`, `true` or `false`, and partitions of
two different names. What such a text is to do is carried out when the faults are what the
meaning of its instructions makes of them and the gate says whether there is any (`Carried`).

A text outside the grammar is refused, with five exceptions that are taken for something else
(`misread_iff`): any other word after `hang` is read as `0`, a mean that has no 64-bit number of
nanoseconds is stored as another one, a fraction that has no whole number of parts per million
becomes the nearest one that has, a list of partitions may have nothing between two of its
separators, and a variable that is set to nothing counts as unset.
-/

namespace Dariyanaap

namespace Fault

open AllOrNothing
open Rounding (binary64)

/-! ## The environment -/

/-- The variables that `load_from_env` reads, as `getenv` returns them. -/
structure Environment where
  identity : Option Text := none
  latencyMs : Option Text := none
  jitterMs : Option Text := none
  drop : Option Text := none
  hang : Option Text := none
  partition : Option Text := none

/-- `from_env`: a variable that is empty counts as unset. -/
def fromEnv (value : Option Text) : Option Text := value.filter fun text => text ≠ []

/-- A variable and what is done with its value. -/
def ifSet (value : Option Text) (use : Text → Effect Unit) : Effect Unit :=
  match fromEnv value with
  | some text => use text
  | none => pure ()

/-- A duration, zero if it is unset. -/
def millisOrZero (value : Option Text) (what : Text) : Effect Millis :=
  match value with
  | some text => asMillis text what
  | none => pure 0

/-- One turn of the loop of `load_from_env` over the partitions. -/
def applyCut (cut : Text) : Effect Unit :=
  match splitOn cut ':' with
  | [a, b] => partition a b
  | _ => throw ⟨"DARIYANAAP_FAULT_PARTITION wants \"a:b\", got \"".toList ++ cut ++ "\"".toList⟩

/-- The loop of `load_from_env` over the partitions. -/
def applyCuts : List Text → Effect Unit
  | [] => pure ()
  | cut :: cuts => do
      applyCut cut
      applyCuts cuts

/-- The part of `load_from_env` that sets the latency, if either variable is set. -/
def loadLatency (latency jitter : Option Text) : Effect Unit :=
  if latency.isSome ∨ jitter.isSome then do
    let mean ← millisOrZero latency "DARIYANAAP_FAULT_LATENCY_MS".toList
    let jitter ← millisOrZero jitter "DARIYANAAP_FAULT_JITTER_MS".toList
    setLatency mean jitter
  else pure ()

/-- `load_from_env`. -/
def loadFromEnv (fl : Rounding) (env : Environment) : Effect Unit := do
  ifSet env.identity setIdentity
  loadLatency (fromEnv env.latencyMs) (fromEnv env.jitterMs)
  ifSet env.drop fun drop => do
    let probability ← asProbability fl drop "DARIYANAAP_FAULT_DROP".toList
    setDropProbability fl probability
  ifSet env.hang fun hang => setHangForever (saysYes hang)
  ifSet env.partition fun cuts => applyCuts (splitOn cuts ',')

/-! ## The documented grammar -/

/-- The words that turn the hang on and off. -/
inductive HangWord : Text → Bool → Prop
  | zero : HangWord "0".toList false
  | one : HangWord "1".toList true
  | no : HangWord "false".toList false
  | yes : HangWord "true".toList true

/-- The words of an instruction. -/
inductive Documented : List Text → Instruction → Prop
  | latency {mean jitter : Text} {m j : ℤ} (hmean : Whole mean m) (hjitter : Whole jitter j)
      (hpos : 0 ≤ j) (hle : j ≤ m) : Documented ["latency".toList, mean, jitter] (.latency m j)
  | drop {text : Text} {q : ℚ} (hq : Numeral text q) (hpos : 0 ≤ q) (hle : q ≤ 1) :
      Documented ["drop".toList, text] (.drop q)
  | hang {word : Text} {on : Bool} (hword : HangWord word on) :
      Documented ["hang".toList, word] (.hang on)
  | identity (name : Text) : Documented ["identity".toList, name] (.identity name)
  | partition {a b : Text} (ha : a ≠ []) (hb : b ≠ []) (hne : a ≠ b) :
      Documented ["partition".toList, a, b] (.partition a b)
  | heal (a b : Text) : Documented ["heal".toList, a, b] (.heal a b)
  | clear : Documented ["clear".toList] .clear
  | status : Documented ["status".toList] .status

/-- The words of a line: what stands between its spaces. -/
def wordsOf (line : Text) : List Text := (line.splitOn ' ').filter fun word => word ≠ []

/-- What a variable asks for, nothing if it is unset. -/
def Asks (meaning : Text → List Instruction → Prop) (value : Option Text)
    (instructions : List Instruction) : Prop :=
  match value with
  | none => instructions = []
  | some text => meaning text instructions

/-- A duration, zero if it is unset. -/
def MillisOrZero (value : Option Text) (duration : Millis) : Prop :=
  match value with
  | none => duration = 0
  | some text => Whole text duration

/-- What the two variables of the latency ask for. -/
def AsksLatency (latency jitter : Option Text) (instructions : List Instruction) : Prop :=
  (latency = none ∧ jitter = none ∧ instructions = []) ∨
    (latency ≠ none ∨ jitter ≠ none) ∧ ∃ m j, MillisOrZero latency m ∧ MillisOrZero jitter j ∧
      0 ≤ j ∧ j ≤ m ∧ instructions = [.latency m j]

/-- Pairs of two different names, with a colon between the names and commas between the pairs. -/
def PartitionList (text : Text) (pairs : List (Text × Text)) : Prop :=
  pairs ≠ [] ∧ text = [','].intercalate (pairs.map fun pair => pair.1 ++ ':' :: pair.2) ∧
    ∀ pair ∈ pairs, pair.1 ≠ [] ∧ pair.2 ≠ [] ∧ pair.1 ≠ pair.2 ∧
      ∀ c ∈ pair.1 ++ pair.2, c ≠ ':' ∧ c ≠ ','

/-- What the text of an identity asks for, -/
def AsksIdentity (text : Text) (instructions : List Instruction) : Prop :=
  text ≠ [] ∧ instructions = [.identity text]

/-- of a drop, -/
def AsksDrop (text : Text) (instructions : List Instruction) : Prop :=
  ∃ q, Numeral text q ∧ 0 ≤ q ∧ q ≤ 1 ∧ instructions = [.drop q]

/-- of a hang, -/
def AsksHang (text : Text) (instructions : List Instruction) : Prop :=
  ∃ on, HangWord text on ∧ instructions = [.hang on]

/-- and of partitions. -/
def AsksPartition (text : Text) (instructions : List Instruction) : Prop :=
  ∃ pairs, PartitionList text pairs ∧
    instructions = pairs.map fun pair => .partition pair.1 pair.2

/-- What the variables behind the latency ask for. -/
def AsksFaults (env : Environment) (instructions : List Instruction) : Prop :=
  ∃ drop hang cuts, instructions = drop ++ (hang ++ cuts) ∧ Asks AsksDrop env.drop drop ∧
    Asks AsksHang env.hang hang ∧ Asks AsksPartition env.partition cuts

/-- The instructions of an environment, in the order they are carried out. -/
def DocumentedEnv (env : Environment) (instructions : List Instruction) : Prop :=
  ∃ name latency faults, instructions = name ++ (latency ++ faults) ∧
    Asks AsksIdentity env.identity name ∧ AsksLatency env.latencyMs env.jitterMs latency ∧
    AsksFaults env faults

/-- The instructions are carried out: the faults are what their meaning makes of those there
were, and the gate says whether there is any. -/
def Carried (k k' : Knobs) (instructions : List Instruction) : Prop :=
  k'.faults = performed k.faults instructions ∧ (k'.any = true ↔ k'.faults.On)

/-! ## What is misread -/

/-- The words after `hang`. -/
def hangWords : List Text := ["0".toList, "1".toList, "true".toList, "false".toList]

/-- A command that is not misread: a hang has one of its words, a mean a 64-bit number of
nanoseconds, and a drop whole parts per million. -/
structure ReadAsMeant (words : List Text) : Prop where
  hang (word : Text) (h : words = ["hang".toList, word]) : word ∈ hangWords
  latency (mean jitter : Text) (m : Millis) (h : words = ["latency".toList, mean, jitter])
    (hm : Whole mean m) : m * 1_000_000 < 2 ^ 63
  drop (text : Text) (q : ℚ) (h : words = ["drop".toList, text]) (hq : Numeral text q) :
    WholeParts q

/-- The values of the variables. -/
def Environment.values (env : Environment) : List (Option Text) :=
  [env.identity, env.latencyMs, env.jitterMs, env.drop, env.hang, env.partition]

/-- An environment that is not misread: besides, no variable is set to nothing, and nothing is
missing between the separators of the partitions. -/
structure EnvReadAsMeant (env : Environment) : Prop where
  values : some [] ∉ env.values
  hang (word : Text) (h : env.hang = some word) : word ∈ hangWords
  latency (mean : Text) (m : Millis) (h : env.latencyMs = some mean) (hm : Whole mean m) :
    m * 1_000_000 < 2 ^ 63
  drop (text : Text) (q : ℚ) (h : env.drop = some text) (hq : Numeral text q) : WholeParts q
  partition (cuts : Text) (h : env.partition = some cuts) :
    ∀ cut ∈ cuts.splitOn ',', [] ∉ cut.splitOn ':'

/-! ## Lines -/

section Commands

variable {fl : Rounding} {k k' : Knobs} {words : List Text} {i : Instruction}

/-- The words of the hang are the ones that have a meaning. -/
theorem mem_hangWords_iff (word : Text) : word ∈ hangWords ↔ ∃ on, HangWord word on := by
  constructor
  · intro h
    simp only [hangWords, List.mem_cons, List.not_mem_nil, or_false] at h
    rcases h with rfl | rfl | rfl | rfl
    · exact ⟨_, .zero⟩
    · exact ⟨_, .one⟩
    · exact ⟨_, .yes⟩
    · exact ⟨_, .no⟩
  · rintro ⟨on, h⟩
    cases h <;> decide

/-- And the code reads them so. -/
theorem HangWord.saysYes {word : Text} {on : Bool} (h : HangWord word on) :
    Fault.saysYes word = on := by
  cases h <;> decide

/-- Only a hang, a latency and a drop can be misread. -/
theorem readAsMeant_of_verb {verb : Text} {args : List Text} (hhang : verb ≠ "hang".toList)
    (hlatency : verb ≠ "latency".toList) (hdrop : verb ≠ "drop".toList) :
    ReadAsMeant (verb :: args) where
  hang _ h := absurd (List.cons.inj h).1 hhang
  latency _ _ _ h := absurd (List.cons.inj h).1 hlatency
  drop _ _ h := absurd (List.cons.inj h).1 hdrop

/-- The word behind a hang is one of a documented one. -/
theorem Documented.of_hang {word : Text} (h : Documented words i)
    (hwords : words = ["hang".toList, word]) : ∃ on, HangWord word on := by
  cases h with
  | hang hword =>
    obtain ⟨rfl, -⟩ := List.cons.inj (List.cons.inj hwords).2
    exact ⟨_, hword⟩
  | latency | drop | identity | partition | heal | clear | status =>
    exact absurd (List.cons.inj hwords).1 (by decide)

/-- A command whose meaning is what sound knobs stand for was not misread: they hold no latency
past 64 bits, and no part of a part per million. -/
theorem Documented.readAsMeant {f : Faults} (h : Documented words i) (hk : Sound k')
    (hfaults : k'.faults = i.meaning f) : ReadAsMeant words := by
  cases h with
  | @latency mean jitter m j hmean hjitter hpos hle =>
    refine ⟨fun _ h => absurd (List.cons.inj h).1 (by decide), fun _ _ m' hwords hm' => ?_,
      fun _ _ h => absurd (List.cons.inj h).1 (by decide)⟩
    obtain ⟨rfl, -⟩ := List.cons.inj (List.cons.inj hwords).2
    have hlatency : k'.latencyNs = m * 1_000_000 := congrArg Faults.latency hfaults
    rw [hm'.unique hmean, ← hlatency]
    exact hk.latency_lt
  | @drop text q hq hpos hle =>
    refine ⟨fun _ h => absurd (List.cons.inj h).1 (by decide),
      fun _ _ _ h => absurd (List.cons.inj h).1 (by decide), fun _ q' hwords hq' => ?_⟩
    obtain ⟨rfl, -⟩ := List.cons.inj (List.cons.inj hwords).2
    have hdrop : k'.faults.drop = q := congrArg Faults.drop hfaults
    rw [hq'.unique hq, ← hdrop]
    exact wholeParts_faults k'
  | @hang word on hword =>
    refine ⟨fun _ hwords => ?_, fun _ _ _ h => absurd (List.cons.inj h).1 (by decide),
      fun _ _ h => absurd (List.cons.inj h).1 (by decide)⟩
    obtain ⟨rfl, -⟩ := List.cons.inj (List.cons.inj hwords).2
    exact (mem_hangWords_iff word).mpr ⟨on, hword⟩
  | identity | partition | heal | clear | status =>
    exact readAsMeant_of_verb (by decide) (by decide) (by decide)

/-- What was understood and accepted is documented, and done as it is meant, unless it was
misread. -/
theorem Understood.documented {r : Request} (hr : Understood binary64 words r)
    (hrefusal : r.refusal = none) (hk : Sound k) (hmeant : ReadAsMeant words) :
    ∃ i, Documented words i ∧ (r.apply binary64 k).faults = i.meaning k.faults := by
  cases hr with
  | @latency mean jitter m j hmean hjitter =>
    obtain ⟨hm, -⟩ := (extractInteger_eq_some_iff _ _).mp hmean
    obtain ⟨hj, -⟩ := (extractInteger_eq_some_iff _ _).mp hjitter
    obtain ⟨hpos, hle⟩ := Setter.refusal_setLatency.mp hrefusal
    exact ⟨.latency m j, .latency hm hj hpos hle,
      faults_setLatency hpos hle (hmeant.latency _ _ m rfl hm) k⟩
  | @drop text p hp =>
    obtain ⟨q, hq, -, rfl⟩ := (extractDouble_eq_some_iff binary64 _ _).mp hp
    obtain ⟨⟨hpos, hle⟩, hsame⟩ :=
      faults_setDropProbability hrefusal (hmeant.drop _ q rfl hq) k
    exact ⟨.drop q, .drop hq hpos hle, hsame⟩
  | hang word =>
    obtain ⟨on, hword⟩ := (mem_hangWords_iff word).mp (hmeant.hang word rfl)
    refine ⟨.hang on, .hang hword, ?_⟩
    rw [hword.saysYes]
    rfl
  | partition a b =>
    obtain ⟨ha, hb, hne⟩ := (refusal_partition_eq_none_iff a b).mp hrefusal
    exact ⟨.partition a b, .partition ha hb hne, faults_partition hrefusal k⟩
  | identity name => exact ⟨.identity name, .identity name, rfl⟩
  | heal a b => exact ⟨.heal a b, .heal a b, hk.faults_heal binary64 a b⟩
  | clear => exact ⟨.clear, .clear, faults_clear binary64 k⟩
  | status => exact ⟨.status, .status, rfl⟩

/-- A command that returns was documented, and has done what it means, unless it was misread. -/
theorem command_iff {line reply : Text} (hk : Sound k)
    (h : (applyCommand binary64 line).run.run k = (.ok reply, k')) :
    (∃ i, Documented (wordsOf line) i ∧ Carried k k' [i]) ↔ ReadAsMeant (wordsOf line) := by
  obtain ⟨r, hr, hrefusal, rfl⟩ := (applyCommand_ends binary64 line).of_ok h
  rw [splitOn_eq_filter] at hr
  have hk' := hk.request binary64 r
  constructor
  · rintro ⟨i, hi, hfaults, -⟩
    exact hi.readAsMeant hk' hfaults
  · intro hmeant
    obtain ⟨i, hi, hfaults⟩ := hr.documented hrefusal hk hmeant
    exact ⟨i, hi, hfaults, hk'.any_iff⟩

end Commands

section Variables

variable {fl : Rounding} {env : Environment} {k k' : Knobs} {value : Option Text}

/-- A variable that is not set to nothing counts as what it is. -/
theorem fromEnv_eq (h : value ≠ some []) : fromEnv value = value := by
  cases value with
  | none => rfl
  | some text => simpa [fromEnv] using h

/-! ### What was read -/

/-- A variable that was used asks for what its use has done. -/
theorem ifSet_ok {meaning : Text → List Instruction → Prop} {use : Text → Effect Unit}
    (hvalue : value ≠ some []) (h : (ifSet value use).run.run k = (.ok (), k'))
    (huse : ∀ text, value = some text → (use text).run.run k = (.ok (), k') →
      ∃ is, meaning text is ∧ k'.faults = performed k.faults is) :
    ∃ is, Asks meaning value is ∧ k'.faults = performed k.faults is := by
  rw [ifSet, fromEnv_eq hvalue] at h
  cases value with
  | none =>
    obtain ⟨-, rfl⟩ := Prod.mk.inj h
    exact ⟨[], rfl, rfl⟩
  | some text => exact huse text rfl h

/-- A duration of the environment that was read is one that is written there. -/
theorem millisOrZero_ok {what : Text} {m : Millis}
    (h : (millisOrZero value what).run.run k = (.ok m, k')) : MillisOrZero value m ∧ k' = k := by
  unfold millisOrZero at h
  unfold MillisOrZero
  cases value with
  | none =>
    obtain ⟨hm, rfl⟩ := Prod.mk.inj h
    exact ⟨(Except.ok.inj hm).symm, rfl⟩
  | some text =>
    obtain ⟨hm, rfl⟩ := (reads_asMillis text what).of_ok h
    exact ⟨((extractInteger_eq_some_iff text m).mp hm).1, rfl⟩

/-- The latency of the environment, when either of its variables is set. -/
theorem loadLatency_ok {latency jitter : Option Text}
    (hfits : ∀ mean (m : Millis), latency = some mean → Whole mean m → m * 1_000_000 < 2 ^ 63)
    (h : (loadLatency latency jitter).run.run k = (.ok (), k')) :
    ∃ is, AsksLatency latency jitter is ∧ k'.faults = performed k.faults is := by
  unfold loadLatency at h
  by_cases hset : latency.isSome ∨ jitter.isSome
  · rw [if_pos hset] at h
    -- both durations are read before the setter is called
    obtain ⟨m, k₁, hmean, hrest⟩ := exists_of_bind_ok h
    obtain ⟨j, k₂, hjitter, hset'⟩ := exists_of_bind_ok hrest
    obtain ⟨hm, rfl⟩ := millisOrZero_ok hmean
    obtain ⟨hj, rfl⟩ := millisOrZero_ok hjitter
    obtain ⟨hrefusal, rfl⟩ := (Setter.ends binary64 (.setLatency m j)).of_ok hset'
    obtain ⟨hpos, hle⟩ := Setter.refusal_setLatency.mp hrefusal
    have hbound : m * 1_000_000 < 2 ^ 63 := by
      cases latency with
      | none =>
        rw [show m = 0 from hm]
        decide
      | some mean => exact hfits mean m rfl hm
    simp only [Option.isSome_iff_ne_none] at hset
    refine ⟨_, .inr ⟨hset, m, j, hm, hj, hpos, hle, rfl⟩, ?_⟩
    rw [← Request.apply_setter hrefusal]
    exact faults_setLatency hpos hle hbound _
  · rw [if_neg hset] at h
    obtain ⟨-, rfl⟩ := Prod.mk.inj h
    rw [not_or, Option.not_isSome_iff_eq_none, Option.not_isSome_iff_eq_none] at hset
    exact ⟨[], .inl ⟨hset.1, hset.2, rfl⟩, rfl⟩

/-- The identity of the environment. -/
theorem identity_ok {text : Text} (hne : text ≠ [])
    (h : (setIdentity text).run.run k = (.ok (), k')) :
    ∃ is, AsksIdentity text is ∧ k'.faults = performed k.faults is := by
  obtain ⟨-, rfl⟩ := Prod.mk.inj h
  exact ⟨_, ⟨hne, rfl⟩, rfl⟩

/-- The drop of the environment, if it has whole parts. -/
theorem drop_ok {text what : Text} (hparts : ∀ q, Numeral text q → WholeParts q)
    (h : (asProbability binary64 text what >>= setDropProbability binary64).run.run k =
      (.ok (), k')) : ∃ is, AsksDrop text is ∧ k'.faults = performed k.faults is := by
  obtain ⟨p, k₁, hread, hset⟩ := exists_of_bind_ok h
  obtain ⟨hp, rfl⟩ := (reads_asProbability binary64 text what).of_ok hread
  obtain ⟨q, hq, -, rfl⟩ := (extractDouble_eq_some_iff binary64 text p).mp hp
  obtain ⟨hrefusal, rfl⟩ :=
    (Setter.ends binary64 (.setDropProbability (.finite (binary64 q)))).of_ok hset
  obtain ⟨⟨hpos, hle⟩, hsame⟩ := faults_setDropProbability hrefusal (hparts q hq) k₁
  exact ⟨_, ⟨q, hq, hpos, hle, rfl⟩,
    (congrArg Knobs.faults (Request.apply_setter hrefusal binary64 k₁)).symm.trans hsame⟩

/-- The hang of the environment, if its word is one. -/
theorem hang_ok {word : Text} (hword : word ∈ hangWords)
    (h : (setHangForever (saysYes word)).run.run k = (.ok (), k')) :
    ∃ is, AsksHang word is ∧ k'.faults = performed k.faults is := by
  obtain ⟨on, hon⟩ := (mem_hangWords_iff word).mp hword
  obtain ⟨-, rfl⟩ := Prod.mk.inj h
  rw [hon.saysYes]
  exact ⟨_, ⟨on, hon, rfl⟩, rfl⟩

/-- A pair of the environment with nothing missing around its colon. -/
theorem applyCut_ok {cut : Text} (hwhole : [] ∉ cut.splitOn ':')
    (h : (applyCut cut).run.run k = (.ok (), k')) :
    ∃ a b : Text, cut = a ++ ':' :: b ∧ (':' ∉ a ∧ ':' ∉ b) ∧ (a ≠ [] ∧ b ≠ [] ∧ a ≠ b) ∧
      k'.faults = (Instruction.partition a b).meaning k.faults := by
  unfold applyCut at h
  rw [splitOn_eq_of_notMem hwhole] at h
  split at h
  next a b hpieces =>
    obtain ⟨hrefusal, rfl⟩ := (Setter.ends binary64 (.partition a b)).of_ok h
    refine ⟨a, b, ?_, ⟨?_, ?_⟩, (refusal_partition_eq_none_iff a b).mp hrefusal, ?_⟩
    · -- the names and the colon are the text again
      have hcut : [':'].intercalate (cut.splitOn ':') = cut := List.intercalate_splitOn ':'
      rw [hpieces] at hcut
      simpa using hcut.symm
    · exact notMem_of_mem_splitOn (hpieces ▸ List.mem_cons_self)
    · exact notMem_of_mem_splitOn (hpieces ▸ List.mem_cons_of_mem _ (List.mem_singleton_self b))
    · rw [← Request.apply_setter hrefusal]
      exact faults_partition hrefusal k
  · -- another number of names is refused
    cases h

/-- The pairs of the environment, one after the other. -/
theorem applyCuts_ok {cuts : List Text} (hwhole : ∀ cut ∈ cuts, [] ∉ cut.splitOn ':')
    (h : (applyCuts cuts).run.run k = (.ok (), k')) :
    ∃ pairs : List (Text × Text), cuts = pairs.map (fun pair => pair.1 ++ ':' :: pair.2) ∧
      (∀ pair ∈ pairs, (':' ∉ pair.1 ∧ ':' ∉ pair.2) ∧
        (pair.1 ≠ [] ∧ pair.2 ≠ [] ∧ pair.1 ≠ pair.2)) ∧
      k'.faults = performed k.faults (pairs.map fun pair => .partition pair.1 pair.2) := by
  induction cuts generalizing k with
  | nil =>
    obtain ⟨-, rfl⟩ := Prod.mk.inj h
    exact ⟨[], rfl, nofun, rfl⟩
  | cons cut cuts ih =>
    rw [List.forall_mem_cons] at hwhole
    obtain ⟨⟨⟩, k₁, hfirst, hrest⟩ := exists_of_bind_ok h
    obtain ⟨a, b, rfl, hcolon, hnames, hcut⟩ := applyCut_ok hwhole.1 hfirst
    obtain ⟨pairs, rfl, hpairs, hcuts⟩ := ih hwhole.2 hrest
    refine ⟨(a, b) :: pairs, rfl, List.forall_mem_cons.mpr ⟨⟨hcolon, hnames⟩, hpairs⟩, ?_⟩
    rw [hcuts, hcut]
    rfl

/-- The partitions of the environment. -/
theorem partitions_ok {text : Text}
    (hwhole : ∀ cut ∈ text.splitOn ',', [] ∉ cut.splitOn ':')
    (h : (applyCuts (splitOn text ',')).run.run k = (.ok (), k')) :
    ∃ is, AsksPartition text is ∧ k'.faults = performed k.faults is := by
  -- a missing pair would be a pair with its names missing
  have hnone : [] ∉ text.splitOn ',' := fun hmem => hwhole [] hmem (by simp)
  rw [splitOn_eq_of_notMem hnone] at h
  obtain ⟨pairs, hcuts, hpairs, hfaults⟩ := applyCuts_ok hwhole h
  refine ⟨_, ⟨pairs, ⟨?_, ?_, fun pair hpair => ?_⟩, rfl⟩, hfaults⟩
  · rintro rfl
    exact List.splitOn_ne_nil ',' text hcuts
  · rw [← hcuts]
    exact (List.intercalate_splitOn ',').symm
  · obtain ⟨⟨hfirst, hsecond⟩, ha, hb, hne⟩ := hpairs pair hpair
    refine ⟨ha, hb, hne, fun c hc => ⟨?_, ?_⟩⟩
    · rintro rfl
      exact (List.mem_append.mp hc).elim hfirst hsecond
    · -- the pieces between the commas hold none
      rintro rfl
      have hcut : pair.1 ++ ':' :: pair.2 ∈ text.splitOn ',' :=
        hcuts ▸ List.mem_map_of_mem (f := fun pair => pair.1 ++ ':' :: pair.2) hpair
      refine notMem_of_mem_splitOn hcut ?_
      rcases List.mem_append.mp hc with hc | hc
      · exact List.mem_append_left _ hc
      · exact List.mem_append_right _ (List.mem_cons_of_mem _ hc)

/-- An environment that is not misread does what it means. -/
theorem loadFromEnv_ok (hmeant : EnvReadAsMeant env)
    (h : (loadFromEnv binary64 env).run.run k = (.ok (), k')) :
    ∃ is, DocumentedEnv env is ∧ k'.faults = performed k.faults is := by
  have hvalues := hmeant.values
  simp only [Environment.values, List.mem_cons, List.not_mem_nil, or_false, not_or] at hvalues
  obtain ⟨hidentity, hlatency, hjitter, hdrop, hhang, hpartition⟩ := hvalues
  -- the variables one after the other, in the order of the source
  obtain ⟨⟨⟩, k₀, hrun, h₀⟩ := exists_of_bind_ok h
  obtain ⟨⟨⟩, k₁, hrunLatency, h₁⟩ := exists_of_bind_ok h₀
  obtain ⟨⟨⟩, k₂, hrunDrop, h₂⟩ := exists_of_bind_ok h₁
  obtain ⟨⟨⟩, k₃, hrunHang, hrunCuts⟩ := exists_of_bind_ok h₂
  obtain ⟨name, hname, hfaults₀⟩ := ifSet_ok (Ne.symm hidentity) hrun fun text htext =>
    identity_ok fun hnil => hidentity (hnil ▸ htext.symm)
  rw [fromEnv_eq (Ne.symm hlatency), fromEnv_eq (Ne.symm hjitter)] at hrunLatency
  obtain ⟨latency, haskLatency, hfaults₁⟩ := loadLatency_ok hmeant.latency hrunLatency
  obtain ⟨drop, hasksDrop, hfaults₂⟩ := ifSet_ok (Ne.symm hdrop) hrunDrop fun text htext =>
    drop_ok fun q => hmeant.drop text q htext
  obtain ⟨hang, hasksHang, hfaults₃⟩ := ifSet_ok (Ne.symm hhang) hrunHang fun word hword =>
    hang_ok (hmeant.hang word hword)
  obtain ⟨cuts, hasksCuts, hfaults⟩ := ifSet_ok (Ne.symm hpartition) hrunCuts fun text htext =>
    partitions_ok (hmeant.partition text htext)
  refine ⟨_, ⟨name, latency, drop ++ (hang ++ cuts), rfl, hname, haskLatency, drop, hang, cuts,
    rfl, hasksDrop, hasksHang, hasksCuts⟩, ?_⟩
  rw [hfaults, hfaults₃, hfaults₂, hfaults₁, hfaults₀]
  simp

/-! ### What was asked for -/

/-- A list of partitions has nothing missing between its separators. -/
theorem PartitionList.whole {text : Text} {pairs : List (Text × Text)}
    (h : PartitionList text pairs) : ∀ cut ∈ text.splitOn ',', [] ∉ cut.splitOn ':' := by
  obtain ⟨hne, rfl, hpairs⟩ := h
  rw [List.splitOn_intercalate ',' ?_ (by simpa using hne)]
  · -- a cut has two pieces, and neither name is empty
    intro cut hcut
    obtain ⟨pair, hpair, rfl⟩ := List.mem_map.mp hcut
    obtain ⟨ha, hb, -, hchars⟩ := hpairs pair hpair
    have hpieces : (pair.1 ++ ':' :: pair.2).splitOn ':' = [pair.1, pair.2] := by
      rw [show pair.1 ++ ':' :: pair.2 = [':'].intercalate [pair.1, pair.2] by simp]
      refine List.splitOn_intercalate ':' ?_ (List.cons_ne_nil _ _)
      simp only [List.forall_mem_cons, List.not_mem_nil, false_implies, implies_true, and_true]
      exact ⟨fun hmem => (hchars ':' (List.mem_append_left _ hmem)).1 rfl,
        fun hmem => (hchars ':' (List.mem_append_right _ hmem)).1 rfl⟩
    rw [hpieces]
    simp [ha.symm, hb.symm]
  · -- no cut holds a comma
    intro cut hcut hmem
    obtain ⟨pair, hpair, rfl⟩ := List.mem_map.mp hcut
    have hchars := (hpairs pair hpair).2.2.2
    rcases List.mem_append.mp hmem with hmem | hmem
    · exact (hchars ',' (List.mem_append_left _ hmem)).2 rfl
    · rcases List.mem_cons.mp hmem with hcolon | hmem
      · cases hcolon
      · exact (hchars ',' (List.mem_append_right _ hmem)).2 rfl

/-- What is asked for by a variable that is set. -/
theorem Asks.of_some {meaning : Text → List Instruction → Prop} {text : Text}
    {is : List Instruction} (h : Asks meaning value is) (hvalue : value = some text) :
    meaning text is := by
  rw [hvalue] at h
  exact h

/-- A property of everything a value can ask for. -/
theorem Asks.forall_mem {meaning : Text → List Instruction → Prop} {P : Instruction → Prop}
    {is : List Instruction} (h : Asks meaning value is)
    (hmeaning : ∀ text, meaning text is → ∀ i ∈ is, P i) : ∀ i ∈ is, P i := by
  cases value with
  | none =>
    obtain rfl : is = [] := h
    exact nofun
  | some text => exact hmeaning text h

/-- What every instruction of a list leaves alone, the list does. -/
theorem performed_eq {α : Type} {part : Faults → α} {is : List Instruction}
    (h : ∀ i ∈ is, ∀ f, part (i.meaning f) = part f) (f : Faults) :
    part (performed f is) = part f := by
  induction is generalizing f with
  | nil => rfl
  | cons i is ih =>
    rw [List.forall_mem_cons] at h
    exact (ih h.2 _).trans (h.1 f)

/-- A hang and cuts leave the latency and the drop alone. -/
theorem performed_hang_cuts {hang cuts : List Instruction} (hhang : Asks AsksHang env.hang hang)
    (hcuts : Asks AsksPartition env.partition cuts) (f : Faults) :
    (performed f (hang ++ cuts)).latency = f.latency ∧
      (performed f (hang ++ cuts)).drop = f.drop := by
  have hparts : ∀ i ∈ hang ++ cuts, ∀ f, (i.meaning f).latency = f.latency ∧
      (i.meaning f).drop = f.drop := by
    rw [List.forall_mem_append]
    refine ⟨hhang.forall_mem fun _ hasks => ?_, hcuts.forall_mem fun _ hasks => ?_⟩
    · obtain ⟨on, -, rfl⟩ := hasks
      exact List.forall_mem_singleton.mpr fun _ => ⟨rfl, rfl⟩
    · obtain ⟨pairs, -, rfl⟩ := hasks
      exact List.forall_mem_map.mpr fun _ _ _ => ⟨rfl, rfl⟩
  exact ⟨performed_eq (fun i hi f => (hparts i hi f).1) f,
    performed_eq (fun i hi f => (hparts i hi f).2) f⟩

/-- A drop leaves the latency alone. -/
theorem performed_drop {drop : List Instruction} (hdrop : Asks AsksDrop env.drop drop)
    (f : Faults) : (performed f drop).latency = f.latency := by
  refine performed_eq (hdrop.forall_mem fun _ hasks => ?_) f
  obtain ⟨q, -, -, -, rfl⟩ := hasks
  exact List.forall_mem_singleton.mpr fun _ => rfl

/-- Nothing is no whole number, -/
theorem not_whole_nil (m : ℤ) : ¬Whole [] m := by
  intro h
  generalize htext : ([] : Text) = text at h
  cases h with
  | mk _ _ hne _ => simp [hne] at htext

/-- and no number at all. -/
theorem not_numeral_nil (q : ℚ) : ¬Numeral [] q := by
  intro h
  generalize htext : ([] : Text) = text at h
  cases h with
  | mk _ _ _ hpoint _ hne =>
    cases hpoint with
    | missing => simp_all
    | mk _ => simp at htext

/-- No variable of a documented environment is set to nothing. -/
theorem DocumentedEnv.values {is : List Instruction} (h : DocumentedEnv env is) :
    some [] ∉ env.values := by
  obtain ⟨_, _, _, -, hname, hlatency, _, _, _, -, hdrop, hhang, hcuts⟩ := h
  simp only [Environment.values, List.mem_cons, List.not_mem_nil, or_false, not_or]
  refine ⟨fun hvalue => ?_, fun hvalue => ?_, fun hvalue => ?_, fun hvalue => ?_,
    fun hvalue => ?_, fun hvalue => ?_⟩
  · exact (hname.of_some hvalue.symm).1 rfl
  · rcases hlatency with ⟨hnone, -⟩ | ⟨-, m, j, hm, -⟩
    · rw [hnone] at hvalue
      cases hvalue
    · rw [← hvalue] at hm
      exact not_whole_nil m hm
  · rcases hlatency with ⟨-, hnone, -⟩ | ⟨-, m, j, -, hj, -⟩
    · rw [hnone] at hvalue
      cases hvalue
    · rw [← hvalue] at hj
      exact not_whole_nil j hj
  · obtain ⟨q, hq, -⟩ := hdrop.of_some hvalue.symm
    exact not_numeral_nil q hq
  · obtain ⟨on, hon, -⟩ := hhang.of_some hvalue.symm
    exact absurd ((mem_hangWords_iff []).mpr ⟨on, hon⟩) (by decide)
  · -- one piece, and it is missing
    obtain ⟨pairs, hpairs, -⟩ := hcuts.of_some hvalue.symm
    exact hpairs.whole [] (by simp) (by simp)

/-- An environment whose meaning is what sound knobs stand for was not misread. -/
theorem DocumentedEnv.readAsMeant {f : Faults} {is : List Instruction}
    (h : DocumentedEnv env is) (hk : Sound k') (hfaults : k'.faults = performed f is) :
    EnvReadAsMeant env where
  values := h.values
  hang word hword := by
    obtain ⟨_, _, _, -, -, -, _, _, _, -, -, hhang, -⟩ := h
    obtain ⟨on, hon, -⟩ := hhang.of_some hword
    exact (mem_hangWords_iff word).mpr ⟨on, hon⟩
  latency mean m hmean hm := by
    obtain ⟨name, latency, _, rfl, -, hlatency, drop, hang, cuts, rfl, hdrop, hhang, hcuts⟩ := h
    rcases hlatency with ⟨hnone, -⟩ | ⟨-, asked, j, hasked, -, -, -, rfl⟩
    · rw [hmean] at hnone
      cases hnone
    · have hstored : k'.latencyNs = asked * 1_000_000 := by
        have hlatency := congrArg Faults.latency hfaults
        rw [performed_append, performed_append, performed_append,
          (performed_hang_cuts hhang hcuts _).1, performed_drop hdrop] at hlatency
        exact hlatency
      rw [hmean] at hasked
      rw [hm.unique hasked, ← hstored]
      exact hk.latency_lt
  drop text q htext hq := by
    obtain ⟨name, latency, _, rfl, -, -, drop, hang, cuts, rfl, hdrop, hhang, hcuts⟩ := h
    obtain ⟨asked, hasked, -, -, rfl⟩ := hdrop.of_some htext
    have hstored : k'.faults.drop = asked := by
      rw [hfaults, performed_append, performed_append, performed_append,
        (performed_hang_cuts hhang hcuts _).2]
      rfl
    rw [hq.unique hasked, ← hstored]
    exact wholeParts_faults k'
  partition cuts htext := by
    obtain ⟨_, _, _, -, -, -, _, _, _, -, -, -, hcuts⟩ := h
    obtain ⟨pairs, hpairs, -⟩ := hcuts.of_some htext
    exact hpairs.whole

/-! ### The flags -/

theorem keeps_setter (fl : Rounding) (s : Setter) : Keeps Sound (s.call fl) := fun _ hk =>
  hk.request fl (.setter s)

theorem keeps_millisOrZero (value : Option Text) (what : Text) :
    Keeps Sound (millisOrZero value what) := by
  unfold millisOrZero
  split
  · exact .of_reads (reads_asMillis _ _)
  · exact .pure

theorem keeps_ifSet {use : Text → Effect Unit} (huse : ∀ text, Keeps Sound (use text)) :
    Keeps Sound (ifSet value use) := by
  unfold ifSet
  split
  · exact huse _
  · exact .pure

theorem keeps_applyCuts (cuts : List Text) : Keeps Sound (applyCuts cuts) := by
  induction cuts with
  | nil => exact .pure
  | cons cut cuts ih =>
    refine .bind ?_ fun _ => ih
    unfold applyCut
    split
    · exact keeps_setter binary64 (.partition _ _)
    · exact fun _ hk => hk

/-- Sound knobs stay sound while the environment is read, wherever it throws. -/
theorem keeps_loadFromEnv (fl : Rounding) (env : Environment) :
    Keeps Sound (loadFromEnv fl env) := by
  unfold loadFromEnv
  refine .bind (keeps_ifSet fun name => ?_) fun _ => .bind ?_ fun _ =>
    .bind (keeps_ifSet fun drop => ?_) fun _ => .bind (keeps_ifSet fun hang => ?_) fun _ =>
      keeps_ifSet fun cuts => keeps_applyCuts _
  · exact fun _ hk => hk.request fl (.identity name)
  · unfold loadLatency
    split
    · exact .bind (keeps_millisOrZero _ _) fun m => .bind (keeps_millisOrZero _ _) fun j =>
        keeps_setter fl (.setLatency m j)
    · exact .pure
  · exact .bind (.of_reads (reads_asProbability fl _ _)) fun p =>
      keeps_setter fl (.setDropProbability p)
  · exact keeps_setter fl (.setHangForever _)

/-- An environment that is loaded was documented, and has done what it means, unless it was
misread. -/
theorem env_iff (hk : Sound k) (h : (loadFromEnv binary64 env).run.run k = (.ok (), k')) :
    (∃ is, DocumentedEnv env is ∧ Carried k k' is) ↔ EnvReadAsMeant env := by
  have hk' : Sound k' := by
    have hkept := keeps_loadFromEnv binary64 env k hk
    rwa [h] at hkept
  constructor
  · rintro ⟨is, his, hfaults, -⟩
    exact his.readAsMeant hk' hfaults
  · intro hmeant
    obtain ⟨is, his, hfaults⟩ := loadFromEnv_ok hmeant h
    exact ⟨is, his, hfaults, hk'.any_iff⟩

end Variables

/-- An environment that cuts two pairs. -/
def twoCuts : Environment := { partition := some "a:b,c:d".toList }

end Fault

end Dariyanaap
