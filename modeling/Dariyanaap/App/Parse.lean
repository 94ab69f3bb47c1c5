import Dariyanaap.App.Flags
import Dariyanaap.Library.Register

/-!
# What `Flags::parse` accepts

An invocation is pairs of a known name and a value (`core/flags.hpp`), and a name without a value is
to be refused. `Flags::parse` takes whatever follows a name for its value, also the name of the next
flag. It is right about an invocation unless that happens and the arguments still pair up
(`parsesRight_iff`).
-/

namespace Dariyanaap

namespace Flags

open Register

/-- The arguments that give names their values. -/
def spell (pairs : List (Text × Text)) : List Text :=
  pairs.flatMap fun (name, value) => ["--".toList ++ name, value]

/-- A name that a flag may have. -/
def Accepted (known : List Text) (name : Text) : Prop := name ≠ [] ∧ name ∈ known

/-- The argument is a flag of the program. -/
def IsFlag (known : List Text) (argument : Text) : Prop :=
  ∃ name ∈ known, argument = "--".toList ++ name

/-- The arguments are pairs of a name that is accepted and a value, and no value is missing. -/
structure WellFormed (known args : List Text) (pairs : List (Text × Text)) : Prop where
  spelled : args = spell pairs
  accepted : ∀ pair ∈ pairs, Accepted known pair.1
  /-- A flag in the place of a value is the next one. -/
  valued : ∀ pair ∈ pairs, ¬IsFlag known pair.2

/-- What a pair says of a name. -/
def given (name : Text) (pair : Text × Text) : Option Text :=
  if pair.1 = name then some pair.2 else none

/-- Well-formed arguments are accepted, with the last value of each name, and others are
refused. -/
structure ParsesRight (known args : List Text) : Prop where
  accepts : ∀ pairs, WellFormed known args pairs →
    ∃ flags, parse args known = .ok flags ∧ ∀ name, flags.all name = lastSaid (given name) pairs
  refuses : (∀ pairs, ¬WellFormed known args pairs) → ∃ e, parse args known = .error e

/-- The arguments pair up with a flag in the place of a value. -/
def Swallows (known args : List Text) : Prop :=
  ∃ pairs, args = spell pairs ∧ (∀ pair ∈ pairs, Accepted known pair.1) ∧
    ∃ pair ∈ pairs, IsFlag known pair.2

/-! ## Spelling -/

theorem spell_eq_nil_iff {pairs : List (Text × Text)} : spell pairs = [] ↔ pairs = [] := by
  cases pairs <;> simp [spell]

/-- The first two arguments are the first pair. -/
theorem spell_cons_eq_iff {argument value : Text} {rest : List Text} {pair : Text × Text}
    {pairs : List (Text × Text)} :
    argument :: value :: rest = spell (pair :: pairs) ↔
      argument = "--".toList ++ pair.1 ∧ value = pair.2 ∧ rest = spell pairs := by
  rw [spell, List.flatMap_cons, ← spell]
  simp

theorem spell_injective {pairs pairs' : List (Text × Text)} (h : spell pairs = spell pairs') :
    pairs = pairs' := by
  induction pairs generalizing pairs' with
  | nil => exact (spell_eq_nil_iff.mp h.symm).symm
  | cons pair pairs ih =>
    cases pairs' with
    | nil => exact spell_eq_nil_iff.mp h
    | cons pair' pairs' =>
      obtain ⟨hname, hvalue, hrest⟩ := spell_cons_eq_iff.mp h
      rw [ih hrest, Prod.ext (List.append_cancel_left hname) hvalue]

/-! ## The loop -/

section Parsing

variable {known args : List Text} {flags flags' : Flags} {argument name : Text}
  {pairs : List (Text × Text)}

/-- A flag is two dashes and a name that is accepted. -/
theorem flagName_eq_ok_iff :
    flagName known argument = .ok name ↔
      argument = "--".toList ++ name ∧ Accepted known name := by
  rw [flagName]
  by_cases hdashes : "--".toList.isPrefixOf argument
  · obtain ⟨rest, rfl⟩ := List.isPrefixOf_iff_prefix.mp hdashes
    have hdrop : ("--".toList ++ rest).drop 2 = rest := rfl
    rw [if_neg (not_not.mpr hdashes), hdrop, List.append_cancel_left_eq, Accepted]
    dsimp only
    split
    · next hnil =>
      refine iff_of_false (by simp) ?_
      rintro ⟨rfl, hne, -⟩
      exact hne hnil
    · next hne =>
      split
      · next hunknown =>
        refine iff_of_false (by simp) ?_
        rintro ⟨rfl, -, hknown⟩
        exact hunknown hknown
      · next hknown =>
        constructor
        · intro h
          obtain rfl := Except.ok.inj h
          exact ⟨rfl, hne, not_not.mp hknown⟩
        · rintro ⟨rfl, -⟩
          rfl
  · rw [if_pos hdashes]
    refine iff_of_false (by simp) ?_
    rintro ⟨rfl, -⟩
    exact hdashes (List.isPrefixOf_iff_prefix.mpr (List.prefix_append _ _))

/-- One turn of the loop reads a flag and its value. -/
theorem parseFrom_cons_cons (value : Text) :
    parseFrom known (argument :: value :: args) flags = .ok flags' ↔
      ∃ name, argument = "--".toList ++ name ∧ Accepted known name ∧
        parseFrom known args { flags with values := (name, value) :: flags.values } =
          .ok flags' := by
  rw [parseFrom]
  cases hname : flagName known argument with
  | error e =>
    refine iff_of_false (by simp [bind, Except.bind]) ?_
    rintro ⟨name, hargument, haccepted, -⟩
    rw [flagName_eq_ok_iff.mpr ⟨hargument, haccepted⟩] at hname
    cases hname
  | ok name =>
    obtain ⟨rfl, haccepted⟩ := flagName_eq_ok_iff.mp hname
    constructor
    · exact fun h => ⟨name, rfl, haccepted, h⟩
    · rintro ⟨other, hother, -, h⟩
      obtain rfl := List.append_cancel_left hother
      exact h

/-- A flag at the end has no value. -/
theorem parseFrom_singleton_ne_ok : parseFrom known [argument] flags ≠ .ok flags' := by
  rw [parseFrom]
  cases flagName known argument <;> simp [bind, Except.bind, throw, throwThe, MonadExceptOf.throw]

/-- The loop accepts the arguments that pair up, and keeps the pairs with the last one first. -/
theorem parseFrom_eq_ok_iff :
    parseFrom known args flags = .ok flags' ↔
      ∃ pairs, args = spell pairs ∧ (∀ pair ∈ pairs, Accepted known pair.1) ∧
        flags'.values = pairs.reverse ++ flags.values := by
  -- two arguments are read at a time
  induction args using List.twoStepInduction generalizing flags with
  | nil =>
    constructor
    · intro h
      obtain rfl : flags = flags' := Except.ok.inj h
      exact ⟨[], rfl, List.forall_mem_nil _, rfl⟩
    · rintro ⟨pairs, hargs, -, hvalues⟩
      obtain rfl := spell_eq_nil_iff.mp hargs.symm
      exact congrArg (fun values => Except.ok (Flags.mk values)) hvalues.symm
  | singleton argument =>
    refine iff_of_false parseFrom_singleton_ne_ok ?_
    rintro ⟨pairs, hargs, -⟩
    cases pairs <;> cases hargs
  | cons_cons argument value rest ih =>
    rw [parseFrom_cons_cons]
    have hfirst : ∀ pair (pairs : List (Text × Text)),
        (pair :: pairs).reverse ++ flags.values = pairs.reverse ++ pair :: flags.values :=
      fun pair pairs => by rw [List.reverse_cons, List.append_assoc, List.singleton_append]
    constructor
    · rintro ⟨name, rfl, haccepted, h⟩
      obtain ⟨pairs, rfl, hpairs, hvalues⟩ := ih.mp h
      exact ⟨(name, value) :: pairs, rfl, List.forall_mem_cons.mpr ⟨haccepted, hpairs⟩,
        hvalues.trans (hfirst _ _).symm⟩
    · rintro ⟨pairs, hargs, hpairs, hvalues⟩
      cases pairs with
      | nil => cases hargs
      | cons pair pairs =>
        obtain ⟨rfl, rfl, rfl⟩ := spell_cons_eq_iff.mp hargs
        obtain ⟨haccepted, hpairs⟩ := List.forall_mem_cons.mp hpairs
        exact ⟨pair.1, rfl, haccepted,
          ih.mpr ⟨pairs, rfl, hpairs, hvalues.trans (hfirst pair pairs)⟩⟩

/-- `parse` accepts the arguments that pair up. -/
theorem parse_eq_ok_iff :
    parse args known = .ok flags ↔
      ∃ pairs, args = spell pairs ∧ (∀ pair ∈ pairs, Accepted known pair.1) ∧
        flags.values = pairs.reverse := by
  rw [parse, parseFrom_eq_ok_iff]
  simp only [List.append_nil]

end Parsing

/-- The last pair of a name is the one that is found. -/
theorem lookup_reverse_eq_lastSaid (name : Text) (pairs : List (Text × Text)) :
    pairs.reverse.lookup name = lastSaid (given name) pairs := by
  induction pairs using List.reverseRecOn with
  | nil => rfl
  | append_singleton pairs pair ih =>
    rw [List.reverse_append, List.reverse_singleton, List.singleton_append,
      lastSaid_append_singleton, ← ih, List.lookup_cons, given]
    by_cases hname : pair.1 = name
    · rw [if_pos hname, beq_iff_eq.mpr hname.symm]
      rfl
    · rw [if_neg hname, beq_eq_false_iff_ne.mpr (Ne.symm hname)]
      rfl

/-! ## The result -/

section Result

variable {known args : List Text} {pairs : List (Text × Text)}

/-- Well-formed arguments are accepted, with the last value of each name. -/
theorem WellFormed.accepts (h : WellFormed known args pairs) :
    ∃ flags, parse args known = .ok flags ∧
      ∀ name, flags.all name = lastSaid (given name) pairs :=
  ⟨⟨pairs.reverse⟩, parse_eq_ok_iff.mpr ⟨pairs, h.spelled, h.accepted, rfl⟩,
    fun name => lookup_reverse_eq_lastSaid name pairs⟩

/-- What is accepted is well formed, or a value is a flag. -/
theorem exists_wellFormed_or_swallows {flags : Flags} (h : parse args known = .ok flags) :
    (∃ pairs, WellFormed known args pairs) ∨ Swallows known args := by
  obtain ⟨pairs, hargs, haccepted, -⟩ := parse_eq_ok_iff.mp h
  by_cases hvalued : ∀ pair ∈ pairs, ¬IsFlag known pair.2
  · exact .inl ⟨pairs, hargs, haccepted, hvalued⟩
  · push Not at hvalued
    exact .inr ⟨pairs, hargs, haccepted, hvalued⟩

/-- Arguments pair up in one way, so a value that is a flag leaves no other. -/
theorem Swallows.not_wellFormed (h : Swallows known args) : ¬WellFormed known args pairs := by
  intro hwell
  obtain ⟨others, hargs, -, pair, hpair, hflag⟩ := h
  obtain rfl := spell_injective (hwell.spelled.symm.trans hargs)
  exact hwell.valued pair hpair hflag

/-- Arguments that pair up are accepted, also with a flag in the place of a value. -/
theorem Swallows.not_parsesRight (h : Swallows known args) : ¬ParsesRight known args := by
  intro hright
  obtain ⟨e, herror⟩ := hright.refuses fun _ => h.not_wellFormed
  obtain ⟨pairs, hargs, haccepted, -⟩ := h
  rw [parse_eq_ok_iff.mpr ⟨pairs, hargs, haccepted, rfl⟩] at herror
  cases herror

/-- `parse` is right about an invocation unless the arguments pair up with a flag in the place of a
value. -/
theorem parsesRight_iff (known args : List Text) :
    ParsesRight known args ↔ ¬Swallows known args := by
  refine ⟨fun hright hswallows => hswallows.not_parsesRight hright, fun hswallows => ?_⟩
  refine ⟨fun _ hwell => hwell.accepts, fun hnone => exists_error fun flags hparse => ?_⟩
  obtain ⟨pairs, hwell⟩ := (exists_wellFormed_or_swallows hparse).resolve_right hswallows
  exact hnone pairs hwell

/-- A name without a value takes the next flag for one. -/
theorem parse_swallows_next_flag :
    parse ["--connections".toList, "--duration".toList]
        ["connections".toList, "duration".toList] =
      .ok ⟨[("connections".toList, "--duration".toList)]⟩ ∧
    ¬ParsesRight ["connections".toList, "duration".toList]
        ["--connections".toList, "--duration".toList] := by
  have haccepted : ∀ pair ∈ [("connections".toList, "--duration".toList)],
      Accepted ["connections".toList, "duration".toList] pair.1 := by
    simp [Accepted]
  have hflag : IsFlag ["connections".toList, "duration".toList] "--duration".toList :=
    ⟨"duration".toList, by simp, rfl⟩
  constructor
  · exact parse_eq_ok_iff.mpr ⟨_, rfl, haccepted, rfl⟩
  · exact Swallows.not_parsesRight ⟨_, rfl, haccepted, _, List.mem_singleton_self _, hflag⟩

end Result

end Flags

end Dariyanaap
