import Dariyanaap.Load.Lines

/-!
# Requests as they are read

What a target makes of the bytes `build_get` returns. `readRequest` is the request grammar of
HTTP/1.1, read from the front: a method, a target and the version with single spaces between
them, header lines, and a blank line at the very end and nowhere else.

`build_get` refuses the line ends that would change the structure of a request. It does not
refuse a space, which ends a target early, nor the blanks at the ends of a host, which are read
as spacing (`buildGet_reads_iff`).
-/

namespace Dariyanaap

namespace Http

open Text

/-! ## The grammar -/

/-- A request as it is read. -/
structure RequestRead where
  method : Text
  target : Text
  host : Text
  deriving DecidableEq

/-- Read a request line. -/
def readRequestLine (line : Text) : Option (Text × Text) :=
  let (method, afterMethod) := line.span (· ≠ ' ')
  let (target, afterTarget) := (afterMethod.drop 1).span (· ≠ ' ')
  if method ≠ [] ∧ target ≠ [] ∧ afterTarget = " HTTP/1.1".toList then some (method, target)
  else none

/-- A line that holds neither half of a line end. -/
def unbroken (line : Text) : Bool := line.all fun c => c ≠ '\r' && c ≠ '\n'

/-- A line that is a name, a colon and a value. -/
def isFieldLine (line : Text) : Bool :=
  let name := line.takeWhile (· ≠ ':')
  name ≠ [] && line.contains ':' && name.all fun c => !isBlank c

/-- Read a request: its one host, if everything is in its place. -/
def readRequest (bytes : Text) : Option RequestRead :=
  match splitLines bytes with
  | [] => none
  | first :: lines =>
      -- nothing stands behind the last line end, and nothing before it in its line
      match lines.reverse with
      | [] :: [] :: fields =>
          if (first :: fields).all unbroken && fields.all isFieldLine then
            match readRequestLine first, fields.filterMap (lineValue "host".toList) with
            | some (method, target), [host] => some ⟨method, target, host⟩
            | _, _ => none
          else none
      | _ => none

/-- What `build_get` accepts. -/
def Buildable (host path : Text) : Prop :=
  host ≠ [] ∧ path.head? = some '/' ∧ (∀ c ∈ host, c ≠ '\r' ∧ c ≠ '\n') ∧
    ∀ c ∈ path, c ≠ '\r' ∧ c ≠ '\n'

/-! ## Reading back what was built -/

/-- The request line of `build_get`. -/
def getLine (path : Text) : Text := "GET ".toList ++ path ++ " HTTP/1.1".toList

/-- The header lines of `build_get`. -/
def getFields (host : Text) : List Text :=
  ["Host: ".toList ++ host, "User-Agent: ".toList ++ version, "Accept: */*".toList]

section Reading

variable {host path bytes : Text}

/-- What `reject_crlf` looks for is a line end. -/
theorem mem_crlf_iff (value : Text) :
    '\r' ∈ value ∨ '\n' ∈ value ↔ ¬∀ c ∈ value, c ≠ '\r' ∧ c ≠ '\n' := by
  rw [← not_iff_not, not_or, not_not]
  constructor
  · rintro ⟨hcr, hlf⟩ c hc
    exact ⟨fun h => hcr (h ▸ hc), fun h => hlf (h ▸ hc)⟩
  · intro h
    exact ⟨fun hc => (h _ hc).1 rfl, fun hc => (h _ hc).2 rfl⟩

/-- `build_get` returns the bytes of its lines, or throws. -/
theorem buildGet_eq_ok_iff :
    buildGet host path = .ok bytes ↔
      Buildable host path ∧ bytes = joinLines (getLine path :: (getFields host ++ [[], []])) := by
  have hlines : "GET ".toList ++ path ++ " HTTP/1.1\r\n".toList ++
      ("Host: ".toList ++ host ++ "\r\n".toList) ++
      ("User-Agent: ".toList ++ version ++ "\r\n".toList) ++
      "Accept: */*\r\n".toList ++ "\r\n".toList =
        joinLines (getLine path :: (getFields host ++ [[], []])) := by
    simp [getFields, getLine, joinLines_cons_cons, crlf]
  -- one refusal after the other, in the order of the source
  rw [buildGet, rejectCrlf, rejectCrlf, hlines]
  by_cases hhost : host = []
  · rw [if_pos hhost]
    exact iff_of_false (by simp) fun h => h.1.1 hhost
  rw [if_neg hhost]
  by_cases hpath : path.head? = some '/'
  · rw [if_neg (not_not.mpr hpath)]
    by_cases hhostLine : ∀ c ∈ host, c ≠ '\r' ∧ c ≠ '\n'
    · rw [if_neg fun h => (mem_crlf_iff host).mp h hhostLine]
      by_cases hpathLine : ∀ c ∈ path, c ≠ '\r' ∧ c ≠ '\n'
      · rw [if_neg fun h => (mem_crlf_iff path).mp h hpathLine]
        have hbuildable : Buildable host path := ⟨hhost, hpath, hhostLine, hpathLine⟩
        exact ⟨fun h => ⟨hbuildable, (Except.ok.inj h).symm⟩, fun h => congrArg Except.ok h.2.symm⟩
      · rw [if_pos ((mem_crlf_iff path).mpr hpathLine)]
        exact iff_of_false (by simp [bind, Except.bind]) fun h => hpathLine h.1.2.2.2
    · rw [if_pos ((mem_crlf_iff host).mpr hhostLine)]
      exact iff_of_false (by simp [bind, Except.bind]) fun h => hhostLine h.1.2.2.1
  · rw [if_pos hpath]
    exact iff_of_false (by simp) fun h => hpath h.1.2.1

/-- A request line is read back when no space ends the target early. -/
theorem readRequestLine_getLine (hpath : path ≠ []) :
    readRequestLine (getLine path) = some ("GET".toList, path) ↔ ' ' ∉ path := by
  have hmethod : (getLine path).span (· ≠ ' ') =
      ("GET".toList, ' ' :: (path ++ " HTTP/1.1".toList)) := by
    refine Text.span_eq_iff.mpr ⟨?_, by simp, by simp⟩
    rw [getLine, List.append_assoc]
    rfl
  rw [readRequestLine, hmethod]
  dsimp only
  rw [List.drop_one, List.tail_cons, List.span_eq_takeWhile_dropWhile]
  constructor
  · intro h hspace
    -- the target that was read stops at its first space
    split at h
    · obtain ⟨-, htarget⟩ := Prod.mk.inj (Option.some.inj h)
      rw [← htarget] at hspace
      simpa using List.mem_takeWhile_imp hspace
    · cases h
  · intro hspace
    have hall : ∀ c ∈ path, decide (c ≠ ' ') = true := fun c hc =>
      decide_eq_true fun h => hspace (h ▸ hc)
    have hversion : (" HTTP/1.1".toList).takeWhile (fun c => decide (c ≠ ' ')) = [] := rfl
    rw [List.takeWhile_append_of_pos hall, List.dropWhile_append_of_pos hall, hversion,
      List.append_nil]
    exact if_pos ⟨by decide, hpath, rfl⟩

/-- The host is read back when it is not taken for spacing. -/
theorem trim_blank_cons_iff (host : Text) : trim (' ' :: host) = host ↔ Bare host := by
  constructor
  · intro h
    obtain ⟨-, -, -, -, hbare⟩ := trim_spec (' ' :: host)
    rwa [h] at hbare
  · intro hbare
    have htrim : trim ([' '] ++ host ++ []) = host := trim_append (by simp [isBlank]) hbare
    rwa [List.append_nil] at htrim

/-- No line of a request that was built holds a line end. -/
theorem unbroken_lines (h : Buildable host path) :
    ∀ line ∈ getLine path :: (getFields host ++ [[], []]), unbroken line = true := by
  have hclosed : ∀ {text : Text}, (∀ c ∈ text, c ≠ '\r' ∧ c ≠ '\n') → unbroken text = true :=
    fun htext => List.all_eq_true.mpr fun c hc => by simpa using htext c hc
  have happend : ∀ u w : Text, unbroken (u ++ w) = (unbroken u && unbroken w) := fun u w =>
    List.all_append
  obtain ⟨-, -, hhost, hpath⟩ := h
  simp only [getFields, List.cons_append, List.nil_append, List.forall_mem_cons, getLine, happend,
    hclosed hhost, hclosed hpath]
  decide +kernel

/-- What a request that was built is read as. -/
theorem readRequest_built (h : Buildable host path) :
    readRequest (joinLines (getLine path :: (getFields host ++ [[], []]))) =
      (readRequestLine (getLine path)).map fun line => ⟨line.1, line.2, trim (' ' :: host)⟩ := by
  have hunbroken := unbroken_lines h
  have hsplit : splitLines (joinLines (getLine path :: (getFields host ++ [[], []]))) =
      getLine path :: (getFields host ++ [[], []]) := by
    refine splitLines_joinLines (fun line hline => not_crlf_inside fun hcr => ?_)
      (List.cons_ne_nil _ _)
    simpa using List.all_eq_true.mp (hunbroken line hline) _ hcr
  have hfields : (getFields host).reverse.all isFieldLine = true := by
    have hname : isFieldLine ("Host: ".toList ++ host) = true := by
      simp [isFieldLine, isBlank]
    simp only [getFields, List.all_reverse, List.all_cons, hname]
    decide +kernel
  have hhost : (getFields host).reverse.filterMap (lineValue "host".toList) =
      [trim (' ' :: host)] := by
    have hline : lineValue "host".toList ("Host: ".toList ++ host) = some (trim (' ' :: host)) :=
      lineValue_append (show ':' ∉ "Host".toList by decide) "host".toList (' ' :: host)
    have hagent : lineValue "host".toList ("User-Agent: ".toList ++ version) = none := by
      decide +kernel
    have haccept : lineValue "host".toList "Accept: */*".toList = none := by
      decide +kernel
    rw [List.filterMap_reverse, getFields, List.filterMap_cons_some hline,
      List.filterMap_cons_none hagent, List.filterMap_cons_none haccept]
    rfl
  have hall : (getLine path :: (getFields host).reverse).all unbroken = true := by
    refine List.all_eq_true.mpr fun line hline => hunbroken line ?_
    rcases List.mem_cons.mp hline with rfl | hline
    · exact List.mem_cons_self
    · exact List.mem_cons_of_mem _ (List.mem_append_left _ (List.mem_reverse.mp hline))
  rw [readRequest, hsplit]
  simp only [List.reverse_append, List.reverse_cons, List.reverse_nil, List.nil_append,
    List.cons_append]
  rw [hall, hfields, hhost]
  cases readRequestLine (getLine path) <;> rfl

/-- A request that is built is read back as what was asked for unless a space ends its target
early or blanks at the ends of its host are taken for spacing; everything else is refused. -/
theorem buildGet_reads_iff (host path : Text) :
    ((∀ bytes, buildGet host path = .ok bytes →
        readRequest bytes = some ⟨"GET".toList, path, host⟩) ↔
      (Buildable host path → ' ' ∉ path ∧ Bare host)) ∧
    ((∃ error, buildGet host path = .error error) ↔ ¬Buildable host path) := by
  have hreads : ∀ bytes, buildGet host path = .ok bytes →
      (readRequest bytes = some ⟨"GET".toList, path, host⟩ ↔ ' ' ∉ path ∧ Bare host) := by
    intro bytes hbytes
    obtain ⟨hbuildable, rfl⟩ := buildGet_eq_ok_iff.mp hbytes
    have hpath : path ≠ [] := by
      rintro rfl
      cases hbuildable.2.1
    rw [readRequest_built hbuildable, ← readRequestLine_getLine hpath, ← trim_blank_cons_iff]
    -- the request line and the host are read apart
    rcases hline : readRequestLine (getLine path) with _ | ⟨method, target⟩
    · simp
    · simp only [Option.map_some, Option.some.injEq, RequestRead.mk.injEq, Prod.mk.injEq, and_assoc]
  refine ⟨⟨fun h hbuildable => ?_, fun h bytes hbytes => ?_⟩, fun h hbuildable => ?_, fun h => ?_⟩
  · have hbytes := buildGet_eq_ok_iff.mpr ⟨hbuildable, rfl⟩
    exact (hreads _ hbytes).mp (h _ hbytes)
  · exact (hreads bytes hbytes).mpr (h (buildGet_eq_ok_iff.mp hbytes).1)
  · obtain ⟨error, herror⟩ := h
    cases herror.symm.trans (buildGet_eq_ok_iff.mpr ⟨hbuildable, rfl⟩)
  · exact exists_error fun bytes hbytes => h (buildGet_eq_ok_iff.mp hbytes).1

/-- A path with a space in it makes a request line of four words, which no target can read. -/
theorem buildGet_space :
    (∃ bytes, buildGet "h".toList "/a b".toList = .ok bytes ∧ readRequest bytes = none) ∧
      ¬∀ host path bytes, buildGet host path = .ok bytes →
        readRequest bytes = some ⟨"GET".toList, path, host⟩ := by
  have hbytes : buildGet "h".toList "/a b".toList =
      .ok (joinLines (getLine "/a b".toList :: (getFields "h".toList ++ [[], []]))) := by
    decide +kernel
  have hread : readRequest (joinLines (getLine "/a b".toList ::
      (getFields "h".toList ++ [[], []]))) = none := by
    decide +kernel
  refine ⟨⟨_, hbytes, hread⟩, fun h => ?_⟩
  cases hread.symm.trans (h _ _ _ hbytes)

end Reading

end Http

end Dariyanaap
