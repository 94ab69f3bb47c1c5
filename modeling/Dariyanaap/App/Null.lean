import Dariyanaap.Fault.Knobs

/-!
# The null target

`serve` (`apps/dariyanaap_null.cpp`) is to read `payload` bytes and write the same bytes back,
until the client goes away. It reads into a buffer that may hold more than a payload, answers with
the first payload of what it read, and starts the next request with an empty buffer: the bytes of
a read past the end of a payload are gone. Whether every stream is echoed depends on where the
reads end (`serve_echoes_iff`).

A read that fails ends the connection like one that finds it closed.
-/

namespace Dariyanaap

namespace Null

open Fault

/-- What happens between a request and its reply. -/
structure Interlude where
  /-- How often the loop of the stall sleeps. -/
  stall : ℕ := 0
  knobs : Knobs := {}
  /-- The draw of the jitter from `-j .. j`. -/
  jitter : ℤ → ℤ := fun _ => 0
  /-- The draw of the drop from `0 .. 999999`. -/
  draw : ℤ := 0

/-- Faults and stalls are off. -/
structure Interlude.Off (interlude : Interlude) : Prop where
  stall : interlude.stall = 0
  gate : interlude.knobs.any = false

/-- A reply: how long it was held, and the bytes given to `write_all`. -/
structure Reply where
  stall : ℕ
  pause : Pause
  bytes : Text
  deriving DecidableEq

/-- The size of the buffer. -/
def bufferSize (payload : ℕ) : ℕ := if 64 * 1024 < payload then payload else 64 * 1024

/-- `serve`, from a request on of which the buffer holds some bytes. Each read is what `read_some`
put there. -/
def serve (interlude : ℕ → Interlude) (payload : ℕ) :
    (reads : List Text) → (request : ℕ) → (filled : Text) → List Reply
  | [], _, _ => []
  | got :: reads, request, filled =>
      -- a clean hang-up
      if got = [] then []
      else if (filled ++ got).length < payload then
        serve interlude payload reads request (filled ++ got)
      else
        let now := interlude request
        let rest := serve interlude payload reads (request + 1) []
        if now.knobs.shouldDrop now.draw then rest
        else
          ⟨now.stall, now.knobs.beforeResponse now.jitter, (filled ++ got).take payload⟩ :: rest

/-- The bytes sent back. -/
def echoed (replies : List Reply) : Text := replies.flatMap Reply.bytes

/-- The whole payloads of a stream. -/
def wholePayloads (payload : ℕ) (stream : Text) : Text :=
  stream.take (stream.length / payload * payload)

/-- The sizes of reads into the space of the buffer that `serve` offers, of which `have` bytes
are filled. -/
def Offered (payload : ℕ) : (filled : ℕ) → List ℕ → Prop
  | _, [] => True
  | filled, size :: sizes =>
      (0 < size ∧ size ≤ bufferSize payload - filled) ∧
        Offered payload (if filled + size < payload then filled + size else 0) sizes

/-- A read passes the end of a payload only when less than another payload follows that end. -/
def InStep (payload : ℕ) : (filled : ℕ) → List ℕ → Prop
  | _, [] => True
  | filled, size :: sizes =>
      if filled + size < payload then InStep payload (filled + size) sizes
      else (filled + size = payload ∨ filled + size + sizes.sum < 2 * payload) ∧
        InStep payload 0 sizes

section Streams

variable {payload : ℕ} {stream first rest : Text}

/-- Nothing comes back of less than a payload. -/
theorem wholePayloads_of_lt (h : stream.length < payload) : wholePayloads payload stream = [] := by
  rw [wholePayloads, Nat.div_eq_of_lt h, Nat.zero_mul, List.take_zero]

/-- A payload at the front comes back as it is. -/
theorem wholePayloads_append (hpos : 0 < payload) (hfirst : first.length = payload) :
    wholePayloads payload (first ++ rest) = first ++ wholePayloads payload rest := by
  rw [wholePayloads, List.length_append, hfirst, Nat.add_div_left _ hpos, Nat.succ_mul,
    Nat.add_comm, ← hfirst, List.take_length_add_append, wholePayloads]

/-- One payload comes back of less than two. -/
theorem wholePayloads_of_lt_two (hlow : payload ≤ stream.length)
    (hhigh : stream.length < 2 * payload) : wholePayloads payload stream = stream.take payload := by
  have hone : stream.length / payload = 1 :=
    Nat.div_eq_of_lt_le (by omega) (by omega)
  rw [wholePayloads, hone, Nat.one_mul]

/-- Of two payloads or more, the byte after the first one comes back. -/
theorem getElem?_wholePayloads (hpos : 0 < payload) (hlong : 2 * payload ≤ stream.length) :
    (wholePayloads payload stream)[payload]? = stream[payload]? := by
  have htwo := Nat.mul_le_mul_right payload ((Nat.le_div_iff_mul_le hpos).mpr hlong)
  rw [wholePayloads, List.getElem?_take_of_lt (by omega)]

end Streams

section Serving

variable {interlude : ℕ → Interlude} {payload request : ℕ} {got filled : Text} {reads : List Text}
  {sizes : List ℕ}

/-- A read that leaves the request incomplete is kept in the buffer. -/
theorem serve_cons_of_lt (hgot : got ≠ []) (hlt : (filled ++ got).length < payload) :
    serve interlude payload (got :: reads) request filled =
      serve interlude payload reads request (filled ++ got) := by
  rw [serve, if_neg hgot, if_pos hlt]

/-- With faults and stalls off, a complete request is answered at once. -/
theorem echoed_serve_cons (hoff : ∀ i, (interlude i).Off) (hgot : got ≠ [])
    (hle : payload ≤ (filled ++ got).length) :
    echoed (serve interlude payload (got :: reads) request filled) =
      (filled ++ got).take payload ++ echoed (serve interlude payload reads (request + 1) []) := by
  have hdrop : (interlude request).knobs.shouldDrop (interlude request).draw = false :=
    if_pos (hoff request).gate
  rw [serve, if_neg hgot, if_neg (not_lt.mpr hle)]
  simp only [hdrop, Bool.false_eq_true, if_false]
  rfl

/-- Only bytes of the stream come back. -/
theorem mem_of_mem_echoed (hoff : ∀ i, (interlude i).Off) (hreads : ∀ got ∈ reads, got ≠ [])
    {c : Char} (hc : c ∈ echoed (serve interlude payload reads request filled)) :
    c ∈ filled ++ reads.flatten := by
  induction reads generalizing request filled with
  | nil => cases hc
  | cons got reads ih =>
    obtain ⟨hgot, hreads⟩ := List.forall_mem_cons.mp hreads
    rw [List.flatten_cons, ← List.append_assoc]
    rcases lt_or_ge (filled ++ got).length payload with hlt | hle
    · rw [serve_cons_of_lt hgot hlt] at hc
      exact ih hreads hc
    · rw [echoed_serve_cons hoff hgot hle] at hc
      rcases List.mem_append.mp hc with hc | hc
      · exact List.mem_append_left _ (List.mem_of_mem_take hc)
      · exact List.mem_append_right _ (ih hreads hc)

/-- Reads in step echo the whole payloads of the stream. -/
theorem echoed_of_inStep (hoff : ∀ i, (interlude i).Off) (hpos : 0 < payload)
    (hreads : ∀ got ∈ reads, got ≠ []) (hlt : filled.length < payload)
    (hstep : InStep payload filled.length (reads.map List.length)) :
    echoed (serve interlude payload reads request filled) =
      wholePayloads payload (filled ++ reads.flatten) := by
  induction reads generalizing request filled with
  | nil =>
    rw [List.flatten_nil, List.append_nil, wholePayloads_of_lt hlt]
    rfl
  | cons got reads ih =>
    obtain ⟨hgot, hreads⟩ := List.forall_mem_cons.mp hreads
    rw [List.map_cons, InStep, ← List.length_append] at hstep
    rw [List.flatten_cons, ← List.append_assoc]
    split at hstep
    · next hshort =>
      rw [serve_cons_of_lt hgot hshort]
      exact ih hreads hshort hstep
    · next hfull =>
      obtain ⟨hends, hstep⟩ := hstep
      have hrest : echoed (serve interlude payload reads (request + 1) []) =
          wholePayloads payload reads.flatten := ih hreads hpos hstep
      rw [echoed_serve_cons hoff hgot (not_lt.mp hfull), hrest]
      rcases hends with hends | hends
      · -- the read ends with the payload
        rw [wholePayloads_append hpos hends, List.take_of_length_le hends.le]
      · -- no further payload follows
        rw [← List.length_flatten] at hends
        rw [wholePayloads_of_lt (by omega), List.append_nil,
          wholePayloads_of_lt_two (by rw [List.length_append]; omega)
            (by rw [List.length_append]; exact hends),
          List.take_append_of_le_length (not_lt.mp hfull)]

/-- Reads of less than a payload in all are in step. -/
theorem inStep_of_sum_lt {k : ℕ} (h : k + sizes.sum < payload) : InStep payload k sizes := by
  induction sizes generalizing k with
  | nil => trivial
  | cons size sizes ih =>
    rw [List.sum_cons] at h
    rw [InStep, if_pos (by omega)]
    exact ih (by omega)

/-- Bytes past the end of a payload with another payload to follow are not brought back. -/
theorem exists_surplus_lost (hoff : ∀ i, (interlude i).Off) (hpos : 0 < payload) {n : ℕ}
    (request : ℕ) (hsizes : ∀ size ∈ sizes, 0 < size) (hpast : payload < n)
    (hlong : 2 * payload ≤ n + sizes.sum) :
    ∃ reads : List Text, reads.map List.length = sizes ∧
      (List.replicate n 'a').take payload ++ echoed (serve interlude payload reads request []) ≠
        wholePayloads payload (List.replicate n 'a' ++ reads.flatten) := by
  -- they are letters that no later read brings
  refine ⟨sizes.map fun size => List.replicate size 'b', by simp [Function.comp_def],
    fun heq => ?_⟩
  have hnext := congrArg (fun bytes => bytes[payload]?) heq
  have hfirst : ((List.replicate n 'a').take payload).length = payload := by
    rw [List.length_take, List.length_replicate]
    omega
  rw [getElem?_wholePayloads hpos (by simpa [Function.comp_def] using hlong),
    List.getElem?_append_right hfirst.le,
    List.getElem?_append_left (by rw [List.length_replicate]; omega),
    List.getElem?_replicate_of_lt (by omega)] at hnext
  have hreads : ∀ got ∈ sizes.map fun size => List.replicate size 'b', got ≠ [] := by
    simpa using fun size hsize => (hsizes size hsize).ne'
  have hmem := mem_of_mem_echoed hoff hreads (List.mem_of_getElem? hnext)
  simp at hmem

/-- Reads that echo the whole payloads of every stream are in step. -/
theorem inStep_of_echoed (hoff : ∀ i, (interlude i).Off) (hpos : 0 < payload) {k : ℕ}
    (request : ℕ) (hsizes : ∀ size ∈ sizes, 0 < size)
    (hechoed : ∀ (filled : Text) (reads : List Text), filled.length = k →
      reads.map List.length = sizes →
      echoed (serve interlude payload reads request filled) =
        wholePayloads payload (filled ++ reads.flatten)) :
    InStep payload k sizes := by
  induction sizes generalizing request k with
  | nil => trivial
  | cons size sizes ih =>
    obtain ⟨hsize, hsizes⟩ := List.forall_mem_cons.mp hsizes
    rw [InStep]
    split
    · next hshort =>
      refine ih request hsizes fun filled reads hfilled hreads => ?_
      -- cut the buffer where the read put its bytes
      have hgot : filled.drop k ≠ [] := by
        rw [ne_eq, List.drop_eq_nil_iff]
        omega
      have hcut := hechoed (filled.take k) (filled.drop k :: reads)
        (by rw [List.length_take]; omega)
        (by rw [List.map_cons, List.length_drop, hreads, hfilled, Nat.add_sub_cancel_left])
      rw [serve_cons_of_lt hgot (by rw [List.take_append_drop]; omega), List.flatten_cons,
        ← List.append_assoc, List.take_append_drop] at hcut
      exact hcut
    · next hfull =>
      have hread : ∀ reads : List Text, reads.map List.length = sizes →
          (List.replicate (k + size) 'a').take payload ++
              echoed (serve interlude payload reads (request + 1) []) =
            wholePayloads payload (List.replicate (k + size) 'a' ++ reads.flatten) := by
        intro reads hreads
        have h := hechoed (List.replicate k 'a') (List.replicate size 'a' :: reads)
          List.length_replicate (by rw [List.map_cons, List.length_replicate, hreads])
        have hgot : List.replicate size 'a' ≠ [] := by simpa using hsize.ne'
        rwa [echoed_serve_cons hoff hgot (by simpa using hfull), List.flatten_cons,
          ← List.append_assoc, List.replicate_append_replicate] at h
      by_cases hends : k + size = payload
      · refine ⟨.inl hends, ih (request + 1) hsizes fun filled reads hfilled hreads => ?_⟩
        obtain rfl := List.length_eq_zero_iff.mp hfilled
        have hrest := hread reads hreads
        rw [wholePayloads_append hpos (by rw [List.length_replicate, hends]),
          List.take_of_length_le (by rw [List.length_replicate, hends])] at hrest
        exact List.append_cancel_left hrest
      · have hlast : k + size + sizes.sum < 2 * payload := by
          by_contra hlong
          obtain ⟨reads, hreads, hlost⟩ := exists_surplus_lost hoff hpos (request + 1) hsizes
            (by omega : payload < k + size) (not_lt.mp hlong)
          exact hlost (hread reads hreads)
        exact ⟨.inr hlast, inStep_of_sum_lt (by omega)⟩

/-- A read is not empty. -/
theorem Offered.pos {k : ℕ} (h : Offered payload k sizes) : ∀ size ∈ sizes, 0 < size := by
  induction sizes generalizing k with
  | nil => exact fun size hsize => absurd hsize List.not_mem_nil
  | cons size sizes ih => exact List.forall_mem_cons.mpr ⟨h.1.1, ih h.2⟩

/-- The buffer of a large payload holds no more than one, so that no read passes its end. -/
theorem inStep_of_offered {k : ℕ} (hlarge : 64 * 1024 ≤ payload) (hk : k ≤ payload)
    (h : Offered payload k sizes) : InStep payload k sizes := by
  have hbuffer : bufferSize payload = payload := by
    rw [bufferSize]
    split
    · rfl
    · omega
  induction sizes generalizing k with
  | nil => trivial
  | cons size sizes ih =>
    obtain ⟨⟨-, hspace⟩, hrest⟩ := h
    rw [hbuffer] at hspace
    rw [InStep]
    split
    · next hshort =>
      rw [if_pos hshort] at hrest
      exact ih hshort.le hrest
    · next hfull =>
      rw [if_neg hfull] at hrest
      exact ⟨.inl (by omega), ih (Nat.zero_le _) hrest⟩

/-- With faults and stalls off, every stream that is read in these sizes has its whole payloads
echoed exactly when no read passes the end of a payload with another one to follow. From 64 KiB on
the buffer is one payload, and no read does. -/
theorem serve_echoes_iff (hoff : ∀ i, (interlude i).Off) (hpos : 1 ≤ payload)
    (hoffered : Offered payload 0 sizes) :
    ((∀ reads : List Text, reads.map List.length = sizes →
        echoed (serve interlude payload reads 0 []) = wholePayloads payload reads.flatten) ↔
      InStep payload 0 sizes) ∧
      (64 * 1024 ≤ payload → InStep payload 0 sizes) := by
  refine ⟨⟨fun hechoed => ?_, fun hstep reads hreads => ?_⟩, fun hlarge => ?_⟩
  · refine inStep_of_echoed hoff hpos 0 hoffered.pos fun filled reads hfilled hreads => ?_
    obtain rfl := List.length_eq_zero_iff.mp hfilled
    exact hechoed reads hreads
  · subst hreads
    refine echoed_of_inStep hoff hpos (fun got hgot => ?_) hpos hstep
    exact List.ne_nil_of_length_pos (hoffered.pos _ (List.mem_map_of_mem hgot))
  · exact inStep_of_offered hlarge (Nat.zero_le _) hoffered

/-- Two payloads of two bytes in three reads, the last of which brings a byte more. -/
theorem serve_echoes_iff_two :
    echoed (serve (fun _ => {}) 2 ["a".toList, "b".toList, "cde".toList] 0 []) =
      wholePayloads 2 ["a".toList, "b".toList, "cde".toList].flatten :=
  (serve_echoes_iff (fun _ => ⟨rfl, rfl⟩) (by decide)
    (by simp [Offered, bufferSize] : Offered 2 0 [1, 1, 3])).1.mpr (by simp [InStep]) _ rfl

/-- A read of three bytes takes one of the second payload with it, which is not echoed. -/
theorem serve_drops_surplus :
    Offered 2 0 [3, 1] ∧
      wholePayloads 2 ["abc".toList, "d".toList].flatten = "abcd".toList ∧
      echoed (serve (fun _ => {}) 2 ["abc".toList, "d".toList] 0 []) = "ab".toList ∧
      echoed (serve (fun _ => {}) 2 ["abc".toList, "d".toList] 0 []) ≠
        wholePayloads 2 ["abc".toList, "d".toList].flatten := by
  refine ⟨by simp [Offered, bufferSize], ?_, ?_, ?_⟩
  · decide
  · decide
  · decide

end Serving

end Null

end Dariyanaap
