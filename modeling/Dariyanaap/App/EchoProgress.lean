import Dariyanaap.App.Echo

/-!
# Progress of the rig against the null target

A connection on which nothing fails, no request is dropped and no hang is set, and whose worker does
not leave. A signal is no step of an exchange; every other step begins one, ends what holds a reply,
or hands over or returns at least one byte. Such a step can always be taken, and there are at most
`4 * n + 2` of them in an exchange of `n` bytes each way: one to begin it, one to end what holds the
reply, and one for each byte that is sent or received at either end (`progress`).
-/

namespace Dariyanaap

namespace Echo

open WriteAll (Send)
open Null (Interlude)

/-! ## Steps that fail nothing -/

/-- A `send` that hands over some bytes, or is interrupted by a signal. -/
def sendSmooth : Send → Bool
  | .wrote count => 0 < count
  | .failed errno => errno = .eintr

/-- A `recv` that does not fail but for a signal. -/
def recvSmooth : Recv → Bool
  | .got _ => true
  | .failed errno => errno = .eintr

/-- Whether a `send` is more than a signal. -/
def sendAdvances : Send → Bool
  | .wrote _ => true
  | .failed _ => false

/-- Whether a `recv` is more than a signal. -/
def recvAdvances : Recv → Bool
  | .got _ => true
  | .failed _ => false

/-- A step in which nothing fails, and the worker does not leave. -/
def Label.smooth : Label → Bool
  | .begin _ | .server .respond => true
  | .leave => false
  | .client (.send result _) | .server (.send result) => sendSmooth result
  | .client (.recv result _) | .server (.recv result) => recvSmooth result

/-- A step of an exchange: it is begun, what holds its reply ends, or a call is no signal. -/
def Label.advances : Label → Bool
  | .begin _ | .server .respond => true
  | .leave => false
  | .client (.send result _) | .server (.send result) => sendAdvances result
  | .client (.recv result _) | .server (.recv result) => recvAdvances result

/-- What a step adds to the progress at least. -/
def gain (advances : Bool) : ℕ := if advances then 1 else 0

/-- Nothing but its stall and its latency holds a reply: no hang is set. -/
def answers (now : Interlude) : Bool := !(now.knobs.beforeResponse now.jitter).hangs

/-- A step that need not wait for anyone to end a hang. -/
def Due (interlude : ℕ → Interlude) (c : Connection) (a : Label) : Prop :=
  a = .server .respond → answers (interlude c.service.request) = true

/-- The phases of a connection on which nothing has failed, with the progress of the exchange. -/
inductive Live (n : ℕ) (requests : ℕ → Text) (c : Connection) : ℕ → Prop
  | idle (hclient : c.client = .idle) (hup : c.up = []) (hdown : c.down = [])
      (hstage : c.service.stage = .reading []) : Live n requests c 0
  | asking (sent : Instant) (w : WriteAll.Write) (filled : Text)
      (hclient : c.client = .asking sent (.writing w)) (hgoing : w.ended = none)
      (hwrite : WriteAll.InStep (requests c.exchanges.length) w)
      (hstage : c.service.stage = .reading filled)
      (hbytes : filled ++ c.up = (requests c.exchanges.length).take w.sent) (hdown : c.down = []) :
      Live n requests c (1 + w.sent + filled.length)
  | asked (sent : Instant) (filled : Text) (hclient : c.client = .asking sent (.reading []))
      (hstage : c.service.stage = .reading filled)
      (hbytes : filled ++ c.up = requests c.exchanges.length)
      (hshort : filled.length < n) (hdown : c.down = []) : Live n requests c (1 + n + filled.length)
  | held (sent : Instant) (hclient : c.client = .asking sent (.reading []))
      (hstage : c.service.stage = .holding (requests c.exchanges.length)) (hup : c.up = [])
      (hdown : c.down = []) : Live n requests c (1 + 2 * n)
  | answering (sent : Instant) (received : Text) (w : WriteAll.Write)
      (hclient : c.client = .asking sent (.reading received))
      (hstage : c.service.stage = .answering (requests c.exchanges.length) w)
      (hgoing : w.ended = none)
      (hwrite : WriteAll.InStep (requests c.exchanges.length) w)
      (hbytes : received ++ c.down = (requests c.exchanges.length).take w.sent) (hup : c.up = []) :
      Live n requests c (2 + 2 * n + w.sent + received.length)
  | answered (sent : Instant) (received : Text)
      (hclient : c.client = .asking sent (.reading received))
      (hstage : c.service.stage = .reading [])
      (hbytes : received ++ c.down = requests c.exchanges.length)
      (hshort : received.length < n) (hup : c.up = []) :
      Live n requests c (2 + 3 * n + received.length)

/-- What a step leads to that makes some progress. -/
def Advanced (n : ℕ) (requests : ℕ → Text) (successes progress : ℕ) (c' : Connection) : Prop :=
  ∃ progress', Live n requests c' progress' ∧
    (4 * n + 2) * successes + progress ≤ (4 * n + 2) * c'.successes + progress'

section Progress

variable {interlude : ℕ → Interlude} {requests : ℕ → Text} {n buffer p p' successes : ℕ}
  {c c' : Connection} {a : Label} {sent now : Instant} {w : WriteAll.Write}
  {data filled received : Text} {send : Send} {result : Recv} {stage : PerformRequest.Stage}
  {labels later : List Label}

/-- The progress of an exchange under way. -/
theorem Advanced.of_le (hsuccesses : c'.successes = successes) (h : Live n requests c' p')
    (hle : p ≤ p') : Advanced n requests successes p c' :=
  ⟨p', h, by rw [hsuccesses]; exact Nat.add_le_add_left hle _⟩

/-- A smooth turn of `write_all` ends the call or gets on with it. -/
theorem Sent.of_smooth {w' : WriteAll.Write} (h : Sent data w send w')
    (hsmooth : sendSmooth send = true) :
    w'.ended = none ∧ w.sent + gain (sendAdvances send) ≤ w'.sent ∨
      w'.ended = some .returned ∧ w'.sent = data.length := by
  cases h with
  | more hgoing hle hlt =>
    refine .inl ⟨hgoing, ?_⟩
    cases send with
    | wrote count => exact hlt count rfl
    | failed errno => exact hle
  | whole hreturned hall => exact .inr ⟨hreturned, hall⟩
  | failed _ hcause =>
    rcases hcause with rfl | ⟨errno, hbroken, rfl⟩
    · simp [sendSmooth] at hsmooth
    · exact absurd (of_decide_eq_true hsmooth) hbroken

/-- Nothing closes a connection on which nothing fails. -/
theorem not_cause {closed : Bool} (hopen : closed = false) (hsmooth : recvSmooth result = true) :
    ¬((result = .got [] ∧ closed = true) ∨ ∃ errno, Broken errno ∧ result = .failed errno) := by
  rintro (⟨-, hclosed⟩ | ⟨errno, hbroken, rfl⟩)
  · rw [hopen] at hclosed
    cases hclosed
  · exact absurd (of_decide_eq_true hsmooth) hbroken

/-- A smooth `recv` gets on by what it returns. -/
theorem add_gain_le {before after : ℕ} (hle : before ≤ after)
    (hlt : ∀ bytes, result = .got bytes → before < after) :
    before + gain (recvAdvances result) ≤ after := by
  cases result with
  | got bytes => exact hlt bytes rfl
  | failed errno => exact hle

/-- The worker in `write_all`. -/
theorem Live.client_send (hlength : ∀ i, (requests i).length = n)
    (h : Live n requests c p) (hclient : c.client = .asking sent (.writing w))
    (hpermitted : WriteAll.Permitted (requests c.exchanges.length) w send)
    (hsmooth : sendSmooth send = true) :
    Advanced n requests c.successes (p + gain (sendAdvances send))
      (settle { c with up := c.up ++ w.handed (requests c.exchanges.length) send } sent
        (PerformRequest.afterWrite sent now (w.turn (requests c.exchanges.length) send))) := by
  cases h with
  | asking sent' w' filled hother hgoing hwrite hstage hbytes hdown =>
    obtain ⟨rfl, rfl⟩ : sent' = sent ∧ w' = w := Client.writing_inj (hother.symm.trans hclient)
    obtain ⟨hfront, hlt⟩ := front_le_sent hwrite hgoing hbytes
    rw [hlength] at hlt
    have hhanded : filled ++ (c.up ++ w'.handed (requests c.exchanges.length) send) =
        (requests c.exchanges.length).take (w'.turn (requests c.exchanges.length) send).sent := by
      rw [← List.append_assoc, hbytes, WriteAll.take_append_handed hpermitted]
    rw [PerformRequest.afterWrite]
    rcases (sent_turn hwrite hgoing hpermitted).of_smooth hsmooth with
      ⟨hgoing', hgain⟩ | ⟨hreturned, hall⟩
    · rw [hgoing']
      exact .of_le rfl (.asking sent' _ filled rfl hgoing' (hwrite.turn hgoing hpermitted) hstage
        hhanded hdown) (by omega)
    · rw [hreturned]
      rw [hall, List.take_length] at hhanded
      have hone : gain (sendAdvances send) ≤ 1 := by cases send <;> simp [gain, sendAdvances]
      exact .of_le rfl (.asked sent' filled rfl hstage hhanded (by omega) hdown) (by omega)
  | idle hother | asked sent filled hother | held sent hother | answering sent received w hother
  | answered sent received hother =>
    rw [hother] at hclient
    cases hclient

/-- The worker in `read_some`. -/
theorem Live.client_recv (hpos : 1 ≤ n) (hlength : ∀ i, (requests i).length = n)
    (h : Live n requests c p) {down : Text}
    (hclient : c.client = .asking sent (.reading received))
    (hdeliver : deliver c.down (c.service.stage = .returned) buffer result = some down)
    (hturn : PerformRequest.turn (RawEcho.sending (requests c.exchanges.length)) sent
      (.reading received) (.recv result now) = some stage) (hsmooth : recvSmooth result = true) :
    Advanced n requests c.successes (p + gain (recvAdvances result))
      (settle { c with down := down } sent stage) := by
  obtain rfl := hlength c.exchanges.length
  -- nothing is on its way to a worker that waits for a first byte
  have hwaiting : received = [] → c.down = [] → decide (c.service.stage = .returned) = false →
      stage = .reading [] ∧ down = [] ∧ gain (recvAdvances result) = 0 := by
    rintro rfl hdown hopen
    rw [hdown] at hdeliver
    cases received_turn (isPrefix_of_nil rfl) hpos hdeliver hturn with
    | more received' _ hbytes _ hle hlt =>
      obtain ⟨rfl, rfl⟩ := List.append_eq_nil_iff.mp hbytes
      exact ⟨rfl, rfl, Nat.le_zero.mp (by simpa using add_gain_le hle hlt)⟩
    | whole e hbytes => exact absurd hbytes.symm (List.ne_nil_of_length_pos hpos)
    | failed e _ _ _ _ hcause => exact absurd hcause (not_cause hopen hsmooth)
  cases h with
  | asked sent' filled hother hstage hbytes hshort hdown =>
    obtain ⟨rfl, rfl⟩ : sent' = sent ∧ [] = received :=
      Client.reading_inj (hother.symm.trans hclient)
    obtain ⟨rfl, rfl, hgain⟩ := hwaiting rfl hdown (by simp [hstage])
    rw [hgain]
    exact .of_le rfl (.asked sent' filled rfl hstage hbytes hshort rfl) le_rfl
  | held sent' hother hstage hup hdown =>
    obtain ⟨rfl, rfl⟩ : sent' = sent ∧ [] = received :=
      Client.reading_inj (hother.symm.trans hclient)
    obtain ⟨rfl, rfl, hgain⟩ := hwaiting rfl hdown (by simp [hstage])
    rw [hgain]
    exact .of_le rfl (.held sent' rfl hstage hup rfl) le_rfl
  | answering sent' received' w hother hstage hgoing hwrite hbytes hup =>
    obtain ⟨rfl, rfl⟩ : sent' = sent ∧ received' = received :=
      Client.reading_inj (hother.symm.trans hclient)
    obtain ⟨hfront, hlt⟩ := front_le_sent hwrite hgoing hbytes
    cases received_turn (hbytes ▸ List.take_prefix _ _) (by omega) hdeliver hturn with
    | more received'' _ hmore _ hle hgrown =>
      have hgain := add_gain_le hle hgrown
      exact .of_le rfl (.answering sent' received'' w rfl hstage hgoing hwrite
        (hmore.trans hbytes) hup) (by omega)
    | whole e hwhole =>
      -- not all of the echo has been sent
      rw [hwhole, eq_comm, List.take_eq_self_iff] at hbytes
      omega
    | failed e _ _ _ _ hcause => exact absurd hcause (not_cause (by simp [hstage]) hsmooth)
  | answered sent' received' hother hstage hbytes hshort hup =>
    obtain ⟨rfl, rfl⟩ : sent' = sent ∧ received' = received :=
      Client.reading_inj (hother.symm.trans hclient)
    cases received_turn (hbytes ▸ List.prefix_rfl) hshort hdeliver hturn with
    | more received'' _ hmore hshort' hle hgrown =>
      have hgain := add_gain_le hle hgrown
      exact .of_le rfl (.answered sent' received'' rfl hstage (hmore.trans hbytes) hshort' hup)
        (by omega)
    | whole e _ houtcome husable =>
      -- the exchange is over, and counts as a success
      have hsuccesses : (settle { c with down := [] } sent'
          (.finished e (requests c.exchanges.length))).successes = c.successes + 1 := by
        simp [settle, Connection.successes, houtcome]
      have hone : gain (recvAdvances result) ≤ 1 := by cases result <;> simp [gain, recvAdvances]
      refine ⟨0, .idle (by simp [settle, husable]) hup rfl hstage, ?_⟩
      rw [hsuccesses, Nat.mul_succ]
      omega
    | failed e _ _ _ _ hcause => exact absurd hcause (not_cause (by simp [hstage]) hsmooth)
  | idle hother | asking sent w filled hother =>
    rw [hother] at hclient
    cases hclient

/-- The target in `read_some`. -/
theorem Live.server_recv (hpos : 1 ≤ n) (hlength : ∀ i, (requests i).length = n)
    (h : Live n requests c p) {up : Text}
    (hstage : c.service.stage = .reading filled)
    (hdeliver : deliver c.up (c.client = .gone) (Null.bufferSize n - filled.length) result =
      some up) (hsmooth : recvSmooth result = true) :
    Advanced n requests c.successes (p + gain (recvAdvances result))
      { c with
        service := { c.service with stage := Null.afterRecv n filled result }
        up := up } := by
  obtain rfl := hlength c.exchanges.length
  -- nothing is on its way to a target that waits for a request
  have hwaiting : filled = [] → c.up = [] → decide (c.client = .gone) = false →
      Null.afterRecv (requests c.exchanges.length).length filled result = .reading [] ∧ up = [] ∧
        gain (recvAdvances result) = 0 := by
    rintro rfl hup hopen
    rw [hup] at hdeliver
    have htaken : Taken (requests c.exchanges.length) [] [] (c.client = .gone) result
        (Null.afterRecv (requests c.exchanges.length).length [] result) up :=
      taken_afterRecv (isPrefix_of_nil rfl) hpos hdeliver
    generalize Null.afterRecv (requests c.exchanges.length).length [] result = next at htaken ⊢
    cases htaken with
    | more filled' _ hbytes _ hle hlt =>
      obtain ⟨rfl, rfl⟩ := List.append_eq_nil_iff.mp hbytes
      exact ⟨rfl, rfl, Nat.le_zero.mp (by simpa using add_gain_le hle hlt)⟩
    | whole hbytes => exact absurd hbytes.symm (List.ne_nil_of_length_pos hpos)
    | failed _ hcause => exact absurd hcause (not_cause hopen hsmooth)
  cases h with
  | idle hclient hup hdown hother =>
    obtain rfl : [] = filled := Null.Stage.reading.inj (hother.symm.trans hstage)
    obtain ⟨hnext, rfl, hgain⟩ := hwaiting rfl hup (by simp [hclient])
    rw [hgain]
    exact .of_le rfl (.idle hclient rfl hdown hnext) le_rfl
  | asking sent w filled' hclient hgoing hwrite hother hbytes hdown =>
    obtain rfl : filled' = filled := Null.Stage.reading.inj (hother.symm.trans hstage)
    obtain ⟨hfront, hlt⟩ := front_le_sent hwrite hgoing hbytes
    generalize hnext : Null.afterRecv (requests c.exchanges.length).length filled' result = next
    have htaken := taken_afterRecv (hbytes ▸ List.take_prefix _ _) (by omega) hdeliver
    rw [hnext] at htaken
    cases htaken with
    | more filled'' _ hmore _ hle hgrown =>
      have hgain := add_gain_le hle hgrown
      exact .of_le rfl (.asking sent w filled'' hclient hgoing hwrite rfl (hmore.trans hbytes)
        hdown) (by omega)
    | whole hwhole =>
      -- not all of the request has been sent
      rw [hwhole, eq_comm, List.take_eq_self_iff] at hbytes
      omega
    | failed _ hcause => exact absurd hcause (not_cause (by simp [hclient]) hsmooth)
  | asked sent filled' hclient hother hbytes hshort hdown =>
    obtain rfl : filled' = filled := Null.Stage.reading.inj (hother.symm.trans hstage)
    generalize hnext : Null.afterRecv (requests c.exchanges.length).length filled' result = next
    have htaken := taken_afterRecv (hbytes ▸ List.prefix_rfl) hshort hdeliver
    rw [hnext] at htaken
    cases htaken with
    | more filled'' _ hmore hshort' hle hgrown =>
      have hgain := add_gain_le hle hgrown
      exact .of_le rfl (.asked sent filled'' hclient rfl (hmore.trans hbytes) hshort' hdown)
        (by omega)
    | whole =>
      have hone : gain (recvAdvances result) ≤ 1 := by cases result <;> simp [gain, recvAdvances]
      exact .of_le rfl (.held sent hclient rfl rfl hdown) (by omega)
    | failed _ hcause => exact absurd hcause (not_cause (by simp [hclient]) hsmooth)
  | answered sent received hclient hother hbytes hshort hup =>
    obtain rfl : [] = filled := Null.Stage.reading.inj (hother.symm.trans hstage)
    obtain ⟨hnext, rfl, hgain⟩ := hwaiting rfl hup (by simp [hclient])
    rw [hgain]
    exact .of_le rfl (.answered sent received hclient hnext hbytes hshort rfl) le_rfl
  | held sent hclient hother | answering sent received w hclient hother =>
    rw [hother] at hstage
    cases hstage

/-- The target in `write_all`. -/
theorem Live.server_send (hlength : ∀ i, (requests i).length = n)
    (h : Live n requests c p) {reply : Text}
    (hstage : c.service.stage = .answering reply w)
    (hpermitted : WriteAll.Permitted reply w send) (hsmooth : sendSmooth send = true) :
    Advanced n requests c.successes (p + gain (sendAdvances send))
      { c with
        service :=
          { c.service with
            stage := Null.afterWrite reply (w.turn reply send)
            sent := c.service.sent ++ w.handed reply send }
        down := c.down ++ w.handed reply send } := by
  cases h with
  | answering sent received w' hclient hother hgoing hwrite hbytes hup =>
    obtain ⟨rfl, rfl⟩ : requests c.exchanges.length = reply ∧ w' = w :=
      Null.Stage.answering.inj (hother.symm.trans hstage)
    obtain ⟨hfront, hlt⟩ := front_le_sent hwrite hgoing hbytes
    rw [hlength] at hlt
    have hhanded : received ++ (c.down ++ w'.handed (requests c.exchanges.length) send) =
        (requests c.exchanges.length).take (w'.turn (requests c.exchanges.length) send).sent := by
      rw [← List.append_assoc, hbytes, WriteAll.take_append_handed hpermitted]
    rcases (sent_turn hwrite hgoing hpermitted).of_smooth hsmooth with
      ⟨hgoing', hgain⟩ | ⟨hreturned, hall⟩
    · refine .of_le rfl (.answering sent received _ hclient ?_ hgoing'
        (hwrite.turn hgoing hpermitted) hhanded hup) (by omega)
      rw [Null.afterWrite, hgoing']
    · rw [hall, List.take_length] at hhanded
      have hone : gain (sendAdvances send) ≤ 1 := by cases send <;> simp [gain, sendAdvances]
      refine .of_le rfl (.answered sent received hclient ?_ hhanded (by omega) hup) (by omega)
      rw [Null.afterWrite, hreturned]
  | idle _ _ _ hother | asking _ _ _ _ _ _ hother | asked _ _ _ hother
  | held _ _ hother | answered _ _ _ hother =>
    rw [hother] at hstage
    cases hstage

/-- Every smooth step gets on with the exchange under way, by one at least if it moves. -/
theorem Live.step (hpos : 1 ≤ n) (hlength : ∀ i, (requests i).length = n)
    (hkeep : ∀ i, drops (interlude i) = false) (h : Live n requests c p)
    (hsmooth : a.smooth = true) (hstep : step interlude n requests buffer c a = some c') :
    Advanced n requests c.successes (p + gain a.advances) c' := by
  cases a with
  | begin now =>
    rw [Echo.step] at hstep
    split at hstep
    · next hclient =>
      obtain rfl := Option.some.inj hstep
      cases h with
      | idle _ hup hdown hstage =>
        rw [enter_sending (hlength _ ▸ hpos)]
        exact .of_le rfl
          (.asking now _ [] rfl (going_enter (hlength _ ▸ hpos)) (.enter _) hstage hup hdown) le_rfl
      | asking sent w filled hother | asked sent filled hother | held sent hother
      | answering sent received w hother | answered sent received hother =>
        rw [hother] at hclient
        cases hclient
    · cases hstep
  | leave => cases hsmooth
  | client turn =>
    cases turn with
    | send result now =>
      rw [Echo.step] at hstep
      split at hstep
      · next sent w hclient =>
        split at hstep
        · next hpermitted =>
          obtain rfl := Option.some.inj hstep
          exact h.client_send hlength hclient hpermitted hsmooth
        · cases hstep
      · cases hstep
    | recv result now =>
      rw [Echo.step] at hstep
      split at hstep
      · next sent received hclient =>
        obtain ⟨down, hdeliver, hstep⟩ := Option.bind_eq_some_iff.mp hstep
        obtain ⟨stage, hturn, rfl⟩ := Option.map_eq_some_iff.mp hstep
        exact h.client_recv hpos hlength hclient hdeliver hturn hsmooth
      · cases hstep
  | server turn =>
    cases turn with
    | recv result =>
      rw [Echo.step] at hstep
      split at hstep
      · next filled hstage =>
        obtain ⟨up, hdeliver, hstep⟩ := Option.bind_eq_some_iff.mp hstep
        rw [Null.turn, hstage] at hstep
        obtain rfl := Option.some.inj hstep
        exact h.server_recv hpos hlength hstage hdeliver hsmooth
      · cases hstep
    | respond =>
      obtain ⟨service, hturn, rfl⟩ := Option.map_eq_some_iff.mp hstep
      cases h with
      | held sent hclient hstage hup hdown =>
        obtain ⟨-, hnext⟩ := respond_eq hstage hturn
        rw [hkeep, if_neg Bool.false_ne_true, List.take_of_length_le (hlength _).le,
          Null.afterWrite, going_enter (hlength _ ▸ hpos)] at hnext
        refine .of_le rfl (.answering sent [] _ hclient hnext (going_enter (hlength _ ▸ hpos))
          (.enter _) hdown hup) ?_
        simp only [gain, Label.advances, WriteAll.enter, if_true, List.length_nil]
        omega
      | idle _ _ _ hother | asking _ _ _ _ _ _ hother | asked _ _ _ hother
      | answering _ _ _ _ hother | answered _ _ _ hother =>
        rw [Null.turn, hother] at hturn
        cases hturn
    | send result =>
      rw [Echo.step] at hstep
      split at hstep
      · next reply w hstage =>
        obtain ⟨service, hturn, rfl⟩ := Option.map_eq_some_iff.mp hstep
        rw [Null.turn, hstage] at hturn
        dsimp only at hturn
        split at hturn
        · next hpermitted =>
          obtain rfl := Option.some.inj hturn
          exact h.server_send hlength hstage hpermitted hsmooth
        · cases hturn
      · cases hstep

/-- Where a smooth run from a live phase leads. -/
theorem Live.run (hpos : 1 ≤ n) (hlength : ∀ i, (requests i).length = n)
    (hkeep : ∀ i, drops (interlude i) = false) (h : Live n requests c p)
    (hsmooth : ∀ a ∈ labels, a.smooth = true)
    (hrun : Transition.run (Echo.step interlude n requests buffer) c labels = some c') :
    Advanced n requests c.successes (p + labels.countP Label.advances) c' := by
  -- the potential of a state counts the exchanges that are over, and the progress of the other
  have hrule := Transition.exists_add_countP_le Label.advances
    (P := fun c q => ∃ p, Live n requests c p ∧ (4 * n + 2) * c.successes + p = q)
    ?_ ⟨p, h, rfl⟩ hsmooth hrun
  · obtain ⟨_, ⟨p', hlive, rfl⟩, hle⟩ := hrule
    exact ⟨p', hlive, by rwa [← Nat.add_assoc]⟩
  · rintro c a c' _ ⟨p, hlive, rfl⟩ ha hstep
    obtain ⟨p', hlive', hle⟩ := hlive.step hpos hlength hkeep ha hstep
    refine ⟨_, ⟨p', hlive', rfl⟩, ?_⟩
    rw [Nat.add_assoc]
    exact hle

/-- An exchange under way has less progress than a whole one. -/
theorem Live.lt (hlength : ∀ i, (requests i).length = n) (h : Live n requests c p) :
    p < 4 * n + 2 := by
  cases h with
  | idle | held => omega
  | asked _ filled _ _ _ hshort => omega
  | answered _ received _ _ _ hshort => omega
  | asking _ w filled _ hgoing hwrite _ hbytes =>
    obtain ⟨hfront, hlt⟩ := front_le_sent hwrite hgoing hbytes
    rw [hlength] at hlt
    omega
  | answering _ received w _ _ hgoing hwrite hbytes =>
    obtain ⟨hfront, hlt⟩ := front_le_sent hwrite hgoing hbytes
    rw [hlength] at hlt
    omega

/-- A channel with a byte in it can give that byte. -/
theorem deliver_one {b : Char} {rest : Text} {closed : Bool} {space : ℕ} (hspace : 1 ≤ space) :
    deliver (b :: rest) closed space (.got [b]) = some rest := by
  rw [deliver, if_neg (List.cons_ne_nil b []), if_pos ⟨hspace, List.prefix_append [b] rest⟩]
  rfl

/-- A call of `write_all` under way can hand over a byte. -/
theorem permitted_one (hstep : WriteAll.InStep data w) (hgoing : w.ended = none) :
    WriteAll.Permitted data w (.wrote 1) := by
  have hlt := hstep.sent_lt hgoing
  rintro count ⟨rfl⟩
  rw [WriteAll.Write.offered, List.length_drop]
  omega

/-- What is left of a text is not empty. -/
theorem exists_cons_of_append {front rest whole : Text} (hbytes : front ++ rest = whole)
    (hshort : front.length < whole.length) : ∃ b later, rest = b :: later := by
  refine List.exists_cons_of_ne_nil ?_
  rintro rfl
  rw [← hbytes, List.append_nil] at hshort
  exact lt_irrefl _ hshort

/-- A live connection is not stuck. -/
theorem Live.exists_advance (hlength : ∀ i, (requests i).length = n)
    (hends : ∀ i, answers (interlude i) = true) (hbuffer : 1 ≤ buffer) (h : Live n requests c p) :
    ∃ a, a.smooth = true ∧ a.advances = true ∧ Due interlude c a ∧
      (Echo.step interlude n requests buffer c a).isSome := by
  cases h with
  | idle hclient =>
    refine ⟨.begin 0, rfl, rfl, by simp [Due], ?_⟩
    rw [Echo.step, hclient]
    rfl
  | asking sent w filled hclient hgoing hwrite =>
    refine ⟨.client (.send (.wrote 1) 0), rfl, rfl, by simp [Due], ?_⟩
    rw [Echo.step, hclient]
    dsimp only
    rw [if_pos (permitted_one hwrite hgoing)]
    rfl
  | asked sent filled hclient hstage hbytes hshort =>
    obtain ⟨b, later, hup⟩ := exists_cons_of_append hbytes ((hlength _).symm ▸ hshort)
    have hspace : 1 ≤ Null.bufferSize n - filled.length := by
      rw [Null.bufferSize]
      split <;> omega
    refine ⟨.server (.recv (.got [b])), rfl, rfl, by simp [Due], ?_⟩
    rw [Echo.step, hstage]
    dsimp only
    rw [hup, deliver_one hspace, Null.turn, hstage]
    rfl
  | held sent hclient hstage =>
    cases hanswer : Null.answer interlude n c.service.request (requests c.exchanges.length) with
    | nil =>
      refine ⟨.server .respond, rfl, rfl, fun _ => hends _, ?_⟩
      rw [Echo.step, Null.turn, hstage]
      dsimp only
      rw [hanswer]
      rfl
    | cons reply rest =>
      refine ⟨.server .respond, rfl, rfl, fun _ => hends _, ?_⟩
      rw [Echo.step, Null.turn, hstage]
      dsimp only
      rw [hanswer]
      rfl
  | answering sent received w hclient hstage hgoing hwrite =>
    refine ⟨.server (.send (.wrote 1)), rfl, rfl, by simp [Due], ?_⟩
    rw [Echo.step, hstage]
    dsimp only
    rw [Null.turn, hstage]
    dsimp only
    rw [if_pos (permitted_one hwrite hgoing)]
    rfl
  | answered sent received hclient hstage hbytes hshort =>
    obtain ⟨b, later, hdown⟩ := exists_cons_of_append hbytes ((hlength _).symm ▸ hshort)
    refine ⟨.client (.recv (.got [b]) 0), rfl, rfl, by simp [Due], ?_⟩
    rw [Echo.step, hclient]
    dsimp only
    rw [hdown, deliver_one hbuffer]
    rfl

/-- On a connection where nothing fails, no request is dropped and no hang is set, and whose worker
does not leave, a step of an exchange is due at any time, and any `4 * n + 2` of them complete an
exchange. -/
theorem progress (hpos : 1 ≤ n) (hlength : ∀ i, (requests i).length = n) (hbuffer : 1 ≤ buffer)
    (hkeep : ∀ i, drops (interlude i) = false) (hends : ∀ i, answers (interlude i) = true)
    (hsmooth : ∀ a ∈ labels ++ later, a.smooth = true)
    (hrun : Transition.run (step interlude n requests buffer) {} labels = some c)
    (hlater : Transition.run (step interlude n requests buffer) c later = some c') :
    (∃ a next, a.smooth = true ∧ a.advances = true ∧ Due interlude c a ∧
        step interlude n requests buffer c a = some next) ∧
      (4 * n + 2 ≤ later.countP Label.advances → c.successes < c'.successes) := by
  obtain ⟨hsmooth, hsmooth'⟩ := List.forall_mem_append.mp hsmooth
  have hstart : Live n requests {} 0 := .idle rfl rfl rfl rfl
  obtain ⟨p, hlive, -⟩ := hstart.run hpos hlength hkeep hsmooth hrun
  obtain ⟨a, ha, hadvance, hdue, hstep⟩ := hlive.exists_advance hlength hends hbuffer
  refine ⟨⟨a, _, ha, hadvance, hdue, (Option.some_get hstep).symm⟩, fun hadvances => ?_⟩
  obtain ⟨p', hlive', hle⟩ := hlive.run hpos hlength hkeep hsmooth' hlater
  have hlt := hlive'.lt hlength
  refine lt_of_not_ge fun hno => ?_
  have hmul := Nat.mul_le_mul_left (4 * n + 2) hno
  omega

/-- The steps of an exchange of one byte. -/
theorem progress_one :
    ({} : Connection).successes < Connection.successes
      { service := { request := 1, replies := [⟨0, {}, "a".toList⟩], sent := "a".toList }
        exchanges :=
          [({ outcome := .succeeded, elapsed := 3, connectionUsable := true },
            "a".toList)] } := by
  have hlater : Transition.run (step (fun _ => {}) 1 (fun _ => RawEcho.payload 1) 1) {}
      [.begin 0, .client (.send (.wrote 1) 1), .server (.recv (.got "a".toList)),
        .server .respond, .server (.send (.wrote 1)), .client (.recv (.got "a".toList) 3)] =
      some
        { service := { request := 1, replies := [⟨0, {}, "a".toList⟩], sent := "a".toList }
          exchanges :=
            [({ outcome := .succeeded, elapsed := 3, connectionUsable := true },
              "a".toList)] } := by
    decide
  exact (progress le_rfl (fun _ => rfl) le_rfl (fun _ => rfl) (fun _ => rfl) (by decide)
    Transition.run_nil hlater).2 (by decide)

end Progress

end Echo

end Dariyanaap
