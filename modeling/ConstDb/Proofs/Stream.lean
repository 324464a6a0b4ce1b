import ConstDb.Proofs.Bytes
import ConstDb.Proofs.Effect
import ConstDb.Sink.Buffered
import ConstDb.Sink.Memory

/-!
# Streams through a buffer

What is put into an output buffer comes out of it as one stream: what the sink has taken, and behind
it what still waits (`Sent`). When a call of the sink fails for good, what waited is given up, and
the sink has taken a part of the stream that is not all of it (`Lost`). `stream_law` says so of any
requests to a buffer of any capacity.
-/

namespace ConstDb

open Effect Bytes

variable {σ : Type}

/-! ## What a sink takes -/

namespace Sink

/-- `took s taken` says that the sink of state `s` has taken the bytes `taken`, and `broken` says the
same of a sink that has failed for good, or has taken no byte of an offer. -/
structure Takes (sink : Sink σ) (took broken : σ → ByteArray → Prop) : Prop where
  write : ∀ {s taken} (bytes : ByteArray), took s taken →
    Ends (sink.write bytes) s
      (fun count t => if count = 0 ∧ bytes.size ≠ 0 then broken t taken
        else took t (taken ++ bytes.extract 0 count))
      fun e t => if e.isInterrupted = true then took t taken else broken t taken

/-- An account of what a sink accepts: as much of an offer as it answers, and nothing when the call
fails. -/
structure Accounts (sink : Sink σ) (took : σ → ByteArray → Prop) : Prop where
  accepts : ∀ {s t : σ} {taken bytes : ByteArray} {count : Nat}, took s taken →
    sink.write bytes s = .ok count t → took t (taken ++ bytes.extract 0 count)
  refuses : ∀ {s t : σ} {taken bytes : ByteArray} {e : IoError}, took s taken →
    sink.write bytes s = .error e t → took t taken

variable {sink : Sink σ} {took broken : σ → ByteArray → Prop}

theorem Accounts.takes (accounts : sink.Accounts took) : sink.Takes took took where
  write {s taken} bytes h := by
    cases eq : sink.write bytes s with
    | ok count t =>
      have after := accounts.accepts h eq
      refine ends_of_ok eq ?_
      split
      · next none => simpa [none.1] using after
      · exact after
    | error e t => exact ends_of_error eq (by simpa using accounts.refuses h eq)

/-- The account of what is taken from now on. -/
theorem Takes.shift (takes : sink.Takes took broken) (before : ByteArray) :
    sink.Takes (fun s taken => took s (before ++ taken)) fun s taken => broken s (before ++ taken) where
  write bytes h := by
    simpa only [ByteArray.append_assoc] using takes.write bytes h

end Sink

namespace MemorySink

/-- The sink keeps what it takes, has taken `taken` from `start` on, where it held `old`, and stands
behind that. -/
def Holds (old : ByteArray) (start : Nat) (sink : MemorySink) (taken : ByteArray) : Prop :=
  sink.keeps = true ∧ sink.content = overwrite old start taken ∧ sink.offset = start + taken.size

theorem accounts (old : ByteArray) (start : Nat) : calls.Accounts (Holds old start) where
  accepts {s t taken bytes count} h eq := by
    obtain ⟨content, offset, keeps, writes, seeks, flushes⟩ := s
    obtain ⟨rfl, rfl, rfl⟩ := h
    have le := calls.write_le eq
    have size : (bytes.extract 0 count).size = count := by simp; omega
    simp only [calls, write] at eq
    split at eq
    · cases eq
    · cases eq
      rw [Holds, ← overwrite_overwrite, ByteArray.size_append, size, ← Nat.add_assoc]
      exact ⟨rfl, rfl, rfl⟩
  refuses {s t taken bytes e} h eq := by
    obtain ⟨content, offset, keeps, writes, seeks, flushes⟩ := s
    simp only [calls, write] at eq
    split at eq
    · cases eq; exact h
    · cases eq

end MemorySink

namespace Sink

variable {sink : Sink σ} {took broken : σ → ByteArray → Prop}

/-! ## Writing all of it -/

theorem writeFully_eq (sink : Sink σ) (bytes : ByteArray) (s : σ) :
    sink.writeFully bytes s =
      if bytes.size = 0 then .ok () s
      else
        match sink.write bytes s with
        | .ok 0 t => .error .acceptedNothing t
        | .ok (count + 1) t => sink.writeFully (bytes.extract (count + 1) bytes.size) t
        | .error e t =>
          if e.isInterrupted = true then sink.writeFully bytes t else .error e t := by
  rw [Sink.writeFully]
  by_cases none : bytes.size = 0
  · rw [if_pos none, if_pos none]
  rw [if_neg none, if_neg none]
  split <;> next eq => simp [eq]

theorem writeFully_of_error {bytes : ByteArray} {s t : σ} {e : IoError}
    (some : bytes.size ≠ 0) (refused : sink.write bytes s = .error e t)
    (final : ¬ e.isInterrupted = true) : sink.writeFully bytes s = .error e t := by
  rw [writeFully_eq, if_neg some, refused]
  exact if_neg final

/-- All of it is taken, or the sink breaks before the end. -/
theorem Takes.writeFully (takes : sink.Takes took broken) (bytes : ByteArray) (s : σ) :
    ∀ {taken : ByteArray}, took s taken →
      Ends (sink.writeFully bytes) s (fun _ t => took t (taken ++ bytes))
        fun _ t => ∃ sent, LeadsShort sent bytes ∧ broken t (taken ++ sent) := by
  induction bytes, s using Sink.writeFully.induct sink with
  | case1 bytes s none =>
    intro taken h
    obtain rfl : bytes = .empty := ByteArray.size_eq_zero_iff.1 none
    refine ends_of_ok (by rw [writeFully_eq, if_pos none]) ?_
    simpa using h
  | case2 bytes s some t offered =>
    intro taken h
    have after := (takes.write bytes h).of_ok offered
    rw [if_pos ⟨rfl, some⟩] at after
    refine ends_of_error (by rw [writeFully_eq, if_neg some, offered]) ?_
    exact ⟨.empty, leadsShort_empty some, by simpa using after⟩
  | case3 bytes s some count t offered ih =>
    intro taken h
    have after := (takes.write bytes h).of_ok offered
    rw [if_neg fun stuck => Nat.succ_ne_zero count stuck.1] at after
    -- the front was taken, and the rest follows behind it
    have whole := extract_append_rest (sink.write_le offered)
    refine (ih after).mono (fun _ t h => ?_) (fun _ t h => ?_) |>.of_eq
      (by rw [writeFully_eq, if_neg some, offered])
    · rwa [ByteArray.append_assoc, whole] at h
    · obtain ⟨sent, short, h⟩ := h
      have short := short.append_left (bytes.extract 0 (count + 1))
      rw [whole] at short
      rw [ByteArray.append_assoc] at h
      exact ⟨_, short, h⟩
  | case4 bytes s some e t refused again ih =>
    intro taken h
    have after := (takes.write bytes h).of_error refused
    rw [if_pos again] at after
    refine (ih after).of_eq ?_
    rw [writeFully_eq, if_neg some, refused]
    exact if_pos again
  | case5 bytes s some e t refused final =>
    intro taken h
    have after := (takes.write bytes h).of_error refused
    rw [if_neg final] at after
    refine ends_of_error (writeFully_of_error some refused final) ?_
    exact ⟨.empty, leadsShort_empty some, by simpa using after⟩

end Sink

namespace OutBuffer

variable {sink : Sink σ} {took broken : σ → ByteArray → Prop} {stream : ByteArray}
variable {state : OutBuffer × σ}

/-! ## Sent and lost -/

/-- The sink has taken the stream up to what still waits in the buffer. -/
def Sent (took : σ → ByteArray → Prop) (stream : ByteArray) (state : OutBuffer × σ) : Prop :=
  ∃ sent, sent ++ state.1.pending = stream ∧ took state.2 sent

/-- The sink has broken before the end of the stream, and nothing waits for it any more. -/
def Lost (broken : σ → ByteArray → Prop) (stream : ByteArray) (state : OutBuffer × σ) : Prop :=
  state.1.pending = .empty ∧ ∃ sent, LeadsShort sent stream ∧ broken state.2 sent

theorem Sent.whole (h : Sent took stream state) (none : state.1.pending = .empty) :
    took state.2 stream := by
  obtain ⟨sent, eq, h⟩ := h
  rw [none, ByteArray.append_empty] at eq
  rwa [← eq]

theorem sent_of_took (h : took state.2 stream) (none : state.1.pending = .empty) :
    Sent took stream state :=
  ⟨stream, by rw [none, ByteArray.append_empty], h⟩

theorem Sent.good {good : σ → Prop} (h : Sent (fun s _ => good s) stream state) : good state.2 :=
  h.choose_spec.2

theorem Lost.bad {bad : σ → Prop} (lost : Lost (fun s _ => bad s) stream state) : bad state.2 :=
  lost.2.choose_spec.2

theorem Lost.append_right (lost : Lost broken stream state) (more : ByteArray) :
    Lost broken (stream ++ more) state := by
  obtain ⟨none, sent, short, h⟩ := lost
  exact ⟨none, sent, short.append_right more, h⟩

theorem writeThrough_sent (takes : sink.Takes took broken) (bytes : ByteArray)
    (sent : Sent took stream state) (none : state.1.pending = .empty) :
    Ends (writeThrough sink bytes) state
      (fun _ t => Sent took (stream ++ bytes) t ∧ t.1.pending = .empty)
      fun _ t => Lost broken (stream ++ bytes) t := by
  unfold writeThrough onSecond
  refine Ends.within ((takes.writeFully bytes state.2 (sent.whole none)).mono (fun _ t h => ?_)
    fun _ t h => ?_)
  · exact ⟨sent_of_took h none, none⟩
  · obtain ⟨more, short, h⟩ := h
    exact ⟨none, stream ++ more, short.append_left stream, h⟩

theorem writeThrough_empty (state : OutBuffer × σ) :
    writeThrough sink .empty state = .ok () state := by
  have : sink.writeFully .empty state.2 = .ok () state.2 := by
    rw [Sink.writeFully_eq, if_pos ByteArray.size_empty]
  simp only [writeThrough, onSecond, within, this]

theorem flush_sent (takes : sink.Takes took broken) (sent : Sent took stream state) :
    Ends (flush sink) state (fun _ t => Sent took stream t ∧ t.1.pending = .empty)
      fun _ t => Lost broken stream t := by
  obtain ⟨⟨capacity, pending⟩, s⟩ := state
  obtain ⟨front, rfl, h⟩ := sent
  have emptied : Sent took front (⟨capacity, .empty⟩, s) := sent_of_took h rfl
  exact (writeThrough_sent takes pending emptied rfl).of_eq rfl

theorem append_sent (bytes : ByteArray) {failed : IoError → OutBuffer × σ → Prop}
    (sent : Sent took stream state) :
    Ends (append bytes) state (fun _ t => Sent took (stream ++ bytes) t) failed := by
  obtain ⟨⟨capacity, pending⟩, s⟩ := state
  obtain ⟨front, rfl, h⟩ := sent
  exact ends_of_ok rfl ⟨front, ByteArray.append_assoc.symm, h⟩

theorem put_sent (takes : sink.Takes took broken) (bytes : ByteArray)
    (sent : Sent took stream state) :
    Ends (put sink bytes) state (fun _ t => Sent took (stream ++ bytes) t)
      fun _ t => Lost broken (stream ++ bytes) t := by
  have last : ∀ t : OutBuffer × σ, Sent took stream t →
      (state.1.capacity ≤ bytes.size → bytes = .empty ∨ t.1.pending = .empty) →
      Ends (if state.1.capacity ≤ bytes.size then writeThrough sink bytes else append bytes) t
        (fun _ t => Sent took (stream ++ bytes) t) fun _ t => Lost broken (stream ++ bytes) t := by
    intro t sent free
    split
    · next large =>
      rcases free large with rfl | none
      · exact ends_of_ok (writeThrough_empty t) (by rwa [ByteArray.append_empty])
      · exact (writeThrough_sent takes bytes sent none).mono (fun _ _ h => h.1) fun _ _ h => h
    · exact append_sent bytes sent
  refine Ends.bind (ends_get ?_)
  dsimp only
  split
  · refine Ends.bind ((flush_sent takes sent).mono ?_ fun _ _ lost => lost.append_right bytes)
    exact fun _ t h => last t h.1 fun _ => .inr h.2
  · next fits =>
    refine last state sent fun large => ?_
    -- what is as large as the buffer and fits behind what waits is empty, or nothing waits
    rw [← ByteArray.size_eq_zero_iff, ← ByteArray.size_eq_zero_iff]
    simp only [room] at fits
    omega

theorem putFlush_sent (takes : sink.Takes took broken) (bytes : ByteArray)
    (sent : Sent took stream state) :
    Ends (putFlush sink bytes) state
      (fun _ t => Sent took (stream ++ bytes) t ∧ t.1.pending = .empty)
      fun _ t => Lost broken (stream ++ bytes) t :=
  Ends.bind ((flush_sent takes sent).mono
    (fun _ _ h => writeThrough_sent takes bytes h.1 h.2) fun _ _ lost => lost.append_right bytes)

/-! ## Room -/

/-- What waits in a buffer of this capacity is no more than it can hold. -/
def Within (capacity : Nat) (state : OutBuffer × σ) : Prop :=
  state.1.capacity = capacity ∧ state.1.pending.size ≤ capacity

variable {capacity : Nat}

theorem Within.room (within : Within capacity state) :
    state.1.room + state.1.pending.size = capacity := by
  obtain ⟨rfl, le⟩ := within
  exact Nat.sub_add_cancel le

theorem within_ofCapacity (capacity : Nat) (s : σ) : Within capacity (ofCapacity capacity, s) :=
  ⟨rfl, Nat.zero_le capacity⟩

theorem writeThrough_buffer (sink : Sink σ) (bytes : ByteArray) (state : OutBuffer × σ) :
    Ends (writeThrough sink bytes) state (fun _ t => t.1 = state.1) fun _ t => t.1 = state.1 := by
  unfold writeThrough onSecond
  refine Ends.within ?_
  dsimp only
  cases eq : sink.writeFully bytes state.2 with
  | ok _ t => exact ends_of_ok eq rfl
  | error e t => exact ends_of_error eq rfl

theorem flush_buffer (sink : Sink σ) (state : OutBuffer × σ) :
    Ends (flush sink) state (fun _ t => t.1 = ofCapacity state.1.capacity)
      fun _ t => t.1 = ofCapacity state.1.capacity :=
  (writeThrough_buffer sink state.1.pending (ofCapacity state.1.capacity, state.2)).of_eq rfl

theorem put_within (sink : Sink σ) (bytes : ByteArray) (within : Within capacity state) :
    Ends (put sink bytes) state (fun _ t => Within capacity t) fun _ t => Within capacity t := by
  have last : ∀ t : OutBuffer × σ, Within capacity t →
      (¬ state.1.capacity ≤ bytes.size → bytes.size ≤ t.1.room) →
      Ends (if state.1.capacity ≤ bytes.size then writeThrough sink bytes else append bytes) t
        (fun _ t => Within capacity t) fun _ t => Within capacity t := by
    intro t within small
    split
    · exact (writeThrough_buffer sink bytes t).mono (fun _ u same => by rwa [Within, same])
        fun _ u same => by rwa [Within, same]
    · next less =>
      have room := within.room
      have fits := small less
      have le : (t.1.pending ++ bytes).size ≤ capacity := by
        rw [ByteArray.size_append]
        omega
      exact ends_of_ok rfl ⟨within.1, le⟩
  obtain ⟨rfl, le⟩ := within
  refine Ends.bind (ends_get ?_)
  dsimp only
  split
  · refine Ends.bind ((flush_buffer sink state).mono (fun _ t same => ?_) fun _ t same => ?_)
    · refine last t (by rw [Within, same]; exact ⟨rfl, Nat.zero_le _⟩) fun less => ?_
      rw [same]
      exact Nat.le_of_not_le less
    · rw [Within, same]
      exact ⟨rfl, Nat.zero_le _⟩
  · next fits => exact last state ⟨rfl, le⟩ fun _ => Nat.le_of_not_lt fits

theorem putFlush_buffer (sink : Sink σ) (bytes : ByteArray) (state : OutBuffer × σ) :
    Ends (putFlush sink bytes) state (fun _ t => t.1 = ofCapacity state.1.capacity)
      fun _ t => t.1 = ofCapacity state.1.capacity := by
  refine Ends.bind ((flush_buffer sink state).mono (fun _ t same => ?_) fun _ _ same => same)
  rw [← same]
  exact writeThrough_buffer sink bytes t

/-! ## Requests -/

inductive Request where
  | put (bytes : ByteArray)
  | putFlush (bytes : ByteArray)
  | flush

namespace Request

/-- What a request adds to the stream. -/
def bytes : Request → ByteArray
  | .put bytes | .putFlush bytes => bytes
  | .flush => .empty

/-- Nothing waits after such a request. -/
def Flushes : Request → Prop
  | .put _ => False
  | .putFlush _ | .flush => True

end Request

def perform (sink : Sink σ) : Request → Effect IoError (OutBuffer × σ) Unit
  | .put bytes => put sink bytes
  | .putFlush bytes => putFlush sink bytes
  | .flush => flush sink

/-- The state after some requests, whatever becomes of each of them. -/
def reached (sink : Sink σ) (requests : List Request) (state : OutBuffer × σ) : OutBuffer × σ :=
  requests.foldl (fun state request => (perform sink request).leaves state) state

/-- The bytes that some requests put out. -/
def streamOf (requests : List Request) : ByteArray := concat (requests.map Request.bytes)

theorem perform_within (sink : Sink σ) (request : Request) (within : Within capacity state) :
    Ends (perform sink request) state (fun _ t => Within capacity t) fun _ t => Within capacity t := by
  have emptied : ∀ t : OutBuffer × σ, t.1 = ofCapacity state.1.capacity → Within capacity t := by
    intro t same
    rw [Within, same, within.1]
    exact within_ofCapacity capacity state.2
  cases request with
  | put bytes => exact put_within sink bytes within
  | putFlush bytes =>
    exact (putFlush_buffer sink bytes state).mono (fun _ t => emptied t) fun _ t => emptied t
  | flush => exact (flush_buffer sink state).mono (fun _ t => emptied t) fun _ t => emptied t

theorem perform_sent (takes : sink.Takes took broken) (request : Request)
    (sent : Sent took stream state) :
    Ends (perform sink request) state
      (fun _ t => Sent took (stream ++ request.bytes) t ∧ (request.Flushes → t.1.pending = .empty))
      fun _ t => Lost broken (stream ++ request.bytes) t := by
  cases request with
  | put bytes =>
    exact (put_sent takes bytes sent).mono (fun _ _ h => ⟨h, False.elim⟩) fun _ _ h => h
  | putFlush bytes =>
    exact (putFlush_sent takes bytes sent).mono (fun _ _ h => ⟨h.1, fun _ => h.2⟩) fun _ _ h => h
  | flush =>
    rw [Request.bytes, ByteArray.append_empty]
    exact (flush_sent takes sent).mono (fun _ _ h => ⟨h.1, fun _ => h.2⟩) fun _ _ h => h

/-! ## Runs -/

theorem reached_within (sink : Sink σ) (requests : List Request) (within : Within capacity state) :
    Within capacity (reached sink requests state) := by
  induction requests generalizing state with
  | nil => exact within
  | cons request requests ih => exact ih (perform_within sink request within).leaves

theorem reached_took (accounts : sink.Accounts took) (requests : List Request) {taken : ByteArray}
    (begins : took state.2 taken) : ∃ taken, took (reached sink requests state).2 taken := by
  induction requests generalizing state taken with
  | nil => exact ⟨taken, begins⟩
  | cons request requests ih =>
    have ends : Ends (perform sink request) state (fun _ t => ∃ taken, took t.2 taken)
        fun _ t => ∃ taken, took t.2 taken := by
      refine (perform_sent accounts.takes request ⟨taken, rfl, begins⟩).mono ?_ ?_
      · intro _ t h
        obtain ⟨⟨sent, -, h⟩, -⟩ := h
        exact ⟨sent, h⟩
      · intro _ t h
        obtain ⟨-, sent, -, h⟩ := h
        exact ⟨sent, h⟩
    obtain ⟨taken, h⟩ := ends.leaves
    exact ih h

theorem forM_sent (takes : sink.Takes took broken) (requests : List Request)
    (sent : Sent took stream state) :
    Ends (requests.forM (perform sink)) state (fun _ t => Sent took (stream ++ streamOf requests) t)
      fun _ t => ∃ done request rest, requests = done ++ request :: rest ∧
        Lost broken (stream ++ streamOf (done ++ [request])) t := by
  induction requests generalizing stream state with
  | nil =>
    refine ends_pure ?_
    simpa [streamOf] using sent
  | cons request requests ih =>
    have cut : ∀ requests, streamOf (request :: requests) = request.bytes ++ streamOf requests :=
      fun _ => rfl
    refine Ends.bind ((perform_sent takes request sent).mono (fun _ t h => ?_) fun _ t lost => ?_)
    · refine (ih h.1).mono (fun _ t h => ?_) fun _ t h => ?_
      · rwa [cut, ← ByteArray.append_assoc]
      · obtain ⟨done, last, rest, rfl, lost⟩ := h
        refine ⟨request :: done, last, rest, rfl, ?_⟩
        rwa [List.cons_append, cut, ← ByteArray.append_assoc]
    · refine ⟨[], request, requests, rfl, ?_⟩
      rwa [List.nil_append, cut, streamOf, List.map_nil, concat_nil, ByteArray.append_empty]

/-- What holds of a state that a buffer of this capacity is brought into. A request that goes well
sends what waited and then what it adds, or lets some of it wait; one that fails sends a part of that
and gives up the rest. -/
structure Lawful (sink : Sink σ) (took : σ → ByteArray → Prop) (capacity : Nat)
    (state : OutBuffer × σ) : Prop where
  within : Within capacity state
  accounted : ∃ accepted, took state.2 accepted
  ends : ∀ {accepted}, took state.2 accepted → ∀ request : Request,
    Ends (perform sink request) state
      (fun _ t => (∃ more, more ++ t.1.pending = state.1.pending ++ request.bytes ∧
          took t.2 (accepted ++ more)) ∧
        (request.Flushes → t.1.pending = .empty ∧
          took t.2 (accepted ++ (state.1.pending ++ request.bytes))))
      fun _ t => t.1.pending = .empty ∧ ∃ more,
        LeadsShort more (state.1.pending ++ request.bytes) ∧ took t.2 (accepted ++ more)

/-- Every request to a buffer is obeyed as it should be, after whatever other requests. Up to the first
failure the sink gets what is put, in the order of the requests. -/
theorem stream_law (accounts : sink.Accounts took) {s : σ} (begins : took s .empty) (capacity : Nat)
    (requests : List Request) :
    Lawful sink took capacity (reached sink requests (ofCapacity capacity, s)) ∧
    Ends (requests.forM (perform sink)) (ofCapacity capacity, s)
      (fun _ t => ∃ accepted, accepted ++ t.1.pending = streamOf requests ∧ took t.2 accepted)
      fun _ t => t.1.pending = .empty ∧ ∃ accepted done request rest,
        requests = done ++ request :: rest ∧
          LeadsShort accepted (streamOf (done ++ [request])) ∧ took t.2 accepted := by
  refine ⟨⟨reached_within sink requests (within_ofCapacity capacity s),
    reached_took accounts requests begins, fun {accepted} h request => ?_⟩, ?_⟩
  · let state := reached sink requests (ofCapacity capacity, s)
    have sent : Sent (fun s more => took s (accepted ++ more)) state.1.pending state :=
      ⟨.empty, ByteArray.empty_append, by simpa using h⟩
    refine (perform_sent (accounts.takes.shift accepted) request sent).mono (fun _ t h => ?_)
      fun _ _ lost => lost
    exact ⟨h.1, fun flushes => ⟨h.2 flushes, h.1.whole (h.2 flushes)⟩⟩
  · have sent : Sent took .empty (ofCapacity capacity, s) := sent_of_took begins rfl
    refine (forM_sent accounts.takes requests sent).mono (fun _ t h => ?_) fun _ t h => ?_
    · rwa [ByteArray.empty_append] at h
    · obtain ⟨done, request, rest, eq, none, accepted, short, h⟩ := h
      rw [ByteArray.empty_append] at short
      exact ⟨none, accepted, done, request, rest, eq, short, h⟩

/-- It takes two bytes of its first offer, is interrupted, takes one byte more, and has no space left. -/
def leakySink : MemorySink :=
  let fates : List Fate :=
    [.accept 2, .fail ⟨.interrupted, ""⟩, .accept 1, .fail ⟨.named "StorageFull", "no space left"⟩]
  { MemorySink.empty with writes := .once fates }

theorem stream_law_leaky :
    let requests : List Request :=
      [.put "abc".toUTF8, .put "de".toUTF8, .flush, .putFlush "fghij".toUTF8]
    MemorySink.Holds .empty 0 leakySink .empty ∧
    Lawful MemorySink.calls (MemorySink.Holds .empty 0) 4
      (reached MemorySink.calls requests (ofCapacity 4, leakySink)) ∧
    Ends (requests.forM (perform MemorySink.calls)) (ofCapacity 4, leakySink)
      (fun _ t => ∃ accepted, accepted ++ t.1.pending = streamOf requests ∧
        MemorySink.Holds .empty 0 t.2 accepted)
      fun _ t => t.1.pending = .empty ∧ ∃ accepted done request rest,
        requests = done ++ request :: rest ∧ LeadsShort accepted (streamOf (done ++ [request])) ∧
          MemorySink.Holds .empty 0 t.2 accepted := by
  have begins : MemorySink.Holds .empty 0 leakySink .empty := ⟨rfl, by simp [leakySink, MemorySink.empty], rfl⟩
  exact ⟨begins, stream_law (MemorySink.accounts .empty 0) begins 4 _⟩

end OutBuffer

end ConstDb
