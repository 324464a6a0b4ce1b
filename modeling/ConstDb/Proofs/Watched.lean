import ConstDb.Proofs.Calls

/-!
# Sinks that are watched

`Sink.watched` notes every moment of a sink: where it stands, which bytes it has taken and at which offsets,
and its own state. A file may fail at any time, but what it holds then is still what it has taken
(`FaultyFile`). So all that happens to a file while bytes are written to it in a row is that it holds longer
and longer fronts of them (`FaultyFile.accounts`).
-/

namespace ConstDb

open Effect

/-! ## Bytes at offsets -/

/-- The bytes, each with its offset when the first of them stands at `start`. -/
def laid (start : Nat) (bytes : ByteArray) : List (UInt8 × Nat) := bytes.data.toList.zipIdx start

@[simp] theorem laid_empty (start : Nat) : laid start .empty = [] := rfl

theorem laid_append (start : Nat) (front back : ByteArray) :
    laid start (front ++ back) = laid start front ++ laid (start + front.size) back := by
  simp [laid, List.zipIdx_append]

theorem mem_laid {start offset : Nat} {bytes : ByteArray} {byte : UInt8}
    (member : (byte, offset) ∈ laid start bytes) : start ≤ offset ∧ offset < start + bytes.size := by
  obtain ⟨le, lt, -⟩ := List.mem_zipIdx member
  exact ⟨le, by simpa using lt⟩

/-! ## Moments -/

structure Moment (σ : Type) where
  position : Nat
  /-- The bytes taken so far, each with the offset where it was written. -/
  written : List (UInt8 × Nat)
  state : σ

/-- All moments up to now. -/
structure History (σ : Type) where
  before : List (Moment σ)
  now : Moment σ

namespace History

variable {σ : Type}

def begin (position : Nat) (s : σ) : History σ := ⟨[], ⟨position, [], s⟩⟩

def moments (history : History σ) : List (Moment σ) := history.before ++ [history.now]

def next (history : History σ) (moment : Moment σ) : History σ := ⟨history.moments, moment⟩

theorem moments_next (history : History σ) (moment : Moment σ) :
    (history.next moment).moments = history.moments ++ [moment] := rfl

theorem now_mem (history : History σ) : history.now ∈ history.moments :=
  List.mem_append_right _ (List.mem_singleton_self _)

def Throughout (history : History σ) (holds : Moment σ → Prop) : Prop :=
  ∀ moment ∈ history.moments, holds moment

theorem Throughout.next {history : History σ} {holds : Moment σ → Prop}
    (throughout : history.Throughout holds) {moment : Moment σ} (last : holds moment) :
    (history.next moment).Throughout holds := by
  intro other member
  rw [moments_next] at member
  rcases List.mem_append.1 member with before | here
  · exact throughout other before
  · rwa [List.mem_singleton.1 here]

end History

/-- The action, with a new moment noted behind it. A call that fails moves nothing. -/
def watching {σ α : Type} (after : α → Moment σ → Moment σ) (action : Effect IoError σ α) :
    Effect IoError (History σ) α := fun history =>
  match action history.now.state with
  | .ok a s => .ok a (history.next { after a history.now with state := s })
  | .error e s => .error e (history.next { history.now with state := s })

section watching
variable {σ α : Type} {after : α → Moment σ → Moment σ} {action : Effect IoError σ α}
variable {history : History σ} {s : σ}

theorem watching_ok {a : α} (eq : action history.now.state = .ok a s) :
    watching after action history = .ok a (history.next { after a history.now with state := s }) := by
  simp only [watching, eq]

theorem watching_error {e : IoError} (eq : action history.now.state = .error e s) :
    watching after action history = .error e (history.next { history.now with state := s }) := by
  simp only [watching, eq]

theorem watching_ends {post : α → History σ → Prop} {failed : IoError → History σ → Prop}
    (ends : Ends action history.now.state
      (fun a s => post a (history.next { after a history.now with state := s }))
      fun e s => failed e (history.next { history.now with state := s })) :
    Ends (watching after action) history post failed := by
  cases eq : action history.now.state with
  | ok a s => exact ends_of_ok (watching_ok eq) (ends.of_ok eq)
  | error e s => exact ends_of_error (watching_error eq) (ends.of_error eq)

theorem watching_inStep (history : History σ) :
    InUnison (fun history s => history.now.state = s) (fun _ _ => False) (watching after action) action
      history history.now.state := by
  cases eq : action history.now.state with
  | ok a s => exact inStep_of_ok (watching_ok eq) eq ⟨rfl, rfl⟩
  | error e s => exact inStep_of_error (watching_error eq) eq rfl

end watching

namespace Moment

variable {σ : Type}

def take (bytes : ByteArray) (count : Nat) (moment : Moment σ) : Moment σ :=
  { moment with
    position := moment.position + count
    written := moment.written ++ laid moment.position (bytes.extract 0 count) }

def move (position : Nat) (moment : Moment σ) : Moment σ := { moment with position }

end Moment

def Sink.watched {σ : Type} (sink : Sink σ) : Sink (History σ) where
  write bytes := watching (fun count => .take bytes count) (sink.write bytes)
  seek position := watching (fun _ => .move position) (sink.seek position)
  flush := watching (fun _ => id) sink.flush
  patience history := sink.patience history.now.state
  write_le := by
    intro bytes history count next h
    cases eq : sink.write bytes history.now.state with
    | ok count s =>
      rw [watching_ok eq] at h
      cases h
      exact sink.write_le eq
    | error e s =>
      rw [watching_error eq] at h
      cases h
  patience_lt := by
    intro bytes history e next h interrupted
    cases eq : sink.write bytes history.now.state with
    | ok count s =>
      rw [watching_ok eq] at h
      cases h
    | error e s =>
      rw [watching_error eq] at h
      cases h
      exact sink.patience_lt eq interrupted

/-- Watching changes nothing. -/
theorem Sink.watched_wraps {σ : Type} (sink : Sink σ) :
    sink.watched.Wraps sink fun history => history.now.state where
  write _ := watching_inStep
  seek _ := watching_inStep
  flush := watching_inStep

/-! ## Files that may fail -/

section files
variable {σ : Type} {sink : Sink σ} {shows : σ → ByteArray → Nat → Prop}

/-- A sink that treats its content as a file does, and may fail at any call. A write that fails has taken
nothing, and no call that fails changes the content. -/
structure FaultyFile (sink : Sink σ) (shows : σ → ByteArray → Nat → Prop) : Prop where
  write : ∀ {s content offset} (bytes : ByteArray), shows s content offset →
    Ends (sink.write bytes) s
      (fun count t => shows t (Bytes.overwrite content offset (bytes.extract 0 count)) (offset + count))
      fun _ t => shows t content offset
  seek : ∀ {s content offset} (position : Nat), shows s content offset →
    Ends (sink.seek position) s (fun _ t => shows t content position)
      fun _ t => ∃ position, shows t content position
  flush : ∀ {s content offset}, shows s content offset →
    Ends sink.flush s (fun _ t => shows t content offset) fun _ t => shows t content offset

/-- Since the content was `content` and what had been written was `base`, just the bytes `taken` were
written, from `start` on. Of any moment before, `earlier` holds. -/
structure Follows (shows : σ → ByteArray → Nat → Prop) (earlier : Moment σ → Prop)
    (content : ByteArray) (start : Nat) (base : List (UInt8 × Nat)) (history : History σ)
    (taken : ByteArray) : Prop where
  moments : ∀ moment ∈ history.moments, earlier moment ∨
    ∃ front, Bytes.Leads front taken ∧ moment.written = base ++ laid start front ∧
      ∃ position, shows moment.state (Bytes.overwrite content start front) position
  written_eq : history.now.written = base ++ laid start taken
  position_eq : history.now.position = start + taken.size
  shown : shows history.now.state (Bytes.overwrite content start taken) (start + taken.size)

variable {earlier : Moment σ → Prop} {content taken : ByteArray} {start : Nat}
variable {base : List (UInt8 × Nat)} {history : History σ}

theorem Follows.next (follows : Follows shows earlier content start base history taken)
    {moment : Moment σ} {more : ByteArray} (leads : Bytes.Leads taken more)
    (written_eq : moment.written = base ++ laid start more)
    (position_eq : moment.position = start + more.size)
    (shown : shows moment.state (Bytes.overwrite content start more) (start + more.size)) :
    Follows shows earlier content start base (history.next moment) more := by
  refine ⟨?_, written_eq, position_eq, shown⟩
  intro other member
  rw [History.moments_next] at member
  rcases List.mem_append.1 member with before | last
  · refine (follows.moments other before).imp_right fun between => ?_
    obtain ⟨front, leads', h⟩ := between
    exact ⟨front, leads'.trans leads, h⟩
  · obtain rfl := List.mem_singleton.1 last
    exact .inr ⟨more, Bytes.leads_refl more, written_eq, _, shown⟩

/-- Nothing was written. -/
theorem Follows.stay (follows : Follows shows earlier content start base history taken) {s : σ}
    (shown : shows s (Bytes.overwrite content start taken) (start + taken.size)) :
    Follows shows earlier content start base (history.next { history.now with state := s }) taken :=
  follows.next (Bytes.leads_refl taken) follows.written_eq follows.position_eq shown

theorem FaultyFile.accounts (file : FaultyFile sink shows) (earlier : Moment σ → Prop)
    (content : ByteArray) (start : Nat) (base : List (UInt8 × Nat)) :
    sink.watched.Accounts (Follows shows earlier content start base) where
  accepts {history next taken bytes count} follows eq := by
    have ends : Ends (sink.watched.write bytes) history (fun count next =>
        Follows shows earlier content start base next (taken ++ bytes.extract 0 count))
        fun _ _ => True := by
      apply watching_ends
      cases wrote : sink.write bytes history.now.state with
      | error e s => exact ends_of_error wrote trivial
      | ok count s =>
        have shown := (file.write bytes follows.shown).of_ok wrote
        have le := sink.write_le wrote
        have size : (bytes.extract 0 count).size = count := by simp; omega
        have length : start + (taken ++ bytes.extract 0 count).size = start + taken.size + count := by
          rw [ByteArray.size_append, size, Nat.add_assoc]
        refine ends_of_ok wrote (follows.next ⟨_, rfl⟩ ?_ ?_ ?_)
        · rw [Moment.take, follows.written_eq, follows.position_eq, laid_append, List.append_assoc]
        · rw [Moment.take, follows.position_eq, length]
        · rwa [length, ← Bytes.overwrite_overwrite]
    exact ends.of_ok eq
  refuses {history next taken bytes e} follows eq := by
    have ends : Ends (sink.watched.write bytes) history (fun _ _ => True)
        fun _ next => Follows shows earlier content start base next taken := by
      apply watching_ends
      exact (file.write bytes follows.shown).mono (fun _ _ _ => trivial) fun _ _ => follows.stay
    exact ends.of_error eq

theorem FaultyFile.flush_follows (file : FaultyFile sink shows)
    (follows : Follows shows earlier content start base history taken) :
    Ends sink.watched.flush history
      (fun _ next => Follows shows earlier content start base next taken)
      fun _ next => Follows shows earlier content start base next taken := by
  apply watching_ends
  exact (file.flush follows.shown).mono (fun _ _ => follows.stay) fun _ _ => follows.stay

/-- From a seek on, something else is written. -/
theorem FaultyFile.seek_follows (file : FaultyFile sink shows) {offset : Nat} (position : Nat)
    (throughout : history.Throughout earlier)
    (failed : ∀ s offset, shows s content offset → earlier { history.now with state := s })
    (shown : shows history.now.state content offset) :
    Ends (sink.watched.seek position) history
      (fun _ next => Follows shows earlier content position history.now.written next .empty)
      fun _ next => next.Throughout earlier := by
  apply watching_ends
  refine (file.seek position shown).mono (fun _ s shown => ?_) fun _ s moved => ?_
  · have start : history.now.written = history.now.written ++ laid position .empty := by
      rw [laid_empty, List.append_nil]
    have shown : shows s (Bytes.overwrite content position .empty) position := by
      rwa [Bytes.overwrite_empty]
    refine ⟨?_, start, rfl, shown⟩
    intro moment member
    rw [History.moments_next] at member
    rcases List.mem_append.1 member with before | last
    · exact .inl (throughout moment before)
    · obtain rfl := List.mem_singleton.1 last
      exact .inr ⟨.empty, Bytes.leads_refl .empty, start, _, shown⟩
  · obtain ⟨offset, shown⟩ := moved
    exact throughout.next (failed s offset shown)

end files

/-- Whatever its scripts are. -/
theorem MemorySink.faultyFile : FaultyFile calls (Shows False) where
  write {s content offset} bytes shown := by
    cases eq : calls.write bytes s with
    | ok count t => exact ends_of_ok eq ((write_ends bytes shown).of_ok eq).1
    | error e t =>
      obtain ⟨_, _, keeps, writes, _, _⟩ := s
      obtain ⟨rfl, rfl, rfl, -⟩ := shown
      refine ends_of_error eq ?_
      simp only [calls, write] at eq
      split at eq
      · cases eq
        exact ⟨rfl, rfl, rfl, False.elim⟩
      · cases eq
  seek {s content offset} position shown := by
    cases eq : calls.seek position s with
    | ok _ t => exact ends_of_ok eq ((seek_ends position shown).of_ok eq)
    | error e t =>
      obtain ⟨kept, rfl, rfl, -⟩ := shown
      refine ends_of_error eq ?_
      simp only [calls, seek] at eq
      split at eq
      · cases eq
        exact ⟨_, kept, rfl, rfl, False.elim⟩
      · cases eq
  flush {s content offset} shown := by
    cases eq : calls.flush s with
    | ok _ t => exact ends_of_ok eq ((flush_ends shown).of_ok eq)
    | error e t =>
      obtain ⟨kept, rfl, rfl, -⟩ := shown
      refine ends_of_error eq ?_
      simp only [calls, flush] at eq
      split at eq
      · cases eq
        exact ⟨kept, rfl, rfl, False.elim⟩
      · cases eq

end ConstDb
