import ConstDb.Index.Buckets
import Mathlib.Data.List.FinRange

/-!
# Stable partition

The run of a bucket is the sublist of the entries that fall into it. The counting pass says how
many entries fall into lower buckets (`getElem_runStarts`), which is where a run begins; `Placed`
is the invariant of the second pass. Main statement: `toList_run`.
-/

namespace ConstDb.Buckets

def inBucket (bucket : Bucket) (entries : List Slot) : List Slot :=
  entries.filter (·.hash.bucket = bucket)

/-- The number of entries that fall into buckets below `index`. -/
def below (index : Nat) (entries : List Slot) : Nat :=
  entries.countP (·.hash.bucket.val < index)

theorem below_succ (bucket : Bucket) (entries : List Slot) :
    below (bucket.val + 1) entries = below bucket.val entries + (inBucket bucket entries).length := by
  unfold below inBucket
  induction entries with
  | nil => rfl
  | cons entry entries ih =>
    rw [List.countP_cons, List.countP_cons, ih, List.filter_cons]
    rcases Nat.lt_trichotomy entry.hash.bucket.val bucket.val with h | h | h
    · have ne : entry.hash.bucket ≠ bucket := fun eq => by rw [eq] at h; omega
      simp [ne, h, Nat.lt_succ_of_lt h]; omega
    · have eq : entry.hash.bucket = bucket := Fin.ext h
      simp [eq]; omega
    · have ne : entry.hash.bucket ≠ bucket := fun eq => by rw [eq] at h; omega
      simp [ne, Nat.not_lt.2 (Nat.le_of_lt h), Nat.not_lt.2 h]

theorem below_mono {i j : Nat} (le : i ≤ j) (entries : List Slot) :
    below i entries ≤ below j entries :=
  List.countP_mono_left fun _ _ h => by simp at h ⊢; omega

theorem below_le_length (index : Nat) (entries : List Slot) : below index entries ≤ entries.length :=
  List.countP_le_length

/-! ## Counting -/

theorem getElem_counts (entries : Array Slot) (bucket : Bucket) :
    (counts entries)[bucket] = (inBucket bucket entries.toList).length := by
  have step : ∀ (more : List Slot) (sums : Vector Nat bucketCount),
      (more.foldl (fun sums entry => sums.set entry.hash.bucket (sums[entry.hash.bucket] + 1))
        sums)[bucket] = sums[bucket] + (inBucket bucket more).length := by
    intro more
    induction more with
    | nil => exact fun _ => rfl
    | cons entry more ih =>
      intro sums
      rw [List.foldl_cons, ih]
      unfold inBucket
      rw [List.filter_cons]
      by_cases eq : entry.hash.bucket = bucket
      · subst eq
        simp; omega
      · have ne : entry.hash.bucket.val ≠ bucket.val := fun same => eq (Fin.ext same)
        simp [eq, Vector.getElem_set_ne _ _ ne]
  unfold counts
  rw [← Array.foldl_toList, step]
  simp

theorem getElem_runStarts (entries : Array Slot) {index : Nat} (le : index ≤ bucketCount) :
    (runStarts (counts entries))[index] = below index entries.toList := by
  let add : Vector Nat (bucketCount + 1) → Bucket → Vector Nat (bucketCount + 1) :=
    fun starts b => starts.set (b.val + 1) (starts[b.val] + (counts entries)[b])
  have sums : ∀ stop ≤ bucketCount, ∀ (i : Nat) (_ : i ≤ stop) (_ : i < bucketCount + 1),
      (((List.finRange bucketCount).take stop).foldl add (Vector.replicate _ 0))[i] =
        below i entries.toList := by
    intro stop
    induction stop with
    | zero =>
      intro _ i hi _
      obtain rfl : i = 0 := by omega
      simp [below]
    | succ stop ih =>
      intro inside i hi bound
      have lt : stop < (List.finRange bucketCount).length := by rw [List.length_finRange]; exact inside
      have last : (List.finRange bucketCount)[stop] = ⟨stop, inside⟩ := by simp
      rw [List.take_succ_eq_append_getElem lt, List.foldl_append, last, List.foldl_cons,
        List.foldl_nil]
      simp only [add]
      rcases Nat.lt_or_ge i (stop + 1) with h | h
      · rw [Vector.getElem_set_ne _ _ (by omega)]
        exact ih (by omega) i (by omega) bound
      · obtain rfl : i = stop + 1 := by omega
        rw [Vector.getElem_set_self, getElem_counts, ih (by omega) stop (Nat.le_refl _) (by omega)]
        exact (below_succ ⟨stop, inside⟩ entries.toList).symm
  unfold runStarts
  rw [Fin.foldl_eq_finRange_foldl]
  have := sums bucketCount (Nat.le_refl _) index le (by omega)
  rwa [List.take_of_length_le (by simp)] at this

/-! ## Placing -/

/-- What the second pass has done once `done` is dealt with, when `entries` are to be placed. -/
structure Placed (entries done : List Slot) (placement : Placement) : Prop where
  size_eq : placement.placed.size = entries.length
  next_eq : ∀ bucket : Bucket,
    placement.next[bucket.val] = below bucket.val entries + (inBucket bucket done).length
  placed_eq : ∀ (bucket : Bucket) (i : Nat) (entry : Slot), (inBucket bucket done)[i]? = some entry →
    placement.placed[below bucket.val entries + i]? = some entry

theorem run_apart {entries : List Slot} {bucket other : Bucket} {i j : Nat}
    (hi : i < (inBucket bucket entries).length) (hj : j < (inBucket other entries).length)
    (same : below bucket.val entries + i = below other.val entries + j) : bucket = other ∧ i = j := by
  have after := below_succ bucket entries
  have after' := below_succ other entries
  rcases Nat.lt_trichotomy bucket.val other.val with h | h | h
  · have := below_mono (i := bucket.val + 1) h entries
    omega
  · obtain rfl := Fin.ext h
    exact ⟨rfl, by omega⟩
  · have := below_mono (i := other.val + 1) h entries
    omega

theorem inBucket_append (bucket : Bucket) (front back : List Slot) :
    inBucket bucket (front ++ back) = inBucket bucket front ++ inBucket bucket back :=
  List.filter_append ..

/-- There is room in an entry's run for all that fell into it so far and for the entry. -/
theorem length_inBucket_cut {entries done rest : List Slot} {entry : Slot}
    (cut : entries = done ++ entry :: rest) (bucket : Bucket) :
    (inBucket bucket done).length + (inBucket bucket [entry]).length ≤ (inBucket bucket entries).length := by
  rw [cut, List.append_cons, inBucket_append, inBucket_append]
  simp

theorem inBucket_own (entry : Slot) : inBucket entry.hash.bucket [entry] = [entry] := by
  simp [inBucket]

/-- The next free place of an entry's run is in the run. -/
theorem place_lt {entries done rest : List Slot} {entry : Slot} (cut : entries = done ++ entry :: rest) :
    below entry.hash.bucket.val entries + (inBucket entry.hash.bucket done).length <
      below (entry.hash.bucket.val + 1) entries := by
  have room := length_inBucket_cut cut entry.hash.bucket
  rw [inBucket_own, List.length_singleton] at room
  rw [below_succ]
  omega

theorem Placed.put {entries done rest : List Slot} {entry : Slot} {placement : Placement}
    (placed : Placed entries done placement) (cut : entries = done ++ entry :: rest) :
    Placed entries (done ++ [entry]) (placement.put entry) := by
  obtain ⟨size_eq, next_eq, placed_eq⟩ := placed
  have own := inBucket_own entry
  have others : ∀ bucket, bucket ≠ entry.hash.bucket → inBucket bucket [entry] = [] := by
    intro bucket ne
    simp [inBucket, Ne.symm ne]
  have run := length_inBucket_cut cut
  have room := run entry.hash.bucket
  rw [own, List.length_singleton] at room
  have place := next_eq entry.hash.bucket
  have inside : below entry.hash.bucket.val entries + (inBucket entry.hash.bucket done).length <
      placement.placed.size := by
    rw [size_eq]
    exact Nat.lt_of_lt_of_le (place_lt cut) (below_le_length _ entries)
  refine ⟨by simpa [Placement.put] using size_eq, fun bucket => ?_, fun bucket i e at_i => ?_⟩
  · simp only [Placement.put]
    rw [inBucket_append, List.length_append]
    by_cases eq : bucket = entry.hash.bucket
    · subst eq
      rw [Vector.getElem_set_self, place, own, List.length_singleton, Nat.add_assoc]
    · have ne : entry.hash.bucket.val ≠ bucket.val := fun same => eq (Fin.ext same.symm)
      rw [Vector.getElem_set_ne _ _ ne, next_eq, others bucket eq]
      rfl
  · simp only [Placement.put]
    rw [place, Array.getElem?_setIfInBounds]
    rw [inBucket_append] at at_i
    have hi : i < (inBucket bucket entries).length := by
      have := (List.getElem?_eq_some_iff.1 at_i).1
      have := run bucket
      rw [List.length_append] at *
      omega
    split
    · next here =>
      obtain ⟨rfl, rfl⟩ := run_apart (by omega) hi here
      rw [own, List.getElem?_concat_length] at at_i
      simpa [inside] using at_i
    · next elsewhere =>
      refine placed_eq bucket i e ?_
      by_cases eq : bucket = entry.hash.bucket
      · subst eq
        rw [own] at at_i
        have : i ≠ (inBucket entry.hash.bucket done).length := fun same => elsewhere (by rw [same])
        have := (List.getElem?_eq_some_iff.1 at_i).1
        rw [List.length_append, List.length_singleton] at this
        rwa [List.getElem?_append_left (by omega)] at at_i
      · rwa [others bucket eq, List.append_nil] at at_i

theorem placed_foldl {entries : List Slot} (rest : List Slot) :
    ∀ {more done : List Slot} {placement : Placement}, Placed entries done placement →
      entries = done ++ (more ++ rest) → Placed entries (done ++ more) (more.foldl Placement.put placement)
  | [], done, placement, placed, _ => by
    rw [List.append_nil]
    exact placed
  | entry :: more, done, placement, placed, cut => by
    have next : Placed entries (done ++ [entry] ++ more) (more.foldl Placement.put (placement.put entry)) :=
      placed_foldl rest (placed.put cut) (by simp [cut])
    rwa [← List.append_cons] at next

/-- The second pass once `done` is dealt with. -/
def partway (entries : Array Slot) (done : List Slot) : Placement :=
  done.foldl Placement.put ⟨Array.replicate entries.size Slot.empty, runStarts (counts entries)⟩

theorem placed_partway {entries : Array Slot} {done rest : List Slot} (cut : entries.toList = done ++ rest) :
    Placed entries.toList done (partway entries done) := by
  have start : Placed entries.toList []
      ⟨Array.replicate entries.size Slot.empty, runStarts (counts entries)⟩ := by
    refine ⟨by simp, fun bucket => ?_, fun bucket i entry at_i => by simp [inBucket] at at_i⟩
    have := getElem_runStarts entries (Nat.le_of_lt bucket.isLt)
    simpa [inBucket] using this
  exact placed_foldl rest start cut

theorem ofEntries_eq (entries : Array Slot) : ofEntries entries =
    ⟨(partway entries entries.toList).placed, runStarts (counts entries)⟩ := by
  unfold ofEntries partway
  rw [Array.foldl_toList]

/-- **The sort is a stable partition.** -/
theorem toList_run (entries : Array Slot) (bucket : Bucket) :
    ((ofEntries entries).run bucket).toList = inBucket bucket entries.toList := by
  have placed := placed_partway (List.append_nil entries.toList).symm
  have size := placed.size_eq
  have after := below_succ bucket entries.toList
  have inside := below_le_length (bucket.val + 1) entries.toList
  have starts := getElem_runStarts entries (Nat.le_of_lt bucket.isLt)
  have stops := getElem_runStarts entries (Nat.succ_le_of_lt bucket.isLt)
  rw [ofEntries_eq, run, starts, stops]
  apply List.ext_getElem
  · simp
    omega
  intro i _ hi
  have := placed.placed_eq bucket i _ (List.getElem?_eq_getElem hi)
  simpa using (Array.getElem?_eq_some_iff.1 this).2

end ConstDb.Buckets
