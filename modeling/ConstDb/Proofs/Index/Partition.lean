import ConstDb.Proofs.Index.Buckets
import Mathlib.Algebra.BigOperators.Group.List.Basic

/-!
# The partition by bucket

The second pass of the sort writes every entry inside the run of its bucket (`place_inside`). The runs lie
end to end (`flatMap_take_run`), and as each entry falls into one bucket, they are a permutation of the
entries (`perm_flatMap_inBucket`). Main statement: `stable_partition`.
-/

namespace ConstDb.Buckets

variable {index : Nat}

theorem bucket_val (h : Hash) : h.bucket.val = h.toUInt8.toNat := by
  simp [Hash.bucket, Fin.ofNat, bucketCount]

/-! ## Runs end to end -/

theorem entries_ofEntries (entries : Array Slot) :
    (ofEntries entries).entries = (partway entries entries.toList).placed := by
  rw [ofEntries_eq]

theorem size_entries (entries : Array Slot) : (ofEntries entries).entries.size = entries.size := by
  have placed := placed_partway (List.append_nil entries.toList).symm
  rw [entries_ofEntries, placed.size_eq, Array.length_toList]

/-- Where the run of a bucket begins. -/
def start (buckets : Buckets) (bucket : Bucket) : Nat := buckets.starts.get bucket.castSucc

def stop (buckets : Buckets) (bucket : Bucket) : Nat := buckets.starts.get bucket.succ

theorem run_eq (buckets : Buckets) (bucket : Bucket) :
    buckets.run bucket = buckets.entries.extract (buckets.start bucket) (buckets.stop bucket) := by
  unfold run start stop
  rfl

theorem get_starts (entries : Array Slot) (le : index ≤ bucketCount) :
    (ofEntries entries).starts.get ⟨index, Nat.lt_succ_of_le le⟩ = below index entries.toList := by
  have starts : (ofEntries entries).starts = runStarts (counts entries) := by rw [ofEntries_eq]
  rw [starts]
  exact getElem_runStarts entries le

theorem start_eq (entries : Array Slot) (bucket : Bucket) :
    (ofEntries entries).start bucket = below bucket.val entries.toList :=
  get_starts entries (Nat.le_of_lt bucket.isLt)

theorem stop_eq (entries : Array Slot) (bucket : Bucket) :
    (ofEntries entries).stop bucket = below (bucket.val + 1) entries.toList :=
  get_starts entries bucket.isLt

theorem below_zero (entries : List Slot) : below 0 entries = 0 := by
  simp [below]

theorem below_bucketCount (entries : List Slot) : below bucketCount entries = entries.length := by
  simp [below]

theorem toList_run_eq_take (entries : Array Slot) (bucket : Bucket) :
    ((ofEntries entries).run bucket).toList =
      ((ofEntries entries).entries.toList.drop (below bucket.val entries.toList)).take
        (inBucket bucket entries.toList).length := by
  rw [run_eq, start_eq, stop_eq, below_succ]
  simp

theorem flatMap_take_run (entries : Array Slot) : ∀ index ≤ bucketCount,
    ((List.finRange bucketCount).take index).flatMap (fun bucket => ((ofEntries entries).run bucket).toList) =
      (ofEntries entries).entries.toList.take (below index entries.toList)
  | 0, _ => by simp [below_zero]
  | index + 1, le => by
    have ih := flatMap_take_run entries index (Nat.le_of_succ_le le)
    have lt : index < (List.finRange bucketCount).length := by rw [List.length_finRange]; exact le
    have last : (List.finRange bucketCount)[index] = ⟨index, le⟩ := by simp
    have next := below_succ ⟨index, le⟩ entries.toList
    rw [List.take_succ_eq_append_getElem lt, List.flatMap_append, ih, last, List.flatMap_singleton,
      toList_run_eq_take, ← List.take_add, ← next]

/-! ## Each entry in one run -/

theorem perm_flatMap_inBucket (entries : List Slot) :
    ((List.finRange bucketCount).flatMap fun bucket => inBucket bucket entries).Perm entries := by
  rw [List.perm_iff_count]
  intro entry
  have elsewhere : ∀ bucket, bucket ≠ entry.hash.bucket → bucket ∈ List.finRange bucketCount →
      (inBucket bucket entries).count entry = 0 := by
    intro bucket ne _
    rw [List.count_eq_zero, inBucket, List.mem_filter]
    simp [ne.symm]
  have once : (List.finRange bucketCount).count entry.hash.bucket = 1 :=
    List.count_eq_one_of_mem (List.nodup_finRange _) (List.mem_finRange _)
  rw [List.count_flatMap, Function.comp_def, List.sum_map_eq_nsmul_single _ _ elsewhere, once, one_nsmul,
    inBucket, List.count_filter (by simp)]

/-! ## The largest table -/

theorem largestTable_eq (buckets : Buckets) :
    (∃ bucket, buckets.largestTable = 2 * (buckets.run bucket).size) ∧
      ∀ bucket, 2 * (buckets.run bucket).size ≤ buckets.largestTable := by
  have some : ((List.finRange bucketCount).map fun bucket => 2 * (buckets.run bucket).size) ≠ [] := by
    simp
  have greatest : buckets.largestTable = List.max _ some := by
    rw [largestTable, List.foldl_max_eq_max some, Nat.zero_max]
  rw [greatest]
  constructor
  · obtain ⟨bucket, -, eq⟩ := List.mem_map.1 (List.max_mem some)
    exact ⟨bucket, eq.symm⟩
  · intro bucket
    apply List.le_max_of_mem
    exact List.mem_map.2 ⟨bucket, List.mem_finRange bucket, rfl⟩

/-! ## The main statement -/

/-- A list of entries grouped by the low byte of their hashes. -/
structure Partition (entries : Array Slot) (buckets : Buckets) : Prop where
  run_eq : ∀ bucket : Bucket,
    (buckets.run bucket).toList = entries.toList.filter (·.hash.toUInt8.toNat = bucket.val)
  first : buckets.starts.get 0 = 0
  last : buckets.starts.get (Fin.last bucketCount) = buckets.entries.size
  ordered : ∀ bucket : Bucket, buckets.start bucket ≤ buckets.stop bucket
  inside : ∀ bucket : Bucket, buckets.stop bucket ≤ buckets.entries.size
  apart : ∀ bucket other : Bucket, bucket < other → buckets.stop bucket ≤ buckets.start other
  joined : (List.finRange bucketCount).flatMap (fun bucket => (buckets.run bucket).toList) =
    buckets.entries.toList
  perm : buckets.entries.toList.Perm entries.toList

theorem partition_ofEntries (entries : Array Slot) : Partition entries (ofEntries entries) := by
  have joined : (List.finRange bucketCount).flatMap (fun bucket => ((ofEntries entries).run bucket).toList) =
      (ofEntries entries).entries.toList := by
    have all := flatMap_take_run entries bucketCount (Nat.le_refl _)
    rwa [List.take_of_length_le (by simp), below_bucketCount,
      List.take_of_length_le (by simp [size_entries])] at all
  constructor
  case run_eq =>
    intro bucket
    rw [toList_run, inBucket]
    simp only [Fin.ext_iff, bucket_val]
  case first => exact (get_starts entries (Nat.zero_le _)).trans (below_zero _)
  case last =>
    rw [size_entries, ← Array.length_toList, ← below_bucketCount]
    exact get_starts entries (Nat.le_refl _)
  case ordered =>
    intro bucket
    rw [start_eq, stop_eq]
    exact below_mono (Nat.le_succ _) _
  case inside =>
    intro bucket
    rw [stop_eq, size_entries]
    simpa using below_le_length (bucket.val + 1) entries.toList
  case apart =>
    intro bucket other lt
    rw [stop_eq, start_eq]
    exact below_mono lt _
  case joined => exact joined
  case perm =>
    rw [← joined]
    simp only [toList_run]
    exact perm_flatMap_inBucket entries.toList

/-- The place that the second pass writes the next entry to, when it has dealt with `done`. -/
def place (entries : Array Slot) (done : List Slot) (entry : Slot) : Nat :=
  (partway entries done).next.get entry.hash.bucket.castSucc

/-- Each entry is written inside the array and inside the run of its bucket. -/
theorem place_inside {entries : Array Slot} {done rest : List Slot} {entry : Slot}
    (cut : entries.toList = done ++ entry :: rest) :
    place entries done entry < (partway entries done).placed.size ∧
      (ofEntries entries).start entry.hash.bucket ≤ place entries done entry ∧
      place entries done entry < (ofEntries entries).stop entry.hash.bucket := by
  have placed := placed_partway cut
  have next : place entries done entry = _ := placed.next_eq entry.hash.bucket
  have lt := place_lt cut
  have le := below_le_length (entry.hash.bucket.val + 1) entries.toList
  rw [placed.size_eq, start_eq, stop_eq]
  omega

/-- **The counting sort is a stable partition**, and no step of it leaves the arrays that it works on. -/
theorem stable_partition (entries : Array Slot) :
    (∀ (done rest : List Slot) (entry : Slot), entries.toList = done ++ entry :: rest →
      place entries done entry < (partway entries done).placed.size ∧
      (ofEntries entries).start entry.hash.bucket ≤ place entries done entry ∧
      place entries done entry < (ofEntries entries).stop entry.hash.bucket) ∧
    (ofEntries entries).entries = (partway entries entries.toList).placed ∧
    Partition entries (ofEntries entries) ∧
    (∃ bucket, (ofEntries entries).largestTable = 2 * ((ofEntries entries).run bucket).size) ∧
    (∀ bucket, 2 * ((ofEntries entries).run bucket).size ≤ (ofEntries entries).largestTable) := by
  obtain ⟨attained, greatest⟩ := largestTable_eq (ofEntries entries)
  exact ⟨fun _ _ _ cut => place_inside cut, entries_ofEntries entries, partition_ofEntries entries,
    attained, greatest⟩

end ConstDb.Buckets
