import ConstDb.Layout

/-!
# Entries by bucket

An index is made from the entries of all records, one slot for each record in the order in which
the records were added. A counting sort groups them by bucket without changing the order within
a bucket: one pass counts, prefix sums say where each bucket's run starts, and a second pass puts
every entry at the next free place of its run.
-/

namespace ConstDb

/-- Entries in bucket order: the run of bucket `b` lies between `starts[b]` and
`starts[b + 1]`. -/
structure Buckets where
  entries : Array Slot
  starts : Vector Nat (bucketCount + 1)

namespace Buckets

def counts (entries : Array Slot) : Vector Nat bucketCount :=
  entries.foldl (fun counts entry => counts.set entry.hash.bucket (counts[entry.hash.bucket] + 1))
    (Vector.replicate bucketCount 0)

/-- Where each bucket's run starts when runs of these lengths are laid end to end, and where the
last one ends. -/
def runStarts (counts : Vector Nat bucketCount) : Vector Nat (bucketCount + 1) :=
  Fin.foldl bucketCount
    (fun starts b => starts.set (b.val + 1) (starts[b.val] + counts[b]))
    (Vector.replicate (bucketCount + 1) 0)

/-- The second pass of the sort: the entries placed so far, and the next free place of each
bucket's run. -/
structure Placement where
  placed : Array Slot
  next : Vector Nat (bucketCount + 1)

def Placement.put : Placement → Slot → Placement
  | ⟨placed, next⟩, entry =>
    let bucket := entry.hash.bucket
    let place := next[bucket.val]
    ⟨placed.setIfInBounds place entry, next.set bucket.val (place + 1)⟩

def ofEntries (entries : Array Slot) : Buckets :=
  let starts := runStarts (counts entries)
  let placement := entries.foldl Placement.put ⟨Array.replicate entries.size Slot.empty, starts⟩
  ⟨placement.placed, starts⟩

def run (buckets : Buckets) (bucket : Bucket) : Array Slot :=
  buckets.entries.extract buckets.starts[bucket.val] buckets.starts[bucket.val + 1]

def largestTable (buckets : Buckets) : Nat :=
  ((List.finRange bucketCount).map fun bucket => 2 * (buckets.run bucket).size).foldl max 0

end Buckets

end ConstDb
