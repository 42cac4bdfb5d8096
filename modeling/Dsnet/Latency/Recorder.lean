import Mathlib.Algebra.Order.Group.Nat

/-! `lib/latency.{h,cc}`: histograms of latencies, one for each type of sample that has been recorded.

    The distributions are taken from a small pool; `dists` tells where in the pool the one of a type is. Of
    the pool only the part in use is kept, the rest being as `LatencyInit` leaves it. A `Panic`, a failed
    `Assert`, a type beyond the array and a null pointer give `none`. -/

namespace Dsnet.Latency

/-- `LATENCY_MAX_DIST`. -/
def maxDist : Nat := 127

/-- `LATENCY_DIST_POOL_SIZE`. -/
def distPoolSize : Nat := 5

/-- `LATENCY_NUM_BUCKETS`. -/
def numBuckets : Nat := 65

/-- `Latency_Dist_t`. -/
@[ext] structure Dist where
  min : UInt64
  max : UInt64
  total : UInt64
  count : UInt64
  buckets : Nat → UInt32
  type : Nat

/-- `Latency_t`. -/
structure Recorder where
  dists : Nat → Option Nat
  distPool : List Dist

/-- A distribution that has just been taken from the pool. -/
def Dist.fresh (type : Nat) : Dist :=
  { min := ~~~0, max := 0, total := 0, count := 0, buckets := fun _ => 0, type := type }

/-- `LatencyInit`. -/
def latencyInit : Recorder := { dists := fun _ => none, distPool := [] }

/-- The loop over the bits of the value; 64 rounds are enough. -/
def bucketLoop : Nat → Nat → Nat → Nat
  | 0, _, bucket => bucket
  | n + 1, val, bucket => if val = 0 then bucket else bucketLoop n (val / 2) (bucket + 1)

/-- The bucket of a value. -/
def bucketOf (val : UInt64) : Nat := bucketLoop 64 (val.toNat / 2) 0

/-- `d->buckets[bucket] += count`. -/
def Dist.addCount (d : Dist) (bucket : Nat) (count : UInt32) : Dist :=
  { d with buckets := Function.update d.buckets bucket (d.buckets bucket + count) }

/-- The distribution of a type is changed in the pool. -/
def Recorder.modify (l : Recorder) (type : Nat) (f : Dist → Dist) : Option Recorder := do
  let i ← l.dists type
  return { l with distPool := l.distPool.modify i f }

/-- The first part of `LatencyAddHist`: the type has a distribution. -/
def Recorder.create (l : Recorder) (type : Nat) : Option Recorder :=
  if maxDist ≤ type then none
  else if l.dists type ≠ none then some l
  else if l.distPool.length = distPoolSize then none
  else some
    { dists := Function.update l.dists type (some l.distPool.length)
      distPool := l.distPool ++ [.fresh type] }

/-- `LatencyAddHist`. -/
def latencyAddHist (l : Recorder) (type : Nat) (val : UInt64) (count : UInt32) : Option Recorder := do
  let l ← l.create type
  if bucketOf val < numBuckets then l.modify type (·.addCount (bucketOf val) count) else none

/-- What `LatencyAdd` does besides. -/
def Dist.addSample (d : Dist) (val : UInt64) : Dist :=
  { d with
    min := if val < d.min then val else d.min
    max := if d.max < val then val else d.max
    total := d.total + val
    count := d.count + 1 }

/-- `LatencyAdd`. -/
def latencyAdd (l : Recorder) (type : Nat) (val : UInt64) : Option Recorder := do
  let l ← latencyAddHist l type val 1
  l.modify type (·.addSample val)

/-- All samples of a list are recorded. -/
def record (l : Recorder) (samples : List (Nat × UInt64)) : Option Recorder :=
  samples.foldlM (fun l x => latencyAdd l x.1 x.2) l

/-- The buckets of one distribution in the first loop of `Latency_Sum`. -/
def sumBuckets (d : Dist) (dest : Recorder) (buckets : List Nat) : Option Recorder :=
  buckets.foldlM (fun dest b =>
    if d.buckets b = 0 then some dest
    else latencyAddHist dest d.type (UInt64.ofNat (2 ^ b)) (d.buckets b)) dest

/-- What the second loop does with the distributions of a type. -/
def Dist.addTotals (dd ds : Dist) : Dist :=
  { dd with
    min := if ds.min < dd.min then ds.min else dd.min
    max := if dd.max < ds.max then ds.max else dd.max
    total := dd.total + ds.total
    count := dd.count + ds.count }

/-- A round of the second loop of `Latency_Sum`. -/
def sumTotals (summand dest : Recorder) (type : Nat) : Option Recorder :=
  match (summand.dists type).bind (summand.distPool[·]?) with
  | none => some dest
  | some ds => dest.modify type (·.addTotals ds)

/-- `Latency_Sum`. -/
def latencySum (dest summand : Recorder) : Option Recorder := do
  let dest ← summand.distPool.foldlM (fun dest d => sumBuckets d dest (List.range numBuckets)) dest
  (List.range maxDist).foldlM (sumTotals summand) dest

end Dsnet.Latency
