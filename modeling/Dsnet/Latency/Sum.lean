import Mathlib.Data.List.Nodup
import Mathlib.Data.List.Induction
import Dsnet.Latency.Recorder

/-! `Latency_Sum` gives the recorder that has all samples of both.

    A recorder is put down as the types of its pool, in their order, and a distribution for every type, which
    is `Dist.fresh` for those that are not in the pool (`Recorder.ofTypes`). Each operation then adds its type
    to the list and changes one distribution. -/

namespace Dsnet.Latency
variable {types types₁ types₂ : List Nat} {val val₁ val₂ : Nat → Dist} {type : Nat}

/-! ### Buckets -/

theorem bucketLoop_le : ∀ {n m val bucket : Nat}, val < 2 ^ m → bucketLoop n val bucket ≤ bucket + m
  | 0, _, _, _, _ => Nat.le_add_right ..
  | n + 1, m, val, bucket, h => by
      rw [bucketLoop]
      split_ifs with hval
      · exact Nat.le_add_right ..
      · cases m with
        | zero => omega
        | succ m =>
          have hrest : bucketLoop n (val / 2) (bucket + 1) ≤ bucket + 1 + m := bucketLoop_le (by omega)
          omega

theorem bucketLoop_pow : ∀ {n b bucket : Nat}, b ≤ n → bucketLoop n (2 ^ b / 2) bucket = bucket + b
  | 0, b, bucket, h => by
      obtain rfl : b = 0 := by omega
      rfl
  | n + 1, 0, bucket, _ => rfl
  | n + 1, b + 1, bucket, h => by
      have hpos : 0 < 2 ^ b := Nat.two_pow_pos b
      have hhalf : 2 ^ (b + 1) / 2 = 2 ^ b := by omega
      rw [hhalf, bucketLoop, if_neg (by omega), bucketLoop_pow (by omega)]
      omega

theorem bucketOf_lt (val : UInt64) : bucketOf val < 64 := by
  have h : val.toNat / 2 < 2 ^ 63 := by
    have := val.toNat_lt
    omega
  have hle : bucketOf val ≤ 0 + 63 := bucketLoop_le h
  omega

/-- The value that stands for a bucket in `Latency_Sum`. -/
theorem bucketOf_pow {b : Nat} (h : b < 64) : bucketOf (UInt64.ofNat (2 ^ b)) = b := by
  have hto : (UInt64.ofNat (2 ^ b)).toNat = 2 ^ b :=
    UInt64.toNat_ofNat_of_lt' (Nat.pow_lt_pow_right (by decide) h)
  rw [bucketOf, hto, bucketLoop_pow (by omega), Nat.zero_add]

/-! ### Distributions -/

/-- A sample is recorded. -/
def Dist.record (d : Dist) (val : UInt64) : Dist := (d.addCount (bucketOf val) 1).addSample val

/-- Two distributions in one. -/
def Dist.merge (dd ds : Dist) : Dist :=
  { dd.addTotals ds with buckets := fun b => dd.buckets b + ds.buckets b }

/-- A distribution with these buckets of another one added. -/
def Dist.addBuckets (dd ds : Dist) (bs : List Nat) : Dist :=
  { dd with buckets := fun b => dd.buckets b + if b ∈ bs then ds.buckets b else 0 }

theorem Dist.merge_fresh (d : Dist) (t : Nat) : d.merge (.fresh t) = d := by
  have hmin : ¬ (~~~0 : UInt64) < d.min := by
    rw [UInt64.lt_iff_toNat_lt]
    have := d.min.toNat_lt
    have hmax : (~~~0 : UInt64).toNat = 2 ^ 64 - 1 := rfl
    omega
  have hmax : ¬ d.max < (0 : UInt64) := by simp [UInt64.lt_iff_toNat_lt]
  rw [merge, addTotals, fresh]
  simp only [if_neg hmin, if_neg hmax, UInt64.add_zero, UInt32.add_zero]

/-- The least of three values, in either order. -/
theorem least_assoc (x y z : UInt64) :
    (if (if z < y then z else y) < x then if z < y then z else y else x) =
      if z < (if y < x then y else x) then z else if y < x then y else x := by
  simp only [UInt64.lt_iff_toNat_lt]
  split_ifs <;> first | rfl | omega

/-- And the greatest. -/
theorem greatest_assoc (x y z : UInt64) :
    (if x < (if y < z then z else y) then if y < z then z else y else x) =
      if (if x < y then y else x) < z then z else if x < y then y else x := by
  simp only [UInt64.lt_iff_toNat_lt]
  split_ifs <;> first | rfl | omega

/-- Recording in one of two distributions, or in both together. -/
theorem Dist.merge_record (dd ds : Dist) (val : UInt64) : dd.merge (ds.record val) = (dd.merge ds).record val := by
  have hbuckets : (fun b => dd.buckets b + Function.update ds.buckets (bucketOf val)
      (ds.buckets (bucketOf val) + 1) b) = Function.update (fun b => dd.buckets b + ds.buckets b) (bucketOf val)
        (dd.buckets (bucketOf val) + ds.buckets (bucketOf val) + 1) := by
    funext b
    by_cases hb : b = bucketOf val
    · subst hb
      rw [Function.update_self, Function.update_self, UInt32.add_assoc]
    · rw [Function.update_of_ne hb, Function.update_of_ne hb]
  exact Dist.ext (least_assoc ..) (greatest_assoc ..) (UInt64.add_assoc ..).symm (UInt64.add_assoc ..).symm hbuckets rfl

theorem Dist.merge_foldl (dd : Dist) (t : Nat) (vals : List UInt64) :
    dd.merge (vals.foldl record (.fresh t)) = vals.foldl record dd := by
  induction vals using List.reverseRecOn with
  | nil => exact dd.merge_fresh t
  | append_singleton vals val ih =>
    rw [List.foldl_concat, List.foldl_concat, merge_record, ih]

/-- What the buckets count. -/
theorem Dist.foldl_buckets (vals : List UInt64) (d : Dist) (b : Nat) :
    (vals.foldl record d).buckets b = d.buckets b + UInt32.ofNat (vals.countP (bucketOf · = b)) := by
  induction vals generalizing d with
  | nil => simp
  | cons val vals ih =>
    rw [List.foldl_cons, ih, List.countP_cons]
    by_cases hb : bucketOf val = b
    · subst hb
      rw [if_pos (by simp), UInt32.ofNat_add, UInt32.add_comm (UInt32.ofNat _), ← UInt32.add_assoc]
      simp [record, addSample, addCount]
    · simp [record, addSample, addCount, Function.update_of_ne (Ne.symm hb), hb]

/-! ### Recorders -/

/-- The recorder with these types, and these distributions for them. -/
def Recorder.ofTypes (types : List Nat) (val : Nat → Dist) : Recorder :=
  { dists := fun t => types.idxOf? t, distPool := types.map val }

/-- The types after a sample of this one. -/
def addType (types : List Nat) (type : Nat) : Option (List Nat) :=
  if maxDist ≤ type then none
  else if type ∈ types then some types
  else if types.length = distPoolSize then none
  else some (types ++ [type])

/-- There is one distribution for a type, and other types have none. -/
structure Sound (types : List Nat) (val : Nat → Dist) : Prop where
  nodup : types.Nodup
  bound : ∀ t ∈ types, t < maxDist
  fresh : ∀ t, t ∉ types → val t = .fresh t
  type : ∀ t, (val t).type = t

theorem mem_addType {types' : List Nat} (h : addType types type = some types') : type ∈ types' ∧ types ⊆ types' := by
  rw [addType] at h
  split_ifs at h with _ hmem
  · exact Option.some.inj h ▸ ⟨hmem, List.Subset.refl _⟩
  · exact Option.some.inj h ▸ ⟨by simp, List.subset_append_left ..⟩

theorem Sound.addType {types' : List Nat} (h : Sound types val) (ht : addType types type = some types') {d : Dist}
    (hd : d.type = type) : Sound types' (Function.update val type d) := by
  have hval : ∀ t, (Function.update val type d t).type = t := by
    intro t
    by_cases hne : t = type
    · rw [hne, Function.update_self, hd]
    · rw [Function.update_of_ne hne, h.type]
  obtain ⟨hin, hsub⟩ := mem_addType ht
  have hfresh : ∀ t, t ∉ types' → Function.update val type d t = .fresh t := by
    intro t hnot
    rw [Function.update_of_ne (ne_of_mem_of_not_mem hin hnot).symm, h.fresh t fun hmem => hnot (hsub hmem)]
  rw [Latency.addType] at ht
  split_ifs at ht with hmax hmem
  · exact ⟨Option.some.inj ht ▸ h.nodup, Option.some.inj ht ▸ h.bound, hfresh, hval⟩
  · obtain rfl := Option.some.inj ht
    refine ⟨?_, ?_, hfresh, hval⟩
    · rw [List.nodup_append]
      exact ⟨h.nodup, List.nodup_singleton _, fun a ha b hb hab => hmem (List.mem_singleton.mp hb ▸ hab ▸ ha)⟩
    · intro t ht
      rcases List.mem_append.mp ht with ht | ht
      · exact h.bound t ht
      · rw [List.mem_singleton.mp ht]
        omega

/-- The pool when one distribution in it is changed. -/
theorem modify_map {f : Dist → Dist} : ∀ {types : List Nat} {i : Nat}, types.Nodup → types.idxOf? type = some i →
    (types.map val).modify i f = types.map (Function.update val type (f (val type)))
  | t :: types, i, hnodup, h => by
      obtain ⟨hnot, hnodup⟩ := List.nodup_cons.mp hnodup
      rw [List.idxOf?_cons] at h
      by_cases ht : t = type
      · subst ht
        rw [if_pos (beq_self_eq_true t)] at h
        obtain rfl := Option.some.inj h
        rw [List.map_cons, List.map_cons, Function.update_self, List.modify_zero_cons]
        congr 1
        exact List.map_congr_left fun x hx => (Function.update_of_ne (ne_of_mem_of_not_mem hx hnot) ..).symm
      · rw [if_neg (by simpa using ht)] at h
        obtain ⟨j, hj, rfl⟩ := Option.map_eq_some_iff.mp h
        rw [List.map_cons, List.map_cons, List.modify_succ_cons, modify_map hnodup hj, Function.update_of_ne ht]

theorem modify_ofTypes {f : Dist → Dist} (hnodup : types.Nodup) (ht : type ∈ types) :
    (Recorder.ofTypes types val).modify type f =
      some (.ofTypes types (Function.update val type (f (val type)))) := by
  obtain ⟨i, hi⟩ := Option.isSome_iff_exists.mp (List.isSome_idxOf?.mpr ht)
  rw [Recorder.modify]
  simp only [Recorder.ofTypes, hi, Option.bind_eq_bind, Option.bind_some, modify_map hnodup hi]
  rfl

theorem idxOf?_concat (types : List Nat) (type t : Nat) :
    (types ++ [type]).idxOf? t = (types.idxOf? t).or (if type = t then some types.length else none) := by
  rw [List.idxOf?, List.findIdx?_append, List.findIdx?_singleton]
  by_cases ht : type = t <;> simp [ht]

theorem create_ofTypes (h : Sound types val) :
    (Recorder.ofTypes types val).create type = (addType types type).map (.ofTypes · val) := by
  rw [Recorder.create, addType]
  have hnone : (Recorder.ofTypes types val).dists type ≠ none ↔ type ∈ types := by
    rw [Recorder.ofTypes, ne_eq, List.idxOf?_eq_none_iff, not_not]
  have hlen : (Recorder.ofTypes types val).distPool.length = types.length := List.length_map ..
  simp only [hnone, hlen]
  split_ifs with hmax hmem hfull
  · rfl
  · rfl
  · rfl
  · rw [Option.map_some, Recorder.ofTypes, Recorder.ofTypes, List.map_append, List.map_singleton, h.fresh _ hmem]
    congr 2
    funext t
    rw [idxOf?_concat]
    by_cases ht : t = type
    · subst ht
      rw [Function.update_self, if_pos rfl, List.idxOf?_eq_none_iff.mpr hmem, Option.none_or]
    · rw [Function.update_of_ne ht, if_neg (Ne.symm ht), Option.or_none]

/-- `LatencyAddHist` changes the buckets of one distribution. -/
theorem latencyAddHist_ofTypes (h : Sound types val) (v : UInt64) (count : UInt32) :
    latencyAddHist (.ofTypes types val) type v count = (addType types type).map
      (.ofTypes · (Function.update val type ((val type).addCount (bucketOf v) count))) := by
  rw [latencyAddHist, create_ofTypes h]
  cases ht : addType types type with
  | none => rfl
  | some types' =>
    have hlt : bucketOf v < numBuckets := Nat.lt_trans (bucketOf_lt v) (by decide)
    have hnodup := (h.addType ht (h.type type)).nodup
    simp only [Option.map_some, Option.bind_eq_bind, Option.bind_some, if_pos hlt,
      modify_ofTypes hnodup (mem_addType ht).1]

theorem latencyAdd_ofTypes (h : Sound types val) (v : UInt64) :
    latencyAdd (.ofTypes types val) type v = (addType types type).map
      (.ofTypes · (Function.update val type ((val type).record v))) := by
  rw [latencyAdd, latencyAddHist_ofTypes h]
  cases ht : addType types type with
  | none => rfl
  | some types' =>
    have hnodup := (h.addType ht (h.type type)).nodup
    simp only [Option.map_some, Option.bind_eq_bind, Option.bind_some, modify_ofTypes hnodup (mem_addType ht).1,
      Function.update_self, Function.update_idem, Dist.record]

/-! ### Recording -/

/-- The samples of a type. -/
def samplesOf (samples : List (Nat × UInt64)) (type : Nat) : List UInt64 :=
  (samples.filter (·.1 = type)).map Prod.snd

/-- The distributions when these samples have been recorded. -/
def recorded (val : Nat → Dist) (samples : List (Nat × UInt64)) (type : Nat) : Dist :=
  (samplesOf samples type).foldl Dist.record (val type)

/-- The types after samples of these. -/
def addTypes (types ts : List Nat) : Option (List Nat) := ts.foldlM addType types

theorem addTypes_append (types ts ts' : List Nat) :
    addTypes types (ts ++ ts') = (addTypes types ts).bind (addTypes · ts') := by
  rw [addTypes, List.foldlM_append]
  rfl

theorem addTypes_concat (types ts : List Nat) (t : Nat) :
    addTypes types (ts ++ [t]) = (addTypes types ts).bind (addType · t) := by
  simp only [addTypes, List.foldlM_append, List.foldlM_cons, List.foldlM_nil, bind_pure]
  rfl

theorem recorded_cons (x : Nat × UInt64) (samples : List (Nat × UInt64)) :
    recorded (Function.update val x.1 ((val x.1).record x.2)) samples = recorded val (x :: samples) := by
  funext t
  by_cases ht : x.1 = t
  · subst ht
    simp [recorded, samplesOf]
  · simp [recorded, samplesOf, ht, Function.update_of_ne (Ne.symm ht)]

theorem record_ofTypes : ∀ {samples : List (Nat × UInt64)} {types : List Nat} {val : Nat → Dist}, Sound types val →
    record (.ofTypes types val) samples =
      (addTypes types (samples.map Prod.fst)).map (.ofTypes · (recorded val samples))
  | [], _, _, _ => rfl
  | x :: samples, types, val, h => by
      rw [record, List.foldlM_cons, latencyAdd_ofTypes h, List.map_cons, addTypes, List.foldlM_cons]
      cases ht : addType types x.1 with
      | none => rfl
      | some types' =>
        have hnext : Sound types' (Function.update val x.1 ((val x.1).record x.2)) :=
          h.addType ht (h.type x.1)
        have hrest : record (.ofTypes types' _) samples = _ := record_ofTypes hnext
        exact hrest.trans (by rw [recorded_cons]; rfl)

theorem subset_addTypes : ∀ {ts types types' : List Nat}, addTypes types ts = some types' →
    types ⊆ types' ∧ ts ⊆ types'
  | [], types, types', h => by
      obtain rfl := Option.some.inj h
      exact ⟨List.Subset.refl _, List.nil_subset _⟩
  | t :: ts, types, types', h => by
      rw [addTypes, List.foldlM_cons] at h
      obtain ⟨types₁, h₁, h⟩ := Option.bind_eq_some_iff.mp h
      obtain ⟨hin, hsub⟩ := mem_addType h₁
      obtain ⟨hsub', hts⟩ := subset_addTypes h
      exact ⟨List.Subset.trans hsub hsub', List.cons_subset.mpr ⟨hsub' hin, hts⟩⟩

theorem Sound.addTypes : ∀ {ts types types' : List Nat}, Sound types val → Latency.addTypes types ts = some types' →
    Sound types' val
  | [], _, _, h, ht => Option.some.inj ht ▸ h
  | t :: ts, types, types', h, ht => by
      rw [Latency.addTypes, List.foldlM_cons] at ht
      obtain ⟨types₁, h₁, ht⟩ := Option.bind_eq_some_iff.mp ht
      have hnext := h.addType h₁ (h.type t)
      rw [Function.update_eq_self] at hnext
      exact hnext.addTypes ht

/-- Types that have been added to none before can stand for all that they come from. -/
theorem addTypes_addTypes (types : List Nat) {ts ts' : List Nat} (h : addTypes [] ts = some ts') :
    addTypes types ts' = addTypes types ts := by
  induction ts using List.reverseRecOn generalizing ts' with
  | nil =>
    obtain rfl := Option.some.inj h
    rfl
  | append_singleton ts t ih =>
    rw [addTypes_concat] at h
    obtain ⟨ts₁, h₁, h⟩ := Option.bind_eq_some_iff.mp h
    rw [addTypes_concat, ← ih h₁]
    rw [addType] at h
    split_ifs at h with hmax hmem
    · obtain rfl := Option.some.inj h
      cases hr : addTypes types ts₁ with
      | none => rfl
      | some r => rw [Option.bind_some, addType, if_neg hmax, if_pos ((subset_addTypes hr).2 hmem)]
    · rw [← Option.some.inj h, addTypes_concat]

theorem Sound.record : ∀ {samples : List (Nat × UInt64)} {types types' : List Nat} {val : Nat → Dist},
    Sound types val → Latency.addTypes types (samples.map Prod.fst) = some types' →
    Sound types' (recorded val samples) ∧ ∀ t ∈ types', t ∈ types ∨ t ∈ samples.map Prod.fst
  | [], types, types', val, h, ht => by
      obtain rfl := Option.some.inj ht
      exact ⟨h, fun t ht => Or.inl ht⟩
  | x :: samples, types, types', val, h, ht => by
      rw [List.map_cons, Latency.addTypes, List.foldlM_cons] at ht
      obtain ⟨types₁, h₁, ht⟩ := Option.bind_eq_some_iff.mp ht
      have hnext : Sound types₁ (Function.update val x.1 ((val x.1).record x.2)) := h.addType h₁ (h.type x.1)
      obtain ⟨hsound, hmem⟩ := hnext.record ht
      rw [recorded_cons] at hsound
      refine ⟨hsound, fun t ht => ?_⟩
      rcases hmem t ht with ht | ht
      · rw [Latency.addType] at h₁
        split_ifs at h₁
        · exact Or.inl (Option.some.inj h₁ ▸ ht)
        · rw [← Option.some.inj h₁] at ht
          rcases List.mem_append.mp ht with ht | ht
          · exact Or.inl ht
          · exact Or.inr (List.mem_cons.mpr (Or.inl (List.mem_singleton.mp ht)))
      · exact Or.inr (List.mem_cons_of_mem _ ht)

/-! ### Adding two recorders -/

theorem Dist.addBuckets_nil (dd ds : Dist) : dd.addBuckets ds [] = dd := by
  simp [addBuckets]

theorem Dist.addBuckets_cons_of_zero {dd ds : Dist} {b : Nat} {bs : List Nat} (h : ds.buckets b = 0) :
    dd.addBuckets ds (b :: bs) = dd.addBuckets ds bs := by
  refine Dist.ext rfl rfl rfl rfl (funext fun x => ?_) rfl
  by_cases hx : x = b
  · subst hx
    simp [addBuckets, h]
  · simp [addBuckets, hx]

theorem Dist.addBuckets_cons {dd ds : Dist} {b : Nat} {bs : List Nat} (h : b ∉ bs) :
    (dd.addCount b (ds.buckets b)).addBuckets ds bs = dd.addBuckets ds (b :: bs) := by
  refine Dist.ext rfl rfl rfl rfl (funext fun x => ?_) rfl
  by_cases hx : x = b
  · subst hx
    simp [addBuckets, addCount, h]
  · simp [addBuckets, addCount, hx]

/-- The buckets of a distribution whose type has one already. -/
theorem sumBuckets_of_mem {d : Dist} : ∀ {bs : List Nat} {val : Nat → Dist}, Sound types val → d.type ∈ types →
    bs.Nodup → (∀ b, 64 ≤ b → d.buckets b = 0) →
    sumBuckets d (.ofTypes types val) bs =
      some (.ofTypes types (Function.update val d.type ((val d.type).addBuckets d bs)))
  | [], val, _, _, _, _ => by
      rw [Dist.addBuckets_nil, Function.update_eq_self]
      rfl
  | b :: bs, val, h, ht, hnodup, hhigh => by
      obtain ⟨hnot, hnodup⟩ := List.nodup_cons.mp hnodup
      rw [sumBuckets, List.foldlM_cons]
      split_ifs with hb
      · rw [Dist.addBuckets_cons_of_zero hb]
        exact sumBuckets_of_mem h ht hnodup hhigh
      · have hlt : b < 64 := by
          by_contra hge
          exact hb (hhigh b (by omega))
        have hadd : addType types d.type = some types := by
          rw [addType, if_neg (by have := h.bound _ ht; omega), if_pos ht]
        rw [latencyAddHist_ofTypes h, hadd, bucketOf_pow hlt, ← Dist.addBuckets_cons hnot]
        have hrest := sumBuckets_of_mem (h.addType hadd (d := (val d.type).addCount b (d.buckets b))
          (h.type _)) ht hnodup hhigh
        rw [Function.update_self, Function.update_idem] at hrest
        exact hrest

/-- And of one whose type may be new, if it has counted a sample. -/
theorem sumBuckets_ofTypes {d : Dist} : ∀ {bs : List Nat}, Sound types val → bs.Nodup →
    (∀ b, 64 ≤ b → d.buckets b = 0) → (∃ b ∈ bs, d.buckets b ≠ 0) →
    sumBuckets d (.ofTypes types val) bs = (addType types d.type).map
      (.ofTypes · (Function.update val d.type ((val d.type).addBuckets d bs)))
  | b :: bs, h, hnodup, hhigh, hsome => by
      obtain ⟨hnot, hnodup⟩ := List.nodup_cons.mp hnodup
      rw [sumBuckets, List.foldlM_cons]
      split_ifs with hb
      · obtain ⟨c, hc, hne⟩ := hsome
        have hc : c ∈ bs := (List.mem_cons.mp hc).resolve_left (by rintro rfl; exact hne hb)
        rw [Dist.addBuckets_cons_of_zero hb]
        exact sumBuckets_ofTypes h hnodup hhigh ⟨c, hc, hne⟩
      · have hlt : b < 64 := by
          by_contra hge
          exact hb (hhigh b (by omega))
        rw [latencyAddHist_ofTypes h, bucketOf_pow hlt]
        cases hadd : addType types d.type with
        | none => rfl
        | some types' =>
          have hrest := sumBuckets_of_mem (h.addType hadd (d := (val d.type).addCount b (d.buckets b))
            (h.type _)) (mem_addType hadd).1 hnodup hhigh
          rw [Function.update_self, Function.update_idem, Dist.addBuckets_cons hnot] at hrest
          exact hrest

/-- A distribution with all buckets of another one. -/
def Dist.addAll (dd ds : Dist) : Dist := dd.addBuckets ds (List.range numBuckets)

/-- A distribution that is to be added has counted a sample, and none in a bucket that no value has. -/
def Dist.Counts (d : Dist) : Prop := (∀ b, 64 ≤ b → d.buckets b = 0) ∧ ∃ b, d.buckets b ≠ 0

/-- The first loop of `Latency_Sum`. -/
theorem sumAll_ofTypes (h₂ : Sound types₂ val₂) (hcounts : ∀ t ∈ types₂, (val₂ t).Counts) :
    ∀ {ts types : List Nat} {val : Nat → Dist}, Sound types val → ts.Nodup → ts ⊆ types₂ →
    (ts.map val₂).foldlM (fun dest d => sumBuckets d dest (List.range numBuckets)) (.ofTypes types val) =
      (addTypes types ts).map
        (.ofTypes · (fun t => if t ∈ ts then (val t).addAll (val₂ t) else val t))
  | [], types, val, _, _, _ => by simp [addTypes]
  | t :: ts, types, val, h, hnodup, hsub => by
      obtain ⟨hnot, hnodup⟩ := List.nodup_cons.mp hnodup
      obtain ⟨hin, hsub⟩ := List.cons_subset.mp hsub
      obtain ⟨hhigh, b, hb⟩ := hcounts t hin
      have hbin : b ∈ List.range numBuckets := by
        rw [List.mem_range]
        by_contra hge
        exact hb (hhigh b (by rw [numBuckets] at hge; omega))
      have hstep := sumBuckets_ofTypes h List.nodup_range hhigh ⟨b, hbin, hb⟩
      rw [h₂.type t] at hstep
      rw [List.map_cons, List.foldlM_cons, hstep, addTypes, List.foldlM_cons]
      cases hadd : addType types t with
      | none => rfl
      | some types' =>
        have hnext : Sound types' (Function.update val t ((val t).addAll (val₂ t))) := h.addType hadd (h.type t)
        refine (sumAll_ofTypes h₂ hcounts hnext hnodup hsub).trans ?_
        refine congrArg (fun f => Option.map (Recorder.ofTypes · f) (addTypes types' ts)) (funext fun x => ?_)
        by_cases hx : x = t
        · subst hx
          rw [if_neg hnot, if_pos List.mem_cons_self, Function.update_self]
        · simp [hx]

/-- The distribution of a type. -/
theorem find_ofTypes (types : List Nat) (val : Nat → Dist) (t : Nat) :
    (((Recorder.ofTypes types val).dists t).bind ((Recorder.ofTypes types val).distPool[·]?)) =
      if t ∈ types then some (val t) else none := by
  simp only [Recorder.ofTypes]
  split_ifs with ht
  · obtain ⟨i, hi⟩ := Option.isSome_iff_exists.mp (List.isSome_idxOf?.mpr ht)
    obtain ⟨hlt, heq, _⟩ := List.idxOf?_eq_some_iff.mp hi
    simp only [hi, Option.bind_some, List.getElem?_map, List.getElem?_eq_getElem hlt, heq, Option.map_some]
  · rw [List.idxOf?_eq_none_iff.mpr ht]
    rfl

/-- The second loop. -/
theorem sumTotals_ofTypes : ∀ {ts types : List Nat} {val : Nat → Dist}, types.Nodup → types₂ ⊆ types → ts.Nodup →
    ts.foldlM (sumTotals (.ofTypes types₂ val₂)) (.ofTypes types val) =
      some (.ofTypes types fun t => if t ∈ ts ∧ t ∈ types₂ then (val t).addTotals (val₂ t) else val t)
  | [], types, val, _, _, _ => by simp
  | t :: ts, types, val, hnodup, hsub, hts => by
      obtain ⟨hnot, hts⟩ := List.nodup_cons.mp hts
      rw [List.foldlM_cons, sumTotals, find_ofTypes]
      by_cases ht : t ∈ types₂
      · simp only [if_pos ht, modify_ofTypes hnodup (hsub ht), Option.bind_eq_bind, Option.bind_some]
        rw [sumTotals_ofTypes hnodup hsub hts]
        refine congrArg (fun f => some (Recorder.ofTypes types f)) (funext fun x => ?_)
        by_cases hx : x = t
        · subst hx
          simp [hnot, ht]
        · simp [hx]
      · simp only [if_neg ht, Option.bind_eq_bind, Option.bind_some]
        rw [sumTotals_ofTypes hnodup hsub hts]
        refine congrArg (fun f => some (Recorder.ofTypes types f)) (funext fun x => ?_)
        by_cases hx : x = t
        · subst hx
          simp [hnot, ht]
        · simp [hx]

theorem Dist.merge_eq {dd ds : Dist} (h : ds.Counts) : (dd.addAll ds).addTotals ds = dd.merge ds := by
  refine Dist.ext rfl rfl rfl rfl (funext fun b => ?_) rfl
  show dd.buckets b + _ = dd.buckets b + _
  split_ifs with hb
  · rfl
  · rw [h.1 b (by rw [List.mem_range, numBuckets] at hb; omega)]

/-- `Latency_Sum` adds the types, and merges the distributions. -/
theorem latencySum_ofTypes (h₁ : Sound types₁ val₁) (h₂ : Sound types₂ val₂)
    (hcounts : ∀ t ∈ types₂, (val₂ t).Counts) :
    latencySum (.ofTypes types₁ val₁) (.ofTypes types₂ val₂) =
      (addTypes types₁ types₂).map (.ofTypes · fun t => (val₁ t).merge (val₂ t)) := by
  have hfirst := sumAll_ofTypes h₂ hcounts h₁ h₂.nodup (List.Subset.refl _)
  rw [latencySum]
  refine (congrArg (Option.bind · _) hfirst).trans ?_
  cases hadd : addTypes types₁ types₂ with
  | none => rfl
  | some types =>
    obtain ⟨_, hsub⟩ := subset_addTypes hadd
    refine (sumTotals_ofTypes (h₁.addTypes hadd).nodup hsub List.nodup_range).trans ?_
    refine congrArg (fun f => some (Recorder.ofTypes types f)) (funext fun t => ?_)
    by_cases ht : t ∈ types₂
    · rw [if_pos ⟨List.mem_range.mpr (h₂.bound t ht), ht⟩, if_pos ht, Dist.merge_eq (hcounts t ht)]
    · rw [if_neg (fun h => ht h.2), if_neg ht, h₂.fresh t ht, Dist.merge_fresh]

theorem latencyInit_eq : latencyInit = .ofTypes [] Dist.fresh := rfl

theorem sound_init : Sound [] Dist.fresh :=
  ⟨List.nodup_nil, fun _ ht => (by cases ht), fun _ _ => rfl, fun _ => rfl⟩

/-- Each type that has been recorded has counted a sample, if its buckets have not come round to 0. -/
theorem counts_recorded {samples : List (Nat × UInt64)} {t : Nat} (ht : t ∈ samples.map Prod.fst)
    (hlt : ∀ b, samples.countP (fun x => x.1 = t ∧ bucketOf x.2 = b) < 2 ^ 32) :
    (recorded Dist.fresh samples t).Counts := by
  have hbuckets : ∀ b, (recorded Dist.fresh samples t).buckets b =
      UInt32.ofNat (samples.countP fun x => x.1 = t ∧ bucketOf x.2 = b) := by
    intro b
    rw [recorded, Dist.foldl_buckets, samplesOf, List.countP_map, List.countP_filter]
    simp [Dist.fresh, Bool.and_comm]
  refine ⟨fun b hb => ?_, ?_⟩
  · rw [hbuckets, List.countP_eq_zero.mpr]
    · rfl
    · intro x _
      have := bucketOf_lt x.2
      simp only [decide_eq_true_eq, not_and]
      omega
  · obtain ⟨x, hx, rfl⟩ := List.mem_map.mp ht
    refine ⟨bucketOf x.2, fun hzero => ?_⟩
    have hpos : 0 < samples.countP (fun y => y.1 = x.1 ∧ bucketOf y.2 = bucketOf x.2) :=
      List.countP_pos_iff.mpr ⟨x, hx, by simp⟩
    have hto := congrArg UInt32.toNat ((hbuckets _).symm.trans hzero)
    rw [UInt32.toNat_ofNat_of_lt' (hlt _)] at hto
    exact absurd hto (Nat.pos_iff_ne_zero.mp hpos)

/-- The sum of two recorders is the recorder that all their samples are recorded in, those of the first
    one before those of the second; and where the pool is too small for the one it is for the other. -/
theorem latencySum_eq_record {samples₁ samples₂ : List (Nat × UInt64)} {dest summand : Recorder}
    (hdest : record latencyInit samples₁ = some dest) (hsummand : record latencyInit samples₂ = some summand)
    (hlt : ∀ t b, samples₂.countP (fun x => x.1 = t ∧ bucketOf x.2 = b) < 2 ^ 32) :
    latencySum dest summand = record latencyInit (samples₁ ++ samples₂) := by
  rw [latencyInit_eq, record_ofTypes sound_init] at hdest hsummand
  obtain ⟨types₁, ht₁, rfl⟩ := Option.map_eq_some_iff.mp hdest
  obtain ⟨types₂, ht₂, rfl⟩ := Option.map_eq_some_iff.mp hsummand
  obtain ⟨h₁, _⟩ := sound_init.record ht₁
  obtain ⟨h₂, hmem⟩ := sound_init.record ht₂
  have hcounts : ∀ t ∈ types₂, (recorded Dist.fresh samples₂ t).Counts := fun t ht =>
    counts_recorded ((hmem t ht).resolve_left List.not_mem_nil) (hlt t)
  rw [latencySum_ofTypes h₁ h₂ hcounts, latencyInit_eq, record_ofTypes sound_init, List.map_append,
    addTypes_append, ht₁, Option.bind_some, addTypes_addTypes types₁ ht₂]
  refine congrArg (fun f => Option.map (Recorder.ofTypes · f) _) (funext fun t => ?_)
  have hsplit : recorded Dist.fresh (samples₁ ++ samples₂) t =
      (samplesOf samples₂ t).foldl Dist.record (recorded Dist.fresh samples₁ t) := by
    rw [recorded, samplesOf, List.filter_append, List.map_append, List.foldl_append]
    rfl
  rw [hsplit]
  exact Dist.merge_foldl _ t _

/-- Three types on the two sides, one of them on both. -/
theorem latencySum_eq_record_three : ∃ dest summand sum,
    record latencyInit [(61, 5), (65, 3)] = some dest ∧ record latencyInit [(65, 2), (70, 1000)] = some summand ∧
      latencySum dest summand = some sum ∧
      record latencyInit [(61, 5), (65, 3), (65, 2), (70, 1000)] = some sum := by
  obtain ⟨dest, hdest⟩ := Option.isSome_iff_exists.mp
    (show (record latencyInit [(61, 5), (65, 3)]).isSome = true by decide +kernel)
  obtain ⟨summand, hsummand⟩ := Option.isSome_iff_exists.mp
    (show (record latencyInit [(65, 2), (70, 1000)]).isSome = true by decide +kernel)
  obtain ⟨sum, hsum⟩ := Option.isSome_iff_exists.mp
    (show (record latencyInit [(61, 5), (65, 3), (65, 2), (70, 1000)]).isSome = true by decide +kernel)
  refine ⟨dest, summand, sum, hdest, hsummand, ?_, hsum⟩
  rw [latencySum_eq_record hdest hsummand fun t b => Nat.lt_of_le_of_lt List.countP_le_length (by decide)]
  exact hsum

end Dsnet.Latency
