import Mathlib.Data.List.Basic
import Tempo.BinaryRounding
import Tempo.GatherScatter
import Tempo.TopScores
import Tempo.TopologyRouter

/-!
# The sparse transfer of a KV cache

`SparseTransferFilter` picks the tokens of a layer that are hot, packs their rows of K
and V, and sends them with their places; `reconstruct` puts the rows back into arrays
of a fill value.  The scores come from an attention probe and are given here; what
`argpartition` returns is any order parted as its documentation says.  The cap is a
product of doubles, and rounded as such.

The places are those of a mask, so they rise, and as 32-bit numbers they are the same
for every sequence below `2^31` tokens (`filter_roundTrips`).
-/

namespace Tempo

open BinaryRounding GatherScatter TopScores

section Arrays

variable {α : Type*} {xs rows : List α} {n : Nat}

/-- The place an index of an array of `n` rows stands for; a negative one counts from
the end, and any other is an `IndexError`. -/
def index? (n : Nat) (i : Int) : Option Nat :=
  if 0 ≤ i ∧ i < n then some i.toNat
  else if -n ≤ i ∧ i < 0 then some (i + n).toNat
  else none

/-- Where a slice `[start:]` of `n` rows begins. -/
def sliceStart (n : Nat) (start : Int) : Nat :=
  if start < 0 then (start + n).toNat else start.toNat

/-- `xs[idx]` -/
def takeRows (xs : List α) (idx : List Int) : Option (List α) :=
  (idx.mapM (index? xs.length)).bind (gather xs)

/-- The rows of an assignment to `count` places; a single row goes to each. -/
def broadcast (rows : List α) (count : Nat) : Option (List α) :=
  if rows.length = count then some rows
  else
    match rows with
    | [row] => some (List.replicate count row)
    | _ => none

/-- `xs[idx] = rows` -/
def putRows (xs : List α) (idx : List Int) (rows : List α) : Option (List α) :=
  (idx.mapM (index? xs.length)).bind fun places =>
    (broadcast rows places.length).map (scatter xs places)

theorem index?_natCast {i : Nat} (hi : i < n) : index? n i = some i := by
  unfold index?
  rw [if_pos (by omega), Int.toNat_natCast]

/-- Places within the rows stand for themselves. -/
theorem mapM_index? {places : List Nat} (hbound : ∀ i ∈ places, i < n) :
    (places.map Int.ofNat).mapM (index? n) = some places := by
  induction places with
  | nil => rfl
  | cons i places ih =>
      have hrest := ih fun j hj => hbound j (List.mem_cons_of_mem _ hj)
      have hi : index? n (Int.ofNat i) = some i :=
        index?_natCast (hbound i List.mem_cons_self)
      rw [List.map_cons, List.mapM_cons, hi, hrest]
      rfl

theorem takeRows_natCast {places : List Nat} (hbound : ∀ i ∈ places, i < xs.length) :
    takeRows xs (places.map Int.ofNat) = gather xs places := by
  unfold takeRows
  rw [mapM_index? hbound, Option.bind_some]

theorem putRows_natCast {places : List Nat} (hbound : ∀ i ∈ places, i < xs.length)
    (hlen : rows.length = places.length) :
    putRows xs (places.map Int.ofNat) rows = some (scatter xs places rows) := by
  unfold putRows broadcast
  rw [mapM_index? hbound, Option.bind_some, if_pos hlen, Option.map_some]

end Arrays

/-- `SparseKVBlock`. -/
structure SparseKVBlock (α β : Type*) where
  kSparse : List α
  vSparse : List β
  hotIndices : List Int32
  contextLen : Nat
  layerId : Int
  reductionRatio : ℚ

/-- The parameters of `SparseTransferFilter`. -/
structure SparseTransferFilter (S : Type*) where
  threshold : S
  maxRatio : ℚ := binary64.round (20 / 100)
  minTokens : Int := 64

namespace SparseTransferFilter

variable {S α β : Type*} [LinearOrder S] {f : SparseTransferFilter S} {n : Nat}

/-- `SparseTransferFilter()`. -/
def defaults : SparseTransferFilter ℚ where
  threshold := 1 / 100

/-- `seq_len * self.max_ratio`, of doubles. -/
def capProduct (f : SparseTransferFilter S) (seqLen : Nat) : ℚ :=
  binary64.round (binary64.round (seqLen : ℚ) * f.maxRatio)

/-- `max_count` -/
def maxCount (f : SparseTransferFilter S) (seqLen : Nat) : Int :=
  max f.minTokens (truncate (f.capProduct seqLen))

/-- `scores >= self.threshold` -/
def hotMask (f : SparseTransferFilter S) (scores : Fin n → S) (i : Fin n) : Bool :=
  decide (f.threshold ≤ scores i)

/-- The mask after the cap; `argpartition` raises where its place is out of range. -/
def capMask (f : SparseTransferFilter S) (scores : Fin n → S)
    (argpartition : ∀ kth, Partition scores kth) : Option (Fin n → Bool) :=
  if f.maxCount n < (positions (f.hotMask scores)).length then
    (index? n (-f.maxCount n)).map fun kth =>
      let topIdx := (argpartition kth).order.drop (sliceStart n (-f.maxCount n))
      fun i => decide (i ∈ topIdx)
  else
    some (f.hotMask scores)

/-- `hot_mask[-self.min_tokens:] = True`, in longer sequences. -/
def recentMask (f : SparseTransferFilter S) (i : Fin n) : Bool :=
  decide (f.minTokens < n) && decide (sliceStart n (-f.minTokens) ≤ i)

/-- `_select_hot` -/
def selectHot (f : SparseTransferFilter S) (scores : Fin n → S)
    (argpartition : ∀ kth, Partition scores kth) : Option (List (Fin n)) :=
  (f.capMask scores argpartition).map fun mask =>
    positions fun i => mask i || f.recentMask i

/-- `filter`, for the scores of the probe. -/
def filter (f : SparseTransferFilter S) (kCache : List α) (vCache : List β)
    (layerId : Int) (scores : Fin kCache.length → S)
    (argpartition : ∀ kth, Partition scores kth) : Option (SparseKVBlock α β) :=
  (f.selectHot scores argpartition).bind fun selected =>
    let hotIndices := (selected.map Fin.val).map Int.ofNat
    (takeRows kCache hotIndices).bind fun kSparse =>
      (takeRows vCache hotIndices).map fun vSparse =>
        { kSparse, vSparse
          hotIndices := hotIndices.map Int32.ofInt
          contextLen := kCache.length
          layerId
          reductionRatio := 1 - hotIndices.length / (max 1 kCache.length : Nat) }

/-- `reconstruct`, for the rows of the fill value. -/
def reconstruct (sparse : SparseKVBlock α β) (fillK : α) (fillV : β) :
    Option (List α × List β) :=
  let idx := sparse.hotIndices.map Int32.toInt
  (putRows (List.replicate sparse.contextLen fillK) idx sparse.kSparse).bind fun kDense =>
    (putRows (List.replicate sparse.contextLen fillV) idx sparse.vSparse).map fun vDense =>
      (kDense, vDense)

/-- `dense` has the rows of `cache` at the places `hot`, and `fill` elsewhere. -/
structure Restores {ρ : Type*} (cache : List ρ) (fill : ρ) (hot : List Int)
    (dense : List ρ) : Prop where
  length : dense.length = cache.length
  rows : ∀ i < cache.length,
    dense[i]? = if (i : Int) ∈ hot then cache[i]? else some fill

/-- What a block says of the arrays it was made from. -/
structure RoundTrips (kCache : List α) (vCache : List β) (fillK : α) (fillV : β)
    (block : SparseKVBlock α β) : Prop where
  increasing : (block.hotIndices.map Int32.toInt).Pairwise (· < ·)
  bounds : ∀ i ∈ block.hotIndices.map Int32.toInt, 0 ≤ i ∧ i < kCache.length
  restored : ∃ kDense vDense, reconstruct block fillK fillV = some (kDense, vDense) ∧
    Restores kCache fillK (block.hotIndices.map Int32.toInt) kDense ∧
    Restores vCache fillV (block.hotIndices.map Int32.toInt) vDense ∧
    takeRows kDense (block.hotIndices.map Int32.toInt) = some block.kSparse ∧
    takeRows vDense (block.hotIndices.map Int32.toInt) = some block.vSparse

/-- The places that are sent are those selected. -/
theorem toInt_ofInt_places {places : List Nat} (hbound : ∀ i ∈ places, i < 2 ^ 31) :
    ((places.map Int.ofNat).map Int32.ofInt).map Int32.toInt = places.map Int.ofNat := by
  rw [List.map_map, List.map_map]
  apply List.map_congr_left
  intro i hi
  have hsmall := hbound i hi
  apply Int32.toInt_ofInt_of_le
  · simp only [Int.ofNat_eq_natCast]
    omega
  · simp only [Int.ofNat_eq_natCast]
    omega

/-- Rows packed from a cache and put back. -/
theorem restores_scatter {ρ : Type*} {cache rows : List ρ} {fill : ρ} {places : List Nat}
    (hrows : gather cache places = some rows) :
    Restores cache fill (places.map Int.ofNat)
      (scatter (List.replicate cache.length fill) places rows) := by
  have hlen : (List.replicate cache.length fill).length = cache.length :=
    List.length_replicate
  refine ⟨length_scatter.trans hlen, fun i hi => ?_⟩
  have hmem : (i : Int) ∈ places.map Int.ofNat ↔ i ∈ places := by simp
  by_cases hplace : i ∈ places
  · rw [if_pos (hmem.mpr hplace)]
    exact getElem?_scatter_gathered hlen hrows hplace
  · rw [if_neg (hmem.not.mpr hplace), getElem?_scatter_of_notMem hplace,
      List.getElem?_replicate_of_lt hi]

/-- The rows that a block has of one cache. -/
theorem putRows_restores {ρ : Type*} {cache rows : List ρ} (fill : ρ) {places : List Nat}
    (hbound : ∀ i ∈ places, i < cache.length) (hrows : gather cache places = some rows) :
    ∃ dense, putRows (List.replicate cache.length fill) (places.map Int.ofNat) rows =
        some dense ∧
      Restores cache fill (places.map Int.ofNat) dense ∧
      takeRows dense (places.map Int.ofNat) = some rows := by
  have hlen : (List.replicate cache.length fill).length = cache.length :=
    List.length_replicate
  have hput : putRows (List.replicate cache.length fill) (places.map Int.ofNat) rows =
      some (scatter (List.replicate cache.length fill) places rows) :=
    putRows_natCast (by rwa [hlen]) (length_of_gather hrows)
  refine ⟨_, hput, restores_scatter hrows, ?_⟩
  rw [takeRows_natCast (by rwa [length_scatter, hlen])]
  exact gather_scatter hlen hrows

/-- **The hot rows arrive where they were.** -/
theorem filter_roundTrips (f : SparseTransferFilter S) (kCache : List α) (vCache : List β)
    (hrows : vCache.length = kCache.length) (hsmall : kCache.length < 2 ^ 31)
    (layerId : Int) (scores : Fin kCache.length → S)
    (argpartition : ∀ kth, Partition scores kth) {block : SparseKVBlock α β}
    (hblock : f.filter kCache vCache layerId scores argpartition = some block)
    (fillK : α) (fillV : β) : RoundTrips kCache vCache fillK fillV block := by
  obtain ⟨selected, hselect, hpack⟩ := Option.bind_eq_some_iff.mp hblock
  obtain ⟨kSparse, hk, hpack⟩ := Option.bind_eq_some_iff.mp hpack
  obtain ⟨vSparse, hv, rfl⟩ := Option.map_eq_some_iff.mp hpack
  obtain ⟨mask, _, rfl⟩ := Option.map_eq_some_iff.mp hselect
  have hbound : ∀ i ∈ (positions fun i => mask i || f.recentMask i).map Fin.val,
      i < kCache.length := val_lt_of_positions
  have hrise : ((positions fun i => mask i || f.recentMask i).map Fin.val).Pairwise
      (· < ·) := by
    rw [List.pairwise_map]
    exact pairwise_positions
  -- from here on only the places count, not where they come from
  generalize (positions fun i => mask i || f.recentMask i).map Fin.val = places at *
  have hsent := toInt_ofInt_places fun i hi => (hbound i hi).trans hsmall
  rw [takeRows_natCast hbound] at hk
  rw [takeRows_natCast (by rwa [hrows])] at hv
  obtain ⟨kDense, hkput, hkrestores, hkagain⟩ := putRows_restores fillK hbound hk
  obtain ⟨vDense, hvput, hvrestores, hvagain⟩ :=
    putRows_restores fillV (by rwa [hrows]) hv
  rw [hrows] at hvput
  refine ⟨?_, ?_, kDense, vDense, ?_, ?_, ?_, ?_, ?_⟩
  · rw [hsent, List.pairwise_map]
    exact hrise.imp fun hlt => Int.ofNat_lt.mpr hlt
  · rw [hsent]
    intro i hi
    obtain ⟨place, hplace, rfl⟩ := List.mem_map.mp hi
    exact ⟨Int.natCast_nonneg place, Int.ofNat_lt.mpr (hbound place hplace)⟩
  · unfold reconstruct
    dsimp only
    rw [hsent, hkput, Option.bind_some, hvput, Option.map_some]
  · rwa [hsent]
  · rwa [hsent]
  · rwa [hsent]
  · rwa [hsent]

/-- Three tokens, of which the default filter finds the first and the last hot. -/
theorem filter_roundTrips_three :
    ∃ block : SparseKVBlock Nat Nat,
      defaults.filter [10, 11, 12] [20, 21, 22] 0 (fun i => if i.val = 1 then 0 else 1 / 2)
          (Partition.byScore _) = some block ∧
        RoundTrips [10, 11, 12] [20, 21, 22] 0 0 block := by
  obtain ⟨block, hblock⟩ : ∃ block, defaults.filter [10, 11, 12] [20, 21, 22] 0
      (fun i => if i.val = 1 then 0 else 1 / 2) (Partition.byScore _) = some block :=
    Option.isSome_iff_exists.mp (by decide +kernel)
  exact ⟨block, hblock, filter_roundTrips defaults [10, 11, 12] [20, 21, 22] rfl
    (by decide) 0 _ _ hblock 0 0⟩

end SparseTransferFilter

end Tempo
