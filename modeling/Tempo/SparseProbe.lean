import Mathlib.Algebra.BigOperators.Fin
import Mathlib.Order.Interval.Finset.Fin
import Tempo.Runs
import Tempo.SparseSelection
import Tempo.TopWeights

/-!
# The probe of the sparse transfer

`filter` scores the tokens by one row of attention: the rows of K against a query, or
against their own mean, through a softmax.  The scores are weights that sum to one, so that
few can be at the threshold, and `estimate_reduction` says beforehand how many; and what is
selected carries at least its share of the attention.

Square roots and exponentials are parameters; only that exponentials are positive is used.
-/

namespace Tempo

open Runs TopScores TopWeights

section Probe

variable {K : Type*} [Field K] [LinearOrder K] {n d : Nat} (sqrt exp : K → K)

/-- `_make_probe_query`, for the rows of K as vectors. -/
def makeProbeQuery (kFlat : Fin n → Fin d → K) (query : Option (Fin d → K)) : Fin d → K :=
  let q :=
    match query with
    | some q => q
    | none => fun j => (∑ i, kFlat i j) / n
  let norm : K := sqrt (∑ j, q j * q j)
  if 1 / (100000000 : K) < norm then fun j => q j / norm else q

/-- `_attention_probe`; the maximum of no logits raises. -/
def attentionProbe (qProbe : Fin d → K) (kFlat : Fin n → Fin d → K) : Option (Fin n → K) :=
  let logits := fun i => (∑ j, kFlat i j * qProbe j) / sqrt (max 1 d : Nat)
  (List.ofFn logits).max?.map fun top =>
    let weights := fun i => exp (logits i - top)
    fun i => weights i / ∑ j, weights j

/-- The scores are not negative and sum to one. -/
theorem attentionProbe_weights [IsStrictOrderedRing K] (hexp : ∀ x, 0 < exp x)
    {qProbe : Fin d → K} {kFlat : Fin n → Fin d → K} {scores : Fin n → K}
    (hscores : attentionProbe sqrt exp qProbe kFlat = some scores) :
    (∀ i, 0 ≤ scores i) ∧ ∑ i, scores i = 1 := by
  obtain ⟨top, htop, rfl⟩ := Option.map_eq_some_iff.mp hscores
  have hne : (Finset.univ : Finset (Fin n)).Nonempty := by
    rcases Nat.eq_zero_or_pos n with rfl | hpos
    · cases htop
    · exact ⟨⟨0, hpos⟩, Finset.mem_univ _⟩
  have hpos : ∀ z : Fin n → K, 0 < ∑ i, exp (z i) :=
    fun z => Finset.sum_pos (fun i _ => hexp (z i)) hne
  exact ⟨fun i => div_nonneg (hexp _).le (hpos _).le, softmax_sum (hpos _).ne'⟩

end Probe

/-- `estimate_reduction` -/
structure ReductionEstimate (K : Type*) where
  seqLen : Nat
  threshold : K
  markovUpperBound : K
  empiricalEstimate : K
  bwReductionX : K

def estimateReduction {K : Type*} [Field K] [LinearOrder K] (seqLen : Nat) (threshold : K)
    (maxRatio : ℚ) : ReductionEstimate K :=
  let markovBound := min (maxRatio : K) (1 / max 1 (seqLen * threshold))
  let empiricalTypical :=
    min (maxRatio : K) (max ((5 / 100 : ℚ) : K) (markovBound * ((15 / 10 : ℚ) : K)))
  { seqLen, threshold
    markovUpperBound := markovBound
    empiricalEstimate := empiricalTypical
    bwReductionX := 1 / max ((1 / 100 : ℚ) : K) empiricalTypical }

namespace SparseTransferFilter

section Selected

variable {K : Type*} [LinearOrder K] {f : SparseTransferFilter K} {n : Nat}
  {scores : Fin n → K} {argpartition : ∀ kth, Partition scores kth}
  {mask : Fin n → Bool}

omit [LinearOrder K] in
/-- No more than `min_tokens` are added. -/
theorem card_recentMask_le (hmin : 0 < f.minTokens) :
    ((Finset.univ.filter fun i : Fin n => f.recentMask i = true).card : Int) ≤ f.minTokens := by
  by_cases hlong : f.minTokens < n
  · have hset : (Finset.univ.filter fun i : Fin n => f.recentMask i = true) =
        Finset.Ici ⟨n - f.minTokens.toNat, by omega⟩ := by
      ext i
      rw [Finset.mem_filter_univ, recentMask_long hlong hmin, Finset.mem_Ici, Fin.le_def]
      unfold Recent
      dsimp only
      omega
    rw [hset, Fin.card_Ici]
    dsimp only
    omega
  · have hnone : (Finset.univ.filter fun i : Fin n => f.recentMask i = true) = ∅ := by
      refine Finset.filter_eq_empty_iff.mpr fun i _ => ?_
      rw [recentMask_short (not_lt.mp hlong)]
      decide
    rw [hnone, Finset.card_empty]
    exact hmin.le

/-- What is left by the cap: the tokens at the threshold, or the highest scores. -/
structure Chosen (f : SparseTransferFilter K) (scores : Fin n → K) (A : Finset (Fin n)) :
    Prop where
  least : min (f.maxCount n) (f.hotTokens scores).card ≤ (A.card : Int)
  most : 0 < f.maxCount n → (A.card : Int) ≤ min (f.maxCount n) (f.hotTokens scores).card
  above : ∀ i ∈ A, ∀ j, j ∉ A → scores j ≤ scores i
  few : ((f.hotTokens scores).card : Int) ≤ f.maxCount n → A = f.hotTokens scores

theorem chosen_hotTokens (hfew : ((f.hotTokens scores).card : Int) ≤ f.maxCount n) :
    Chosen f scores (f.hotTokens scores) where
  least := min_le_right _ _
  most := fun _ => (min_eq_right hfew).ge
  above := fun i hi j hj => by
    have hi' : f.threshold ≤ scores i := by simpa [hotTokens] using hi
    have hj' : scores j < f.threshold := by simpa [hotTokens] using hj
    exact hj'.le.trans hi'
  few := fun _ => rfl

/-- A cap below zero leaves more than it says. -/
theorem chosen_top {kth : Nat} (hmany : f.maxCount n < (f.hotTokens scores).card)
    (hkth : index? n (-f.maxCount n) = some kth) (P : Partition scores kth) :
    Chosen f scores P.top.toFinset := by
  have hall : (f.hotTokens scores).card ≤ n := card_hotTokens_le
  have hcard : P.top.toFinset.card = n - kth := P.highest_top.card
  have hplace : (f.maxCount n ≤ 0 ∧ (kth : Int) < n) ∨ (n : Int) - kth = f.maxCount n := by
    unfold index? at hkth
    split at hkth
    next hin =>
      obtain rfl := Option.some.inj hkth
      exact Or.inl (by omega)
    next =>
      split at hkth
      next hin =>
        obtain rfl := Option.some.inj hkth
        exact Or.inr (by omega)
      next => cases hkth
  refine ⟨?_, fun hpos => ?_, P.highest_top.above,
    fun hfew => absurd hmany (not_lt.mpr hfew)⟩
  · rw [min_eq_left hmany.le, hcard]
    omega
  · rw [min_eq_left hmany.le, hcard]
    omega

theorem capMask_chosen (hmask : f.capMask scores argpartition = some mask) :
    Chosen f scores (Finset.univ.filter fun i => mask i = true) := by
  by_cases hfew : ((f.hotTokens scores).card : Int) ≤ f.maxCount n
  · rw [capMask_few hfew] at hmask
    obtain rfl := Option.some.inj hmask
    have hset : (Finset.univ.filter fun i => f.hotMask scores i = true) =
        f.hotTokens scores := by
      ext i
      simp [hotMask, hotTokens]
    rw [hset]
    exact chosen_hotTokens hfew
  · unfold capMask at hmask
    rw [length_hotMask, if_pos (not_le.mp hfew)] at hmask
    obtain ⟨kth, hkth, rfl⟩ := Option.map_eq_some_iff.mp hmask
    have hslice : sliceStart n (-f.maxCount n) = kth := by
      unfold index? at hkth
      unfold sliceStart
      split at hkth <;> split <;> grind
    have hset : (Finset.univ.filter fun i =>
        decide (i ∈ (argpartition kth).order.drop (sliceStart n (-f.maxCount n))) = true) =
          (argpartition kth).top.toFinset := by
      ext i
      simp [hslice, Partition.top]
    rw [hset]
    exact chosen_top (not_le.mp hfew) hkth _

/-- What is selected is what the cap leaves, and the last tokens. -/
theorem selectHot_chosen {hot : List (Fin n)}
    (hselect : f.selectHot scores argpartition = some hot) :
    ∃ mask : Fin n → Bool, (positions fun i => mask i || f.recentMask i) = hot ∧
      Chosen f scores (Finset.univ.filter fun i => mask i = true) := by
  obtain ⟨mask, hmask, hhot⟩ := Option.map_eq_some_iff.mp hselect
  exact ⟨mask, hhot, capMask_chosen hmask⟩

omit [LinearOrder K] in
/-- The capped tokens are selected, and with them no more than the last ones. -/
theorem length_selected_le (hmin : 0 < f.minTokens) (mask : Fin n → Bool) :
    ((positions fun i => mask i || f.recentMask i).length : Int) ≤
      (Finset.univ.filter fun i => mask i = true).card + f.minTokens := by
  have hunion := Finset.card_union_le (Finset.univ.filter fun i => mask i = true)
    (Finset.univ.filter fun i => f.recentMask i = true)
  rw [← Finset.filter_or, ← length_selected] at hunion
  have hrecent := card_recentMask_le (n := n) hmin
  omega

variable [Field K] [IsStrictOrderedRing K]

/-- No more tokens are at the threshold than the estimate says. -/
theorem card_hotTokens_le_estimate (hnonneg : ∀ i, 0 ≤ scores i)
    (hsum : ∑ i, scores i = 1) :
    ((f.hotTokens scores).card : K) ≤ n * (1 / max 1 (n * f.threshold)) := by
  have hcard : ((f.hotTokens scores).card : K) * f.threshold ≤ 1 :=
    card_mul_le hnonneg hsum fun i hi => by simpa [hotTokens] using hi
  have hall : ((f.hotTokens scores).card : K) ≤ n := by
    exact_mod_cast card_hotTokens_le
  rw [mul_one_div]
  rcases le_total (n * f.threshold) 1 with hfew | hmany
  · rwa [max_eq_left hfew, div_one]
  · rw [max_eq_right hmany]
    have hpos : (0 : K) < n * f.threshold := zero_lt_one.trans_le hmany
    rw [le_div_iff₀ hpos]
    calc ((f.hotTokens scores).card : K) * (n * f.threshold)
        = n * ((f.hotTokens scores).card * f.threshold) := by ring
      _ ≤ n * 1 := mul_le_mul_of_nonneg_left hcard (Nat.cast_nonneg n)
      _ = n := mul_one _

/-- What is left by the cap is within the estimate, or within the last tokens. -/
theorem Chosen.card_le [FloorRing K] {A : Finset (Fin n)} (hA : Chosen f scores A)
    (hmin : 0 < f.minTokens) (hn : n < 2 ^ 53) (hratio : 0 ≤ f.maxRatio)
    (hnonneg : ∀ i, 0 ≤ scores i) (hsum : ∑ i, scores i = 1) :
    (A.card : Int) ≤ max f.minTokens
      ⌈n * (estimateReduction n f.threshold f.maxRatio).markovUpperBound⌉ := by
  have hmost := hA.most (hmin.trans_le minTokens_le_maxCount)
  have hcount : (A.card : Int) ≤ (f.hotTokens scores).card := hmost.trans (min_le_right _ _)
  have hall : (f.hotTokens scores).card ≤ n := card_hotTokens_le
  rcases le_max_iff.mp (hmost.trans (min_le_left _ _)) with hlast | hcapped
  · exact le_max_of_le_left hlast
  · refine le_max_of_le_right ?_
    have hhot : (A.card : Int) ≤ ⌈(n : K) * (1 / max 1 (n * f.threshold))⌉ := by
      refine hcount.trans ?_
      have hestimate := Int.ceil_mono (card_hotTokens_le_estimate (f := f) hnonneg hsum)
      rwa [Int.ceil_natCast] at hestimate
    have hproduct : (A.card : Int) ≤ ⌈(n : K) * (f.maxRatio : K)⌉ := by
      have hcast : (n : K) * (f.maxRatio : K) = ((n * f.maxRatio : ℚ) : K) := by push_cast; rfl
      rw [hcast, Rat.ceil_cast]
      exact le_ceil_of_le_capProduct hn hratio ((card_finset_fin_le A).trans_lt hn) hcapped
    unfold estimateReduction
    dsimp only
    rw [mul_min_of_nonneg _ _ (Nat.cast_nonneg n), Int.ceil_mono.map_min]
    exact le_min hproduct hhot

end Selected

end SparseTransferFilter

/-- The arguments of a call of `filter`, and the time it takes. -/
structure FilterCall (α β K : Type*) (d : Nat) where
  kCache : List α
  vCache : List β
  query : Option (Fin d → K)
  layerId : Int
  elapsedMs : K

/-- The counters of `SparseTransferFilter`.  `blocks` is history: the blocks returned. -/
structure FilterRun (α β K : Type*) [Zero K] where
  filterCalls : Nat := 0
  totalTokens : Nat := 0
  hotTokens : Nat := 0
  totalTimeMs : K := 0
  blocks : List (SparseKVBlock α β) := []

/-- The functions of `numpy` that the filter calls: `flat` is a row of K as a vector. -/
structure FilterNumpy (α K : Type*) [LinearOrder K] (d : Nat) where
  sqrt : K → K
  exp : K → K
  flat : α → Fin d → K
  argpartition : ∀ {n : Nat} (scores : Fin n → K) (kth : Nat), Partition scores kth

namespace FilterRun

variable {α β K : Type*} [Field K] [LinearOrder K] {d : Nat} (np : FilterNumpy α K d)
  (f : SparseTransferFilter K)

/-- The scores of a call. -/
def probe (c : FilterCall α β K d) : Option (Fin c.kCache.length → K) :=
  let kFlat := fun i => np.flat (c.kCache.get i)
  attentionProbe np.sqrt np.exp (makeProbeQuery np.sqrt kFlat c.query) kFlat

/-- `filter`; where it raises the counters stay. -/
def filter (s : FilterRun α β K) (c : FilterCall α β K d) :
    FilterRun α β K × Option (SparseKVBlock α β) :=
  match (probe np c).bind fun scores =>
      f.filter c.kCache c.vCache c.layerId scores (np.argpartition scores) with
  | none => (s, none)
  | some block =>
      ({ filterCalls := s.filterCalls + 1
         totalTokens := s.totalTokens + c.kCache.length
         hotTokens := s.hotTokens + block.hotIndices.length
         totalTimeMs := s.totalTimeMs + c.elapsedMs
         blocks := s.blocks ++ [block] }, some block)

/-- The layers one after the other, up to the first that raises. -/
def filterAll (s : FilterRun α β K) : List (FilterCall α β K d) →
    FilterRun α β K × Option (List (SparseKVBlock α β))
  | [] => (s, some [])
  | c :: calls =>
      match filter np f s c with
      | (t, none) => (t, none)
      | (t, some block) =>
          let (u, blocks) := filterAll t calls
          (u, blocks.map (block :: ·))

/-- `filter_multilayer`; `elapsedMs` is the time that each layer takes. -/
def filterMultilayer (s : FilterRun α β K) (kvLayers : List (List α × List β))
    (query : Option (Fin d → K)) (elapsedMs : Nat → K) :
    FilterRun α β K × Option (List (SparseKVBlock α β)) :=
  filterAll np f s <| kvLayers.zipIdx.map fun layer =>
    { kCache := layer.1.1, vCache := layer.1.2, query, layerId := layer.2
      elapsedMs := elapsedMs layer.2 }

inductive Event (α β K : Type*) (d : Nat)
  | filter (c : FilterCall α β K d)
  | filterMultilayer (kvLayers : List (List α × List β)) (query : Option (Fin d → K))
      (elapsedMs : Nat → K)

def step (s : FilterRun α β K) : Event α β K d → Option (FilterRun α β K)
  | .filter c => some (filter np f s c).1
  | .filterMultilayer kvLayers query elapsedMs =>
      some (filterMultilayer np f s kvLayers query elapsedMs).1

/-- What the estimate allows for the hot tokens of a block. -/
def allowance [FloorRing K] (n : Nat) : Int :=
  max f.minTokens ⌈n * (estimateReduction n f.threshold f.maxRatio).markovUpperBound⌉ +
    f.minTokens

/-- The counters are sums over the blocks, and no block has more than its allowance. -/
structure Accounted [FloorRing K] (s : FilterRun α β K) : Prop where
  calls : s.filterCalls = s.blocks.length
  tokens : s.totalTokens = (s.blocks.map (·.contextLen)).sum
  hot : s.hotTokens = (s.blocks.map (·.hotIndices.length)).sum
  within : ∀ block ∈ s.blocks, block.contextLen < 2 ^ 53 →
    (block.hotIndices.length : Int) ≤ allowance f block.contextLen

variable {np f} {s t : FilterRun α β K}

omit [Field K] in
/-- A block has the rows of the selection of its scores. -/
theorem filter_selected {kCache : List α} {vCache : List β} {layerId : Int}
    {scores : Fin kCache.length → K} {argpartition : ∀ kth, Partition scores kth}
    {block : SparseKVBlock α β}
    (hblock : f.filter kCache vCache layerId scores argpartition = some block) :
    ∃ selected, f.selectHot scores argpartition = some selected ∧
      block.hotIndices = ((selected.map Fin.val).map Int.ofNat).map Int32.ofInt ∧
      block.contextLen = kCache.length := by
  obtain ⟨selected, hselected, hrows⟩ := Option.bind_eq_some_iff.mp hblock
  obtain ⟨kSparse, -, hrows⟩ := Option.bind_eq_some_iff.mp hrows
  obtain ⟨vSparse, -, rfl⟩ := Option.map_eq_some_iff.mp hrows
  exact ⟨selected, hselected, rfl, rfl⟩

variable [IsStrictOrderedRing K]

section Counters

variable [FloorRing K]

theorem Accounted.filter (hs : s.Accounted f) (hmin : 0 < f.minTokens)
    (hratio : 0 ≤ f.maxRatio) (hexp : ∀ x, 0 < np.exp x) (c : FilterCall α β K d) :
    (filter np f s c).1.Accounted f := by
  unfold FilterRun.filter
  split
  next => exact hs
  next block hblock =>
    obtain ⟨scores, hscores, hfilter⟩ := Option.bind_eq_some_iff.mp hblock
    obtain ⟨hnonneg, hsum⟩ := attentionProbe_weights _ _ hexp hscores
    obtain ⟨selected, hselected, hindices, hlength⟩ := filter_selected hfilter
    obtain ⟨mask, rfl, hchosen⟩ := SparseTransferFilter.selectHot_chosen hselected
    refine ⟨?_, ?_, ?_, fun block' hblock' hn => ?_⟩
    · dsimp only
      rw [hs.calls, List.length_append, List.length_singleton]
    · dsimp only
      rw [hs.tokens, List.map_append, List.sum_append, hlength.symm]
      simp
    · dsimp only
      rw [hs.hot, List.map_append, List.sum_append]
      simp
    · rcases List.mem_append.mp hblock' with hold | hnew
      · exact hs.within block' hold hn
      · obtain rfl := List.mem_singleton.mp hnew
        have hcount : block'.hotIndices.length =
            (positions fun i => mask i || f.recentMask i).length := by
          rw [hindices]
          simp
        have hadded := SparseTransferFilter.length_selected_le hmin mask
        rw [hlength] at hn ⊢
        have hleft := hchosen.card_le hmin hn hratio hnonneg hsum
        rw [hcount]
        unfold allowance
        omega

theorem Accounted.filterAll (hs : s.Accounted f) (hmin : 0 < f.minTokens)
    (hratio : 0 ≤ f.maxRatio) (hexp : ∀ x, 0 < np.exp x) (calls : List (FilterCall α β K d)) :
    (filterAll np f s calls).1.Accounted f := by
  induction calls generalizing s with
  | nil => exact hs
  | cons c calls ih =>
      have hfirst := hs.filter hmin hratio hexp c
      unfold FilterRun.filterAll
      split
      next t ht =>
        rw [ht] at hfirst
        exact hfirst
      next t block ht =>
        rw [ht] at hfirst
        exact ih hfirst

/-- **The estimate bounds what is sent.**  For every sequence of `filter` and
`filter_multilayer`, raising or not: the counters are the sums over the blocks returned,
and no block has more hot tokens than `estimate_reduction` says for its length, or than
the last tokens are, and again as many as these. -/
theorem hot_within_estimate (np : FilterNumpy α K d) (f : SparseTransferFilter K)
    (hmin : 0 < f.minTokens) (hratio : 0 ≤ f.maxRatio) (hexp : ∀ x, 0 < np.exp x)
    (hreach : Reachable (step np f) ({} : FilterRun α β K) s) :
    s.filterCalls = s.blocks.length ∧
      s.totalTokens = (s.blocks.map (·.contextLen)).sum ∧
      s.hotTokens = (s.blocks.map (·.hotIndices.length)).sum ∧
      (∀ block ∈ s.blocks, block.contextLen < 2 ^ 53 →
        (block.hotIndices.length : Int) ≤
          max f.minTokens ⌈block.contextLen *
            (estimateReduction block.contextLen f.threshold f.maxRatio).markovUpperBound⌉ +
              f.minTokens) ∧
      ((∀ block ∈ s.blocks, block.contextLen < 2 ^ 53) →
        (s.hotTokens : Int) ≤ (s.blocks.map fun block => allowance f block.contextLen).sum) := by
  have hs : s.Accounted f := by
    refine hreach.invariant ⟨rfl, rfl, rfl, fun _ hnone => by cases hnone⟩ ?_
    intro s e t hs _ hstep
    cases e with
    | filter c =>
        obtain rfl := Option.some.inj hstep
        exact hs.filter hmin hratio hexp c
    | filterMultilayer kvLayers query elapsedMs =>
        obtain rfl := Option.some.inj hstep
        exact hs.filterAll hmin hratio hexp _
  refine ⟨hs.calls, hs.tokens, hs.hot, hs.within, fun hshort => ?_⟩
  rw [hs.hot, Nat.cast_list_sum, List.map_map]
  exact List.sum_le_sum fun block hblock => hs.within block hblock (hshort block hblock)

end Counters

/-- Three equal rows of one number, and the cap at one of them. -/
def threeRows : FilterCall ℚ ℚ ℚ 1 where
  kCache := [1, 1, 1]
  vCache := [1, 2, 3]
  query := some fun _ => 1
  layerId := 0
  elapsedMs := 1

def halfOfThree : SparseTransferFilter ℚ where
  threshold := 1 / 4
  maxRatio := 1 / 2
  minTokens := 1

/-- The roots and exponentials that `threeRows` leads to, all of them 1. -/
def onesNumpy : FilterNumpy ℚ ℚ 1 where
  sqrt := id
  exp := fun _ => 1
  flat := fun row _ => row
  argpartition := fun scores kth => Partition.byScore scores kth

theorem hot_within_estimate_three :
    ∃ s : FilterRun ℚ ℚ ℚ, s.hotTokens = 1 ∧ s.totalTokens = 3 ∧
      ∀ block ∈ s.blocks, block.contextLen < 2 ^ 53 →
        (block.hotIndices.length : Int) ≤ allowance halfOfThree block.contextLen := by
  obtain ⟨s, hreach, hhot, htotal⟩ : ∃ s, Reachable (step onesNumpy halfOfThree)
      ({} : FilterRun ℚ ℚ ℚ) s ∧ s.hotTokens = 1 ∧ s.totalTokens = 3 :=
    Reachable.exists_of_exec [.filter threeRows] (by decide +kernel)
  exact ⟨s, hhot, htotal, (hot_within_estimate onesNumpy halfOfThree (by decide)
    (by decide +kernel) (fun _ => one_pos) hreach).2.2.2.1⟩

/-- **What is sent has at least its share of the attention.**  Of every block returned:
the attention of the selected tokens is at least the share that the tokens left by the cap
are of all tokens, and where the cap cuts none, each token left out has less than the
threshold. -/
theorem attention_kept (np : FilterNumpy α K d) (f : SparseTransferFilter K)
    (hexp : ∀ x, 0 < np.exp x) {c : FilterCall α β K d}
    {block : SparseKVBlock α β} (hblock : (filter np f s c).2 = some block) :
    ∃ (scores : Fin c.kCache.length → K) (selected : List (Fin c.kCache.length)),
      probe np c = some scores ∧ ∑ i, scores i = 1 ∧
      block.hotIndices = ((selected.map Fin.val).map Int.ofNat).map Int32.ofInt ∧
      ((min (f.maxCount c.kCache.length) (f.hotTokens scores).card : Int) : K) /
        c.kCache.length ≤ (selected.map scores).sum ∧
      (((f.hotTokens scores).card : Int) ≤ f.maxCount c.kCache.length →
        1 - (selected.map scores).sum ≤
          (c.kCache.length - selected.length : K) * f.threshold) := by
  have hreturned : ((probe np c).bind fun scores =>
      f.filter c.kCache c.vCache c.layerId scores (np.argpartition scores)) = some block := by
    unfold FilterRun.filter at hblock
    split at hblock
    next => cases hblock
    next hsome => exact hsome.trans hblock
  obtain ⟨scores, hscores, hfilter⟩ := Option.bind_eq_some_iff.mp hreturned
  obtain ⟨hnonneg, hsum⟩ := attentionProbe_weights _ _ hexp hscores
  obtain ⟨selected, hselected, hindices, -⟩ := filter_selected hfilter
  obtain ⟨mask, rfl, hchosen⟩ := SparseTransferFilter.selectHot_chosen hselected
  have hlist : ((positions fun i => mask i || f.recentMask i).map scores).sum =
      ∑ i ∈ Finset.univ.filter fun i => (mask i || f.recentMask i) = true, scores i := by
    rw [← List.sum_toFinset scores nodup_positions]
    refine Finset.sum_congr ?_ fun _ _ => rfl
    ext i
    simp
  have hkept : (Finset.univ.filter fun i => mask i = true) ⊆
      Finset.univ.filter fun i => (mask i || f.recentMask i) = true := by
    intro i hi
    rw [Finset.mem_filter_univ] at hi ⊢
    rw [hi, Bool.true_or]
  refine ⟨scores, _, hscores, hsum, hindices, ?_, fun hfew => ?_⟩
  · have hshare := card_div_le hsum hchosen.above
    have hleast : ((min (f.maxCount c.kCache.length) (f.hotTokens scores).card : Int) : K) ≤
        (Finset.univ.filter fun i => mask i = true).card := by
      exact_mod_cast hchosen.least
    rw [Fintype.card_fin] at hshare
    rw [hlist]
    exact ((div_le_div_of_nonneg_right hleast (Nat.cast_nonneg _)).trans hshare).trans
      (Finset.sum_le_sum_of_subset_of_nonneg hkept fun i _ _ => hnonneg i)
  · rw [hlist, length_positions]
    have hout := one_sub_sum_le (A := Finset.univ.filter fun i =>
      (mask i || f.recentMask i) = true) hsum (c := f.threshold) fun j hj => ?_
    · rwa [Fintype.card_fin] at hout
    · have hcold : j ∉ f.hotTokens scores := by
        rw [← hchosen.few hfew]
        exact fun hin => hj (hkept hin)
      have hlt : scores j < f.threshold := by
        simpa [SparseTransferFilter.hotTokens] using hcold
      exact hlt.le

theorem attention_kept_three :
    ∃ (scores : Fin threeRows.kCache.length → ℚ)
      (selected : List (Fin threeRows.kCache.length)),
      probe onesNumpy threeRows = some scores ∧
        ((selected.map Fin.val).map Int.ofNat).map Int32.ofInt = [2] ∧
        ((min (halfOfThree.maxCount 3) (halfOfThree.hotTokens scores).card : Int) : ℚ) / 3 ≤
          (selected.map scores).sum := by
  have hplaces : ((filter onesNumpy halfOfThree ({} : FilterRun ℚ ℚ ℚ) threeRows).2.map
      (·.hotIndices)) = some [2] := by decide +kernel
  obtain ⟨block, hblock, hindices⟩ := Option.map_eq_some_iff.mp hplaces
  obtain ⟨scores, selected, hscores, -, hsame, hshare, -⟩ :=
    attention_kept onesNumpy halfOfThree (fun _ => one_pos) hblock
  exact ⟨scores, selected, hscores, hsame.symm.trans hindices, hshare⟩

end FilterRun

end Tempo
