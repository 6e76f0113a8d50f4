import Mathlib.Data.Fintype.Card
import Tempo.SparseTransfer

/-!
# Recent tokens and the cap

`_select_hot` takes the tokens at the threshold, cuts them to the highest scores where
there are too many, and then adds the last `min_tokens`.

The last tokens are added only to sequences longer than that, so a shorter one can lose
them (`recent_selected_iff`).  They are added to what the cap has left, so that more can
be selected than the cap says; of no tokens to add, Python's slice makes all; and the cap
is that of a rounded product, and may be one more than the documented one (`capped_iff`).
-/

namespace Tempo

open BinaryRounding GatherScatter TopScores

namespace SparseTransferFilter

section Recent

variable {S : Type*} {f : SparseTransferFilter S} {n : Nat} {i : Fin n}
  {mask : Fin n → Bool}

/-- One of the last `min_tokens` places, of which there may be fewer. -/
def Recent (f : SparseTransferFilter S) (i : Fin n) : Prop :=
  (n : Int) ≤ i + f.minTokens

instance (f : SparseTransferFilter S) (i : Fin n) : Decidable (f.Recent i) :=
  inferInstanceAs (Decidable ((n : Int) ≤ i + f.minTokens))

theorem minTokens_le_maxCount : f.minTokens ≤ f.maxCount n :=
  le_max_left _ _

/-- The cap as documented. -/
def hardCap (f : SparseTransferFilter S) (n : Nat) : Int :=
  max f.minTokens ⌊(n : ℚ) * f.maxRatio⌋

theorem minTokens_le_hardCap : f.minTokens ≤ f.hardCap n :=
  le_max_left _ _

/-- The product of a length that is a double is between the integers about it. -/
theorem capProduct_bounds (hn : n < 2 ^ 53) (hratio : 0 ≤ f.maxRatio) :
    0 ≤ f.capProduct n ∧
      (∀ m : Nat, m < 2 ^ 53 → (m : ℚ) ≤ n * f.maxRatio → m ≤ f.capProduct n) ∧
      ∀ m : Nat, m < 2 ^ 53 → n * f.maxRatio ≤ (m : ℚ) → f.capProduct n ≤ m := by
  have hprec : 0 < binary64.precision := by decide
  have hmin : binary64.minExp ≤ 0 := by decide
  have hlength : binary64.round (n : ℚ) = n := binary64.round_natCast hprec hmin hn
  have hpos : (0 : ℚ) ≤ n * f.maxRatio := mul_nonneg (Nat.cast_nonneg n) hratio
  unfold capProduct
  rw [hlength]
  refine ⟨?_, fun m hm hle => binary64.natCast_le_round hprec hmin hm hle,
    fun m hm hle => binary64.round_le_natCast hprec hmin hm hpos hle⟩
  simpa using binary64.natCast_le_round (m := 0) hprec hmin (by decide) (by simpa using hpos)

/-- Rounding does not carry the product beyond the next integer. -/
theorem le_ceil_of_le_capProduct (hn : n < 2 ^ 53) (hratio : 0 ≤ f.maxRatio) {m : Nat}
    (hm : m < 2 ^ 53) (hle : (m : Int) ≤ truncate (f.capProduct n)) :
    (m : Int) ≤ ⌈(n : ℚ) * f.maxRatio⌉ := by
  obtain ⟨hpos, -, hbelow⟩ := capProduct_bounds hn hratio
  rw [truncate_of_nonneg hpos] at hle
  by_contra hlow
  obtain ⟨k, hk⟩ := Int.eq_ofNat_of_zero_le
    (Int.ceil_nonneg (mul_nonneg (Nat.cast_nonneg n) hratio))
  rw [hk] at hlow
  have hceil : (n : ℚ) * f.maxRatio ≤ k := by
    have hle := Int.le_ceil ((n : ℚ) * f.maxRatio)
    rw [hk] at hle
    exact_mod_cast hle
  have hproduct := hbelow k (by omega) hceil
  have hfloor : ⌊f.capProduct n⌋ ≤ k := by
    have hmono := Int.floor_mono hproduct
    rwa [Int.floor_natCast] at hmono
  omega

/-- Rounding raises the cap by one at most. -/
theorem maxCount_bounds (hn : n < 2 ^ 53) (hratio : 0 ≤ f.maxRatio)
    (hone : f.maxRatio ≤ 1) :
    f.hardCap n ≤ f.maxCount n ∧ f.maxCount n ≤ f.hardCap n + 1 := by
  obtain ⟨hpos, habove, hbelow⟩ := capProduct_bounds hn hratio
  obtain ⟨m, hm⟩ := Int.eq_ofNat_of_zero_le
    (Int.floor_nonneg.mpr (mul_nonneg (Nat.cast_nonneg n) hratio))
  have hle : (m : ℚ) ≤ n * f.maxRatio := by
    have hfloor := Int.floor_le ((n : ℚ) * f.maxRatio)
    rw [hm] at hfloor
    exact_mod_cast hfloor
  have hlt : (n : ℚ) * f.maxRatio < m + 1 := by
    have hfloor := Int.lt_floor_add_one ((n : ℚ) * f.maxRatio)
    rw [hm] at hfloor
    exact_mod_cast hfloor
  have hall : (n : ℚ) * f.maxRatio ≤ n := mul_le_of_le_one_right (Nat.cast_nonneg n) hone
  have hmn : m ≤ n := by exact_mod_cast hle.trans hall
  have hlow : (m : ℚ) ≤ f.capProduct n := habove m (hmn.trans_lt hn) hle
  have hhigh : f.capProduct n ≤ m + 1 := by
    rcases hmn.eq_or_lt with rfl | hless
    · exact (hbelow m hn hall).trans (le_add_of_nonneg_right zero_le_one)
    · have hnext := hbelow (m + 1) (by omega) (by push_cast; exact hlt.le)
      exact_mod_cast hnext
  have hint : (m : Int) ≤ ⌊f.capProduct n⌋ ∧ ⌊f.capProduct n⌋ ≤ m + 1 :=
    ⟨Int.le_floor.mpr (by exact_mod_cast hlow),
      Int.floor_le_iff.mpr (by push_cast; linarith)⟩
  unfold hardCap maxCount
  rw [truncate_of_nonneg hpos, hm]
  omega

/-- Seven of ten tokens at 0.7, a double below seven tenths. -/
example :
    let f : SparseTransferFilter ℚ :=
      { threshold := 0, maxRatio := binary64.round (7 / 10), minTokens := 0 }
    f.maxCount 10 = 7 ∧ f.hardCap 10 = 6 := by
  decide +kernel

theorem recentMask_short (hshort : (n : Int) ≤ f.minTokens) : f.recentMask i = false := by
  simp [recentMask, hshort]

theorem recentMask_long (hlong : f.minTokens < n) (hpos : 0 < f.minTokens) :
    f.recentMask i = true ↔ f.Recent i := by
  unfold recentMask sliceStart Recent
  rw [if_pos (by omega), Bool.and_eq_true, decide_eq_true_iff, decide_eq_true_iff,
    and_iff_right hlong]
  omega

/-- `hot_mask[-0:]` is the whole mask. -/
theorem recentMask_zero (hzero : f.minTokens = 0) : f.recentMask i = true := by
  have hn : 0 < n := i.pos
  simp [recentMask, sliceStart, hzero, hn]

theorem recentMask_of_recent (hmin : 0 ≤ f.minTokens) (hlong : f.minTokens < n)
    (hi : f.Recent i) : f.recentMask i = true := by
  rcases hmin.eq_or_lt with hzero | hpos
  · exact recentMask_zero hzero.symm
  · exact (recentMask_long hlong hpos).mpr hi

/-- A selection as a set. -/
theorem length_selected :
    (positions fun i => mask i || f.recentMask i).length =
      (Finset.univ.filter fun i => mask i = true ∨ f.recentMask i = true).card := by
  rw [length_positions]
  simp

end Recent

variable {S : Type*} [LinearOrder S] {f : SparseTransferFilter S} {n : Nat}
  {scores : Fin n → S} {argpartition : ∀ kth, Partition scores kth} {i : Fin n}
  {mask : Fin n → Bool}

section Masks

/-- The tokens at the threshold. -/
def hotTokens (f : SparseTransferFilter S) (scores : Fin n → S) : Finset (Fin n) :=
  Finset.univ.filter fun i => f.threshold ≤ scores i

theorem length_hotMask :
    (positions (f.hotMask scores)).length = (f.hotTokens scores).card := by
  rw [length_positions]
  simp [hotMask, hotTokens]

theorem card_hotTokens_le : (f.hotTokens scores).card ≤ n := by
  simpa using (f.hotTokens scores).card_le_univ

/-- No cut where the tokens at the threshold are few enough. -/
theorem capMask_few (hfew : ((f.hotTokens scores).card : Int) ≤ f.maxCount n) :
    f.capMask scores argpartition = some (f.hotMask scores) := by
  unfold capMask
  rw [if_neg]
  rw [length_hotMask]
  omega

/-- The place where the scores are parted. -/
def cut (f : SparseTransferFilter S) (n : Nat) : Nat :=
  if f.maxCount n = 0 then 0 else n - (f.maxCount n).toNat

/-- Too many tokens at the threshold are cut to the highest scores. -/
theorem capMask_many (hmin : 0 ≤ f.minTokens)
    (hmany : f.maxCount n < (f.hotTokens scores).card) :
    f.capMask scores argpartition =
      some fun i => decide (i ∈ (argpartition (f.cut n)).top) := by
  have hroom : f.minTokens ≤ f.maxCount n := minTokens_le_maxCount
  have hall : (f.hotTokens scores).card ≤ n := card_hotTokens_le
  have hplace : index? n (-f.maxCount n) = some (f.cut n) := by
    unfold index? cut
    split
    · rw [if_pos (by omega)]
      congr 1
      omega
    · rw [if_pos (by omega), if_neg (by omega)]
      congr 1
      omega
  have hslice : sliceStart n (-f.maxCount n) = f.cut n := by
    unfold sliceStart cut
    split <;> split <;> omega
  unfold capMask
  rw [length_hotMask, if_pos hmany, hplace, hslice]
  rfl

theorem length_top_cut (hpos : 0 < f.maxCount n) (hlt : f.maxCount n < n)
    (P : Partition scores (f.cut n)) : (P.top.length : Int) = f.maxCount n := by
  rw [P.length_top, cut, if_neg hpos.ne']
  omega

/-- The selection never fails. -/
theorem selectHot_cases (hmin : 0 ≤ f.minTokens) (scores : Fin n → S)
    (argpartition : ∀ kth, Partition scores kth) :
    ∃ mask, f.selectHot scores argpartition =
        some (positions fun i => mask i || f.recentMask i) ∧
      ((((f.hotTokens scores).card : Int) ≤ f.maxCount n ∧ mask = f.hotMask scores) ∨
        (f.maxCount n < (f.hotTokens scores).card ∧
          mask = fun i => decide (i ∈ (argpartition (f.cut n)).top))) := by
  unfold selectHot
  by_cases hfew : ((f.hotTokens scores).card : Int) ≤ f.maxCount n
  · exact ⟨_, by rw [capMask_few hfew]; rfl, Or.inl ⟨hfew, rfl⟩⟩
  · have hmany := not_le.mp hfew
    exact ⟨_, by rw [capMask_many hmin hmany]; rfl, Or.inr ⟨hmany, rfl⟩⟩

end Masks

/-- `filter` makes a block of any scores. -/
theorem filter_isSome {α β : Type*} (hmin : 0 ≤ f.minTokens) {kCache : List α}
    {vCache : List β} (hrows : vCache.length = kCache.length) (layerId : Int)
    (scores : Fin kCache.length → S) (argpartition : ∀ kth, Partition scores kth) :
    (f.filter kCache vCache layerId scores argpartition).isSome := by
  obtain ⟨mask, hselect, _⟩ := selectHot_cases hmin scores argpartition
  have hbound : ∀ i ∈ (positions fun i => mask i || f.recentMask i).map Fin.val,
      i < kCache.length := val_lt_of_positions
  obtain ⟨kSparse, hk⟩ := exists_gather hbound
  have hbound' : ∀ i ∈ (positions fun i => mask i || f.recentMask i).map Fin.val,
      i < vCache.length := by rwa [hrows]
  obtain ⟨vSparse, hv⟩ := exists_gather hbound'
  unfold filter
  rw [hselect, Option.bind_some]
  dsimp only
  rw [takeRows_natCast hbound, hk, Option.bind_some, takeRows_natCast hbound', hv]
  rfl

/-- **The last tokens are all selected exactly in longer sequences, or where every score
is at the threshold.** -/
theorem recent_selected_iff (f : SparseTransferFilter S) (hmin : 0 ≤ f.minTokens)
    (scores : Fin n → S) (argpartition : ∀ kth, Partition scores kth) :
    ∃ hot, f.selectHot scores argpartition = some hot ∧
      ((∀ i, f.Recent i → i ∈ hot) ↔
        f.minTokens < n ∨ ∀ i, f.threshold ≤ scores i) := by
  obtain ⟨mask, hselect, hmask⟩ := selectHot_cases hmin scores argpartition
  refine ⟨_, hselect, ?_⟩
  simp only [mem_positions, Bool.or_eq_true]
  by_cases hlong : f.minTokens < n
  · refine iff_of_true (fun i hi => Or.inr ?_) (Or.inl hlong)
    exact recentMask_of_recent hmin hlong hi
  · have hshort : (n : Int) ≤ f.minTokens := not_lt.mp hlong
    have hroom : f.minTokens ≤ f.maxCount n := minTokens_le_maxCount
    have hall : (f.hotTokens scores).card ≤ n := card_hotTokens_le
    obtain ⟨_, rfl⟩ | ⟨hmany, _⟩ := hmask
    · rw [or_iff_right hlong]
      apply forall_congr'
      intro i
      have hrecent : f.Recent i := by
        unfold Recent
        omega
      simp [recentMask_short hshort, hrecent, hotMask]
    · omega

/-- A long sequence under the default filter. -/
theorem recent_selected_long :
    ∃ hot, defaults.selectHot (fun _ : Fin 65 => (1 : ℚ)) (Partition.byScore _) = some hot ∧
      ((∀ i, defaults.Recent i → i ∈ hot) ↔
        defaults.minTokens < (65 : Nat) ∨ ∀ _ : Fin 65, defaults.threshold ≤ 1) :=
  recent_selected_iff defaults (by decide) _ _

/-- Two tokens are among the last 64, and the default filter drops the first. -/
theorem recent_dropped :
    defaults.selectHot (fun i : Fin 2 => if i = 0 then (1 : ℚ) / 200 else 199 / 200)
        (Partition.byScore _) = some [1] ∧
      defaults.Recent (0 : Fin 2) := by
  decide +kernel

section Cap

/-- The last `min_tokens` places. -/
def recentTokens (f : SparseTransferFilter S) (n : Nat) : Finset (Fin n) :=
  Finset.univ.filter fun i => f.Recent i

/-- No more tokens than the documented cap, and outside the last ones none dropped that
is at the threshold and above one kept. -/
structure Capped (f : SparseTransferFilter S) (scores : Fin n → S) (hot : List (Fin n)) :
    Prop where
  count : (hot.length : Int) ≤ f.hardCap n
  best : ∀ i j, ¬ f.Recent i → ¬ f.Recent j → i ∉ hot → f.threshold ≤ scores i →
    j ∈ hot → scores i ≤ scores j

/-- The last tokens leave room under the cap: they are all tokens, or there are none to
add and no cap, or they fit in with the hot ones, or of too many hot ones whichever highest
scores are taken miss few enough of them. -/
def CapRoom (f : SparseTransferFilter S) (scores : Fin n → S) : Prop :=
  (n : Int) ≤ f.minTokens ∨
    (f.minTokens = 0 ∧ (n : Int) ≤ f.hardCap n) ∨
    (0 < f.minTokens ∧
      if ((f.hotTokens scores).card : Int) ≤ f.maxCount n then
        ((f.hotTokens scores ∪ f.recentTokens n).card : Int) ≤ f.hardCap n
      else
        ∀ A, Highest scores (f.maxCount n).toNat A →
          ((f.recentTokens n \ A).card : Int) ≤ f.hardCap n - f.maxCount n)

/-- Where no token at the threshold is dropped, only the count matters. -/
theorem capped_iff_length {hot : List (Fin n)}
    (hkept : ∀ i, f.threshold ≤ scores i → i ∈ hot) :
    Capped f scores hot ↔ (hot.length : Int) ≤ f.hardCap n := by
  constructor
  · exact fun hcapped => hcapped.count
  · intro hcount
    exact ⟨hcount, fun i _ _ _ hdropped hscore _ => absurd (hkept i hscore) hdropped⟩

/-- In a short sequence the tokens at the threshold are selected, which fit. -/
theorem capped_short (hshort : (n : Int) ≤ f.minTokens) :
    Capped f scores (positions fun i => f.hotMask scores i || f.recentMask i) := by
  have hroom : f.minTokens ≤ f.hardCap n := minTokens_le_hardCap
  have hall : (f.hotTokens scores).card ≤ n := card_hotTokens_le
  have hlen : (positions fun i => f.hotMask scores i || f.recentMask i).length =
      (f.hotTokens scores).card := by
    simp only [recentMask_short hshort, Bool.or_false]
    exact length_hotMask
  rw [capped_iff_length fun i hscore => by simp [hotMask, hscore], hlen]
  omega

/-- Without last tokens everything is selected. -/
theorem capped_zero_iff (hzero : f.minTokens = 0) :
    Capped f scores (positions fun i => mask i || f.recentMask i) ↔
      (n : Int) ≤ f.hardCap n := by
  have hlen : (positions fun i => mask i || f.recentMask i).length = n := by
    rw [length_selected]
    simp [recentMask_zero hzero]
  rw [capped_iff_length fun i _ => by simp [recentMask_zero hzero], hlen]

/-- Few tokens at the threshold are selected with the last ones. -/
theorem capped_few_iff (hlong : f.minTokens < n) (hpos : 0 < f.minTokens) :
    Capped f scores (positions fun i => f.hotMask scores i || f.recentMask i) ↔
      ((f.hotTokens scores ∪ f.recentTokens n).card : Int) ≤ f.hardCap n := by
  have hlen : (positions fun i => f.hotMask scores i || f.recentMask i).length =
      (f.hotTokens scores ∪ f.recentTokens n).card := by
    rw [length_selected]
    congr 1
    ext i
    simp [recentMask_long hlong hpos, hotMask, hotTokens, recentTokens]
  rw [capped_iff_length fun i hscore => by simp [hotMask, hscore], hlen]

/-- Of too many, the highest scores are selected with the last tokens, so that only the
count matters again. -/
theorem capped_many_iff (hlong : f.minTokens < n) (hpos : 0 < f.minTokens)
    (hmany : f.maxCount n < (f.hotTokens scores).card) (P : Partition scores (f.cut n)) :
    Capped f scores (positions fun i => decide (i ∈ P.top) || f.recentMask i) ↔
      ((f.recentTokens n \ P.top.toFinset).card : Int) ≤ f.hardCap n - f.maxCount n := by
  have hroom : f.minTokens ≤ f.maxCount n := minTokens_le_maxCount
  have hall : (f.hotTokens scores).card ≤ n := card_hotTokens_le
  have htop := length_top_cut (hpos.trans_le hroom) (by omega) P
  rw [← List.toFinset_card_of_nodup P.nodup_top] at htop
  have hlen : (positions fun i => decide (i ∈ P.top) || f.recentMask i).length =
      (f.recentTokens n \ P.top.toFinset).card + P.top.toFinset.card := by
    rw [Finset.card_sdiff_add_card, length_selected, Finset.union_comm]
    congr 1
    ext i
    simp [recentMask_long hlong hpos, recentTokens]
  have hbest : ∀ i j, ¬ f.Recent i → ¬ f.Recent j →
      i ∉ positions (fun i => decide (i ∈ P.top) || f.recentMask i) →
      f.threshold ≤ scores i → j ∈ positions (fun i => decide (i ∈ P.top) || f.recentMask i) →
      scores i ≤ scores j := by
    intro i j _ hj hi _ hjhot
    simp only [mem_positions, Bool.or_eq_true, decide_eq_true_eq,
      recentMask_long hlong hpos] at hi hjhot
    exact P.le_of_notMem_top (fun h => hi (Or.inl h)) (hjhot.resolve_right hj)
  constructor
  · intro hcapped
    have hcount := hcapped.count
    rw [hlen] at hcount
    push_cast at hcount
    omega
  · intro hfew
    refine ⟨?_, hbest⟩
    rw [hlen]
    push_cast
    omega

/-- The last tokens leave room in what one partition lets out. -/
def FitsIn (f : SparseTransferFilter S) (scores : Fin n → S)
    (P : Partition scores (f.cut n)) : Prop :=
  (n : Int) ≤ f.minTokens ∨
    (f.minTokens = 0 ∧ (n : Int) ≤ f.hardCap n) ∨
    (0 < f.minTokens ∧
      if ((f.hotTokens scores).card : Int) ≤ f.maxCount n then
        ((f.hotTokens scores ∪ f.recentTokens n).card : Int) ≤ f.hardCap n
      else
        ((f.recentTokens n \ P.top.toFinset).card : Int) ≤ f.hardCap n - f.maxCount n)

/-- What is selected keeps to the cap where the last tokens leave room. -/
theorem selected_capped_iff (hmin : 0 ≤ f.minTokens) (scores : Fin n → S)
    (argpartition : ∀ kth, Partition scores kth) :
    ∃ hot, f.selectHot scores argpartition = some hot ∧
      (Capped f scores hot ↔ FitsIn f scores (argpartition (f.cut n))) := by
  obtain ⟨mask, hselect, hmask⟩ := selectHot_cases hmin scores argpartition
  refine ⟨_, hselect, ?_⟩
  unfold FitsIn
  have hroom : f.minTokens ≤ f.maxCount n := minTokens_le_maxCount
  have hall : (f.hotTokens scores).card ≤ n := card_hotTokens_le
  by_cases hshort : (n : Int) ≤ f.minTokens
  · refine iff_of_true ?_ (Or.inl hshort)
    obtain ⟨_, rfl⟩ | ⟨hmany, _⟩ := hmask
    · exact capped_short hshort
    · omega
  · have hlong : f.minTokens < n := not_le.mp hshort
    rw [or_iff_right hshort]
    rcases hmin.eq_or_lt with hzero | hpos
    · rw [capped_zero_iff hzero.symm, ← hzero]
      simp
    · rw [or_iff_right fun h => hpos.ne' h.1, and_iff_right hpos]
      obtain ⟨hfew, rfl⟩ | ⟨hmany, rfl⟩ := hmask
      · rw [if_pos hfew]
        exact capped_few_iff hlong hpos
      · rw [if_neg (not_le.mpr hmany)]
        exact capped_many_iff hlong hpos hmany _

/-- A partition of one's choice at one place. -/
def choose (P : Partition scores (f.cut n)) (kth : Nat) : Partition scores kth :=
  if h : kth = f.cut n then h ▸ P else Partition.byScore scores kth

theorem choose_cut (P : Partition scores (f.cut n)) : choose P (f.cut n) = P := by
  unfold choose
  rw [dif_pos rfl]

/-- The last tokens that every partition misses are those that every set of highest scores
misses. -/
theorem recent_missed_iff {d : Int} (hmany : f.maxCount n < (f.hotTokens scores).card)
    (hpos : 0 < f.minTokens) :
    (∀ argpartition : ∀ kth, Partition scores kth,
        ((f.recentTokens n \ (argpartition (f.cut n)).top.toFinset).card : Int) ≤ d) ↔
      ∀ A, Highest scores (f.maxCount n).toNat A →
        ((f.recentTokens n \ A).card : Int) ≤ d := by
  have hroom : f.minTokens ≤ f.maxCount n := minTokens_le_maxCount
  have hall : (f.hotTokens scores).card ≤ n := card_hotTokens_le
  have hcut : (f.maxCount n).toNat = n - f.cut n := by
    rw [cut, if_neg (by omega)]
    omega
  rw [hcut]
  constructor
  · intro hevery A hA
    obtain ⟨P, rfl⟩ := exists_top_iff.mpr hA
    have hchosen := hevery (choose P)
    rwa [choose_cut] at hchosen
  · exact fun hsets argpartition => hsets _ (argpartition _).highest_top

/-- **The cap holds for every order of equal scores exactly where the last tokens leave
room.** -/
theorem capped_iff (f : SparseTransferFilter S) (hmin : 0 ≤ f.minTokens)
    (scores : Fin n → S) :
    (∀ argpartition : ∀ kth, Partition scores kth,
      ∃ hot, f.selectHot scores argpartition = some hot ∧ Capped f scores hot) ↔
    CapRoom f scores := by
  have hone : ∀ argpartition : ∀ kth, Partition scores kth,
      (∃ hot, f.selectHot scores argpartition = some hot ∧ Capped f scores hot) ↔
        FitsIn f scores (argpartition (f.cut n)) := by
    intro argpartition
    obtain ⟨hot, hselect, hiff⟩ := selected_capped_iff hmin scores argpartition
    refine Iff.trans ⟨?_, fun hcapped => ⟨hot, hselect, hcapped⟩⟩ hiff
    rintro ⟨hot', hselect', hcapped⟩
    obtain rfl := Option.some.inj (hselect.symm.trans hselect')
    exact hcapped
  have : Nonempty (∀ kth, Partition scores kth) := ⟨Partition.byScore scores⟩
  simp only [hone]
  unfold FitsIn CapRoom
  by_cases hshort : (n : Int) ≤ f.minTokens
  · simp [hshort]
  · rcases hmin.eq_or_lt with hzero | hpos
    · simp [← hzero]
    · simp only [hshort, hpos.ne', hpos, false_and, false_or, true_and]
      by_cases hfew : ((f.hotTokens scores).card : Int) ≤ f.maxCount n
      · simp only [hfew, if_true, forall_const]
      · simp only [hfew, if_false]
        exact recent_missed_iff (not_le.mp hfew) hpos

/-- At most half of the tokens, and the last two. -/
def lastTwo : SparseTransferFilter ℚ where
  threshold := 1
  maxRatio := 1 / 2
  minTokens := 2

/-- Four tokens, of which the last two have the highest scores. -/
theorem capped_rising :
    (∀ argpartition : ∀ kth, Partition (fun i : Fin 4 => (i.val : ℚ)) kth,
      ∃ hot, lastTwo.selectHot _ argpartition = some hot ∧
        Capped lastTwo (fun i : Fin 4 => (i.val : ℚ)) hot) ↔
    CapRoom lastTwo (fun i : Fin 4 => (i.val : ℚ)) :=
  capped_iff lastTwo (by decide) _

/-- Four tokens, of which the first three are hot: the cap leaves the first two, and the
last two are added to them. -/
theorem cap_exceeded :
    ∃ hot, lastTwo.selectHot (fun i : Fin 4 => (3 - i.val : ℚ)) (Partition.byScore _) =
        some hot ∧
      ¬ Capped lastTwo (fun i : Fin 4 => (3 - i.val : ℚ)) hot := by
  have hselect : lastTwo.selectHot (fun i : Fin 4 => (3 - i.val : ℚ))
      (Partition.byScore _) = some [0, 1, 2, 3] := by decide +kernel
  refine ⟨_, hselect, fun hcapped => ?_⟩
  have hcount := hcapped.count
  revert hcount
  decide +kernel

end Cap

end SparseTransferFilter

end Tempo
