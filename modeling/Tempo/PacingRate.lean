import Tempo.PacingLifecycle
import Tempo.RateLedger

/-!
# The rate of the daemon

`try_consume` grants what the bucket holds when that is less than was asked for,
and the loop asks only whether anything was granted: a block of any size is
written in full on the grant of one byte.  The daemon keeps to its rate in runs
in which the bucket always holds the whole block, or less than one byte.
-/

namespace Tempo

open RateLedger Runs

namespace TokenBucket

variable {b : TokenBucket} {now : Nat} {want : UInt64}

/-- The bucket is between empty and full, and fills. -/
structure Level (b : TokenBucket) : Prop where
  rate : 0 ≤ b.rateBpns
  nonneg : 0 ≤ b.tokens
  le_burst : b.tokens ≤ b.burst

@[simp] theorem refill_rateBpns : (b.refill now).rateBpns = b.rateBpns := by
  unfold refill
  split <;> rfl

@[simp] theorem refill_burst : (b.refill now).burst = b.burst := by
  unfold refill
  split <;> rfl

theorem refill_lastNs (hnow : b.lastNs ≤ now) :
    (b.refill now).lastNs = now := by
  unfold refill
  split
  · omega
  · rfl

/-- A refill adds at most what came in, and stops at the burst. -/
theorem Level.refill (h : b.Level) (hnow : b.lastNs ≤ now) :
    (b.refill now).Level ∧
      (b.refill now).tokens ≤
        b.tokens + b.rateBpns * ((now : ℚ) - b.lastNs) := by
  have hcast : (b.lastNs : ℚ) ≤ now := by exact_mod_cast hnow
  have hadded : 0 ≤ ((now : ℚ) - b.lastNs) * b.rateBpns :=
    mul_nonneg (sub_nonneg.mpr hcast) h.rate
  have hburst := h.nonneg.trans h.le_burst
  rw [mul_comm b.rateBpns]
  unfold TokenBucket.refill
  split
  · exact ⟨h, by linarith⟩
  · refine ⟨⟨h.rate, ?_, min_le_right _ _⟩, min_le_left _ _⟩
    exact le_min (add_nonneg h.nonneg hadded) hburst

/-- A bucket that holds all that is asked for, or less than a byte, grants all
or nothing. -/
theorem tryConsume_spec (h : (b.refill now).Level)
    (hwhole : (b.refill now).tokens < 1 ∨
      (want.toNat : ℚ) ≤ (b.refill now).tokens) :
    0 ≤ (b.tryConsume want now).1.tokens ∧
      ((b.tryConsume want now).2 = 0 ∧
          (b.tryConsume want now).1.tokens ≤ (b.refill now).tokens ∨
        (b.tryConsume want now).2 = want ∧
          (b.tryConsume want now).1.tokens + want.toNat =
            (b.refill now).tokens) := by
  unfold tryConsume
  dsimp only
  split
  · exact ⟨h.nonneg, .inl ⟨rfl, le_rfl⟩⟩
  · next hsome =>
      rw [not_le] at hsome
      by_cases hall : (want.toNat : ℚ) ≤ (b.refill now).tokens
      · rw [min_eq_left hall]
        refine ⟨sub_nonneg.mpr hall, .inr ⟨?_, sub_add_cancel _ _⟩⟩
        simp
      · have hbyte := hwhole.resolve_right hall
        rw [min_eq_right (not_le.mp hall).le]
        have hfloor : ⌊(b.refill now).tokens⌋ = 0 :=
          Int.floor_eq_zero_iff.mpr ⟨hsome.le, hbyte⟩
        refine ⟨by simp, .inl ⟨by simp [hfloor], ?_⟩⟩
        dsimp only
        linarith

theorem tryConsume_frame :
    (b.tryConsume want now).1.rateBpns = b.rateBpns ∧
      (b.tryConsume want now).1.burst = b.burst ∧
      (b.tryConsume want now).1.lastNs = (b.refill now).lastNs := by
  unfold tryConsume
  dsimp only
  split <;> simp

end TokenBucket

/-- The block that has been paid for and not been submitted. -/
def DaemonPc.paid : DaemonPc → List KVBlock
  | .getSqe blk | .retrySqe blk | .submit blk => [blk]
  | _ => []

namespace PacingDaemon

variable {cap : Capacity} {ι : Type*} [DecidableEq ι] {strictGate : Bool}
  {s t : PacingDaemon cap ι} {i : DaemonInput}

theorem paid_of_consume {blk : KVBlock} {bytes : UInt64}
    (hpc : s.pc = .consume blk)
    (hstep : s.daemonStep strictGate (.granted bytes) = some t) :
    t.pc.paid = if bytes = 0 then [] else [blk] := by
  unfold daemonStep at hstep
  rw [hpc] at hstep
  dsimp only at hstep
  split at hstep
  · next hzero =>
      obtain ⟨absorber, -, rfl⟩ := Option.map_eq_some_iff.mp hstep
      simp [hzero, DaemonPc.paid]
  · next hsome =>
      obtain rfl := Option.some.inj hstep
      simp [hsome, DaemonPc.paid]

/-- Apart from the grant, a statement of the loop pays for nothing. -/
theorem paid_sublist (hpc : ∀ blk, s.pc ≠ .consume blk)
    (hstep : s.daemonStep strictGate i = some t) :
    t.pc.paid.Sublist s.pc.paid := by
  have hnone : t.pc.paid = [] → t.pc.paid.Sublist s.pc.paid := by
    intro hnil
    rw [hnil]
    exact List.nil_sublist _
  unfold daemonStep at hstep
  split at hstep
  · split at hstep
    · obtain rfl := Option.some.inj hstep
      exact List.Sublist.refl _
    · cases hstep
  · obtain ⟨absorber, -, rfl⟩ := Option.map_eq_some_iff.mp hstep
    exact hnone rfl
  · next hdraining =>
      obtain ⟨absorber, -, rfl⟩ := Option.map_eq_some_iff.mp hstep
      apply hnone
      split
      · simp [hdraining, DaemonPc.paid]
      · rfl
      · split <;> simp [hdraining, DaemonPc.paid]
  · next blk bytes hconsume => exact absurd hconsume (hpc blk)
  · next blk hreabsorb =>
      obtain ⟨absorber, -, rfl⟩ := Option.map_eq_some_iff.mp hstep
      apply hnone
      split
      · rfl
      · rfl
      · simp [PacingProcess.pc_of_absorbing, hreabsorb, DaemonPc.paid]
  · next blk hreabsorb =>
      obtain ⟨absorber, -, rfl⟩ := Option.map_eq_some_iff.mp hstep
      apply hnone
      simp [hreabsorb, DaemonPc.paid]
  · next blk free hget =>
      obtain rfl := Option.some.inj hstep
      rw [hget]
      cases free <;> exact List.Sublist.refl _
  · next blk hretry =>
      obtain rfl := Option.some.inj hstep
      rw [hretry]
      exact List.Sublist.refl _
  · obtain rfl := Option.some.inj hstep
    exact hnone rfl
  · obtain rfl := Option.some.inj hstep
    exact hnone rfl
  · cases hstep

theorem paid_of_submit {blk : KVBlock} (hpc : s.pc = .submit blk)
    (hstep : s.daemonStep strictGate .next = some t) : t.pc.paid = [] := by
  unfold daemonStep at hstep
  rw [hpc] at hstep
  obtain rfl := Option.some.inj hstep
  rfl

end PacingDaemon

namespace PacingProcess

variable {cap : Capacity} {ι : Type*}

/-- When a block was paid for, and its size. -/
def entry (ns : Nat) (blk : KVBlock) : ℚ × ℚ := (ns, blk.sizeBytes.toNat)

/-- The sizes submitted, with the readings of the clock they were granted at. -/
def flushedSizes (s : PacingProcess cap ι) : List (ℚ × ℚ) :=
  s.flushed.map fun f => entry f.1 f.2

/-- What has been paid for. -/
def paid (s : PacingProcess cap ι) : List (ℚ × ℚ) :=
  s.flushedSizes ++ s.loop.pc.paid.map (entry s.bucket.lastNs)

/-- The clock does not go back. -/
def Timely (s : PacingProcess cap ι) : Event ι → Prop
  | .thread (.clock now) => s.bucket.lastNs ≤ now
  | _ => True

/-- The bucket that is asked for a block holds all of it, or less than a
byte. -/
def Whole (s : PacingProcess cap ι) : Event ι → Prop
  | .thread (.clock now) =>
      match s.loop.pc with
      | .consume blk =>
          (s.bucket.refill now).tokens < 1 ∨
            (blk.sizeBytes.toNat : ℚ) ≤ (s.bucket.refill now).tokens
      | _ => True
  | _ => True

instance (s : PacingProcess cap ι) : ∀ e, Decidable (s.Timely e)
  | .thread (.clock _) => inferInstanceAs (Decidable (_ ≤ _))
  | .thread .next | .thread .attention | .thread (.opened _)
  | .thread (.submitted _) | .thread .timeout | .thread .spurious
  | .absorb _ _ | .producer _ | .spurious _ | .start | .stop | .destroy
  | .owner _ | .kernel _ => isTrue trivial

instance (s : PacingProcess cap ι) (e : Event ι) : Decidable (s.Whole e) := by
  unfold Whole
  split
  · split <;> infer_instance
  · infer_instance

/-- What holds in runs with whole grants only. -/
structure Paced (cfg : ProcessConfig) (s : PacingProcess cap ι) : Prop where
  rate : s.bucket.rateBpns = (cfg.rateBytesPerSec.toNat : ℚ) / 1000000000
  burst : s.bucket.burst = cfg.burstBytes.toNat
  level : s.bucket.Level
  ledger : Ledger.Sound s.bucket.rateBpns s.bucket.burst
    { level := s.bucket.tokens, time := s.bucket.lastNs, spent := s.paid }

variable [DecidableEq ι] {cfg : ProcessConfig} {s t : PacingProcess cap ι}
  {e : Event ι}

omit [DecidableEq ι] in
/-- A step that leaves the bucket alone and pays for nothing. -/
theorem Paced.congr (h : s.Paced cfg) (hbucket : t.bucket = s.bucket)
    (hpaid : t.paid.Sublist s.paid) : t.Paced cfg where
  rate := by rw [hbucket]; exact h.rate
  burst := by rw [hbucket]; exact h.burst
  level := by rw [hbucket]; exact h.level
  ledger := by rw [hbucket]; exact h.ledger.sublist hpaid

/-- The bucket is asked for a block. -/
theorem Paced.consume (h : s.Paced cfg) {blk : KVBlock} {now : Nat}
    (hpc : s.loop.pc = .consume blk)
    (htimely : s.Timely (.thread (.clock now) : Event ι))
    (hwhole : s.Whole (.thread (.clock now) : Event ι))
    {loop : PacingDaemon cap ι}
    (hloop : s.loop.daemonStep cfg.strictGate
      (.granted (s.bucket.tryConsume blk.sizeBytes now).2) = some loop)
    (thread : Option ThreadPc) :
    Paced cfg { s with
      loop
      bucket := (s.bucket.tryConsume blk.sizeBytes now).1
      thread } := by
  have hnow : s.bucket.lastNs ≤ now := htimely
  have hcast : (s.bucket.lastNs : ℚ) ≤ now := by exact_mod_cast hnow
  obtain ⟨hfilled, hcredit⟩ := h.level.refill hnow
  have hgrant : (s.bucket.refill now).tokens < 1 ∨
      (blk.sizeBytes.toNat : ℚ) ≤ (s.bucket.refill now).tokens := by
    simpa [Whole, hpc] using hwhole
  obtain ⟨hnonneg, hgranted⟩ := TokenBucket.tryConsume_spec hfilled hgrant
  obtain ⟨hrate, hburst, hlast⟩ :
      (s.bucket.tryConsume blk.sizeBytes now).1.rateBpns = s.bucket.rateBpns ∧
        (s.bucket.tryConsume blk.sizeBytes now).1.burst = s.bucket.burst ∧
        (s.bucket.tryConsume blk.sizeBytes now).1.lastNs = (s.bucket.refill now).lastNs :=
    TokenBucket.tryConsume_frame
  rw [TokenBucket.refill_lastNs hnow] at hlast
  have hpaid := PacingDaemon.paid_of_consume hpc hloop
  -- the ledger after the refill
  have hsound : Ledger.Sound s.bucket.rateBpns s.bucket.burst
      { level := (s.bucket.refill now).tokens, time := (now : ℚ),
        spent := s.flushedSizes } := by
    have hold := h.ledger.refill h.level.rate hcast hcredit
      (by simpa using hfilled.le_burst)
    simpa [paid, hpc, DaemonPc.paid] using hold
  generalize s.bucket.tryConsume blk.sizeBytes now = taken at *
  obtain ⟨bucket, bytes⟩ := taken
  dsimp only at hnonneg hgranted hrate hburst hlast hpaid ⊢
  have hlevel : bucket.tokens ≤ (s.bucket.refill now).tokens := by
    rcases hgranted with ⟨-, hle⟩ | ⟨-, hspent⟩
    · exact hle
    · have hsize : (0 : ℚ) ≤ blk.sizeBytes.toNat := Nat.cast_nonneg _
      linarith
  refine ⟨hrate.trans h.rate, hburst.trans h.burst, ⟨?_, hnonneg, ?_⟩, ?_⟩
  · rw [hrate]
    exact h.level.rate
  · rw [hburst]
    exact hlevel.trans (by simpa using hfilled.le_burst)
  · have hspentNone : bytes = 0 →
        Ledger.Sound s.bucket.rateBpns s.bucket.burst
          { level := bucket.tokens, time := (now : ℚ),
            spent := s.flushedSizes ++ loop.pc.paid.map (entry now) } := by
      intro hzero
      rw [hpaid, if_pos hzero, List.map_nil, List.append_nil]
      exact hsound.lower h.level.rate hlevel
    unfold paid
    dsimp only
    rw [hrate, hburst, hlast]
    rcases hgranted with ⟨hzero, -⟩ | ⟨hwant, hspent⟩
    · exact hspentNone hzero
    · by_cases hzero : bytes = 0
      · exact hspentNone hzero
      · rw [hpaid, if_neg hzero]
        exact hsound.spend h.level.rate (Nat.cast_nonneg _) hnonneg hspent.le

theorem Paced.step (h : s.Paced cfg) (htimely : s.Timely e) (hwhole : s.Whole e)
    (hstep : s.step cfg e = some t) : t.Paced cfg := by
  cases move_of_step hstep with
  | producers hloop hpc =>
      refine h.congr rfl ?_
      unfold paid
      dsimp only
      rw [hpc]
      exact List.Sublist.refl _
  | owner _ hmove =>
      obtain ⟨hloop, hbucket, hflushed⟩ := hmove.frame
      refine h.congr hbucket ?_
      unfold paid flushedSizes
      rw [hloop, hbucket, hflushed]
  | kernel => exact h.congr rfl (List.Sublist.refl _)
  | thread _ hmove =>
      cases hmove with
      | body _ _ hpc hloop =>
          refine h.congr rfl ?_
          have hless := PacingDaemon.paid_sublist (fun blk => (hpc blk).1) hloop
          exact (hless.map _).append_left _
      | consume _ hpc hloop => exact h.consume hpc htimely hwhole hloop _
      | @submit blk n loop _ hpc hloop =>
          refine h.congr rfl ?_
          have hnone := PacingDaemon.paid_of_submit hpc hloop
          unfold paid
          dsimp only
          rw [hnone]
          simp [flushedSizes, flush, hpc, DaemonPc.paid]
      | _ => exact h.congr rfl (List.Sublist.refl _)

omit [DecidableEq ι] in
theorem paced_init (found : Fin cap.size → KVBlock) (now : Nat) :
    (init cfg found now : PacingProcess cap ι).Paced cfg := by
  have hrate : (0 : ℚ) ≤ (cfg.rateBytesPerSec.toNat : ℚ) / 1000000000 :=
    div_nonneg (Nat.cast_nonneg _) (by norm_num)
  have hburst : (0 : ℚ) ≤ (cfg.burstBytes.toNat : ℚ) := Nat.cast_nonneg _
  exact ⟨rfl, rfl, ⟨hrate, hburst, le_rfl⟩, .start hrate hburst le_rfl⟩

/-- **The daemon keeps to its rate on whole grants.**  Between any two times
at most the burst and what comes in between them at the rate is submitted. -/
theorem flushed_within_rate (cfg : ProcessConfig)
    (found : Fin cap.size → KVBlock) (now : Nat) (s : PacingProcess cap ι)
    (hreach : Reach (step cfg) (fun s e => s.Timely e ∧ s.Whole e)
      (init cfg found now) s) (t₀ t₁ : ℚ) (hle : t₀ ≤ t₁) :
    spentBetween t₀ t₁ s.flushedSizes ≤
      cfg.burstBytes.toNat +
        (cfg.rateBytesPerSec.toNat : ℚ) / 1000000000 * (t₁ - t₀) := by
  have hs : s.Paced cfg := by
    apply hreach.invariant (paced_init found now)
    intro s e t hs hcond hstep
    exact hs.step hcond.1 hcond.2 hstep
  have hless : spentBetween t₀ t₁ s.flushedSizes ≤
      spentBetween t₀ t₁ s.paid :=
    spentBetween_sublist hs.ledger.nonneg (List.sublist_append_left _ _)
  have hpaid := hs.ledger.within t₀ t₁ hle
  rw [hs.rate, hs.burst] at hpaid
  exact hless.trans hpaid

/-- The object is started, and a block of 4096 bytes absorbed and submitted, at
time 0. -/
def oneFlushEvents : List (Event Unit) :=
  [Event.start, .owner true, .owner true, .owner true,
    .absorb () (SpikeAbsorber.blockOf 1)] ++
    List.replicate 6 (Event.producer ()) ++ [Event.thread (.opened true)] ++
    List.replicate 8 (Event.thread .next) ++
    [Event.thread (.clock 0), .thread .next, .thread (.submitted 1)]

/-- A burst of ten bytes: the block is written in full on a grant of ten. -/
theorem flushed_above_rate :
    ¬ ∀ (cfg : ProcessConfig) (found : Fin pair.size → KVBlock) (now : Nat)
        (s : PacingProcess pair Unit),
      Reach (step cfg) Timely (init cfg found now) s →
      ∀ t₀ t₁ : ℚ, t₀ ≤ t₁ → spentBetween t₀ t₁ s.flushedSizes ≤
        cfg.burstBytes.toNat +
          (cfg.rateBytesPerSec.toNat : ℚ) / 1000000000 * (t₁ - t₀) := by
  intro hall
  obtain ⟨s, hreach, hspent⟩ : ∃ s : PacingProcess pair Unit,
      Reach (step { burstBytes := 10 }) Timely
        (init { burstBytes := 10 } (fun _ => SpikeAbsorber.blockOf 0) 0) s ∧
      spentBetween 0 0 s.flushedSizes = 4096 :=
    Reach.exists_of_exec oneFlushEvents (by decide +kernel) (by decide +kernel)
  have hbound := hall _ _ 0 s hreach 0 0 le_rfl
  rw [hspent] at hbound
  exact absurd hbound (by decide +kernel)

/-- A second block, absorbed and submitted a microsecond later. -/
def refilledEvents : List (Event Unit) :=
  oneFlushEvents ++ [Event.absorb () (SpikeAbsorber.blockOf 2)] ++
    List.replicate 6 (Event.producer ()) ++
    List.replicate 9 (Event.thread .next) ++
    [Event.thread (.clock 1000), .thread .next, .thread (.submitted 1)]

/-- The first block empties a bucket of one block, and a microsecond fills it. -/
theorem flushed_within_rate_two :
    ∃ s : PacingProcess pair Unit,
      s.flushed =
        [(0, SpikeAbsorber.blockOf 1), (1000, SpikeAbsorber.blockOf 2)] ∧
      spentBetween 0 1000 s.flushedSizes = 8192 ∧
      spentBetween 0 1000 s.flushedSizes ≤
        4096 + 5 * 1024 * 1024 * 1024 / 1000000000 * 1000 := by
  obtain ⟨s, hreach, htwo⟩ : ∃ s : PacingProcess pair Unit,
      Reach (step { burstBytes := 4096 }) (fun s e => s.Timely e ∧ s.Whole e)
        (init { burstBytes := 4096 } (fun _ => SpikeAbsorber.blockOf 0) 0) s ∧
      s.flushed =
        [(0, SpikeAbsorber.blockOf 1), (1000, SpikeAbsorber.blockOf 2)] :=
    Reach.exists_of_exec refilledEvents (by decide +kernel) (by decide +kernel)
  have hbound := flushed_within_rate _ _ 0 s hreach 0 1000 (by norm_num)
  refine ⟨s, htwo, ?_, hbound.trans ?_⟩
  · rw [flushedSizes, htwo]
    decide +kernel
  · decide +kernel

end PacingProcess

end Tempo
