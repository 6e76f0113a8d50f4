import Tempo.PacingAccount

/-!
# Runs of the pacing daemon

Two facts complete the account of the accepted blocks.  The tickets of
different `absorb` calls differ, since a claim takes a position larger than all
before it.  And no block is refused on its way back to the ring as long as
the daemon never finds the ring full there, which is a condition on its runs.

`flush_block` gives a block up when the submission queue has no entry before
and after a submit, so a block may be in a fourth place besides the ring, the
loop iteration and the submissions; `given_up_is_nowhere` is a run in which it
is.
-/

namespace Tempo

namespace PacingDaemon

variable {cap : Capacity} {ι : Type*} [DecidableEq ι]
variable {s t : PacingDaemon cap ι}

/-! ### Tickets of different calls differ -/

/-- What the accesses of `drain` leave alone. -/
theorem drainStep_frame (hstep : s.drainStep = some t) :
    t.accepted = s.accepted ∧ t.unplaced = s.unplaced ∧
      t.absorber.producer = s.absorber.producer := by
  obtain ⟨absorber, hring, rfl⟩ := Option.map_eq_some_iff.mp hstep
  have hproducer := SpikeAbsorber.consumerStep_producer hring
  split
  · exact ⟨rfl, rfl, hproducer⟩
  · exact ⟨rfl, rfl, hproducer⟩
  · split
    · exact ⟨rfl, rfl, hproducer⟩
    · exact ⟨rfl, rfl, hproducer⟩

omit [DecidableEq ι] in
/-- What an access of `absorb` leaves alone in the books. -/
theorem absorbing_frame (i : Option ι)
    (absorber : SpikeAbsorber cap (Option ι)) :
    (s.absorbing i absorber).absorber = absorber ∧
      (s.absorbing i absorber).accepted = s.accepted ∧
      (s.absorbing i absorber).unplaced = s.unplaced := by
  unfold absorbing
  split
  · exact ⟨rfl, rfl, rfl⟩
  · cases i
    · exact ⟨rfl, rfl, rfl⟩
    · exact ⟨rfl, rfl, rfl⟩

/-- What the accesses of the daemon's `absorb` leave alone. -/
theorem reabsorbStep_frame (hstep : s.reabsorbStep = some t) :
    t.accepted = s.accepted ∧
      SpikeAbsorber.ProducerSpec s.absorber t.absorber none ∧
      ((∀ b, s.absorber.producer none ≠ .refuse b) →
        t.unplaced = s.unplaced) := by
  obtain ⟨absorber, hring, rfl⟩ := Option.map_eq_some_iff.mp hstep
  have hspec := SpikeAbsorber.producerStep_spec hring
  obtain ⟨habsorber, haccepted, hunplaced⟩ :=
    absorbing_frame (s := s) none absorber
  split
  · exact ⟨haccepted, by simpa [habsorber] using hspec, fun _ => hunplaced⟩
  · next b hpc =>
      exact ⟨haccepted, by simpa [habsorber] using hspec,
        fun h => absurd hpc (h b)⟩
  · exact ⟨haccepted, by simpa [habsorber] using hspec, fun _ => hunplaced⟩

/-- What the daemon leaves alone: the producers and what they were told, and,
unless it is refused, the blocks without a place. -/
theorem daemonStep_frame {strictGate : Bool} {i : DaemonInput}
    (hstep : s.daemonStep strictGate i = some t) :
    t.accepted = s.accepted ∧
      (∀ p, t.absorber.producer (some p) = s.absorber.producer (some p)) ∧
      ((∀ b, s.absorber.producer none ≠ .refuse b) →
        t.unplaced = s.unplaced) := by
  have hnone : ∀ (pc : AbsorbPc) (p : ι),
      (s.absorber.setProducer none pc).producer (some p) =
        s.absorber.producer (some p) := by
    intro pc p
    simp [SpikeAbsorber.setProducer]
  unfold daemonStep at hstep
  split at hstep
  · -- paused by the phase gate
    split at hstep
    · obtain rfl := Option.some.inj hstep
      exact ⟨rfl, fun _ => rfl, fun _ => rfl⟩
    · cases hstep
  · obtain ⟨absorber, hring, rfl⟩ := Option.map_eq_some_iff.mp hstep
    obtain ⟨-, rfl⟩ := by simpa [SpikeAbsorber.step] using hring
    exact ⟨rfl, fun _ => rfl, fun _ => rfl⟩
  · obtain ⟨haccepted, hunplaced, hproducer⟩ := drainStep_frame hstep
    exact ⟨haccepted, fun p => by rw [hproducer], fun _ => hunplaced⟩
  · split at hstep
    · obtain ⟨absorber, hring, rfl⟩ := Option.map_eq_some_iff.mp hstep
      obtain ⟨-, rfl⟩ := by simpa [SpikeAbsorber.step] using hring
      exact ⟨rfl, hnone _, fun _ => rfl⟩
    · obtain rfl := Option.some.inj hstep
      exact ⟨rfl, fun _ => rfl, fun _ => rfl⟩
  · obtain ⟨haccepted, hspec, hunplaced⟩ := reabsorbStep_frame hstep
    exact ⟨haccepted, fun p => hspec.others _ (by simp), hunplaced⟩
  · obtain ⟨absorber, hring, rfl⟩ := Option.map_eq_some_iff.mp hstep
    cases hclaim : s.absorber.producer none with
    | claim b pos =>
        obtain rfl := by simpa [SpikeAbsorber.step, hclaim] using hring
        exact ⟨rfl, hnone _, fun _ => rfl⟩
    | _ => simp [SpikeAbsorber.step, hclaim] at hring
  · obtain rfl := Option.some.inj hstep
    exact ⟨rfl, fun _ => rfl, fun _ => rfl⟩
  · obtain rfl := Option.some.inj hstep
    exact ⟨rfl, fun _ => rfl, fun _ => rfl⟩
  · obtain rfl := Option.some.inj hstep
    exact ⟨rfl, fun _ => rfl, fun _ => rfl⟩
  · obtain rfl := Option.some.inj hstep
    exact ⟨rfl, fun _ => rfl, fun _ => rfl⟩
  · cases hstep

/-- The positions won by producers, in progress or reported, are distinct. -/
structure Issued (s : PacingDaemon cap ι) : Prop where
  accepted_nodup : (s.accepted.map Prod.fst).Nodup
  won_new : ∀ p r, (s.absorber.producer (some p)).won? = some r →
    r.1 ∉ s.accepted.map Prod.fst
  won_unique : ∀ p p' r r', (s.absorber.producer (some p)).won? = some r →
    (s.absorber.producer (some p')).won? = some r' → r.1 = r'.1 → p = p'

omit [DecidableEq ι] in
theorem issued_init (found : Fin cap.size → KVBlock) :
    Issued (init found : PacingDaemon cap ι) where
  accepted_nodup := List.nodup_nil
  won_new := by simp [init, SpikeAbsorber.init, AbsorbPc.won?]
  won_unique := by simp [init, SpikeAbsorber.init, AbsorbPc.won?]

omit [DecidableEq ι] in
/-- A step in which no producer wins a position or reports one. -/
theorem Issued.congr (h : s.Issued) (haccepted : t.accepted = s.accepted)
    (hwon : ∀ p r, (t.absorber.producer (some p)).won? = some r →
      (s.absorber.producer (some p)).won? = some r) : t.Issued where
  accepted_nodup := by rw [haccepted]; exact h.accepted_nodup
  won_new := fun p r hr => by
    rw [haccepted]
    exact h.won_new p r (hwon p r hr)
  won_unique := fun p p' r r' hr hr' =>
    h.won_unique p p' r r' (hwon p r hr) (hwon p' r' hr')

/-- A producer that starts an `absorb` or loses a compare-and-swap. -/
theorem won_setProducer {p : ι} {pc : AbsorbPc} (hpc : pc.won? = none) :
    ∀ p' r, ((s.absorber.setProducer (some p) pc).producer (some p')).won? =
      some r → (s.absorber.producer (some p')).won? = some r := by
  intro p' r hr
  rw [SpikeAbsorber.producer_setProducer] at hr
  split at hr
  · simp [hpc] at hr
  · exact hr

omit [DecidableEq ι] in
/-- A producer that wins no position reports the one it won. -/
theorem Issued.accept (h : s.Issued) {p : ι} {won : Nat × KVBlock}
    (haccepted : t.accepted = s.accepted ++ [won])
    (hwon : (s.absorber.producer (some p)).won? = some won)
    (hidle : t.absorber.producer (some p) = .idle)
    (hback : ∀ p' r, (t.absorber.producer (some p')).won? = some r →
      (s.absorber.producer (some p')).won? = some r) : t.Issued where
  accepted_nodup := by
    rw [haccepted, List.map_append]
    refine List.nodup_append.mpr ⟨h.accepted_nodup, by simp, ?_⟩
    intro a ha b hb hab
    obtain rfl : b = won.1 := by simpa using hb
    exact h.won_new p _ hwon (hab ▸ ha)
  won_new := by
    intro p' r hr hmem
    rw [haccepted, List.map_append] at hmem
    rcases List.mem_append.mp hmem with hmem | hmem
    · exact h.won_new p' r (hback p' r hr) hmem
    · have hpos : r.1 = won.1 := by simpa using hmem
      obtain rfl := h.won_unique p' p r _ (hback p' r hr) hwon hpos
      rw [hidle] at hr
      cases hr
  won_unique := by
    intro p₁ p₂ r r' hr hr'
    exact h.won_unique p₁ p₂ r r' (hback p₁ r hr) (hback p₂ r' hr')

omit [DecidableEq ι] in
/-- A producer wins a position larger than every position won before. -/
theorem Issued.claim (h : s.Issued) (hs : s.Account) {p : ι}
    (haccepted : t.accepted = s.accepted)
    (hothers : ∀ p', p' ≠ p → t.absorber.producer (some p') =
      s.absorber.producer (some p'))
    (hnew : ∀ r, (t.absorber.producer (some p)).won? = some r →
      r.1 = s.absorber.claimed.length) : t.Issued := by
  have hlt : ∀ p' r, (s.absorber.producer (some p')).won? = some r →
      r.1 < s.absorber.claimed.length :=
    fun p' r hr => hs.entered_lt _ (hs.claiming p' r hr).1
  constructor
  case accepted_nodup =>
    rw [haccepted]
    exact h.accepted_nodup
  case won_new =>
    intro p' r hr hmem
    rw [haccepted] at hmem
    by_cases hp : p' = p
    · subst hp
      obtain ⟨r', hr', heq⟩ := List.mem_map.mp hmem
      have hold := hs.entered_lt _ (hs.accepted_ok r' hr').1
      have := hnew r hr
      omega
    · rw [hothers p' hp] at hr
      exact h.won_new p' r hr hmem
  case won_unique =>
    intro p₁ p₂ r r' hr hr' heq
    by_cases h₁ : p₁ = p <;> by_cases h₂ : p₂ = p
    · rw [h₁, h₂]
    · subst h₁
      rw [hothers p₂ h₂] at hr'
      have := hnew r hr
      have := hlt p₂ r' hr'
      omega
    · subst h₂
      rw [hothers p₁ h₁] at hr
      have := hnew r' hr'
      have := hlt p₁ r hr
      omega
    · rw [hothers p₁ h₁] at hr
      rw [hothers p₂ h₂] at hr'
      exact h.won_unique p₁ p₂ r r' hr hr' heq

/-- One access of a producer: a new position is larger than all before, and
reporting one takes it out of progress. -/
theorem Issued.producer (h : s.Issued) (hs : s.Account) {strictGate : Bool}
    {p : ι} (hstep : s.step strictGate (.producer p) = some t) : t.Issued := by
  obtain ⟨absorber, hring, rfl⟩ := Option.map_eq_some_iff.mp hstep
  have hspec := SpikeAbsorber.producerStep_spec hring
  obtain ⟨habsorber, -, -⟩ := absorbing_frame (s := s) (some p) absorber
  have hothers : ∀ p', p' ≠ p → absorber.producer (some p') =
      s.absorber.producer (some p') :=
    fun p' hp => hspec.others _ fun heq => hp (Option.some.inj heq)
  rcases hspec.cases with ⟨-, hnext⟩ | ⟨blk, hclaim, -, hwon⟩
  · have hback : ∀ p' r, (absorber.producer (some p')).won? = some r →
        (s.absorber.producer (some p')).won? = some r := by
      intro p' r hr
      by_cases hp : p' = p
      · subst hp
        exact hnext.won hr
      · rw [hothers p' hp] at hr
        exact hr
    by_cases haccept : ∃ blk pos, s.absorber.producer (some p) = .accept blk pos
    · obtain ⟨blk, pos, haccept⟩ := haccept
      have hidle : absorber.producer (some p) = .idle := by
        rw [haccept] at hnext
        generalize absorber.producer (some p) = pc at hnext ⊢
        cases hnext
        rfl
      have hwon : (s.absorber.producer (some p)).won? =
          some (pos.toNat, blk) := by
        rw [haccept]
        rfl
      rw [haccept]
      apply h.accept rfl hwon
      · rw [habsorber]
        exact hidle
      · rw [habsorber]
        exact hback
    · have hsilent : (s.absorber.producer (some p)).accepting = [] := by
        cases hpc : s.absorber.producer (some p) with
        | accept blk pos => exact absurd ⟨blk, pos, hpc⟩ haccept
        | _ => rfl
      refine h.congr (by rw [hsilent, List.append_nil]) ?_
      rw [habsorber]
      exact hback
  · have hsilent : (s.absorber.producer (some p)).accepting = [] := by
      rw [hclaim]
      rfl
    apply h.claim hs (p := p)
    · rw [hsilent, List.append_nil]
    · rw [habsorber]
      exact hothers
    · intro r hr
      rw [habsorber, hwon] at hr
      obtain rfl := Option.some.inj hr
      exact hs.ring.enqueue

theorem Issued.step (h : s.Issued) (hs : s.Account) {strictGate : Bool}
    {e : Event ι} (hstep : s.step strictGate e = some t) : t.Issued := by
  cases e with
  | absorb p blk =>
      obtain ⟨pc, hwon, -, rfl⟩ := restarts_absorb hstep
      exact h.congr rfl (won_setProducer hwon)
  | producer p => exact h.producer hs hstep
  | spurious p =>
      obtain ⟨pc, hwon, -, rfl⟩ := restarts_spurious hstep
      exact h.congr rfl (won_setProducer hwon)
  | daemon i =>
      obtain ⟨haccepted, hproducer, -⟩ := daemonStep_frame hstep
      exact h.congr haccepted fun p r hr => by rwa [hproducer p] at hr

/-! ### Blocks on their way back -/

/-- The daemon's block is about to be refused by a full ring. -/
def returnRefused (s : PacingDaemon cap ι) : Bool :=
  match s.pc, s.absorber.producer none with
  | .reabsorb _, .peek _ pos =>
      SpikeAbsorber.diff (s.absorber.slot pos).seq pos < 0
  | _, _ => false

/-- The condition on a step: the daemon does not return a block to a full
ring. -/
def Roomy (s : PacingDaemon cap ι) : Event ι → Prop
  | .daemon .next => s.returnRefused = false
  | _ => True

instance Roomy.decidable (s : PacingDaemon cap ι) : ∀ e, Decidable (s.Roomy e)
  | .daemon .next => inferInstanceAs (Decidable (_ = _))
  | .daemon .attention | .daemon (.granted _) | .daemon (.sqe _)
  | .daemon .spurious | .absorb _ _ | .producer _ | .spurious _ =>
      isTrue trivial

/-- No block has been refused on its way back, and none is about to be. -/
structure Unrefused (s : PacingDaemon cap ι) : Prop where
  unplaced : s.unplaced = []
  producer : ∀ b, s.absorber.producer none ≠ .refuse b

omit [DecidableEq ι] in
theorem unrefused_init {found : Fin cap.size → KVBlock} :
    Unrefused (init found : PacingDaemon cap ι) where
  unplaced := rfl
  producer := by simp [init, SpikeAbsorber.init]

/-- With room in the ring, the daemon's `absorb` does not come to refuse. -/
theorem not_refuse_of_reabsorb {blk : KVBlock} (hpc : s.pc = .reabsorb blk)
    (hroomy : s.returnRefused = false) (hstep : s.reabsorbStep = some t) :
    ∀ b, t.absorber.producer none ≠ .refuse b := by
  obtain ⟨-, hspec, -⟩ := reabsorbStep_frame hstep
  intro b hb
  rcases hspec.cases with ⟨-, hnext⟩ | ⟨c, -, -, hwrite⟩
  · rw [hb] at hnext
    cases hnow : s.absorber.producer none with
    | peek c pos =>
        have hdiff : ¬ SpikeAbsorber.diff (s.absorber.slot pos).seq pos < 0 := by
          simpa [returnRefused, hpc, hnow] using hroomy
        obtain ⟨absorber, hring, rfl⟩ := Option.map_eq_some_iff.mp hstep
        obtain rfl := by
          simpa [SpikeAbsorber.step, SpikeAbsorber.producerStep, hnow]
            using hring
        simp only [hnow, (absorbing_frame (s := s) none _).1,
          SpikeAbsorber.setProducer_self, hdiff, if_false] at hb
        split at hb <;> cases hb
    | _ =>
        rw [hnow] at hnext
        cases hnext
  · rw [hb] at hwrite
    cases hwrite

theorem not_refuse_of_daemonStep (h : s.Unrefused) {strictGate : Bool} {i : DaemonInput}
    (hroomy : s.Roomy (.daemon i))
    (hstep : s.daemonStep strictGate i = some t) :
    ∀ b, t.absorber.producer none ≠ .refuse b := by
  unfold daemonStep at hstep
  split at hstep
  · split at hstep
    · obtain rfl := Option.some.inj hstep
      exact h.producer
    · cases hstep
  · obtain ⟨absorber, hring, rfl⟩ := Option.map_eq_some_iff.mp hstep
    obtain ⟨-, rfl⟩ := by simpa [SpikeAbsorber.step] using hring
    exact h.producer
  · obtain ⟨-, -, hproducer⟩ := drainStep_frame hstep
    rw [hproducer]
    exact h.producer
  · split at hstep
    · obtain ⟨absorber, hring, rfl⟩ := Option.map_eq_some_iff.mp hstep
      obtain ⟨-, rfl⟩ := by simpa [SpikeAbsorber.step] using hring
      simp
    · obtain rfl := Option.some.inj hstep
      exact h.producer
  · next hpc => exact not_refuse_of_reabsorb hpc hroomy hstep
  · obtain ⟨absorber, hring, rfl⟩ := Option.map_eq_some_iff.mp hstep
    cases hclaim : s.absorber.producer none with
    | claim b pos =>
        obtain rfl := by simpa [SpikeAbsorber.step, hclaim] using hring
        simp
    | _ => simp [SpikeAbsorber.step, hclaim] at hring
  · obtain rfl := Option.some.inj hstep
    exact h.producer
  · obtain rfl := Option.some.inj hstep
    exact h.producer
  · obtain rfl := Option.some.inj hstep
    exact h.producer
  · obtain rfl := Option.some.inj hstep
    exact h.producer
  · cases hstep

theorem Unrefused.step (h : s.Unrefused)
    {strictGate : Bool} {e : Event ι} (hroomy : s.Roomy e)
    (hstep : s.step strictGate e = some t) : t.Unrefused := by
  cases e with
  | absorb p blk =>
      obtain ⟨pc, -, -, rfl⟩ := restarts_absorb hstep
      refine ⟨h.unplaced, fun b => ?_⟩
      simpa [SpikeAbsorber.setProducer] using h.producer b
  | producer p =>
      obtain ⟨absorber, hring, rfl⟩ := Option.map_eq_some_iff.mp hstep
      have hspec := SpikeAbsorber.producerStep_spec hring
      obtain ⟨habsorber, -, hunplaced⟩ :=
        absorbing_frame (s := s) (some p) absorber
      refine ⟨hunplaced.trans h.unplaced, fun b => ?_⟩
      show (s.absorbing (some p) absorber).absorber.producer none ≠ _
      rw [habsorber, hspec.others none (by simp)]
      exact h.producer b
  | spurious p =>
      obtain ⟨pc, -, -, rfl⟩ := restarts_spurious hstep
      refine ⟨h.unplaced, fun b => ?_⟩
      simpa [SpikeAbsorber.setProducer] using h.producer b
  | daemon i =>
      obtain ⟨-, -, hunplaced⟩ := daemonStep_frame hstep
      exact ⟨(hunplaced h.producer).trans h.unplaced,
        not_refuse_of_daemonStep h hroomy hstep⟩

/-! ### Results -/

/-- Every statement of the daemon is a step of the absorber, or none. -/
theorem absorber_of_daemonStep {strictGate : Bool} {i : DaemonInput}
    (hstep : s.daemonStep strictGate i = some t) :
    t.absorber = s.absorber ∨ ∃ e, s.absorber.step e = some t.absorber := by
  unfold daemonStep at hstep
  split at hstep
  · split at hstep
    · obtain rfl := Option.some.inj hstep
      exact .inl rfl
    · cases hstep
  · obtain ⟨absorber, hring, rfl⟩ := Option.map_eq_some_iff.mp hstep
    exact .inr ⟨_, hring⟩
  · obtain ⟨absorber, hring, rfl⟩ := Option.map_eq_some_iff.mp hstep
    refine .inr ⟨_, hring.trans ?_⟩
    split
    · rfl
    · rfl
    · split <;> rfl
  · split at hstep
    · obtain ⟨absorber, hring, rfl⟩ := Option.map_eq_some_iff.mp hstep
      exact .inr ⟨_, hring⟩
    · obtain rfl := Option.some.inj hstep
      exact .inl rfl
  · obtain ⟨absorber, hring, rfl⟩ := Option.map_eq_some_iff.mp hstep
    have habsorber := (absorbing_frame (s := s) none absorber).1
    refine .inr ⟨_, hring.trans ?_⟩
    split <;> simp [habsorber]
  · obtain ⟨absorber, hring, rfl⟩ := Option.map_eq_some_iff.mp hstep
    exact .inr ⟨_, hring⟩
  · obtain rfl := Option.some.inj hstep
    exact .inl rfl
  · obtain rfl := Option.some.inj hstep
    exact .inl rfl
  · obtain rfl := Option.some.inj hstep
    exact .inl rfl
  · obtain rfl := Option.some.inj hstep
    exact .inl rfl
  · cases hstep

/-- Claims are never taken back. -/
theorem claimed_length_le_of_step {strictGate : Bool} {e : Event ι}
    (hstep : s.step strictGate e = some t) :
    s.absorber.claimed.length ≤ t.absorber.claimed.length := by
  have hsim : t.absorber = s.absorber ∨
      ∃ e, s.absorber.step e = some t.absorber := by
    cases e with
    | absorb p blk | spurious p =>
        obtain ⟨absorber, hring, rfl⟩ := Option.map_eq_some_iff.mp hstep
        exact .inr ⟨_, hring⟩
    | producer p =>
        obtain ⟨absorber, hring, rfl⟩ := Option.map_eq_some_iff.mp hstep
        have habsorber := (absorbing_frame (s := s) (some p) absorber).1
        exact .inr ⟨_, by rw [habsorber]; exact hring⟩
    | daemon i => exact absorber_of_daemonStep hstep
  rcases hsim with heq | ⟨e, he⟩
  · rw [heq]
  · exact (SpikeAbsorber.claimed_prefix_of_step he).length_le

/-- A property that steps preserve while there are fewer than `2 ^ 63` claims
holds in every state with fewer than that. -/
theorem invariant_of_bounded {strictGate : Bool} {start : PacingDaemon cap ι}
    {cond : PacingDaemon cap ι → Event ι → Prop}
    {P : PacingDaemon cap ι → Prop}
    (hrun : Runs.Reach (step strictGate) cond start s)
    (hbound : s.absorber.claimed.length < 2 ^ 63) (hstart : P start)
    (hpres : ∀ s e t, P s → cond s e →
      s.absorber.claimed.length < 2 ^ 63 → s.step strictGate e = some t → P t) :
    P s := by
  apply hrun.invariant_while ?_ hbound hstart hpres
  intro s e t hstep ht
  exact (claimed_length_le_of_step hstep).trans_lt ht

/-- The books are right in every state with fewer than `2 ^ 63` claims. -/
theorem account_of_run {found : Fin cap.size → KVBlock} {strictGate : Bool}
    {cond : PacingDaemon cap ι → Event ι → Prop}
    (hrun : Runs.Reach (step strictGate) cond (init found) s)
    (hbound : s.absorber.claimed.length < 2 ^ 63) :
    s.Account ∧ s.Issued := by
  apply invariant_of_bounded hrun hbound
  · exact ⟨account_init found, issued_init found⟩
  · intro s e t hs _ hclaims hstep
    exact ⟨hs.1.step hclaims hstep, hs.2.step hs.1 hstep⟩

/-- **Every accepted block is in one place.**  In every run in which the
daemon returns no block to a full ring, the `absorb` calls that returned true
have distinct tickets, and each ticket is exactly once in the ring, held by
the loop, submitted or given up for want of a submission entry; wherever it
is, it is the block that was accepted. -/
theorem accepted_in_one_place {found : Fin cap.size → KVBlock}
    {strictGate : Bool}
    (hrun : Runs.Reach (step strictGate) Roomy (init found) s)
    (hbound : s.absorber.claimed.length < 2 ^ 63) :
    (s.accepted.map Prod.fst).Nodup ∧
    ∀ k blk, (k, blk) ∈ s.accepted →
      s.ringTickets.count k + s.ticket.toList.count k +
          (s.submitted.map Prod.fst).count k + s.givenUp.count k = 1 ∧
        (∀ q : Nat, s.origin[q]? = some k →
          s.absorber.claimed[q]? = some blk) ∧
        ∀ sqe, (k, sqe) ∈ s.submitted → sqe = prepWrite blk := by
  obtain ⟨hs, hissued⟩ := account_of_run hrun hbound
  have hun : s.Unrefused :=
    hrun.invariant unrefused_init fun _ _ _ h hroomy => h.step hroomy
  refine ⟨hissued.accepted_nodup, fun k blk hmem => ?_⟩
  obtain ⟨hentered, hblk⟩ := hs.accepted_ok _ hmem
  refine ⟨?_, ?_, ?_⟩
  · have hbalance := hs.balance k
    have hone : s.entered.count k = 1 :=
      List.count_eq_one_of_mem hs.entered_nodup hentered
    simp only [placed, hun.unplaced, List.count_nil] at hbalance
    omega
  · intro q hq
    rw [← hs.origin_block q k hq, hblk]
  · intro sqe hsqe
    obtain ⟨b, hb, heq⟩ := hs.submitted_ok _ hsqe
    obtain rfl : blk = b := Option.some.inj (hblk.symm.trans hb)
    exact heq

/-- The submission queue is full twice. -/
def giveUpEvents : List (Event Unit) :=
  .absorb () (SpikeAbsorber.blockOf 1) :: List.replicate 6 (.producer ()) ++
    List.replicate 7 (.daemon .next) ++
    [.daemon (.granted 4096), .daemon (.sqe false), .daemon (.sqe false)]

/-- An accepted block that is neither in the ring nor held nor submitted. -/
theorem given_up_is_nowhere :
    ∃ s : PacingDaemon ⟨1, by decide, by decide⟩ Unit,
      Runs.Reach (step true) Roomy (init fun _ => SpikeAbsorber.blockOf 0) s ∧
      s.accepted = [(0, SpikeAbsorber.blockOf 1)] ∧ s.ringTickets = [] ∧
      s.ticket = none ∧ s.submitted = [] :=
  Runs.Reach.exists_of_exec giveUpEvents (by decide +kernel)
    (by decide +kernel)

/-- The bucket is empty, and two producers fill the ring before the block gets
back to it. -/
def fullRingEvents : List (Event Unit) :=
  .absorb () (SpikeAbsorber.blockOf 1) :: List.replicate 6 (.producer ()) ++
    List.replicate 7 (.daemon .next) ++
    .absorb () (SpikeAbsorber.blockOf 2) :: List.replicate 6 (.producer ()) ++
    .absorb () (SpikeAbsorber.blockOf 3) :: List.replicate 6 (.producer ()) ++
    [.daemon (.granted 0), .daemon .next, .daemon .next, .daemon .next]

/-- The condition is needed: with a full ring the ignored refusal leaves an
accepted block without a place. -/
theorem full_ring_return_is_unplaced :
    ∃ s : PacingDaemon ⟨1, by decide, by decide⟩ Unit,
      Runs.Reachable (step true) (init fun _ => SpikeAbsorber.blockOf 0) s ∧
      (0, SpikeAbsorber.blockOf 1) ∈ s.accepted ∧ s.ringTickets = [1, 2] ∧
      s.ticket = none ∧ s.submitted = [] ∧ s.givenUp = [] ∧
      s.unplaced = [0] :=
  Runs.Reachable.exists_of_exec fullRingEvents (by decide +kernel)

/-- The bucket is empty at first: the block goes back and is submitted in its
second iteration. -/
def returnEvents : List (Event Unit) :=
  .absorb () (SpikeAbsorber.blockOf 1) :: List.replicate 6 (.producer ()) ++
    List.replicate 7 (.daemon .next) ++ [.daemon (.granted 0)] ++
    List.replicate 6 (.daemon .next) ++ List.replicate 7 (.daemon .next) ++
    [.daemon (.granted 4096), .daemon (.sqe true), .daemon .next]

theorem accepted_in_one_place_returned :
    ∃ s : PacingDaemon ⟨1, by decide, by decide⟩ Unit,
      Runs.Reach (step true) Roomy (init fun _ => SpikeAbsorber.blockOf 0) s ∧
      s.submitted = [(0, prepWrite (SpikeAbsorber.blockOf 1))] ∧
      s.ringTickets.count 0 + s.ticket.toList.count 0 +
        (s.submitted.map Prod.fst).count 0 + s.givenUp.count 0 = 1 := by
  obtain ⟨s, hrun, hsubmitted, hmem, hbound⟩ :
      ∃ s : PacingDaemon ⟨1, by decide, by decide⟩ Unit,
        Runs.Reach (step true) Roomy
          (init fun _ => SpikeAbsorber.blockOf 0) s ∧
        s.submitted = [(0, prepWrite (SpikeAbsorber.blockOf 1))] ∧
        (0, SpikeAbsorber.blockOf 1) ∈ s.accepted ∧
        s.absorber.claimed.length < 2 ^ 63 :=
    Runs.Reach.exists_of_exec returnEvents (by decide +kernel)
      (by decide +kernel)
  exact ⟨s, hrun, hsubmitted,
    ((accepted_in_one_place hrun hbound).2 0 _ hmem).1⟩

end PacingDaemon

end Tempo
