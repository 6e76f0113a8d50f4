import Tempo.PacingRuns

/-!
# The order of the submissions

The ring is first in, first out, but a block drained on an empty token bucket
goes back to its tail.  So the blocks leave in the order in which they entered,
except that such a block falls behind those in the ring.  The tickets that have
left, the one the loop holds and those in the ring are kept in one line
(`line`): a step adds a new ticket at its end, drops the held one, or moves the
held one to the end (`LineMove`).  The versions of one block stay in order as
long as no block is put back behind another version of it (`Unpassed`).
-/

namespace Tempo

namespace PacingDaemon

variable {cap : Capacity} {ι : Type*} {s t : PacingDaemon cap ι}
  {e : Event ι}

/-- The tickets in the order in which they are to be submitted: those that have
been, the held one, those in the ring. -/
def line (s : PacingDaemon cap ι) : List Nat :=
  s.submitted.map Prod.fst ++ s.ticket.toList ++ s.ringTickets

/-- What a step does to the line. -/
inductive LineMove (s t : PacingDaemon cap ι) (e : Event ι) : Prop
  | stay (hclaimed : t.absorber.claimed = s.absorber.claimed)
      (hline : t.line.Sublist s.line)
  | enter (blk : KVBlock)
      (hclaimed : t.absorber.claimed = s.absorber.claimed ++ [blk])
      (hline : t.line = s.line ++ [s.absorber.claimed.length])
  | putBack (blk : KVBlock) (k : Nat) (he : e = .daemon .next)
      (hticket : s.ticket = some k)
      (hblk : s.absorber.claimed[k]? = some blk)
      (hclaim : s.absorber.producer none = .claim blk s.absorber.enqueuePos)
      (hclaimed : t.absorber.claimed = s.absorber.claimed ++ [blk])
      (hline : t.line =
        s.submitted.map Prod.fst ++ s.ringTickets ++ [k])

theorem line_congr (hsubmitted : t.submitted = s.submitted)
    (hticket : t.ticket = s.ticket) (horigin : t.origin = s.origin)
    (hreleased : t.absorber.released = s.absorber.released) :
    t.line = s.line := by
  unfold line ringTickets
  rw [hsubmitted, hticket, horigin, hreleased]

/-- A step that claims nothing and moves no ticket. -/
theorem LineMove.same (hclaimed : t.absorber.claimed = s.absorber.claimed)
    (hsubmitted : t.submitted = s.submitted) (hticket : t.ticket = s.ticket)
    (horigin : t.origin = s.origin)
    (hreleased : t.absorber.released = s.absorber.released) :
    LineMove s t e := by
  refine .stay hclaimed ?_
  rw [line_congr hsubmitted hticket horigin hreleased]

/-- A step that lets go of the held ticket. -/
theorem LineMove.drop (hclaimed : t.absorber.claimed = s.absorber.claimed)
    (hsubmitted : t.submitted = s.submitted) (hticket : t.ticket = none)
    (horigin : t.origin = s.origin)
    (hreleased : t.absorber.released = s.absorber.released) :
    LineMove s t e := by
  refine .stay hclaimed ?_
  unfold line ringTickets
  rw [hsubmitted, hticket, horigin, hreleased, Option.toList_none,
    List.append_nil]
  exact (List.sublist_append_left _ _).append (List.Sublist.refl _)

variable [DecidableEq ι]

theorem lineMove_producer (hs : s.Account) {strictGate : Bool} {p : ι}
    (hstep : s.step strictGate (.producer p) = some t) : LineMove s t (.producer p) := by
  obtain ⟨absorber, hring, rfl⟩ := Option.map_eq_some_iff.mp hstep
  have hspec := SpikeAbsorber.producerStep_spec hring
  have hreleased : absorber.released = s.absorber.released := by
    simp [SpikeAbsorber.released, hspec.drained_eq, hspec.consumer_eq]
  rcases hspec.cases with ⟨hclaimed, -⟩ | ⟨blk, -, hclaimed, -⟩
  · rw [absorbing_same (some p) hclaimed]
    exact .same hclaimed rfl rfl rfl hreleased
  · rw [absorbing_some p hclaimed]
    refine .enter blk hclaimed ?_
    have hdrop : (s.origin ++ [s.absorber.claimed.length]).drop
        absorber.released = s.ringTickets ++ [s.absorber.claimed.length] := by
      rw [hreleased]
      exact drop_append_ticket hs _
    simp only [line, ringTickets] at hdrop ⊢
    rw [hdrop]
    exact (List.append_assoc ..).symm

theorem lineMove_drain (hs : s.Account) (hpc : s.pc = .draining)
    (hstep : s.drainStep = some t) : LineMove s t (.daemon .next) := by
  obtain ⟨absorber, hring, rfl⟩ := Option.map_eq_some_iff.mp hstep
  have hdaemon := hs.daemon
  rw [hpc] at hdaemon
  obtain ⟨-, hheld⟩ := hdaemon
  cases hc : s.absorber.consumer with
  | idle =>
      rw [hc] at hheld
      exact hheld.elim
  | release pos out =>
      -- the head of the ring becomes the held ticket
      rw [hc] at hheld
      have hticket : s.ticket = none := hheld
      obtain rfl := by
        simpa [SpikeAbsorber.step, SpikeAbsorber.consumerStep, hc] using hring
      obtain ⟨_, hlt⟩ := hs.released_claimed hc
      refine .stay rfl ?_
      have hreleased : s.absorber.released = s.absorber.drained.length := by
        simp [SpikeAbsorber.released, hc, DrainPc.taken]
      have hline : s.line = s.submitted.map Prod.fst ++
          s.origin[s.absorber.drained.length]?.toList ++
            s.origin.drop (s.absorber.drained.length + 1) := by
        simp only [line, ringTickets, hticket, hreleased, Option.toList_none,
          List.append_nil, List.append_assoc]
        rw [List.drop_eq_getElem_cons hlt, List.getElem?_eq_getElem hlt]
        rfl
      rw [hline]
      exact List.Sublist.refl _
  | peek pos =>
      obtain rfl := by
        simpa [SpikeAbsorber.step, SpikeAbsorber.consumerStep, hc] using hring
      have hreleased : ∀ u : SpikeAbsorber cap (Option ι),
          u.drained = s.absorber.drained → u.consumer.taken = 0 →
          u.released = s.absorber.released := by
        intro u hdrained htaken
        unfold SpikeAbsorber.released
        rw [hdrained, htaken, hc]
        rfl
      by_cases hempty : SpikeAbsorber.diff (s.absorber.slot pos).seq (pos + 1) = 0
      · simp only [hempty, if_true]
        exact .same rfl rfl rfl rfl (hreleased _ rfl rfl)
      · simp only [hempty, if_false]
        exact .same rfl rfl rfl rfl (hreleased _ rfl rfl)
  | load | copy pos | advance pos out | deliver out =>
      obtain rfl := by
        simpa [SpikeAbsorber.step, SpikeAbsorber.consumerStep, hc] using hring
      refine .same rfl rfl rfl rfl ?_
      simp [SpikeAbsorber.released, hc, DrainPc.taken]

theorem lineMove_reabsorb (hs : s.Account) {blk : KVBlock}
    (hpc : s.pc = .reabsorb blk) (hstep : s.reabsorbStep = some t) :
    LineMove s t (.daemon .next) := by
  obtain ⟨absorber, hring, rfl⟩ := Option.map_eq_some_iff.mp hstep
  have hspec := SpikeAbsorber.producerStep_spec hring
  have hdaemon := hs.daemon
  rw [hpc] at hdaemon
  obtain ⟨-, hheld⟩ := hdaemon
  have hreleased : absorber.released = s.absorber.released := by
    simp [SpikeAbsorber.released, hspec.drained_eq, hspec.consumer_eq]
  rcases hspec.cases with ⟨hclaimed, -⟩ | ⟨b, hclaim, hclaimed, -⟩
  · rw [absorbing_same none hclaimed]
    split
    · exact .same hclaimed rfl rfl rfl hreleased
    · exact .drop hclaimed rfl rfl rfl hreleased
    · exact .same hclaimed rfl rfl rfl hreleased
  · rw [hclaim] at hheld
    obtain ⟨rfl, k, hticket, hblk⟩ := hheld
    rw [absorbing_none hclaimed, hclaim]
    refine .putBack b k rfl hticket hblk hclaim hclaimed ?_
    have hdrop : (s.origin ++ [k]).drop absorber.released =
        s.ringTickets ++ [k] := by
      rw [hreleased]
      exact drop_append_ticket hs _
    simp only [line, ringTickets, hticket, Option.toList_some,
      Option.toList_none, List.append_nil] at hdrop ⊢
    rw [hdrop]
    exact (List.append_assoc ..).symm

theorem lineMove_daemon (hs : s.Account) {strictGate : Bool}
    {i : DaemonInput} (hstep : s.daemonStep strictGate i = some t) :
    LineMove s t (.daemon i) := by
  have hdaemon := hs.daemon
  unfold daemonStep at hstep
  split at hstep
  · split at hstep
    · obtain rfl := Option.some.inj hstep
      exact .same rfl rfl rfl rfl rfl
    · cases hstep
  · next hpc =>
      obtain ⟨absorber, hring, rfl⟩ := Option.map_eq_some_iff.mp hstep
      rw [hpc] at hdaemon
      obtain ⟨-, rfl⟩ := by simpa [SpikeAbsorber.step] using hring
      refine .same rfl rfl rfl rfl ?_
      simp [SpikeAbsorber.released, hdaemon.1, DrainPc.taken]
  · next hpc => exact lineMove_drain hs hpc hstep
  · split at hstep
    · obtain ⟨absorber, hring, rfl⟩ := Option.map_eq_some_iff.mp hstep
      obtain ⟨-, rfl⟩ := by simpa [SpikeAbsorber.step] using hring
      exact .same rfl rfl rfl rfl rfl
    · obtain rfl := Option.some.inj hstep
      exact .same rfl rfl rfl rfl rfl
  · next hpc => exact lineMove_reabsorb hs hpc hstep
  · obtain ⟨absorber, hring, rfl⟩ := Option.map_eq_some_iff.mp hstep
    cases hclaim : s.absorber.producer none with
    | claim b pos =>
        obtain rfl := by simpa [SpikeAbsorber.step, hclaim] using hring
        exact .same rfl rfl rfl rfl rfl
    | _ => simp [SpikeAbsorber.step, hclaim] at hring
  · obtain rfl := Option.some.inj hstep
    exact .same rfl rfl rfl rfl rfl
  · obtain rfl := Option.some.inj hstep
    exact .same rfl rfl rfl rfl rfl
  · obtain rfl := Option.some.inj hstep
    exact .drop rfl rfl rfl rfl rfl
  · -- the held ticket joins those that have left
    obtain rfl := Option.some.inj hstep
    refine .stay rfl ?_
    have htickets : ∀ blk, (s.ticket.toList.map (·, prepWrite blk)).map
        Prod.fst = s.ticket.toList := by
      intro blk
      rw [List.map_map]
      exact List.map_id _
    simp only [line, ringTickets, List.map_append, htickets,
      Option.toList_none, List.append_nil]
    exact List.Sublist.refl _
  · cases hstep

theorem lineMove_step (hs : s.Account) {strictGate : Bool}
    (hstep : s.step strictGate e = some t) : LineMove s t e := by
  cases e with
  | absorb p blk =>
      obtain ⟨pc, -, -, rfl⟩ := restarts_absorb hstep
      exact .same rfl rfl rfl rfl rfl
  | producer p => exact lineMove_producer hs hstep
  | spurious p =>
      obtain ⟨pc, -, -, rfl⟩ := restarts_spurious hstep
      exact .same rfl rfl rfl rfl rfl
  | daemon i => exact lineMove_daemon hs hstep

/-! ### Versions of one block -/

omit [DecidableEq ι] in
/-- A placed ticket has been issued. -/
theorem entered_of_placed (hs : s.Account) {k : Nat} (hk : 0 < s.placed k) :
    k ∈ s.entered := by
  rw [hs.balance k] at hk
  exact List.count_pos_iff.mp hk

omit [DecidableEq ι] in
theorem lt_of_mem_line (hs : s.Account) {k : Nat} (hk : k ∈ s.line) :
    k < s.absorber.claimed.length := by
  refine hs.entered_lt k (entered_of_placed hs ?_)
  have hcount := List.count_pos_iff.mpr hk
  simp only [line, List.count_append] at hcount
  unfold placed
  omega

/-- If the tickets are of versions of one block, `j` is the earlier one. -/
def Earlier (claimed : List KVBlock) (j k : Nat) : Prop :=
  ∀ b ∈ claimed[j]?, ∀ c ∈ claimed[k]?, b.blockId = c.blockId → j < k

theorem Earlier.append {claimed : List KVBlock} {j k : Nat}
    (h : Earlier claimed j k) (hj : j < claimed.length)
    (hk : k < claimed.length) (blk : KVBlock) :
    Earlier (claimed ++ [blk]) j k := by
  unfold Earlier
  rw [List.getElem?_append_left hj, List.getElem?_append_left hk]
  exact h

/-- The versions of each block stand in the line in their order. -/
def Versioned (s : PacingDaemon cap ι) : Prop :=
  s.line.Pairwise (Earlier s.absorber.claimed)

/-- The condition on a step: the daemon puts no block back behind another block
with its identifier. -/
def Unpassed (s : PacingDaemon cap ι) : Event ι → Prop
  | .daemon .next =>
      match s.absorber.producer none with
      | .claim blk pos => pos = s.absorber.enqueuePos → ∀ k ∈ s.ringTickets,
          ∀ b ∈ s.absorber.claimed[k]?, b.blockId ≠ blk.blockId
      | _ => True
  | _ => True

omit [DecidableEq ι] in
theorem versioned_init {found : Fin cap.size → KVBlock} :
    Versioned (init found : PacingDaemon cap ι) := List.Pairwise.nil

theorem Versioned.step (h : s.Versioned) (hs : s.Account) {strictGate : Bool}
    (hcond : s.Unpassed e) (hstep : s.step strictGate e = some t) :
    t.Versioned := by
  have hold : ∀ blk, s.line.Pairwise
      (Earlier (s.absorber.claimed ++ [blk])) := by
    intro blk
    refine h.imp_of_mem fun hj hk hjk => ?_
    exact hjk.append (lt_of_mem_line hs hj) (lt_of_mem_line hs hk) blk
  unfold Versioned
  cases lineMove_step hs hstep with
  | stay hclaimed hline =>
      rw [hclaimed]
      exact h.sublist hline
  | enter blk hclaimed hline =>
      rw [hclaimed, hline]
      refine List.pairwise_append.mpr ⟨hold blk, List.pairwise_singleton _ _, ?_⟩
      intro j hj k hk b _ c _ _
      rw [List.mem_singleton.mp hk]
      exact lt_of_mem_line hs hj
  | putBack blk k he hticket hblk hclaim hclaimed hline =>
      subst he
      have hpassed : ∀ j ∈ s.ringTickets, ∀ b ∈ s.absorber.claimed[j]?,
          b.blockId ≠ blk.blockId := by
        have hunpassed := hcond
        unfold Unpassed at hunpassed
        dsimp only at hunpassed
        rw [hclaim] at hunpassed
        exact hunpassed rfl
      have hsplit : s.line =
          s.submitted.map Prod.fst ++ ([k] ++ s.ringTickets) := by
        simp [line, hticket]
      have hpairs := hold blk
      rw [hsplit] at hpairs
      obtain ⟨hleft, hright, hcross⟩ := List.pairwise_append.mp hpairs
      have hk : k < s.absorber.claimed.length :=
        (List.getElem?_eq_some_iff.mp hblk).1
      rw [hclaimed, hline]
      refine List.pairwise_append.mpr ⟨?_, List.pairwise_singleton _ _, ?_⟩
      · refine hpairs.sublist (List.Sublist.append (List.Sublist.refl _) ?_)
        exact List.sublist_append_right _ _
      · intro j hj i hi
        rw [List.mem_singleton.mp hi]
        rcases List.mem_append.mp hj with hj | hj
        · exact hcross j hj k (List.mem_cons_self)
        · -- no version of the block is in the ring
          intro b hb c hc hid
          have hjlt : j < s.absorber.claimed.length := by
            refine lt_of_mem_line hs ?_
            rw [hsplit]
            exact List.mem_append_right _ (List.mem_cons_of_mem _ hj)
          rw [List.getElem?_append_left hjlt] at hb
          rw [List.getElem?_append_left hk, hblk] at hc
          obtain rfl := Option.some.inj hc
          exact absurd hid (hpassed j hj b hb)

omit [DecidableEq ι] in
/-- What has been submitted for one block is in the order of its versions. -/
theorem Versioned.submitted_pairwise (h : s.Versioned) (hs : s.Account) :
    s.submitted.Pairwise fun p q =>
      p.2.userData = q.2.userData → p.1 < q.1 := by
  have hsub : (s.submitted.map Prod.fst).Sublist s.line := by
    unfold line
    rw [List.append_assoc]
    exact List.sublist_append_left _ _
  refine (List.pairwise_map.mp (h.sublist hsub)).imp_of_mem ?_
  intro p q hp hq hpq hdata
  obtain ⟨b, hb, hbsqe⟩ := hs.submitted_ok p hp
  obtain ⟨c, hc, hcsqe⟩ := hs.submitted_ok q hq
  refine hpq b hb c hc ?_
  rw [hbsqe, hcsqe] at hdata
  exact hdata

/-- The line is in order in every state with fewer than `2 ^ 63` claims, of runs
that put no block back behind another version. -/
theorem versioned_of_run {found : Fin cap.size → KVBlock} {strictGate : Bool}
    {cond : PacingDaemon cap ι → Event ι → Prop}
    (hrun : Runs.Reach (step strictGate) cond (init found) s)
    (hbound : s.absorber.claimed.length < 2 ^ 63)
    (hcond : ∀ s e, cond s e → s.Unpassed e) : s.Account ∧ s.Versioned := by
  apply invariant_of_bounded hrun hbound
  · exact ⟨account_init found, versioned_init⟩
  · intro s e t hs he hclaims hstep
    exact ⟨hs.1.step hclaims hstep, hs.2.step hs.1 (hcond s e he) hstep⟩

/-- **Rewrites of a block are submitted in order**, in runs in which the daemon
returns no block to a full ring and puts none back behind another version of
it: of two submissions for one block identifier the earlier one is of the
earlier ticket, and what has entered after the last one submitted is still in
the ring, held by the loop, or given up. -/
theorem rewrites_in_order {found : Fin cap.size → KVBlock} {strictGate : Bool}
    (hrun : Runs.Reach (step strictGate) (fun s e => s.Roomy e ∧ s.Unpassed e)
      (init found) s)
    (hbound : s.absorber.claimed.length < 2 ^ 63) :
    (s.submitted.Pairwise fun p q =>
      p.2.userData = q.2.userData → p.1 < q.1) ∧
    ∀ before after p, s.submitted = before ++ p :: after →
      (∀ q ∈ after, q.2.userData ≠ p.2.userData) →
      ∀ k ∈ s.entered, p.1 < k → ∀ blk ∈ s.absorber.claimed[k]?,
        blk.blockId = p.2.userData →
        k ∈ s.ringTickets ∨ s.ticket = some k ∨ k ∈ s.givenUp := by
  have hun : s.Unrefused :=
    hrun.invariant unrefused_init fun _ _ _ h hcond => h.step hcond.1
  obtain ⟨hs, hversions⟩ := versioned_of_run hrun hbound fun _ _ h => h.2
  have horder := hversions.submitted_pairwise hs
  refine ⟨horder, ?_⟩
  intro before after p hsubmitted hlast k hk hpk blk hblk hid
  have hplaced : 0 < s.placed k := by
    rw [hs.balance k]
    exact List.count_pos_iff.mpr hk
  by_cases hout : k ∈ s.submitted.map Prod.fst
  · obtain ⟨q, hq, rfl⟩ := List.mem_map.mp hout
    obtain ⟨b, hb, hsqe⟩ := hs.submitted_ok q hq
    obtain rfl := Option.some.inj (hb.symm.trans hblk)
    have hdata : q.2.userData = p.2.userData := by rw [← hid, hsqe]; rfl
    rw [hsubmitted] at hq horder
    obtain ⟨-, -, hcross⟩ := List.pairwise_append.mp horder
    rcases List.mem_append.mp hq with hq | hq
    · have hlt := hcross q hq p List.mem_cons_self hdata
      omega
    · rcases List.mem_cons.mp hq with rfl | hq
      · omega
      · exact absurd hdata (hlast q hq)
  · have hnone := List.count_eq_zero.mpr hout
    simp only [placed, hnone, hun.unplaced, List.count_nil] at hplaced
    by_cases hring : k ∈ s.ringTickets
    · exact .inl hring
    · rw [List.count_eq_zero.mpr hring] at hplaced
      by_cases hheld : k ∈ s.ticket.toList
      · exact .inr (.inl (Option.mem_toList.mp hheld))
      · rw [List.count_eq_zero.mpr hheld] at hplaced
        refine .inr (.inr (List.count_pos_iff.mp ?_))
        omega

/-- Two versions of block 1, in different buffers. -/
def versionOf (hostPtr : UInt64) : KVBlock :=
  { SpikeAbsorber.blockOf 1 with hostPtr }

/-- Both versions enter the ring, and the daemon drains the first. -/
def rewriteEvents : List (Event Unit) :=
  .absorb () (versionOf 1) :: List.replicate 6 (.producer ()) ++
    .absorb () (versionOf 2) :: List.replicate 6 (.producer ()) ++
    List.replicate 7 (.daemon .next)

/-- The next version is drained and submitted. -/
def submitEvents : List (Event Unit) :=
  List.replicate 7 (.daemon .next) ++
    [.daemon (.granted 4096), .daemon (.sqe true), .daemon .next]

/-- The bucket is empty at first: the first version goes back behind the second
and is submitted after it, with a ring that is never full. -/
theorem rewrites_out_of_order :
    ∃ s : PacingDaemon ⟨1, by decide, by decide⟩ Unit,
      Runs.Reach (step true) Roomy (init fun _ => SpikeAbsorber.blockOf 0) s ∧
      s.accepted = [(0, versionOf 1), (1, versionOf 2)] ∧
      s.submitted = [(1, prepWrite (versionOf 2)),
        (0, prepWrite (versionOf 1))] :=
  Runs.Reach.exists_of_exec
    (rewriteEvents ++ .daemon (.granted 0) :: List.replicate 6 (.daemon .next) ++
      submitEvents ++ submitEvents)
    (by decide +kernel) (by decide +kernel)

instance Unpassed.decidable (s : PacingDaemon cap ι) :
    ∀ e, Decidable (s.Unpassed e)
  | .daemon .next =>
      match h : s.absorber.producer none with
      | .claim blk pos =>
          decidable_of_iff (pos = s.absorber.enqueuePos → ∀ k ∈ s.ringTickets,
            ∀ b ∈ s.absorber.claimed[k]?, b.blockId ≠ blk.blockId)
            (by simp [Unpassed, h])
      | .idle | .load _ | .peek _ _ | .write _ _ | .publish _ _ | .accept _ _
      | .refuse _ => isTrue (by simp [Unpassed, h])
  | .daemon .attention | .daemon (.granted _) | .daemon (.sqe _)
  | .daemon .spurious | .absorb _ _ | .producer _ | .spurious _ =>
      isTrue trivial

/-- With tokens in the bucket the versions are submitted in their order. -/
theorem rewrites_in_order_two :
    ∃ s : PacingDaemon ⟨1, by decide, by decide⟩ Unit,
      Runs.Reach (step true) (fun s e => s.Roomy e ∧ s.Unpassed e)
        (init fun _ => SpikeAbsorber.blockOf 0) s ∧
      s.submitted.length = 2 ∧
      s.submitted.Pairwise fun p q =>
        p.2.userData = q.2.userData → p.1 < q.1 := by
  obtain ⟨s, hrun, hlength, hbound⟩ :
      ∃ s : PacingDaemon ⟨1, by decide, by decide⟩ Unit,
        Runs.Reach (step true) (fun s e => s.Roomy e ∧ s.Unpassed e)
          (init fun _ => SpikeAbsorber.blockOf 0) s ∧
        s.submitted.length = 2 ∧ s.absorber.claimed.length < 2 ^ 63 :=
    Runs.Reach.exists_of_exec
      (rewriteEvents ++ [.daemon (.granted 4096), .daemon (.sqe true),
        .daemon .next] ++ submitEvents)
      (by decide +kernel) (by decide +kernel)
  exact ⟨s, hrun, hlength, (rewrites_in_order hrun hbound).1⟩

end PacingDaemon

end Tempo
