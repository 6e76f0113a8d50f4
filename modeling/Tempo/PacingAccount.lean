import Tempo.PacingDaemon

/-!
# Where the accepted blocks are

The invariant counts, for every ticket, its places: the ring, the block held by
the loop iteration, the submissions, the blocks given up and the blocks
refused on their way back.  Every step moves a ticket from one place to
another or issues a new one, so the count of each ticket that entered stays
one.  Which place a step moves from is known from where the daemon stands
(`DaemonOk`).
-/

namespace Tempo

/-- The position won by the `absorb` in progress, and its block. -/
def AbsorbPc.won? : AbsorbPc → Option (Nat × KVBlock)
  | .write blk pos => some (pos.toNat, blk)
  | .publish blk pos => some (pos.toNat, blk)
  | .accept blk pos => some (pos.toNat, blk)
  | _ => none

/-- Only a won compare-and-swap wins a position. -/
theorem AbsorbPc.Next.won {pc pc' : AbsorbPc} (h : pc.Next pc')
    {r : Nat × KVBlock} (hr : pc'.won? = some r) : pc.won? = some r := by
  cases h <;> simp_all [AbsorbPc.won?]

namespace PacingDaemon

variable {cap : Capacity} {ι : Type*}

/-- How often ticket `k` is placed. -/
def placed (s : PacingDaemon cap ι) (k : Nat) : Nat :=
  s.ringTickets.count k + s.ticket.toList.count k +
    (s.submitted.map Prod.fst).count k + s.givenUp.count k +
    s.unplaced.count k

/-- The loop iteration holds the block `blk`. -/
def Holds (s : PacingDaemon cap ι) (blk : KVBlock) : Prop :=
  ∃ k, s.ticket = some k ∧ s.absorber.claimed[k]? = some blk

/-- What the iteration holds at each access of its `drain`. -/
def DrainHeld (s : PacingDaemon cap ι) : DrainPc → Prop
  | .idle => False
  | .load | .peek _ | .copy _ | .release _ _ => s.ticket = none
  | .advance _ out | .deliver out => s.Holds out

/-- What the iteration holds at each access of its `absorb`. -/
def AbsorbHeld (s : PacingDaemon cap ι) (blk : KVBlock) : AbsorbPc → Prop
  | .idle => False
  | .load b | .peek b _ | .claim b _ | .refuse b => b = blk ∧ s.Holds blk
  | .write _ _ | .publish _ _ | .accept _ _ => s.ticket = none

/-- What holds at each statement of the loop. -/
def DaemonOk (s : PacingDaemon cap ι) : DaemonPc → Prop
  | .gate => s.absorber.consumer = .idle ∧ s.absorber.producer none = .idle ∧
      s.ticket = none
  | .draining => s.absorber.producer none = .idle ∧
      s.DrainHeld s.absorber.consumer
  | .consume blk | .getSqe blk | .retrySqe blk | .submit blk =>
      s.absorber.consumer = .idle ∧ s.absorber.producer none = .idle ∧
        s.Holds blk
  | .reabsorb blk => s.absorber.consumer = .idle ∧
      s.AbsorbHeld blk (s.absorber.producer none)

/-- The ticket has been issued, for this block. -/
def Entered (s : PacingDaemon cap ι) (r : Nat × KVBlock) : Prop :=
  r.1 ∈ s.entered ∧ s.absorber.claimed[r.1]? = some r.2

/-- The invariant. -/
structure Account (s : PacingDaemon cap ι) : Prop where
  ring : s.absorber.Inv
  origin_length : s.origin.length = s.absorber.claimed.length
  origin_block : ∀ q k : Nat, s.origin[q]? = some k →
    s.absorber.claimed[k]? = s.absorber.claimed[q]?
  entered_lt : ∀ k ∈ s.entered, k < s.absorber.claimed.length
  entered_nodup : s.entered.Nodup
  balance : ∀ k, s.placed k = s.entered.count k
  submitted_ok : ∀ p ∈ s.submitted,
    ∃ blk, s.absorber.claimed[p.1]? = some blk ∧ p.2 = prepWrite blk
  accepted_ok : ∀ r ∈ s.accepted, s.Entered r
  claiming : ∀ p r, (s.absorber.producer (some p)).won? = some r →
    s.Entered r
  daemon : s.DaemonOk s.pc

theorem account_init (found : Fin cap.size → KVBlock) :
    Account (init found : PacingDaemon cap ι) where
  ring := SpikeAbsorber.inv_init found
  origin_length := rfl
  origin_block := by simp [init]
  entered_lt := by simp [init]
  entered_nodup := List.nodup_nil
  balance := by simp [placed, init, ringTickets]
  submitted_ok := by simp [init]
  accepted_ok := by simp [init]
  claiming := by simp [init, SpikeAbsorber.init, AbsorbPc.won?]
  daemon := ⟨rfl, rfl, rfl⟩

section Steps

variable {s t : PacingDaemon cap ι}

/-- What the daemon relies on, carried to a state with more claims. -/
theorem DaemonOk.congr {pc : DaemonPc} (h : s.DaemonOk pc)
    (hconsumer : t.absorber.consumer = s.absorber.consumer)
    (hproducer : t.absorber.producer none = s.absorber.producer none)
    (hticket : t.ticket = s.ticket)
    (hclaimed : s.absorber.claimed <+: t.absorber.claimed) :
    t.DaemonOk pc := by
  have hholds : ∀ blk, s.Holds blk → t.Holds blk := by
    intro blk ⟨k, hk, hblk⟩
    exact ⟨k, by rw [hticket, hk], FifoLog.getElem?_of_prefix hclaimed hblk⟩
  have hdrain : ∀ pc, s.DrainHeld pc → t.DrainHeld pc := by
    intro pc h
    cases pc <;> simp_all [DrainHeld]
  have habsorb : ∀ blk pc, s.AbsorbHeld blk pc → t.AbsorbHeld blk pc := by
    intro blk pc h
    cases pc <;> simp_all [AbsorbHeld]
  cases pc <;> simp_all [DaemonOk]

/-- A step without a claim: the tickets keep their number of places. -/
theorem Account.move (hs : s.Account) (hring : t.absorber.Inv)
    (hclaimed : t.absorber.claimed = s.absorber.claimed)
    (horigin : t.origin = s.origin) (hentered : t.entered = s.entered)
    (hbalance : ∀ k, t.placed k = s.placed k)
    (hsubmitted : ∀ p ∈ t.submitted, ∃ blk,
      s.absorber.claimed[p.1]? = some blk ∧ p.2 = prepWrite blk)
    (haccepted : ∀ r ∈ t.accepted, s.Entered r)
    (hclaiming : ∀ p r, (t.absorber.producer (some p)).won? = some r →
      s.Entered r)
    (hdaemon : t.DaemonOk t.pc) : t.Account := by
  have hsame : ∀ r, s.Entered r → t.Entered r := by
    intro r h
    unfold Entered
    rw [hentered, hclaimed]
    exact h
  exact
    { ring := hring
      origin_length := by rw [horigin, hclaimed]; exact hs.origin_length
      origin_block := by rw [horigin, hclaimed]; exact hs.origin_block
      entered_lt := by rw [hentered, hclaimed]; exact hs.entered_lt
      entered_nodup := by rw [hentered]; exact hs.entered_nodup
      balance := fun k => by rw [hbalance, hentered]; exact hs.balance k
      submitted_ok := by rw [hclaimed]; exact hsubmitted
      accepted_ok := fun r h => hsame r (haccepted r h)
      claiming := fun p r h => hsame r (hclaiming p r h)
      daemon := hdaemon }

/-- A step that only moves a producer, without a claim. -/
theorem Account.ringMove (hs : s.Account)
    {absorber : SpikeAbsorber cap (Option ι)} (hring : absorber.Inv)
    (hclaimed : absorber.claimed = s.absorber.claimed)
    (hdrained : absorber.drained = s.absorber.drained)
    (hconsumer : absorber.consumer = s.absorber.consumer)
    (hproducer : absorber.producer none = s.absorber.producer none)
    {accepted : List (Nat × KVBlock)}
    (haccepted : ∀ r ∈ accepted, s.Entered r)
    (hclaiming : ∀ p r, (absorber.producer (some p)).won? = some r →
      s.Entered r) :
    Account { s with absorber, accepted } := by
  have hreleased : absorber.released = s.absorber.released := by
    simp [SpikeAbsorber.released, hdrained, hconsumer]
  refine hs.move hring hclaimed rfl rfl ?_ hs.submitted_ok haccepted hclaiming
    ?_
  · intro k
    simp [placed, ringTickets, hreleased]
  · refine hs.daemon.congr hconsumer hproducer rfl ?_
    show s.absorber.claimed <+: absorber.claimed
    rw [hclaimed]

/-- The ring part of a list of tickets, with one more claim. -/
theorem drop_append_ticket {s : PacingDaemon cap ι} (hs : s.Account) (k : Nat) :
    (s.origin ++ [k]).drop s.absorber.released = s.ringTickets ++ [k] := by
  have hle := hs.ring.released_le
  rw [List.drop_append_of_le_length (by rw [hs.origin_length]; exact hle)]
  rfl

/-- A step with a claim, of the block of ticket `k`. -/
theorem Account.grow (hs : s.Account) {blk : KVBlock} {k : Nat}
    (hring : t.absorber.Inv)
    (hclaimed : t.absorber.claimed = s.absorber.claimed ++ [blk])
    (horigin : t.origin = s.origin ++ [k])
    (hk : t.absorber.claimed[k]? = some blk)
    (hsubmitted : t.submitted = s.submitted)
    (haccepted : t.accepted = s.accepted)
    (hentered : ∀ j ∈ s.entered, j ∈ t.entered)
    (hlt : ∀ j ∈ t.entered, j < t.absorber.claimed.length)
    (hnodup : t.entered.Nodup)
    (hbalance : ∀ j, t.placed j = t.entered.count j)
    (hclaiming : ∀ p r, (t.absorber.producer (some p)).won? = some r →
      s.Entered r ∨ t.Entered r)
    (hdaemon : t.DaemonOk t.pc) : t.Account := by
  have hbegins : s.absorber.claimed <+: t.absorber.claimed := by
    rw [hclaimed]
    exact List.prefix_append _ _
  have hkeep : ∀ r, s.Entered r → t.Entered r := by
    intro r h
    exact ⟨hentered _ h.1, FifoLog.getElem?_of_prefix hbegins h.2⟩
  exact
    { ring := hring
      origin_length := by
        simp [horigin, hclaimed, hs.origin_length]
      origin_block := by
        intro q j hj
        rw [horigin] at hj
        by_cases hq : q < s.origin.length
        · rw [List.getElem?_append_left hq] at hj
          have hblk := hs.origin_block q j hj
          rw [hs.origin_length] at hq
          obtain ⟨b, hb⟩ : ∃ b, s.absorber.claimed[q]? = some b :=
            ⟨_, List.getElem?_eq_getElem hq⟩
          rw [FifoLog.getElem?_of_prefix hbegins hb,
            FifoLog.getElem?_of_prefix hbegins (hblk.trans hb)]
        · -- the new position holds the block of its ticket
          have hlt := (List.getElem?_eq_some_iff.mp hj).1
          rw [List.length_append] at hlt
          have hlt' : q < s.origin.length + 1 := hlt
          obtain rfl : q = s.origin.length := by omega
          obtain rfl : k = j := by simpa using hj
          rw [hk, hs.origin_length, hclaimed]
          simp
      entered_lt := hlt
      entered_nodup := hnodup
      balance := hbalance
      submitted_ok := by
        rw [hsubmitted]
        intro r hr
        obtain ⟨b, hb, hsqe⟩ := hs.submitted_ok r hr
        exact ⟨b, FifoLog.getElem?_of_prefix hbegins hb, hsqe⟩
      accepted_ok := by
        rw [haccepted]
        exact fun r hr => hkeep r (hs.accepted_ok r hr)
      claiming := fun p r hr => (hclaiming p r hr).elim (hkeep r) id
      daemon := hdaemon }

/-- A producer's won claim issues a new ticket. -/
theorem Account.enter (hs : s.Account) {p : ι} {blk : KVBlock}
    {absorber : SpikeAbsorber cap (Option ι)} (hring : absorber.Inv)
    (hclaimed : absorber.claimed = s.absorber.claimed ++ [blk])
    (hdrained : absorber.drained = s.absorber.drained)
    (hconsumer : absorber.consumer = s.absorber.consumer)
    (hothers : ∀ j, j ≠ some p →
      absorber.producer j = s.absorber.producer j)
    (hwon : absorber.producer (some p) = .write blk s.absorber.enqueuePos) :
    Account { s with
      absorber
      origin := s.origin ++ [s.absorber.claimed.length]
      entered := s.entered ++ [s.absorber.claimed.length] } := by
  have hreleased : absorber.released = s.absorber.released := by
    simp [SpikeAbsorber.released, hdrained, hconsumer]
  have hlast : absorber.claimed[s.absorber.claimed.length]? = some blk := by
    simp [hclaimed]
  have hlength : absorber.claimed.length = s.absorber.claimed.length + 1 := by
    simp [hclaimed]
  refine hs.grow hring hclaimed rfl hlast rfl rfl ?_ ?_ ?_ ?_ ?_ ?_
  · exact fun j hj => List.mem_append_left _ hj
  · intro j hj
    show j < absorber.claimed.length
    rcases List.mem_append.mp hj with hj | hj
    · have := hs.entered_lt j hj
      omega
    · have := List.mem_singleton.mp hj
      omega
  · refine List.nodup_append.mpr ⟨hs.entered_nodup, by simp, ?_⟩
    intro a ha b hb hab
    have := hs.entered_lt a ha
    have := List.mem_singleton.mp hb
    omega
  · intro j
    have hbal := hs.balance j
    have hdrop : (s.origin ++ [s.absorber.claimed.length]).drop
        absorber.released = s.ringTickets ++ [s.absorber.claimed.length] := by
      rw [hreleased]
      exact drop_append_ticket hs _
    simp only [placed, ringTickets] at hbal ⊢
    rw [hdrop]
    simp only [ringTickets, List.count_append]
    omega
  · intro p' r hr
    have hr' : (absorber.producer (some p')).won? = some r := hr
    by_cases hp : p' = p
    · subst hp
      rw [hwon] at hr'
      obtain rfl := Option.some.inj hr'
      right
      constructor
      · simp [hs.ring.enqueue]
      · simpa [hs.ring.enqueue] using hlast
    · have hne : some p' ≠ some p := fun h => hp (Option.some.inj h)
      rw [hothers _ hne] at hr'
      exact .inl (hs.claiming p' r hr')
  · refine hs.daemon.congr hconsumer (hothers _ (by simp)) rfl ?_
    show s.absorber.claimed <+: absorber.claimed
    rw [hclaimed]
    exact List.prefix_append _ _

/-- The daemon's won claim puts its ticket back in the ring. -/
theorem Account.reenter (hs : s.Account) {blk : KVBlock} {k : Nat}
    {absorber : SpikeAbsorber cap (Option ι)} (hring : absorber.Inv)
    (hclaimed : absorber.claimed = s.absorber.claimed ++ [blk])
    (hdrained : absorber.drained = s.absorber.drained)
    (hconsumer : absorber.consumer = s.absorber.consumer)
    (hothers : ∀ j, j ≠ none → absorber.producer j = s.absorber.producer j)
    (hwon : absorber.producer none = .write blk s.absorber.enqueuePos)
    (hpc : s.pc = .reabsorb blk) (hidle : s.absorber.consumer = .idle)
    (hticket : s.ticket = some k)
    (hblk : s.absorber.claimed[k]? = some blk) :
    Account { s with
      absorber
      origin := s.origin ++ s.ticket.toList
      ticket := none } := by
  have hreleased : absorber.released = s.absorber.released := by
    simp [SpikeAbsorber.released, hdrained, hconsumer]
  have hbegins : s.absorber.claimed <+: absorber.claimed := by
    rw [hclaimed]
    exact List.prefix_append _ _
  refine hs.grow hring hclaimed (by simp [hticket])
    (FifoLog.getElem?_of_prefix hbegins hblk) rfl rfl (fun j hj => hj) ?_
    hs.entered_nodup ?_ ?_ ?_
  · intro j hj
    have hlt := hs.entered_lt j hj
    have hle := hbegins.length_le
    show j < absorber.claimed.length
    omega
  · intro j
    have hbal := hs.balance j
    have hdrop : (s.origin ++ [k]).drop absorber.released =
        s.ringTickets ++ [k] := by
      rw [hreleased]
      exact drop_append_ticket hs _
    simp only [placed, ringTickets, hticket, Option.toList_some,
      Option.toList_none] at hbal ⊢
    rw [hdrop]
    simp only [ringTickets, List.count_append, List.count_nil]
    omega
  · intro p r hr
    have hr' : (absorber.producer (some p)).won? = some r := hr
    rw [hothers _ (by simp)] at hr'
    exact .inl (hs.claiming p r hr')
  · show DaemonOk _ s.pc
    rw [hpc]
    refine ⟨hconsumer.trans hidle, ?_⟩
    show AbsorbHeld _ blk (absorber.producer none)
    rw [hwon]
    rfl

/-! ### The producers -/

theorem won_of_mem_accepting {pc : AbsorbPc} {r : Nat × KVBlock}
    (h : r ∈ pc.accepting) : pc.won? = some r := by
  cases pc <;> simp_all [AbsorbPc.accepting, AbsorbPc.won?]

variable [DecidableEq ι]

/-- One access of a producer. -/
theorem Account.producer (hs : s.Account) {strictGate : Bool} {p : ι}
    (hbound : s.absorber.claimed.length < 2 ^ 63)
    (hstep : s.step strictGate (.producer p) = some t) : t.Account := by
  obtain ⟨absorber, hring, rfl⟩ := Option.map_eq_some_iff.mp hstep
  have hspec := SpikeAbsorber.producerStep_spec hring
  have hinv := hs.ring.step hbound hring
  rcases hspec.cases with ⟨hclaimed, hnext⟩ | ⟨blk, hpc, hclaimed, hwon⟩
  · rw [absorbing_same (some p) hclaimed]
    refine hs.ringMove hinv hclaimed hspec.drained_eq hspec.consumer_eq
      (hspec.others _ (by simp)) ?_ ?_
    · intro r hr
      rcases List.mem_append.mp hr with hr | hr
      · exact hs.accepted_ok r hr
      · exact hs.claiming p r (won_of_mem_accepting hr)
    · intro p' r hr
      by_cases hp : p' = p
      · subst hp
        exact hs.claiming p' r (hnext.won hr)
      · have hne : some p' ≠ some p := fun h => hp (Option.some.inj h)
        rw [hspec.others _ hne] at hr
        exact hs.claiming p' r hr
  · rw [absorbing_some p hclaimed, hpc]
    have henter := hs.enter hinv hclaimed hspec.drained_eq hspec.consumer_eq
      hspec.others hwon
    simpa [AbsorbPc.accepting] using henter

/-- What happens when a producer starts an `absorb` or loses a compare-and-swap. -/
structure Restarts (s t : PacingDaemon cap ι) (p : ι) (pc : AbsorbPc) : Prop where
  won : pc.won? = none
  ring : ∃ e, s.absorber.step e = some (s.absorber.setProducer (some p) pc)
  eq : t = { s with absorber := s.absorber.setProducer (some p) pc }

theorem restarts_absorb {strictGate : Bool} {p : ι} {blk : KVBlock}
    (hstep : s.step strictGate (.absorb p blk) = some t) :
    ∃ pc, s.Restarts t p pc := by
  obtain ⟨absorber, hring, rfl⟩ := Option.map_eq_some_iff.mp hstep
  have hmove := hring
  obtain ⟨-, rfl⟩ := by simpa [SpikeAbsorber.step] using hmove
  exact ⟨_, rfl, ⟨_, hring⟩, rfl⟩

theorem restarts_spurious {strictGate : Bool} {p : ι}
    (hstep : s.step strictGate (.spurious p) = some t) :
    ∃ pc, s.Restarts t p pc := by
  obtain ⟨absorber, hring, rfl⟩ := Option.map_eq_some_iff.mp hstep
  have hmove := hring
  cases hclaim : s.absorber.producer (some p) with
  | claim b pos =>
      obtain rfl := by simpa [SpikeAbsorber.step, hclaim] using hmove
      exact ⟨_, rfl, ⟨_, hring⟩, rfl⟩
  | _ => simp [SpikeAbsorber.step, hclaim] at hmove

/-- A producer starts an `absorb` or loses a compare-and-swap. -/
theorem Account.setProducer (hs : s.Account) {p : ι} {pc : AbsorbPc}
    (hinv : (s.absorber.setProducer (some p) pc).Inv)
    (hwon : pc.won? = none) :
    Account { s with absorber := s.absorber.setProducer (some p) pc } := by
  refine hs.ringMove hinv rfl rfl rfl ?_ hs.accepted_ok ?_
  · simp [SpikeAbsorber.setProducer]
  · intro p' r hr
    rw [SpikeAbsorber.producer_setProducer] at hr
    by_cases hp : some p' = some p
    · simp [hp, hwon] at hr
    · rw [if_neg hp] at hr
      exact hs.claiming p' r hr

/-! ### The daemon -/

omit [DecidableEq ι] in
/-- The loop moves and keeps the block it holds. -/
theorem Account.advance (hs : s.Account) {pc : DaemonPc}
    (hdaemon : s.DaemonOk pc) : Account { s with pc } := by
  refine hs.move hs.ring rfl rfl rfl (fun _ => rfl) hs.submitted_ok
    hs.accepted_ok hs.claiming ?_
  exact DaemonOk.congr hdaemon rfl rfl rfl (List.prefix_refl _)

omit [DecidableEq ι] in
/-- A step of the daemon in the ring that claims and releases nothing. -/
theorem Account.ownMove (hs : s.Account)
    {absorber : SpikeAbsorber cap (Option ι)} (pc : DaemonPc)
    (hring : absorber.Inv)
    (hclaimed : absorber.claimed = s.absorber.claimed)
    (hreleased : absorber.released = s.absorber.released)
    (hothers : ∀ j, j ≠ none → absorber.producer j = s.absorber.producer j)
    (hdaemon : DaemonOk { s with absorber, pc } pc) :
    Account { s with absorber, pc } := by
  refine hs.move hring hclaimed rfl rfl ?_ hs.submitted_ok hs.accepted_ok ?_
    hdaemon
  · intro k
    simp [placed, ringTickets, hreleased]
  · intro p r hr
    have hr' : (absorber.producer (some p)).won? = some r := hr
    rw [hothers _ (by simp)] at hr'
    exact hs.claiming p r hr'

/-- The daemon's own `absorb` moves to `pc`, having won no position. -/
theorem Account.ownAbsorb (hs : s.Account) {blk : KVBlock} {pc : AbsorbPc}
    (hring : (s.absorber.setProducer none pc).Inv)
    (hidle : s.absorber.consumer = .idle) (hheld : s.AbsorbHeld blk pc) :
    Account { s with
      absorber := s.absorber.setProducer none pc
      pc := .reabsorb blk } := by
  refine hs.ownMove (.reabsorb blk) hring rfl rfl ?_ ⟨hidle, ?_⟩
  · intro j hj
    rw [SpikeAbsorber.producer_setProducer, if_neg hj]
  · show AbsorbHeld _ blk ((s.absorber.setProducer none pc).producer none)
    rw [SpikeAbsorber.setProducer_self]
    cases pc <;> exact hheld

omit [DecidableEq ι] in
/-- The block whose slot is released is that of the oldest position, which has a
ticket. -/
theorem Account.released_claimed (hs : s.Account) {pos : UInt64} {out : KVBlock}
    (hc : s.absorber.consumer = .release pos out) :
    s.absorber.claimed[s.absorber.drained.length]? = some out ∧
      s.absorber.drained.length < s.origin.length := by
  have hdrain := hs.ring.consumer
  rw [hc] at hdrain
  obtain ⟨-, -, -, hout⟩ := hdrain
  rw [hs.origin_length]
  exact ⟨hout, (List.getElem?_eq_some_iff.mp hout).1⟩

omit [DecidableEq ι] in
/-- Releasing the slot of the oldest position makes its block the loop's. -/
theorem Account.take (hs : s.Account)
    {absorber : SpikeAbsorber cap (Option ι)} {pos : UInt64} {out : KVBlock}
    (hring : absorber.Inv) (hpc : s.pc = .draining)
    (hc : s.absorber.consumer = .release pos out)
    (habsorber : absorber = { s.absorber with
      ring := absorber.ring
      consumer := .advance pos out }) :
    Account { s with
      absorber
      ticket := s.origin[s.absorber.drained.length]? } := by
  have hdaemon := hs.daemon
  rw [hpc] at hdaemon
  obtain ⟨hproducer, hheld⟩ := hdaemon
  rw [hc] at hheld
  have hticket : s.ticket = none := hheld
  obtain ⟨hout, hlt⟩ := hs.released_claimed hc
  obtain ⟨k, hk⟩ : ∃ k, s.origin[s.absorber.drained.length]? = some k :=
    ⟨_, List.getElem?_eq_getElem hlt⟩
  have hblk : s.absorber.claimed[k]? = some out := by
    rw [hs.origin_block _ k hk, hout]
  have hreleased : s.absorber.released = s.absorber.drained.length := by
    simp [SpikeAbsorber.released, hc, DrainPc.taken]
  have hreleased' : absorber.released = s.absorber.drained.length + 1 := by
    rw [habsorber]
    rfl
  have hclaimed : absorber.claimed = s.absorber.claimed := by rw [habsorber]
  have hproducer' : absorber.producer = s.absorber.producer := by
    rw [habsorber]
  have hconsumer' : absorber.consumer = .advance pos out := by
    rw [habsorber]
  refine hs.move hring hclaimed rfl rfl ?_ hs.submitted_ok hs.accepted_ok ?_
    ?_
  · intro j
    have hdrop : s.origin.drop s.absorber.drained.length =
        k :: s.origin.drop (s.absorber.drained.length + 1) := by
      rw [List.drop_eq_getElem_cons hlt]
      obtain ⟨_, hget⟩ := List.getElem?_eq_some_iff.mp hk
      rw [hget]
    simp only [placed, ringTickets, hreleased, hreleased', hk, hticket, hdrop,
      Option.toList_some, Option.toList_none, List.count_cons, List.count_nil]
    omega
  · intro p r hr
    have hr' : (absorber.producer (some p)).won? = some r := hr
    rw [hproducer'] at hr'
    exact hs.claiming p r hr'
  · show DaemonOk _ s.pc
    rw [hpc]
    refine ⟨by rw [hproducer']; exact hproducer, ?_⟩
    show DrainHeld _ absorber.consumer
    rw [hconsumer']
    refine ⟨k, hk, ?_⟩
    show absorber.claimed[k]? = some out
    rw [hclaimed, hblk]

/-- One access of the daemon's `drain`. -/
theorem Account.drain (hs : s.Account)
    (hbound : s.absorber.claimed.length < 2 ^ 63) (hpc : s.pc = .draining)
    (hstep : s.drainStep = some t) : t.Account := by
  obtain ⟨absorber, hring, rfl⟩ := Option.map_eq_some_iff.mp hstep
  have hinv := hs.ring.step hbound hring
  have hdaemon := hs.daemon
  rw [hpc] at hdaemon
  obtain ⟨hproducer, hheld⟩ := hdaemon
  cases hc : s.absorber.consumer with
  | idle =>
      rw [hc] at hheld
      exact hheld.elim
  | load =>
      rw [hc] at hheld
      obtain rfl := by
        simpa [SpikeAbsorber.step, SpikeAbsorber.consumerStep, hc] using hring
      exact hs.ownMove s.pc hinv rfl
        (by simp [SpikeAbsorber.released, hc, DrainPc.taken]) (fun _ _ => rfl)
        (by rw [hpc]; exact ⟨hproducer, hheld⟩)
  | peek pos =>
      rw [hc] at hheld
      obtain rfl := by
        simpa [SpikeAbsorber.step, SpikeAbsorber.consumerStep, hc] using hring
      by_cases hempty : SpikeAbsorber.diff (s.absorber.slot pos).seq (pos + 1) = 0
      · simp only [hempty, if_true] at hinv ⊢
        exact hs.ownMove s.pc hinv rfl
          (by simp [SpikeAbsorber.released, hc, DrainPc.taken])
          (fun _ _ => rfl) (by rw [hpc]; exact ⟨hproducer, hheld⟩)
      · simp only [hempty, if_false] at hinv ⊢
        exact hs.ownMove .gate hinv rfl
          (by simp [SpikeAbsorber.released, hc, DrainPc.taken])
          (fun _ _ => rfl) ⟨rfl, hproducer, hheld⟩
  | copy pos =>
      rw [hc] at hheld
      obtain rfl := by
        simpa [SpikeAbsorber.step, SpikeAbsorber.consumerStep, hc] using hring
      exact hs.ownMove s.pc hinv rfl
        (by simp [SpikeAbsorber.released, hc, DrainPc.taken]) (fun _ _ => rfl)
        (by rw [hpc]; exact ⟨hproducer, hheld⟩)
  | release pos out =>
      rw [hc] at hheld
      obtain rfl := by
        simpa [SpikeAbsorber.step, SpikeAbsorber.consumerStep, hc] using hring
      exact hs.take hinv hpc hc rfl
  | advance pos out =>
      rw [hc] at hheld
      obtain rfl := by
        simpa [SpikeAbsorber.step, SpikeAbsorber.consumerStep, hc] using hring
      exact hs.ownMove s.pc hinv rfl
        (by simp [SpikeAbsorber.released, hc, DrainPc.taken]) (fun _ _ => rfl)
        (by rw [hpc]; exact ⟨hproducer, hheld⟩)
  | deliver out =>
      rw [hc] at hheld
      obtain rfl := by
        simpa [SpikeAbsorber.step, SpikeAbsorber.consumerStep, hc] using hring
      exact hs.ownMove (.consume out) hinv rfl
        (by simp [SpikeAbsorber.released, hc, DrainPc.taken]) (fun _ _ => rfl)
        ⟨rfl, hproducer, hheld⟩

omit [DecidableEq ι] in
/-- The loop lets go of its block: the ticket moves to another place. -/
theorem Account.letGo (hs : s.Account) {absorber : SpikeAbsorber cap (Option ι)}
    (hring : absorber.Inv) (hclaimed : absorber.claimed = s.absorber.claimed)
    (hreleased : absorber.released = s.absorber.released)
    (hothers : ∀ j, j ≠ none → absorber.producer j = s.absorber.producer j)
    (hidle : absorber.consumer = .idle ∧ absorber.producer none = .idle)
    (habsorber : t.absorber = absorber) (hpc : t.pc = .gate)
    (horigin : t.origin = s.origin) (hentered : t.entered = s.entered)
    (haccepted : t.accepted = s.accepted) (hticket : t.ticket = none)
    (hbalance : ∀ k, (t.submitted.map Prod.fst).count k + t.givenUp.count k +
      t.unplaced.count k = s.ticket.toList.count k +
        (s.submitted.map Prod.fst).count k + s.givenUp.count k +
        s.unplaced.count k)
    (hsubmitted : ∀ p ∈ t.submitted, ∃ blk,
      s.absorber.claimed[p.1]? = some blk ∧ p.2 = prepWrite blk) :
    t.Account := by
  subst habsorber
  refine hs.move hring hclaimed horigin hentered ?_ hsubmitted ?_ ?_ ?_
  · intro k
    have hbal := hbalance k
    simp only [placed, ringTickets, hreleased, horigin, hticket,
      Option.toList_none, List.count_nil]
    omega
  · rw [haccepted]
    exact hs.accepted_ok
  · intro p r hr
    rw [hothers _ (by simp)] at hr
    exact hs.claiming p r hr
  · rw [hpc]
    exact ⟨hidle.1, hidle.2, hticket⟩

/-- One access of the daemon's `absorb`. -/
theorem Account.reabsorb (hs : s.Account) {blk : KVBlock}
    (hbound : s.absorber.claimed.length < 2 ^ 63) (hpc : s.pc = .reabsorb blk)
    (hstep : s.reabsorbStep = some t) : t.Account := by
  obtain ⟨absorber, hring, rfl⟩ := Option.map_eq_some_iff.mp hstep
  have hspec := SpikeAbsorber.producerStep_spec hring
  have hinv := hs.ring.step hbound hring
  have hdaemon := hs.daemon
  rw [hpc] at hdaemon
  obtain ⟨hidle, hheld⟩ := hdaemon
  have hreleased : absorber.released = s.absorber.released := by
    simp [SpikeAbsorber.released, hspec.drained_eq, hspec.consumer_eq]
  rcases hspec.cases with ⟨hclaimed, hnext⟩ | ⟨b, hclaim, hclaimed, hwon⟩
  · rw [absorbing_same none hclaimed]
    have hmove : ∀ pc', absorber.producer none = pc' →
        s.AbsorbHeld blk pc' → Account { s with absorber } := by
      intro pc' hpc' hheld'
      refine hs.ownMove s.pc hinv hclaimed hreleased hspec.others ?_
      rw [hpc]
      refine ⟨hspec.consumer_eq.trans hidle, ?_⟩
      show AbsorbHeld _ blk (absorber.producer none)
      rw [hpc']
      cases pc' <;> simp_all [AbsorbHeld, Holds]
    generalize hnow : s.absorber.producer none = pc at hnext hheld ⊢
    generalize hthen : absorber.producer none = pc' at hnext
    cases hnext with
    | load b pos | free b pos | full b pos | stale b pos | lost b pos pos' =>
        exact hmove _ hthen hheld
    | write b pos | publish b pos => exact hmove _ hthen hheld
    | accept b pos =>
        have hticket : s.ticket = none := hheld
        exact hs.letGo hinv hclaimed hreleased hspec.others
          ⟨hspec.consumer_eq.trans hidle, hthen⟩ rfl rfl rfl rfl rfl hticket
          (fun k => by simp [hticket]) hs.submitted_ok
    | refuse b =>
        -- the ring was full, and the result is ignored
        exact hs.letGo hinv hclaimed hreleased hspec.others
          ⟨hspec.consumer_eq.trans hidle, hthen⟩ rfl rfl rfl rfl rfl rfl
          (fun k => by simp only [List.count_append]; omega) hs.submitted_ok
  · rw [hclaim] at hheld
    obtain ⟨rfl, k, hticket, hblk⟩ := hheld
    rw [absorbing_none hclaimed, hclaim]
    exact hs.reenter hinv hclaimed hspec.drained_eq hspec.consumer_eq
      hspec.others hwon hpc hidle hticket hblk

/-- One statement of the daemon. -/
theorem Account.daemonStep (hs : s.Account) {strictGate : Bool}
    {i : DaemonInput} (hbound : s.absorber.claimed.length < 2 ^ 63)
    (hstep : s.daemonStep strictGate i = some t) : t.Account := by
  have hdaemon := hs.daemon
  cases hpc : s.pc with
  | gate =>
      rw [hpc] at hdaemon
      obtain ⟨hidle, hproducer, hticket⟩ := hdaemon
      cases i with
      | attention =>
          obtain ⟨-, rfl⟩ := by
            simpa [PacingDaemon.daemonStep, hpc] using hstep
          exact hs.move hs.ring rfl rfl rfl (fun _ => rfl) hs.submitted_ok
            hs.accepted_ok hs.claiming ⟨hidle, hproducer, hticket⟩
      | next =>
          simp only [PacingDaemon.daemonStep, hpc] at hstep
          obtain ⟨absorber, hring, rfl⟩ := Option.map_eq_some_iff.mp hstep
          have hinv := hs.ring.step hbound hring
          obtain ⟨-, rfl⟩ := by simpa [SpikeAbsorber.step] using hring
          exact hs.ownMove .draining hinv rfl
            (by simp [SpikeAbsorber.released, hidle, DrainPc.taken])
            (fun _ _ => rfl) ⟨hproducer, hticket⟩
      | _ => simp [PacingDaemon.daemonStep, hpc] at hstep
  | draining =>
      cases i with
      | next =>
          simp only [PacingDaemon.daemonStep, hpc] at hstep
          exact hs.drain hbound hpc hstep
      | _ => simp [PacingDaemon.daemonStep, hpc] at hstep
  | consume blk =>
      rw [hpc] at hdaemon
      obtain ⟨hidle, hproducer, hheld⟩ := hdaemon
      cases i with
      | granted bytes =>
          by_cases hzero : bytes = 0
          · simp only [PacingDaemon.daemonStep, hpc, hzero, if_true] at hstep
            obtain ⟨absorber, hring, rfl⟩ := Option.map_eq_some_iff.mp hstep
            have hinv := hs.ring.step hbound hring
            obtain ⟨-, rfl⟩ := by simpa [SpikeAbsorber.step] using hring
            exact hs.ownAbsorb hinv hidle ⟨rfl, hheld⟩
          · obtain rfl := by
              simpa [PacingDaemon.daemonStep, hpc, hzero] using hstep
            exact hs.advance ⟨hidle, hproducer, hheld⟩
      | _ => simp [PacingDaemon.daemonStep, hpc] at hstep
  | reabsorb blk =>
      rw [hpc] at hdaemon
      obtain ⟨hidle, hheld⟩ := hdaemon
      cases i with
      | next =>
          simp only [PacingDaemon.daemonStep, hpc] at hstep
          exact hs.reabsorb hbound hpc hstep
      | spurious =>
          simp only [PacingDaemon.daemonStep, hpc] at hstep
          obtain ⟨absorber, hring, rfl⟩ := Option.map_eq_some_iff.mp hstep
          have hinv := hs.ring.step hbound hring
          cases hclaim : s.absorber.producer none with
          | claim b pos =>
              rw [hclaim] at hheld
              obtain rfl := by
                simpa [SpikeAbsorber.step, hclaim] using hring
              apply hs.ownAbsorb hinv hidle
              exact hheld
          | _ => simp [SpikeAbsorber.step, hclaim] at hring
      | _ => simp [PacingDaemon.daemonStep, hpc] at hstep
  | getSqe blk =>
      rw [hpc] at hdaemon
      cases i with
      | sqe free =>
          obtain rfl := by simpa [PacingDaemon.daemonStep, hpc] using hstep
          cases free
          · exact hs.advance hdaemon
          · exact hs.advance hdaemon
      | _ => simp [PacingDaemon.daemonStep, hpc] at hstep
  | retrySqe blk =>
      rw [hpc] at hdaemon
      obtain ⟨hidle, hproducer, hheld⟩ := hdaemon
      cases i with
      | sqe free =>
          cases free with
          | true =>
              obtain rfl := by simpa [PacingDaemon.daemonStep, hpc] using hstep
              exact hs.advance ⟨hidle, hproducer, hheld⟩
          | false =>
              obtain rfl := by simpa [PacingDaemon.daemonStep, hpc] using hstep
              exact hs.letGo hs.ring rfl rfl (fun _ _ => rfl)
                ⟨hidle, hproducer⟩ rfl rfl rfl rfl rfl rfl
                (fun k => by simp only [List.count_append]; omega)
                hs.submitted_ok
      | _ => simp [PacingDaemon.daemonStep, hpc] at hstep
  | submit blk =>
      rw [hpc] at hdaemon
      obtain ⟨hidle, hproducer, k, hticket, hblk⟩ := hdaemon
      cases i with
      | next =>
          obtain rfl := by simpa [PacingDaemon.daemonStep, hpc] using hstep
          refine hs.letGo hs.ring rfl rfl (fun _ _ => rfl)
            ⟨hidle, hproducer⟩ rfl rfl rfl rfl rfl rfl ?_ ?_
          · intro j
            simp [hticket, List.count_append]
            omega
          · intro r hr
            rcases List.mem_append.mp hr with hr | hr
            · exact hs.submitted_ok r hr
            · obtain rfl : r = (k, prepWrite blk) := by simpa [hticket] using hr
              exact ⟨blk, hblk, rfl⟩
      | _ => simp [PacingDaemon.daemonStep, hpc] at hstep

/-- One step of any thread. -/
theorem Account.step (hs : s.Account) {strictGate : Bool} {e : Event ι}
    (hbound : s.absorber.claimed.length < 2 ^ 63)
    (hstep : s.step strictGate e = some t) : t.Account := by
  cases e with
  | absorb p blk =>
      obtain ⟨pc, hwon, ⟨e, hring⟩, rfl⟩ := restarts_absorb hstep
      exact hs.setProducer (hs.ring.step hbound hring) hwon
  | producer p => exact hs.producer hbound hstep
  | spurious p =>
      obtain ⟨pc, hwon, ⟨e, hring⟩, rfl⟩ := restarts_spurious hstep
      exact hs.setProducer (hs.ring.step hbound hring) hwon
  | daemon i => exact hs.daemonStep hbound hstep

end Steps

end PacingDaemon

end Tempo
