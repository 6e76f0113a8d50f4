import Tempo.BlockOffsets
import Tempo.PacingShutdown
import Tempo.PositionedWrites

/-!
# The file that the daemon writes

`open_lustre` opens one file, and every submission is a write at a position of it.
The kernel completes what it has taken in any order, and may write less than it was
asked for, or nothing; the thread does not look at the result.  Here the process is
given together with its file: a write lands when it completes, with the bytes that
the kernel has read from the buffer.  What the kernel holds when the ring is taken
down, or replaced, may still land later.

Where the submitted ranges are apart the order does not matter: the file is what
the landed writes make of it in any order, and each of them is there whole.
-/

namespace Tempo

open PacingProcess PositionedWrites Runs

/-- `data` is what the kernel can have written of an entry: it has not more than the
entry asks for, and nothing is written at a negative position. -/
def WriteSqe.Lands (w : WriteSqe) (data : List UInt8) : Prop :=
  data.length ≤ w.nbytes.toNat ∧ (0 ≤ w.offset.toInt ∨ data = [])

instance (w : WriteSqe) (data : List UInt8) : Decidable (w.Lands data) := by
  unfold WriteSqe.Lands
  infer_instance

/-- The process, its file, the entries that have landed with the bytes written, and
the entries that the kernel holds for a ring that is gone. -/
structure FlushedFile (cap : Capacity) (ι : Type*) where
  process : PacingProcess cap ι
  file : Content UInt8
  landed : List (WriteSqe × List UInt8) := []
  orphaned : List WriteSqe := []

namespace FlushedFile

variable {cap : Capacity} {ι : Type*}

inductive Event (ι : Type*)
  /-- a step of the owner, of the thread or of a producer -/
  | process (e : PacingProcess.Event ι)
  /-- the kernel completes the `i`-th write in flight -/
  | kernel (i : Nat) (data : List UInt8)
  /-- the kernel completes a write of a ring that is gone -/
  | orphan (i : Nat) (data : List UInt8)

def init (cfg : ProcessConfig) (found : Fin cap.size → KVBlock) (now : Nat)
    (file : Content UInt8) : FlushedFile cap ι :=
  { process := .init cfg found now, file }

/-- What a landed entry has done to the file. -/
def landing (r : WriteSqe × List UInt8) : Write UInt8 :=
  { offset := r.1.offset.toInt, data := r.2 }

def land (s : FlushedFile cap ι) (w : WriteSqe) (data : List UInt8) :
    FlushedFile cap ι :=
  { s with
    file := apply s.file (landing (w, data))
    landed := s.landed ++ [(w, data)] }

@[simp]
theorem land_orphaned (s : FlushedFile cap ι) (w : WriteSqe) (data : List UInt8) :
    (s.land w data).orphaned = s.orphaned := rfl

@[simp]
theorem land_process (s : FlushedFile cap ι) (w : WriteSqe) (data : List UInt8) :
    (s.land w data).process = s.process := rfl

/-- The owner takes the ring down, or replaces it. -/
def givesUp : OwnerPc → OwnerPc → Bool
  | .startInit, .startDirs | .stopRing _, .idle | .stopRing _, .dtorMembers => true
  | _, _ => false

/-- What the kernel holds for a ring that is given up. -/
def abandoned (p q : PacingProcess cap ι) : List WriteSqe :=
  if givesUp p.owner q.owner then p.uring.elim [] Uring.inFlight else []

variable [DecidableEq ι]

/-- One step of one party. -/
def step (cfg : ProcessConfig) (s : FlushedFile cap ι) :
    Event ι → Option (FlushedFile cap ι)
  | .process (.kernel _) => none
  | .process e =>
      (s.process.step cfg e).map fun process =>
        { s with process, orphaned := s.orphaned ++ abandoned s.process process }
  | .kernel i data =>
      s.process.uring.bind fun ring => (ring.inFlight[i]?).bind fun w =>
        if w.Lands data then
          (s.process.step cfg (.kernel i)).map fun process =>
            { s.land w data with process }
        else none
  | .orphan i data =>
      (s.orphaned[i]?).bind fun w =>
        if w.Lands data then
          some { s.land w data with orphaned := s.orphaned.eraseIdx i }
        else none

/-- The entries that the ring and the kernel still hold. -/
def held (p : PacingProcess cap ι) : List WriteSqe :=
  p.uring.elim [] fun ring => ring.sq ++ ring.inFlight

variable {cfg : ProcessConfig} {p q : PacingProcess cap ι} {s t : FlushedFile cap ι}
  {w : WriteSqe} {data : List UInt8}

/-! ## What a step does to the entries -/

theorem givesUp_self (o : OwnerPc) : givesUp o o = false := by
  cases o <;> rfl

omit [DecidableEq ι] in
theorem abandoned_of_owner (howner : q.owner = p.owner) : abandoned p q = [] := by
  unfold abandoned
  rw [howner, givesUp_self, if_neg (by simp)]

omit [DecidableEq ι] in
theorem held_of_some {ring : Uring} (huring : p.uring = some ring) :
    held p = ring.sq ++ ring.inFlight := by
  simp [held, huring]

theorem held_submit (ring : Uring) (n : Nat) :
    ((ring.submit n).sq ++ (ring.submit n).inFlight).Perm (ring.sq ++ ring.inFlight) :=
  (List.perm_append_right_iff ring.cq).mp (outstanding_submit ring n)

theorem held_complete {ring ring' : Uring} {i : Nat} (hw : ring.inFlight[i]? = some w)
    (hring : ring.complete i = some ring') :
    (ring.sq ++ ring.inFlight).Perm (w :: (ring'.sq ++ ring'.inFlight)) := by
  unfold Uring.complete at hring
  rw [hw, Option.map_some] at hring
  obtain rfl := Option.some.inj hring
  obtain ⟨hi, rfl⟩ := List.getElem?_eq_some_iff.mp hw
  calc List.Perm (ring.sq ++ ring.inFlight)
        (ring.sq ++ ring.inFlight[i] :: ring.inFlight.eraseIdx i) :=
        (List.getElem_cons_eraseIdx_perm hi).symm.append_left ring.sq
    List.Perm _ (ring.inFlight[i] :: (ring.sq ++ ring.inFlight.eraseIdx i)) :=
        List.perm_middle

/-- What the step of the owner, of the thread or of a producer adds to the entries
that were submitted, and where what was held is after it. -/
structure Kept (p q : PacingProcess cap ι) (added : List WriteSqe) : Prop where
  writes : q.writes = p.writes ++ added
  held : ∀ w, (held q).count w + (abandoned p q).count w ≤
    (held p).count w + added.count w

omit [DecidableEq ι] in
theorem Kept.of_same (hflushed : q.flushed = p.flushed) (howner : q.owner = p.owner)
    (hperm : (FlushedFile.held q).Perm (FlushedFile.held p)) : Kept p q [] where
  writes := by simp [PacingProcess.writes, hflushed]
  held := fun w => by simp [abandoned_of_owner howner, hperm.count_eq w]

omit [DecidableEq ι] in
theorem kept_of_owner (hmove : OwnerMove p q) : Kept p q [] := by
  have hwrites : q.writes = p.writes ++ [] := by
    simp [PacingProcess.writes, hmove.frame.2.2]
  refine ⟨hwrites, fun w => ?_⟩
  cases hmove with
  | init howner =>
      cases huring : p.uring <;>
        simp [held, abandoned, howner, givesUp, huring, List.count_append]
  | ring dtor howner =>
      cases huring : p.uring <;> cases dtor <;>
        simp [held, abandoned, howner, givesUp, huring, List.count_append]
  | again howner | start howner | stop _ howner | destroy howner | initFailed howner
  | dirs howner | spawn howner | overwrite howner | joined _ howner | members howner
  | joinable howner => simp [held, abandoned, howner, givesUp]
  | thrown howner =>
      rcases howner with howner | howner <;> simp [held, abandoned, howner, givesUp]

omit [DecidableEq ι] in
theorem held_flush (p : PacingProcess cap ι) (blk : KVBlock) (n : Nat) (w : WriteSqe) :
    (held (p.flush blk n)).count w ≤ (held p).count w + [prepWrite blk].count w := by
  cases huring : p.uring with
  | none => simp [held, flush, huring]
  | some ring =>
      have hperm : (held (p.flush blk n)).Perm
          (ring.sq ++ [prepWrite blk] ++ ring.inFlight) := by
        simpa [held, flush, huring] using
          held_submit { ring with sq := ring.sq ++ [prepWrite blk] } n
      rw [hperm.count_eq w, held_of_some huring]
      simp only [List.count_append]
      omega

theorem kept_of_thread {i : ThreadInput} (hmove : ThreadMove cfg p i q) :
    ∃ added, Kept p q added := by
  cases hmove with
  | opened | failed | test | body | consume | timeout | collected | count | skip
  | drained | closed => exact ⟨[], Kept.of_same rfl rfl (List.Perm.refl _)⟩
  | submit hthread hpc hloop =>
      rename_i blk n loop
      refine ⟨[prepWrite blk], by simp [PacingProcess.writes, flush], fun w => ?_⟩
      rw [abandoned_of_owner (by rfl), List.count_nil, Nat.add_zero]
      exact held_flush p blk n w
  | sqFull =>
      rename_i n hthread
      refine ⟨[], Kept.of_same rfl rfl ?_⟩
      cases huring : p.uring with
      | none => simp [held, submitRing, huring]
      | some ring => simpa [held, submitRing, huring] using held_submit ring n
  | reap hreaps hthread huring hcq =>
      exact ⟨[], Kept.of_same rfl rfl (by simp [held, huring])⟩

/-- Every step but the kernel's. -/
theorem kept_of_step {e : PacingProcess.Event ι} (hkernel : ∀ i, e ≠ .kernel i)
    (hstep : p.step cfg e = some q) : ∃ added, Kept p q added := by
  cases move_of_step hstep with
  | producers => exact ⟨[], Kept.of_same rfl rfl (List.Perm.refl _)⟩
  | owner _ hmove => exact ⟨[], kept_of_owner hmove⟩
  | thread _ hmove => exact kept_of_thread hmove
  | kernel => exact absurd rfl (hkernel _)

/-! ## The books of the file -/

/-- An entry lands at most once for each time it was submitted, and the file is what
the landed entries have made of it. -/
structure Ledger (file₀ : Content UInt8) (s : FlushedFile cap ι) : Prop where
  counted : ∀ w, (s.landed.map Prod.fst).count w + (held s.process).count w +
    s.orphaned.count w ≤ s.process.writes.count w
  lands : ∀ r ∈ s.landed, r.1.Lands r.2
  file : s.file = replay file₀ (s.landed.map landing)

variable {file₀ : Content UInt8}

omit [DecidableEq ι] in
theorem ledger_init (cfg : ProcessConfig) (found : Fin cap.size → KVBlock) (now : Nat) :
    Ledger file₀ (init cfg found now file₀ : FlushedFile cap ι) where
  counted := fun _ => Nat.le_refl _
  lands := by simp [init]
  file := rfl

omit [DecidableEq ι] in
/-- An entry that the kernel holds lands, and is held no more. -/
theorem Ledger.land (h : Ledger file₀ s) (hlands : w.Lands data)
    {orphaned : List WriteSqe} (hwrites : q.writes = s.process.writes)
    (hless : ∀ v, (held q).count v + orphaned.count v + [w].count v =
      (held s.process).count v + s.orphaned.count v) :
    Ledger file₀ { s.land w data with process := q, orphaned } where
  counted := by
    intro v
    have hcounted := h.counted v
    have hv := hless v
    rw [hwrites]
    simp only [FlushedFile.land, List.map_append, List.map_cons, List.map_nil,
      List.count_append]
    omega
  lands := by
    intro r hr
    rcases List.mem_append.mp hr with hold | hnew
    · exact h.lands r hold
    · obtain rfl := List.mem_singleton.mp hnew
      exact hlands
  file := by
    simp only [FlushedFile.land, List.map_append, List.map_cons, List.map_nil]
    rw [replay_concat, h.file]

theorem Ledger.step (h : Ledger file₀ s) {e : Event ι} (hstep : step cfg s e = some t) :
    Ledger file₀ t := by
  cases e with
  | process e =>
      have hkernel : ∀ i, e ≠ .kernel i := by
        rintro i rfl
        cases hstep
      have hmap : (s.process.step cfg e).map (fun process =>
          { s with process, orphaned := s.orphaned ++ abandoned s.process process }) =
          some t := by
        cases e with
        | kernel i => exact absurd rfl (hkernel i)
        | _ => exact hstep
      obtain ⟨q, hq, rfl⟩ := Option.map_eq_some_iff.mp hmap
      obtain ⟨added, hkept⟩ := kept_of_step hkernel hq
      refine ⟨fun w => ?_, h.lands, h.file⟩
      have hcounted := h.counted w
      have hheld := hkept.held w
      rw [hkept.writes]
      simp only [List.count_append]
      omega
  | kernel i data =>
      obtain ⟨ring, huring, hbind⟩ := Option.bind_eq_some_iff.mp hstep
      obtain ⟨w, hw, hif⟩ := Option.bind_eq_some_iff.mp hbind
      obtain ⟨hlands, hmap⟩ := Option.ite_none_right_eq_some.mp hif
      obtain ⟨q, hq, rfl⟩ := Option.map_eq_some_iff.mp hmap
      obtain ⟨ring', hring', rfl⟩ := Option.map_eq_some_iff.mp
        (show (ring.complete i).map _ = some q by
          simpa [PacingProcess.step, huring] using hq)
      refine h.land hlands rfl fun v => ?_
      have hcount := (held_complete hw hring').count_eq v
      rw [held_of_some huring, held_of_some rfl, hcount]
      simp only [land_orphaned, List.count_cons, List.count_nil]
      omega
  | orphan i data =>
      obtain ⟨w, hw, hif⟩ := Option.bind_eq_some_iff.mp hstep
      obtain ⟨hlands, hsome⟩ := Option.ite_none_right_eq_some.mp hif
      obtain rfl := Option.some.inj hsome
      refine h.land hlands rfl fun v => ?_
      obtain ⟨hi, rfl⟩ := List.getElem?_eq_some_iff.mp hw
      have hcount := (List.getElem_cons_eraseIdx_perm hi).count_eq v
      simp only [land_process, List.count_cons, List.count_nil] at hcount ⊢
      omega

theorem reachable_ledger {found : Fin cap.size → KVBlock} {now : Nat}
    (hreach : Reachable (step cfg) (init cfg found now file₀) s) : Ledger file₀ s :=
  hreach.invariant (ledger_init cfg found now) fun _ _ _ hs _ hstep => hs.step hstep

/-! ## The file -/

/-- A landed entry writes within the range of its submission. -/
theorem landing_range (hlands : w.Lands data) {pos : Int}
    (hpos : ((landing (w, data)).at? pos).isSome) : pos ∈ w.range := by
  obtain ⟨hfrom, hto⟩ := ((landing (w, data)).at?_isSome_iff pos).mp hpos
  have hlength := hlands.1
  simp only [landing] at hfrom hto
  exact ⟨hfrom, by omega⟩

theorem landing_none (hlands : w.Lands data) {pos : Int} (hpos : pos ∉ w.range) :
    (landing (w, data)).at? pos = none := by
  by_contra hsome
  exact hpos (landing_range hlands (Option.isSome_iff_ne_none.mpr hsome))

omit [DecidableEq ι] in
/-- What has landed was submitted, each entry at most as often. -/
theorem Ledger.subperm (h : Ledger file₀ s) :
    (s.landed.map Prod.fst).Subperm s.process.writes := by
  rw [List.subperm_ext_iff]
  intro w _
  have hcounted := h.counted w
  omega

omit [DecidableEq ι] in
/-- The landed writes are apart where the submitted ranges are. -/
theorem Ledger.apart (h : Ledger file₀ s)
    (hapart : s.process.writes.Pairwise fun w w' => Disjoint w.range w'.range) :
    (s.landed.map landing).Pairwise Write.Apart := by
  have hentries : (s.landed.map Prod.fst).Pairwise
      fun w w' => Disjoint w.range w'.range := by
    obtain ⟨l, hperm, hsub⟩ := h.subperm
    exact (hperm.pairwise_iff fun hdisjoint => hdisjoint.symm).mp (hapart.sublist hsub)
  rw [List.pairwise_map] at hentries ⊢
  apply hentries.imp_of_mem
  intro r r' hr hr' hdisjoint pos
  by_cases hpos : pos ∈ r.1.range
  · exact Or.inr (landing_none (h.lands r' hr') (Set.disjoint_left.mp hdisjoint hpos))
  · exact Or.inl (landing_none (h.lands r hr) hpos)

/-- **The order of completions leaves no trace.**  Positions outside the submissions
are as they were.  Where the submitted ranges are apart, every landed entry is whole in
the file, and the file is what the landed entries make of it in any order. -/
theorem landed_whole (cfg : ProcessConfig) (found : Fin cap.size → KVBlock) (now : Nat)
    (file₀ : Content UInt8) {s : FlushedFile cap ι}
    (hreach : Reachable (step cfg) (init cfg found now file₀) s) :
    (s.landed.map Prod.fst).Subperm s.process.writes ∧
      (∀ pos, (∀ w ∈ s.process.writes, pos ∉ w.range) → s.file pos = file₀ pos) ∧
      (s.process.writes.Pairwise (fun w w' => Disjoint w.range w'.range) →
        (∀ order : List (WriteSqe × List UInt8), order.Perm s.landed →
          s.file = replay file₀ (order.map landing)) ∧
        ∀ r ∈ s.landed, ∀ k (hk : k < r.2.length),
          s.file (r.1.offset.toInt + k) = some r.2[k]) := by
  have h := reachable_ledger hreach
  refine ⟨h.subperm, fun pos hpos => ?_, fun hapart => ?_⟩
  · rw [h.file]
    apply replay_of_uncovered
    intro w hw
    obtain ⟨r, hr, rfl⟩ := List.mem_map.mp hw
    exact landing_none (h.lands r hr)
      (hpos r.1 (h.subperm.subset (List.mem_map_of_mem hr)))
  · have hwrites := h.apart hapart
    refine ⟨fun order horder => ?_, fun r hr k hk => ?_⟩
    · rw [h.file]
      exact replay_perm (horder.symm.map landing) hwrites
    · rw [h.file]
      exact replay_of_mem hwrites (List.mem_map_of_mem hr) ((landing r).at?_offset_add hk)

/-- Two blocks are absorbed and submitted. -/
def twoBlockEvents : List (PacingProcess.Event Unit) :=
  [.start, .owner true, .owner true, .owner true,
    .absorb () (SpikeAbsorber.blockOf 1)] ++
    List.replicate 6 (.producer ()) ++ [.absorb () (SpikeAbsorber.blockOf 2)] ++
    List.replicate 6 (.producer ()) ++ [.thread (.opened true)] ++
    List.replicate 8 (.thread .next) ++
    [.thread (.clock 0), .thread .next, .thread (.submitted 1)] ++
    List.replicate 9 (.thread .next) ++
    [.thread (.clock 0), .thread .next, .thread (.submitted 1)]

/-- The second block lands first, and both are cut short. -/
theorem landed_whole_two :
    ∃ s : FlushedFile pair Unit,
      s.landed = [(prepWrite (SpikeAbsorber.blockOf 2), [7]),
        (prepWrite (SpikeAbsorber.blockOf 1), [8, 9])] ∧
      s.file = replay (fun _ => none) (s.landed.reverse.map landing) := by
  obtain ⟨s, hreach, hlanded, hwrites⟩ : ∃ s : FlushedFile pair Unit,
      Reachable (step {}) (init {} (fun _ => SpikeAbsorber.blockOf 0) 0 fun _ => none) s ∧
      s.landed = [(prepWrite (SpikeAbsorber.blockOf 2), [7]),
        (prepWrite (SpikeAbsorber.blockOf 1), [8, 9])] ∧
      s.process.writes =
        [prepWrite (SpikeAbsorber.blockOf 1), prepWrite (SpikeAbsorber.blockOf 2)] :=
    Reachable.exists_of_exec
      (twoBlockEvents.map Event.process ++ [.kernel 1 [7], .kernel 0 [8, 9]])
      (by decide +kernel)
  have hapart : s.process.writes.Pairwise fun w w' => Disjoint w.range w'.range := by
    rw [hwrites, List.pairwise_pair]
    exact Set.Ico_disjoint_Ico.mpr (by decide)
  exact ⟨s, hlanded,
    ((landed_whole {} _ 0 _ hreach).2.2 hapart).1 _ (List.reverse_perm s.landed)⟩

end FlushedFile

end Tempo
