import Tempo.SpikeAbsorberFifo

/-!
# The size of the ring, as a reader sees it

`size_approx` loads `enqueue_pos_` and then `dequeue_pos_`, and any thread may call it
while producers and the consumer go on; `tempo_get_metrics` reports what it returns.
Between the two loads the queue may grow and shrink.  Since the position that only
moves the value up is loaded first, the value is never above the number of blocks in
the queue at the first load, and it falls short of the number at the second load by at
most the claims made in between, and one (`size_approx_bounds`).

The consumer hands its slot to the next lap before it stores `dequeue_pos_`.  A reader
in between can see a full ring with one block too many, so `CAPACITY + 1` is the
largest value, and it is returned (`size_approx_bounds_full`).
-/

namespace Tempo

namespace SpikeAbsorber

/-- `size_approx`, from the two positions it has loaded. -/
def sizeApprox (e d : UInt64) : UInt64 := if e ≥ d then e - d else 0

theorem toNat_sizeApprox (e d : UInt64) :
    (sizeApprox e d).toNat = e.toNat - d.toNat := by
  unfold sizeApprox
  split
  next hle => exact UInt64.toNat_sub_of_le e d hle
  next hlt =>
      have hnat : e.toNat < d.toNat := UInt64.lt_iff_toNat_lt.mp (UInt64.not_le.mp hlt)
      rw [Nat.sub_eq_zero_of_le hnat.le]
      rfl

variable {cap : Capacity} {ι : Type*} {s : SpikeAbsorber cap ι}

/-- The blocks claimed that `drain` has not returned. -/
def unreturned (s : SpikeAbsorber cap ι) : Nat := s.log.pending.length

theorem unreturned_eq (s : SpikeAbsorber cap ι) :
    s.unreturned = s.claimed.length - s.drained.length := List.length_drop

/-- `dequeue_pos_` is ahead of the blocks returned at the end of `drain` only. -/
theorem Inv.dequeue (hs : Inv s) :
    s.drained.length ≤ s.dequeuePos.toNat ∧
      s.dequeuePos.toNat ≤ s.drained.length + 1 := by
  have hdrain := hs.consumer
  cases hpc : s.consumer with
  | idle | load =>
      rw [hpc] at hdrain
      have hpos : s.dequeuePos.toNat = s.drained.length := hdrain
      omega
  | peek | copy | release | advance | deliver =>
      rw [hpc] at hdrain
      have hpos := hdrain.1
      omega

/-- No more blocks are in the queue than slots, but for one that is released while
`drain` has not returned it. -/
theorem Inv.unreturned_le (hs : Inv s) : s.unreturned ≤ cap.size + 1 := by
  have hroom := hs.room
  have htaken : s.consumer.taken ≤ 1 := by
    cases s.consumer <;> simp [DrainPc.taken]
  unfold released at hroom
  rw [unreturned_eq]
  omega

end SpikeAbsorber

open SpikeAbsorber

/-- Where a reader stands in `size_approx`; `first` is the absorber at its first load. -/
inductive SizePc (cap : Capacity) (ι : Type*)
  | idle
  /-- `dequeue_pos_.load` -/
  | loaded (e : UInt64) (first : SpikeAbsorber cap ι)

/-- A value returned, with the absorber at the two loads. -/
structure SizeAnswer (cap : Capacity) (ι : Type*) where
  value : UInt64
  first : SpikeAbsorber cap ι
  last : SpikeAbsorber cap ι

/-- The absorber with the threads that read its size; `κ` names them. -/
structure SizedAbsorber (cap : Capacity) (ι κ : Type*) where
  absorber : SpikeAbsorber cap ι
  reader : κ → SizePc cap ι := fun _ => .idle
  answers : List (SizeAnswer cap ι) := []

inductive SizeEvent (ι κ : Type*)
  | absorber (e : SpikeAbsorber.Event ι)
  /-- reader `k` calls `size_approx`, and loads `enqueue_pos_` -/
  | sizeApprox (k : κ)
  /-- reader `k` loads `dequeue_pos_`, and returns -/
  | reader (k : κ)

namespace SizedAbsorber

variable {cap : Capacity} {ι κ : Type*} [DecidableEq ι] [DecidableEq κ]

omit [DecidableEq ι] [DecidableEq κ] in
/-- After the constructor. -/
def init (found : Fin cap.size → KVBlock) : SizedAbsorber cap ι κ :=
  { absorber := .init found }

def step (s : SizedAbsorber cap ι κ) : SizeEvent ι κ → Option (SizedAbsorber cap ι κ)
  | .absorber e => (s.absorber.step e).map fun absorber => { s with absorber }
  | .sizeApprox k =>
      match s.reader k with
      | .idle =>
          some { s with
            reader := Function.update s.reader k
              (.loaded s.absorber.enqueuePos s.absorber) }
      | .loaded _ _ => none
  | .reader k =>
      match s.reader k with
      | .idle => none
      | .loaded e first =>
          some { s with
            reader := Function.update s.reader k .idle
            answers := s.answers ++
              [⟨sizeApprox e s.absorber.dequeuePos, first, s.absorber⟩] }

variable {s t : SizedAbsorber cap ι κ} {e : SizeEvent ι κ}

omit [DecidableEq ι] [DecidableEq κ] in
/-- `first` is the absorber at an earlier point of the run to `last`. -/
structure Earlier (first last : SpikeAbsorber cap ι) : Prop where
  inv : Inv first
  claimed : first.claimed.length ≤ last.claimed.length
  drained : first.drained.length ≤ last.drained.length

/-- What a value says of the absorber at the two loads. -/
def Bounded (a : SizeAnswer cap ι) : Prop :=
  a.value.toNat ≤ a.first.unreturned ∧
    a.last.unreturned ≤
      a.value.toNat + (a.last.claimed.length - a.first.claimed.length) + 1 ∧
    a.value.toNat ≤ cap.size + 1

/-- The invariant. -/
structure Sound (s : SizedAbsorber cap ι κ) : Prop where
  inv : Inv s.absorber
  loaded : ∀ k e first, s.reader k = .loaded e first →
    e = first.enqueuePos ∧ Earlier first s.absorber
  answers : ∀ a ∈ s.answers, Bounded a

omit [DecidableEq ι] in
/-- The second load, whatever has happened since the first. -/
theorem Earlier.bounded {first last : SpikeAbsorber cap ι} (h : Earlier first last)
    (hlast : Inv last) :
    Bounded ⟨sizeApprox first.enqueuePos last.dequeuePos, first, last⟩ := by
  have hvalue := toNat_sizeApprox first.enqueuePos last.dequeuePos
  rw [h.inv.enqueue] at hvalue
  have hfull := h.inv.unreturned_le
  obtain ⟨hlow, hup⟩ := hlast.dequeue
  have hclaimed := h.claimed
  have hdrained := h.drained
  unfold Bounded
  dsimp only
  rw [hvalue]
  simp only [unreturned_eq] at hfull ⊢
  omega

theorem Earlier.step {first last next : SpikeAbsorber cap ι} {e : SpikeAbsorber.Event ι}
    (h : Earlier first last) (hstep : last.step e = some next) : Earlier first next := by
  refine ⟨h.inv, h.claimed.trans (claimed_prefix_of_step hstep).length_le, ?_⟩
  rcases step_histories hstep with ⟨-, heq⟩ | ⟨_, -, heq⟩ | ⟨out, -, -, heq⟩
  · rw [heq]
    exact h.drained
  · rw [heq]
    exact h.drained
  · rw [heq, List.length_append]
    exact h.drained.trans (Nat.le_add_right _ _)

/-- What one step does. -/
theorem step_cases (hstep : s.step e = some t) :
    (∃ f absorber, s.absorber.step f = some absorber ∧ t = { s with absorber }) ∨
      (∃ k, s.reader k = .idle ∧
        t = { s with
          reader := Function.update s.reader k
            (.loaded s.absorber.enqueuePos s.absorber) }) ∨
      ∃ k e first, s.reader k = .loaded e first ∧
        t = { s with
          reader := Function.update s.reader k .idle
          answers := s.answers ++
            [⟨sizeApprox e s.absorber.dequeuePos, first, s.absorber⟩] } := by
  cases e with
  | absorber f =>
      obtain ⟨absorber, hf, rfl⟩ := Option.map_eq_some_iff.mp hstep
      exact .inl ⟨f, absorber, hf, rfl⟩
  | sizeApprox k =>
      cases hk : s.reader k with
      | loaded e first => simp [SizedAbsorber.step, hk] at hstep
      | idle => exact .inr (.inl ⟨k, hk, by simpa [SizedAbsorber.step, hk] using hstep.symm⟩)
  | reader k =>
      cases hk : s.reader k with
      | idle => simp [SizedAbsorber.step, hk] at hstep
      | loaded e first =>
          exact .inr (.inr ⟨k, e, first, hk,
            by simpa [SizedAbsorber.step, hk] using hstep.symm⟩)

theorem Sound.step (hs : s.Sound) (hbound : s.absorber.claimed.length < 2 ^ 63)
    (hstep : s.step e = some t) : t.Sound := by
  rcases step_cases hstep with
    ⟨f, absorber, hf, rfl⟩ | ⟨k, hk, rfl⟩ | ⟨k, e, first, hk, rfl⟩
  · refine ⟨hs.inv.step hbound hf, fun k e first hk => ?_, hs.answers⟩
    obtain ⟨he, hearlier⟩ := hs.loaded k e first hk
    exact ⟨he, hearlier.step hf⟩
  · refine ⟨hs.inv, fun j e first hj => ?_, hs.answers⟩
    by_cases hjk : j = k
    · subst hjk
      obtain ⟨rfl, rfl⟩ : s.absorber.enqueuePos = e ∧ s.absorber = first := by
        simpa using hj
      exact ⟨rfl, hs.inv, le_rfl, le_rfl⟩
    · refine hs.loaded j e first ?_
      simpa [hjk] using hj
  · obtain ⟨rfl, hearlier⟩ := hs.loaded k e first hk
    refine ⟨hs.inv, fun j e' first' hj => ?_, fun a ha => ?_⟩
    · by_cases hjk : j = k
      · subst hjk
        simp at hj
      · refine hs.loaded j e' first' ?_
        simpa [hjk] using hj
    · rcases List.mem_append.mp ha with ha | ha
      · exact hs.answers a ha
      · obtain rfl := List.mem_singleton.mp ha
        exact hearlier.bounded hs.inv

/-- Claims are never taken back. -/
theorem claimed_of_step (hstep : s.step e = some t)
    (ht : t.absorber.claimed.length < 2 ^ 63) : s.absorber.claimed.length < 2 ^ 63 := by
  rcases step_cases hstep with ⟨f, absorber, hf, rfl⟩ | ⟨k, -, rfl⟩ | ⟨k, e, first, -, rfl⟩
  · exact (claimed_prefix_of_step hf).length_le.trans_lt ht
  · exact ht
  · exact ht

/-- **How far a size may be off.**  In every interleaving with fewer than `2 ^ 63`
claims, a value that `size_approx` has returned is at most the number of blocks in the
queue at its first load and at most `CAPACITY + 1`; and the number at its second load
is at most the value, the claims between the two loads, and one. -/
theorem size_approx_bounds {found : Fin cap.size → KVBlock}
    (hrun : Runs.Reachable step (init found) s)
    (hbound : s.absorber.claimed.length < 2 ^ 63) :
    ∀ a ∈ s.answers,
      a.value.toNat ≤ a.first.unreturned ∧
        a.last.unreturned ≤
          a.value.toNat + (a.last.claimed.length - a.first.claimed.length) + 1 ∧
        a.value.toNat ≤ cap.size + 1 := by
  have hstart : (init found : SizedAbsorber cap ι κ).Sound := by
    refine ⟨inv_init found, fun k e first hk => ?_, fun a ha => ?_⟩
    · cases hk
    · cases ha
  have hsound : s.Sound :=
    Runs.Reach.invariant_while hrun (fun _ _ _ => claimed_of_step) hbound hstart
      fun _ _ _ hs _ hlt hstep => hs.step hlt hstep
  exact hsound.answers

/-- A ring of two slots is full, the consumer has released a slot and not moved
`dequeue_pos_`, and a third block is claimed: the size is three. -/
theorem size_approx_bounds_full :
    ∃ s : SizedAbsorber ⟨1, by decide, by decide⟩ Unit Unit,
      Runs.Reachable step (init fun _ => blockOf 0) s ∧
      s.answers.map (fun a => a.value.toNat) = [3] ∧
      ∀ a ∈ s.answers, a.value.toNat ≤ a.first.unreturned := by
  obtain ⟨s, hrun, hanswers, hbound⟩ :
      ∃ s : SizedAbsorber ⟨1, by decide, by decide⟩ Unit Unit,
        Runs.Reachable step (init fun _ => blockOf 0) s ∧
        s.answers.map (fun a => a.value.toNat) = [3] ∧
        s.absorber.claimed.length < 2 ^ 63 :=
    Runs.Reachable.exists_of_exec
      (([Event.absorb () (blockOf 1)] ++ List.replicate 6 (Event.producer ()) ++
        [Event.absorb () (blockOf 2)] ++ List.replicate 6 (Event.producer ()) ++
        [Event.drain] ++ List.replicate 4 Event.consumer ++
        [Event.absorb () (blockOf 3)] ++ List.replicate 3 (Event.producer ())).map
          .absorber ++ [.sizeApprox (), .reader ()])
      (by decide +kernel)
  exact ⟨s, hrun, hanswers, fun a ha => (size_approx_bounds hrun hbound a ha).1⟩

end SizedAbsorber

end Tempo
