import Tempo.KeyStore
import Tempo.SoftAbsorber

/-!
# The storage backend on the soft absorber

`TEMPOStorageBackend` hands a `put` to the soft absorber, whose thread puts the
tensor to the backing store later.  `get`, `contains` and `delete` go straight
to the backing store.  The backing store is a `KeyStore`, each call of which is
one step.

A deleted key stays deleted exactly when the thread is not going to put
anything under it any more (`pending`).
-/

namespace Tempo

open Runs

/-- How many statements a thread with something pending takes at most until it
has put an item. -/
def SoftPc.distance {α : Type*} : SoftPc α → Nat
  | .top => 7
  | .acquire | .waiting => 6
  | .inner => 5
  | .decide => 4
  | .refill _ => 3
  | .sleep _ => 2
  | .put _ => 1
  | .exited | .crashed _ => 0

namespace SoftAbsorber

variable {κ τ : Type*}

/-- What is queued and still going to be popped. -/
def remaining (s : SoftAbsorber κ τ) : List (κ × τ) :=
  if s.stop then s.queue.take s.worker.pops else s.queue

/-- The items the thread is still going to put, unless it crashes. -/
def pending (s : SoftAbsorber κ τ) : List (κ × τ) :=
  if s.ended then [] else s.worker.item?.toList ++ s.remaining

end SoftAbsorber

/-- The backend; the absorber holds the tensors as they are on the CPU. -/
structure SoftBackend (β κ τ : Type*) where
  absorber : SoftAbsorber κ τ
  backing : β

namespace SoftBackend

variable {β κ τ : Type*}

inductive Event (κ τ : Type*)
  | put (key : κ) (kvTensor : τ)
  | delete (key : κ)
  /-- `close` is called -/
  | close
  /-- the next statement of `close` -/
  | closing
  /-- the next statement of the flush thread -/
  | worker (now : ℚ)

def init (cfg : SoftConfig) (now : ℚ) (backing : β) : SoftBackend β κ τ :=
  { absorber := .init cfg now, backing }

variable (store : KeyStore β κ τ)

def get (s : SoftBackend β κ τ) (key : κ) : Option τ :=
  store.get s.backing key

def contains (s : SoftBackend β κ τ) (key : κ) : Bool :=
  store.contains s.backing key

/-- What a statement of the flush thread does to the backing store. -/
def flushed (s : SoftBackend β κ τ) : β :=
  match s.absorber.worker with
  | .put item => store.put s.backing item.1 item.2
  | _ => s.backing

/-- One call, or one step of one thread; `cpu` copies a tensor that is on the
GPU. -/
def step (cfg : SoftConfig) (nbytes : τ → Nat) (cpu : τ → τ)
    (s : SoftBackend β κ τ) : Event κ τ → Option (SoftBackend β κ τ)
  | .put key kvTensor =>
      (s.absorber.step cfg nbytes (.absorb key (cpu kvTensor))).map
        fun absorber => { s with absorber }
  | .delete key => some { s with backing := store.delete s.backing key }
  | .close =>
      (s.absorber.step cfg nbytes .shutdown).map fun absorber =>
        { s with absorber }
  | .closing =>
      (s.absorber.step cfg nbytes .closing).map fun absorber =>
        { s with absorber }
  | .worker now =>
      (s.absorber.step cfg nbytes (.worker now)).map fun absorber =>
        { s with absorber, backing := s.flushed store }

/-- The event does not put anything under `key`. -/
def Event.Spares (key : κ) : Event κ τ → Prop
  | .put key' _ => key' ≠ key
  | _ => True

instance [DecidableEq κ] (key : κ) : ∀ e : Event κ τ, Decidable (e.Spares key)
  | .put _ _ => inferInstanceAs (Decidable (_ ≠ _))
  | .delete _ | .close | .closing | .worker _ => isTrue trivial

/-- `key` is not found, and not found again before something is put under
it. -/
def StaysDeleted (cfg : SoftConfig) (nbytes : τ → Nat) (cpu : τ → τ)
    (s : SoftBackend β κ τ) (key : κ) : Prop :=
  ∀ t, Reach (step store cfg nbytes cpu) (fun _ e => e.Spares key) s t →
    t.get store key = none ∧ t.contains store key = false

end SoftBackend

namespace SoftAbsorber

variable {κ τ : Type*} {cfg : SoftConfig} {nbytes : τ → Nat}
  {s t : SoftAbsorber κ τ}

theorem mem_pending {item : κ × τ} :
    item ∈ s.pending ↔
      s.ended = false ∧
        (s.worker.item? = some item ∨ item ∈ s.remaining) := by
  unfold pending
  cases s.ended <;> simp

/-- After the stop flag is set the thread does not come to a second pop. -/
theorem pops_le_of_stop (hstop : s.stop = true) {now : ℚ}
    (hstep : s.workerStep cfg nbytes now = some t) :
    t.worker.pops ≤ s.worker.pops := by
  cases hpc : s.worker with
  | top | acquire | inner | waiting | put item =>
      obtain rfl := by simpa [workerStep, hpc, hstop] using hstep
      simp [SoftPc.pops]
  | decide =>
      cases hq : s.queue with
      | nil =>
          obtain rfl := by simpa [workerStep, hpc, hq, hstop] using hstep
          exact Nat.zero_le _
      | cons item rest =>
          obtain rfl := by simpa [workerStep, hpc, hq] using hstep
          exact Nat.zero_le _
  | refill item =>
      obtain rfl := by simpa [workerStep, hpc] using hstep
      dsimp only
      split <;> exact Nat.zero_le _
  | sleep item =>
      by_cases hsleep : cfg.canSleep (nbytes item.2)
      · obtain rfl := by simpa [workerStep, hpc, hsleep] using hstep
        exact Nat.zero_le _
      · obtain rfl := by simpa [workerStep, hpc, hsleep] using hstep
        exact Nat.zero_le _
  | exited | crashed item => simp [workerStep, hpc] at hstep

/-- A thread that has a statement left has not ended. -/
theorem ended_eq_false {now : ℚ} (hstep : s.workerStep cfg nbytes now = some t) :
    s.ended = false := by
  unfold ended
  cases hpc : s.worker <;> simp [workerStep, hpc] at hstep ⊢

/-- A statement of the thread does not add to what is pending. -/
theorem pending_of_worker {now : ℚ}
    (hstep : s.workerStep cfg nbytes now = some t) {item : κ × τ}
    (hitem : item ∈ t.pending) : item ∈ s.pending := by
  have hpops := fun hstop => pops_le_of_stop hstop hstep
  obtain ⟨-, hitem⟩ := mem_pending.mp hitem
  refine mem_pending.mpr ⟨ended_eq_false hstep, ?_⟩
  unfold remaining at hitem ⊢
  obtain ⟨-, ⟨w, tokens, lastT, rfl, hheld, -⟩ | ⟨first, rest, hpc, hq, rfl⟩ |
    ⟨first, tokens, hpc, rfl⟩⟩ := workerStep_cases hstep
  · dsimp only at hitem hpops
    rw [hheld] at hitem
    cases hstop : s.stop with
    | true =>
        rw [hstop] at hitem
        exact hitem.imp_right fun htake =>
          List.take_subset_take_left _ (hpops hstop) htake
    | false =>
        rw [hstop] at hitem
        exact hitem
  · rw [hpc, hq]
    cases hstop : s.stop <;> simpa [hstop, SoftPc.item?, SoftPc.pops, eq_comm]
      using hitem
  · rw [hpc]
    cases hstop : s.stop <;> simp [hstop, SoftPc.item?, SoftPc.pops] at hitem ⊢
    exact .inr hitem

/-- What the thread puts was pending. -/
theorem mem_pending_of_put {item : κ × τ} (hpc : s.worker = .put item) :
    item ∈ s.pending := by
  simp [mem_pending, ended, hpc, SoftPc.item?]

/-- Only `absorb` adds to what is pending. -/
theorem pending_of_step {e : Event κ τ} (hstep : s.step cfg nbytes e = some t)
    {item : κ × τ} (hitem : item ∈ t.pending) :
    item ∈ s.pending ∨ e = .absorb item.1 item.2 := by
  cases e with
  | absorb key tensor =>
      obtain ⟨-, rfl⟩ := by simpa [step] using hstep
      obtain ⟨halive, hheld | hqueued⟩ := mem_pending.mp hitem
      · exact .inl (mem_pending.mpr ⟨halive, .inl hheld⟩)
      · have hadded : item ∈ s.remaining ∨ item ∈ [(key, tensor)] := by
          unfold remaining at hqueued ⊢
          cases hstop : s.stop with
          | true =>
              simp only [hstop, if_true, List.take_append,
                List.mem_append] at hqueued
              exact hqueued.imp_right List.mem_of_mem_take
          | false =>
              simpa [hstop] using hqueued
        rcases hadded with hold | hnew
        · exact .inl (mem_pending.mpr ⟨halive, .inr hold⟩)
        · obtain rfl := List.mem_singleton.mp hnew
          exact .inr rfl
  | worker now => exact .inl (pending_of_worker hstep hitem)
  | shutdown =>
      obtain ⟨-, rfl⟩ := by simpa [step] using hstep
      left
      obtain ⟨halive, hheld | hqueued⟩ := mem_pending.mp hitem
      · exact mem_pending.mpr ⟨halive, .inl hheld⟩
      · refine mem_pending.mpr ⟨halive, .inr ?_⟩
        have htake : item ∈ s.queue.take s.worker.pops := hqueued
        unfold remaining
        split
        · exact htake
        · exact List.mem_of_mem_take htake
  | closing =>
      obtain ⟨pc, rfl, -⟩ := closing_cases hstep
      exact .inl hitem

/-- A thread with something pending comes closer to putting the first item, or
puts it. -/
theorem exists_progress (nbytes : τ → Nat) (hrate : 0 < cfg.rateBps)
    {item : κ × τ} {rest : List (κ × τ)} (hpending : s.pending = item :: rest) (now : ℚ) :
    ∃ t, s.workerStep cfg nbytes now = some t ∧
      (t.pending = s.pending ∧ t.worker.distance < s.worker.distance ∧
          (∀ item, s.worker ≠ .put item) ∨
        t.pending = rest ∧ s.worker = .put item) := by
  unfold pending remaining at hpending
  cases hpc : s.worker with
  | top =>
      cases hstop : s.stop with
      | true =>
          simp [hpc, hstop, ended, SoftPc.item?, SoftPc.pops] at hpending
      | false =>
          refine ⟨_, by simp [workerStep, hpc, hstop]; rfl, .inl ⟨?_, ?_, ?_⟩⟩
          · simp [pending, remaining, hpc, hstop, ended, SoftPc.item?]
          · simp [SoftPc.distance]
          · simp
  | acquire | waiting =>
      refine ⟨_, by simp [workerStep, hpc]; rfl, .inl ⟨?_, ?_, ?_⟩⟩
      · simp [pending, remaining, hpc, ended, SoftPc.item?, SoftPc.pops]
      · simp [SoftPc.distance]
      · simp
  | inner =>
      have hqueue : s.queue ≠ [] := by
        intro hempty
        simp [hpc, hempty, ended, SoftPc.item?] at hpending
      refine ⟨_, by simp [workerStep, hpc, hqueue]; rfl, .inl ⟨?_, ?_, ?_⟩⟩
      · simp [pending, remaining, hpc, ended, SoftPc.item?, SoftPc.pops]
      · simp [SoftPc.distance]
      · simp
  | decide =>
      cases hq : s.queue with
      | nil => simp [hpc, hq, ended, SoftPc.item?] at hpending
      | cons first queue =>
          refine ⟨_, by simp [workerStep, hpc, hq]; rfl, .inl ⟨?_, ?_, ?_⟩⟩
          · cases hstop : s.stop <;>
              simp [pending, remaining, hpc, hq, hstop, ended, SoftPc.item?,
                SoftPc.pops]
          · simp [SoftPc.distance]
          · simp
  | refill first =>
      refine ⟨_, by simp [workerStep, hpc]; rfl, .inl ⟨?_, ?_, ?_⟩⟩
      · by_cases hlow : s.refilled cfg now < nbytes first.2 <;>
          simp [pending, remaining, hpc, hlow, ended, SoftPc.item?, SoftPc.pops]
      · dsimp only
        split <;> simp [SoftPc.distance]
      · simp
  | sleep first =>
      have hcan : cfg.canSleep (nbytes first.2) :=
        ⟨hrate.ne', div_nonneg (Nat.cast_nonneg _) hrate.le⟩
      refine ⟨_, by simp [workerStep, hpc, hcan]; rfl, .inl ⟨?_, ?_, ?_⟩⟩
      · simp [pending, remaining, hpc, ended, SoftPc.item?, SoftPc.pops]
      · simp [SoftPc.distance]
      · simp
  | put first =>
      simp [hpc, ended, SoftPc.item?, SoftPc.pops] at hpending
      obtain ⟨rfl, hrest⟩ := hpending
      refine ⟨_, by simp [workerStep, hpc]; rfl, .inr ⟨?_, rfl⟩⟩
      simpa [pending, remaining, ended, SoftPc.item?, SoftPc.pops] using hrest
  | exited | crashed first => simp [hpc, ended] at hpending

end SoftAbsorber

namespace SoftBackend

variable {β κ τ : Type*} {store : KeyStore β κ τ} {cfg : SoftConfig}
  {nbytes : τ → Nat} {cpu : τ → τ} {s t : SoftBackend β κ τ} {key : κ}

/-- `key` is not found, and nothing under it is pending. -/
structure Gone (store : KeyStore β κ τ) (s : SoftBackend β κ τ) (key : κ) :
    Prop where
  get_eq : s.get store key = none
  pending : ∀ item ∈ s.absorber.pending, item.1 ≠ key

/-- A step of the absorber that puts nothing to the store. -/
theorem Gone.absorber (h : s.Gone store key) {e : SoftAbsorber.Event κ τ}
    {absorber : SoftAbsorber κ τ}
    (hstep : s.absorber.step cfg nbytes e = some absorber)
    (hspares : ∀ tensor, e ≠ .absorb key tensor) :
    Gone store { s with absorber } key where
  get_eq := h.get_eq
  pending := by
    intro item hitem
    rcases SoftAbsorber.pending_of_step hstep hitem with hold | habsorb
    · exact h.pending item hold
    · rintro rfl
      exact hspares item.2 habsorb

theorem Gone.step (h : s.Gone store key) {e : Event κ τ}
    (hspares : e.Spares key) (hstep : s.step store cfg nbytes cpu e = some t) :
    t.Gone store key := by
  cases e with
  | put key' kvTensor =>
      obtain ⟨absorber, habsorber, rfl⟩ := Option.map_eq_some_iff.mp hstep
      refine h.absorber habsorber fun tensor heq => ?_
      exact hspares (SoftAbsorber.Event.absorb.inj heq).1
  | delete key' =>
      obtain rfl := Option.some.inj hstep
      refine ⟨?_, h.pending⟩
      by_cases hkey : key' = key
      · rw [hkey]
        exact store.get_delete s.backing key
      · exact (store.get_delete_of_ne s.backing hkey).trans h.get_eq
  | close =>
      obtain ⟨absorber, habsorber, rfl⟩ := Option.map_eq_some_iff.mp hstep
      exact h.absorber habsorber (by simp)
  | closing =>
      obtain ⟨absorber, habsorber, rfl⟩ := Option.map_eq_some_iff.mp hstep
      exact h.absorber habsorber (by simp)
  | worker now =>
      obtain ⟨absorber, habsorber, rfl⟩ := Option.map_eq_some_iff.mp hstep
      refine ⟨?_, (h.absorber habsorber (by simp)).pending⟩
      dsimp only [get, flushed]
      split
      · next item hpc =>
          have hkey := h.pending item (SoftAbsorber.mem_pending_of_put hpc)
          exact (store.get_put_of_ne s.backing item.2 hkey).trans h.get_eq
      · exact h.get_eq

theorem Gone.staysDeleted (h : s.Gone store key) :
    s.StaysDeleted store cfg nbytes cpu key := by
  intro t hrun
  have ht : t.Gone store key := by
    apply hrun.invariant h
    intro s e t hs hspares hstep
    exact hs.step hspares hstep
  refine ⟨ht.get_eq, ?_⟩
  calc store.contains t.backing key
      = (t.get store key).isSome := store.contains_eq t.backing key
    _ = false := by rw [ht.get_eq]; rfl

/-- The flush thread runs by itself from `s` to `t`. -/
def Flushes (store : KeyStore β κ τ) (cfg : SoftConfig) (nbytes : τ → Nat)
    (cpu : τ → τ) (s t : SoftBackend β κ τ) : Prop :=
  Reach (step store cfg nbytes cpu) (fun _ e => ∃ now, e = .worker now) s t

variable (store nbytes cpu) in
/-- The thread puts the first item that is pending. -/
theorem exists_flush (hrate : 0 < cfg.rateBps) {item : κ × τ}
    {rest : List (κ × τ)} (hpending : s.absorber.pending = item :: rest) :
    ∃ t, Flushes store cfg nbytes cpu s t ∧ t.absorber.pending = rest ∧
      t.backing = store.put s.backing item.1 item.2 := by
  -- by induction on how far the thread is from the put
  generalize hrank : s.absorber.worker.distance = n
  induction n using Nat.strong_induction_on generalizing s with
  | _ n ih =>
      obtain ⟨absorber, hstep, hmoved⟩ :=
        SoftAbsorber.exists_progress nbytes hrate hpending 0
      have hworker : s.step store cfg nbytes cpu (.worker 0) =
          some { s with absorber, backing := s.flushed store } := by
        simp [step, SoftAbsorber.step, hstep]
      rcases hmoved with ⟨hsame, hcloser, hidle⟩ | ⟨hrest, hpc⟩
      · have hbacking : s.flushed store = s.backing := by
          unfold flushed
          split
          · next other hput => exact absurd hput (hidle other)
          · rfl
        obtain ⟨t, hrun, hend⟩ := ih _ (hrank ▸ hcloser)
          (s := { s with absorber, backing := s.flushed store })
          (hsame.trans hpending) rfl
        refine ⟨t, Reach.head ⟨0, rfl⟩ hworker hrun, ?_⟩
        dsimp only at hend
        rwa [hbacking] at hend
      · refine ⟨_, Reach.refl.tail ⟨0, rfl⟩ hworker, hrest, ?_⟩
        dsimp only [flushed]
        rw [hpc]

variable (store nbytes cpu) in
/-- What is pending is put in the end. -/
theorem exists_found (hrate : 0 < cfg.rateBps) {item : κ × τ}
    (hitem : item ∈ s.absorber.pending) :
    ∃ t, Flushes store cfg nbytes cpu s t ∧ t.get store item.1 ≠ none := by
  generalize hpending : s.absorber.pending = items at hitem
  induction items generalizing s with
  | nil => cases hitem
  | cons first rest ih =>
      obtain ⟨t, hflush, hrest, hbacking⟩ :=
        exists_flush store nbytes cpu hrate hpending
      rcases List.mem_cons.mp hitem with rfl | hlater
      · refine ⟨t, hflush, ?_⟩
        have hget : t.get store item.1 = some item.2 := by
          unfold get
          rw [hbacking]
          exact store.get_put s.backing item.1 item.2
        simp [hget]
      · obtain ⟨u, hflush', hfound⟩ := ih hrest hlater
        exact ⟨u, Reach.trans hflush hflush', hfound⟩

/-- **A deleted key stays deleted when nothing under it is pending.**  When the
thread can sleep, this is the only case: whatever is pending under the key is
put to the store after it has been deleted. -/
theorem delete_staysDeleted_iff (store : KeyStore β κ τ) (cfg : SoftConfig)
    (nbytes : τ → Nat) (cpu : τ → τ) (s t : SoftBackend β κ τ) (key : κ)
    (hdelete : s.step store cfg nbytes cpu (.delete key) = some t) :
    ((∀ item ∈ s.absorber.pending, item.1 ≠ key) →
        t.StaysDeleted store cfg nbytes cpu key) ∧
      (0 < cfg.rateBps → t.StaysDeleted store cfg nbytes cpu key →
        ∀ item ∈ s.absorber.pending, item.1 ≠ key) := by
  obtain rfl := Option.some.inj hdelete
  constructor
  · intro hpending
    have hgone : Gone store { s with backing := store.delete s.backing key }
        key := ⟨store.get_delete s.backing key, hpending⟩
    exact hgone.staysDeleted
  · intro hrate hstays item hitem hkey
    obtain ⟨u, hflush, hfound⟩ := exists_found store nbytes cpu
      (s := { s with backing := store.delete s.backing key }) hrate hitem
    have hspares : Reach (step store cfg nbytes cpu) (fun _ e => e.Spares key)
        { s with backing := store.delete s.backing key } u := by
      apply hflush.recond
      rintro _ _ - ⟨now, rfl⟩
      trivial
    rw [hkey] at hfound
    exact hfound (hstays u hspares).1

/-- The thread takes up an item that is there, and puts it. -/
def flushOne : List (Event Nat Nat) := List.replicate 6 (.worker 0)

/-- A key is put and deleted; then the thread puts it to the store. -/
theorem deleted_key_returns :
    ¬ ∀ (cfg : SoftConfig) (nbytes cpu : Nat → Nat) (now : ℚ)
      (b : Nat → Option Nat) (s t u : SoftBackend (Nat → Option Nat) Nat Nat)
      (key : Nat),
      Reachable (step KeyStore.ofFun cfg nbytes cpu) (init cfg now b) s →
      s.step KeyStore.ofFun cfg nbytes cpu (.delete key) = some t →
      Reach (step KeyStore.ofFun cfg nbytes cpu) (fun _ e => e.Spares key)
        t u →
      u.get KeyStore.ofFun key = none ∧
        u.contains KeyStore.ofFun key = false := by
  intro hall
  obtain ⟨s, hs, t, ht, hspares, u, hu, hfound⟩ :
      ∃ s, Reachable (step KeyStore.ofFun {} id id) (init {} 0 fun _ => none)
          s ∧
        ∃ t ∈ s.step KeyStore.ofFun {} id id (.delete 1),
          Meets (step KeyStore.ofFun {} id id) (fun _ e => e.Spares 1) t
            flushOne ∧
          ∃ u ∈ exec (step KeyStore.ofFun {} id id) t flushOne,
            u.get KeyStore.ofFun 1 = some 100 :=
    Reachable.exists_of_exec [.put 1 100] (by decide +kernel)
  have hgone := (hall {} id id 0 _ s t u 1 hs ht (.of_exec hu hspares)).1
  rw [hfound] at hgone
  cases hgone

/-- One key has been put to the store and another is pending. -/
theorem delete_staysDeleted_flushed :
    ∃ s t : SoftBackend (Nat → Option Nat) Nat Nat,
      s.get KeyStore.ofFun 1 = some 100 ∧
      s.step KeyStore.ofFun {} id id (.delete 1) = some t ∧
      t.StaysDeleted KeyStore.ofFun {} id id 1 := by
  obtain ⟨s, -, hfound, hpending⟩ :
      ∃ s, Reachable (step KeyStore.ofFun {} id id) (init {} 0 fun _ => none)
          s ∧
        s.get KeyStore.ofFun 1 = some 100 ∧
        s.absorber.pending = [(2, 200)] :=
    Reachable.exists_of_exec ([.put 1 100] ++ flushOne ++ [.put 2 200])
      (by decide +kernel)
  refine ⟨s, _, hfound, rfl, ?_⟩
  apply (delete_staysDeleted_iff KeyStore.ofFun {} id id s _ 1 rfl).1
  simp [hpending]

end SoftBackend

end Tempo
