import Tempo.PacingLifecycle
import Tempo.StorageBackend

/-!
# The two paths of a put

Built on libtempo, `TEMPOStorageBackend.put` calls `tempo_absorb` and puts the
tensor to the backing store itself when the ring refuses it.  A block that the
ring accepts is drained by the pacing daemon, which writes it to the Lustre
file; nobody puts it to the backing store, which is what `get` and `contains`
read.  The soft absorber puts every tensor there.  The two paths leave the same
contents exactly when the store already held what the accepted puts put.
-/

namespace Tempo

open Runs

/-- What `put` asks of keys and tensors: `hash(key)` cut to 64 bits, `nbytes`,
`data_ptr()`, and the copy to the CPU. -/
structure TensorApi (κ τ : Type*) where
  hash : κ → UInt64
  nbytes : τ → Nat
  dataPtr : τ → UInt64
  cpu : τ → τ

/-- The block that `tempo_absorb` makes, all other fields zero. -/
def TensorApi.block {κ τ : Type*} (api : TensorApi κ τ) (item : κ × τ) :
    KVBlock :=
  { blockId := api.hash item.1
    layerIdx := 0
    numTokens := 0
    hostPtr := api.dataPtr item.2
    sizeBytes := UInt64.ofNat (api.nbytes item.2)
    dstTier := 0
    pad := 0 }

/-- Where the caller of `put` stands. -/
inductive PutPc (α : Type*)
  | idle
  /-- in `tempo_absorb` -/
  | absorbing (item : α)
  /-- `self._backing.put`, after an overflow -/
  | fallback (item : α)
  deriving DecidableEq

/-- The item of the call in progress. -/
def PutPc.item? {α : Type*} : PutPc α → Option α
  | .idle => none
  | .absorbing item | .fallback item => some item

/-- The backend built on libtempo, with one caller; `calls`, `accepted` and
`refused` are histories of the items put, with the tensors on the CPU. -/
structure EngineBackend (cap : Capacity) (β κ τ : Type*) where
  engine : PacingProcess cap Unit
  backing : β
  call : PutPc (κ × τ) := .idle
  calls : List (κ × τ) := []
  accepted : List (κ × τ) := []
  refused : List (κ × τ) := []

namespace EngineBackend

variable {cap : Capacity} {β κ τ : Type*}

inductive Event (κ τ : Type*)
  | put (key : κ) (kvTensor : τ)
  /-- the next access of `absorb` -/
  | absorb
  /-- its compare-and-swap fails spuriously -/
  | spurious
  /-- the next statement of the fallback -/
  | fallback
  /-- the engine calls `start` on its daemon -/
  | start
  | owner (ok : Bool)
  | thread (i : ThreadInput)
  | kernel (i : Nat)

def init (cfg : ProcessConfig) (found : Fin cap.size → KVBlock) (now : Nat)
    (backing : β) : EngineBackend cap β κ τ :=
  { engine := .init cfg found now, backing }

variable (store : KeyStore β κ τ) (api : TensorApi κ τ)

def get (s : EngineBackend cap β κ τ) (key : κ) : Option τ :=
  store.get s.backing key

def contains (s : EngineBackend cap β κ τ) (key : κ) : Bool :=
  store.contains s.backing key

/-- The engine makes a step of its own. -/
def engineStep (cfg : ProcessConfig) (s : EngineBackend cap β κ τ)
    (e : PacingProcess.Event Unit) : Option (EngineBackend cap β κ τ) :=
  (s.engine.step cfg e).map fun engine => { s with engine }

/-- `_c_absorb` calls `tempo_absorb`, which refuses null pointers and empty
blocks at once. -/
def cAbsorb (cfg : ProcessConfig) (s : EngineBackend cap β κ τ)
    (item : κ × τ) : Option (EngineBackend cap β κ τ) :=
  let s := { s with calls := s.calls ++ [item] }
  if (api.block item).hostPtr = 0 ∨ (api.block item).sizeBytes = 0 then
    some { s with call := .fallback item }
  else
    (s.engineStep cfg (.absorb () (api.block item))).map fun s =>
      { s with call := .absorbing item }

/-- The next access of `absorb`, up to the return of `tempo_absorb`. -/
def absorbStep (cfg : ProcessConfig) (s : EngineBackend cap β κ τ)
    (item : κ × τ) : Option (EngineBackend cap β κ τ) :=
  (s.engineStep cfg (.producer ())).map fun t =>
    match s.engine.loop.absorber.producer (some ()) with
    | .accept _ _ => { t with call := .idle, accepted := t.accepted ++ [item] }
    | .refuse _ => { t with call := .fallback item }
    | _ => t

/-- One step of the caller, of the engine's thread or of the kernel. -/
def step (cfg : ProcessConfig) (s : EngineBackend cap β κ τ) :
    Event κ τ → Option (EngineBackend cap β κ τ)
  | .put key kvTensor =>
      match s.call with
      | .idle => s.cAbsorb api cfg (key, api.cpu kvTensor)
      | _ => none
  | .absorb =>
      match s.call with
      | .absorbing item => s.absorbStep cfg item
      | _ => none
  | .spurious => s.engineStep cfg (.spurious ())
  | .fallback =>
      match s.call with
      | .fallback item =>
          some { s with
            backing := store.put s.backing item.1 item.2
            call := .idle
            refused := s.refused ++ [item] }
      | _ => none
  | .start => s.engineStep cfg .start
  | .owner ok => s.engineStep cfg (.owner ok)
  | .thread i => s.engineStep cfg (.thread i)
  | .kernel i => s.engineStep cfg (.kernel i)

/-- Every call has been refused and fallen back to the store, or been accepted,
or is in progress; only the refused ones reach the store. -/
structure Accounted (b : β) (s : EngineBackend cap β κ τ) : Prop where
  backing : s.backing = store.putAll b s.refused
  calls : s.calls.Perm (s.accepted ++ s.refused ++ s.call.item?.toList)

variable {store api} {cfg : ProcessConfig} {b : β}
  {s t : EngineBackend cap β κ τ}

theorem Accounted.engine (h : s.Accounted store b)
    {e : PacingProcess.Event Unit} (hstep : s.engineStep cfg e = some t) :
    t.Accounted store b ∧ t.call = s.call := by
  obtain ⟨engine, -, rfl⟩ := Option.map_eq_some_iff.mp hstep
  exact ⟨⟨h.backing, h.calls⟩, rfl⟩

/-- A call begins. -/
theorem Accounted.put (h : s.Accounted store b) (hcall : s.call = .idle)
    {engine : PacingProcess cap Unit} {item : κ × τ} {call : PutPc (κ × τ)}
    (hitem : call.item? = some item) :
    Accounted store b
      { s with engine, calls := s.calls ++ [item], call } where
  backing := h.backing
  calls := by
    have hcalls : s.calls.Perm (s.accepted ++ s.refused) := by
      simpa [hcall, PutPc.item?] using h.calls
    dsimp only
    rw [hitem]
    exact hcalls.append_right [item]

theorem Accounted.cAbsorb (h : s.Accounted store b) (hcall : s.call = .idle)
    {item : κ × τ} (hstep : s.cAbsorb api cfg item = some t) :
    t.Accounted store b := by
  unfold EngineBackend.cAbsorb at hstep
  split at hstep
  · obtain rfl := Option.some.inj hstep
    exact h.put hcall rfl
  · obtain ⟨u, hengine, rfl⟩ := Option.map_eq_some_iff.mp hstep
    obtain ⟨engine, -, rfl⟩ := Option.map_eq_some_iff.mp hengine
    exact h.put hcall rfl

/-- The call in progress goes on, falls back, or returns true. -/
theorem Accounted.absorbStep (h : s.Accounted store b) {item : κ × τ}
    (hcall : s.call = .absorbing item)
    (hstep : s.absorbStep cfg item = some t) : t.Accounted store b := by
  obtain ⟨u, hengine, rfl⟩ := Option.map_eq_some_iff.mp hstep
  obtain ⟨hu, hsame⟩ := h.engine hengine
  have hcalls := hu.calls
  rw [hsame, hcall] at hcalls
  split
  · refine ⟨hu.backing, ?_⟩
    simp only [PutPc.item?, Option.toList, List.append_nil,
      List.append_assoc] at hcalls ⊢
    exact hcalls.trans (List.perm_append_comm.append_left _)
  · exact ⟨hu.backing, hcalls⟩
  · exact hu

theorem Accounted.step (h : s.Accounted store b) {e : Event κ τ}
    (hstep : s.step store api cfg e = some t) : t.Accounted store b := by
  cases e with
  | put key kvTensor =>
      cases hcall : s.call with
      | idle =>
          apply h.cAbsorb hcall
          simpa [EngineBackend.step, hcall] using hstep
      | _ => simp [EngineBackend.step, hcall] at hstep
  | absorb =>
      cases hcall : s.call with
      | absorbing item =>
          apply h.absorbStep hcall
          simpa [EngineBackend.step, hcall] using hstep
      | _ => simp [EngineBackend.step, hcall] at hstep
  | fallback =>
      cases hcall : s.call with
      | fallback item =>
          obtain rfl := by simpa [EngineBackend.step, hcall] using hstep
          have hcalls := h.calls
          rw [hcall] at hcalls
          refine ⟨?_, ?_⟩
          · dsimp only
            rw [h.backing, KeyStore.putAll_concat]
          · simpa [PutPc.item?] using hcalls
      | _ => simp [EngineBackend.step, hcall] at hstep
  | spurious => exact (h.engine hstep).1
  | start => exact (h.engine hstep).1
  | owner ok => exact (h.engine hstep).1
  | thread i => exact (h.engine hstep).1
  | kernel i => exact (h.engine hstep).1

theorem accounted_init (cfg : ProcessConfig) (found : Fin cap.size → KVBlock)
    (now : Nat) (b : β) :
    Accounted store b (init cfg found now b : EngineBackend cap β κ τ) where
  backing := rfl
  calls := .refl _

/-- Everything the ring has accepted is done with: the loop holds no block, the
ring holds none, and io_uring has nothing left. -/
def Processed (s : EngineBackend cap β κ τ) : Prop :=
  s.engine.loop.ringTickets = [] ∧ s.engine.loop.ticket = none ∧
    s.engine.uring.elim [] (·.outstanding) = []

instance (s : EngineBackend cap β κ τ) : Decidable s.Processed :=
  inferInstanceAs (Decidable (_ ∧ _ ∧ _))

end EngineBackend

namespace SoftBackend

variable {β κ τ : Type*} {store : KeyStore β κ τ} {cfg : SoftConfig}
  {nbytes : τ → Nat} {cpu : τ → τ} {b : β} {s t : SoftBackend β κ τ}

/-- Nothing is deleted. -/
def Event.Keeps : Event κ τ → Prop
  | .delete _ => False
  | _ => True

instance : ∀ e : Event κ τ, Decidable e.Keeps
  | .delete _ => isFalse id
  | .put _ _ | .close | .closing | .worker _ => isTrue trivial

/-- The backing store holds what the thread has put. -/
structure Flushed (store : KeyStore β κ τ) (b : β) (s : SoftBackend β κ τ) :
    Prop where
  intact : s.absorber.Intact
  backing : s.backing = store.putAll b s.absorber.puts

/-- A step of the absorber that puts nothing to the store. -/
theorem Flushed.absorber (h : s.Flushed store b)
    {e : SoftAbsorber.Event κ τ} {absorber : SoftAbsorber κ τ}
    (hstep : s.absorber.step cfg nbytes e = some absorber)
    (hputs : absorber.puts = s.absorber.puts) :
    Flushed store b { s with absorber } where
  intact := h.intact.step hstep
  backing := by
    dsimp only
    rw [hputs]
    exact h.backing

theorem Flushed.step (h : s.Flushed store b) {e : Event κ τ}
    (hkeeps : e.Keeps) (hstep : s.step store cfg nbytes cpu e = some t) :
    t.Flushed store b := by
  cases e with
  | put key kvTensor =>
      obtain ⟨absorber, habsorber, rfl⟩ := Option.map_eq_some_iff.mp hstep
      refine h.absorber habsorber ?_
      obtain ⟨-, rfl⟩ := by simpa [SoftAbsorber.step] using habsorber
      rfl
  | delete key => exact hkeeps.elim
  | close =>
      obtain ⟨absorber, habsorber, rfl⟩ := Option.map_eq_some_iff.mp hstep
      refine h.absorber habsorber ?_
      obtain ⟨-, rfl⟩ := by simpa [SoftAbsorber.step] using habsorber
      rfl
  | closing =>
      obtain ⟨absorber, habsorber, rfl⟩ := Option.map_eq_some_iff.mp hstep
      refine h.absorber habsorber ?_
      obtain ⟨pc, rfl, -⟩ := SoftAbsorber.closing_cases habsorber
      rfl
  | worker now =>
      obtain ⟨absorber, habsorber, rfl⟩ := Option.map_eq_some_iff.mp hstep
      refine ⟨h.intact.step habsorber, ?_⟩
      dsimp only [flushed]
      split
      · next item hpc =>
          obtain rfl := by
            simpa [SoftAbsorber.step, SoftAbsorber.workerStep, hpc]
              using habsorber
          rw [KeyStore.putAll_concat, h.backing]
      · next hidle =>
          obtain ⟨-, ⟨w, tokens, lastT, rfl, -⟩ | ⟨item, rest, -, -, rfl⟩ |
            ⟨item, tokens, hpc, rfl⟩⟩ := SoftAbsorber.workerStep_cases habsorber
          · exact h.backing
          · exact h.backing
          · exact absurd hpc (hidle item)

theorem flushed_init (cfg : SoftConfig) (now : ℚ) (b : β) :
    Flushed store b (init cfg now b : SoftBackend β κ τ) where
  intact := SoftAbsorber.intact_init now
  backing := rfl

/-- Everything absorbed is done with: nothing is queued, and the thread holds no
item. -/
def Processed (s : SoftBackend β κ τ) : Prop :=
  s.absorber.queue = [] ∧ s.absorber.worker.item? = none

theorem Flushed.processed (h : s.Flushed store b) (hdone : s.Processed) :
    s.backing = store.putAll b s.absorber.absorbed := by
  have hall := h.intact
  unfold SoftAbsorber.Intact at hall
  rw [hdone.1, hdone.2] at hall
  rw [hall, h.backing]
  simp

end SoftBackend

/-- **The paths store the same where the store held it already.**  After the
same puts, with different hashes, and when everything is processed, the backend
on libtempo finds what the backend on the soft absorber finds exactly when the
store held, before the puts, what those accepted by the ring put. -/
theorem paths_agree_iff {cap : Capacity} {β κ τ : Type*}
    (store : KeyStore β κ τ) (api : TensorApi κ τ) (cfg : SoftConfig)
    (pcfg : ProcessConfig) (found : Fin cap.size → KVBlock) (start : ℚ)
    (now : Nat) (b : β) (s : SoftBackend β κ τ) (c : EngineBackend cap β κ τ)
    (hsoft : Reach (SoftBackend.step store cfg api.nbytes api.cpu)
      (fun _ e => e.Keeps) (SoftBackend.init cfg start b) s)
    (hengine : Reachable (EngineBackend.step store api pcfg)
      (EngineBackend.init pcfg found now b) c)
    (hsame : s.absorber.absorbed = c.calls)
    (hhash : (c.calls.map fun item => api.hash item.1).Nodup)
    (hdone : s.Processed) (hidle : c.call = .idle) :
    (∀ key, s.get store key = c.get store key ∧
        s.contains store key = c.contains store key) ↔
      ∀ item ∈ c.accepted, store.get b item.1 = some item.2 := by
  have hs : s.Flushed store b := by
    apply hsoft.invariant (SoftBackend.flushed_init cfg start b)
    intro s e t hs hkeeps hstep
    exact hs.step hkeeps hstep
  have hc : c.Accounted store b := by
    apply hengine.invariant (EngineBackend.accounted_init pcfg found now b)
    intro s e t hs _ hstep
    exact hs.step hstep
  have hbacking : s.backing = store.putAll b c.calls := by
    rw [hs.processed hdone, hsame]
  have hperm : c.calls.Perm (c.accepted ++ c.refused) := by
    simpa [hidle, PutPc.item?] using hc.calls
  have hkeys : (c.calls.map Prod.fst).Nodup := by
    apply List.Nodup.of_map api.hash
    rwa [List.map_map]
  rw [← KeyStore.get_putAll_eq_iff hperm hkeys, ← hbacking, ← hc.backing]
  constructor
  · exact fun hsame key => (hsame key).1
  · exact fun hsame key => ⟨hsame key, KeyStore.contains_congr (hsame key)⟩

/-- Keys that are their hashes, and tensors given by their size. -/
def sizedApi : TensorApi Nat Nat :=
  { hash := UInt64.ofNat
    nbytes := id
    dataPtr := fun _ => 4096
    cpu := id }

open EngineBackend in
/-- The engine starts its daemon and a tensor is put, which the ring accepts;
then the daemon writes it, and the write completes. -/
def acceptedEvents : List (EngineBackend.Event Nat Nat) :=
  [Event.start, .owner true, .owner true, .owner true, .put 1 100] ++
    List.replicate 6 Event.absorb ++ [Event.thread (.opened true)] ++
    List.replicate 8 (Event.thread .next) ++
    [Event.thread (.clock 0), .thread .next, .thread (.submitted 1), .kernel 0,
      .thread .next]

/-- The soft absorber finds the tensor, and the engine does not. -/
theorem paths_disagree :
    ¬ ∀ (api : TensorApi Nat Nat) (cfg : SoftConfig) (pcfg : ProcessConfig)
      (found : Fin PacingProcess.pair.size → KVBlock) (start : ℚ) (now : Nat)
      (b : Nat → Option Nat) (s : SoftBackend (Nat → Option Nat) Nat Nat)
      (c : EngineBackend PacingProcess.pair (Nat → Option Nat) Nat Nat),
      Reach (SoftBackend.step KeyStore.ofFun cfg api.nbytes api.cpu)
        (fun _ e => e.Keeps) (SoftBackend.init cfg start b) s →
      Reachable (EngineBackend.step KeyStore.ofFun api pcfg)
        (EngineBackend.init pcfg found now b) c →
      s.absorber.absorbed = c.calls →
      (c.calls.map fun item => api.hash item.1).Nodup →
      s.Processed → c.Processed → c.call = .idle →
      ∀ key, s.get KeyStore.ofFun key = c.get KeyStore.ofFun key ∧
        s.contains KeyStore.ofFun key = c.contains KeyStore.ofFun key := by
  intro hall
  obtain ⟨s, hs, habsorbed, hdone, hfound⟩ :
      ∃ s, Reach (SoftBackend.step KeyStore.ofFun {} id id)
          (fun _ e => e.Keeps) (SoftBackend.init {} 0 fun _ => none) s ∧
        s.absorber.absorbed = [(1, 100)] ∧
        (s.absorber.queue = [] ∧ s.absorber.worker.item? = none) ∧
        s.get KeyStore.ofFun 1 = some 100 :=
    Reach.exists_of_exec ([.put 1 100] ++ SoftBackend.flushOne)
      (by decide +kernel) (by decide +kernel)
  obtain ⟨c, hc, hcalls, hidle, hdone', hmissing⟩ :
      ∃ c, Reachable (EngineBackend.step KeyStore.ofFun sizedApi {})
          (EngineBackend.init {} (fun _ => SpikeAbsorber.blockOf 0) 0
            fun _ => none :
            EngineBackend PacingProcess.pair (Nat → Option Nat) Nat Nat) c ∧
        c.calls = [(1, 100)] ∧ c.call = .idle ∧ c.Processed ∧
        c.get KeyStore.ofFun 1 = none :=
    Reachable.exists_of_exec acceptedEvents (by decide +kernel)
  have hagree := (hall sizedApi {} {} _ 0 0 _ s c hs hc
    (habsorbed.trans hcalls.symm) (by simp [hcalls]) hdone hdone' hidle 1).1
  rw [hfound, hmissing] at hagree
  cases hagree

open EngineBackend in
/-- Three tensors for a ring of two: the third falls back to the store. -/
def overflowEvents : List (EngineBackend.Event Nat Nat) :=
  [Event.put 1 100] ++ List.replicate 6 Event.absorb ++
    [Event.put 2 200] ++ List.replicate 6 Event.absorb ++
    [Event.put 3 300] ++ List.replicate 3 Event.absorb ++ [Event.fallback]

/-- The store held the two that the ring accepts. -/
theorem paths_agree_overflow :
    ∃ (s : SoftBackend (Nat → Option Nat) Nat Nat)
      (c : EngineBackend PacingProcess.pair (Nat → Option Nat) Nat Nat),
      c.accepted = [(1, 100), (2, 200)] ∧ c.refused = [(3, 300)] ∧
      ∀ key, s.get KeyStore.ofFun key = c.get KeyStore.ofFun key ∧
        s.contains KeyStore.ofFun key = c.contains KeyStore.ofFun key := by
  let held : Nat → Option Nat := fun k => if k < 3 then some (100 * k) else none
  obtain ⟨s, hs, habsorbed, hdone⟩ :
      ∃ s, Reach (SoftBackend.step KeyStore.ofFun {} id id)
          (fun _ e => e.Keeps) (SoftBackend.init {} 0 held) s ∧
        s.absorber.absorbed = [(1, 100), (2, 200), (3, 300)] ∧
        (s.absorber.queue = [] ∧ s.absorber.worker.item? = none) :=
    Reach.exists_of_exec ([.put 1 100, .put 2 200, .put 3 300] ++
      SoftBackend.flushOne ++ SoftBackend.flushOne ++ SoftBackend.flushOne)
      (by decide +kernel) (by decide +kernel)
  obtain ⟨c, hc, hcalls, haccepted, hrefused, hidle⟩ :
      ∃ c, Reachable (EngineBackend.step KeyStore.ofFun sizedApi {})
          (EngineBackend.init {} (fun _ => SpikeAbsorber.blockOf 0) 0 held :
            EngineBackend PacingProcess.pair (Nat → Option Nat) Nat Nat) c ∧
        c.calls = [(1, 100), (2, 200), (3, 300)] ∧
        c.accepted = [(1, 100), (2, 200)] ∧ c.refused = [(3, 300)] ∧
        c.call = .idle :=
    Reachable.exists_of_exec overflowEvents (by decide +kernel)
  refine ⟨s, c, haccepted, hrefused, ?_⟩
  apply (paths_agree_iff KeyStore.ofFun sizedApi {} {} _ 0 0 held s c hs hc
    (habsorbed.trans hcalls.symm) (by rw [hcalls]; decide +kernel) hdone
    hidle).2
  rw [haccepted]
  decide +kernel

end Tempo
