import Mathlib.Data.Finset.Card
import Mathlib.Data.Finset.Range
import Tempo.BitFields
import Tempo.GpuDriven

/-!
# The doorbell token

`_doorbell_trigger` packs the handle of a descriptor, its traffic class and its length
into the 64 bits that the NIC reads.  The class goes four bits below the top of the
field that is documented for it, so only class 0 reads back; and of a handle, which is
never given out twice, 16 bits are kept, so that after 65536 registrations a new
descriptor can look like one that is still there (`decodable_iff`).
-/

namespace Tempo

open BitFields Runs

namespace GpuDriven

/-- Bits 63 to 48. -/
def indexSlot : Slot where
  lo := 48
  width := 16

/-- Bits 47 to 32. -/
def classSlot : Slot where
  lo := 32
  width := 16

/-- Bits 31 to 0. -/
def lengthSlot : Slot where
  lo := 0
  width := 32

/-- What a token says by the documented layout. -/
structure Decoded where
  index : Nat
  tc : Nat
  length : Nat
  deriving DecidableEq

def decode (token : Nat) : Decoded where
  index := indexSlot.get token
  tc := classSlot.get token
  length := lengthSlot.get token

/-- `token_val` of `_doorbell_trigger`. -/
def tokenVal (handleId : Nat) (desc : TransferDescriptor) : Nat :=
  ((handleId &&& 0xFFFF) <<< 48) |||
    ((desc.tc &&& 0x7) <<< 44) |||
    (desc.length &&& 0xFFFFFFFF)

/-- The bits that the class is put into. -/
def writtenSlot : Slot where
  lo := 44
  width := 3

variable {handleId : Nat} {desc : TransferDescriptor}

theorem tokenVal_eq : tokenVal handleId desc =
    indexSlot.put handleId ||| writtenSlot.put desc.tc ||| lengthSlot.put desc.length := by
  have hindex : handleId &&& 0xFFFF = handleId % 2 ^ 16 :=
    Nat.and_two_pow_sub_one_eq_mod handleId 16
  have hclass : desc.tc &&& 0x7 = desc.tc % 2 ^ 3 :=
    Nat.and_two_pow_sub_one_eq_mod desc.tc 3
  have hlength : desc.length &&& 0xFFFFFFFF = desc.length % 2 ^ 32 :=
    Nat.and_two_pow_sub_one_eq_mod desc.length 32
  unfold tokenVal
  rw [hindex, hclass, hlength]
  rfl

/-- The token fits the 64 bits it is packed into. -/
theorem tokenVal_lt : tokenVal handleId desc < 2 ^ 64 := by
  have hindex : indexSlot.put handleId < 2 ^ 64 := Slot.put_lt
  have hclass : writtenSlot.put desc.tc < 2 ^ 64 :=
    Slot.put_lt.trans_le (Nat.pow_le_pow_right (by decide) (by decide))
  have hlength : lengthSlot.put desc.length < 2 ^ 64 :=
    Slot.put_lt.trans_le (Nat.pow_le_pow_right (by decide) (by decide))
  rw [tokenVal_eq]
  exact Nat.or_lt_two_pow (Nat.or_lt_two_pow hindex hclass) hlength

/-- The index and the length come back cut to their fields, and the class is read
4096 times as large as it was. -/
theorem decode_tokenVal : decode (tokenVal handleId desc) =
    { index := handleId % 2 ^ 16
      tc := desc.tc % 8 * 4096
      length := desc.length % 2 ^ 32 } := by
  have hindex : indexSlot.get (tokenVal handleId desc) = handleId % 2 ^ 16 := by
    rw [tokenVal_eq, Slot.get_or, Slot.get_or, Slot.get_put,
      Slot.get_put_of_apart (Or.inr (by decide)),
      Slot.get_put_of_apart (Or.inr (by decide)), Nat.or_zero, Nat.or_zero]
    rfl
  have hclass : classSlot.get (tokenVal handleId desc) = desc.tc % 8 * 4096 := by
    rw [tokenVal_eq, Slot.get_or, Slot.get_or,
      Slot.get_put_of_apart (Or.inl (by decide)),
      Slot.get_put_inner (by decide) (by decide),
      Slot.get_put_of_apart (Or.inr (by decide)), Nat.zero_or, Nat.or_zero]
    rfl
  have hlength : lengthSlot.get (tokenVal handleId desc) = desc.length % 2 ^ 32 := by
    rw [tokenVal_eq, Slot.get_or, Slot.get_or,
      Slot.get_put_of_apart (Or.inl (by decide)),
      Slot.get_put_of_apart (Or.inl (by decide)), Slot.get_put, Nat.zero_or,
      Nat.zero_or]
    rfl
  unfold decode
  rw [hindex, hclass, hlength]

/-- A descriptor whose handle, class and length fit their fields reads back. -/
def Decodes (handleId : Nat) (desc : TransferDescriptor) : Prop :=
  handleId < 2 ^ 16 → desc.tc ≤ 7 → desc.length < 2 ^ 32 →
    decode (tokenVal handleId desc) =
      { index := handleId, tc := desc.tc, length := desc.length }

theorem decodes_iff : Decodes handleId desc ↔
    (handleId < 2 ^ 16 → desc.tc ≤ 7 → desc.length < 2 ^ 32 → desc.tc = 0) := by
  unfold Decodes
  apply forall_congr'
  intro hindex
  apply forall_congr'
  intro hclass
  apply forall_congr'
  intro hlength
  rw [decode_tokenVal, Nat.mod_eq_of_lt hindex, Nat.mod_eq_of_lt hlength,
    Nat.mod_eq_of_lt (by omega : desc.tc < 8)]
  simp only [Decoded.mk.injEq, true_and, and_true]
  omega

section Runs

variable {ι : Type*} {cfg : Config} {s t : Endpoint ι} {h : Nat}

open Endpoint

/-- All live descriptors read back, and no two have the same index. -/
structure Decodable (s : Endpoint ι) : Prop where
  decodes : ∀ h, ∀ desc ∈ s.lookup h, Decodes h desc
  unique : ∀ h ∈ s.descriptors, ∀ h' ∈ s.descriptors,
    h &&& 0xFFFF = h' &&& 0xFFFF → h = h'

/-- A registration within the fields is of class 0, and no live descriptor has the
index of the new one. -/
def Apart (cfg : Config) (s : Endpoint ι) : Event ι → Prop
  | .register _ _ length tc =>
      (s.objects.length < 2 ^ 16 → tc.getD cfg.defaultTc ≤ 7 → length < 2 ^ 32 →
        tc.getD cfg.defaultTc = 0) ∧
      ∀ h ∈ s.descriptors, h &&& 0xFFFF ≠ s.objects.length &&& 0xFFFF
  | _ => True

/-- Live descriptors have been registered. -/
def Registered (s : Endpoint ι) : Prop :=
  ∀ h ∈ s.descriptors, h < s.objects.length

/-- What the token of a descriptor is made of. -/
def fields (desc : TransferDescriptor) : Nat × Nat :=
  (desc.tc, desc.length)

/-- Only registrations add descriptors or change what tokens are made of. -/
structure Keeps (s t : Endpoint ι) : Prop where
  fields : t.objects.map fields = s.objects.map fields
  live : t.descriptors ⊆ s.descriptors

namespace Keeps

theorem refl : Keeps s s :=
  ⟨rfl, Finset.Subset.refl _⟩

theorem trans {u : Endpoint ι} (hst : Keeps s t) (htu : Keeps t u) : Keeps s u :=
  ⟨htu.fields.trans hst.fields, htu.live.trans hst.live⟩

/-- Steps that touch neither the descriptors nor the registry. -/
theorem of_eq (hobjects : t.objects = s.objects) (hlive : t.descriptors = s.descriptors) :
    Keeps s t :=
  ⟨by rw [hobjects], hlive.subset⟩

/-- Steps that touch something else of one descriptor. -/
theorem of_modify {f : TransferDescriptor → TransferDescriptor}
    (hobjects : t.objects = s.objects.modify h f)
    (hlive : t.descriptors = s.descriptors)
    (hf : ∀ desc, GpuDriven.fields (f desc) = GpuDriven.fields desc) : Keeps s t := by
  refine ⟨?_, hlive.subset⟩
  rw [hobjects]
  apply List.ext_getElem?
  intro i
  rw [List.getElem?_map, List.getElem?_map, List.getElem?_modify]
  by_cases heq : h = i
  · cases s.objects[i]? <;> simp [heq, hf]
  · cases s.objects[i]? <;> simp [heq]

theorem launch (desc : TransferDescriptor) (ret : Int) :
    Keeps s (s.launch h desc ret) := by
  unfold Endpoint.launch
  split
  · exact refl
  · split
    · exact of_eq rfl rfl
    · exact of_eq rfl rfl

theorem trigger (ret : Int) (now : ℚ) : Keeps s (s.triggerFromCpu cfg h ret now) := by
  unfold triggerFromCpu
  split
  · exact refl
  · split
    · exact of_modify rfl rfl fun _ => rfl
    · refine trans ?_ (launch _ ret)
      exact of_modify rfl rfl fun _ => rfl

theorem markComplete (now : ℚ) : Keeps s (s.markComplete h now) := by
  unfold Endpoint.markComplete
  split
  · exact refl
  · exact of_modify rfl rfl fun _ => rfl

section Wait

variable [DecidableEq ι] {i : ι}

theorem answer (result : Bool) : Keeps s (s.answer i h result) :=
  of_eq rfl rfl

theorem callWait : Keeps s (s.callWait i h) := by
  unfold Endpoint.callWait
  split
  · exact answer false
  · exact of_eq rfl rfl

theorem checkWait : Keeps s (s.checkWait cfg i h) := by
  unfold Endpoint.checkWait
  split
  · exact answer true
  · split
    · refine trans ?_ (answer true)
      split
      · exact of_modify rfl rfl fun _ => rfl
      · exact refl
    · exact of_eq rfl rfl

theorem pollWait {p : PollEvent} (hstep : s.pollWait i h p = some t) : Keeps s t := by
  unfold Endpoint.pollWait at hstep
  cases p with
  | entries batch now =>
      obtain ⟨_, heq⟩ := Option.ite_none_right_eq_some.mp hstep
      obtain rfl := Option.some.inj heq
      have hread : Keeps s { s with cq := s.cq - batch } := of_eq rfl rfl
      exact (hread.trans (markComplete now)).trans (answer true)
  | again =>
      obtain rfl := Option.some.inj hstep
      exact refl
  | error =>
      obtain rfl := Option.some.inj hstep
      exact answer false
  | deadline =>
      obtain rfl := Option.some.inj hstep
      exact answer false

end Wait

theorem sendCompletes (hstep : s.sendCompletes h = some t) : Keeps s t := by
  obtain ⟨_, heq⟩ := Option.ite_none_right_eq_some.mp hstep
  obtain rfl := Option.some.inj heq
  exact of_eq rfl rfl

theorem injectCompletes (hstep : s.injectCompletes h = some t) : Keeps s t := by
  obtain ⟨_, heq⟩ := Option.ite_none_right_eq_some.mp hstep
  obtain rfl := Option.some.inj heq
  exact of_eq rfl rfl

theorem deregister : Keeps s (s.deregister h) :=
  ⟨rfl, Finset.erase_subset _ _⟩

end Keeps

/-- A step registers a descriptor or keeps what tokens are made of. -/
theorem step_keeps_or [DecidableEq ι] {e : Event ι} (hstep : step cfg s e = some t) :
    (∃ src dest length tc, e = .register src dest length tc ∧
      t = s.registerTransfer cfg src dest length tc) ∨
    (Apart cfg s e ∧ Keeps s t) := by
  cases e with
  | register src dest length tc =>
      exact Or.inl ⟨src, dest, length, tc, rfl, (Option.some.inj hstep).symm⟩
  | trigger h ret now =>
      obtain rfl := Option.some.inj hstep
      exact Or.inr ⟨trivial, .trigger ret now⟩
  | sendCompletes h => exact Or.inr ⟨trivial, .sendCompletes hstep⟩
  | injectCompletes h => exact Or.inr ⟨trivial, .injectCompletes hstep⟩
  | call i h =>
      refine Or.inr ⟨trivial, ?_⟩
      simp only [step] at hstep
      split at hstep
      · obtain rfl := Option.some.inj hstep
        exact .callWait
      · cases hstep
      · cases hstep
  | check i =>
      refine Or.inr ⟨trivial, ?_⟩
      simp only [step] at hstep
      split at hstep
      · obtain rfl := Option.some.inj hstep
        exact .checkWait
      · cases hstep
      · cases hstep
  | poll i p =>
      refine Or.inr ⟨trivial, ?_⟩
      simp only [step] at hstep
      split at hstep
      · exact .pollWait hstep
      · cases hstep
      · cases hstep
  | deregister h =>
      obtain rfl := Option.some.inj hstep
      exact Or.inr ⟨trivial, .deregister⟩

/-- A live descriptor of a state that keeps those of another, seen there. -/
theorem Keeps.lookup (hkeeps : Keeps s t) {desc : TransferDescriptor}
    (hdesc : t.lookup h = some desc) :
    ∃ old, s.lookup h = some old ∧ GpuDriven.fields old = GpuDriven.fields desc := by
  unfold Endpoint.lookup at hdesc
  obtain ⟨hlive, hobject⟩ := Option.ite_none_right_eq_some.mp hdesc
  have hfields : (s.objects.map GpuDriven.fields)[h]? =
      some (GpuDriven.fields desc) := by
    rw [← hkeeps.fields, List.getElem?_map, hobject, Option.map_some]
  rw [List.getElem?_map, Option.map_eq_some_iff] at hfields
  obtain ⟨old, hold, heq⟩ := hfields
  refine ⟨old, ?_, heq⟩
  unfold Endpoint.lookup
  rw [if_pos (hkeeps.live hlive), hold]

theorem Keeps.decodable (hkeeps : Keeps s t) (hs : Decodable s) : Decodable t := by
  refine ⟨fun h desc hdesc => ?_, fun h hh h' hh' => ?_⟩
  · obtain ⟨old, hold, heq⟩ := hkeeps.lookup hdesc
    obtain ⟨htc, hlength⟩ := Prod.mk.inj heq
    have hdecodes := decodes_iff.mp (hs.decodes h old hold)
    rw [htc, hlength] at hdecodes
    exact decodes_iff.mpr hdecodes
  · exact hs.unique h (hkeeps.live hh) h' (hkeeps.live hh')

theorem Keeps.registered (hkeeps : Keeps s t) (hs : Registered s) : Registered t := by
  have hlength : t.objects.length = s.objects.length := by
    simpa using congrArg List.length hkeeps.fields
  intro h hh
  rw [hlength]
  exact hs h (hkeeps.live hh)

section Register

variable {src dest length : Nat} {tc : Option Nat}

theorem registered_register (hs : Registered s) :
    Registered (s.registerTransfer cfg src dest length tc) := by
  intro h hh
  change h ∈ insert s.objects.length s.descriptors at hh
  change h < (s.objects ++ [_]).length
  rw [List.length_append, List.length_singleton]
  rcases Finset.mem_insert.mp hh with rfl | hold
  · exact Nat.lt_succ_self _
  · exact Nat.lt_succ_of_lt (hs h hold)

/-- The descriptor that a registration adds. -/
theorem lookup_register_self : (s.registerTransfer cfg src dest length tc).lookup
      s.objects.length =
    some { srcPtr := src, destAddr := dest, length, tc := tc.getD cfg.defaultTc } := by
  simp [Endpoint.lookup, registerTransfer]

/-- The descriptors that are there already. -/
theorem lookup_register_of_ne (hs : Registered s) (hne : h ≠ s.objects.length) :
    (s.registerTransfer cfg src dest length tc).lookup h = s.lookup h := by
  unfold Endpoint.lookup
  change (if h ∈ insert s.objects.length s.descriptors then (s.objects ++ [_])[h]? else none) = _
  by_cases hlive : h ∈ s.descriptors
  · rw [if_pos (Finset.mem_insert_of_mem hlive), if_pos hlive,
      List.getElem?_append_left (hs h hlive)]
  · rw [if_neg hlive, if_neg]
    simp [hne, hlive]

theorem decodable_register_iff (hs : Registered s) :
    Decodable (s.registerTransfer cfg src dest length tc) ↔
      Decodable s ∧ Apart cfg s (.register src dest length tc) := by
  have hlive : (s.registerTransfer cfg src dest length tc).descriptors =
      insert s.objects.length s.descriptors := rfl
  have hnew : Decodes s.objects.length
        { srcPtr := src, destAddr := dest, length, tc := tc.getD cfg.defaultTc } ↔
      (s.objects.length < 2 ^ 16 → tc.getD cfg.defaultTc ≤ 7 → length < 2 ^ 32 →
        tc.getD cfg.defaultTc = 0) := decodes_iff
  constructor
  · intro ht
    refine ⟨⟨fun h desc hdesc => ?_, fun h hh h' hh' => ?_⟩, ?_, fun h hh heq => ?_⟩
    · have hne : h ≠ s.objects.length := (lookup_lt hdesc).ne
      exact ht.decodes h desc (by rw [lookup_register_of_ne hs hne]; exact hdesc)
    · exact ht.unique h (Finset.mem_insert_of_mem hh) h' (Finset.mem_insert_of_mem hh')
    · exact hnew.mp (ht.decodes _ _ lookup_register_self)
    · have hsame := ht.unique h (Finset.mem_insert_of_mem hh) _
        (Finset.mem_insert_self _ _) heq
      exact absurd hsame (hs h hh).ne
  · rintro ⟨hold, hfields, hapart⟩
    refine ⟨fun h desc hdesc => ?_, fun h hh h' hh' heq => ?_⟩
    · by_cases hne : h = s.objects.length
      · subst hne
        obtain rfl := Option.some.inj (lookup_register_self.symm.trans hdesc)
        exact hnew.mpr hfields
      · rw [Option.mem_def, lookup_register_of_ne hs hne] at hdesc
        exact hold.decodes h desc hdesc
    · rw [hlive] at hh hh'
      rcases Finset.mem_insert.mp hh with rfl | hh
      · rcases Finset.mem_insert.mp hh' with rfl | hh'
        · rfl
        · exact absurd heq.symm (hapart h' hh')
      · rcases Finset.mem_insert.mp hh' with rfl | hh'
        · exact absurd heq (hapart h hh)
        · exact hold.unique h hh h' hh' heq

end Register

/-- **Tokens read back, and indices differ, exactly while descriptors of class 0 are
registered and no index comes round to a live one.** -/
theorem decodable_iff [DecidableEq ι] (events : List (Event ι))
    (hexec : exec (step cfg) {} events = some t) :
    (∀ pre, pre <+: events → ∀ s ∈ exec (step cfg) {} pre, Decodable s) ↔
      Meets (step cfg) (Apart cfg) {} events := by
  have hempty : Registered ({} : Endpoint ι) := fun h hh => absurd hh (Finset.notMem_empty h)
  have hinit : Decodable ({} : Endpoint ι) := by
    refine ⟨fun h desc hdesc => ?_, fun h hh => absurd hh (Finset.notMem_empty h)⟩
    cases hdesc
  refine Meets.iff_prefixes_of_exec (Q := fun s => Decodable s ∧ Registered s) hexec
    (fun _ hs => hs.1) ⟨hinit, hempty⟩ fun s e t hs hstep => ?_
  obtain ⟨hdecodable, hregistered⟩ := hs
  rcases step_keeps_or hstep with ⟨src, dest, length, tc, rfl, rfl⟩ | ⟨hapart, hkeeps⟩
  · rw [decodable_register_iff hregistered]
    exact ⟨And.right, fun hapart => ⟨⟨hdecodable, hapart⟩, registered_register hregistered⟩⟩
  · exact ⟨fun _ => hapart,
      fun _ => ⟨hkeeps.decodable hdecodable, hkeeps.registered hregistered⟩⟩

/-- No more descriptors than indices can be live, while handles go on for ever. -/
theorem Decodable.card_le (hs : Decodable s) : s.descriptors.card ≤ 2 ^ 16 := by
  have hinto : ∀ h ∈ s.descriptors, h &&& 0xFFFF ∈ Finset.range (2 ^ 16) := by
    intro h _
    rw [Finset.mem_range]
    exact Nat.and_lt_two_pow h (by decide)
  have hcard := Finset.card_le_card_of_injOn (fun h => h &&& 0xFFFF) hinto
    fun h hh h' hh' heq => hs.unique h hh h' hh' heq
  rwa [Finset.card_range] at hcard

/-- A descriptor of class 0 is registered, triggered and taken away, and another one
registered. -/
theorem decodable_background :
    ∃ t, exec (step {}) ({} : Endpoint Unit)
        [.register 64 1 8192 (some 0), .trigger 0 0 1, .deregister 0,
          .register 64 1 16 (some 0)] = some t ∧
      ((∀ pre, pre <+: [.register 64 1 8192 (some 0), .trigger 0 0 1, .deregister 0,
          .register 64 1 16 (some 0)] →
          ∀ s ∈ exec (step {}) ({} : Endpoint Unit) pre, Decodable s) ↔
        Meets (step {}) (Apart {}) ({} : Endpoint Unit)
          [.register 64 1 8192 (some 0), .trigger 0 0 1, .deregister 0,
            .register 64 1 16 (some 0)]) :=
  ⟨_, rfl, decodable_iff _ rfl⟩

/-- A descriptor of the default class 4 is read as one of class 16384. -/
theorem not_decodable_default :
    ¬ ∀ pre, pre <+: [.register 64 1 8192 none] →
      ∀ s ∈ exec (step {}) ({} : Endpoint Unit) pre, Decodable s := by
  intro hall
  have hs := hall _ List.prefix_rfl _ rfl
  have hdecodes := hs.decodes 0 _ lookup_register_self
  have htoken := hdecodes (by decide) (by decide) (by decide)
  exact absurd htoken (by decide)

end Runs

end GpuDriven

end Tempo
