import Mathlib.Data.Finset.Basic
import Mathlib.Order.Interval.Finset.Nat
import Tempo.CassiniCounter

/-!
# The descriptors and mappings of the counter library

`cassini_open_nic` opens a file per counter and tries to map it; each NIC keeps its
handles in slots, of which the first `n_ctrs` are in use, and `g_n_nics` bounds the
NICs that `cassini_close_all` looks at.  Next to these the tables of the process are
kept: the descriptors and the pages that the library has open.  What the system calls
answer is part of a call; a new descriptor and new pages are ones not in use.

Only handles in use are ever closed.  Two things leave the table without one: a NIC
that is opened again starts over with no slot in use, and a mapping is always released
as one page, however long the file was (`released_iff_tidy`).
-/

namespace Tempo

open Runs CassiniCounter

/-- What the system calls for one counter file answer: the descriptor, the size that
`fstat` gives and the page that `mmap` places the file at. -/
structure OpenAnswer where
  fd : Option Nat
  stSize : Option Int
  mmapPage : Option Nat

/-- `CtrHandle`, of a slot in use. -/
structure OpenCtr extends CtrHandle where
  fd : Nat
  mmapAddr : Option Nat
  mmapLen : Nat
  deriving DecidableEq

/-- The slots in use of each NIC, `g_n_nics`, and what the process has open. -/
structure CtrTables where
  nics : Fin 8 → List OpenCtr
  nNics : Nat
  fds : Finset Nat
  pages : Finset Nat

/-- A call into the library; a list of subpaths ends at the null pointer. -/
inductive CtrCall
  | openNic (cxiIdx : Int) (subpaths : List (CString × OpenAnswer))
  | closeAll

namespace CtrTables

variable {w t : CtrTables} {nic : Fin 8} {entry : CString × OpenAnswer}

/-- Before the first call. -/
def empty : CtrTables where
  nics _ := []
  nNics := 0
  fds := ∅
  pages := ∅

/-- The pages that `length` bytes take up from `page` on. -/
def pagesAt (page length : Nat) : Finset Nat :=
  Finset.Ico page (page + (length + 4095) / 4096)

/-- The length that `_try_mmap_counter` maps. -/
def mapLength (stSize : Int) : Nat :=
  if 0 < stSize then stSize.toNat else 4096

/-- `_try_mmap_counter`: the address, if any, and the pages in use after it.  No pages
in use are mapped over. -/
def tryMmapCounter (pages : Finset Nat) (answer : OpenAnswer) :
    Option (Option Nat × Finset Nat) :=
  match answer.stSize, answer.mmapPage with
  | some stSize, some page =>
      if Disjoint (pagesAt page (mapLength stSize)) pages then
        some (some page, pages ∪ pagesAt page (mapLength stSize))
      else none
  | _, _ => some (none, pages)

/-- The handle goes into the next slot. -/
def keep (w : CtrTables) (nic : Fin 8) (h : OpenCtr) (pages : Finset Nat) :
    CtrTables :=
  { w with
    nics := Function.update w.nics nic (w.nics nic ++ [h])
    fds := insert h.fd w.fds
    pages }

/-- One turn of the loop of `cassini_open_nic`. -/
def openTurn (nic : Fin 8) (w : CtrTables) (entry : CString × OpenAnswer) :
    Option CtrTables :=
  match buildPath nic entry.1, entry.2.fd with
  | some path, some fd =>
      if fd ∈ w.fds then none
      else
        (tryMmapCounter w.pages entry.2).map fun mapped =>
          w.keep nic
            { path, name := entry.1.bytes.take 63, fd
              mmapAddr := mapped.1
              mmapLen := if mapped.1.isSome then 4096 else 0 }
            mapped.2
  | _, _ => some w

/-- `ns->n_ctrs = 0` -/
def clear (w : CtrTables) (nic : Fin 8) : CtrTables :=
  { w with nics := Function.update w.nics nic [] }

/-- `cassini_open_nic` for an index within the table. -/
def openNic (w : CtrTables) (nic : Fin 8) (subpaths : List (CString × OpenAnswer)) :
    Option CtrTables :=
  (exec (openTurn nic) (w.clear nic) (subpaths.take 16)).map fun w =>
    { w with nNics := max w.nNics (nic + 1) }

/-- The slot that an index of the caller stands for. -/
def nicOf : Int → Option (Fin 8)
  | .ofNat n => if h : n < 8 then some ⟨n, h⟩ else none
  | .negSucc _ => none

/-- `cassini_open_nic`: the tables and what it returns. -/
def cassiniOpenNic (w : CtrTables) (cxiIdx : Int)
    (subpaths : List (CString × OpenAnswer)) : Option (CtrTables × Int) :=
  match nicOf cxiIdx with
  | none => some (w, -1)
  | some nic => (w.openNic nic subpaths).map fun w => (w, (w.nics nic).length)

/-- `munmap` and `close` of a handle. -/
def closeCtr (w : CtrTables) (h : OpenCtr) : CtrTables :=
  { w with
    pages := w.pages \ (h.mmapAddr.elim ∅ fun page => pagesAt page h.mmapLen)
    fds := w.fds.erase h.fd }

/-- The turn of `cassini_close_all` for one NIC. -/
def closeNic (w : CtrTables) (nic : Fin 8) : CtrTables :=
  ((w.nics nic).foldl closeCtr w).clear nic

/-- `cassini_close_all` -/
def cassiniCloseAll (w : CtrTables) : CtrTables :=
  { ((List.finRange 8).filter fun nic : Fin 8 => nic.val < w.nNics).foldl closeNic w with
    nNics := 0 }

def step (w : CtrTables) : CtrCall → Option CtrTables
  | .openNic cxiIdx subpaths => (w.cassiniOpenNic cxiIdx subpaths).map Prod.fst
  | .closeAll => some w.cassiniCloseAll

/-- A handle in use. -/
def Holds (w : CtrTables) (h : OpenCtr) : Prop :=
  ∃ nic, h ∈ w.nics nic

/-- Everything open is in a handle in use. -/
structure Tracked (w : CtrTables) : Prop where
  fds : ∀ fd ∈ w.fds, ∃ h, w.Holds h ∧ h.fd = fd
  pages : ∀ page ∈ w.pages, ∃ h, w.Holds h ∧ h.mmapAddr = some page

/-- The handles in use are of open files, each under one NIC, and mapped as one
page. -/
structure Sound (w : CtrTables) : Prop where
  opened : ∀ h, w.Holds h → h.fd ∈ w.fds
  mapped : ∀ h page, w.Holds h → h.mmapAddr = some page →
    page ∈ w.pages ∧ h.mmapLen = 4096
  owner : ∀ n n' h h', h ∈ w.nics n → h' ∈ w.nics n' → h.fd = h'.fd → n = n'

/-- The NICs with handles are below the bound. -/
def Bounded (w : CtrTables) : Prop :=
  ∀ nic, w.nics nic ≠ [] → (nic : Nat) < w.nNics

/-- The page and the length that a turn maps, if its file is opened and mapped. -/
def mapping (nic : Fin 8) (entry : CString × OpenAnswer) : Option (Nat × Nat) :=
  match buildPath nic entry.1, entry.2.fd, entry.2.stSize, entry.2.mmapPage with
  | some _, some _, some stSize, some page => some (page, mapLength stSize)
  | _, _, _, _ => none

/-- The file is not mapped, or fits one page. -/
def OnePage (nic : Fin 8) (entry : CString × OpenAnswer) : Prop :=
  ∀ m ∈ mapping nic entry, m.2 ≤ 4096

instance : Decidable (OnePage nic entry) := by
  unfold OnePage
  infer_instance

/-- A NIC is opened while none of its slots is in use, and each of its files fits one
page. -/
def Tidy (w : CtrTables) : CtrCall → Prop
  | .openNic cxiIdx subpaths =>
      ∀ nic ∈ nicOf cxiIdx,
        w.nics nic = [] ∧ ∀ entry ∈ subpaths.take 16, OnePage nic entry
  | .closeAll => True

section Pages

variable {page length : Nat}

theorem mem_pagesAt (hpos : 0 < length) : page ∈ pagesAt page length := by
  simp only [pagesAt, Finset.mem_Ico]
  omega

/-- A length fits one page exactly when no other page is taken. -/
theorem pagesAt_single_iff :
    (∀ q ∈ pagesAt page length, q = page) ↔ length ≤ 4096 := by
  simp only [pagesAt, Finset.mem_Ico]
  constructor
  · intro hall
    by_contra hlong
    have hnext := hall (page + 1) (by omega)
    omega
  · intro hshort q hq
    omega

theorem mapLength_pos (stSize : Int) : 0 < mapLength stSize := by
  unfold mapLength
  split <;> omega

end Pages

section Slots

variable {h h' : OpenCtr} {pages : Finset Nat}

theorem mem_keep {n : Fin 8} :
    h' ∈ (w.keep nic h pages).nics n ↔ h' ∈ w.nics n ∨ n = nic ∧ h' = h := by
  unfold keep
  by_cases hn : n = nic
  · subst hn
    simp
  · simp [hn]

theorem mem_clear {n : Fin 8} :
    h ∈ (w.clear nic).nics n ↔ n ≠ nic ∧ h ∈ w.nics n := by
  unfold clear
  by_cases hn : n = nic
  · subst hn
    simp
  · simp [hn]

theorem holds_keep : (w.keep nic h pages).Holds h' ↔ w.Holds h' ∨ h' = h := by
  unfold Holds
  simp only [mem_keep]
  constructor
  · rintro ⟨n, hold | ⟨_, rfl⟩⟩
    · exact Or.inl ⟨n, hold⟩
    · exact Or.inr rfl
  · rintro (⟨n, hold⟩ | rfl)
    · exact ⟨n, Or.inl hold⟩
    · exact ⟨nic, Or.inr ⟨rfl, rfl⟩⟩

theorem holds_of_clear (hh : (w.clear nic).Holds h) : w.Holds h := by
  obtain ⟨n, hn⟩ := hh
  exact ⟨n, (mem_clear.mp hn).2⟩

theorem Sound.clear (hw : Sound w) : Sound (w.clear nic) := by
  refine ⟨fun h hh => hw.opened h (holds_of_clear hh),
    fun h page hh => hw.mapped h page (holds_of_clear hh), ?_⟩
  intro n n' h h' hn hn' hfd
  exact hw.owner n n' h h' (mem_clear.mp hn).2 (mem_clear.mp hn').2 hfd

/-- A NIC that starts over loses its handles, and with them its descriptors. -/
theorem tracked_clear_iff (hw : Sound w) :
    Tracked (w.clear nic) ↔ Tracked w ∧ w.nics nic = [] := by
  constructor
  · intro htracked
    refine ⟨⟨fun fd hfd => ?_, fun page hpage => ?_⟩, ?_⟩
    · obtain ⟨h, hh, heq⟩ := htracked.fds fd hfd
      exact ⟨h, holds_of_clear hh, heq⟩
    · obtain ⟨h, hh, heq⟩ := htracked.pages page hpage
      exact ⟨h, holds_of_clear hh, heq⟩
    · rw [List.eq_nil_iff_forall_not_mem]
      intro h hmem
      obtain ⟨h', ⟨n, hn⟩, heq⟩ := htracked.fds h.fd (hw.opened h ⟨nic, hmem⟩)
      obtain ⟨hne, hold⟩ := mem_clear.mp hn
      exact hne (hw.owner n nic h' h hold hmem heq)
  · rintro ⟨htracked, hempty⟩
    have hsame : w.clear nic = w := by
      unfold CtrTables.clear
      rw [← hempty, Function.update_eq_self]
    rwa [hsame]

end Slots

section Open

variable {subpaths : List (CString × OpenAnswer)}

/-- What the handle of a turn says about its mapping. -/
inductive Maps (w : CtrTables) (nic : Fin 8) (entry : CString × OpenAnswer)
    (h : OpenCtr) : Finset Nat → Prop
  | unmapped (hmapping : mapping nic entry = none) (haddr : h.mmapAddr = none) :
      Maps w nic entry h w.pages
  | mapped {page length : Nat} (hmapping : mapping nic entry = some (page, length))
      (haddr : h.mmapAddr = some page) (hlen : h.mmapLen = 4096) (hpos : 0 < length)
      (hfresh : Disjoint (pagesAt page length) w.pages) :
      Maps w nic entry h (w.pages ∪ pagesAt page length)

/-- A turn leaves everything as it is, or keeps a handle on a new descriptor. -/
theorem openTurn_cases (hturn : openTurn nic w entry = some t) :
    (t = w ∧ mapping nic entry = none) ∨
      ∃ h pages, t = w.keep nic h pages ∧ h.fd ∉ w.fds ∧ Maps w nic entry h pages := by
  unfold openTurn at hturn
  split at hturn
  · next path fd hpath hfd =>
      split at hturn
      · cases hturn
      · next hnew =>
          obtain ⟨⟨addr, pages⟩, hmap, rfl⟩ := Option.map_eq_some_iff.mp hturn
          refine Or.inr ⟨_, _, rfl, hnew, ?_⟩
          unfold tryMmapCounter at hmap
          split at hmap
          · next stSize page hsize hpage =>
              split at hmap
              · next hfresh =>
                  cases hmap
                  exact .mapped (by simp [mapping, hpath, hfd, hsize, hpage]) rfl rfl
                    (mapLength_pos stSize) hfresh
              · cases hmap
          · next hnone =>
              cases hmap
              refine .unmapped ?_ rfl
              unfold mapping
              split
              · next stSize page _ _ hsize hpage => exact absurd hpage (hnone _ _ hsize)
              · rfl
  · next hnone =>
      cases hturn
      refine Or.inl ⟨rfl, ?_⟩
      unfold mapping
      split
      · next hpath hfd _ _ => exact absurd hfd (hnone _ _ hpath)
      · rfl

theorem openTurn_sound (hw : Sound w) (hturn : openTurn nic w entry = some t) :
    Sound t := by
  obtain ⟨rfl, _⟩ | ⟨h, pages, rfl, hnew, hmaps⟩ := openTurn_cases hturn
  · exact hw
  · have hgrow : w.pages ⊆ pages := by
      cases hmaps with
      | unmapped => exact Finset.Subset.refl _
      | mapped => exact Finset.subset_union_left
    refine ⟨fun h' hh' => ?_, fun h' page hh' haddr => ?_, fun n n' a b ha hb hfd => ?_⟩
    · rcases holds_keep.mp hh' with hold | rfl
      · exact Finset.mem_insert_of_mem (hw.opened h' hold)
      · exact Finset.mem_insert_self _ _
    · rcases holds_keep.mp hh' with hold | rfl
      · obtain ⟨hpage, hlen⟩ := hw.mapped h' page hold haddr
        exact ⟨hgrow hpage, hlen⟩
      · cases hmaps with
        | unmapped _ hnone => exact absurd haddr (by simp [hnone])
        | mapped _ hsome hlen hpos _ =>
            obtain rfl := Option.some.inj (hsome.symm.trans haddr)
            exact ⟨Finset.mem_union_right _ (mem_pagesAt hpos), hlen⟩
    · rcases mem_keep.mp ha with hold | ⟨rfl, rfl⟩
      · rcases mem_keep.mp hb with hold' | ⟨rfl, rfl⟩
        · exact hw.owner n n' a b hold hold' hfd
        · exact absurd (hw.opened a ⟨n, hold⟩) (hfd ▸ hnew)
      · rcases mem_keep.mp hb with hold' | ⟨rfl, rfl⟩
        · exact absurd (hw.opened b ⟨n', hold'⟩) (hfd ▸ hnew)
        · rfl

/-- A turn leaves something behind only where it maps more than a page. -/
theorem tracked_openTurn_iff (hw : Sound w) (hturn : openTurn nic w entry = some t) :
    Tracked t ↔ Tracked w ∧ OnePage nic entry := by
  obtain ⟨rfl, hmapping⟩ | ⟨h, pages, rfl, hnew, hmaps⟩ := openTurn_cases hturn
  · simp [OnePage, hmapping]
  · have hfds : (∀ fd ∈ (w.keep nic h pages).fds,
          ∃ h', (w.keep nic h pages).Holds h' ∧ h'.fd = fd) ↔
        ∀ fd ∈ w.fds, ∃ h', w.Holds h' ∧ h'.fd = fd := by
      simp only [holds_keep]
      constructor
      · intro hall fd hfd
        obtain ⟨h', hold | rfl, heq⟩ := hall fd (Finset.mem_insert_of_mem hfd)
        · exact ⟨h', hold, heq⟩
        · exact absurd hfd (heq ▸ hnew)
      · intro hall fd hfd
        rcases Finset.mem_insert.mp hfd with rfl | hfd
        · exact ⟨h, Or.inr rfl, rfl⟩
        · obtain ⟨h', hold, heq⟩ := hall fd hfd
          exact ⟨h', Or.inl hold, heq⟩
    have hpages : (∀ page ∈ pages,
          ∃ h', (w.keep nic h pages).Holds h' ∧ h'.mmapAddr = some page) ↔
        (∀ page ∈ w.pages, ∃ h', w.Holds h' ∧ h'.mmapAddr = some page) ∧
          OnePage nic entry := by
      simp only [holds_keep]
      cases hmaps with
      | unmapped hmapping haddr =>
          have hone : OnePage nic entry := by simp [OnePage, hmapping]
          rw [and_iff_left hone]
          refine forall₂_congr fun page _ => exists_congr fun h' => ?_
          apply and_congr_left
          intro hsome
          apply or_iff_left
          rintro rfl
          simp [haddr] at hsome
      | @mapped page length hmapping haddr _ hpos hfresh =>
          have hone : OnePage nic entry ↔ length ≤ 4096 := by simp [OnePage, hmapping]
          have hsingle : (∀ q ∈ pagesAt page length, q = page) ↔ length ≤ 4096 :=
            pagesAt_single_iff
          rw [hone, ← hsingle]
          constructor
          · intro hall
            refine ⟨fun q hq => ?_, fun q hq => ?_⟩
            · obtain ⟨h', hold | rfl, heq⟩ := hall q (Finset.mem_union_left _ hq)
              · exact ⟨h', hold, heq⟩
              · obtain rfl := Option.some.inj (haddr.symm.trans heq)
                exact absurd hq (Finset.disjoint_left.mp hfresh (mem_pagesAt hpos))
            · obtain ⟨h', hold | rfl, heq⟩ := hall q (Finset.mem_union_right _ hq)
              · exact absurd (hw.mapped h' q hold heq).1 (Finset.disjoint_left.mp hfresh hq)
              · exact Option.some.inj (heq.symm.trans haddr)
          · rintro ⟨hall, hsingle⟩ q hq
            rcases Finset.mem_union.mp hq with hq | hq
            · obtain ⟨h', hold, heq⟩ := hall q hq
              exact ⟨h', Or.inl hold, heq⟩
            · exact ⟨h, Or.inr rfl, by rw [haddr, hsingle q hq]⟩
    constructor
    · intro htracked
      obtain ⟨hold, hone⟩ := hpages.mp htracked.pages
      exact ⟨⟨hfds.mp htracked.fds, hold⟩, hone⟩
    · rintro ⟨htracked, hone⟩
      exact ⟨hfds.mpr htracked.fds, hpages.mpr ⟨htracked.pages, hone⟩⟩

/-- Only the NIC that is opened gains handles. -/
def BoundedOff (nic : Fin 8) (w : CtrTables) : Prop :=
  ∀ n, n ≠ nic → w.nics n ≠ [] → (n : Nat) < w.nNics

theorem openTurn_boundedOff (hw : BoundedOff nic w)
    (hturn : openTurn nic w entry = some t) : BoundedOff nic t := by
  obtain ⟨rfl, _⟩ | ⟨h, pages, rfl, _, _⟩ := openTurn_cases hturn
  · exact hw
  · intro n hn hne
    refine hw n hn ?_
    simpa [keep, Function.update_of_ne hn] using hne

/-- The tables after all turns, where the NIC has been cleared. -/
theorem openNic_cases (hopen : w.openNic nic subpaths = some t) :
    ∃ u, exec (openTurn nic) (w.clear nic) (subpaths.take 16) = some u ∧
      t = { u with nNics := max u.nNics (nic + 1) } := by
  obtain ⟨u, hexec, rfl⟩ := Option.map_eq_some_iff.mp hopen
  exact ⟨u, hexec, rfl⟩

theorem openNic_sound (hw : Sound w) (hopen : w.openNic nic subpaths = some t) :
    Sound t := by
  obtain ⟨u, hexec, rfl⟩ := openNic_cases hopen
  have hu : Sound u :=
    (Reachable.of_exec hexec).invariant hw.clear fun _ _ _ hv _ hturn =>
      openTurn_sound hv hturn
  exact ⟨hu.opened, hu.mapped, hu.owner⟩

theorem openNic_bounded (hw : Bounded w) (hopen : w.openNic nic subpaths = some t) :
    Bounded t := by
  obtain ⟨u, hexec, rfl⟩ := openNic_cases hopen
  have hstart : BoundedOff nic (w.clear nic) := by
    intro n hn hne
    refine hw n ?_
    simpa [clear, Function.update_of_ne hn] using hne
  have hu : BoundedOff nic u :=
    (Reachable.of_exec hexec).invariant hstart fun _ _ _ hv _ hturn =>
      openTurn_boundedOff hv hturn
  intro n hne
  by_cases hn : n = nic
  · subst hn
    exact lt_max_of_lt_right (Nat.lt_succ_self _)
  · exact lt_max_of_lt_left (hu n hn hne)

theorem tracked_openNic_iff (hw : Sound w) (hopen : w.openNic nic subpaths = some t) :
    Tracked t ↔
      Tracked w ∧ w.nics nic = [] ∧ ∀ entry ∈ subpaths.take 16, OnePage nic entry := by
  obtain ⟨u, hexec, rfl⟩ := openNic_cases hopen
  have hturns : Tracked u ↔ Tracked (w.clear nic) ∧
      Meets (openTurn nic) (fun _ entry => OnePage nic entry) (w.clear nic)
        (subpaths.take 16) :=
    exec_keeps_iff hexec hw.clear (fun _ _ _ hv hturn => openTurn_sound hv hturn)
      fun _ _ _ hv hturn => tracked_openTurn_iff hv hturn
  have hsame : Tracked { u with nNics := max u.nNics (nic + 1) } ↔ Tracked u :=
    ⟨fun h => ⟨h.fds, h.pages⟩, fun h => ⟨h.fds, h.pages⟩⟩
  rw [hsame, hturns, tracked_clear_iff hw, Meets.iff_forall_mem hexec, and_assoc]

/-- Where `open` finds the files that `files` has, a turn keeps the handle that the
readers' model has. -/
theorem openTurn_handles {files : CounterFiles}
    (hagree : ∀ path ∈ buildPath nic entry.1, entry.2.fd.isSome = (files path).opens)
    (hturn : openTurn nic w entry = some t) :
    (t.nics nic).map OpenCtr.toCtrHandle =
      (w.nics nic).map OpenCtr.toCtrHandle ++
        (openCounter files nic entry.1).toList := by
  unfold openTurn at hturn
  unfold openCounter
  cases hpath : buildPath nic entry.1 with
  | none =>
      simp only [hpath] at hturn
      obtain rfl := Option.some.inj hturn
      simp
  | some path =>
      have hfile := hagree path hpath
      cases hfd : entry.2.fd with
      | none =>
          simp only [hpath, hfd] at hturn
          obtain rfl := Option.some.inj hturn
          have hclosed : (files path).opens = false := by simpa [hfd] using hfile.symm
          simp [hclosed]
      | some fd =>
          have hopens : (files path).opens = true := by simpa [hfd] using hfile.symm
          simp only [hpath, hfd] at hturn
          split at hturn
          · cases hturn
          · obtain ⟨mapped, _, rfl⟩ := Option.map_eq_some_iff.mp hturn
            simp [keep, hopens]

/-- The handles of an opened NIC are those of the readers' model. -/
theorem openNic_handles {files : CounterFiles}
    (hfiles : ∀ entry ∈ subpaths, ∀ path ∈ buildPath nic entry.1,
      entry.2.fd.isSome = (files path).opens)
    (hopen : w.openNic nic subpaths = some t) :
    (t.nics nic).map OpenCtr.toCtrHandle =
      CassiniCounter.cassiniOpenNic files nic (subpaths.map Prod.fst) := by
  obtain ⟨u, hexec, rfl⟩ := openNic_cases hopen
  have hturns : ∀ (entries : List (CString × OpenAnswer)) (v : CtrTables),
      (∀ entry ∈ entries, ∀ path ∈ buildPath nic entry.1,
        entry.2.fd.isSome = (files path).opens) →
      exec (openTurn nic) v entries = some u →
      (u.nics nic).map OpenCtr.toCtrHandle =
        (v.nics nic).map OpenCtr.toCtrHandle ++
          (entries.map Prod.fst).filterMap (openCounter files nic) := by
    intro entries
    induction entries with
    | nil =>
        intro v _ hv
        obtain rfl : v = u := by simpa [exec] using hv
        simp
    | cons entry entries ih =>
        intro v hentries hv
        obtain ⟨mid, hmid, hrest⟩ := Option.bind_eq_some_iff.mp hv
        rw [ih mid (fun e he => hentries e (List.mem_cons_of_mem _ he)) hrest,
          openTurn_handles (hentries entry List.mem_cons_self) hmid, List.map_cons,
          List.filterMap_cons]
        cases openCounter files nic entry.1 with
        | none => simp
        | some h => simp
  have hcleared : ((w.clear nic).nics nic).map OpenCtr.toCtrHandle = [] := by
    simp [clear]
  rw [hturns _ _ (fun e he => hfiles e (List.mem_of_mem_take he)) hexec, hcleared,
    List.nil_append, CassiniCounter.cassiniOpenNic, List.map_take]

end Open

section Close

variable {nics : List (Fin 8)} {hs : List OpenCtr}

theorem closeCtrs_nics : (hs.foldl closeCtr w).nics = w.nics := by
  induction hs generalizing w with
  | nil => rfl
  | cons h hs ih => exact ih

theorem mem_fds_closeCtrs {fd : Nat} :
    fd ∈ (hs.foldl closeCtr w).fds ↔ fd ∈ w.fds ∧ ∀ h ∈ hs, h.fd ≠ fd := by
  induction hs generalizing w with
  | nil => simp
  | cons h hs ih =>
      rw [List.foldl_cons, ih, List.forall_mem_cons]
      simp only [closeCtr, Finset.mem_erase]
      grind

theorem mem_pages_closeCtrs {page : Nat} :
    page ∈ (hs.foldl closeCtr w).pages ↔
      page ∈ w.pages ∧
        ∀ h ∈ hs, ∀ addr ∈ h.mmapAddr, page ∉ pagesAt addr h.mmapLen := by
  induction hs generalizing w with
  | nil => simp
  | cons h hs ih =>
      rw [List.foldl_cons, ih, List.forall_mem_cons]
      cases haddr : h.mmapAddr with
      | none => simp [closeCtr, haddr]
      | some addr =>
          simp only [closeCtr, haddr, Option.elim_some, Finset.mem_sdiff, Option.mem_def,
            Option.some.injEq, forall_eq']
          rw [and_assoc]

/-- A handle that closing the NICs `nics` reaches. -/
def Reached (w : CtrTables) (nics : List (Fin 8)) (h : OpenCtr) : Prop :=
  ∃ nic ∈ nics, h ∈ w.nics nic

theorem reached_cons {h : OpenCtr} :
    w.Reached (nic :: nics) h ↔ h ∈ w.nics nic ∨ (w.closeNic nic).Reached nics h := by
  unfold Reached closeNic
  simp only [mem_clear, closeCtrs_nics, List.mem_cons]
  grind

theorem mem_fds_closeNics {fd : Nat} :
    fd ∈ (nics.foldl closeNic w).fds ↔
      fd ∈ w.fds ∧ ∀ h, w.Reached nics h → h.fd ≠ fd := by
  induction nics generalizing w with
  | nil => simp [Reached]
  | cons nic nics ih =>
      have hone : fd ∈ (w.closeNic nic).fds ↔ fd ∈ w.fds ∧ ∀ h ∈ w.nics nic, h.fd ≠ fd :=
        mem_fds_closeCtrs
      rw [List.foldl_cons, ih, hone]
      simp only [reached_cons]
      grind

theorem mem_pages_closeNics {page : Nat} :
    page ∈ (nics.foldl closeNic w).pages ↔
      page ∈ w.pages ∧ ∀ h, w.Reached nics h →
        ∀ addr ∈ h.mmapAddr, page ∉ pagesAt addr h.mmapLen := by
  induction nics generalizing w with
  | nil => simp [Reached]
  | cons nic nics ih =>
      have hone : page ∈ (w.closeNic nic).pages ↔ page ∈ w.pages ∧
          ∀ h ∈ w.nics nic, ∀ addr ∈ h.mmapAddr, page ∉ pagesAt addr h.mmapLen :=
        mem_pages_closeCtrs
      rw [List.foldl_cons, ih, hone]
      simp only [reached_cons]
      grind

theorem mem_nics_closeNics {n : Fin 8} {h : OpenCtr} :
    h ∈ (nics.foldl closeNic w).nics n ↔ h ∈ w.nics n ∧ n ∉ nics := by
  induction nics generalizing w with
  | nil => simp
  | cons nic nics ih =>
      rw [List.foldl_cons, ih]
      unfold closeNic
      rw [mem_clear, closeCtrs_nics]
      grind

/-- Below the bound every handle in use is reached. -/
theorem reached_iff_holds (hbound : Bounded w) {h : OpenCtr} :
    w.Reached ((List.finRange 8).filter fun nic : Fin 8 => nic.val < w.nNics) h ↔
      w.Holds h := by
  constructor
  · rintro ⟨nic, _, hmem⟩
    exact ⟨nic, hmem⟩
  · rintro ⟨nic, hmem⟩
    exact ⟨nic, by simpa using hbound nic (List.ne_nil_of_mem hmem), hmem⟩

theorem not_holds_closeAll (hbound : Bounded w) (h : OpenCtr) :
    ¬ w.cassiniCloseAll.Holds h := by
  rintro ⟨nic, hmem⟩
  obtain ⟨hold, hnot⟩ := mem_nics_closeNics.mp hmem
  apply hnot
  simpa using hbound nic (List.ne_nil_of_mem hold)

/-- Closing leaves exactly what no handle in use has. -/
theorem closeAll_empty_iff (hw : Sound w) (hbound : Bounded w) :
    w.cassiniCloseAll.fds = ∅ ∧ w.cassiniCloseAll.pages = ∅ ↔ Tracked w := by
  have hfds : w.cassiniCloseAll.fds = ∅ ↔
      ∀ fd ∈ w.fds, ∃ h, w.Holds h ∧ h.fd = fd := by
    rw [Finset.eq_empty_iff_forall_notMem]
    apply forall_congr'
    intro fd
    have hleft : fd ∈ w.cassiniCloseAll.fds ↔
        fd ∈ w.fds ∧ ∀ h, w.Holds h → h.fd ≠ fd := by
      simp only [← reached_iff_holds hbound]
      exact mem_fds_closeNics
    rw [hleft]
    push Not
    rfl
  have hpages : w.cassiniCloseAll.pages = ∅ ↔
      ∀ page ∈ w.pages, ∃ h, w.Holds h ∧ h.mmapAddr = some page := by
    rw [Finset.eq_empty_iff_forall_notMem]
    apply forall_congr'
    intro page
    have hleft : page ∈ w.cassiniCloseAll.pages ↔ page ∈ w.pages ∧
        ∀ h, w.Holds h → ∀ addr ∈ h.mmapAddr, page ∉ pagesAt addr h.mmapLen := by
      simp only [← reached_iff_holds hbound]
      exact mem_pages_closeNics
    have hheld : (∀ h, w.Holds h → ∀ addr ∈ h.mmapAddr, page ∉ pagesAt addr h.mmapLen) ↔
        ¬ ∃ h, w.Holds h ∧ h.mmapAddr = some page := by
      rw [not_exists]
      apply forall_congr'
      intro h
      rw [not_and]
      apply forall_congr'
      intro hh
      constructor
      · intro hall haddr
        apply hall page haddr
        rw [(hw.mapped h page hh haddr).2]
        exact mem_pagesAt (by decide)
      · intro hne addr haddr hmem
        rw [(hw.mapped h addr hh haddr).2] at hmem
        have hsame := pagesAt_single_iff.mpr le_rfl page hmem
        exact hne (hsame ▸ haddr)
    rw [hleft, hheld, not_and, not_not]
  rw [hfds, hpages]
  exact ⟨fun h => ⟨h.1, h.2⟩, fun h => ⟨h.fds, h.pages⟩⟩

end Close

section Calls

variable {call : CtrCall}

theorem step_openNic {cxiIdx : Int} {subpaths : List (CString × OpenAnswer)}
    (hstep : step w (.openNic cxiIdx subpaths) = some t) :
    (nicOf cxiIdx = none ∧ t = w) ∨
      ∃ nic, nicOf cxiIdx = some nic ∧ w.openNic nic subpaths = some t := by
  unfold step cassiniOpenNic at hstep
  cases hnic : nicOf cxiIdx with
  | none =>
      simp only [hnic, Option.map_some, Option.some.injEq] at hstep
      exact Or.inl ⟨rfl, hstep.symm⟩
  | some nic =>
      refine Or.inr ⟨nic, rfl, ?_⟩
      simpa [hnic, Function.comp_def] using hstep

/-- The tables as calls leave them. -/
def Kept (w : CtrTables) : Prop :=
  Sound w ∧ Bounded w

theorem empty_kept : Kept empty := by
  refine ⟨⟨fun h hh => ?_, fun h _ hh => ?_, fun n _ h _ hmem => ?_⟩, fun nic hne => ?_⟩
  · obtain ⟨n, hn⟩ := hh
    exact absurd hn List.not_mem_nil
  · obtain ⟨n, hn⟩ := hh
    exact absurd hn List.not_mem_nil
  · exact absurd hmem List.not_mem_nil
  · exact absurd rfl hne

theorem closeAll_kept (hw : Kept w) : Kept w.cassiniCloseAll := by
  have hnone := not_holds_closeAll hw.2
  refine ⟨⟨fun h hh => absurd hh (hnone h), fun h _ hh => absurd hh (hnone h),
    fun n _ h _ hmem => absurd ⟨n, hmem⟩ (hnone h)⟩, fun nic hne => ?_⟩
  obtain ⟨h, hmem⟩ := List.exists_mem_of_ne_nil _ hne
  exact absurd ⟨nic, hmem⟩ (hnone h)

theorem step_kept (hw : Kept w) (hstep : step w call = some t) : Kept t := by
  cases call with
  | openNic cxiIdx subpaths =>
      rcases step_openNic hstep with ⟨_, rfl⟩ | ⟨nic, _, hopen⟩
      · exact hw
      · exact ⟨openNic_sound hw.1 hopen, openNic_bounded hw.2 hopen⟩
  | closeAll =>
      obtain rfl := Option.some.inj hstep
      exact closeAll_kept hw

/-- What is not tracked when everything is closed stays open for ever. -/
theorem tracked_closeAll_iff (hw : Kept w) : Tracked w.cassiniCloseAll ↔ Tracked w := by
  have hnone := not_holds_closeAll hw.2
  rw [← closeAll_empty_iff hw.1 hw.2]
  constructor
  · intro htracked
    constructor
    · rw [Finset.eq_empty_iff_forall_notMem]
      intro fd hfd
      obtain ⟨h, hh, _⟩ := htracked.fds fd hfd
      exact hnone h hh
    · rw [Finset.eq_empty_iff_forall_notMem]
      intro page hpage
      obtain ⟨h, hh, _⟩ := htracked.pages page hpage
      exact hnone h hh
  · rintro ⟨hfds, hpages⟩
    exact ⟨by simp [hfds], by simp [hpages]⟩

theorem tracked_step_iff (hw : Kept w) (hstep : step w call = some t) :
    Tracked t ↔ Tracked w ∧ Tidy w call := by
  cases call with
  | openNic cxiIdx subpaths =>
      rcases step_openNic hstep with ⟨hnone, rfl⟩ | ⟨nic, hsome, hopen⟩
      · simp [Tidy, hnone]
      · rw [tracked_openNic_iff hw.1 hopen]
        simp [Tidy, hsome]
  | closeAll =>
      obtain rfl := Option.some.inj hstep
      rw [tracked_closeAll_iff hw]
      simp [Tidy]

theorem empty_tracked : Tracked empty :=
  ⟨by simp [empty], by simp [empty]⟩

/-- **Closing releases everything exactly after calls that open a NIC once and map one
page a file.** -/
theorem released_iff_tidy (calls : List CtrCall)
    (hexec : exec step empty (calls ++ [.closeAll]) = some t) :
    t.fds = ∅ ∧ t.pages = ∅ ↔ Meets step Tidy empty calls := by
  rw [exec_append] at hexec
  obtain ⟨w, hcalls, hclose⟩ := Option.bind_eq_some_iff.mp hexec
  obtain rfl : w.cassiniCloseAll = t := by simpa [exec, step] using hclose
  have hkept : Kept w :=
    (Reachable.of_exec hcalls).invariant empty_kept fun _ _ _ hv _ hstep =>
      step_kept hv hstep
  have htracked : Tracked w ↔ Tracked empty ∧ Meets step Tidy empty calls :=
    exec_keeps_iff hcalls empty_kept (fun _ _ _ hv hstep => step_kept hv hstep)
      fun _ _ _ hv hstep => tracked_step_iff hv hstep
  rw [closeAll_empty_iff hkept.1 hkept.2, htracked, and_iff_right empty_tracked]

/-- A counter file of one page, opened as `fd` and mapped at `page`. -/
def onePage (fd page : Nat) : CString × OpenAnswer :=
  (congestion, { fd := some fd, stSize := some 0, mmapPage := some page })

/-- Two NICs are opened, and an index without a slot. -/
theorem released_two :
    ∃ t, exec step empty
        ([.openNic 0 [onePage 3 100], .openNic 1 [onePage 4 101], .openNic 8 []] ++
          [.closeAll]) = some t ∧
      (t.fds = ∅ ∧ t.pages = ∅ ↔
        Meets step Tidy empty
          [.openNic 0 [onePage 3 100], .openNic 1 [onePage 4 101], .openNic 8 []]) := by
  have hsome : (exec step empty
      ([.openNic 0 [onePage 3 100], .openNic 1 [onePage 4 101], .openNic 8 []] ++
        [.closeAll])).isSome = true := by decide +kernel
  obtain ⟨t, ht⟩ := Option.isSome_iff_exists.mp hsome
  exact ⟨t, ht, released_iff_tidy _ ht⟩

/-- A NIC that is opened twice: the first descriptor and its page stay open. -/
theorem reopened_leaks :
    (exec step empty
        ([.openNic 0 [onePage 3 100], .openNic 0 [onePage 4 101]] ++ [.closeAll])).map
      (fun t => (t.fds, t.pages)) = some ({3}, {100}) := by
  decide +kernel

end Calls

end CtrTables

end Tempo
