import Tempo.CheckpointRuns

/-!
# What a flush has copied

The copy loop of `_do_flush` ends at the first empty read and unlinks the local
file after the rename, without comparing lengths.  An empty read means the end
of the file for every chunk size but zero, so with `flush_chunk_bytes = 0` the
first read ends the loop, an empty file is published and the local one is
removed.  For every other size, and however the adaptive block changes it
between chunks, what has been written is what has been taken from the source
(`CopyOk`).

The training thread may save the same step again during the flush.  The copy
stays one as long as that leaves the part of the file already taken as it was, what
the reader has read ahead included (`CkptState.taken`).
-/

namespace Tempo

namespace CkptState

/-- What the flush has taken of a source with content `c`. -/
def taken (s : CkptState) (c : Bytes) : Bytes :=
  match s.worker with
  | .resize _ off | .pace _ off | .gate _ off | .recompute _ off | .read _ off =>
      c.take (off + s.reader.held.length)
  | .write _ off chunk => c.take (off + (chunk ++ s.reader.held).length)
  | .rename _ _ | .account _ _ | .unlink _ => c
  | _ => []

/-- A read has been started. -/
def started (s : CkptState) : Prop :=
  match s.worker with
  | .resize _ off | .pace _ off | .gate _ off | .recompute _ off | .read _ off =>
      off ≠ 0 ∨ s.reader ≠ .ready []
  | .write _ _ _ => True
  | _ => False

/-- What a flush that has copied `off` bytes has still to write. -/
def left (s : CkptState) (job : FlushJob) (off : Nat) : Bytes :=
  s.reader.held ++ (CheckpointManager.content s.localDir job.localName).drop
    (off + s.reader.held.length)

end CkptState

namespace CheckpointManager

variable {cfg : CkptConfig} {localDir lustreDir : Dir} {s t : CkptState}

/-- `fsrc.read(size)` raises nothing and advances. -/
def Usable (size : Int) : Prop := -1 ≤ size ∧ size < 2 ^ 63 ∧ size ≠ 0

theorem usable_resizeChunk {size : Int} (h : Usable size)
    (target : Option Int) : Usable (resizeChunk cfg size target) := by
  unfold resizeChunk
  split
  · split
    · simp only [Usable, minChunkBytes, maxChunkBytes]
      omega
    · exact h
  · exact h

/-- The file under the temporary name, with what the flush holds, is what has been
taken of the source, and the file published is all of it. -/
def CopyOk (s : CkptState) : FlushPc → Prop
  | .openTmp job => ∃ c, s.localDir job.localName = some c
  | .resize job off | .pace job off | .gate job off | .recompute job off
  | .read job off =>
      ∃ c p, s.localDir job.localName = some c ∧
        s.lustreDir (tmpName job.remoteName) = some p ∧ p.length = off ∧
        p ++ s.reader.held <+: c
  | .write job off chunk =>
      ∃ c p, s.localDir job.localName = some c ∧
        s.lustreDir (tmpName job.remoteName) = some p ∧ p.length = off ∧
        p ++ (chunk ++ s.reader.held) <+: c
  | .rename job _ =>
      ∃ c, s.localDir job.localName = some c ∧
        s.lustreDir (tmpName job.remoteName) = some c
  | .account job _ | .unlink job =>
      ∃ c, s.localDir job.localName = some c ∧
        s.lustreDir job.remoteName = some c
  | _ => True

/-- The invariant. -/
structure Faithful (s : CkptState) : Prop where
  copy : CopyOk s s.worker
  usable : s.started → Usable s.chunkBytes

/-- The condition on a step: an empty read is at the end of the source, and a
save leaves what a flush has taken of its source as it was. -/
def Kept (cfg : CkptConfig) (s : CkptState) : CkptEvent → Prop
  | .worker .next => ReadsToEnd s
  | .save step partialData data =>
      ∀ job ∈ s.worker.job?,
        ∀ t ∈ CheckpointManager.step cfg s (.save step partialData data),
          s.taken (content t.localDir job.localName) =
            s.taken (content s.localDir job.localName)
  | .saver =>
      ∀ job ∈ s.worker.job?, ∀ t ∈ saverStep cfg s,
        s.taken (content t.localDir job.localName) =
          s.taken (content s.localDir job.localName)
  | _ => True

/-- Statements of the copy loop that move no bytes. -/
theorem CopyOk.goto {w : FlushPc} (job : FlushJob) (off : Nat)
    (h : CopyOk s (.resize job off))
    (hw : w ∈ [FlushPc.resize job off, .pace job off, .gate job off,
      .recompute job off, .read job off])
    (hfiles : t.localDir = s.localDir ∧ t.lustreDir = s.lustreDir ∧
      t.reader = s.reader) : CopyOk t w := by
  have h' : CopyOk t (.resize job off) := by
    unfold CopyOk at h ⊢
    rw [hfiles.1, hfiles.2.1, hfiles.2.2]
    exact h
  simp only [List.mem_cons, List.not_mem_nil, or_false] at hw
  rcases hw with rfl | rfl | rfl | rfl | rfl <;> exact h'

/-- A source that agrees with another one up to where that has been read. -/
theorem prefix_of_take_eq {a c c' : Bytes} (h : a <+: c)
    (hsame : c'.take a.length = c.take a.length) : a <+: c' := by
  rw [List.prefix_iff_eq_take] at h ⊢
  rw [hsame]
  exact h

/-- A step of the training thread that leaves what the flush has taken as it
was. -/
theorem CopyOk.kept (h : CopyOk s s.worker)
    (hlustre : t.lustreDir = s.lustreDir) (hreader : t.reader = s.reader)
    (hlocal : ∀ job ∈ s.worker.job?, s.localDir job.localName ≠ none →
      ∃ c, t.localDir job.localName = some c)
    (htaken : ∀ job ∈ s.worker.job?, s.taken (content t.localDir job.localName) =
      s.taken (content s.localDir job.localName)) : CopyOk t s.worker := by
  have hfound : ∀ job c, job ∈ s.worker.job? → s.localDir job.localName = some c →
      ∃ c', t.localDir job.localName = some c' ∧ s.taken c' = s.taken c := by
    intro job c hjob hc
    obtain ⟨c', hc'⟩ := hlocal job hjob (by simp [hc])
    exact ⟨c', hc', by simpa [content, hc, hc'] using htaken job hjob⟩
  unfold CkptState.taken at hfound
  cases hw : s.worker with
  | openTmp job =>
      rw [hw] at h hfound
      obtain ⟨c, hc⟩ := h
      obtain ⟨c', hc', -⟩ := hfound job c rfl hc
      exact ⟨c', hc'⟩
  | resize job off | pace job off | gate job off | recompute job off
  | read job off =>
      rw [hw] at h hfound
      obtain ⟨c, p, hc, htmp, hlen, hbegins⟩ := h
      obtain ⟨c', hc', hsame⟩ := hfound job c rfl hc
      refine ⟨c', p, hc', by rw [hlustre, htmp], hlen, ?_⟩
      rw [hreader]
      refine prefix_of_take_eq hbegins ?_
      rw [List.length_append, hlen]
      exact hsame
  | write job off chunk =>
      rw [hw] at h hfound
      obtain ⟨c, p, hc, htmp, hlen, hbegins⟩ := h
      obtain ⟨c', hc', hsame⟩ := hfound job c rfl hc
      refine ⟨c', p, hc', by rw [hlustre, htmp], hlen, ?_⟩
      rw [hreader]
      refine prefix_of_take_eq hbegins ?_
      rw [List.length_append, hlen]
      exact hsame
  | rename job off =>
      rw [hw] at h hfound
      obtain ⟨c, hc, htmp⟩ := h
      obtain ⟨c', hc', hsame⟩ := hfound job c rfl hc
      exact ⟨c', hc', by rw [hlustre, htmp, ← show c' = c from hsame]⟩
  | account job off | unlink job =>
      rw [hw] at h hfound
      obtain ⟨c, hc, hremote⟩ := h
      obtain ⟨c', hc', hsame⟩ := hfound job c rfl hc
      exact ⟨c', hc', by rw [hlustre, hremote, ← show c' = c from hsame]⟩
  | _ => trivial

theorem Faithful.trainer (hs : Faithful s) (hworker : t.worker = s.worker)
    (hreader : t.reader = s.reader) (hlustre : t.lustreDir = s.lustreDir)
    (hchunk : t.chunkBytes = s.chunkBytes)
    (hlocal : ∀ name, s.localDir name ≠ none → ∃ c, t.localDir name = some c)
    (htaken : ∀ job ∈ s.worker.job?, s.taken (content t.localDir job.localName) =
      s.taken (content s.localDir job.localName)) : Faithful t where
  copy := by
    rw [hworker]
    exact hs.copy.kept hlustre hreader (fun job _ => hlocal job.localName) htaken
  usable := by
    have husable := hs.usable
    unfold CkptState.started at husable ⊢
    rw [hworker, hreader, hchunk]
    exact husable

/-- What a step inside a read holds and leaves is what there was. -/
theorem ReadStep.left_eq {job : FlushJob} {off : Nat} {i : FlushInput}
    {r : Option Bytes × BufferedReader UInt8} {data : Bytes}
    (h : ReadStep cfg s job off i r data) :
    r.1.getD [] ++ (afterRead s job off r).left job (off + (r.1.getD []).length) =
      s.left job off := by
  have hlen := congrArg List.length h.kept
  obtain ⟨later, hlater⟩ := h.takes
  have hrest : (content s.localDir job.localName).drop
      (off + (r.1.getD []).length + r.2.held.length) = later := by
    rw [List.length_append, List.length_append] at hlen
    rw [Nat.add_assoc, hlen, ← Nat.add_assoc, ← List.drop_drop, ← hlater,
      List.drop_left]
  unfold CkptState.left
  rw [show (afterRead s job off r).localDir = s.localDir from rfl,
    show (afterRead s job off r).reader = r.2 from rfl, hrest, ← List.append_assoc,
    h.kept, ← hlater, List.append_assoc]

/-- A step inside a read. -/
theorem Faithful.read {job : FlushJob} {off : Nat} {i : FlushInput}
    (hs : Faithful s) (hreader : ReaderOk cfg s) (hpc : s.worker = .read job off)
    (hi : i = .next ∨ ∃ n, i = .raw n) (hkept : Kept cfg s (.worker i))
    (hstep : workerStep cfg s i = some t) : Faithful t := by
  have hcopy := hs.copy
  have husable := hs.usable
  unfold CkptState.started at husable
  rw [hpc] at hcopy husable
  obtain ⟨c, p, hc, htmp, hlen, hbegins⟩ := hcopy
  obtain ⟨r, data, h, rfl⟩ := workerStep_read hreader hpc hi hstep
  have hcontent : content s.localDir job.localName = c := by simp [content, hc]
  rw [← hcontent] at hbegins
  have htaken := h.begins hlen hbegins
  have hcomplete := fun hend => h.complete hlen hbegins hend fun hnext hzero => by
    subst hnext
    exact hkept job off hpc hzero
  rw [hcontent] at htaken hcomplete
  have hsize : s.chunkBytes ≠ 0 → Usable s.chunkBytes := by
    intro hne
    by_cases hnext : i = .next
    · exact ⟨(h.size_valid hnext).1, (h.size_valid hnext).2, hne⟩
    · obtain ⟨-, got, filled, hr⟩ := h.reading hnext
      exact husable (.inr (by simp [hr]))
  obtain ⟨returned, reader⟩ := r
  have hended : s.chunkBytes = 0 → returned = some [] := by
    intro hzero
    by_cases hnext : i = .next
    · exact h.size_zero hnext hzero
    · exact absurd hzero (h.reading hnext).1
  cases returned with
  | none =>
      refine ⟨⟨c, p, hc, htmp, hlen, htaken⟩, fun _ => hsize fun hzero => ?_⟩
      cases hended hzero
  | some chunk =>
      by_cases hend : chunk = []
      · -- nothing is left to read, so the copy is complete
        have hall : p = c := hcomplete (by rw [hend])
        refine ⟨?_, ?_⟩
        · simp only [afterRead, hend, if_true]
          exact ⟨c, hc, hall ▸ htmp⟩
        · simp [CkptState.started, afterRead, hend]
      · refine ⟨?_, fun _ => hsize fun hzero => hend ?_⟩
        · simp only [afterRead, if_neg hend]
          exact ⟨c, p, hc, htmp, hlen, htaken⟩
        · exact Option.some.inj (hended hzero)

theorem Faithful.worker {i : FlushInput} (hs : Faithful s) (hreader : ReaderOk cfg s)
    (hkept : Kept cfg s (.worker i)) (hstep : workerStep cfg s i = some t) : Faithful t := by
  have hcopy := hs.copy
  have husable := hs.usable
  unfold CkptState.started at husable
  cases flushStep_of_step hstep with
  | openSrc hpc hfile => exact ⟨⟨_, hfile⟩, by simp [CkptState.started]⟩
  | openTmp hpc =>
      rw [hpc] at hcopy
      obtain ⟨c, hc⟩ := hcopy
      have hopened : s.reader = .ready [] := by
        unfold ReaderOk at hreader
        rw [hpc] at hreader
        exact hreader
      exact ⟨⟨c, [], hc, by simp, rfl, by simp [hopened]⟩,
        by simp [CkptState.started, hopened]⟩
  | resize hpc =>
      rw [hpc] at hcopy husable
      exact ⟨hcopy.goto _ _ (by simp) ⟨rfl, rfl, rfl⟩,
        fun h => usable_resizeChunk (husable h) _⟩
  | unpaced hpc _ | blocked hpc _ _ | granted hpc _ _ | passes hpc | waits hpc _
  | recompute hpc =>
      rw [hpc] at hcopy husable
      exact ⟨hcopy.goto _ _ (by simp) ⟨rfl, rfl, rfl⟩, husable⟩
  | read hpc hi =>
      exact hs.read hreader hpc hi hkept hstep
  | @write job off chunk hpc =>
      rw [hpc] at hcopy husable
      obtain ⟨c, p, hc, htmp, hlen, hbegins⟩ := hcopy
      refine ⟨⟨c, p ++ chunk, hc, ?_, ?_, ?_⟩, fun _ => husable trivial⟩
      · simp [content, htmp]
      · rw [List.length_append, hlen]
      · rw [List.append_assoc]
        exact hbegins
  | rename hpc htmp =>
      rw [hpc] at hcopy
      obtain ⟨c, hc, hcopied⟩ := hcopy
      obtain rfl := Option.some.inj (htmp.symm.trans hcopied)
      exact ⟨⟨_, hc, by simp⟩, by simp [CkptState.started]⟩
  | account hpc =>
      rw [hpc] at hcopy
      exact ⟨hcopy, by simp [CkptState.started]⟩
  | _ => exact ⟨trivial, by simp [CkptState.started]⟩

theorem Faithful.step {e : CkptEvent} (hs : Faithful s) (hreader : ReaderOk cfg s)
    (hkept : Kept cfg s e)
    (hstep : step cfg s e = some t) : Faithful t := by
  cases e with
  | save k partialData data =>
      have htaken := fun job hjob => hkept job hjob t hstep
      obtain ⟨-, rfl⟩ := by simpa [CheckpointManager.step] using hstep
      exact hs.trainer rfl rfl rfl rfl (fun name h => exists_update h) htaken
  | saver =>
      have hframe := saverStep_frame hstep
      exact hs.trainer hframe.worker hframe.reader hframe.lustre hframe.chunk
        hframe.local_kept fun job hjob => hkept job hjob t hstep
  | worker i => exact hs.worker hreader hkept hstep
  | shutdown =>
      obtain rfl := by simpa [CheckpointManager.step] using hstep
      exact ⟨hs.copy, hs.usable⟩

/-! ### What happens otherwise -/

/-- The flush thread comes to an unlink with another file published. -/
def Unfaithful (cfg : CkptConfig) (s : CkptState) : Prop :=
  ∃ u job, Runs.Reachable (step cfg) s u ∧ u.worker = .unlink job ∧
    u.lustreDir job.remoteName ≠ u.localDir job.localName

theorem Unfaithful.of_reachable (h : Unfaithful cfg t)
    (hrun : Runs.Reachable (step cfg) s t) : Unfaithful cfg s := by
  obtain ⟨u, job, hu, hrest⟩ := h
  exact ⟨u, job, hrun.trans hu, hrest⟩

/-- A statement of the flush thread as a step of the manager. -/
theorem worker_reaches {i : FlushInput} (hstep : workerStep cfg s i = some t) :
    Runs.Reachable (step cfg) s t :=
  .tail (e := .worker i) .refl trivial hstep

theorem unfaithful_of_account {job : FlushJob} {off : Nat}
    (hpc : s.worker = .account job off)
    (hne : s.lustreDir job.remoteName ≠ s.localDir job.localName) :
    Unfaithful cfg s := by
  have hstep : workerStep cfg s .next = some { s with
      bytesLustre := s.bytesLustre + off
      bytesPending := s.bytesPending - job.sizeBytes
      flushCount := s.flushCount + 1
      worker := .unlink job } := by
    simp [workerStep, hpc]
  exact ⟨_, job, worker_reaches hstep, rfl, hne⟩

theorem unfaithful_of_rename {job : FlushJob} {off : Nat} {p : Bytes}
    (hpc : s.worker = .rename job off)
    (htmp : s.lustreDir (tmpName job.remoteName) = some p)
    (hne : s.localDir job.localName ≠ some p) : Unfaithful cfg s := by
  have hstep : workerStep cfg s .next = some { s with
      lustreDir := Function.update
        (Function.update s.lustreDir (tmpName job.remoteName) none)
        job.remoteName (some p)
      worker := .account job off } := by
    simp [workerStep, hpc, htmp]
  refine Unfaithful.of_reachable ?_ (worker_reaches hstep)
  refine unfaithful_of_account (show _ = FlushPc.account job off from rfl) ?_
  simpa [eq_comm] using hne

/-- The copy loop comes to its read without touching a file. -/
theorem reaches_read (cfg : CkptConfig) (job : FlushJob) (off : Nat)
    (hpc : s.worker ∈ [FlushPc.resize job off, .pace job off, .gate job off,
      .recompute job off, .read job off]) :
    ∃ u, Runs.Reachable (step cfg) s u ∧ u.worker = .read job off ∧
      u.localDir = s.localDir ∧ u.lustreDir = s.lustreDir ∧
      u.chunkBytes = s.chunkBytes ∧ u.reader = s.reader := by
  have hpace : ∀ {s : CkptState}, s.worker = .pace job off →
      ∃ u, Runs.Reachable (step cfg) s u ∧ u.worker = .read job off ∧
        u.localDir = s.localDir ∧ u.lustreDir = s.lustreDir ∧
        u.chunkBytes = s.chunkBytes ∧ u.reader = s.reader := by
    intro s hpc
    cases hmonitor : cfg.hasMonitor with
    | true =>
        have hstep : workerStep cfg s (.rate 1 1) = some { s with
            throttleWaits :=
              s.throttleWaits + (throttles s.chunkBytes 1 1).toNat
            worker := .read job off } := by
          have hpos : ¬ (1 : ℚ) ≤ 0 := by decide
          simp [workerStep, hpc, hmonitor, hpos]
        exact ⟨_, worker_reaches hstep, rfl, rfl, rfl, rfl, rfl⟩
    | false =>
        have hstep : workerStep cfg s .next =
            some { s with worker := .read job off } := by
          simp [workerStep, hpc, hmonitor]
        exact ⟨_, worker_reaches hstep, rfl, rfl, rfl, rfl, rfl⟩
  have hrecompute : ∀ {s : CkptState}, s.worker = .recompute job off →
      ∃ u, Runs.Reachable (step cfg) s u ∧ u.worker = .read job off ∧
        u.localDir = s.localDir ∧ u.lustreDir = s.lustreDir ∧
        u.chunkBytes = s.chunkBytes ∧ u.reader = s.reader := by
    intro s hpc
    have hstep : workerStep cfg s (.rate 1 1) =
        some { s with worker := .read job off } := by
      simp [workerStep, hpc]
    exact ⟨_, worker_reaches hstep, rfl, rfl, rfl, rfl, rfl⟩
  simp only [List.mem_cons, List.not_mem_nil, or_false] at hpc
  rcases hpc with hpc | hpc | hpc | hpc | hpc
  · have hstep : workerStep cfg s (.target none) =
        some { s with worker := .pace job off } := by
      simp [workerStep, hpc, resizeChunk]
    obtain ⟨u, hu, hrest⟩ := hpace (s := { s with worker := .pace job off }) rfl
    exact ⟨u, (worker_reaches hstep).trans hu, hrest⟩
  · exact hpace hpc
  · have hstep : workerStep cfg s (.gate true) =
        some { s with worker := .recompute job off } := by
      simp [workerStep, hpc]
    obtain ⟨u, hu, hrest⟩ :=
      hrecompute (s := { s with worker := .recompute job off }) rfl
    exact ⟨u, (worker_reaches hstep).trans hu, hrest⟩
  · exact hrecompute hpc
  · exact ⟨s, .refl, hpc, rfl, rfl, rfl, rfl⟩

theorem readerOk_of_reachable (hs : ReaderOk cfg s)
    (hrun : Runs.Reachable (step cfg) s t) : ReaderOk cfg t :=
  hrun.invariant hs fun _ _ _ hs _ hstep => hs.step hstep

/-- The read that `s` is at has returned `chunk` in `u`. -/
structure Returned (cfg : CkptConfig) (job : FlushJob) (off : Nat) (s : CkptState)
    (chunk : Bytes) (u : CkptState) : Prop where
  run : Runs.Reachable (step cfg) s u
  worker : u.worker = if chunk = [] then .rename job off else .write job off chunk
  localDir : u.localDir = s.localDir
  lustreDir : u.lustreDir = s.lustreDir
  chunkBytes : u.chunkBytes = s.chunkBytes
  left : chunk ++ u.left job (off + chunk.length) = s.left job off
  ends : chunk = [] → s.left job off = []

theorem Returned.after {job : FlushJob} {off : Nat} {chunk : Bytes} {u : CkptState}
    (h : Returned cfg job off t chunk u) (hrun : Runs.Reachable (step cfg) s t)
    (hsame : t.localDir = s.localDir ∧ t.lustreDir = s.lustreDir ∧
      t.chunkBytes = s.chunkBytes) (hleft : t.left job off = s.left job off) :
    Returned cfg job off s chunk u where
  run := hrun.trans h.run
  worker := h.worker
  localDir := h.localDir.trans hsame.1
  lustreDir := h.lustreDir.trans hsame.2.1
  chunkBytes := h.chunkBytes.trans hsame.2.2
  left := h.left.trans hleft
  ends := fun hnil => hleft ▸ h.ends hnil

/-- A call that waits for a raw read returns, if it is given a byte at a time. -/
theorem returned_of_reading {job : FlushJob} {off filled : Nat} {got : Bytes}
    (hreader : ReaderOk cfg s) (hpc : s.worker = .read job off)
    (hr : s.reader = .reading got filled) : ∃ chunk u, Returned cfg job off s chunk u := by
  induction hleft : ((content s.localDir job.localName).drop (off + got.length)).length
    using Nat.strong_induction_on generalizing s got filled with
  | _ n ih =>
      have hstep : workerStep cfg s (.raw 1) = some (afterRead s job off
          (BufferedReader.feed cfg.bufferSize s.chunkBytes got filled
            (rawChunk cfg s job off got filled 1))) := by
        simp [workerStep, hpc, hr]
      obtain ⟨⟨returned, reader⟩, data, h, hafter⟩ :=
        workerStep_read hreader hpc (by simp) hstep
      rw [hafter] at hstep
      have hleft_eq := h.left_eq
      cases returned with
      | some chunk =>
          refine ⟨chunk, _, worker_reaches hstep, rfl, rfl, rfl, rfl, hleft_eq, ?_⟩
          rintro rfl
          rcases h.ends rfl with ⟨hnext, -⟩ | ⟨-, hheld, hdone⟩
          · cases hnext
          · simpa [CkptState.left, hheld] using hdone
      | none =>
          obtain ⟨hmore, filled', hgoes⟩ := h.goes rfl
          have htakes := h.takes
          rw [hr] at htakes hgoes
          have hlen := htakes.length_le
          have hpos := List.length_pos_of_ne_nil (hmore (by simp))
          rw [BufferedReader.held_reading, List.length_drop] at hlen
          rw [List.length_drop] at hleft
          obtain ⟨chunk, u, hu⟩ := ih _ (by
              rw [← hleft, List.length_drop]
              rw [BufferedReader.held_reading, List.length_append]
              show (content s.localDir job.localName).length - _ < _
              omega) (hreader.worker hstep) rfl hgoes rfl
          exact ⟨chunk, u, hu.after (worker_reaches hstep) ⟨rfl, rfl, rfl⟩ hleft_eq⟩

/-- A read returns, if it is left alone. -/
theorem returned_of_read {job : FlushJob} {off : Nat} (hreader : ReaderOk cfg s)
    (hpc : s.worker = .read job off) (hsize : Usable s.chunkBytes) :
    ∃ chunk u, Returned cfg job off s chunk u := by
  cases hr : s.reader with
  | reading got filled => exact returned_of_reading hreader hpc hr
  | ready ahead =>
      obtain ⟨hlow, hhigh, hne⟩ := hsize
      have hvalid : ¬ (s.chunkBytes < -1 ∨ 2 ^ 63 ≤ s.chunkBytes) := by omega
      have hstep : workerStep cfg s .next = some (afterRead s job off
          (BufferedReader.start s.chunkBytes ahead)) := by
        simp only [workerStep, hpc, hr, if_neg hvalid]
      obtain ⟨⟨returned, reader⟩, data, h, hafter⟩ :=
        workerStep_read hreader hpc (by simp) hstep
      rw [hafter] at hstep
      have hleft_eq := h.left_eq
      cases returned with
      | some chunk =>
          refine ⟨chunk, _, worker_reaches hstep, rfl, rfl, rfl, rfl, hleft_eq, ?_⟩
          rintro rfl
          rcases h.ends rfl with ⟨-, hzero⟩ | ⟨hnext, -⟩
          · exact absurd hzero hne
          · exact absurd rfl hnext
      | none =>
          obtain ⟨-, filled, hgoes⟩ := h.goes rfl
          obtain ⟨chunk, u, hu⟩ :=
            returned_of_reading (hreader.worker hstep) rfl hgoes
          exact ⟨chunk, u, hu.after (worker_reaches hstep) ⟨rfl, rfl, rfl⟩ hleft_eq⟩

/-- Left alone, the copy loop appends what it has still to write to what it has
written, and so publishes another file if that was not the beginning of the
source. -/
theorem unfaithful_of_read {job : FlushJob} {off : Nat} {c p : Bytes}
    (hreader : ReaderOk cfg s) (hpc : s.worker = .read job off)
    (hlocal : s.localDir job.localName = some c)
    (htmp : s.lustreDir (tmpName job.remoteName) = some p)
    (hsize : Usable s.chunkBytes) (hne : p ++ s.left job off ≠ c) :
    Unfaithful cfg s := by
  induction hlen : (s.left job off).length using Nat.strong_induction_on
    generalizing s off p with
  | _ n ih =>
      obtain ⟨chunk, u, hu⟩ := returned_of_read hreader hpc hsize
      refine Unfaithful.of_reachable ?_ hu.run
      have hworker := hu.worker
      by_cases hend : chunk = []
      · rw [if_pos hend] at hworker
        rw [hu.ends hend, List.append_nil] at hne
        refine unfaithful_of_rename hworker (p := p) (by rw [hu.lustreDir, htmp]) ?_
        rw [hu.localDir, hlocal]
        exact fun h => hne (Option.some.inj h).symm
      · rw [if_neg hend] at hworker
        -- the chunk is written, and the loop starts again
        have hwrite : workerStep cfg u .next = some { u with
            lustreDir := Function.update u.lustreDir
              (tmpName job.remoteName) (some (p ++ chunk))
            worker := .resize job (off + chunk.length) } := by
          simp [workerStep, hworker, content, hu.lustreDir, htmp]
        obtain ⟨v, hv, hvpc, hvlocal, hvlustre, hvsize, hvreader⟩ :=
          reaches_read cfg job (off + chunk.length)
            (s := { u with
              lustreDir := Function.update u.lustreDir
                (tmpName job.remoteName) (some (p ++ chunk))
              worker := .resize job (off + chunk.length) }) (by simp)
        have hrun := (worker_reaches hwrite).trans hv
        have hleft : v.left job (off + chunk.length) =
            u.left job (off + chunk.length) := by
          unfold CkptState.left
          rw [hvlocal, hvreader]
        refine Unfaithful.of_reachable (ih _ ?_ (p := p ++ chunk)
          (readerOk_of_reachable (readerOk_of_reachable hreader hu.run) hrun) hvpc ?_ ?_
          ?_ ?_ rfl) hrun
        · rw [← hlen, ← hu.left, List.length_append, hleft]
          have hpos := List.length_pos_of_ne_nil hend
          omega
        · rw [hvlocal, hu.localDir, hlocal]
        · rw [hvlustre]
          exact Function.update_self _ _ _
        · rw [hvsize, hu.chunkBytes]
          exact hsize
        · rw [hleft, List.append_assoc, hu.left]
          exact hne

/-- The same anywhere in the copy loop. -/
theorem unfaithful_of_copying (job : FlushJob) (off : Nat) {c p : Bytes}
    (hreader : ReaderOk cfg s)
    (hpc : s.worker ∈ [FlushPc.resize job off, .pace job off, .gate job off,
      .recompute job off, .read job off])
    (hlocal : s.localDir job.localName = some c)
    (htmp : s.lustreDir (tmpName job.remoteName) = some p)
    (hsize : Usable s.chunkBytes) (hlen : p.length = off)
    (hne : c.take (off + s.reader.held.length) ≠ p ++ s.reader.held) :
    Unfaithful cfg s := by
  obtain ⟨u, hu, hupc, hulocal, hulustre, husize, hureader⟩ :=
    reaches_read cfg job off hpc
  refine Unfaithful.of_reachable (unfaithful_of_read (c := c) (p := p)
    (readerOk_of_reachable hreader hu) hupc ?_ ?_ ?_ ?_) hu
  · rw [hulocal, hlocal]
  · rw [hulustre, htmp]
  · rw [husize]
    exact hsize
  · intro h
    apply hne
    unfold CkptState.left at h
    rw [hureader, ← List.append_assoc] at h
    rw [← h, ← hlen, ← List.length_append, List.take_left]

/-- A save that changes what the flush has already taken. -/
theorem unfaithful_of_disturbed {job : FlushJob} (hs : Faithful s)
    (hok : ReaderOk cfg t) (hworker : t.worker = s.worker)
    (hreader : t.reader = s.reader) (hlustre : t.lustreDir = s.lustreDir)
    (hchunk : t.chunkBytes = s.chunkBytes)
    (hlocal : ∀ name, s.localDir name ≠ none → ∃ c, t.localDir name = some c)
    (hjob : job ∈ s.worker.job?)
    (htaken : s.taken (content t.localDir job.localName) ≠
      s.taken (content s.localDir job.localName)) :
    Unfaithful cfg t := by
  have hcopy := hs.copy
  have husable := hs.usable
  have hfound : ∀ c, s.localDir job.localName = some c →
      ∃ c', t.localDir job.localName = some c' ∧ s.taken c' ≠ s.taken c := by
    intro c hc
    obtain ⟨c', hc'⟩ := hlocal job.localName (by simp [hc])
    exact ⟨c', hc', by simpa [content, hc, hc'] using htaken⟩
  unfold CkptState.taken at hfound
  unfold CkptState.started at husable
  cases hpc : s.worker with
  | resize job' off | pace job' off | gate job' off | recompute job' off
  | read job' off =>
      rw [hpc] at hcopy husable hjob hfound
      obtain rfl : job' = job := by simpa [FlushPc.job?] using hjob
      obtain ⟨c, p, hc, htmp, hlen, hbegins⟩ := hcopy
      obtain ⟨c', hc', hdiffer⟩ := hfound c hc
      have htaken : c.take (off + s.reader.held.length) = p ++ s.reader.held := by
        rw [← hlen, ← List.length_append]
        exact (List.prefix_iff_eq_take.mp hbegins).symm
      have hsize : Usable t.chunkBytes := by
        rw [hchunk]
        refine husable ?_
        by_contra hfresh
        rw [not_or, not_not, not_not] at hfresh
        obtain ⟨rfl, hr⟩ := hfresh
        rw [hr] at hdiffer
        exact hdiffer rfl
      refine unfaithful_of_copying job' off (p := p) hok (by simp [hworker, hpc]) hc'
        (by rw [hlustre, htmp]) hsize hlen ?_
      rw [hreader, ← htaken]
      exact hdiffer
  | write job' off chunk =>
      rw [hpc] at hcopy husable hjob hfound
      obtain rfl : job' = job := by simpa [FlushPc.job?] using hjob
      obtain ⟨c, p, hc, htmp, hlen, hbegins⟩ := hcopy
      obtain ⟨c', hc', hdiffer⟩ := hfound c hc
      have htaken : c.take (off + (chunk ++ s.reader.held).length) =
          p ++ (chunk ++ s.reader.held) := by
        rw [← hlen, ← List.length_append]
        exact (List.prefix_iff_eq_take.mp hbegins).symm
      have hwrite : workerStep cfg t .next = some { t with
          lustreDir := Function.update t.lustreDir (tmpName job'.remoteName)
            (some (p ++ chunk))
          worker := .resize job' (off + chunk.length) } := by
        simp [workerStep, hworker, hpc, content, hlustre, htmp]
      refine Unfaithful.of_reachable ?_ (worker_reaches hwrite)
      have hsize : Usable t.chunkBytes := by
        rw [hchunk]
        exact husable trivial
      refine unfaithful_of_copying job' (off + chunk.length) (p := p ++ chunk)
        (hok.worker hwrite) (by simp) hc' (Function.update_self _ _ _) hsize
        (by rw [List.length_append, hlen]) ?_
      dsimp only
      rw [hreader, List.append_assoc, ← htaken, Nat.add_assoc, ← List.length_append]
      exact hdiffer
  | rename job' off =>
      rw [hpc] at hcopy hjob hfound
      obtain rfl : job' = job := by simpa [FlushPc.job?] using hjob
      obtain ⟨c, hc, htmp⟩ := hcopy
      obtain ⟨c', hc', hdiffer⟩ := hfound c hc
      refine unfaithful_of_rename (hworker.trans hpc) (hlustre ▸ htmp) ?_
      rw [hc']
      exact fun h => hdiffer (Option.some.inj h)
  | account job' off =>
      rw [hpc] at hcopy hjob hfound
      obtain rfl : job' = job := by simpa [FlushPc.job?] using hjob
      obtain ⟨c, hc, hremote⟩ := hcopy
      obtain ⟨c', hc', hdiffer⟩ := hfound c hc
      refine unfaithful_of_account (hworker.trans hpc) ?_
      rw [hlustre, hremote, hc']
      exact fun h => hdiffer (Option.some.inj h).symm
  | unlink job' =>
      rw [hpc] at hcopy hjob hfound
      obtain rfl : job' = job := by simpa [FlushPc.job?] using hjob
      obtain ⟨c, hc, hremote⟩ := hcopy
      obtain ⟨c', hc', hdiffer⟩ := hfound c hc
      refine ⟨t, job', .refl, hworker.trans hpc, ?_⟩
      rw [hlustre, hremote, hc']
      exact fun h => hdiffer (Option.some.inj h).symm
  | _ => simp [CkptState.taken, hpc] at htaken

/-- A step that breaks the condition leads on to an unlink with another file
published. -/
theorem unfaithful_of_not_kept {e : CkptEvent} (hs : Faithful s)
    (hreader : ReaderOk cfg s) (hbreaks : ¬ Kept cfg s e) (hstep : step cfg s e = some t) :
    Unfaithful cfg t := by
  cases e with
  | worker i =>
      cases i with
      | next =>
          obtain ⟨job, off, hpc, hzero, hrest⟩ : ∃ job off,
              s.worker = .read job off ∧ s.chunkBytes = 0 ∧
              (content s.localDir job.localName).drop off ≠ [] := by
            simpa [Kept, ReadsToEnd] using hbreaks
          have hcopy := hs.copy
          rw [hpc] at hcopy
          obtain ⟨c, p, hc, htmp, hlen, -⟩ := hcopy
          obtain ⟨r, data, h, rfl⟩ := workerStep_read hreader hpc (by simp) hstep
          have hended := h.size_zero rfl hzero
          have hend : (afterRead s job off r).worker = .rename job off := by
            simp [afterRead, hended]
          refine unfaithful_of_rename hend htmp ?_
          · rw [show (afterRead s job off r).localDir = s.localDir from rfl, hc]
            intro heq
            obtain rfl := Option.some.inj heq
            apply hrest
            simp [content, hc, ← hlen]
      | _ => exact absurd trivial hbreaks
  | save k partialData data =>
      obtain ⟨job, hjob, hdiffer⟩ : ∃ job ∈ s.worker.job?,
          s.taken (content t.localDir job.localName) ≠
            s.taken (content s.localDir job.localName) := by
        simpa [Kept, hstep] using hbreaks
      have hok := hreader.step hstep
      obtain ⟨-, rfl⟩ := by simpa [CheckpointManager.step] using hstep
      exact unfaithful_of_disturbed hs hok rfl rfl rfl rfl
        (fun name h => exists_update h) hjob hdiffer
  | saver =>
      have hsaver : saverStep cfg s = some t := hstep
      obtain ⟨job, hjob, hdiffer⟩ : ∃ job ∈ s.worker.job?,
          s.taken (content t.localDir job.localName) ≠
            s.taken (content s.localDir job.localName) := by
        simpa [Kept, hsaver] using hbreaks
      have hframe := saverStep_frame hsaver
      exact unfaithful_of_disturbed hs (hreader.step hstep) hframe.worker hframe.reader
        hframe.lustre hframe.chunk hframe.local_kept hjob hdiffer
  | shutdown => exact absurd trivial hbreaks

/-- **The local copy is removed only after a faithful copy**, in runs in which
empty reads are at the end of the source and saves leave what a flush has taken
as it was: at every unlink the file at the remote path is the local file.  A
step that breaks the condition leads on to an unlink where it is not. -/
theorem unlinked_after_copy
    (hrun : Runs.Reach (step cfg) (Kept cfg) (init cfg localDir lustreDir) s) :
    (∀ job, s.worker = .unlink job →
      ∃ c, s.localDir job.localName = some c ∧
        s.lustreDir job.remoteName = some c) ∧
    ∀ e t, ¬ Kept cfg s e → step cfg s e = some t →
      ∃ u job, Runs.Reachable (step cfg) t u ∧ u.worker = .unlink job ∧
        u.lustreDir job.remoteName ≠ u.localDir job.localName := by
  have hpres : ∀ s e t, (Faithful s ∧ ReaderOk cfg s) → Kept cfg s e →
      step cfg s e = some t → Faithful t ∧ ReaderOk cfg t := by
    intro s e t hs hkept hstep
    exact ⟨hs.1.step hs.2 hkept hstep, hs.2.step hstep⟩
  obtain ⟨hinv, hreader⟩ := hrun.invariant ⟨⟨trivial, by simp [init, CkptState.started]⟩,
    readerOk_init⟩ hpres
  refine ⟨fun job hpc => ?_, fun e t => unfaithful_of_not_kept hinv hreader⟩
  have hcopy := hinv.copy
  rw [hpc] at hcopy
  exact hcopy

/-- The copy loop up to the unlink, at an empty read, without a monitor. -/
def publishEvents : List CkptEvent :=
  [.worker (.target none), .worker .next, .worker .next, .worker .next,
    .worker .next]

/-- With `flush_chunk_bytes = 0` an empty file is published, and the local one
is about to be removed. -/
theorem zero_chunk_loses_file :
    ∃ s, Runs.Reachable (step { flushChunkBytes := 0 })
        (init { flushChunkBytes := 0 } (fun _ => none) (fun _ => none)) s ∧
      (∃ job, s.worker = .unlink job ∧ job.localName = ckptName 0 7 ∧
        job.remoteName = ckptName 0 7) ∧
      s.localDir (ckptName 0 7) = some [1] ∧
      s.lustreDir (ckptName 0 7) = some [] := by
  obtain ⟨s, hrun, hpc, hfiles⟩ : ∃ s,
      Runs.Reachable (step { flushChunkBytes := 0 })
        (init { flushChunkBytes := 0 } (fun _ => none) (fun _ => none)) s ∧
      s.worker = .unlink (flushJob {} 7 1) ∧
      s.localDir (ckptName 0 7) = some [1] ∧
      s.lustreDir (ckptName 0 7) = some [] :=
    Runs.Reachable.exists_of_exec
      (saveEvents 7 [1] ++ openEvents ++ publishEvents) (by decide +kernel)
  exact ⟨s, hrun, ⟨_, hpc, rfl, rfl⟩, hfiles⟩

instance Kept.decidable (s : CkptState) : ∀ e, Decidable (Kept cfg s e)
  | .worker .next => inferInstanceAs (Decidable (ReadsToEnd s))
  | .save k partialData data =>
      inferInstanceAs (Decidable (∀ job ∈ s.worker.job?,
        ∀ t ∈ CheckpointManager.step cfg s (.save k partialData data),
          s.taken (content t.localDir job.localName) =
            s.taken (content s.localDir job.localName)))
  | .saver =>
      inferInstanceAs (Decidable (∀ job ∈ s.worker.job?,
        ∀ t ∈ saverStep cfg s,
          s.taken (content t.localDir job.localName) =
            s.taken (content s.localDir job.localName)))
  | .worker (.target _) | .worker (.rate _ _) | .worker (.gate _)
  | .worker (.raw _) | .worker (.fail _) | .shutdown => isTrue trivial

/-- Byte by byte at first, adaptive under a monitor. -/
def adaptiveBytes : CkptConfig :=
  { byteChunks with adaptiveChunk := true, hasMonitor := true }

/-- The chunk size changes between the first chunk and the second. -/
theorem unlinked_after_copy_adaptive :
    ∃ s, Runs.Reach (step adaptiveBytes) (Kept adaptiveBytes)
        (init adaptiveBytes (fun _ => none) (fun _ => none)) s ∧
      s.chunkBytes = minChunkBytes ∧
      ∃ c, s.localDir (ckptName 0 7) = some c ∧
        s.lustreDir (ckptName 0 7) = some c := by
  obtain ⟨s, hrun, hchunk, hpc⟩ : ∃ s,
      Runs.Reach (step adaptiveBytes) (Kept adaptiveBytes)
        (init adaptiveBytes (fun _ => none) (fun _ => none)) s ∧
      s.chunkBytes = minChunkBytes ∧ s.worker = .unlink (flushJob {} 7 3) :=
    Runs.Reach.exists_of_exec
      (saveEvents 7 [1, 2, 3] ++ openEvents ++
        [CkptEvent.worker (.target none), .worker (.rate 1 1), .worker .next,
          .worker (.raw 8192), .worker .next, .worker (.target (some 0)),
          .worker (.rate 1 1), .worker .next, .worker (.raw 8192), .worker .next,
          .worker (.target none), .worker (.rate 1 1), .worker .next,
          .worker (.raw 8192), .worker .next, .worker .next])
      (by decide +kernel) (by decide +kernel)
  exact ⟨s, hrun, hchunk, (unlinked_after_copy hrun).1 _ hpc⟩

end CheckpointManager

end Tempo
