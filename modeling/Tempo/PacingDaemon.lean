import Mathlib.Data.List.Count
import Tempo.SpikeAbsorberFifo

/-!
# The pacing daemon

`run_loop` is the one consumer of the spike absorber, and one more producer:
when the token bucket is empty it puts the block it has drained back at the
tail.  `flush_block` hands a block to io_uring, and gives it up when no
submission entry is free even after a submit and a completion.  The loop is
given statement by statement over the absorber's atomic accesses, with the
producers of the absorber as the other threads; the token grants, the phase gate
and the state of the submission queue come with the events, and `running_`
stays true.

A block is followed by its ticket, the position at which a producer first
claimed it.  `origin` gives the ticket behind each claimed position, and the
tickets of all blocks put in by producers are `entered`.  Each of them is in
one place: `ringTickets`, `ticket` (the block the loop iteration holds),
`submitted`, `givenUp`, or `unplaced`, where a block goes whose return to a
full ring was refused.
-/

namespace Tempo

/-- What `io_uring_prep_write` and the loop put in a submission entry. -/
structure WriteSqe where
  buf : UInt64
  nbytes : UInt32
  offset : Int64
  userData : UInt64
  deriving DecidableEq

/-- The entry for a block; the offset encodes its identifier. -/
def prepWrite (blk : KVBlock) : WriteSqe :=
  { buf := blk.hostPtr
    nbytes := blk.sizeBytes.toUInt32
    offset := blk.blockId.toInt64 * 4096
    userData := blk.blockId }

/-- Where the daemon stands in `run_loop`. -/
inductive DaemonPc
  /-- the phase gate, at the head of the loop -/
  | gate
  /-- in `absorber_.drain(blk)` -/
  | draining
  /-- `bucket_.try_consume(blk.size_bytes)` -/
  | consume (blk : KVBlock)
  /-- in `absorber_.absorb(blk)` -/
  | reabsorb (blk : KVBlock)
  /-- first `io_uring_get_sqe` -/
  | getSqe (blk : KVBlock)
  /-- `io_uring_get_sqe` after a submit and a completion -/
  | retrySqe (blk : KVBlock)
  /-- `io_uring_prep_write` and `io_uring_submit` -/
  | submit (blk : KVBlock)
  deriving DecidableEq

/-- What the daemon learns at a statement. -/
inductive DaemonInput
  | next
  /-- no FFN window within `ffn_wait_us` -/
  | attention
  | granted (bytes : UInt64)
  | sqe (free : Bool)
  /-- the compare-and-swap of its own `absorb` fails spuriously -/
  | spurious
  deriving DecidableEq

/-- The daemon, the absorber and its producers; producer `none` is the daemon
itself. -/
structure PacingDaemon (cap : Capacity) (ι : Type*) where
  absorber : SpikeAbsorber cap (Option ι)
  pc : DaemonPc := .gate
  bytesFlushed : UInt64 := 0
  blocksFlushed : UInt64 := 0
  attentionPauses : UInt64 := 0
  origin : List Nat := []
  entered : List Nat := []
  accepted : List (Nat × KVBlock) := []
  ticket : Option Nat := none
  submitted : List (Nat × WriteSqe) := []
  givenUp : List Nat := []
  unplaced : List Nat := []

/-- The position and the block whose `absorb` is about to return true. -/
def AbsorbPc.accepting : AbsorbPc → List (Nat × KVBlock)
  | .accept blk pos => [(pos.toNat, blk)]
  | _ => []

namespace PacingDaemon

variable {cap : Capacity} {ι : Type*}

inductive Event (ι : Type*)
  /-- producer `p` calls `absorb` -/
  | absorb (p : ι) (blk : KVBlock)
  /-- the next access of producer `p` -/
  | producer (p : ι)
  | spurious (p : ι)
  /-- the next statement of the daemon -/
  | daemon (i : DaemonInput)

def init (found : Fin cap.size → KVBlock) : PacingDaemon cap ι :=
  { absorber := SpikeAbsorber.init found }

/-- The tickets of the blocks in the ring. -/
def ringTickets (s : PacingDaemon cap ι) : List Nat :=
  s.origin.drop s.absorber.released

/-- An access of `absorb` by `i` leads to `absorber`; a claim takes over the
ticket of the block the daemon holds, or issues a new one. -/
def absorbing (s : PacingDaemon cap ι) (i : Option ι)
    (absorber : SpikeAbsorber cap (Option ι)) : PacingDaemon cap ι :=
  if absorber.claimed.length = s.absorber.claimed.length then
    { s with absorber }
  else
    match i with
    | none =>
        { s with
          absorber
          origin := s.origin ++ s.ticket.toList
          ticket := none }
    | some _ =>
        { s with
          absorber
          origin := s.origin ++ [s.absorber.claimed.length]
          entered := s.entered ++ [s.absorber.claimed.length] }

section Absorbing

variable {s : PacingDaemon cap ι} {absorber : SpikeAbsorber cap (Option ι)}

theorem absorbing_same (i : Option ι)
    (h : absorber.claimed = s.absorber.claimed) :
    s.absorbing i absorber = { s with absorber } := by
  unfold absorbing
  rw [if_pos (by rw [h])]

theorem absorbing_none {blk : KVBlock}
    (h : absorber.claimed = s.absorber.claimed ++ [blk]) :
    s.absorbing none absorber = { s with
      absorber
      origin := s.origin ++ s.ticket.toList
      ticket := none } := by
  unfold absorbing
  rw [if_neg (by simp [h])]

theorem absorbing_some (p : ι) {blk : KVBlock}
    (h : absorber.claimed = s.absorber.claimed ++ [blk]) :
    s.absorbing (some p) absorber = { s with
      absorber
      origin := s.origin ++ [s.absorber.claimed.length]
      entered := s.entered ++ [s.absorber.claimed.length] } := by
  unfold absorbing
  rw [if_neg (by simp [h])]

end Absorbing

variable [DecidableEq ι]

/-- An access of the daemon's `drain`.  Releasing the slot makes the block the
loop's. -/
def drainStep (s : PacingDaemon cap ι) : Option (PacingDaemon cap ι) :=
  (s.absorber.step .consumer).map fun absorber =>
    match s.absorber.consumer with
    | .release _ _ =>
        { s with absorber, ticket := s.origin[s.absorber.drained.length]? }
    | .deliver out => { s with absorber, pc := .consume out }
    | _ =>
        -- an empty ring ends the iteration
        if absorber.consumer = .idle then { s with absorber, pc := .gate }
        else { s with absorber }

/-- An access of the daemon's `absorb`, whose result is ignored. -/
def reabsorbStep (s : PacingDaemon cap ι) : Option (PacingDaemon cap ι) :=
  (s.absorber.step (.producer none)).map fun absorber =>
    let t := s.absorbing none absorber
    match s.absorber.producer none with
    | .accept _ _ => { t with pc := .gate }
    | .refuse _ =>
        { t with
          pc := .gate
          unplaced := t.unplaced ++ t.ticket.toList
          ticket := none }
    | _ => t

/-- The next statement of `run_loop` and `flush_block`. -/
def daemonStep (strictGate : Bool) (s : PacingDaemon cap ι)
    (i : DaemonInput) : Option (PacingDaemon cap ι) :=
  match s.pc, i with
  | .gate, .attention =>
      if strictGate then
        some { s with attentionPauses := s.attentionPauses + 1 }
      else none
  | .gate, .next =>
      (s.absorber.step .drain).map fun absorber =>
        { s with absorber, pc := .draining }
  | .draining, .next => s.drainStep
  | .consume blk, .granted bytes =>
      if bytes = 0 then
        (s.absorber.step (.absorb none blk)).map fun absorber =>
          { s with absorber, pc := .reabsorb blk }
      else some { s with pc := .getSqe blk }
  | .reabsorb _, .next => s.reabsorbStep
  | .reabsorb _, .spurious =>
      (s.absorber.step (.spurious none)).map fun absorber =>
        { s with absorber }
  | .getSqe blk, .sqe free =>
      some { s with pc := if free then .submit blk else .retrySqe blk }
  | .retrySqe blk, .sqe true => some { s with pc := .submit blk }
  | .retrySqe _, .sqe false =>
      some { s with
        pc := .gate
        givenUp := s.givenUp ++ s.ticket.toList
        ticket := none }
  | .submit blk, .next =>
      some { s with
        pc := .gate
        bytesFlushed := s.bytesFlushed + blk.sizeBytes
        blocksFlushed := s.blocksFlushed + 1
        submitted := s.submitted ++ s.ticket.toList.map (·, prepWrite blk)
        ticket := none }
  | _, _ => none

/-- One step of one thread. -/
def step (strictGate : Bool) (s : PacingDaemon cap ι) :
    Event ι → Option (PacingDaemon cap ι)
  | .absorb p blk =>
      (s.absorber.step (.absorb (some p) blk)).map fun absorber =>
        { s with absorber }
  | .producer p =>
      (s.absorber.step (.producer (some p))).map fun absorber =>
        { s.absorbing (some p) absorber with
          accepted := s.accepted ++
            (s.absorber.producer (some p)).accepting }
  | .spurious p =>
      (s.absorber.step (.spurious (some p))).map fun absorber =>
        { s with absorber }
  | .daemon i => s.daemonStep strictGate i

end PacingDaemon

end Tempo
