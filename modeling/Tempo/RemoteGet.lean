import Tempo.ByteStream
import Tempo.P2PCache

/-!
# Reading from a peer

`_remote_get` sends its request and reads the length of the answer with one
`recv(8)`, then the data in a loop.  The loop does not depend on how the stream
is cut, but the one `recv` may hand out fewer than the eight bytes of the
length, and what it hands out is taken for the whole: the rest of the length is
read as data.  So a complete answer is returned exactly when its first eight
bytes arrive at once, and `None` is returned for one that ends early exactly
then or when the shorter number asks for nothing or for more than arrives
(`remoteGet_iff`).
-/

namespace Tempo

open ByteStream

/-- The answer of a peer: the length of the data in eight bytes, then the
data. -/
def frame (data : Bytes) : Bytes := bigEndian 8 data.length ++ data

/-- What `_remote_get` reads from a connection; `none` in place of the
connection is one that cannot be opened or written to.  Every exception ends in
`return None`. -/
def fetch (answer : Option Connection) : Option Bytes := do
  let c ← answer
  let (sizeBytes, c) ← c.recv 8
  let size := number sizeBytes
  if size = 0 then none
  else
    let data ← c.readUpTo 65536 size size []
    if data.length = size then some data else none

/-- Peers that answer over these connections. -/
def networkEnv (answers : Int → Option Connection) : P2PEnv :=
  { remoteGet := fun owner => fetch (answers owner) }

/-- How many bytes the first `recv(8)` hands out of `arrived`. -/
def firstRead (cut : Nat → Nat) (arrived : Nat) : Nat :=
  min (min (cut 0 + 1) 8) arrived

/-- The first `recv` hands out the whole length; or the answer ends early, and
the number that the bytes handed out spell is `0` or more than what follows
them. -/
def LengthRead (data : Bytes) (cut : Nat → Nat) (arrived : Nat) : Prop :=
  firstRead cut arrived = 8 ∨
    arrived < (frame data).length ∧
      (number ((bigEndian 8 data.length).take (firstRead cut arrived)) = 0 ∨
        arrived - firstRead cut arrived <
          number ((bigEndian 8 data.length).take (firstRead cut arrived)))

instance LengthRead.decidable (data : Bytes) (cut : Nat → Nat) (arrived : Nat) :
    Decidable (LengthRead data cut arrived) :=
  inferInstanceAs (Decidable (_ ∨ _))

/-- The data is what follows the first read, as much as the number that it
spells. -/
theorem fetch_eq (c : Connection) :
    fetch (some c) =
      if number (c.unread.take (min (c.cut 0 + 1) 8)) ≠ 0 ∧
          number (c.unread.take (min (c.cut 0 + 1) 8)) ≤
            (c.unread.drop (min (c.cut 0 + 1) 8)).length then
        some ((c.unread.drop (min (c.cut 0 + 1) 8)).take
          (number (c.unread.take (min (c.cut 0 + 1) 8))))
      else none := by
  unfold fetch
  simp only [Option.bind_eq_bind, Option.bind_some]
  by_cases hend : c.unread = []
  · rw [Connection.recv_at_end hend, hend]
    cases c.closes <;> simp [number]
  · rw [Connection.recv_of_unread hend]
    simp only [Option.bind_some]
    generalize min (c.cut 0 + 1) 8 = first
    generalize number (c.unread.take first) = size
    by_cases hsize : size = 0
    · rw [if_pos hsize, if_neg fun h => h.1 hsize]
    · rw [if_neg hsize, Connection.readUpTo_eq (by decide) _ _ _ (by simp)]
      simp only [List.length_nil, Nat.zero_add, List.nil_append, Nat.sub_zero]
      by_cases hfull : size ≤ (c.unread.drop first).length
      · rw [if_pos hfull, if_pos ⟨hsize, hfull⟩]
        simp only [Option.bind_some]
        rw [if_pos (List.length_take_of_le hfull)]
      · have hnot : ¬ (size ≠ 0 ∧ size ≤ (c.unread.drop first).length) :=
          fun h => hfull h.2
        rw [if_neg hfull, if_neg hnot]
        split
        · simp only [Option.bind_some]
          rw [if_neg fun heq => hfull heq.ge]
        · rfl

/-- To a peer that is known the call goes out. -/
theorem remoteGet_eq_fetch {cfg : P2PConfig} {owner : Int}
    (hnetwork : cfg.simulation = false) (hpeer : owner ∈ cfg.peerAddrs)
    (answers : Int → Option Connection) :
    P2PCacheStore.remoteGet cfg (networkEnv answers) owner =
      fetch (answers owner) := by
  unfold P2PCacheStore.remoteGet
  simp [hnetwork, hpeer, networkEnv]

section Frame

variable (data : Bytes) (cut : Nat → Nat) (arrived : Nat)

theorem length_frame : (frame data).length = 8 + data.length := by
  simp [frame]

/-- What the first `recv` hands out of a frame. -/
theorem take_frame :
    ((frame data).take arrived).take (min (cut 0 + 1) 8) =
      (bigEndian 8 data.length).take (firstRead cut arrived) := by
  have hfirst : firstRead cut arrived = min (min (cut 0 + 1) 8) arrived := rfl
  rw [List.take_take, ← hfirst]
  apply List.take_append_of_le_length
  rw [length_bigEndian, hfirst]
  omega

theorem length_drop_frame {arrived : Nat} (harrived : arrived ≤ (frame data).length) :
    (((frame data).take arrived).drop (min (cut 0 + 1) 8)).length =
      arrived - firstRead cut arrived := by
  have hfirst : firstRead cut arrived = min (min (cut 0 + 1) 8) arrived := rfl
  rw [List.length_drop, List.length_take, hfirst]
  omega

end Frame

/-- **Remote reads and fragmentation.**  Of an answer that arrives in full
`_remote_get` returns the data, and of one that ends early `None`, exactly when
its length is read as above. -/
theorem remoteGet_iff {cfg : P2PConfig} {owner : Int} {data : Bytes}
    {arrived : Nat} (hnetwork : cfg.simulation = false)
    (hpeer : owner ∈ cfg.peerAddrs) (hpos : 0 < data.length)
    (hsize : data.length < 2 ^ 64) (harrived : arrived ≤ (frame data).length)
    (cut : Nat → Nat) (closes : Bool) :
    P2PCacheStore.remoteGet cfg
        (networkEnv fun _ => some ⟨(frame data).take arrived, cut, closes⟩)
        owner =
      (if arrived = (frame data).length then some data else none) ↔
    LengthRead data cut arrived := by
  have hframe := length_frame data
  have hfirst : firstRead cut arrived = min (min (cut 0 + 1) 8) arrived := rfl
  rw [remoteGet_eq_fetch hnetwork hpeer, fetch_eq]
  dsimp only
  rw [take_frame, length_drop_frame data cut harrived]
  unfold LengthRead
  by_cases hwhole : firstRead cut arrived = 8
  · -- the length is read, and with it all of the data or less than all
    rw [iff_true_right (.inl hwhole)]
    have hnumber : number ((bigEndian 8 data.length).take
        (firstRead cut arrived)) = data.length := by
      rw [hwhole, List.take_of_length_le (by simp), number_bigEndian (by omega)]
    rw [hnumber, hwhole]
    by_cases hall : arrived = (frame data).length
    · have hcut : min (cut 0 + 1) 8 = 8 := by omega
      have hbody : ((frame data).take arrived).drop (min (cut 0 + 1) 8) = data := by
        rw [hcut, List.take_of_length_le hall.ge]
        exact List.drop_left' (length_bigEndian 8 _)
      rw [if_pos hall, if_pos ⟨by omega, by omega⟩, hbody,
        List.take_of_length_le le_rfl]
    · rw [if_neg hall, if_neg (by omega)]
  · -- a shorter number is read, for less than all of the data
    have hlt : number ((bigEndian 8 data.length).take (firstRead cut arrived)) <
        data.length :=
      number_take_lt hpos (by omega) (by omega)
    generalize number ((bigEndian 8 data.length).take (firstRead cut arrived)) =
      size at hlt ⊢
    by_cases hall : arrived = (frame data).length
    · rw [if_pos hall]
      apply iff_of_false
      · intro heq
        split at heq
        · have hlength := congrArg List.length (Option.some.inj heq)
          rw [List.length_take] at hlength
          omega
        · cases heq
      · omega
    · rw [if_neg hall]
      split
      · apply iff_of_false
        · exact Option.some_ne_none _
        · omega
      · apply iff_of_true
        · rfl
        · omega

/-- Rank `0` of two, that knows the other. -/
def twoRanks : P2PConfig :=
  { worldSize := 2, simulation := false, limits := { dram := 8, nvme := 8 },
    peerAddrs := [1] }

/-- A byte of data whose length arrives at once is returned, the data cut as it
may be. -/
theorem remoteGet_length_at_once :
    P2PCacheStore.remoteGet twoRanks
        (networkEnv fun _ =>
          some ⟨(frame [7, 8, 9]).take 11, fun i => if i = 0 then 7 else 0, true⟩)
        1 =
      some [7, 8, 9] := by
  have hread : LengthRead [7, 8, 9] (fun i => if i = 0 then 7 else 0) 11 := by
    decide
  exact (remoteGet_iff rfl (by decide) (by decide) (by decide) (by decide) _
    true).mpr hread

/-- With the length cut in the middle a byte of data is taken for none.  With
its last byte left over, the length of 256 bytes of data reads as one, and that
byte is returned, whether the data arrives or not. -/
theorem remoteGet_length_cut :
    P2PCacheStore.remoteGet twoRanks
        (networkEnv fun _ => some ⟨frame [7], fun _ => 3, true⟩) 1 = none ∧
    P2PCacheStore.remoteGet twoRanks
        (networkEnv fun _ =>
          some ⟨frame (List.replicate 256 7), fun _ => 6, true⟩) 1 =
      some [0] ∧
    P2PCacheStore.remoteGet twoRanks
        (networkEnv fun _ =>
          some ⟨(frame (List.replicate 256 7)).take 8, fun _ => 6, true⟩) 1 =
      some [0] := by
  decide +kernel

end Tempo
