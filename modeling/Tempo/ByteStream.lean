import Mathlib.Data.List.Basic
import Mathlib.Tactic.Ring

/-!
# Byte streams that arrive in pieces

A connection delivers the bytes of a stream in order, but a single `recv` hands
out as few of them as the network likes, at least one while there is any.
Reading on until a number of bytes is there gives the same bytes however the
stream is cut (`readUpTo_eq`); a single `recv` does not.

`number` reads a string of bytes as a big-endian number and `bigEndian` writes
one of fixed width.
-/

namespace ByteStream

/-- The big-endian number that bytes spell; nothing spells `0`. -/
def number (bytes : List UInt8) : Nat :=
  bytes.foldl (fun n b => 256 * n + b.toNat) 0

/-- The last `width` bytes of a number, most significant first. -/
def bigEndian : Nat → Nat → List UInt8
  | 0, _ => []
  | width + 1, n => bigEndian width (n / 256) ++ [UInt8.ofNat (n % 256)]

@[simp]
theorem length_bigEndian (width n : Nat) : (bigEndian width n).length = width := by
  induction width generalizing n with
  | zero => rfl
  | succ width ih => simp [bigEndian, ih]

theorem number_append (a b : List UInt8) :
    number (a ++ b) = number a * 256 ^ b.length + number b := by
  have hfold : ∀ n, b.foldl (fun n b => 256 * n + b.toNat) n =
      n * 256 ^ b.length + number b := by
    unfold number
    induction b with
    | nil => simp
    | cons x b ih =>
        intro n
        rw [List.foldl_cons, List.foldl_cons, ih, ih (256 * 0 + x.toNat),
          List.length_cons, pow_succ]
        ring
  unfold number at hfold ⊢
  rw [List.foldl_append, hfold]

theorem number_bigEndian {width n : Nat} (hn : n < 256 ^ width) :
    number (bigEndian width n) = n := by
  induction width generalizing n with
  | zero =>
      rw [pow_zero] at hn
      obtain rfl : n = 0 := by omega
      rfl
  | succ width ih =>
      have hhigh : n / 256 < 256 ^ width := by
        rw [pow_succ] at hn
        exact Nat.div_lt_of_lt_mul (by rwa [mul_comm])
      have hlow : number [UInt8.ofNat (n % 256)] = n % 256 := by
        have hbyte : n % 256 < UInt8.size := Nat.mod_lt _ (by decide)
        simp [number, Nat.mod_eq_of_lt hbyte]
      rw [bigEndian, number_append, ih hhigh, hlow, List.length_singleton, pow_one]
      omega

/-- Without its last bytes a positive number is smaller. -/
theorem number_take_lt {width n k : Nat} (hpos : 0 < n) (hn : n < 256 ^ width)
    (hk : k < width) : number ((bigEndian width n).take k) < n := by
  have hsplit := number_append ((bigEndian width n).take k)
    ((bigEndian width n).drop k)
  rw [List.take_append_drop, number_bigEndian hn, List.length_drop,
    length_bigEndian] at hsplit
  have hpow : 256 ^ 1 ≤ 256 ^ (width - k) :=
    Nat.pow_le_pow_right (by decide) (by omega)
  have hmul := Nat.mul_le_mul_left (number ((bigEndian width n).take k)) hpow
  omega

/-- What is still to be read: the bytes, how many of them each `recv` may hand
out at once (less one), and whether the other side closes the stream at its end;
else `recv` raises there. -/
structure Connection where
  unread : List UInt8
  cut : Nat → Nat
  closes : Bool

namespace Connection

/-- One `recv`, with what is left to be read; `none` if it raises. -/
def recv (c : Connection) (limit : Nat) : Option (List UInt8 × Connection) :=
  if c.unread = [] then
    if c.closes then some ([], c) else none
  else
    let size := min (c.cut 0 + 1) limit
    some (c.unread.take size,
      { c with unread := c.unread.drop size, cut := fun i => c.cut (i + 1) })

theorem recv_of_unread {c : Connection} (h : c.unread ≠ []) (limit : Nat) :
    c.recv limit =
      some (c.unread.take (min (c.cut 0 + 1) limit),
        { c with
          unread := c.unread.drop (min (c.cut 0 + 1) limit)
          cut := fun i => c.cut (i + 1) }) := by
  unfold recv
  rw [if_neg h]

/-- While there are bytes some of them arrive, no more than asked for. -/
theorem exists_recv {c : Connection} (h : c.unread ≠ []) {limit : Nat}
    (hlimit : 0 < limit) :
    ∃ n, n ≤ limit ∧ 0 < (c.unread.take n).length ∧
      c.recv limit = some (c.unread.take n, { c with
        unread := c.unread.drop n
        cut := fun i => c.cut (i + 1) }) := by
  have hpos : 0 < c.unread.length := List.length_pos_iff.mpr h
  refine ⟨min (c.cut 0 + 1) limit, min_le_right _ _, ?_, recv_of_unread h limit⟩
  rw [List.length_take]
  omega

theorem recv_at_end {c : Connection} (h : c.unread = []) (limit : Nat) :
    c.recv limit = if c.closes then some ([], c) else none := by
  unfold recv
  rw [if_pos h]

/-- Append what arrives to `data` until it has `size` bytes or the stream is
closed, in at most `turns` turns; `none` if a `recv` raises. -/
def readUpTo (limit size : Nat) : Nat → Connection → List UInt8 →
    Option (List UInt8)
  | 0, _, data => some data
  | turns + 1, c, data =>
      if data.length < size then
        (c.recv (min limit (size - data.length))).bind fun next =>
          if next.1 = [] then some data
          else readUpTo limit size turns next.2 (data ++ next.1)
      else some data

/-- With a turn for every byte that is missing, the cuts make no difference. -/
theorem readUpTo_eq {limit size : Nat} (hlimit : 0 < limit) (turns : Nat) :
    ∀ (c : Connection) (data : List UInt8), size - data.length ≤ turns →
      readUpTo limit size turns c data =
        if size ≤ data.length + c.unread.length then
          some (data ++ c.unread.take (size - data.length))
        else if c.closes then some (data ++ c.unread) else none := by
  induction turns with
  | zero =>
      intro c data hturns
      have hfull : size ≤ data.length + c.unread.length := by omega
      have hnone : size - data.length = 0 := by omega
      rw [if_pos hfull, hnone]
      simp [readUpTo]
  | succ turns ih =>
      intro c data hturns
      unfold readUpTo
      by_cases hmissing : data.length < size
      · rw [if_pos hmissing]
        by_cases hend : c.unread = []
        · have hshort : ¬ size ≤ data.length + c.unread.length := by
            rw [hend, List.length_nil]
            omega
          rw [if_neg hshort, recv_at_end hend]
          cases c.closes <;> simp [hend]
        · have hasked : 0 < min limit (size - data.length) := by omega
          obtain ⟨n, hle, hpos, hrecv⟩ := exists_recv hend hasked
          have hmost : n ≤ size - data.length := hle.trans (min_le_right _ _)
          rw [hrecv, Option.bind_some, if_neg (List.ne_nil_of_length_pos hpos), ih]
          · have hgot : (data ++ c.unread.take n).length + (c.unread.drop n).length =
                data.length + c.unread.length := by
              simp
              omega
            dsimp only
            rw [hgot]
            split
            next hfull =>
              have hrest : size - (data ++ c.unread.take n).length =
                  size - data.length - n := by
                rw [List.length_append, List.length_take]
                omega
              have htake : c.unread.take (size - data.length) =
                  c.unread.take n ++
                    (c.unread.drop n).take (size - data.length - n) := by
                rw [← List.take_add, Nat.add_sub_cancel' hmost]
              rw [hrest, htake, List.append_assoc]
            · rw [List.append_assoc, List.take_append_drop]
          · dsimp only
            rw [List.length_append]
            omega
      · have hfull : size ≤ data.length + c.unread.length := by omega
        have hnone : size - data.length = 0 := by omega
        rw [if_neg hmissing, if_pos hfull, hnone]
        simp

end Connection

end ByteStream
