import Mathlib.Data.List.Induction
import Mathlib.Data.List.Pairwise
import Mathlib.Data.List.Perm.Basic
import Mathlib.Data.Option.Basic

/-!
# Writes at positions of a file

A file gives the element at each of its positions.  A write puts a list of elements
at consecutive positions and leaves the others; `replay` makes writes one after the
other.  Writes that no position has in common may be made in any order, and each of
them is found whole in the result.  Nothing here depends on what is written.
-/

namespace PositionedWrites

variable {β : Type*}

/-- What a file holds at each position. -/
abbrev Content (β : Type*) := Int → Option β

structure Write (β : Type*) where
  offset : Int
  data : List β

namespace Write

/-- What the write puts at a position, if it covers it. -/
def at? (w : Write β) (pos : Int) : Option β :=
  if w.offset ≤ pos then w.data[(pos - w.offset).toNat]? else none

/-- No position is covered by both. -/
def Apart (w w' : Write β) : Prop :=
  ∀ pos, w.at? pos = none ∨ w'.at? pos = none

instance : Std.Symm (@Apart β) where
  symm _ _ h pos := (h pos).symm

/-- A write covers the positions from its offset on, as many as it has elements. -/
theorem at?_isSome_iff (w : Write β) (pos : Int) :
    (w.at? pos).isSome ↔ w.offset ≤ pos ∧ pos < w.offset + w.data.length := by
  unfold at?
  split
  next hle =>
    rw [Option.isSome_iff_ne_none, ne_eq, List.getElem?_eq_none_iff]
    omega
  next hgt => simp [hgt]

theorem at?_offset_add (w : Write β) {k : Nat} (hk : k < w.data.length) :
    w.at? (w.offset + k) = some w.data[k] := by
  unfold at?
  rw [if_pos (by omega)]
  have hindex : (w.offset + (k : Int) - w.offset).toNat = k := by omega
  rw [hindex, List.getElem?_eq_getElem hk]

end Write

/-- The file after a write. -/
def apply (f : Content β) (w : Write β) : Content β :=
  fun pos => (w.at? pos).or (f pos)

/-- The file after writes, the first of the list first. -/
def replay (f : Content β) (ws : List (Write β)) : Content β :=
  ws.foldl apply f

variable {f : Content β} {w w' : Write β} {ws ws' : List (Write β)} {pos : Int}

theorem replay_concat (f : Content β) (ws : List (Write β)) (w : Write β) :
    replay f (ws ++ [w]) = apply (replay f ws) w :=
  List.foldl_concat apply f w ws

/-- Positions that no write covers are left. -/
theorem replay_of_uncovered (h : ∀ w ∈ ws, w.at? pos = none) :
    replay f ws pos = f pos := by
  induction ws using List.reverseRecOn with
  | nil => rfl
  | append_singleton ws w ih =>
      have hlast : w.at? pos = none := h w (by simp)
      rw [replay_concat, apply, hlast, Option.none_or]
      exact ih fun w' hw' => h w' (List.mem_append_left _ hw')

/-- Two writes that are apart commute. -/
theorem apply_comm (h : w.Apart w') : apply (apply f w) w' = apply (apply f w') w := by
  funext pos
  unfold apply
  rcases h pos with hnone | hnone <;> simp [hnone]

/-- Writes that are apart may be made in any order. -/
theorem replay_perm (hperm : ws.Perm ws') (hapart : ws.Pairwise Write.Apart) :
    replay f ws = replay f ws' := by
  apply hperm.foldl_eq'
  intro w hw w' hw' g
  by_cases hsame : w = w'
  · rw [hsame]
  · exact apply_comm (hapart.forall hw hw' hsame)

/-- Of writes that are apart each is found whole. -/
theorem replay_of_mem (hapart : ws.Pairwise Write.Apart) (hw : w ∈ ws) {b : β}
    (hb : w.at? pos = some b) : replay f ws pos = some b := by
  obtain ⟨before, after, rfl⟩ := List.append_of_mem hw
  have hlast : (before ++ w :: after).Perm (before ++ after ++ [w]) :=
    List.perm_middle.trans (List.perm_append_singleton w (before ++ after)).symm
  rw [replay_perm hlast hapart, replay_concat, apply, hb, Option.some_or]

end PositionedWrites
