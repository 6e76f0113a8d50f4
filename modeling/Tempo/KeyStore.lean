import Mathlib.Data.List.Perm.Basic
import Mathlib.Logic.Function.Basic

/-!
# Key-value stores

A store is given by its four operations and the laws that relate them: a key
holds what was put to it last, until it is deleted, and the operations on one
key do not touch another.  What the store's states are is left open.

`putAll` puts a list of items in order.
-/

namespace Tempo

/-- A store of values `τ` under keys `κ`, with states `β`. -/
structure KeyStore (β κ τ : Type*) where
  get : β → κ → Option τ
  contains : β → κ → Bool
  put : β → κ → τ → β
  delete : β → κ → β
  contains_eq (b : β) (k : κ) : contains b k = (get b k).isSome
  get_put (b : β) (k : κ) (v : τ) : get (put b k v) k = some v
  get_put_of_ne (b : β) {k k' : κ} (v : τ) (hne : k ≠ k') :
    get (put b k v) k' = get b k'
  get_delete (b : β) (k : κ) : get (delete b k) k = none
  get_delete_of_ne (b : β) {k k' : κ} (hne : k ≠ k') :
    get (delete b k) k' = get b k'

namespace KeyStore

variable {β κ τ : Type*}

/-- A store whose states are functions. -/
def ofFun [DecidableEq κ] : KeyStore (κ → Option τ) κ τ where
  get b k := b k
  contains b k := (b k).isSome
  put b k v := Function.update b k (some v)
  delete b k := Function.update b k none
  contains_eq _ _ := rfl
  get_put b k v := Function.update_self k (some v) b
  get_put_of_ne b _ _ v hne := Function.update_of_ne hne.symm (some v) b
  get_delete b k := Function.update_self k none b
  get_delete_of_ne b _ _ hne := Function.update_of_ne hne.symm none b

/-- Put the items in order. -/
def putAll (store : KeyStore β κ τ) (b : β) (items : List (κ × τ)) : β :=
  items.foldl (fun b item => store.put b item.1 item.2) b

variable {store : KeyStore β κ τ} {b : β} {k : κ} {items : List (κ × τ)}

theorem putAll_concat (item : κ × τ) :
    store.putAll b (items ++ [item]) =
      store.put (store.putAll b items) item.1 item.2 := by
  simp [putAll]

/-- A key that is not among the items keeps what it held. -/
theorem get_putAll_of_notMem (hkey : ∀ item ∈ items, item.1 ≠ k) :
    store.get (store.putAll b items) k = store.get b k := by
  induction items generalizing b with
  | nil => rfl
  | cons item items ih =>
      have hrest : ∀ item ∈ items, item.1 ≠ k :=
        fun other hother => hkey other (List.mem_cons_of_mem _ hother)
      calc store.get (store.putAll b (item :: items)) k
          = store.get (store.put b item.1 item.2) k := ih hrest
        _ = store.get b k :=
            store.get_put_of_ne b item.2 (hkey item List.mem_cons_self)

/-- Where no key comes twice, each holds the value put to it. -/
theorem get_putAll_of_mem (hkeys : (items.map Prod.fst).Nodup)
    {item : κ × τ} (hitem : item ∈ items) :
    store.get (store.putAll b items) item.1 = some item.2 := by
  induction items generalizing b with
  | nil => cases hitem
  | cons first items ih =>
      obtain ⟨hfirst, hrest⟩ := List.nodup_cons.mp hkeys
      rcases List.mem_cons.mp hitem with rfl | hlater
      · have hother : ∀ other ∈ items, other.1 ≠ item.1 := by
          intro other hother heq
          exact hfirst (List.mem_map.mpr ⟨other, hother, heq⟩)
        calc store.get (store.putAll b (item :: items)) item.1
            = store.get (store.put b item.1 item.2) item.1 :=
              get_putAll_of_notMem hother
          _ = some item.2 := store.get_put b item.1 item.2
      · exact ih hrest hlater

/-- Stores that hold the same under every key contain the same keys. -/
theorem contains_congr {b' : β} (hget : store.get b k = store.get b' k) :
    store.contains b k = store.contains b' k := by
  rw [store.contains_eq, store.contains_eq, hget]

/-- Leaving out some of the items shows, unless the store held what they
put. -/
theorem get_putAll_eq_iff {kept dropped : List (κ × τ)}
    (hperm : items.Perm (dropped ++ kept))
    (hkeys : (items.map Prod.fst).Nodup) :
    (∀ k, store.get (store.putAll b items) k =
        store.get (store.putAll b kept) k) ↔
      ∀ item ∈ dropped, store.get b item.1 = some item.2 := by
  have hsplit : (dropped.map Prod.fst ++ kept.map Prod.fst).Nodup := by
    rw [← List.map_append]
    exact (hperm.map Prod.fst).nodup_iff.mp hkeys
  obtain ⟨-, hkept, hdisjoint⟩ := List.nodup_append.mp hsplit
  have hmem : ∀ item, item ∈ items ↔ item ∈ dropped ∨ item ∈ kept :=
    fun item => hperm.mem_iff.trans List.mem_append
  have hdropped : ∀ item ∈ dropped,
      store.get (store.putAll b kept) item.1 = store.get b item.1 := by
    intro item hitem
    apply get_putAll_of_notMem
    intro other hother heq
    exact hdisjoint _ (List.mem_map_of_mem hitem) _
      (List.mem_map_of_mem hother) heq.symm
  constructor
  · intro hsame item hitem
    have hput : store.get (store.putAll b items) item.1 = some item.2 :=
      get_putAll_of_mem hkeys ((hmem item).mpr (.inl hitem))
    rw [← hdropped item hitem, ← hsame, hput]
  · intro hheld k
    by_cases hkey : ∃ item ∈ items, item.1 = k
    · obtain ⟨item, hitem, rfl⟩ := hkey
      rw [get_putAll_of_mem hkeys hitem]
      rcases (hmem item).mp hitem with hdrop | hkeep
      · rw [hdropped item hdrop, hheld item hdrop]
      · rw [get_putAll_of_mem hkept hkeep]
    · have hnone : ∀ item ∈ items, item.1 ≠ k :=
        fun item hitem heq => hkey ⟨item, hitem, heq⟩
      have hnone' : ∀ item ∈ kept, item.1 ≠ k :=
        fun item hitem => hnone item ((hmem item).mpr (.inr hitem))
      rw [get_putAll_of_notMem hnone, get_putAll_of_notMem hnone']

end KeyStore

end Tempo
