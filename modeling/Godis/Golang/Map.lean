import Mathlib.Data.Finmap

/-!
# Maps

A map is a finite map.  A `range` over it goes through its keys in any order,
each of them once.
-/

namespace Golang

variable {Key Val : Type}

/-- The keys in an order in which a `range` may go through them. -/
structure Ranges (map : Finmap fun _ : Key => Val) (keys : List Key) : Prop where
  nodup : keys.Nodup
  mem : ∀ key, key ∈ keys ↔ key ∈ map

variable [DecidableEq Key]

theorem lookup_foldl_insert (val : Val) (keys : List Key) (map : Finmap fun _ : Key => Val)
    (key : Key) :
    (keys.foldl (fun map key => map.insert key val) map).lookup key =
      if key ∈ keys then some val else map.lookup key := by
  induction keys generalizing map with
  | nil => simp
  | cons head rest ih =>
    rw [List.foldl_cons, ih]
    by_cases later : key ∈ rest
    · simp [later]
    · by_cases same : key = head
      · subst same
        simp [later]
      · simp [later, same, Finmap.lookup_insert_of_ne _ same]

end Golang
