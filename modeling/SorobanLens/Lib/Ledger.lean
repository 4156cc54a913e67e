/-!
Books: operations that say how much they put in and how much they took out, and what
is there after a run of them.
-/

set_option autoImplicit false

namespace Ledger

variable {σ ι ε : Type}

structure Entry where
  put : Nat
  taken : Nat

def Entry.zero : Entry := ⟨0, 0⟩

def Entry.into (n : Nat) : Entry := ⟨n, 0⟩

def Entry.out (n : Nat) : Entry := ⟨0, n⟩

def Entry.add (a b : Entry) : Entry := ⟨a.put + b.put, a.taken + b.taken⟩

/-- What an operation says is what it did to the size; one that throws did nothing. -/
def Tells (before after : Nat) : Except ε Entry → Prop
  | .ok e => after + e.taken = before + e.put
  | .error _ => after = before

theorem Tells.ok {before after : Nat} {r : Except ε Entry} {e : Entry} (h : Tells before after r)
    (hr : r = .ok e) : after + e.taken = before + e.put := by
  rw [hr] at h
  exact h

end Ledger
