import Mathlib

/-!
# Dictionary coding by back references

Data as a sequence of tokens: literals, and references to data that came
before, which they repeat. A reference of length `n` at distance `d` needs
`n ≤ d`, so that what it repeats is complete before it is repeated, and `d` must
not reach beyond the start.

* `Token.append`: what a token denotes, `none` if a reference is not valid;
* `Token.Matches`: a token says what the data has at a position;
* `Token.Matches.append_take`: appending the tokens that the data matches gives the data.
-/

namespace AHPy

variable {α : Type}

/-- A literal, or a reference to the `length` items that begin `distance`
    before the current position. -/
inductive Token (α : Type)
  | literal (a : α)
  | reference (distance length : Nat)

namespace Token

/-- How many items a token stands for. -/
def size : Token α → Nat
  | .literal _ => 1
  | .reference _ length => length

/-- The data `out` followed by what the token denotes there. -/
def append (out : List α) : Token α → Option (List α)
  | .literal a => some (out ++ [a])
  | .reference distance length =>
    if length ≤ distance ∧ distance ≤ out.length then
      some (out ++ (out.drop (out.length - distance)).take length)
    else none

theorem length_append {out out' : List α} {t : Token α} (h : t.append out = some out') :
    out'.length = out.length + t.size := by
  rcases t with a | ⟨distance, length⟩
  · obtain rfl := Option.some.inj h
    exact List.length_append
  · rw [append] at h
    by_cases hd : length ≤ distance ∧ distance ≤ out.length
    · rw [if_pos hd] at h
      obtain rfl := Option.some.inj h
      rw [List.length_append, List.length_take, List.length_drop, size]
      omega
    · rw [if_neg hd] at h
      exact absurd h (Option.some_ne_none _).symm

/-- The token says what `data` has at the position `pos`. -/
def Matches (data : List α) (pos : Nat) : Token α → Prop
  | .literal a => data[pos]? = some a
  | .reference distance length =>
    length ≤ distance ∧ distance ≤ pos ∧ pos + length ≤ data.length ∧
      ∀ i < length, data[pos - distance + i]? = data[pos + i]?

theorem Matches.add_size_le {data : List α} {pos : Nat} {t : Token α} (h : t.Matches data pos) :
    pos + t.size ≤ data.length := by
  rcases t with a | ⟨distance, length⟩
  · exact List.getElem?_eq_some_iff.1 h |>.1
  · exact h.2.2.1

/-- A token that the data matches takes the data up to a position to the data
    up to the end of the token. -/
theorem Matches.append_take {data : List α} {pos : Nat} {t : Token α} (h : t.Matches data pos) :
    t.append (data.take pos) = some (data.take (pos + t.size)) := by
  have hle := h.add_size_le
  rcases t with a | ⟨distance, length⟩
  · obtain ⟨hlt, ha⟩ := List.getElem?_eq_some_iff.1 h
    rw [append, size, List.take_add_one, List.getElem?_eq_getElem hlt, ha]
    rfl
  · obtain ⟨hd, hp, hl, heq⟩ := h
    rw [size] at hle
    have hlen : (data.take pos).length = pos := List.length_take_of_le (by omega)
    rw [append, hlen, if_pos ⟨hd, hp⟩, size, List.take_add]
    congr 2
    -- Both are the `length` items of the data at the referenced position.
    refine List.ext_getElem? fun i => ?_
    by_cases hi : i < length
    · rw [List.getElem?_take_of_lt hi, List.getElem?_take_of_lt hi, List.getElem?_drop,
        List.getElem?_drop, List.getElem?_take_of_lt (by omega), heq i hi]
    · rw [List.getElem?_take_eq_none (by omega), List.getElem?_take_eq_none (by omega)]

end Token

end AHPy
