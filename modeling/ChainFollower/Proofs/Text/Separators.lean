import ChainFollower.Text.Octets
import Mathlib.Data.List.Basic

/-!
# Texts of two parts

The id of an asset and the id of an output are two parts with a mark between them.  A part that
lacks the mark is found again in the whole: the front part up to the first mark, and the back part
from the last one on.  The other part may hold marks of its own.

Main statements: `takeWhile_separated` and `dropWhile_separated`, and `separated_inj`.
-/

namespace ChainFollower

variable {mark : Char} {front front' back back' : List Char}

theorem ne_mark_of_mem (free : mark ∉ front) : ∀ c ∈ front, (c != mark) = true :=
  fun _ hc => bne_iff_ne.2 fun same => free (same ▸ hc)

/-- A front part without a mark is what stands before the first mark, -/
theorem takeWhile_separated (back : List Char) (free : mark ∉ front) :
    (front ++ mark :: back).takeWhile (· != mark) = front := by
  rw [List.takeWhile_append_of_pos (ne_mark_of_mem free)]
  simp

/-- and the mark is the first of what is left. -/
theorem dropWhile_separated (back : List Char) (free : mark ∉ front) :
    (front ++ mark :: back).dropWhile (· != mark) = mark :: back := by
  rw [List.dropWhile_append_of_pos (ne_mark_of_mem free)]
  simp

/-- Nothing stands before the first of two marks if none comes behind it. -/
theorem eq_nil_of_separated {more : List Char} (free : mark ∉ back)
    (same : mark :: back = more ++ mark :: back') : more = [] := by
  cases more with
  | nil => rfl
  | cons c more =>
    -- The other mark would stand in the back part.
    have tail : back = more ++ mark :: back' := (List.cons.inj same).2
    exact absurd (tail ▸ List.mem_append_right more List.mem_cons_self) free

/-- Texts whose back parts have no mark are split at their last marks. -/
theorem separated_inj (free : mark ∉ back) (free' : mark ∉ back')
    (same : front ++ mark :: back = front' ++ mark :: back') : front = front' ∧ back = back' := by
  rcases List.append_eq_append_iff.1 same with ⟨more, rfl, rest⟩ | ⟨more, rfl, rest⟩
  · obtain rfl := eq_nil_of_separated free rest
    exact ⟨(List.append_nil front).symm, (List.cons.inj rest).2⟩
  · obtain rfl := eq_nil_of_separated free' rest
    exact ⟨List.append_nil front', (List.cons.inj rest).2.symm⟩

/-- The characters of a text of two parts. -/
theorem toList_separated {separator : String} (single : separator.toList = [mark])
    (front back : String) :
    (front ++ separator ++ back).toList = front.toList ++ mark :: back.toList := by
  rw [String.toList_append, String.toList_append, single, List.append_assoc]
  rfl

end ChainFollower
