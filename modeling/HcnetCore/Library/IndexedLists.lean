import Mathlib

/-! # Families of lists indexed by a finite type

A family `f : ι → List α` is read as one list, index after index along a list of indices without
repeats (`List.finRange` for `Fin L`). Changing the list at one index changes the whole by what
changed there, up to the order of the elements.
-/

namespace IndexedLists

set_option autoImplicit false

variable {ι α : Type} [DecidableEq ι]

theorem perm_flatMap_erase {ls : List ι} {i : ι} (hi : i ∈ ls) (f : ι → List α) :
    (ls.flatMap f).Perm (f i ++ (ls.erase i).flatMap f) := by
  simpa using (List.perm_cons_erase hi).flatMap_right f

theorem flatMap_erase_update {ls : List ι} (hnd : ls.Nodup) (i : ι) (f : ι → List α) (l : List α) :
    (ls.erase i).flatMap (Function.update f i l) = (ls.erase i).flatMap f :=
  List.flatMap_congr fun _ hj => Function.update_of_ne (fun h => hnd.not_mem_erase (h ▸ hj)) _ _

theorem perm_flatMap_update {ls : List ι} (hnd : ls.Nodup) {i : ι} (hi : i ∈ ls) (f : ι → List α)
    {l x y : List α} (h : (x ++ l).Perm (y ++ f i)) :
    (x ++ ls.flatMap (Function.update f i l)).Perm (y ++ ls.flatMap f) := by
  have h1 := perm_flatMap_erase hi (Function.update f i l)
  rw [Function.update_self, flatMap_erase_update hnd] at h1
  have h2 := perm_flatMap_erase hi f
  refine (h1.append_left x).trans ?_
  rw [← List.append_assoc]
  refine (h.append_right _).trans ?_
  rw [List.append_assoc]
  exact h2.symm.append_left y

end IndexedLists
