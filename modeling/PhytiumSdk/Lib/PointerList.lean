import Mathlib.Data.List.Basic
import Mathlib.Data.List.Nodup
import Mathlib.Logic.Function.Basic
import Mathlib.Tactic.Common

/-!
# Singly linked lists

A memory of pointers: `mem q` is what is stored at the place `q`, and `link a`
is the place of the link field in the node `a`. `Threaded` says that the pointer
at a place is the first of a list of nodes that ends in a null pointer, and
`endPlace` where that null pointer stands. Code that appends through a pointer
to the last link keeps exactly this place.
-/

namespace Lib.PointerList

variable {π α : Type*} (link : α → π)

/-- The pointer at the place starts a list of these nodes. -/
inductive Threaded (mem : π → Option α) : π → List α → Prop
  | nil {q : π} (h : mem q = none) : Threaded mem q []
  | cons {q : π} {a : α} {l : List α} (h : mem q = some a) (hl : Threaded mem (link a) l) :
      Threaded mem q (a :: l)

/-- The place of the null pointer behind the list. -/
def endPlace (q : π) : List α → π
  | [] => q
  | a :: l => endPlace (link a) l

variable {link} {mem mem' : π → Option α} {q : π} {a : α} {l : List α}

theorem endPlace_mem : endPlace link q l ∈ q :: l.map link := by
  induction l generalizing q with
  | nil => exact List.mem_cons_self
  | cons b l ih => exact List.mem_cons_of_mem q ih

@[simp] theorem endPlace_concat : endPlace link q (l ++ [a]) = link a := by
  induction l generalizing q with
  | nil => rfl
  | cons b l ih => exact ih

theorem Threaded.pointer (h : Threaded link mem q l) : mem q = l.head? := by
  cases h with
  | nil h => exact h
  | cons h _ => exact h

/-- A list depends on the links it goes through only. -/
theorem Threaded.congr (h : Threaded link mem q l)
    (hsame : ∀ p ∈ q :: l.map link, mem' p = mem p) : Threaded link mem' q l := by
  induction h with
  | nil h => exact .nil ((hsame _ List.mem_cons_self).trans h)
  | cons h _ ih =>
      refine .cons ((hsame _ List.mem_cons_self).trans h) (ih ?_)
      exact fun p hp => hsame p (List.mem_cons_of_mem _ hp)

variable [DecidableEq π]

/-- **Appending**: the new node is stored at the place of the null pointer, and
brings its own. -/
theorem Threaded.append (h : Threaded link mem q l) (hfresh : link a ∉ q :: l.map link)
    (hplaces : (q :: l.map link).Nodup) (hnull : mem (link a) = none) :
    Threaded link (Function.update mem (endPlace link q l) (some a)) q (l ++ [a]) := by
  induction h with
  | @nil q h =>
      refine .cons (Function.update_self ..) (.nil ?_)
      rw [Function.update_of_ne, hnull]
      exact List.ne_of_not_mem_cons hfresh
  | @cons q b l h _ ih =>
      obtain ⟨hq, hrest⟩ := List.nodup_cons.mp hplaces
      refine .cons ?_ (ih (List.not_mem_of_not_mem_cons hfresh) hrest)
      rw [Function.update_of_ne, h]
      intro he
      refine hq ?_
      rw [he]
      exact endPlace_mem

/-- **Taking the first node**: its link moves to the place that pointed to it,
and is cleared. -/
theorem Threaded.unlink (h : Threaded link mem q (a :: l))
    (hplaces : (q :: (a :: l).map link).Nodup) :
    Threaded link (Function.update (Function.update mem q (mem (link a))) (link a) none) q l := by
  obtain ⟨hq, hrest⟩ := List.nodup_cons.mp hplaces
  obtain ⟨ha, -⟩ := List.nodup_cons.mp hrest
  have hqa : q ≠ link a := List.ne_of_not_mem_cons hq
  have hat : Function.update (Function.update mem q (mem (link a))) (link a) none q =
      mem (link a) := by
    rw [Function.update_of_ne hqa, Function.update_self]
  cases h with
  | cons _ hl =>
      cases hl with
      | nil hn => exact .nil (hat.trans hn)
      | @cons _ b l hb hl =>
          refine .cons (hat.trans hb) (hl.congr ?_)
          intro p hp
          rw [Function.update_of_ne, Function.update_of_ne]
          · rintro rfl
            exact hq (List.mem_cons_of_mem _ hp)
          · rintro rfl
            exact ha hp

end Lib.PointerList
