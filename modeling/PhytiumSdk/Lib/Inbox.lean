import PhytiumSdk.Lib.System
import Mathlib.Data.List.Infix

/-!
# An inbox

Items arrive, are taken one after the other, and the good ones among them are
handed up. What is still waiting can be thrown away. `Accounts` says where the
items are that have arrived: in the order of their arrival they are with the
reader, held for it, or waiting, except for the bad ones and those that were
thrown away.
-/

namespace Lib

structure Inbox (φ : Type*) where
  waiting : List φ
  held : List φ
  up : List φ

inductive InboxEvent (φ : Type*) where
  | arrive (f : φ)
  | take
  | handUp
  | flush

namespace Inbox

variable {φ : Type*} (good : φ → Bool)

def step (b : Inbox φ) : InboxEvent φ → Option (Inbox φ)
  | .arrive f => some { b with waiting := b.waiting ++ [f] }
  | .take =>
      match b.waiting with
      | [] => none
      | f :: w => some { b with waiting := w, held := b.held ++ [f].filter good }
  | .handUp =>
      match b.held with
      | [] => none
      | f :: h => some { b with held := h, up := b.up ++ [f] }
  | .flush => some { b with waiting := [] }

def system : System (Inbox φ) (InboxEvent φ) where
  init := fun b => b = ⟨[], [], []⟩
  step := step good

/-- The item an event brings. -/
def brought : InboxEvent φ → Option φ
  | .arrive f => some f
  | _ => none

/-- The items that have arrived and were not thrown away. -/
structure Accounts (b : Inbox φ) (es : List (InboxEvent φ)) (kept : List φ) : Prop where
  sublist : kept.Sublist (es.filterMap brought)
  /-- since the last flush nothing was thrown away -/
  recent : ∀ es₁ es₂, es = es₁ ++ es₂ → .flush ∉ es₂ → es₂.filterMap brought <:+ kept
  waiting : b.waiting <:+ kept
  places : b.up ++ b.held ++ b.waiting.filter good = kept.filter good

variable {good} {b b' : Inbox φ} {e : InboxEvent φ} {es : List (InboxEvent φ)} {kept : List φ}

theorem step_take {f : φ} {w : List φ} (h : b.waiting = f :: w) :
    step good b .take = some { b with waiting := w, held := b.held ++ [f].filter good } := by
  unfold step
  rw [h]

variable (good) in
theorem step_handUp {f : φ} {r : List φ} (h : b.held = f :: r) :
    step good b .handUp = some { b with held := r, up := b.up ++ [f] } := by
  unfold step
  rw [h]

theorem filterMap_brought_concat (es : List (InboxEvent φ)) (e : InboxEvent φ) :
    (es ++ [e]).filterMap brought = es.filterMap brought ++ (brought e).toList := by
  rw [List.filterMap_append]
  cases he : brought e with
  | none => rw [List.filterMap_cons_none he, List.filterMap_nil, Option.toList_none]
  | some f => rw [List.filterMap_cons_some he, List.filterMap_nil, Option.toList_some]

/-- Nothing is thrown away in this event. -/
theorem Accounts.next (h : Accounts good b es kept)
    (hwaiting : b'.waiting <:+ b.waiting ++ (brought e).toList)
    (hplaces : b'.up ++ b'.held ++ b'.waiting.filter good =
      b.up ++ b.held ++ b.waiting.filter good ++ (brought e).toList.filter good) :
    Accounts good b' (es ++ [e]) (kept ++ (brought e).toList) := by
  refine ⟨?_, ?_, ?_, ?_⟩
  · rw [filterMap_brought_concat]
    exact h.sublist.append (List.Sublist.refl _)
  · intro es₁ es₂ heq hflush
    rcases List.eq_nil_or_concat es₂ with rfl | ⟨es₂, e', rfl⟩
    · exact List.nil_suffix
    · rw [List.concat_eq_append, ← List.append_assoc] at heq
      obtain ⟨hes, he⟩ := List.append_inj' heq rfl
      obtain rfl := List.singleton_inj.mp he
      rw [List.concat_eq_append] at hflush ⊢
      rw [filterMap_brought_concat]
      obtain ⟨early, hearly⟩ := h.recent es₁ es₂ hes fun hmem =>
        hflush (List.mem_append_left _ hmem)
      exact ⟨early, by rw [← hearly, List.append_assoc]⟩
  · obtain ⟨taken, htaken⟩ := h.waiting
    refine hwaiting.trans ⟨taken, ?_⟩
    rw [← htaken, List.append_assoc]
  · rw [hplaces, h.places, List.filter_append]

theorem Accounts.flush (h : Accounts good b es kept) :
    ∃ kept', Accounts good { b with waiting := [] } (es ++ [.flush]) kept' := by
  obtain ⟨taken, rfl⟩ := h.waiting
  refine ⟨taken, ?_, ?_, List.nil_suffix, ?_⟩
  · rw [filterMap_brought_concat]
    exact ((List.sublist_append_left taken b.waiting).trans h.sublist).trans
      (List.sublist_append_left _ _)
  · intro es₁ es₂ heq hflush
    rcases List.eq_nil_or_concat es₂ with rfl | ⟨es₂, e, rfl⟩
    · exact List.nil_suffix
    · rw [List.concat_eq_append, ← List.append_assoc] at heq
      obtain ⟨-, he⟩ := List.append_inj' heq rfl
      rw [List.concat_eq_append, ← he] at hflush
      exact absurd (List.mem_append_right es₂ (List.mem_singleton_self _)) hflush
  · have hplaces := h.places
    rw [List.filter_append] at hplaces
    rw [List.filter_nil, List.append_nil]
    exact List.append_cancel_right hplaces

/-- **One event.** -/
theorem Accounts.step (h : Accounts good b es kept) (hs : Inbox.step good b e = some b') :
    ∃ kept', Accounts good b' (es ++ [e]) kept' := by
  cases e with
  | arrive f =>
      cases hs
      refine ⟨_, h.next List.suffix_rfl ?_⟩
      dsimp only [brought, Option.toList_some]
      rw [List.filter_append, ← List.append_assoc]
  | take =>
      rcases hw : b.waiting with _ | ⟨f, w⟩
      · unfold Inbox.step at hs
        rw [hw] at hs
        cases hs
      · rw [step_take hw] at hs
        cases hs
        refine ⟨_, h.next ?_ ?_⟩
        · rw [hw]
          exact (List.suffix_cons f w).trans (by simp [brought])
        · rw [hw]
          simp [brought, List.filter_cons]
          split <;> simp
  | handUp =>
      rcases hheld : b.held with _ | ⟨f, r⟩
      · unfold Inbox.step at hs
        rw [hheld] at hs
        cases hs
      · rw [step_handUp good hheld] at hs
        cases hs
        refine ⟨_, h.next ?_ ?_⟩
        · exact (List.suffix_refl _).trans (by simp [brought])
        · rw [hheld]
          simp [brought]
  | flush =>
      cases hs
      exact h.flush

/-- **Every run.** -/
theorem run_accounts (h : (system good).run ⟨[], [], []⟩ es = some b) :
    ∃ kept, Accounts good b es kept := by
  induction es using List.reverseRecOn generalizing b with
  | nil =>
      cases h
      refine ⟨[], List.Sublist.refl _, ?_, List.suffix_rfl, rfl⟩
      intro es₁ es₂ heq _
      obtain ⟨-, rfl⟩ := List.append_eq_nil_iff.mp heq.symm
      exact List.suffix_rfl
  | append_singleton es e ih =>
      obtain ⟨u, hu, hstep⟩ := System.run_concat h
      obtain ⟨kept, hkept⟩ := ih hu
      exact hkept.step hstep

end Inbox

end Lib
