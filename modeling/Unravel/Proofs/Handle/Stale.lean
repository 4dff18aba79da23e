import Unravel.Proofs.Handle.Local

/-! Stale handles. A handle whose slot no longer holds its node edits nothing. Its fault is one of
structure, which a pass gets over, unless the list has become too short for the index of the
handle. -/

namespace Unravel

open Node

/-- Whether a place did not support an edit; a pass then leaves out the edit and goes on. -/
def Fault.isStructural : Fault → Bool
  | .stale _ | .rootEdit | .notInList _ => true
  | _ => false

namespace Desk

variable {d : Desk} {k : Nat} {h : Handle} {e : Edit}

/-- After any edits through any handles, a stale handle is noticed and edits nothing. The fault is
structural exactly if the index of the handle has not got past the end of the list. -/
theorem stale_refused {tree : Node} (hd : Reached tree d) (hk : d.handles[k]? = some h)
    (hstale : ¬ d.workspace.Holds h) : ∃ fault, d.edit k e = (.error fault, d) ∧
      (fault.isStructural = true ↔ ¬ d.workspace.PastEnd h) := by
  have hseat := hd.ready.seats h (List.mem_of_getElem? hk)
  rw [edit_eq hk]
  by_cases he : e.Applies h
  · rcases Workspace.locate_cases hseat with ⟨hroot, hl⟩ | ⟨hpast, -, hl⟩ | ⟨hpast, -, hl⟩ |
      ⟨hholds, -⟩
    · have hpast : ¬ d.workspace.PastEnd h := by
        rintro ⟨p, _, _, _, hp, -⟩
        rw [hroot] at hp
        cases hp
      exact ⟨_, run_perform_error hl he, fun _ => hpast, fun _ => rfl⟩
    · exact ⟨_, run_perform_error hl he, nofun, fun hnot => (hnot hpast).elim⟩
    · exact ⟨_, run_perform_error hl he, fun _ => hpast, fun _ => rfl⟩
    · exact (hstale hholds).elim
  · have hpast : ¬ d.workspace.PastEnd h := by
      rintro ⟨_, _, _, i, -, -, -, hi, -⟩
      cases e with
      | replace new => exact he trivial
      | splice new => exact he trivial
      | remove => exact he (Option.isSome_iff_exists.mpr ⟨i, hi⟩)
    exact ⟨_, run_perform_refused he, fun _ => hpast, fun _ => rfl⟩

/-! The first of two statements is removed. The handle on it is stale, and so is the one on the
other statement, whose index is now past the end. -/

def shortened : Desk := (twoHandles.edit 0 .remove).2

theorem body_shortened : shortened.workspace.slot? 0 .body = some (.many [some (some 3)]) := rfl

theorem reached_shortened : Reached statements shortened :=
  .edit reached_twoHandles (h := onStatement 1 0) rfl fun _ hn => nomatch hn

def removedFirst : Handle := { onStatement 1 0 with removed := true }

theorem not_holds_removedFirst : ¬ shortened.workspace.Holds removedFirst := by
  rintro ⟨p, f, s, hp, hf, hs, hat⟩
  cases hp
  cases hf
  cases body_shortened.symm.trans hs
  cases hat

theorem removedFirst_refused : ∃ fault, shortened.edit 0 .remove = (.error fault, shortened) ∧
    fault.isStructural = true := by
  have hk : shortened.handles[0]? = some removedFirst := rfl
  have hpast : ¬ shortened.workspace.PastEnd removedFirst := by
    rintro ⟨p, f, items, i, hp, hf, hs, hi, hle⟩
    cases hp
    cases hf
    cases hi
    cases body_shortened.symm.trans hs
    exact absurd hle (by decide)
  obtain ⟨fault, heq, hiff⟩ :=
    stale_refused (e := .remove) reached_shortened hk not_holds_removedFirst
  exact ⟨fault, heq, hiff.mpr hpast⟩

theorem second_pastEnd : Reached statements shortened ∧
    shortened.handles[1]? = some (onStatement 3 1) ∧
    ¬ shortened.workspace.Holds (onStatement 3 1) ∧
    (shortened.edit 1 .remove).1 = .error .pastEnd ∧ Fault.pastEnd.isStructural = false := by
  refine ⟨reached_shortened, rfl, ?_, rfl, rfl⟩
  rintro ⟨p, f, s, hp, hf, hs, hat⟩
  cases hp
  cases hf
  cases body_shortened.symm.trans hs
  cases hat

end Desk
end Unravel
