import Unravel.Proofs.Facts
import Unravel.Proofs.Tree.Fill

/-! What each operation on the state of a pass does to its parts. -/

namespace Unravel.Pass

namespace State

variable (st : State)

def changes : Nat := st.log.countP Event.isChange

def lessons : Nat := st.log.countP Event.isLesson

@[simp] theorem facts_note (e : Event) : (st.note e).facts = st.facts := rfl

@[simp] theorem next_note (e : Event) : (st.note e).next = st.next := rfl

@[simp] theorem fault_note (e : Event) : (st.note e).fault = st.fault := rfl

@[simp] theorem fault_fail (f : Fault) : (st.fail f).fault = some f := rfl

theorem changes_note (e : Event) :
    (st.note e).changes = st.changes + if e.isChange then 1 else 0 := by
  simp only [changes, note, List.countP_cons]

theorem lessons_note (e : Event) :
    (st.note e).lessons = st.lessons + if e.isLesson then 1 else 0 := by
  simp only [lessons, note, List.countP_cons]

theorem learn_eq (i : Nat) (fact : Fact) :
    st.learn i fact = { st with
      facts := (st.facts.learn fact).1
      log := if (st.facts.learn fact).2 then .learned i :: st.log else st.log } := by
  unfold learn
  dsimp only
  split <;> rfl

@[simp] theorem facts_learn (i : Nat) (fact : Fact) :
    (st.learn i fact).facts = (st.facts.learn fact).1 := by
  rw [learn_eq]

@[simp] theorem next_learn (i : Nat) (fact : Fact) : (st.learn i fact).next = st.next := by
  rw [learn_eq]

@[simp] theorem fault_learn (i : Nat) (fact : Fact) : (st.learn i fact).fault = st.fault := by
  rw [learn_eq]

@[simp] theorem changes_learn (i : Nat) (fact : Fact) :
    (st.learn i fact).changes = st.changes := by
  rw [learn_eq, changes]
  split
  · exact List.countP_cons_of_neg (by simp [Event.isChange])
  · rfl

theorem lessons_learn (i : Nat) (fact : Fact) :
    (st.learn i fact).lessons = st.lessons + if (st.facts.learn fact).2 then 1 else 0 := by
  rw [learn_eq, lessons]
  split
  · exact List.countP_cons_of_pos rfl
  · rfl

theorem leave_eq (n : Node) :
    st.leave n = { st with facts := if n.isFunction then st.facts.update n else st.facts } := by
  unfold leave
  split <;> rfl

@[simp] theorem changes_leave (n : Node) : (st.leave n).changes = st.changes := by
  rw [leave_eq]
  rfl

@[simp] theorem lessons_leave (n : Node) : (st.leave n).lessons = st.lessons := by
  rw [leave_eq]
  rfl

@[simp] theorem fault_leave (n : Node) : (st.leave n).fault = st.fault := by
  rw [leave_eq]

@[simp] theorem next_leave (n : Node) : (st.leave n).next = st.next := by
  rw [leave_eq]

theorem place_eq (n : Node) :
    st.place n = ((n.number st.next).1, { st with next := (n.number st.next).2 }) := rfl

theorem placeAll_snd (ns : List Node) :
    (st.placeAll ns).2 = { st with next := (st.placeAll ns).2.next } := by
  induction ns generalizing st with
  | nil => rfl
  | cons n ns ih =>
    simp only [placeAll, place_eq]
    rw [ih]

def install (st : State) : Landing → Landing × State
  | .kept n => (.kept (st.place n).1, (st.place n).2)
  | .left ns => (.left (st.placeAll ns).1, (st.placeAll ns).2)

theorem install_snd (l : Landing) :
    (st.install l).2 = { st with next := (st.install l).2.next } := by
  cases l with
  | kept n => rfl
  | left ns => exact placeAll_snd st ns

@[simp] theorem facts_install (l : Landing) : (st.install l).2.facts = st.facts := by
  rw [install_snd]

@[simp] theorem fault_install (l : Landing) : (st.install l).2.fault = st.fault := by
  rw [install_snd]

@[simp] theorem changes_install (l : Landing) : (st.install l).2.changes = st.changes := by
  rw [install_snd]
  rfl

@[simp] theorem lessons_install (l : Landing) : (st.install l).2.lessons = st.lessons := by
  rw [install_snd]
  rfl

end State
end Unravel.Pass
