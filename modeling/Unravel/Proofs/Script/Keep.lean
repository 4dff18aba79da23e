import Unravel.Proofs.Script.Semantics
import Unravel.Proofs.Tree.Every

/-! What a script leaves of a variable. A script ends or throws, and a variable that none of its nodes
writes to, and that none of its declarations gives a value, has the value that it had. -/

namespace Unravel.Script

open Node

namespace Store

def bindings (x : String) (st : Store) : List (Option Binding) × Option Value :=
  (st.blocks.map (· x), st.vars x)

variable {x name : String} {st st' : Store} {ss : List Scope} {vars : String → Option Value} {v : Value}

theorem read_congr (h : st'.bindings x = st.bindings x) : st'.read x = st.read x := by
  have hread (st : Store) : st.read x =
      ((st.bindings x).1.findSome? id).elim (st.bindings x).2 Binding.value := by
    rw [bindings, List.findSome?_map]
    change st.read x = (st.blocks.findSome? (· x)).elim (st.vars x) Binding.value
    unfold read
    cases st.blocks.findSome? (· x) <;> rfl
  rw [hread, hread, h]

theorem bindings_leave (h : st'.bindings x = st.bindings x) :
    st'.leave.bindings x = st.leave.bindings x := by
  obtain ⟨hblocks, hvars⟩ := Prod.mk.inj h
  simp only [bindings, leave, List.map_tail, hblocks, hvars]

theorem bindings_assign_of_ne (hne : name ≠ x) (h : assign name v ss vars = some st') :
    st'.bindings x = bindings x ⟨ss, vars⟩ := by
  induction ss generalizing st' with
  | nil =>
    cases h
    simp [bindings, hne.symm]
  | cons s ss ih =>
    rw [assign] at h
    split at h
    · split at h
      · cases h
      · cases h
        simp [bindings, hne.symm]
    · obtain ⟨st'', hst'', rfl⟩ := Option.map_eq_some_iff.mp h
      have htail := Prod.mk.inj (ih hst'')
      exact Prod.ext (congrArg (s x :: ·) htail.1) htail.2

theorem bindings_assign_self (hread : read ⟨ss, vars⟩ x = some v)
    (h : assign x v ss vars = some st') : st'.bindings x = bindings x ⟨ss, vars⟩ := by
  induction ss generalizing st' with
  | nil =>
    cases h
    have hvars : vars x = some v := hread
    simp [bindings, hvars]
  | cons s ss ih =>
    rw [assign] at h
    cases hs : s x with
    | none =>
      rw [hs] at h
      obtain ⟨st'', hst'', rfl⟩ := Option.map_eq_some_iff.mp h
      have hread' : read ⟨ss, vars⟩ x = some v := by
        rw [← hread]
        simp [read, hs]
      have htail := Prod.mk.inj (ih hread' hst'')
      exact Prod.ext (congrArg (s x :: ·) htail.1) htail.2
    | some b =>
      obtain ⟨value, constant⟩ := b
      have hvalue : value = some v := by
        rw [← hread]
        simp [read, hs]
      subst hvalue
      rw [hs] at h
      cases constant with
      | true => cases h
      | false =>
        cases h
        simp [bindings, hs]

theorem read_assign (h : assign x v ss vars = some st') : st'.read x = some v := by
  induction ss generalizing st' with
  | nil =>
    cases h
    simp [read]
  | cons s ss ih =>
    rw [assign] at h
    cases hs : s x with
    | none =>
      rw [hs] at h
      obtain ⟨st'', hst'', rfl⟩ := Option.map_eq_some_iff.mp h
      rw [← ih hst'']
      simp [read, hs]
    | some b =>
      rw [hs] at h
      dsimp only at h
      split at h
      · cases h
      · cases h
        simp [read]

end Store

namespace Run

variable {α β γ : Type} {f : Store → γ} {m : Run α}

def Keeps (f : Store → γ) (m : Run α) : Prop := ∀ st, ∃ r st', m st = some (r, st') ∧ f st' = f st

theorem bind_of_ok {g : α → Run β} {st st' : Store} {a : α} (h : m st = some (.ok a, st')) :
    (m >>= g) st = g a st' := by
  change (m st).bind _ = _
  rw [h]
  rfl

theorem bind_of_throw {g : α → Run β} {st st' : Store} (h : m st = some (.error (), st')) :
    (m >>= g) st = some (.error (), st') := by
  change (m st).bind _ = _
  rw [h]
  rfl

theorem Keeps.pure (a : α) : Keeps f (Pure.pure a : Run α) := fun st => ⟨_, st, rfl, rfl⟩

theorem Keeps.bind {g : α → Run β} (hm : Keeps f m) (hg : ∀ a, Keeps f (g a)) :
    Keeps f (m >>= g) := by
  intro st
  obtain ⟨r, st', hst', hf⟩ := hm st
  cases r with
  | error =>
    exact ⟨_, st', bind_of_throw hst', hf⟩
  | ok a =>
    obtain ⟨r, st'', hst'', hf'⟩ := hg a st'
    exact ⟨r, st'', (bind_of_ok hst').trans hst'', hf'.trans hf⟩

theorem Keeps.orThrow (o : Option α) : Keeps f (orThrow o) := by
  cases o with
  | none => exact fun st => ⟨_, st, rfl, rfl⟩
  | some a => exact .pure a

theorem Keeps.read (name : String) : Keeps f (read name) := fun st => by
  obtain ⟨r, st', hst', hf⟩ := Keeps.orThrow (f := f) (st.read name) st
  exact ⟨r, st', (bind_of_ok (m := get) rfl).trans hst', hf⟩

theorem write_of_some {name : String} {v : Value} {st st' : Store}
    (h : Store.assign name v st.blocks st.vars = some st') : write name v st = some (.ok (), st') := by
  unfold write
  rw [bind_of_ok (m := get) rfl, h]
  rfl

theorem write_of_none {name : String} {v : Value} {st : Store}
    (h : Store.assign name v st.blocks st.vars = none) :
    write name v st = some (.error (), st) := by
  unfold write
  rw [bind_of_ok (m := get) rfl, h]
  rfl

theorem read_eq (name : String) (st : Store) : read name st =
    match st.read name with
    | some v => some (.ok v, st)
    | none => some (.error (), st) := by
  unfold read
  rw [bind_of_ok (m := get) rfl]
  cases st.read name <;> rfl

theorem Keeps.write {x name : String} (hne : name ≠ x) (v : Value) :
    Keeps (Store.bindings x) (write name v) := by
  intro st
  cases h : Store.assign name v st.blocks st.vars with
  | none => exact ⟨_, st, write_of_none h, rfl⟩
  | some st' => exact ⟨_, st', write_of_some h, Store.bindings_assign_of_ne hne h⟩

theorem Keeps.rewrite {x : String} {g : Value → Run α} (hg : ∀ v, Keeps (Store.bindings x) (g v)) :
    Keeps (Store.bindings x) (do let v ← Run.read x; Run.write x v; g v) := by
  intro st
  have hread := read_eq x st
  cases hvalue : st.read x with
  | none =>
    rw [hvalue] at hread
    exact ⟨_, st, bind_of_throw hread, rfl⟩
  | some v =>
    rw [hvalue] at hread
    rw [bind_of_ok hread]
    cases h : Store.assign x v st.blocks st.vars with
    | none => exact ⟨_, st, bind_of_throw (write_of_none h), rfl⟩
    | some st' =>
      obtain ⟨r, st'', hst'', hf⟩ := hg v st'
      exact ⟨r, st'', (bind_of_ok (write_of_some h)).trans hst'',
        hf.trans (Store.bindings_assign_self hvalue h)⟩

theorem Keeps.inBlock {x : String} {s : Scope} (hm : Keeps (fun st => st.leave.bindings x) m) :
    Keeps (Store.bindings x) (inBlock s m) := by
  intro st
  obtain ⟨r, st', hst', hf⟩ := hm (st.enter s)
  refine ⟨r, st'.leave, ?_, hf⟩
  unfold Run.inBlock
  rw [hst']
  rfl

theorem Keeps.leave {x : String} (hm : Keeps (Store.bindings x) m) :
    Keeps (fun st => st.leave.bindings x) m := by
  intro st
  obtain ⟨r, st', hst', hf⟩ := hm st
  exact ⟨r, st', hst', Store.bindings_leave hf⟩

theorem Keeps.settle {x name : String} (b : Binding) :
    Keeps (fun st => st.leave.bindings x) (modify (Store.settle name b) : Run Unit) := by
  intro st
  refine ⟨.ok (), Store.settle name b st, rfl, ?_⟩
  obtain ⟨_ | ⟨s, ss⟩, vars⟩ := st <;> rfl

end Run

/-! What writes to a variable. -/

/-- A `var` that gives a name a value. -/
def redeclares (x : String) : Node → Bool
  | .variableDeclaration _ "var" ds => ds.any fun
    | some (.variableDeclarator _ (some (.identifier _ name)) (some _)) => name == x
    | _ => false
  | _ => false

def Spares (x : String) (n : Node) : Prop :=
  (∀ names, n.writes = .ok names → x ∉ names) ∧ redeclares x n = false

variable {x : String} (other : Operators)

theorem Spares.assignment {t u : Tag} {operator name : String} {right : Node}
    (h : Spares x (.assignmentExpression t operator (.identifier u name) right)) :
    name ≠ x ∨ (operator = "=" ∧ ∃ v, right = .identifier v name) := by
  by_cases hself : operator = "=" ∧ ∃ v, right = .identifier v name
  · exact .inr hself
  · refine .inl ?_
    rintro rfl
    have hwrites : (Node.assignmentExpression t operator (.identifier u name) right).writes =
        .ok [name] := by
      unfold writes
      split
      case h_1 heq =>
        cases heq
        have hne : name ≠ _ := fun heq => hself ⟨rfl, _, by rw [heq]⟩
        rw [if_neg (by simpa using hne)]
      case h_2 heq =>
        cases heq
        rfl
      case h_8 hno _ _ _ _ _ => exact (hno _ _ _ _ rfl).elim
      all_goals
        rename_i heq
        cases heq
    exact h.1 _ hwrites (List.mem_singleton_self name)

theorem Spares.update {t u : Tag} {operator name : String} {before : Bool}
    (h : Spares x (.updateExpression t operator before (.identifier u name))) : name ≠ x := by
  rintro rfl
  exact h.1 _ rfl (List.mem_singleton_self name)

theorem eval_keeps {e : Node} (he : isExpression e = true) (hx : e.Every (Spares x)) :
    Run.Keeps (Store.bindings x) (eval other e) := by
  induction e using isExpression.induct with
  | case1 t v =>
    rw [eval]
    exact .pure _
  | case2 t name =>
    rw [eval]
    exact .read name
  | case3 t operator u name right ih =>
    rw [isExpression] at he
    obtain ⟨hself, hslots⟩ := every_mk.mp hx
    have hright := ih he (everySlots_one.mp (everySlots_one.mp hslots).2).1
    rcases hself.assignment with hne | ⟨rfl, v, rfl⟩
    · rw [eval]
      split
      · exact hright.bind fun v => (Run.Keeps.write hne v).bind fun _ => .pure v
      · exact (Run.Keeps.read name).bind fun old => hright.bind fun v =>
          (Run.Keeps.orThrow _).bind fun v => (Run.Keeps.write hne v).bind fun _ => .pure v
    · by_cases hname : name = x
      · subst hname
        rw [eval, if_pos rfl, eval]
        exact .rewrite fun v => .pure v
      · rw [eval, if_pos rfl]
        exact hright.bind fun v => (Run.Keeps.write hname v).bind fun _ => .pure v
  | case4 t operator before u name =>
    have hne := (every_mk.mp hx).1.update
    rw [eval]
    exact (Run.Keeps.read name).bind fun old => (Run.Keeps.orThrow _).bind fun v =>
      (Run.Keeps.write hne v).bind fun _ => .pure _
  | case5 t left right ih ih' =>
    rw [isExpression, Bool.and_eq_true] at he
    obtain ⟨-, hslots⟩ := every_mk.mp hx
    obtain ⟨hleft, hslots⟩ := everySlots_one.mp hslots
    obtain ⟨hright, -⟩ := everySlots_one.mp hslots
    rw [eval]
    exact (ih he.1 hleft).bind fun a => (ih' he.2 hright).bind fun b => .orThrow _
  | case6 e =>
    rw [isExpression] at he
    · cases he
    all_goals assumption

def SparesIn (x kind : String) (d : Option Node) : Prop :=
  kind = "var" → ∀ t u name e,
    d = some (.variableDeclarator t (some (.identifier u name)) (some e)) → name ≠ x

theorem Spares.declaration {t : Tag} {kind : String} {ds : List (Option Node)}
    (h : Spares x (.variableDeclaration t kind ds)) : ∀ d ∈ ds, SparesIn x kind d := by
  rintro d hd rfl t u name e rfl hname
  have hredeclares := h.2
  rw [redeclares, List.any_eq_false] at hredeclares
  exact hredeclares _ hd (beq_iff_eq.mpr hname)

theorem exists_of_isDeclarator {d : Option Node} (h : isDeclarator d = true) :
    ∃ t u name init, d = some (.variableDeclarator t (some (.identifier u name)) init) ∧
      init.all isExpression = true := by
  unfold isDeclarator at h
  split at h
  · exact ⟨_, _, _, _, rfl, h⟩
  · cases h

theorem give_keeps {kind name : String} (hne : kind = "var" → name ≠ x) (v : Value) :
    Run.Keeps (fun st => st.leave.bindings x) (give kind name v) := by
  unfold give
  split
  case isTrue hvar => exact (Run.Keeps.write (hne hvar) v).leave
  case isFalse => exact .settle _

theorem declare_keeps {kind : String} {ds : List (Option Node)} (hds : ds.all isDeclarator = true)
    (hx : EveryItems (Spares x) ds) (hkind : ∀ d ∈ ds, SparesIn x kind d) :
    Run.Keeps (fun st => st.leave.bindings x) (declare other kind ds) := by
  induction ds with
  | nil => exact .pure ()
  | cons d ds ih =>
    rw [List.all_cons, Bool.and_eq_true] at hds
    obtain ⟨t, u, name, init, rfl, hinit⟩ := exists_of_isDeclarator hds.1
    obtain ⟨hself, hx⟩ := everyItems_some.mp hx
    obtain ⟨hkindself, hkind⟩ := List.forall_mem_cons.mp hkind
    rw [declare]
    refine .bind ?_ fun _ => ih hds.2 hx hkind
    cases init with
    | none =>
      rw [declareName]
      split
      case isTrue => exact .pure ()
      case isFalse hvar => exact give_keeps (absurd · hvar) _
    | some e =>
      obtain ⟨-, hslots⟩ := every_mk.mp hself
      have he := (everySlots_one.mp (everySlots_one.mp hslots).2).1
      rw [declareName]
      exact (eval_keeps other hinit he).leave.bind fun v =>
        give_keeps (fun hvar => hkindself hvar _ _ _ _ rfl) v

theorem exec_keeps (n : Node) : isStatement n = true → n.Every (Spares x) →
    Run.Keeps (fun st => st.leave.bindings x) (exec other n) := by
  refine isStatement.induct
    (fun n => isStatement n = true → n.Every (Spares x) →
      Run.Keeps (fun st => st.leave.bindings x) (exec other n))
    (fun ns => isBody ns = true → EveryItems (Spares x) ns →
      Run.Keeps (fun st => st.leave.bindings x) (execItems other ns))
    ?_ ?_ ?_ ?_ ?_ ?_ ?_ ?_ n
  case refine_1 =>
    intro t e hn hx
    obtain ⟨-, hslots⟩ := every_mk.mp hx
    rw [exec]
    exact (eval_keeps other hn (everySlots_one.mp hslots).1).leave.bind fun _ => .pure ()
  case refine_2 =>
    intro t body ih hn hx
    obtain ⟨-, hslots⟩ := every_mk.mp hx
    rw [exec]
    exact (Run.Keeps.inBlock (ih hn (everySlots_many.mp hslots).1)).leave
  case refine_3 =>
    intro t test consequent alternate ih ih' hn hx
    have hparts : isExpression test = true ∧ isStatement consequent = true ∧
        alternate.all isStatement = true := by
      cases alternate <;> simpa [isStatement, and_assoc] using hn
    obtain ⟨htest, hconsequent, halternate⟩ := hparts
    obtain ⟨-, hslots⟩ := every_mk.mp hx
    obtain ⟨hxtest, hslots⟩ := everySlots_one.mp hslots
    obtain ⟨hxconsequent, hslots⟩ := everySlots_one.mp hslots
    unfold exec
    refine (eval_keeps other htest hxtest).leave.bind fun v => ?_
    split
    · exact (Run.Keeps.inBlock (ih hconsequent hxconsequent)).leave
    · cases alternate with
      | none => exact .pure ()
      | some alternate =>
        exact (Run.Keeps.inBlock (ih' halternate (everySlots_one.mp hslots).1)).leave
  case refine_4 =>
    intro t kind ds hn hx
    obtain ⟨hself, hslots⟩ := every_mk.mp hx
    rw [exec]
    exact declare_keeps other hn (everySlots_many.mp hslots).1 hself.declaration
  case refine_5 =>
    intro n h1 h2 h3 h4 hn
    rw [isStatement] at hn
    · cases hn
    all_goals assumption
  case refine_6 =>
    intro _ _
    rw [execItems]
    exact .pure ()
  case refine_7 => exact fun _ hn => nomatch hn
  case refine_8 =>
    intro n ns ih ih' hn hx
    obtain ⟨hself, hx⟩ := everyItems_some.mp hx
    rw [isBody, Bool.and_eq_true] at hn
    rw [execItems]
    exact (ih hn.1 hself).bind fun _ => ih' hn.2 hx

/-- The body of a loop leaves a variable alone that none of its nodes writes to. -/
theorem execBody_keeps {body : Node} (hbody : isStatement body = true)
    (hx : body.Every (Spares x)) : Run.Keeps (Store.bindings x) (execBody other body) :=
  (exec_keeps other body hbody hx).inBlock

end Unravel.Script
