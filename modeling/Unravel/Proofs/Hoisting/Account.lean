import Unravel.Proofs.Hoisting.Outline
import Unravel.Proofs.Tree.Every

/-! Hoisting accounts for every function declaration. Those that the traversal reaches are judged one
by one, in pre-order; the verdicts decide what is reported, what moves to the front and what is left
of the tree. -/

namespace Unravel.Hoist

open Node

def HasName (n : Node) : Prop :=
  n.head = .functionDeclaration → (functionName? n.head n.slots).isSome = true

instance : DecidablePred HasName :=
  fun n => inferInstanceAs (Decidable (n.head = .functionDeclaration → _))

def Fate.leaves : Fate → Bool
  | .hoisted | .discarded => true
  | .pinned | .unresolved => false

/-- When a declaration deserves its fate, given the names that were declared before it. -/
inductive Deserves (limit depth : Nat) (seen : List String) (d : Declaration) : Fate → Prop where
  | hoisted : d.name ∉ seen → d.inList = true → Deserves limit depth seen d .hoisted
  | pinned : d.name ∉ seen → d.inList = false → Deserves limit depth seen d .pinned
  | discarded : d.name ∈ seen → d.inList = true → limit < depth + d.place.length →
      Deserves limit depth seen d .discarded
  | unresolved : d.name ∈ seen → ¬ (d.inList = true ∧ limit < depth + d.place.length) →
      Deserves limit depth seen d .unresolved

structure Verdict where
  declaration : Declaration
  fate : Fate

namespace Verdict

def finding (depth : Nat) (v : Verdict) : Finding :=
  ⟨v.fate, v.declaration.name, depth + v.declaration.place.length⟩

def hides (v : Verdict) (d : Declaration) : Bool :=
  v.fate == .discarded && v.declaration.place.above d.place

def under (x : Nat × Nat) (v : Verdict) : Verdict := { v with declaration := v.declaration.under x }

end Verdict

def gone (vs : List Verdict) (p : Place) : Bool :=
  vs.any fun v => v.declaration.place == p && v.fate.leaves

def moved (vs : List Verdict) : List Node :=
  (vs.filter (·.fate == .hoisted)).map fun v =>
    without (fun p => gone vs (v.declaration.place ++ p)) v.declaration.node

def Judged (limit depth : Nat) : List String → List Verdict → Prop
  | _, [] => True
  | seen, v :: vs =>
    (∀ fate, Deserves limit depth seen v.declaration fate ↔ fate = v.fate) ∧
      Judged limit depth (seen ++ [v.declaration.name]) vs

/-- The verdicts are about the declarations that are reached: all but those inside a discarded one. -/
structure Accounts (limit depth : Nat) (seen : List String) (ds : List Declaration)
    (vs : List Verdict) : Prop where
  reached : vs.map (·.declaration) = ds.filter fun d => !vs.any (·.hides d)
  judged : Judged limit depth seen vs

section
variable {limit depth : Nat} {seen : List String} {d : Declaration}

theorem Deserves.unique {f f' : Fate} (h : Deserves limit depth seen d f)
    (h' : Deserves limit depth seen d f') : f = f' := by
  cases h <;> cases h' <;> simp_all

/-- The traversal gives each declaration the fate that it deserves. -/
theorem deserves_fate (limit depth : Nat) (found : Report) (d : Declaration) :
    Deserves limit depth (found.map (·.name)) d
      (fate limit d.inList (depth + d.place.length) found d.name) := by
  have hseen : found.any (·.name == d.name) = true ↔ d.name ∈ found.map (·.name) := by
    simp only [List.any_eq_true, List.mem_map, beq_iff_eq]
  unfold fate
  split
  case isTrue hnew =>
    have hname : d.name ∉ found.map (·.name) := by simpa [hseen] using hnew
    split
    case isTrue hlist => exact .hoisted hname hlist
    case isFalse hlist => exact .pinned hname (Bool.eq_false_iff.mpr hlist)
  case isFalse hold =>
    have hname : d.name ∈ found.map (·.name) := by simpa [hseen] using hold
    split
    case isTrue hdeep =>
      simp only [Bool.and_eq_true, decide_eq_true_eq] at hdeep
      exact .discarded hname hdeep.2 hdeep.1
    case isFalse hshallow =>
      simp only [Bool.and_eq_true, decide_eq_true_eq] at hshallow
      exact .unresolved hname fun h => hshallow h.symm

theorem deserves_iff (limit depth : Nat) (found : Report) (d : Declaration) (f : Fate) :
    Deserves limit depth (found.map (·.name)) d f ↔
      f = fate limit d.inList (depth + d.place.length) found d.name := by
  constructor
  · exact fun h => h.unique (deserves_fate limit depth found d)
  · rintro rfl
    exact deserves_fate limit depth found d

theorem Deserves.inList {f : Fate} (h : Deserves limit depth seen d f) (hf : f.leaves = true) :
    d.inList = true := by
  cases h with
  | hoisted _ hlist => exact hlist
  | discarded _ hlist _ => exact hlist
  | pinned | unresolved => cases hf

theorem deserves_under (x : Nat × Nat) (f : Fate) :
    Deserves limit depth seen (d.under x) f ↔ Deserves limit (depth + 1) seen d f := by
  have hdepth : depth + (d.under x).place.length = depth + 1 + d.place.length := by
    rw [Declaration.under, List.length_cons]
    omega
  constructor <;> intro h <;> cases h with
  | hoisted hname hlist => exact .hoisted hname hlist
  | pinned hname hlist => exact .pinned hname hlist
  | discarded hname hlist hdeep => exact .discarded hname hlist (by omega)
  | unresolved hname hshallow => exact .unresolved hname (by rwa [hdepth] at *)

end

/-! Judging one run after another, and from one step further up. -/

section
variable {limit depth : Nat} {seen : List String} {ds ds' : List Declaration} {vs vs' : List Verdict}

theorem Judged.append (h : Judged limit depth seen vs)
    (h' : Judged limit depth (seen ++ vs.map (·.declaration.name)) vs') :
    Judged limit depth seen (vs ++ vs') := by
  induction vs generalizing seen with
  | nil => simpa using h'
  | cons v vs ih => exact ⟨h.1, ih h.2 (by simpa using h')⟩

theorem Judged.under (x : Nat × Nat) (h : Judged limit (depth + 1) seen vs) :
    Judged limit depth seen (vs.map (·.under x)) := by
  induction vs generalizing seen with
  | nil => trivial
  | cons v vs ih => exact ⟨fun f => (deserves_under x f).trans (h.1 f), ih h.2⟩

theorem Judged.deserves (h : Judged limit depth seen vs) {v : Verdict} (hv : v ∈ vs) :
    ∃ names, Deserves limit depth names v.declaration v.fate := by
  induction vs generalizing seen with
  | nil => cases hv
  | cons w vs ih =>
    rcases List.mem_cons.mp hv with rfl | hv
    · exact ⟨seen, (h.1 v.fate).mpr rfl⟩
    · exact ih h.2 hv

theorem gone_append (vs vs' : List Verdict) (p : Place) :
    gone (vs ++ vs') p = (gone vs p || gone vs' p) := List.any_append

theorem gone_eq_false {p : Place} (h : ∀ v ∈ vs, v.declaration.place ≠ p) : gone vs p = false := by
  refine List.any_eq_false.mpr fun v hv => ?_
  simp [h v hv]

theorem gone_under (x : Nat × Nat) (vs : List Verdict) (p : Place) :
    gone (vs.map (·.under x)) (x :: p) = gone vs p := by
  rw [gone, gone, List.any_map]
  refine congrArg (vs.any ·) (funext fun v => ?_)
  simp [Verdict.under, Declaration.under]

theorem gone_under_of_ne {x y : Nat × Nat} (hne : y ≠ x) (vs : List Verdict) (p : Place) :
    gone (vs.map (·.under x)) (y :: p) = false := by
  refine gone_eq_false fun v hv => ?_
  obtain ⟨w, -, rfl⟩ := List.mem_map.mp hv
  exact fun h => hne (List.cons.inj h).1.symm

theorem moved_under (x : Nat × Nat) (vs : List Verdict) : moved (vs.map (·.under x)) = moved vs := by
  have hsame (v : Verdict) (p : Place) :
      gone (vs.map (·.under x)) ((v.under x).declaration.place ++ p) =
        gone vs (v.declaration.place ++ p) := gone_under x vs _
  simp only [moved, List.filter_map, List.map_map, Function.comp_def, hsame]
  rfl

theorem Accounts.mem (h : Accounts limit depth seen ds vs) {v : Verdict} (hv : v ∈ vs) :
    v.declaration ∈ ds := by
  have hmem := List.mem_map_of_mem (f := (·.declaration)) hv
  rw [h.reached] at hmem
  exact (List.mem_filter.mp hmem).1

theorem Accounts.append (h : Accounts limit depth seen ds vs)
    (h' : Accounts limit depth (seen ++ vs.map (·.declaration.name)) ds' vs')
    (hbeside : Beside ds ds') : Accounts limit depth seen (ds ++ ds') (vs ++ vs') where
  reached := by
    have hfirst : ∀ d ∈ ds, vs'.any (·.hides d) = false := fun d hd =>
      List.any_eq_false.mpr fun v hv => by
        simp [Verdict.hides, (hbeside d hd _ (h'.mem hv)).symm.above_eq_false]
    have hsecond : ∀ d ∈ ds', vs.any (·.hides d) = false := fun d hd =>
      List.any_eq_false.mpr fun v hv => by
        simp [Verdict.hides, (hbeside _ (h.mem hv) d hd).above_eq_false]
    rw [List.map_append, List.filter_append, h.reached, h'.reached]
    congr 1
    · refine List.filter_congr fun d hd => ?_
      rw [List.any_append, hfirst d hd, Bool.or_false]
    · refine List.filter_congr fun d hd => ?_
      rw [List.any_append, hsecond d hd, Bool.false_or]
  judged := h.judged.append h'.judged

theorem Accounts.under (x : Nat × Nat) (h : Accounts limit (depth + 1) seen ds vs) :
    Accounts limit depth seen (ds.map (·.under x)) (vs.map (·.under x)) where
  reached := by
    have hhides (d : Declaration) : (vs.map (·.under x)).any (·.hides (d.under x)) =
        vs.any (·.hides d) := by
      rw [List.any_map]
      refine congrArg (vs.any ·) (funext fun v => ?_)
      simp [Verdict.hides, Verdict.under, Declaration.under]
    have hmap : (vs.map (·.under x)).map (·.declaration) =
        (vs.map (·.declaration)).map (·.under x) := by
      rw [List.map_map, List.map_map]
      rfl
    rw [hmap, h.reached, List.filter_map]
    refine congrArg (List.map _) (List.filter_congr fun d _ => ?_)
    rw [Function.comp_apply, hhides d]
  judged := h.judged.under x

theorem moved_append (h : Accounts limit depth seen ds vs)
    (h' : Accounts limit depth (seen ++ vs.map (·.declaration.name)) ds' vs')
    (hbeside : Beside ds ds') : moved (vs ++ vs') = moved vs ++ moved vs' := by
  rw [moved, List.filter_append, List.map_append]
  congr 1
  · refine List.map_congr_left fun v hv => congrArg (without · _) (funext fun p => ?_)
    have hrest : gone vs' (v.declaration.place ++ p) = false := gone_eq_false fun w hw =>
      (hbeside _ (h.mem (List.mem_filter.mp hv |>.1)) _ (h'.mem hw)).ne_append p
    rw [gone_append, hrest, Bool.or_false]
  · refine List.map_congr_left fun v hv => congrArg (without · _) (funext fun p => ?_)
    have hrest : gone vs (v.declaration.place ++ p) = false := gone_eq_false fun w hw =>
      (hbeside _ (h.mem hw) _ (h'.mem (List.mem_filter.mp hv |>.1))).symm.ne_append p
    rw [gone_append, hrest, Bool.false_or]

/-! A declaration in front of those inside it. -/

variable {d : Declaration}

theorem Accounts.discarded (hplace : d.place = []) (hinside : ∀ e ∈ ds, e.place ≠ [])
    (hdeserves : ∀ f, Deserves limit depth seen d f ↔ f = .discarded) :
    Accounts limit depth seen (d :: ds) [⟨d, .discarded⟩] where
  reached := by
    have hself : Verdict.hides ⟨d, .discarded⟩ d = false := by
      simp [Verdict.hides, hplace, Place.above]
    have hrest : ds.filter (fun e => !List.any [⟨d, .discarded⟩] (Verdict.hides · e)) = [] := by
      refine List.filter_eq_nil_iff.mpr fun e he => ?_
      simp [Verdict.hides, hplace, Place.above, hinside e he]
    rw [List.filter_cons_of_pos (by simp [hself]), hrest]
    rfl
  judged := ⟨hdeserves, trivial⟩

theorem Accounts.kept {f : Fate} (hplace : d.place = []) (hf : f ≠ .discarded)
    (hinside : ∀ e ∈ ds, e.place ≠ []) (hdeserves : ∀ g, Deserves limit depth seen d g ↔ g = f)
    (h : Accounts limit depth (seen ++ [d.name]) ds vs) :
    Accounts limit depth seen (d :: ds) (⟨d, f⟩ :: vs) where
  reached := by
    have hroot (e : Declaration) : Verdict.hides ⟨d, f⟩ e = false := by simp [Verdict.hides, hf]
    have hself : vs.any (·.hides d) = false := by
      refine List.any_eq_false.mpr fun v hv => ?_
      obtain ⟨x, p, hcons⟩ := List.exists_cons_of_ne_nil (hinside _ (h.mem hv))
      simp [Verdict.hides, hplace, hcons, Place.above]
    simp only [List.map_cons, List.any_cons, hroot, Bool.false_or, h.reached]
    rw [List.filter_cons_of_pos (by simp [hself])]
  judged := ⟨hdeserves, h.judged⟩

theorem gone_root_cons (f : Fate) (hplace : d.place = []) (x : Nat × Nat) (p : Place) :
    gone (⟨d, f⟩ :: vs) (x :: p) = gone vs (x :: p) := by
  simp [gone, hplace]

theorem gone_root_nil (f : Fate) (hplace : d.place = []) (h : Accounts limit depth seen ds vs)
    (hinside : ∀ e ∈ ds, e.place ≠ []) : gone (⟨d, f⟩ :: vs) [] = f.leaves := by
  have hvs : gone vs [] = false := gone_eq_false fun v hv => hinside _ (h.mem hv)
  rw [gone, List.any_cons, hplace]
  exact (congrArg (_ || ·) hvs).trans (by simp)

theorem moved_kept (f : Fate) (hplace : d.place = []) (h : Accounts limit depth seen ds vs)
    (hinside : ∀ e ∈ ds, e.place ≠ []) : moved (⟨d, f⟩ :: vs) =
      (if f = .hoisted then [without (gone vs) d.node] else []) ++ moved vs := by
  have hrest : (vs.filter (·.fate == .hoisted)).map (fun v => without
      (fun p => gone (⟨d, f⟩ :: vs) (v.declaration.place ++ p)) v.declaration.node) = moved vs := by
    refine List.map_congr_left fun v hv => congrArg (without · _) (funext fun p => ?_)
    obtain ⟨x, q, hcons⟩ :=
      List.exists_cons_of_ne_nil (hinside _ (h.mem (List.mem_filter.mp hv).1))
    rw [hcons]
    exact gone_root_cons f hplace x (q ++ p)
  have hroot : without (fun p => gone (⟨d, f⟩ :: vs) (d.place ++ p)) d.node =
      without (gone vs) d.node := by
    refine without_congr _ fun x p => ?_
    rw [hplace]
    exact gone_root_cons f hplace x p
  cases f with
  | hoisted => exact congr (congrArg List.cons hroot) hrest
  | pinned | discarded | unresolved => exact hrest

end

section
variable {limit depth : Nat} {seen : List String} {vs : List Verdict}

theorem Accounts.root_stays {c : Node} (h : Accounts limit depth seen (declarations false c) vs) :
    gone vs [] = false := by
  refine List.any_eq_false.mpr fun v hv hgone => ?_
  simp only [Bool.and_eq_true, beq_iff_eq] at hgone
  obtain ⟨names, hdeserves⟩ := h.judged.deserves hv
  exact Bool.false_ne_true
    ((inList_of_root (h.mem hv) hgone.1).symm.trans (hdeserves.inList hgone.2))

theorem Accounts.gone_later {ds : List Declaration} (h : Accounts limit depth seen ds vs)
    (P : Nat × Nat → Prop) (hstarts : ∀ d ∈ ds, ∃ x p, d.place = x :: p ∧ P x) {x : Nat × Nat}
    (hx : ¬ P x) (p : Place) : gone vs (x :: p) = false := by
  refine gone_eq_false fun v hv => ?_
  obtain ⟨y, q, hplace, hPy⟩ := hstarts _ (h.mem hv)
  rw [hplace]
  exact fun heq => hx ((List.cons.inj heq).1 ▸ hPy)

end

end Unravel.Hoist
