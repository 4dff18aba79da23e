import Unravel.Session
import Unravel.Proofs.Sharing.Copy
import Unravel.Proofs.Sharing.Structure

/-! Sessions in which each node stands at one position of the loaded trees. Passes, renames, collapsed
factories and hoistings keep it so, whatever the trees share through the recorded functions. -/

namespace Unravel

open Node

theorem Table.exists_split {α : Type} {t : Table α} {name : String} {a : α}
    (hnames : (t.map (·.1)).Nodup) (h : t.get? name = some a) :
    ∃ before after, t = before ++ (name, a) :: after ∧
      ∀ b, t.set name b = before ++ (name, b) :: after := by
  obtain ⟨⟨x, a'⟩, hfind, rfl⟩ := Option.map_eq_some_iff.mp h
  obtain ⟨hx, before, after, rfl, hbefore⟩ := List.find?_eq_some_iff_append.mp hfind
  cases (beq_iff_eq.mp hx : x = name)
  refine ⟨before, after, rfl, fun b => ?_⟩
  rw [List.map_append, List.map_cons, List.nodup_append] at hnames
  obtain ⟨-, hlater, -⟩ := hnames
  obtain ⟨hfirst, -⟩ := List.nodup_cons.mp hlater
  have hkeep (es : Table α) (hes : ∀ e ∈ es, e.1 ≠ name) :
      (es.map fun e => if e.1 == name then (name, b) else e) = es := by
    refine (List.map_congr_left fun e he => ?_).trans (List.map_id es)
    rw [if_neg (by simpa using hes e he)]
    rfl
  have hhas : Table.has (before ++ (name, a') :: after) name = true := by simp [Table.has]
  rw [Table.set, if_pos hhas, List.map_append, List.map_cons, hkeep before, hkeep after, if_pos hx]
  · exact fun e he heq => hfirst (List.mem_map.mpr ⟨e, he, heq⟩)
  · exact fun e he => by simpa using hbefore e he

namespace Fixpoint

def Progress.after (p : Progress) (r : Node × Pass.State) : Progress :=
  { tree := r.1, facts := r.2.facts, next := r.2.next, log := r.2.log ++ p.log }

def Ran (fuel : Nat) (rules : List Rule) (settings : Settings) (p : Progress) (ks : List Copy) :
    Prop :=
  ks = [] ∨ ∃ mutated, Pass.written settings p.tree = .ok mutated ∧
    Pass.Makes ⟨rules, settings, mutated⟩ (p.tree, { facts := p.facts, next := p.next }) ks
      (Pass.run fuel rules settings p.tree p.facts p.next)

inductive Makes (rules : List Rule) (settings : Settings) (p : Progress) :
    List Copy → Progress → Prop
  | refl : Makes rules settings p [] p
  | pass {ks ls : List Copy} {q : Progress} (fuel : Nat) :
    Makes rules settings p ks q → Ran fuel rules settings q ls →
    Makes rules settings p (ks ++ ls)
      (q.after (Pass.run fuel rules settings q.tree q.facts q.next))

variable {rules : List Rule} {settings : Settings}

theorem loop_makes (fuel : Nat) {limit : Nat} {done : List Pass.Stats} {p q : Progress}
    {ks : List Copy} (h : Makes rules settings p ks q) :
    Makes rules settings p ks (loop fuel rules settings limit done q).1 := by
  induction limit generalizing done q with
  | zero => exact h
  | succ limit ih =>
    have hpass := Makes.pass fuel h (.inl rfl)
    rw [List.append_nil] at hpass
    rw [loop]
    dsimp only
    split
    · exact hpass
    · split
      · exact hpass
      · exact ih hpass

theorem run_makes (fuel : Nat) (tree : Node) (facts : Facts) (next : Nat) :
    Makes rules settings { tree, facts, next } [] (run fuel rules settings tree facts next).1 := by
  have hstart : Makes rules settings { tree, facts, next } [] { tree, facts, next } := .refl
  have hloop := @loop_makes rules settings fuel settings.passLimit [] _ _ [] hstart
  unfold run
  dsimp only
  split
  · exact .refl
  · split
    · rename_i hl
      rw [hl] at hloop
      exact hloop
    · rename_i hl
      rw [hl] at hloop
      split <;> exact hloop

def Settled (p : Progress) : Prop := Pass.Settled p.tree { facts := p.facts, next := p.next }

theorem Makes.fresh (hrules : Rule.catalog settings = .ok rules) {p q : Progress} {ks : List Copy}
    (h : Makes rules settings p ks q) (hp : Settled p) :
    Settled q ∧ Reuses p.next p.tree.marks q.next q.tree.marks ∧ Copy.Fresh p.next ks q.next := by
  induction h with
  | refl => exact ⟨hp, .refl (every_placed_iff.mp hp.tree).2, .nil _ _⟩
  | @pass ks ls q fuel _ hran ih =>
    obtain ⟨hq, hreuses, hfresh⟩ := ih
    generalize hrun : Pass.run fuel rules settings q.tree q.facts q.next = r at hran ⊢
    obtain ⟨tree, st⟩ := r
    have hpass : Pass.Settled tree st ∧ Reuses q.next q.tree.marks st.next tree.marks := by
      rcases Pass.run_cases hrun with ⟨f, -, rfl, rfl⟩ | ⟨mutated, -, hvisit⟩
      · exact ⟨⟨hq.tree, hq.recorded⟩, .refl (every_placed_iff.mp hq.tree).2⟩
      · have hstandard : Pass.Env.Standard ⟨rules, settings, mutated⟩ := hrules
        exact (Pass.visit_steps fuel hvisit).1.settled hstandard hq
    have hmade : Copy.Fresh q.next ls st.next := by
      rcases hran with rfl | ⟨mutated, -, hmakes⟩
      · exact .nil _ _
      · have hstandard : Pass.Env.Standard ⟨rules, settings, mutated⟩ := hrules
        rw [hrun] at hmakes
        exact hmakes.fresh hstandard hq
    exact ⟨⟨hpass.1.tree, hpass.1.recorded⟩, hreuses.trans hpass.2,
      hfresh.append hmade hreuses.le hpass.2.le⟩

end Fixpoint

namespace Session

def marks (s : Session) : List Nat := s.trees.flatMap fun e => e.2.marks

/-- Each node stands at one position of the loaded trees, and a mark that is given to a new node was
not given out before. -/
structure Apart (s : Session) : Prop where
  slots : (s.trees.map (·.1)).Nodup
  placed : ∀ e ∈ s.trees, e.2.Every (Placed s.next)
  recorded : s.facts.Recorded (Node.Every (Aged s.next))
  once : s.marks.Nodup

def advance (s : Session) (slot : String) (p : Fixpoint.Progress) : Session :=
  { s with
    trees := s.trees.set slot p.tree, facts := p.facts, next := p.next, log := p.log ++ s.log }

/-- A step on one of the loaded trees, with copies that are made in it. A pass and a rewrite to a fixed
point are passes. -/
inductive Step (s : Session) : List Copy → Session → Prop
  | passes {slot : String} {tree : Node} {ks : List Copy} {p : Fixpoint.Progress} :
    s.trees.get? slot = some tree →
    Fixpoint.Makes s.rules s.settings { tree, facts := s.facts, next := s.next } ks p →
    Step s ks (s.advance slot p)
  | rename {slot : String} {tree : Node} (old new : String) :
    s.trees.get? slot = some tree → Step s [] (s.rename slot tree old new).1
  | collapse {slot : String} {tree : Node} :
    s.trees.get? slot = some tree → Step s [] (s.collapse slot tree).1
  | hoist {slot : String} {tree : Node} :
    s.trees.get? slot = some tree → Step s [] (s.hoist slot tree).1

inductive Steps (s : Session) : List Copy → Session → Prop
  | refl : Steps s [] s
  | tail {ks ls : List Copy} {s' s'' : Session} :
    Steps s ks s' → Step s' ls s'' → Steps s (ks ++ ls) s''

theorem runPass_fst (s : Session) (slot : String) (tree : Node) :
    (s.runPass slot tree).1 = s.advance slot (Fixpoint.Progress.after
      { tree, facts := s.facts, next := s.next }
      (Pass.run visitBound s.rules s.settings tree s.facts s.next)) := by
  unfold runPass advance Fixpoint.Progress.after
  rw [List.append_nil]
  dsimp only
  split <;> rfl

theorem step_runPass {s : Session} {slot : String} {tree : Node}
    (h : s.trees.get? slot = some tree) : Step s [] (s.runPass slot tree).1 := by
  rw [runPass_fst]
  exact .passes h (.pass visitBound .refl (.inl rfl))

theorem step_simplify {s : Session} {slot : String} {tree : Node}
    (h : s.trees.get? slot = some tree) : Step s [] (s.simplify slot tree).1 :=
  .passes h (Fixpoint.run_makes visitBound tree s.facts s.next)

variable {s s' : Session} {slot : String} {tree : Node}

theorem Apart.settled (h : s.Apart) (hget : s.trees.get? slot = some tree) :
    Fixpoint.Settled { tree, facts := s.facts, next := s.next } := by
  obtain ⟨before, after, heq, -⟩ := Table.exists_split h.slots hget
  refine ⟨h.placed (slot, tree) ?_, h.recorded⟩
  rw [heq]
  exact List.mem_append_right _ (List.mem_cons_self ..)

theorem Apart.exchange {tree' : Node} (h : s.Apart) (hget : s.trees.get? slot = some tree)
    (htrees : s'.trees = s.trees.set slot tree') (hplaced : tree'.Every (Placed s'.next))
    (hreuses : Reuses s.next tree.marks s'.next tree'.marks)
    (hrecorded : s'.facts.Recorded (Node.Every (Aged s'.next))) : s'.Apart := by
  obtain ⟨before, after, heq, hset⟩ := Table.exists_split h.slots hget
  rw [hset tree'] at htrees
  have hslots := h.slots
  have hold := h.placed
  have honce := List.nodup_iff_count_le_one.mp h.once
  rw [marks, heq] at honce
  rw [heq] at hslots hold
  refine ⟨?_, ?_, hrecorded, List.nodup_iff_count_le_one.mpr fun m => ?_⟩
  · rw [htrees]
    simpa using hslots
  · rw [htrees]
    intro e he
    rcases List.mem_append.mp he with he | he
    · exact (hold e (List.mem_append_left _ he)).mono fun _ hc => hc.mono hreuses.le
    rcases List.mem_cons.mp he with rfl | he
    · exact hplaced
    · have hmem := List.mem_append_right before (List.mem_cons_of_mem (slot, tree) he)
      exact (hold e hmem).mono fun _ hc => hc.mono hreuses.le
  · rw [marks, htrees]
    have hcount := honce m
    simp only [List.flatMap_append, List.flatMap_cons, List.count_append] at hcount ⊢
    by_cases hm : m < s.next
    · have hless := hreuses.old m hm
      omega
    · have hnone (es : Table Node) (hes : ∀ e ∈ es, e.2.Every (Placed s.next)) :
          (es.flatMap fun e => e.2.marks).count m = 0 := by
        rw [List.count_eq_zero, List.mem_flatMap]
        rintro ⟨e, he, hmem⟩
        have haged := (hes e he).mono fun _ hc => hc.aged
        exact hm (every_aged_iff.mp haged m hmem)
      have hbefore := hnone before fun e he => hold e (List.mem_append_left _ he)
      have hafter := hnone after fun e he =>
        hold e (List.mem_append_right _ (List.mem_cons_of_mem _ he))
      have hnew := hreuses.new m (Nat.not_lt.mp hm)
      omega

theorem Apart.settle {tree' : Node} (h : s.Apart) (hget : s.trees.get? slot = some tree)
    (hless : ∀ m, tree'.marks.count m ≤ tree.marks.count m) :
    (s.settle slot tree').Apart ∧ s.next ≤ (s.settle slot tree').next := by
  have hmarks := (every_placed_iff.mp (h.settled hget).tree).2
  have hnumbers := numbers_number tree' s.next
  have hreuses := Reuses.of_numbers hnumbers hless hmarks
  have hplaced : (tree'.number s.next).1.Every (Placed (tree'.number s.next).2) :=
    every_placed_iff.mpr ⟨isSome_mark_number tree' s.next, hreuses.lt⟩
  have hrecorded : s.facts.Recorded (Node.Every (Aged (tree'.number s.next).2)) :=
    fun e he => (h.recorded e he).mono fun _ hc => hc.mono hnumbers.le
  refine ⟨h.exchange hget rfl hplaced hreuses (hrecorded.refresh fun mark fn hfn => ?_), hreuses.le⟩
  -- the function is looked up in the tree, where all nodes are placed
  exact (hplaced.below (List.mem_of_find?_eq_some hfn)).mono fun _ hc => hc.aged

theorem Step.apart {ks : List Copy} (hrules : Rule.catalog s.settings = .ok s.rules)
    (h : Step s ks s') (hs : s.Apart) :
    s'.Apart ∧ s.next ≤ s'.next ∧ Copy.Fresh s.next ks s'.next := by
  cases h with
  | @passes slot tree ks p hget hmakes =>
    obtain ⟨hsettled, hreuses, hfresh⟩ := hmakes.fresh hrules (hs.settled hget)
    exact ⟨hs.exchange hget rfl hsettled.tree hreuses hsettled.recorded, hreuses.le, hfresh⟩
  | @rename slot tree old new hget =>
    have hless (m : Nat) : (tree.rename old new).1.marks.count m ≤ tree.marks.count m :=
      Nat.le_of_eq (by rw [marks_rename])
    obtain ⟨hapart, hle⟩ := hs.settle hget hless
    exact ⟨hapart, hle, .nil _ _⟩
  | @collapse slot tree hget =>
    unfold Session.collapse
    split
    · exact ⟨hs, Nat.le_refl _, .nil _ _⟩
    · rename_i tree' names hcollapse
      obtain ⟨hapart, hle⟩ := hs.settle hget (Factory.count_collapse_le hcollapse)
      exact ⟨hapart, hle, .nil _ _⟩
  | @hoist slot tree hget =>
    obtain ⟨hapart, hle⟩ := hs.settle hget (Hoist.count_hoist_le s.settings.dedupDepth tree)
    exact ⟨hapart, hle, .nil _ _⟩

theorem Step.rules_eq {ks : List Copy} (h : Step s ks s') :
    s'.rules = s.rules ∧ s'.settings = s.settings := by
  cases h with
  | passes => exact ⟨rfl, rfl⟩
  | rename => exact ⟨rfl, rfl⟩
  | collapse =>
    unfold Session.collapse
    split <;> exact ⟨rfl, rfl⟩
  | hoist => exact ⟨rfl, rfl⟩

theorem Steps.rules_eq {ks : List Copy} (h : Steps s ks s') :
    s'.rules = s.rules ∧ s'.settings = s.settings := by
  induction h with
  | refl => exact ⟨rfl, rfl⟩
  | tail _ hstep ih => exact ⟨hstep.rules_eq.1.trans ih.1, hstep.rules_eq.2.trans ih.2⟩

theorem Steps.fresh {ks : List Copy} (hrules : Rule.catalog s.settings = .ok s.rules)
    (h : Steps s ks s') (hs : s.Apart) :
    s'.Apart ∧ s.next ≤ s'.next ∧ Copy.Fresh s.next ks s'.next := by
  induction h with
  | refl => exact ⟨hs, Nat.le_refl _, .nil _ _⟩
  | tail hsteps hstep ih =>
    obtain ⟨hapart, hle, hfresh⟩ := ih
    obtain ⟨hsame, hsame'⟩ := hsteps.rules_eq
    rw [← hsame, ← hsame'] at hrules
    obtain ⟨hapart', hle', hfresh'⟩ := hstep.apart hrules hapart
    exact ⟨hapart', Nat.le_trans hle hle', hfresh.append hfresh' hle hle'⟩

/-- However passes, renames, collapses and hoistings follow each other, each node stays at one position
of the loaded trees, and an inlined copy shares no node with its function, with the arguments of the
call or with another copy. -/
theorem nodes_stay_apart {ks : List Copy} (hrules : Rule.catalog s.settings = .ok s.rules)
    (hs : s.Apart) (h : Steps s ks s') :
    s'.Apart ∧ (∀ k ∈ ks, k.Apart) ∧
      ks.Pairwise fun k l => k.node.marks.Disjoint l.node.marks := by
  obtain ⟨hapart, -, hfresh⟩ := h.fresh hrules hs
  exact ⟨hapart, hfresh.apart, hfresh.disjoint⟩

def giveBack : Node :=
  .functionDeclaration ⟨some 1, none⟩ (some (.identifier ⟨some 2, none⟩ "f"))
    [some (.identifier ⟨some 3, none⟩ "a")]
    (some (.blockStatement ⟨some 4, none⟩
      [some (.returnStatement ⟨some 5, none⟩ (some (.identifier ⟨some 6, none⟩ "a")))]))

def giveBackCall (mark : Nat) (v : Value) : Node :=
  .expressionStatement ⟨some mark, none⟩
    (.callExpression ⟨some (mark + 1), none⟩ (.identifier ⟨some (mark + 2), none⟩ "f")
      [some (.literal ⟨some (mark + 3), none⟩ v)])

/-- `f(2); f(3);` -/
def twoCalls : Node :=
  .program ⟨some 7, none⟩ [some (giveBackCall 8 (.int 2)), some (giveBackCall 12 (.int 3))]

def twoTrees : Session where
  rules := Rule.standard
  settings := {}
  facts := { functions := [("f", giveBack)] }
  trees := [("lib", .program ⟨some 0, none⟩ [some giveBack]), ("app", twoCalls)]
  next := 16

def giveBackCopy (mark : Nat) (v : Value) (next : Nat) : Copy :=
  ⟨giveBack, [some (.literal ⟨some (mark + 3), none⟩ v)], .literal ⟨some next, none⟩ v⟩

theorem ran_twoCalls : Fixpoint.Ran 12 Rule.standard {}
    { tree := twoCalls, facts := twoTrees.facts, next := 16 }
    [giveBackCopy 8 (.int 2) 16, giveBackCopy 12 (.int 3) 17] := by
  refine .inr ⟨[], rfl, ?_⟩
  let program (left right : List (Option Node)) : Frame :=
    ⟨⟨some 7, none⟩, .program, [], .item left right, []⟩
  let statement (mark : Nat) : Frame := ⟨⟨some mark, none⟩, .expressionStatement, [], .single, []⟩
  let inlined := Node.expressionStatement ⟨some 8, none⟩ (.literal ⟨some 16, none⟩ (.int 2))
  have hstart : Pass.Makes ⟨Rule.standard, {}, []⟩
    (twoCalls, { facts := twoTrees.facts, next := 16 }) [] _ := .refl
  have hcall := ((((hstart.step (.note (e := .entered) rfl rfl)).step
    (.note (e := .descended (some 7)) rfl rfl)).step (.note (e := .entered) rfl rfl)).step
    (.note (e := .descended (some 8)) rfl rfl)).step (.note (e := .entered) rfl rfl)
  have hfirst := hcall.inline (k := giveBackCopy 8 (.int 2) 16)
    (@Pass.Inlines.mk _ [statement 8, program [] [some (giveBackCall 12 (.int 3))]] _ _ _
      (.literal (.fresh none) (.int 2)) _ _ 8 ⟨_, rfl, rfl⟩ rfl rfl rfl)
  have hcall' := (((hfirst.step (.note (e := .descended (some 16)) rfl rfl)).step
    (.note (e := .entered) rfl rfl)).step (.note (e := .descended (some 12)) rfl rfl)).step
    (.note (e := .entered) rfl rfl)
  have hsecond := hcall'.inline (k := giveBackCopy 12 (.int 3) 17)
    (@Pass.Inlines.mk _ [statement 12, program [some inlined] []] _ _ _
      (.literal (.fresh none) (.int 3)) _ _ 8 ⟨_, rfl, rfl⟩ rfl rfl rfl)
  exact hsecond.step (.note (e := .descended (some 17)) rfl rfl)

theorem twoTrees_stay_apart : ∃ s',
    twoTrees.Steps [giveBackCopy 8 (.int 2) 16, giveBackCopy 12 (.int 3) 17] s' ∧ s'.Apart ∧
      (∀ k ∈ [giveBackCopy 8 (.int 2) 16, giveBackCopy 12 (.int 3) 17], k.Apart) ∧
      [giveBackCopy 8 (.int 2) 16, giveBackCopy 12 (.int 3) 17].Pairwise
        fun k l => k.node.marks.Disjoint l.node.marks := by
  have hrecorded : ∀ e ∈ twoTrees.facts.functions, e.2.Every (Aged 16) := by decide
  have hapart : twoTrees.Apart := ⟨by decide, by decide, hrecorded, by decide⟩
  have happ : twoTrees.trees.get? "app" = some twoCalls := rfl
  have hpass := Steps.refl.tail (.passes happ (.pass 12 .refl ran_twoCalls))
  have hhoist := hpass.tail (.hoist (show Table.get? _ "lib" = some _ from rfl))
  exact ⟨_, hhoist, nodes_stay_apart rfl hapart hhoist⟩

end Session
end Unravel
